import Exemplar.Cli.Arguments
import Exemplar.Config

/-!
# Invocations

What a command line asks for. There are three commands: one generates the
package, one shows the schemas of one action, and one lists the services.
A command line that does not fit is a misuse: a command there is none of,
switches or operands that do not belong to it, a number of workers that
is none, override rules that are not in a file, or an output directory
that is a file. To ask for nothing is a misuse as well. A name that no
file can have is worse than that, and ends the command with a breach.

The values of switches are checked in the order in which the switches
are first given, and the first one that does not fit decides; only then
do the operands count.
-/

namespace Exemplar.Cli

/-- **What a command line asks for.** -/
inductive Invocation where
  | help
  | version
  | generate (host auth output overrides : Option String) (internals : Bool)
    (workers : Option Int) (snapshot : Option Bool)
  | inspect (endpoint action : String) (host auth overrides : Option String)
  | listServices (host auth : Option String) (internals : Bool)
  deriving DecidableEq, Repr

/-! ## Switches -/

/-- The switch that asks for help, which every command has. -/
def helpSwitch : Switch := ⟨"--help", [], false⟩

/-- The switches in front of a command. -/
def commonSwitches : List Switch := [⟨"--version", [], false⟩, helpSwitch]

/-- A switch with a value. -/
def valued (name : String) : Switch := ⟨name, [], true⟩

/-- A switch without value. -/
def plain (name : String) : Switch := ⟨name, [], false⟩

/-- A switch for more messages. -/
def verboseSwitch : Switch := ⟨"--verbose", ["-v"], false⟩

/-- The switches of the command that generates the package. -/
def generateSwitches : List Switch := [
  valued "--host", valued "--auth", plain "--internal", valued "--output", valued "--overrides",
  valued "--workers", plain "--snapshot", plain "--no-snapshot", verboseSwitch, helpSwitch]

/-- The switches of the command that shows one action. -/
def inspectSwitches : List Switch := [
  valued "--host", valued "--auth", valued "--overrides", verboseSwitch, helpSwitch]

/-- The switches of the command that lists the services. -/
def listSwitches : List Switch := [
  valued "--host", valued "--auth", plain "--internal", helpSwitch]

/-! ## Values of switches -/

/-- **Why a command line asks for nothing.** -/
inductive Refusal where
  | misuse
  | breach (b : Breach)
  deriving DecidableEq, Repr

/-- What there is at a name on the command line: a directory, a file, or
nothing. -/
def lookAt (files : Files) (name : String) : Except Refusal (Option Bool) :=
  match files.leadsToDir name with
  | .ok isDir => .ok (some isDir)
  | .error .nul => .error (.breach (FileTrouble.nul.breach (Path.ofText name)))
  | .error _ => .ok none

/-- A number of workers. -/
def workers? (s : String) : Option Int := (Number.parseInt s).toOption

/-- **Checks the value of a switch**: override rules must be in a file, an
output directory must not be a file, and a number of workers must be a
number. -/
def checkValue (files : Files) (name value : String) : Except Refusal Unit :=
  match name with
  | "--overrides" => do
    if (← lookAt files value) ≠ some false then throw .misuse
  | "--output" => do
    if (← lookAt files value) = some false then throw .misuse
  | "--workers" => if (workers? value).isNone then throw .misuse else pure ()
  | _ => pure ()

/-- Checks the values of all switches. -/
def checkValues (files : Files) (a : Arguments) : Except Refusal Unit :=
  (a.switches.map Prod.fst).eraseDups.forM fun name =>
    checkValue files name ((a.value? name).getD "")

/-- Whether the schemas are to be written, if that is said; the last word
counts. -/
def snapshot (a : Arguments) : Option Bool :=
  (a.switches.reverse.find? fun s => s.1 = "--snapshot" ∨ s.1 = "--no-snapshot").map
    fun s => s.1 = "--snapshot"

/-! ## Reading a command line -/

/-- The invocation of a command with its arguments, if the number of
operands fits. -/
def ofChecked (name : String) (a : Arguments) : Option Invocation :=
  let host := a.value? "--host"
  let auth := a.value? "--auth"
  match name, a.operands with
  | "generate", [] =>
    some (.generate host auth (a.value? "--output") (a.value? "--overrides")
      (a.has "--internal") ((a.value? "--workers").bind workers?) (snapshot a))
  | "inspect", [endpoint, action] =>
    some (.inspect endpoint action host auth (a.value? "--overrides"))
  | "list-services", [] => some (.listServices host auth (a.has "--internal"))
  | _, _ => none

/-- The switches of a command, if there is one of that name. -/
def switchesOf? : String → Option (List Switch)
  | "generate" => some generateSwitches
  | "inspect" => some inspectSwitches
  | "list-services" => some listSwitches
  | _ => none

/-- What is there, or else the command line does not fit. -/
def orMisuse {α : Type} : Option α → Except Refusal α
  | some a => .ok a
  | none => .error .misuse

/-- **Reads what follows the name of a command.** Whoever asks for help
gets it before any value is looked at. -/
def ofCommand (files : Files) (name : String) (args : List String) :
    Except Refusal Invocation := do
  let switches ← orMisuse (switchesOf? name)
  let a ← orMisuse (scan switches true args)
  if a.has "--help" then return .help
  checkValues files a
  orMisuse (ofChecked name a)

/-- **Reads a command line.** What is asked for in front of a command is
answered at once. -/
def Invocation.ofArguments (files : Files) (args : List String) :
    Except Refusal Invocation := do
  let a ← orMisuse (scan commonSwitches false args)
  match a.switches with
  | (name, _) :: _ => return if name = "--version" then .version else .help
  | [] =>
    match a.operands with
    | [] => .error .misuse
    | name :: rest => ofCommand files name rest

end Exemplar.Cli
