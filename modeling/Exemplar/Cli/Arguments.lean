/-!
# Arguments of a command

Switches and operands. A long switch takes its value from behind an
equals sign or from the next argument, whatever that looks like; short
switches may share a dash; two dashes alone end the switches. A switch
that is not known, lacks its value, or has one it does not take is a
misuse, and there is nothing to say about it but that.
-/

namespace Exemplar.Cli

/-- **A switch**: the name it is known by, its other spellings, and
whether it takes a value. -/
structure Switch where
  name : String
  others : List String := []
  takesValue : Bool := false
  deriving DecidableEq, Repr

/-- **The arguments of a command**: the switches with their values, and
the operands, each in order. -/
structure Arguments where
  switches : List (String × String) := []
  operands : List String := []
  deriving DecidableEq, Repr

namespace Arguments

/-- The value of a switch; the last one counts. -/
def value? (a : Arguments) (name : String) : Option String :=
  a.switches.reverse.lookup name

/-- A switch is given. -/
def has (a : Arguments) (name : String) : Bool := (a.value? name).isSome

/-- The arguments with switches in front of them. -/
def addSwitches (given : List (String × String)) (a : Arguments) : Arguments :=
  { a with switches := given ++ a.switches }

/-- The arguments with an operand in front of them. -/
def addOperand (operand : String) (a : Arguments) : Arguments :=
  { a with operands := operand :: a.operands }

end Arguments

/-- The switch with a spelling. -/
def spelled (switches : List Switch) (spelling : String) : Option Switch :=
  switches.find? fun s => s.name = spelling ∨ spelling ∈ s.others

/-- An argument in two parts, at the first equals sign. -/
def splitValue (arg : String) : String × Option String :=
  match arg.toList.dropWhile (· ≠ '=') with
  | [] => (arg, none)
  | _ :: value => (String.ofList (arg.toList.takeWhile (· ≠ '=')), some (String.ofList value))

/-- The names of the short switches that share a dash. -/
def shortNames (switches : List Switch) : List Char → Option (List (String × String))
  | [] => some []
  | c :: cs => do
    let s ← spelled switches (String.ofList ['-', c])
    let rest ← shortNames switches cs
    return (s.name, "") :: rest

/-- An argument that starts like a switch. -/
def isSwitch (arg : String) : Bool :=
  match arg.toList with
  | '-' :: _ :: _ => true
  | _ => false

/-- An argument that starts like a long switch. -/
def isLong (arg : String) : Bool :=
  match arg.toList with
  | '-' :: '-' :: _ => true
  | _ => false

/-- **Reads arguments.** With `mixed`, switches may follow operands;
without, the first operand and all after it are operands. -/
def scan (switches : List Switch) (mixed : Bool) : List String → Option Arguments
  | [] => some {}
  | arg :: rest =>
    if arg = "--" then some { operands := rest }
    else if !isSwitch arg then
      if mixed then (scan switches mixed rest).map (·.addOperand arg)
      else some { operands := arg :: rest }
    else if !isLong arg then
      match shortNames switches (arg.toList.drop 1) with
      | some given => (scan switches mixed rest).map (·.addSwitches given)
      | none => none
    else
      let (spelling, value?) := splitValue arg
      match spelled switches spelling with
      | none => none
      | some s =>
        match s.takesValue, value? with
        | false, none => (scan switches mixed rest).map (·.addSwitches [(s.name, "")])
        | false, some _ => none
        | true, some value => (scan switches mixed rest).map (·.addSwitches [(s.name, value)])
        | true, none =>
          match rest with
          | [] => none
          | value :: rest => (scan switches mixed rest).map (·.addSwitches [(s.name, value)])

end Exemplar.Cli
