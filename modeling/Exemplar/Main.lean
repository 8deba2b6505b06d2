import Exemplar.Cli
import Exemplar.Recording

/-!
# The program

The thin layer between `Cli.run` and a system: it reads the environment,
the files a command may read, and the recording of a server from standard
input; runs the command; and writes what was printed and the files that
are new or changed.
-/

namespace Exemplar

/-- All text of a stream. -/
partial def readAll (stream : IO.FS.Stream) (before : String) : IO String := do
  let line ← stream.getLine
  if line.isEmpty then return before
  readAll stream (before ++ line)

/-- The variables that are set. -/
def environment : IO Environment := do
  let values ← Environment.names.mapM fun name => do
    return (name, ← IO.getEnv name)
  return values.filterMap fun (name, value) => value.map (name, ·)

/-- The files with what there is at a place: a directory, or the text of a
file. -/
def addPlace (files : Files) (p : Place) : IO Files := do
  try
    let _ ← IO.FS.Handle.mk (p.text ++ "/.") .read
    return { files with made := p :: files.made }
  catch _ =>
    try
      return files.put p (← IO.FS.readFile p.text)
    catch _ => return files

/-- The places that a walk along a path comes to. -/
def placesOn (p : Path) : List Place :=
  (List.range (p.parts.length + 1)).map fun n => Place.ofPath { p with parts := p.parts.take n }

/-- Writes the files that differ from those at the start. -/
def writeFiles (before after : Files) : IO Unit := do
  for p in after.made.reverse do
    if p ∉ before.made then IO.FS.createDirAll p.text
  for (p, s) in after.texts.reverse do
    if before.texts.lookup p ≠ some s then
      IO.FS.writeFile p.text s

/-- The line for a failure that ends a command. -/
def failureLine : Fault → String
  | .problem p => p.message
  | .breach b => b.sort.label ++ ": " ++ b.text

end Exemplar

open Exemplar in
/-- **Runs the program.** -/
def main (args : List String) : IO UInt32 := do
  match Config.ofEnvironment (← environment) with
  | .error f =>
    IO.eprintln (failureLine f)
    return 1
  | .ok config =>
    let names := Cli.argumentNames args ++ Cli.configuredNames config.generator
    let places := names.flatMap fun name => placesOn (Path.ofText name)
    let files ← places.foldlM addPlace Files.none
    let needsServer := match Cli.Invocation.ofArguments files args with
      | .error _ | .ok .help | .ok .version => false
      | _ => true
    let recorded ← if needsServer then readAll (← IO.getStdin) "" else pure "\x7b\x7d"
    match Json.decode recorded with
    | .error e =>
      IO.eprintln e.message
      return 1
    | .ok recording =>
      let server := Recording.server recording
      let files ← ((Cli.cacheFiles server config args).map Place.ofPath).foldlM addPlace files
      let (outcome, s) := (Cli.run server config args).perform { files }
      for line in s.printed do IO.println line
      writeFiles files s.files
      match outcome with
      | .ok exit => return exit.status.toUInt32
      | .error f =>
        IO.eprintln (failureLine f)
        return 1
