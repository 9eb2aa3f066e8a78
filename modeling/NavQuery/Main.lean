import NavQuery.Catalog.File
import NavQuery.CommandLine
import NavQuery.Plan.Report

/-!
Reads the arguments, the environment and the files, and prints what the library makes of them.
-/

namespace NavQuery.Program

structure Surroundings where
  places : Settings.Places
  screenWidth : Nat
  isTerminal : Bool

structure Request where
  options : Plan.Options
  mode : Mode
  screen : Plan.Screen

def Request.of (c : CommandLine) (s : Settings) (here : Surroundings) : Request :=
  let color := (c.color.orElse fun _ => s.color).getD true && here.isTerminal
  { options :=
      { limit := (c.limit.orElse fun _ => s.limit).map Int.ofNat
        dialect := (c.dialect.orElse fun _ => s.dialect).getD .ansi
        explain := c.explain }
    mode := (c.mode.orElse fun _ => s.mode).getD .sql
    screen := ⟨color, here.isTerminal, here.screenWidth⟩ }

/-- Parameters are texts without a domain; a later one replaces an earlier one of its name. -/
def environment (parameters : List (Text × Text)) : Environment :=
  parameters.reverse.map fun (name, value) => (name, ⟨.text value, none⟩)

def answer (r : Request) (parameters : List (Text × Text)) (catalog : Catalog) (query : Text) :
    Except Text Text :=
  match Plan.ofText catalog (environment parameters) r.options query with
  | .ok explained => .ok (explained.report r.screen r.mode)
  | .error e => .error e.describe

def missingCatalog : Text := "Missing --catalog <file.json>"

def unreadableFile (path : Text) : Text := "Failed to open file: " ++ path

def unreadableSettings (path : Text) : Text := "Failed to open config: " ++ path

def filePath (t : Text) : String := (String.fromUTF8? ⟨t.toArray⟩).getD ""

def write (stream : IO.FS.Stream) (t : Text) : IO Unit := do
  stream.write ⟨t.toArray⟩
  stream.flush

def fail (p : Palette) (message : Text) : IO UInt32 := do
  write (← IO.getStderr) (p.paint (·.red) "Error: " ++ message ++ "\n")
  return 1

def environmentText (name : String) : IO (Option Text) := do return (← IO.getEnv name).map Text.ofString

def surroundings : IO Surroundings := do
  let places : Settings.Places :=
    ⟨← environmentText "NAVSQL_CONFIG", ← environmentText "XDG_CONFIG_HOME", ← environmentText "HOME"⟩
  return ⟨places, Box.screenWidth (← environmentText "COLUMNS"), ← (← IO.getStdout).isTty⟩

def readFile (path : Text) : ExceptT Text IO Text := do
  match ← (IO.FS.readBinFile (filePath path)).toBaseIO with
  | .ok bytes => return bytes.toList
  | .error _ => throw (unreadableFile path)

def readSettings (path : Text) : ExceptT Text IO Settings := do
  match ← (IO.FS.readBinFile (filePath path)).toBaseIO with
  | .ok bytes =>
    match Settings.read bytes.toList with
    | (s, none) => return s
    | (_, some problem) => throw problem.message
  | .error (.permissionDenied ..) => throw (unreadableSettings path)
  | .error _ => return .empty

partial def readAll (stream : IO.FS.Stream) (got : ByteArray) : IO ByteArray := do
  let next ← stream.read 65536
  if next.isEmpty then return got else readAll stream (got ++ next)

def readQuery (c : CommandLine) : ExceptT Text IO Text := do
  if !c.query.isEmpty then return c.query
  else if !c.queryFile.isEmpty then readFile c.queryFile
  else return (← readAll (← IO.getStdin) .empty).toList

def respond (c : CommandLine) (r : Request) : ExceptT Text IO Text := do
  if c.catalog.isEmpty then throw missingCatalog
  match Catalog.File.read (← readFile c.catalog) with
  | .error problem => throw problem.message
  | .ok catalog => liftExcept (answer r c.parameters catalog (← readQuery c))

def run (c : CommandLine) : IO UInt32 := do
  let here ← surroundings
  match ← (readSettings (Settings.path here.places)).run with
  | .error message => fail .ansi message
  | .ok settings =>
    let r := Request.of c settings here
    match ← (respond c r).run with
    | .error message => fail r.screen.palette message
    | .ok report =>
      write (← IO.getStdout) report
      return 0

def start (arguments : List String) : IO UInt32 := do
  if arguments.isEmpty then
    write (← IO.getStdout) CommandLine.startupText
    return 0
  match CommandLine.ofArguments (arguments.map Text.ofString) with
  | (_, some problem) => fail .ansi problem.message
  | (c, none) =>
    if c.help then
      write (← IO.getStdout) CommandLine.helpText
      return 0
    else run c

end NavQuery.Program

def main (arguments : List String) : IO UInt32 := NavQuery.Program.start arguments
