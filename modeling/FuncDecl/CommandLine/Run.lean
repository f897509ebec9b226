import FuncDecl.CommandLine.Arguments
import FuncDecl.Project.Sources

/-!
# Running the command

The command loads settings, finds the source files, and compiles them one after the other. A file
that cannot be read ends the run, and what was written before it stays.

* `settingsFor`: the settings for a run.
* `runFiles`: the loop over the files.
* `run`: carries out an invocation. Checking writes one line if all is well; emitting writes the
  declarations of each file.
* `execute`: what the command does with its arguments.
-/

namespace FuncDecl.CommandLine

/-- What the command writes and how it ends. -/
structure Outcome where
  exitCode : Nat
  output : String
  /-- Lines for the person at the terminal. -/
  notes : List String
deriving DecidableEq, Repr

/-! ## Files -/

/-- The text that a file adds to the output; its path is named where there are several files.
Source: the printing of `run`. -/
def block (action : Action) (several : Bool) (file : CompiledFile) : String :=
  match action with
  | .check => ""
  | .emit =>
    let declarations := file.result.output
    (if several then "# " ++ file.path ++ "\n" else "") ++
      (if declarations = "" then "" else declarations ++ "\n\n")

/-- A diagnostic in one line.
Source: `print_diagnostic`. -/
def note (file : CompiledFile) (d : Diagnostic) : String :=
  file.path ++ ":" ++ toString (d.span.line file.source) ++ ": " ++ d.severity.heading ++ ": " ++
    d.message

/-- What came of a list of files: the text written, the notes, and whether all are clean unless a
file could not be read. -/
structure Progress where
  output : String := ""
  notes : List String := []
  clean : Except ProjectError Bool := .ok true

/-- Compile files one after the other, up to the first that cannot be read.
Source: the loop of `run`. -/
def runFiles (disk : Disk) (settings : Settings) (action : Action) (several : Bool) :
    List String → Progress
  | [] => {}
  | path :: rest =>
    match disk.compile settings path with
    | .error e => { clean := .error e }
    | .ok file =>
      let later := runFiles disk settings action several rest
      { output := block action several file ++ later.output
        notes := file.result.diagnostics.map (note file) ++ later.notes
        clean := later.clean.map (!file.result.hasErrors && ·) }

/-! ## The command -/

/-- The settings for a run: those of the file that is named, or else of the directory of the
sources.
Source: `load_config`. -/
def settingsFor (disk : Disk) (invocation : Invocation)
    (decode : SettingsDecoder := Settings.read?) : Except ProjectError Settings :=
  match invocation.config with
  | some file => disk.settingsAt file decode
  | none =>
    let path := invocation.path
    disk.settingsIn (if disk.isDirectory path then path else (Path.parent? path).getD ".") decode

/-- The line that a check ends with. -/
def summary (count : Nat) : String :=
  toString count ++ " file(s) checked, no errors\n"

/-- How a run ends that an error stops. -/
def failed (e : ProjectError) (output : String) (notes : List String) : Outcome :=
  ⟨1, output, notes ++ ["error: " ++ e.message]⟩

/-- Carry out an invocation.
Source: `run`. -/
def run (disk : Disk) (invocation : Invocation)
    (decode : SettingsDecoder := Settings.read?) : Outcome :=
  match settingsFor disk invocation decode with
  | .error e => failed e "" []
  | .ok settings =>
    match disk.sources invocation.path with
    | .error e => failed e "" []
    | .ok sources =>
      let progress :=
        runFiles disk settings invocation.action (decide (1 < sources.length)) sources
      match progress.clean with
      | .error e => failed e progress.output progress.notes
      | .ok false => ⟨1, progress.output, progress.notes⟩
      | .ok true =>
        let ending := match invocation.action with
          | .check => summary sources.length
          | .emit => ""
        ⟨0, progress.output ++ ending, progress.notes⟩

/-! ## Help -/

/-- The options, as help shows them. -/
def optionHelp : String :=
  "Options:\n" ++
  "      --config <FILE>  Configuration file (defaults to `helix.toml` next to the sources)\n" ++
  "  -v, --verbose        Enable debug logging\n" ++
  "  -h, --help           Print help\n"

/-- The explanation of an action, or of the whole command. -/
def helpText : Option Action → String
  | none =>
    "Helix function declaration transpiler\n\n" ++
    "Usage: helix [OPTIONS] <COMMAND>\n\n" ++
    "Commands:\n" ++
    "  check  Compile declarations and report diagnostics\n" ++
    "  emit   Print the emitted declarations\n" ++
    "  help   Print this message or the help of the given subcommand(s)\n\n" ++ optionHelp
  | some .check =>
    "Compile declarations and report diagnostics\n\n" ++
    "Usage: helix check [OPTIONS] <PATH>\n\n" ++
    "Arguments:\n  <PATH>  A `.hlx` file or a directory to search\n\n" ++ optionHelp
  | some .emit =>
    "Print the emitted declarations\n\n" ++
    "Usage: helix emit [OPTIONS] <PATH>\n\n" ++
    "Arguments:\n  <PATH>  A `.hlx` file or a directory to search\n\n" ++ optionHelp

/-- Answer a request. -/
def answer (disk : Disk) (request : Request) (decode : SettingsDecoder := Settings.read?) :
    Outcome :=
  match request with
  | .run invocation => run disk invocation decode
  | .help topic => ⟨0, helpText topic, []⟩
  | .misuse => ⟨2, "", ["Usage: helix [OPTIONS] <COMMAND>"]⟩

/-- What the command does with its arguments.
Source: `main`. -/
def execute (disk : Disk) (arguments : List String)
    (decode : SettingsDecoder := Settings.read?) : Outcome :=
  answer disk (parseArguments arguments) decode

end FuncDecl.CommandLine
