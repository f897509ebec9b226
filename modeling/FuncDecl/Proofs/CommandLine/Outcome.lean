import FuncDecl.CommandLine.Run
import FuncDecl.Proofs.Declaration.Reading
import FuncDecl.Proofs.Source.Reports

/-!
# What the command makes of a project

The two actions of the command go through the same files in the same order and end with the same
exit code; they differ in what they write. What a project must be like for the code to be zero is
said here without the run. The disk and the way in which settings are decoded are any functions.

* `Disk.Holds`: a path names a file that has the bytes of a text.
* `Disk.Loads`: settings load for a path, from a file that is named or found, or as the default
  ones. `CommandLine.settingsFor_eq_ok_iff` ties it to the run.
* `Disk.Clean`: a path names a text that compiles without an error.
* `Disk.ReadsUpTo`: the files in front of the first that is no text.
* `Settings.listing`: what emitting writes for one file.
* `CommandLine.runFiles_of_holds` and `CommandLine.runFiles_of_not_holds`: what one file does to the
  loop over the files. What a list of files comes to follows by induction
  (`CommandLine.output_runFiles_emit`, `CommandLine.clean_runFiles_iff`).
* `CommandLine.outcome_of_project`: **checking and emitting a project end alike and write what its
  own files come to**.
-/

namespace FuncDecl

/-! ## Texts on a disk -/

/-- Bytes are read as a text exactly if they are its UTF-8 form. -/
theorem fromUTF8?_eq_some_iff {bytes : ByteArray} {text : String} :
    String.fromUTF8? bytes = some text ↔ bytes = text.toUTF8 := by
  constructor
  · intro h
    rw [String.fromUTF8?] at h
    split at h
    · exact congrArg String.toUTF8 (Option.some.inj h)
    · cases h
  · rintro rfl
    exact dif_pos text.isValidUTF8

namespace Disk

variable {disk : Disk} {path text : String}

/-- A path names a file that has the bytes of a text. -/
def Holds (disk : Disk) (path text : String) : Prop :=
  disk path = .ok (.file text.toUTF8)

/-- A path is read as a text exactly if it names a file that has the bytes of the text. -/
theorem readText_eq_ok_iff : disk.readText path = .ok text ↔ disk.Holds path text := by
  rw [readText, Holds]
  cases disk path with
  | error fault => simp
  | ok tree =>
    cases tree with
    | directory entries => simp
    | file bytes =>
      simp only [Except.ok.injEq, FileTree.file.injEq, ← fromUTF8?_eq_some_iff]
      cases String.fromUTF8? bytes <;> simp

/-- A path names one text at most. -/
theorem Holds.unique {text' : String} (h : disk.Holds path text) (h' : disk.Holds path text') :
    text = text' :=
  Except.ok.inj ((readText_eq_ok_iff.mpr h).symm.trans (readText_eq_ok_iff.mpr h'))

/-- A path names a text or none. -/
theorem holds_or_not (disk : Disk) (path : String) :
    (∃ text, disk.Holds path text) ∨ ∀ text, ¬ disk.Holds path text := by
  rw [← not_exists]
  exact Classical.em _

/-- A file that is a text is compiled by its path and its text. -/
theorem compile_of_holds (settings : Settings) (h : disk.Holds path text) :
    disk.compile settings path = .ok ⟨path, text, settings.compile path text⟩ := by
  rw [compile, readText_eq_ok_iff.mpr h]

/-- A path that names no text cannot be compiled. -/
theorem compile_of_not_holds (settings : Settings) (h : ∀ text, ¬ disk.Holds path text) :
    ∃ e, disk.compile settings path = .error e := by
  rw [compile]
  cases hread : disk.readText path with
  | error e => exact ⟨e, rfl⟩
  | ok text => exact absurd (readText_eq_ok_iff.mp hread) (h text)

/-! ## Settings -/

/-- A file gives settings exactly if it is a text that can be decoded. -/
theorem settingsAt_eq_ok_iff {decode : SettingsDecoder} {settings : Settings} :
    disk.settingsAt path decode = .ok settings ↔
      ∃ text, disk.Holds path text ∧ decode text = some settings := by
  rw [settingsAt]
  simp only [← readText_eq_ok_iff]
  cases disk.readText path with
  | error e => simp
  | ok text =>
    simp only [Except.ok.injEq, exists_eq_left']
    cases decode text <;> simp

/-- A path is that of a file exactly if a file is there, with whatever bytes. -/
theorem isFile_eq_true_iff : disk.isFile path = true ↔ ∃ bytes, disk path = .ok (.file bytes) := by
  rw [isFile]
  split
  · rename_i bytes h
    simp [h]
  · rename_i h
    simpa using h

/-- The directory that belongs to a path: itself, or the one that its file is in. -/
def home (disk : Disk) (path : String) : String :=
  if disk.isDirectory path then path else (Path.parent? path).getD "."

/-- Settings load for a path: from the file that is named, or from the file of settings in the
directory of the path. If there is no such file, the settings are the default ones. -/
inductive Loads (disk : Disk) (decode : SettingsDecoder) (path : String) :
    Option String → Settings → Prop
  | named {file text : String} {settings : Settings} (holds : disk.Holds file text)
      (valid : decode text = some settings) : Loads disk decode path (some file) settings
  | found {text : String} {settings : Settings}
      (holds : disk.Holds (Path.join (disk.home path) settingsFile) text)
      (valid : decode text = some settings) : Loads disk decode path none settings
  | absent (missing : ∀ bytes, disk (Path.join (disk.home path) settingsFile) ≠ .ok (.file bytes)) :
      Loads disk decode path none {}

end Disk

namespace CommandLine

open Disk

variable {disk : Disk} {decode : SettingsDecoder} {settings : Settings}

/-- A run has settings exactly if they load for its path. -/
theorem settingsFor_eq_ok_iff {invocation : Invocation} :
    settingsFor disk invocation decode = .ok settings ↔
      disk.Loads decode invocation.path invocation.config settings := by
  rw [settingsFor]
  cases invocation.config with
  | some file =>
    refine settingsAt_eq_ok_iff.trans ⟨fun ⟨_, holds, valid⟩ => .named holds valid, ?_⟩
    rintro ⟨holds, valid⟩
    exact ⟨_, holds, valid⟩
  | none =>
    change settingsIn disk (disk.home invocation.path) decode = .ok settings ↔ _
    rw [settingsIn]
    by_cases hfile : disk.isFile (Path.join (disk.home invocation.path) settingsFile)
    · rw [if_pos hfile]
      refine settingsAt_eq_ok_iff.trans ⟨fun ⟨_, holds, valid⟩ => .found holds valid, ?_⟩
      rintro (_ | ⟨holds, valid⟩ | missing)
      · exact ⟨_, holds, valid⟩
      · obtain ⟨bytes, hbytes⟩ := isFile_eq_true_iff.mp hfile
        exact absurd hbytes (missing bytes)
    · rw [if_neg hfile]
      constructor
      · rintro h
        obtain rfl := Except.ok.inj h
        exact .absent fun bytes hbytes => hfile (isFile_eq_true_iff.mpr ⟨bytes, hbytes⟩)
      · rintro (_ | ⟨holds, valid⟩ | _)
        · exact absurd (isFile_eq_true_iff.mpr ⟨_, holds⟩) hfile
        · rfl

end CommandLine

/-! ## The files of a run -/

/-- What emitting writes for one file, of which it takes the path and the text: its path, if there
are several files, and its declarations, if there are any. -/
def Settings.listing (s : Settings) (several : Bool) (file : String × String) : String :=
  let output := (s.compile file.1 file.2).output
  (if several then "# " ++ file.1 ++ "\n" else "") ++
    (if output = "" then "" else output ++ "\n\n")

/-- A path names a text that compiles without an error. -/
def Disk.Clean (disk : Disk) (settings : Settings) (path : String) : Prop :=
  ∃ text, disk.Holds path text ∧
    ∀ d ∈ (settings.compile path text).diagnostics, d.severity ≠ .error

/-- The files in front of the first that is no text, each with its text. -/
structure Disk.ReadsUpTo (disk : Disk) (paths : List String) (files : List (String × String)) :
    Prop where
  holds : ∀ file ∈ files, disk.Holds file.1 file.2
  stops : ∃ rest, paths = files.map Prod.fst ++ rest ∧
    ∀ path ∈ rest.head?, ∀ text, ¬ disk.Holds path text

/-- There are always files that are read, up to the first that is no text. By induction on the
paths. -/
theorem Disk.exists_readsUpTo (disk : Disk) (paths : List String) :
    ∃ files, disk.ReadsUpTo paths files := by
  induction paths with
  | nil => exact ⟨[], by simp, [], rfl, by simp⟩
  | cons path paths ih =>
    obtain ⟨text, htext⟩ | hpath := disk.holds_or_not path
    · obtain ⟨files, hholds, rest, hpaths, hstop⟩ := ih
      refine ⟨(path, text) :: files, ?_, rest, by rw [hpaths]; rfl, hstop⟩
      rintro file (_ | ⟨_, hfile⟩)
      · exact htext
      · exact hholds file hfile
    · refine ⟨[], by simp, path :: paths, rfl, ?_⟩
      rintro _ ⟨⟩
      exact hpath

namespace CommandLine

open Disk

variable {disk : Disk} {decode : SettingsDecoder} {settings : Settings} {action : Action}
  {several : Bool} {path text : String} {paths : List String}

/-! ### One file -/

/-- A file that is a text adds its block to the output and its notes to the notes, and the run is
clean if the file and all later ones are. -/
theorem runFiles_of_holds (h : disk.Holds path text) :
    runFiles disk settings action several (path :: paths) =
      let file := ⟨path, text, settings.compile path text⟩
      let later := runFiles disk settings action several paths
      { output := block action several file ++ later.output
        notes := file.result.diagnostics.map (note file) ++ later.notes
        clean := later.clean.map (!file.result.hasErrors && ·) } := by
  rw [runFiles, compile_of_holds settings h]

/-- A path that names no text ends the run. -/
theorem runFiles_of_not_holds (h : ∀ text, ¬ disk.Holds path text) :
    ∃ e, runFiles disk settings action several (path :: paths) = { clean := .error e } := by
  obtain ⟨e, he⟩ := compile_of_not_holds settings h
  exact ⟨e, by rw [runFiles, he]⟩

/-- A compilation is without errors exactly if no diagnostic is one. -/
theorem hasErrors_eq_false_iff {c : Compilation} :
    c.hasErrors = false ↔ ∀ d ∈ c.diagnostics, d.severity ≠ .error := by
  simp [Compilation.hasErrors, Diagnostic.isError]

/-- A file that is a text is clean exactly if the text compiles without an error. -/
theorem clean_iff_of_holds (h : disk.Holds path text) :
    disk.Clean settings path ↔ (settings.compile path text).hasErrors = false := by
  rw [hasErrors_eq_false_iff]
  constructor
  · rintro ⟨text', htext', hd⟩
    obtain rfl := htext'.unique h
    exact hd
  · exact fun hd => ⟨text, h, hd⟩

/-! ### A list of files -/

/-- Checking writes nothing while it goes through the files. -/
theorem output_runFiles_check (paths : List String) :
    (runFiles disk settings .check several paths).output = "" := by
  induction paths with
  | nil => rfl
  | cons path paths ih =>
    obtain ⟨text, htext⟩ | hpath := disk.holds_or_not path
    · rw [runFiles_of_holds htext]
      exact ih
    · obtain ⟨e, he⟩ := runFiles_of_not_holds hpath
      rw [he]

/-- Emitting writes the listings of the files up to the first that is no text. -/
theorem output_runFiles_emit {files : List (String × String)} (h : disk.ReadsUpTo paths files) :
    (runFiles disk settings .emit several paths).output =
      String.join (files.map (settings.listing several)) := by
  obtain ⟨hholds, rest, rfl, hstop⟩ := h
  -- by induction on the files that are read; what is left is nothing or begins with no text
  induction files with
  | nil =>
    cases rest with
    | nil => rfl
    | cons path rest =>
      obtain ⟨e, he⟩ := runFiles_of_not_holds (hstop path rfl)
      rw [List.map_nil, List.nil_append, he]
      rfl
  | cons file files ih =>
    rw [List.map_cons, List.cons_append, runFiles_of_holds (hholds file List.mem_cons_self),
      List.map_cons, String.join_cons]
    exact congrArg (settings.listing several file ++ ·)
      (ih fun file hfile => hholds file (List.mem_cons_of_mem _ hfile))

/-- A run is clean if and only if each of its files is, whichever the action. -/
theorem clean_runFiles_iff (paths : List String) :
    (runFiles disk settings action several paths).clean = .ok true ↔
      ∀ path ∈ paths, disk.Clean settings path := by
  induction paths with
  | nil => exact ⟨fun _ => by simp, fun _ => rfl⟩
  | cons path paths ih =>
    rw [List.forall_mem_cons, ← ih]
    obtain ⟨text, htext⟩ | hpath := disk.holds_or_not path
    · rw [runFiles_of_holds htext, clean_iff_of_holds htext, Except.map_eq_ok_iff]
      simp [and_comm]
    · obtain ⟨e, he⟩ := runFiles_of_not_holds hpath
      rw [he]
      constructor
      · intro h
        cases h
      · rintro ⟨⟨text, htext, _⟩, _⟩
        exact absurd htext (hpath text)

/-! ## The command -/

/-- What an action writes behind the last file, if all are clean. -/
def ending : Action → Nat → String
  | .check, count => summary count
  | .emit, _ => ""

/-- Settings load for a path and the source files are found. -/
def Ready (disk : Disk) (decode : SettingsDecoder) (path : String) (config : Option String)
    (settings : Settings) (sources : List String) : Prop :=
  disk.Loads decode path config settings ∧ disk.sources path = .ok sources

section Command

variable {config : Option String} {verbose : Bool} {sources : List String}

/-- Without settings or without a list of source files, a run fails and writes nothing. -/
theorem run_of_not_ready
    (h : ∀ settings sources, ¬ Ready disk decode path config settings sources) :
    (run disk ⟨action, path, config, verbose⟩ decode).exitCode = 1 ∧
      (run disk ⟨action, path, config, verbose⟩ decode).output = "" := by
  rw [run]
  cases hsettings : settingsFor disk ⟨action, path, config, verbose⟩ decode with
  | error e => exact ⟨rfl, rfl⟩
  | ok settings =>
    cases hsources : disk.sources path with
    | error e => exact ⟨rfl, rfl⟩
    | ok sources =>
      exact absurd ⟨settingsFor_eq_ok_iff.mp hsettings, hsources⟩ (h settings sources)

/-- A run over clean files ends well. -/
theorem run_of_clean (hready : Ready disk decode path config settings sources)
    (hclean : ∀ file ∈ sources, disk.Clean settings file) :
    (run disk ⟨action, path, config, verbose⟩ decode).exitCode = 0 ∧
      (run disk ⟨action, path, config, verbose⟩ decode).output =
        (runFiles disk settings action (1 < sources.length) sources).output ++
          ending action sources.length := by
  have hsettings : settingsFor disk ⟨action, path, config, verbose⟩ decode = .ok settings :=
    settingsFor_eq_ok_iff.mpr hready.1
  simp only [run, hsettings, hready.2, (clean_runFiles_iff sources).mpr hclean, true_and]
  cases action <;> rfl

/-- A run over files that are not all clean keeps what it wrote. -/
theorem run_of_not_clean (hready : Ready disk decode path config settings sources)
    (hclean : ¬ ∀ file ∈ sources, disk.Clean settings file) :
    (run disk ⟨action, path, config, verbose⟩ decode).exitCode = 1 ∧
      (run disk ⟨action, path, config, verbose⟩ decode).output =
        (runFiles disk settings action (1 < sources.length) sources).output := by
  have hsettings : settingsFor disk ⟨action, path, config, verbose⟩ decode = .ok settings :=
    settingsFor_eq_ok_iff.mpr hready.1
  simp only [run, hsettings, hready.2]
  -- a file that is no text, or one with an error
  cases hrun : (runFiles disk settings action (1 < sources.length) sources).clean with
  | error e => simp only [failed, and_self]
  | ok clean =>
    cases clean with
    | false => simp only [and_self]
    | true => exact absurd ((clean_runFiles_iff sources).mp hrun) hclean

variable (disk decode action path config verbose)

/-- A run ends with zero over clean files and with one in all other cases, whichever the action. -/
theorem exitCode_run_eq_ite
    [Decidable (∃ settings sources, Ready disk decode path config settings sources ∧
      ∀ file ∈ sources, disk.Clean settings file)] :
    (run disk ⟨action, path, config, verbose⟩ decode).exitCode =
      if ∃ settings sources, Ready disk decode path config settings sources ∧
        ∀ file ∈ sources, disk.Clean settings file then 0 else 1 := by
  split
  next h =>
    obtain ⟨settings, sources, hready, hclean⟩ := h
    exact (run_of_clean hready hclean).1
  next h =>
    by_cases hready : ∃ settings sources, Ready disk decode path config settings sources
    · obtain ⟨settings, sources, hready⟩ := hready
      exact (run_of_not_clean hready fun hclean => h ⟨settings, sources, hready, hclean⟩).1
    · exact (run_of_not_ready fun settings sources h => hready ⟨settings, sources, h⟩).1

/-- Checking writes one line or nothing. -/
theorem output_run_check :
    ((run disk ⟨.check, path, config, verbose⟩ decode).exitCode = 0 ∧
        ∃ sources, disk.sources path = .ok sources ∧
          (run disk ⟨.check, path, config, verbose⟩ decode).output = summary sources.length) ∨
      ((run disk ⟨.check, path, config, verbose⟩ decode).exitCode = 1 ∧
        (run disk ⟨.check, path, config, verbose⟩ decode).output = "") := by
  by_cases hready : ∃ settings sources, Ready disk decode path config settings sources
  · obtain ⟨settings, sources, hready⟩ := hready
    by_cases hclean : ∀ file ∈ sources, disk.Clean settings file
    · obtain ⟨hcode, houtput⟩ := run_of_clean hready hclean
      rw [output_runFiles_check, String.empty_append] at houtput
      exact .inl ⟨hcode, sources, hready.2, houtput⟩
    · obtain ⟨hcode, houtput⟩ := run_of_not_clean hready hclean
      rw [output_runFiles_check] at houtput
      exact .inr ⟨hcode, houtput⟩
  · exact .inr (run_of_not_ready fun settings sources h => hready ⟨settings, sources, h⟩)

variable {disk decode path config}

/-- What emitting writes does not depend on how it ends. -/
theorem output_run_emit (hready : Ready disk decode path config settings sources) :
    (run disk ⟨.emit, path, config, verbose⟩ decode).output =
      (runFiles disk settings .emit (1 < sources.length) sources).output := by
  by_cases hclean : ∀ file ∈ sources, disk.Clean settings file
  · exact (run_of_clean hready hclean).2.trans String.append_empty
  · exact (run_of_not_clean hready hclean).2

end Command

variable (disk decode) {config : Option String} {checkArguments emitArguments : List String}
  {verbose verbose' : Bool}

/-- **Checking and emitting a project end alike and write what its own files come to,** whatever the
disk and the way in which settings are decoded. The exit code is zero if and only if settings load,
the source files are found, and each of them is a text without errors; it is one otherwise. Checking
writes the number of source files if the code is zero, and nothing if it is not. Emitting writes the
listings of the source files in front of the first that is no text; each is made of the path and the
text of its own file.
Source: `load_config`, `run`, `compile_file` and `discover_sources`. -/
theorem outcome_of_project
    (hcheck : parseArguments checkArguments = .run ⟨.check, path, config, verbose⟩)
    (hemit : parseArguments emitArguments = .run ⟨.emit, path, config, verbose'⟩) :
    (execute disk checkArguments decode).exitCode = (execute disk emitArguments decode).exitCode ∧
    ((execute disk checkArguments decode).exitCode = 0 ↔
      ∃ settings sources, disk.Loads decode path config settings ∧ disk.sources path = .ok sources ∧
        ∀ file ∈ sources, disk.Clean settings file) ∧
    (((execute disk checkArguments decode).exitCode = 0 ∧
        ∃ sources, disk.sources path = .ok sources ∧
          (execute disk checkArguments decode).output =
            toString sources.length ++ " file(s) checked, no errors\n") ∨
      ((execute disk checkArguments decode).exitCode = 1 ∧
        (execute disk checkArguments decode).output = "")) ∧
    (∀ settings sources, disk.Loads decode path config settings → disk.sources path = .ok sources →
      (∃ files, disk.ReadsUpTo sources files) ∧
        ∀ files, disk.ReadsUpTo sources files → (execute disk emitArguments decode).output =
          String.join (files.map (settings.listing (1 < sources.length)))) ∧
    ((∀ settings, ¬ disk.Loads decode path config settings) ∨
        (∀ sources, disk.sources path ≠ .ok sources) →
      (execute disk emitArguments decode).output = "") := by
  classical
  have hrunCheck : execute disk checkArguments decode =
      run disk ⟨.check, path, config, verbose⟩ decode := by
    rw [execute, hcheck, answer]
  have hrunEmit : execute disk emitArguments decode =
      run disk ⟨.emit, path, config, verbose'⟩ decode := by
    rw [execute, hemit, answer]
  rw [hrunCheck, hrunEmit]
  refine ⟨?_, ?_, output_run_check disk decode path config verbose, ?_, ?_⟩
  · rw [exitCode_run_eq_ite, exitCode_run_eq_ite]
  · rw [exitCode_run_eq_ite]
    simp only [ite_eq_left_iff, Nat.one_ne_zero, imp_false, not_not, Ready, and_assoc]
  · intro settings sources hsettings hsources
    refine ⟨disk.exists_readsUpTo sources, fun files hfiles => ?_⟩
    rw [output_run_emit verbose' ⟨hsettings, hsources⟩, output_runFiles_emit hfiles]
  · intro h
    refine (run_of_not_ready fun settings sources hready => ?_).2
    obtain h | h := h
    · exact h settings hready.1
    · exact h sources hready.2

/-- Three source files in a directory without settings; the second is no text. What was written for
the first stays, the third is not reached, and checking writes nothing. -/
theorem outcome_of_project_with_broken_file :
    let text := "fn of(n: int) -> int \x7b\n\x7d\n"
    let entries := [("a.hlx", .file text.toUTF8), ("b.hlx", .file ⟨#[255]⟩),
      ("b.txt", .file ⟨#[255]⟩), ("c.hlx", .file "".toUTF8)]
    let project : FileTree := .directory [("p", .directory entries)]
    let check := execute project.lookup ["check", "p"]
    let emit := execute project.lookup ["emit", "--verbose", "p"]
    check.exitCode = 1 ∧ check.output = "" ∧
      emit.exitCode = 1 ∧ emit.output = "# p/a.hlx\ndef of(n: int) -> int:\n\n" := by
  intro text entries project check emit
  have hsettings : Disk.Loads project.lookup Settings.read? "p" none {} := by
    refine .absent fun bytes hbytes => absurd (isFile_eq_true_iff.mpr ⟨bytes, hbytes⟩) ?_
    decide +kernel
  have hlookup : project.lookup "p" = .ok (.directory entries) := rfl
  have hvisits : FileTree.visits "p" (.directory entries) = ⟨"p", false⟩ ::
      ["p/a.hlx", "p/b.hlx", "p/b.txt", "p/c.hlx"].map fun file => ⟨file, true⟩ := by
    simp only [entries, FileTree.visits, FileTree.visitsOf]
    rw [List.mergeSort_of_pairwise (by decide +kernel)]
    decide +kernel
  have hsources : Disk.sources project.lookup "p" = .ok ["p/a.hlx", "p/b.hlx", "p/c.hlx"] := by
    rw [Disk.sources, hlookup]
    simp only [FileTree.barrier?, FileTree.sources, hvisits]
    decide +kernel
  have hbroken : ∀ other, ¬ Disk.Holds project.lookup "p/b.hlx" other := by
    intro other hother
    have hread : Disk.readText project.lookup "p/b.hlx" = .error (.read "p/b.hlx" .notText) := by
      decide +kernel
    rw [readText_eq_ok_iff.mpr hother] at hread
    cases hread
  have hfiles : Disk.ReadsUpTo project.lookup ["p/a.hlx", "p/b.hlx", "p/c.hlx"]
      [("p/a.hlx", text)] := by
    refine ⟨?_, ["p/b.hlx", "p/c.hlx"], rfl, ?_⟩
    · rintro _ (_ | ⟨_, ⟨⟩⟩)
      exact (rfl : project.lookup "p/a.hlx" = .ok (.file text.toUTF8))
    · rintro _ ⟨⟩
      exact hbroken
  have houtput : (Settings.compile {} "p/a.hlx" text).output = "def of(n: int) -> int:" :=
    Settings.view_compile {} 30 Compilation.output (by decide +kernel)
  obtain ⟨hcode, hzero, hwritten, hemit, -⟩ := outcome_of_project project.lookup Settings.read?
    (show parseArguments ["check", "p"] = .run ⟨.check, "p", none, false⟩ by decide +kernel)
    (show parseArguments ["emit", "--verbose", "p"] = .run ⟨.emit, "p", none, true⟩ by decide +kernel)
  have hwritten : check.exitCode = 1 ∧ check.output = "" := by
    refine hwritten.resolve_left fun h => ?_
    obtain ⟨settings, sources, -, hfound, hclean⟩ := hzero.mp h.1
    obtain rfl := Except.ok.inj (hfound.symm.trans hsources)
    obtain ⟨other, hother, -⟩ := hclean "p/b.hlx" (by simp)
    exact hbroken other hother
  refine ⟨hwritten.1, hwritten.2, hcode.symm.trans hwritten.1, ?_⟩
  refine ((hemit {} _ hsettings hsources).2 _ hfiles).trans ?_
  rw [List.map_singleton, String.join_cons, String.join_nil, Settings.listing, houtput]
  decide +kernel

end CommandLine

end FuncDecl
