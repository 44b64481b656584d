import Mathlib.Data.List.Forall2
import TypedConfig.CommandLine.Commands

/-!
Arguments that ask for the commands.  A file can be named in five ways, and each of them adds the
file to the settings and nothing else.  So a list of files is asked for by naming one after the
other.
-/

namespace TypedConfig.CommandLine

def OutputFormat.name : OutputFormat → String
  | .json => "json"
  | .pretty => "pretty"

/-- Arguments that name a file.  Behind its option a name needs no mark, unless it could be taken
for an option or begins with the mark itself. -/
inductive Names (name : String) : List String → Prop where
  | long : Names name ["--file=" ++ name]
  | longApart (hvalue : isValue name.toList = true) : Names name ["--file", name]
  | short (hmark : name.toList.head? ≠ some '=') : Names name ["-f" ++ name]
  | shortMarked : Names name ["-f=" ++ name]
  | shortApart (hvalue : isValue name.toList = true) : Names name ["-f", name]

/-- The arguments of the program in front of the name of an activity. -/
def programArguments (format : OutputFormat) (quiet : Bool) : List String :=
  ("--format=" ++ format.name) :: if quiet then ["--quiet"] else []

def Settings.withFile (settings : Settings) (name : String) : Settings :=
  { settings with files := settings.files ++ [name] }

section Steps

variable {level : Level} {settings done : Settings} {pending : Option Switch}
  {text : List Char} (rest : List (List Char))

theorem readOptions_long (htext : text ≠ [])
    (h : longArgument level settings text = .ok (done, pending)) :
    readOptions level settings none (('-' :: '-' :: text) :: rest)
      = readOptions level done pending rest := by
  rw [readOptions, h]
  · rfl
  · exact htext

theorem readOptions_cluster {letter : Char} (hletter : letter ≠ '-')
    (h : cluster level settings (letter :: text) = .ok (done, pending)) :
    readOptions level settings none (('-' :: letter :: text) :: rest)
      = readOptions level done pending rest := by
  rw [readOptions, h]
  · rfl
  · simp [hletter]
  · simp [hletter]

theorem readOptions_pending {option : Switch} (hvalue : isValue text = true)
    (h : settings.value level option text = .ok done) :
    readOptions level settings (some option) (text :: rest)
      = readOptions level done none rest := by
  rw [readOptions, if_pos hvalue, h]
  rfl

theorem readOptions_end (h : text.head? ≠ some '-') :
    readOptions level settings none (text :: rest) = .ok (settings, text :: rest) := by
  cases text with
  | nil => rfl
  | cons c more =>
      have hc : c ≠ '-' := by simpa using h
      rw [readOptions] <;> simp [hc]

end Steps

section Files

variable {level : Level} {settings done : Settings} {name : String} {value : List Char}

theorem value_file (hname : name ≠ "") (hfree : level = .parse → settings.files = []) :
    settings.value level .file name.toList = .ok (settings.withFile name) := by
  have htext : name.toList.isEmpty = false := by simpa using hname
  have hroom : (decide (level = .parse) && !settings.files.isEmpty) = false := by
    by_cases hparse : level = .parse <;> simp [hparse, hfree]
  simp [Settings.value, Settings.withFile, htext, hroom]

theorem filter_file (hlevel : level ≠ .program) :
    (some Switch.file).filter level.has = some .file := by
  cases level with
  | program => exact absurd rfl hlevel
  | parse => rfl
  | check => rfl

theorem longArgument_file (hlevel : level ≠ .program)
    (h : settings.value level .file value = .ok done) :
    longArgument level settings ('f' :: 'i' :: 'l' :: 'e' :: '=' :: value) = .ok (done, none) := by
  simp [longArgument, longSwitch?, filter_file hlevel, Switch.takesValue, h, Except.map]

theorem longArgument_fileApart (hlevel : level ≠ .program) :
    longArgument level settings ['f', 'i', 'l', 'e'] = .ok (settings, some .file) := by
  simp [longArgument, longSwitch?, filter_file hlevel, Switch.takesValue]

theorem cluster_file (hlevel : level ≠ .program) (hvalue : value ≠ [])
    (hmark : value.head? ≠ some '=') (h : settings.value level .file value = .ok done) :
    cluster level settings ('f' :: value) = .ok (done, none) := by
  cases value with
  | nil => exact absurd rfl hvalue
  | cons c more =>
      have hc : c ≠ '=' := by simpa using hmark
      simp [cluster, shortSwitch?, filter_file hlevel, Switch.takesValue, h, hc, Except.map]

theorem cluster_fileMarked (hlevel : level ≠ .program)
    (h : settings.value level .file value = .ok done) :
    cluster level settings ('f' :: '=' :: value) = .ok (done, none) := by
  simp [cluster, shortSwitch?, filter_file hlevel, Switch.takesValue, h, Except.map]

theorem cluster_fileApart (hlevel : level ≠ .program) :
    cluster level settings ['f'] = .ok (settings, some .file) := by
  simp [cluster, shortSwitch?, filter_file hlevel, Switch.takesValue]

/-- Naming a file adds it to the settings. -/
theorem readOptions_names (hname : name ≠ "") (hlevel : level ≠ .program)
    (hfree : level = .parse → settings.files = []) {arguments : List String}
    (h : Names name arguments) (rest : List (List Char)) :
    readOptions level settings none (arguments.map String.toList ++ rest)
      = readOptions level (settings.withFile name) none rest := by
  have hadd := value_file hname hfree
  cases h with
  | long =>
      have hstep := readOptions_long rest (by simp) (longArgument_file hlevel hadd)
      simpa using hstep
  | longApart hvalue =>
      have hoption :
          longArgument level settings ['f', 'i', 'l', 'e'] = .ok (settings, some .file) :=
        longArgument_fileApart hlevel
      have hstep := readOptions_long (name.toList :: rest) (by simp) hoption
      rw [readOptions_pending rest hvalue hadd] at hstep
      simpa using hstep
  | short hmark =>
      have htext : name.toList ≠ [] := by simpa using hname
      have hstep := readOptions_cluster rest (by decide) (cluster_file hlevel htext hmark hadd)
      simpa using hstep
  | shortMarked =>
      have hstep := readOptions_cluster rest (by decide) (cluster_fileMarked hlevel hadd)
      simpa using hstep
  | shortApart hvalue =>
      have hoption : cluster level settings ['f'] = .ok (settings, some .file) :=
        cluster_fileApart hlevel
      have hstep := readOptions_cluster (name.toList :: rest) (by decide) hoption
      rw [readOptions_pending rest hvalue hadd] at hstep
      simpa using hstep

end Files

/-- Naming files one after the other adds them in this order. -/
theorem readOptions_forall₂ {names : List String} {pieces : List (List String)}
    (h : List.Forall₂ Names names pieces) (hnames : "" ∉ names) (settings : Settings) :
    readOptions .check settings none (pieces.flatten.map String.toList)
      = .ok ({ settings with files := settings.files ++ names }, []) := by
  induction h generalizing settings with
  | nil => simp [readOptions]
  | cons hpiece _ ih =>
      obtain ⟨hname, hrest⟩ := List.ne_and_not_mem_of_not_mem_cons hnames
      rw [List.flatten_cons, List.map_append,
        readOptions_names hname.symm (by decide) (by simp) hpiece, ih hrest]
      simp [Settings.withFile]

theorem longArgument_format (format : OutputFormat) :
    longArgument .program .none ("format=".toList ++ format.name.toList)
      = .ok (⟨some format, false, []⟩, none) := by
  cases format <;> rfl

/-- The arguments of the program ask for a format and for quiet. -/
theorem readOptions_programArguments (format : OutputFormat) (quiet : Bool) {text : List Char}
    (htext : text.head? ≠ some '-') (rest : List (List Char)) :
    readOptions .program .none none
        ((programArguments format quiet).map String.toList ++ text :: rest)
      = .ok (⟨some format, quiet, []⟩, text :: rest) := by
  -- Behind the format the settings have no further option but quiet.
  have hquiet : readOptions .program ⟨some format, false, []⟩ none
      ((if quiet then ["--quiet"] else []).map String.toList ++ text :: rest)
        = .ok (⟨some format, quiet, []⟩, text :: rest) := by
    cases quiet with
    | false => exact readOptions_end rest htext
    | true =>
        have hstep : readOptions .program ⟨some format, false, []⟩ none
            ("--quiet".toList :: text :: rest)
              = readOptions .program ⟨some format, true, []⟩ none (text :: rest) :=
          readOptions_long _ (by simp) rfl
        exact hstep.trans (readOptions_end rest htext)
  have hformat := readOptions_long
    ((if quiet then ["--quiet"] else []).map String.toList ++ text :: rest) (by simp)
    (longArgument_format format)
  rw [hquiet] at hformat
  simpa [programArguments] using hformat

section Commands

variable {arguments rest : List (List Char)} {program own : Settings}

theorem readActivity_of_readOptions {level : Level}
    (h : readOptions level .none none arguments = .ok (own, [])) :
    readActivity level arguments = .ok own := by
  rw [readActivity, h]
  rfl

theorem read_check
    (hprogram : readOptions .program .none none arguments = .ok (program, "check".toList :: rest))
    (hown : readOptions .check .none none rest = .ok (own, [])) :
    Command.read arguments = .ok (combine program own (.check own.files)) := by
  rw [Command.read, hprogram]
  change (do
    let own ← readActivity .check rest
    pure (combine program own (.check own.files))) = _
  rw [readActivity_of_readOptions hown]
  rfl

theorem read_parse
    (hprogram : readOptions .program .none none arguments = .ok (program, "parse".toList :: rest))
    (hown : readOptions .parse .none none rest = .ok (own, [])) :
    Command.read arguments = .ok (combine program own (.parse own.files.head?)) := by
  rw [Command.read, hprogram]
  change (do
    let own ← readActivity .parse rest
    pure (combine program own (.parse own.files.head?))) = _
  rw [readActivity_of_readOptions hown]
  rfl

end Commands

/-- Some files are checked by naming them behind `check`. -/
theorem ofArguments_check {names : List String} {pieces : List (List String)}
    (h : List.Forall₂ Names names pieces) (hnames : "" ∉ names) (format : OutputFormat)
    (quiet : Bool) :
    Command.ofArguments (programArguments format quiet ++ "check" :: pieces.flatten)
      = .run (.check names) format quiet := by
  have hprogram := readOptions_programArguments format quiet
    (by decide : "check".toList.head? ≠ some '-') (pieces.flatten.map String.toList)
  have hread := read_check hprogram (readOptions_forall₂ h hnames .none)
  rw [Command.ofArguments, List.map_append, List.map_cons, hread]
  simp [combine, Settings.none]

/-- A file is parsed by naming it behind `parse`. -/
theorem ofArguments_parse {name : String} {piece : List String} (h : Names name piece)
    (hname : name ≠ "") (format : OutputFormat) (quiet : Bool) :
    Command.ofArguments (programArguments format quiet ++ "parse" :: piece)
      = .run (.parse (some name)) format quiet := by
  have hprogram := readOptions_programArguments format quiet
    (by decide : "parse".toList.head? ≠ some '-') (piece.map String.toList)
  have hown := readOptions_names hname (by decide : Level.parse ≠ .program)
    (fun _ => rfl : _ → Settings.none.files = []) h []
  rw [List.append_nil] at hown
  have hread := read_parse hprogram hown
  rw [Command.ofArguments, List.map_append, List.map_cons, hread]
  simp [combine, Settings.none, Settings.withFile]

end TypedConfig.CommandLine
