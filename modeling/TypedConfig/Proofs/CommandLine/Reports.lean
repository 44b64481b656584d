import TypedConfig.Proofs.CommandLine.Arguments

/-!
Checking files.  What is printed on a file depends on the file alone, and the other files neither
stop nor change it.  So what checking some files prints is put together from what checking each of
them prints, and it succeeds if each of them can be parsed.
-/

namespace TypedConfig.CommandLine

/-- What a file adds to what `check` prints: a report in JSON; or a line of the output, unless only
faults are wanted, and lines of the errors. -/
structure Printed where
  json : Json
  output : String
  errors : String
  valid : Bool

namespace Printed

/-- A file with nothing to report. -/
def fine (name : String) : Printed where
  json := .object [("diagnostics", .array []), ("source", .string name), ("valid", .bool true)]
  output := "OK " ++ name ++ "\n"
  errors := ""
  valid := true

/-- A file with one diagnostic, whose place is a span in JSON and stands behind the name in lines.
-/
def fault (name code message : String) (span : Json) (place : String) : Printed where
  json := .object [
    ("diagnostics", .array [.object [("code", .string code), ("message", .string message),
      ("severity", .string "Error"), ("span", span)]]),
    ("source", .string name), ("valid", .bool false)]
  output := ""
  errors := "error[" ++ code ++ "]: " ++ message ++ "\n  --> " ++ name ++ place ++ "\n"
  valid := false

end Printed

/-- What is printed on a file: that it cannot be read; where its text goes wrong, with what parsing
the text says; or nothing. -/
inductive Reported (inputs : Inputs) (name : String) : Printed → Prop where
  | unreadable {fault : ReadFault} (hread : inputs.fileText name = .error fault) :
      Reported inputs name (.fault name "SourceUnreadable"
        "Unable to read configuration data from source" .null "")
  | malformed {text message : String} {line column : Nat}
      (hread : inputs.fileText name = .ok text)
      (hparse : Document.parse text = .error (.malformed message ⟨line, column⟩)) :
      Reported inputs name (.fault name "SyntaxError"
        ("Unable to parse configuration: " ++ message ++ " (at line:" ++ toString line
          ++ " pos:" ++ toString column ++ ")")
        (.object [("column", .integer column), ("line", .integer line)])
        (":" ++ toString line ++ ":" ++ toString column))
  | clean {text : String} {document : Document} (hread : inputs.fileText name = .ok text)
      (hparse : Document.parse text = .ok document) : Reported inputs name (.fine name)

/-- What `check` leaves behind, put together from what the files add. -/
def gathered (quiet : Bool) (printed : List Printed) : OutputFormat → Outcome
  | .json =>
    ⟨if printed.all Printed.valid then 0 else 1,
      (Json.object [("sources", .array (printed.map Printed.json)),
        ("valid", .bool (printed.all Printed.valid))]).pretty ++ "\n", ""⟩
  | .pretty =>
    ⟨if printed.all Printed.valid then 0 else 1,
      String.join (printed.map fun own => if quiet then "" else own.output),
      String.join (printed.map Printed.errors)⟩

def Outcome.succeeded (outcome : Outcome) : Bool := outcome.code == 0

/-- A report is printed in some way. -/
structure Report.PrintedAs (report : Report) (own : Printed) : Prop where
  json : report.toJson = own.json
  output : ∀ quiet, report.output quiet = if quiet then "" else own.output
  errors : report.errors = own.errors
  valid : report.valid = own.valid

/-- A report is printed in no other way. -/
theorem Report.PrintedAs.eq {report : Report} {one other : Printed} (h : report.PrintedAs one)
    (hother : report.PrintedAs other) : one = other := by
  obtain ⟨json, output, errors, valid⟩ := one
  obtain ⟨json', output', errors', valid'⟩ := other
  have hjson : json = json' := h.json.symm.trans hother.json
  have houtput : output = output' := (h.output false).symm.trans (hother.output false)
  have herrors : errors = errors' := h.errors.symm.trans hother.errors
  have hvalid : valid = valid' := h.valid.symm.trans hother.valid
  rw [hjson, houtput, herrors, hvalid]

/-- What is wrong with a text is always that it is malformed. -/
theorem parse_malformed {text : String} {error : ConfigError}
    (h : Document.parse text = .error error) :
    ∃ message line column, error = .malformed message ⟨line, column⟩ := by
  unfold Document.parse at h
  cases hread : Document.ofText text.toList with
  | ok document => simp [hread, Except.mapError] at h
  | error fault =>
      rw [hread] at h
      cases h
      exact ⟨_, _, _, rfl⟩

theorem succeeded_failure (shown : OutputFormat) (message : String) :
    (failure shown message).succeeded = false := by
  cases shown <;> rfl

section Files

variable {inputs : Inputs} {name : String}

theorem printedAs_fine : Report.PrintedAs ⟨name, []⟩ (.fine name) where
  json := rfl
  output quiet := by cases quiet <;> rfl
  errors := rfl
  valid := rfl

theorem printedAs_unplaced (code : ErrorCode) (message : String) :
    Report.PrintedAs ⟨name, [⟨code, message, none⟩]⟩ (.fault name code.name message .null "") where
  json := rfl
  output quiet := by cases quiet <;> rfl
  errors := by simp [Report.errors, Diagnostic.lines, Printed.fault]
  valid := rfl

theorem printedAs_placed (code : ErrorCode) (message : String) (line column : Nat) :
    Report.PrintedAs ⟨name, [⟨code, message, some ⟨line, column⟩⟩]⟩
      (.fault name code.name message
        (.object [("column", .integer column), ("line", .integer line)])
        (":" ++ toString line ++ ":" ++ toString column)) where
  json := rfl
  output quiet := by cases quiet <;> rfl
  errors := by
    simp [Report.errors, Diagnostic.lines, Printed.fault, ConfigError.placeText,
      String.append_assoc]
  valid := rfl

theorem exists_reported (inputs : Inputs) (name : String) : ∃ own, Reported inputs name own := by
  cases hread : inputs.fileText name with
  | error fault => exact ⟨_, .unreadable hread⟩
  | ok text =>
      cases hparse : Document.parse text with
      | ok document => exact ⟨_, .clean hread hparse⟩
      | error error =>
          obtain ⟨message, line, column, rfl⟩ := parse_malformed hparse
          exact ⟨_, .malformed hread hparse⟩

/-- What is reported on a file is printed. -/
theorem Reported.printedAs {own : Printed} (h : Reported inputs name own) :
    (Report.check name (inputs.fileText name)).PrintedAs own := by
  cases h with
  | unreadable hread =>
      rw [hread]
      exact printedAs_unplaced .sourceUnreadable _
  | malformed hread hparse =>
      rw [hread]
      simp only [Report.check, hparse]
      exact printedAs_placed .syntaxError _ _ _
  | clean hread hparse =>
      rw [hread]
      simp only [Report.check, hparse]
      exact printedAs_fine

/-- A file is printed in one way. -/
theorem Reported.eq {one other : Printed} (h : Reported inputs name one)
    (hother : Reported inputs name other) : one = other :=
  h.printedAs.eq hother.printedAs

/-- A file with nothing to report is one that can be parsed: both read the file and then its
text. -/
theorem Reported.succeeded_parse {own : Printed} (h : Reported inputs name own)
    (shown : OutputFormat) : (parse shown inputs (some name)).succeeded = own.valid := by
  have hinput : parseInput inputs (some name) = (inputs.fileText name).mapError
      fun fault => "reading " ++ name ++ ": " ++ fault.message := rfl
  rw [parse, hinput]
  cases h with
  | unreadable hread =>
      rw [hread]
      exact succeeded_failure shown _
  | malformed hread hparse =>
      rw [hread]
      simp only [Except.mapError, hparse]
      exact succeeded_failure shown _
  | clean hread hparse =>
      rw [hread]
      simp only [Except.mapError, hparse]
      rfl

/-- Only the file itself counts for what is printed on it. -/
theorem Reported.of_file {others : Inputs} {own : Printed} (h : Reported inputs name own)
    (hfile : others.file name = inputs.file name) : Reported others name own := by
  have htext : others.fileText name = inputs.fileText name := by
    rw [Inputs.fileText, Inputs.fileText, hfile]
  cases h with
  | unreadable hread => exact .unreadable (htext.trans hread)
  | malformed hread hparse => exact .malformed (htext.trans hread) hparse
  | clean hread hparse => exact .clean (htext.trans hread) hparse

end Files

section Lists

variable {inputs : Inputs} {files : List String} {found : List Report} {printed : List Printed}

/-- Each file gets a report of its own. -/
theorem reports_eq_map (hfiles : files ≠ []) :
    reports inputs files = files.map fun name => .check name (inputs.fileText name) := by
  simp [reports, hfiles]

theorem exists_forall₂_reported (inputs : Inputs) (files : List String) :
    ∃ printed, List.Forall₂ (Reported inputs) files printed := by
  induction files with
  | nil => exact ⟨[], .nil⟩
  | cons name rest ih =>
      obtain ⟨own, hown⟩ := exists_reported inputs name
      obtain ⟨more, hmore⟩ := ih
      exact ⟨own :: more, .cons hown hmore⟩

theorem Reported.eq_of_forall₂ {others : List Printed}
    (h : List.Forall₂ (Reported inputs) files printed)
    (hothers : List.Forall₂ (Reported inputs) files others) : printed = others :=
  Relator.RightUnique.forall₂ (fun _ _ _ hone hother => hone.eq hother) h hothers

theorem forall₂_printedAs (hfiles : files ≠ []) (h : List.Forall₂ (Reported inputs) files printed) :
    List.Forall₂ Report.PrintedAs (reports inputs files) printed := by
  rw [reports_eq_map hfiles, List.forall₂_map_left_iff]
  exact h.imp fun _ _ hown => hown.printedAs

/-- What is read off pair by pair is read off the lists. -/
theorem map_eq_of_forall₂ {α β γ : Type} {relation : α → β → Prop} {f : α → γ} {g : β → γ}
    {xs : List α} {ys : List β} (h : List.Forall₂ relation xs ys)
    (hsame : ∀ x y, relation x y → f x = g y) : xs.map f = ys.map g := by
  rw [← List.forall₂_eq_eq_eq, List.forall₂_map_left_iff, List.forall₂_map_right_iff]
  exact h.imp hsame

theorem all_valid (h : List.Forall₂ Report.PrintedAs found printed) :
    found.all Report.valid = printed.all Printed.valid := by
  have hvalid := map_eq_of_forall₂ h fun _ _ hreport => hreport.valid
  simpa [List.all_map] using congrArg (fun flags => flags.all id) hvalid

/-- What is checked is printed. -/
theorem check_eq_gathered (h : List.Forall₂ Report.PrintedAs (reports inputs files) printed)
    (format : OutputFormat) (quiet : Bool) :
    check format quiet inputs files = gathered quiet printed format := by
  have hjson := map_eq_of_forall₂ h fun _ _ hreport => hreport.json
  have houtput := map_eq_of_forall₂ h fun _ _ hreport => hreport.output quiet
  have herrors := map_eq_of_forall₂ h fun _ _ hreport => hreport.errors
  cases format with
  | json => simp only [check, gathered, exitCode, reportsJson, hjson, all_valid h]
  | pretty => simp only [check, gathered, exitCode, houtput, herrors, all_valid h]

theorem all_succeeded (h : List.Forall₂ (Reported inputs) files printed) (shown : OutputFormat) :
    printed.all Printed.valid
      = files.all fun name => (parse shown inputs (some name)).succeeded := by
  induction h with
  | nil => rfl
  | cons hown _ ih => rw [List.all_cons, List.all_cons, hown.succeeded_parse shown, ih]

theorem succeeded_gathered (quiet : Bool) (printed : List Printed) (format : OutputFormat) :
    (gathered quiet printed format).succeeded = printed.all Printed.valid := by
  cases format <;> cases h : printed.all Printed.valid <;> simp [gathered, Outcome.succeeded, h]

/-- A file alone is printed as it is among others, whatever these hold. -/
theorem check_alone {others : Inputs} {name : String} {own : Printed}
    (h : Reported inputs name own) (hfile : others.file name = inputs.file name)
    (format : OutputFormat) (quiet : Bool) :
    check format quiet others [name] = gathered quiet [own] format := by
  have hlist : List.Forall₂ (Reported others) [name] [own] := .cons (h.of_file hfile) .nil
  exact check_eq_gathered (forall₂_printedAs (List.cons_ne_nil name []) hlist) format quiet

theorem map_alone (h : List.Forall₂ (Reported inputs) files printed) (format : OutputFormat)
    (quiet : Bool) (write : Outcome → String) :
    files.map (fun name => write (check format quiet inputs [name]))
      = printed.map fun own => write (gathered quiet [own] format) :=
  map_eq_of_forall₂ h fun _ _ hown => congrArg write (check_alone hown rfl format quiet)

end Lists

/-- Checking some files is checking each of them.  What it prints is put together from what it
prints on each file, in their order; and that is what it prints on the file alone, whatever the
other files hold.  It succeeds exactly if each file can be parsed.  Arguments that name the files
ask for it. -/
theorem check_each (inputs : Inputs) {files : List String} (hfiles : files ≠ []) (quiet : Bool)
    (shown : OutputFormat) :
    ∃ printed : List Printed,
      List.Forall₂ (fun name own => Reported inputs name own ∧
        own.valid = (parse shown inputs (some name)).succeeded ∧
        ∀ others : Inputs, others.file name = inputs.file name →
          ∀ format, check format quiet others [name] = gathered quiet [own] format) files printed ∧
      (∀ format, check format quiet inputs files = gathered quiet printed format) ∧
      (∀ format, (check format quiet inputs files).succeeded
        = files.all fun name => (parse shown inputs (some name)).succeeded) ∧
      ((check .pretty quiet inputs files).output
          = String.join (files.map fun name => (check .pretty quiet inputs [name]).output) ∧
        (check .pretty quiet inputs files).errors
          = String.join (files.map fun name => (check .pretty quiet inputs [name]).errors)) ∧
      ("" ∉ files → ∀ format pieces, List.Forall₂ Names files pieces →
        (Command.ofArguments (programArguments format quiet ++ "check" :: pieces.flatten)).outcome
            inputs = check format quiet inputs files ∧
          ∀ name ∈ files, ∀ piece, Names name piece →
            (Command.ofArguments (programArguments shown quiet ++ "parse" :: piece)).outcome inputs
              = parse shown inputs (some name)) := by
  obtain ⟨printed, hprinted⟩ := exists_forall₂_reported inputs files
  have hwhole := check_eq_gathered (forall₂_printedAs hfiles hprinted)
  refine ⟨printed, ?_, fun format => hwhole format quiet, fun format => ?_, ⟨?_, ?_⟩,
    fun hnames format pieces h => ⟨?_, fun name hname piece hpiece => ?_⟩⟩
  · exact hprinted.imp fun name own hown => ⟨hown, (hown.succeeded_parse shown).symm,
      fun others hfile format => check_alone hown hfile format quiet⟩
  · rw [hwhole, succeeded_gathered, all_succeeded hprinted shown]
  · rw [hwhole, map_alone hprinted]
    simp [gathered]
  · rw [hwhole, map_alone hprinted]
    simp [gathered]
  · rw [ofArguments_check h hnames]
    rfl
  · rw [ofArguments_parse hpiece (ne_of_mem_of_not_mem hname hnames)]
    rfl

/-- Files of every kind: a document, a text that is none, bytes that are no text, and no file. -/
def mixedInputs : Inputs :=
  ⟨.empty, fun name =>
    if name = "good" then .ok "\x7b\x7d".toUTF8
    else if name = "bad" then .ok "\x7ba 1\x7d".toUTF8
    else if name = "raw" then .ok ⟨#[0xFF]⟩
    else .error .notFound⟩

/-- Some of `mixedInputs`, one of them twice. -/
def mixedFiles : List String := ["good", "gone", "bad", "raw", "good"]

/-- Arguments that name `mixedFiles`, each in another way. -/
def mixedPieces : List (List String) :=
  [["-fgood"], ["--file", "gone"], ["--file=bad"], ["-f=raw"], ["-f", "good"]]

theorem mixed_names : List.Forall₂ Names mixedFiles mixedPieces :=
  .cons (.short (by decide)) (.cons (.longApart rfl) (.cons .long (.cons .shortMarked
    (.cons (.shortApart rfl) .nil))))

def mixedPrinted : List Printed :=
  let unreadable (name : String) : Printed :=
    .fault name "SourceUnreadable" "Unable to read configuration data from source" .null ""
  [.fine "good", unreadable "gone",
    .fault "bad" "SyntaxError"
      "Unable to parse configuration: expected ':', found '1\x7d' (at line:1 pos:4)"
      (.object [("column", .integer 4), ("line", .integer 1)]) ":1:4",
    unreadable "raw", .fine "good"]

theorem mixed_reported : List.Forall₂ (Reported mixedInputs) mixedFiles mixedPrinted := by
  have hgood : mixedInputs.fileText "good" = .ok "\x7b\x7d" := rfl
  have hempty : Document.parse "\x7b\x7d" = .ok ⟨[], ⟨0, 2, 1, 1⟩⟩ := rfl
  have hbad : mixedInputs.fileText "bad" = .ok "\x7ba 1\x7d" := rfl
  have hcolon : Document.parse "\x7ba 1\x7d"
      = .error (.malformed "expected ':', found '1\x7d'" ⟨1, 4⟩) := rfl
  have hgone : mixedInputs.fileText "gone" = .error .notFound := rfl
  have hraw : mixedInputs.fileText "raw" = .error .notUtf8 := rfl
  exact .cons (.clean hgood hempty) (.cons (.unreadable hgone) (.cons (.malformed hbad hcolon)
    (.cons (.unreadable hraw) (.cons (.clean hgood hempty) .nil))))

theorem mixed_each :
    mixedFiles ≠ [] ∧ "" ∉ mixedFiles ∧
      (Command.ofArguments
          (programArguments .json false ++ "check" :: mixedPieces.flatten)).outcome mixedInputs
        = check .json false mixedInputs mixedFiles ∧
      check .json false mixedInputs mixedFiles
        = ⟨1, (Json.object [("sources", .array (mixedPrinted.map Printed.json)),
            ("valid", .bool false)]).pretty ++ "\n", ""⟩ ∧
      check .pretty false mixedInputs mixedFiles
        = ⟨1, "OK good\nOK good\n",
            "error[SourceUnreadable]: Unable to read configuration data from source\n  --> gone\n"
              ++ "error[SyntaxError]: Unable to parse configuration: expected ':', found '1\x7d' "
              ++ "(at line:1 pos:4)\n  --> bad:1:4\n"
              ++ "error[SourceUnreadable]: Unable to read configuration data from source\n"
              ++ "  --> raw\n"⟩ ∧
      (check .json false mixedInputs ["good", "bad"]).output
        = "\x7b\n  \"sources\": [\n    \x7b\n      \"diagnostics\": [],\n"
          ++ "      \"source\": \"good\",\n      \"valid\": true\n    \x7d,\n    \x7b\n"
          ++ "      \"diagnostics\": [\n        \x7b\n          \"code\": \"SyntaxError\",\n"
          ++ "          \"message\": \"Unable to parse configuration: expected ':', found '1\x7d' "
          ++ "(at line:1 pos:4)\",\n          \"severity\": \"Error\",\n"
          ++ "          \"span\": \x7b\n            \"column\": 4,\n            \"line\": 1\n"
          ++ "          \x7d\n        \x7d\n      ],\n      \"source\": \"bad\",\n"
          ++ "      \"valid\": false\n    \x7d\n  ],\n  \"valid\": false\n\x7d\n" := by
  have hfiles : mixedFiles ≠ [] := by decide
  have hnames : "" ∉ mixedFiles := by decide
  obtain ⟨printed, hprinted, hwhole, -, -, harguments⟩ :=
    check_each mixedInputs hfiles false .pretty
  obtain rfl : printed = mixedPrinted :=
    Reported.eq_of_forall₂ (hprinted.imp fun _ _ hown => hown.1) mixed_reported
  refine ⟨hfiles, hnames, (harguments hnames .json mixedPieces mixed_names).1,
    (hwhole .json).trans rfl, (hwhole .pretty).trans ?_, ?_⟩
  · decide +kernel
  · decide +kernel

end TypedConfig.CommandLine
