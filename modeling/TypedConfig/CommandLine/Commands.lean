import TypedConfig.CommandLine.Arguments
import TypedConfig.Document.Lookup
import TypedConfig.Error

/-!
What the commands write.  `parse` shows the tree of one document; `check` reports on each document
in the order of the arguments, and what one report says does not depend on the others.
-/

namespace TypedConfig.CommandLine

/-!
Reading the files that a command line names.  The commands ask for a file by its name and are told
its bytes or why there are none.
-/

/-- Why a source cannot be read. -/
inductive ReadFault where
  | notFound
  | notDirectory
  | isDirectory
  | nameTooLong
  | notUtf8
  | other (message : String)
deriving DecidableEq, Repr

def ReadFault.message : ReadFault → String
  | .notFound => "No such file or directory (os error 2)"
  | .notDirectory => "Not a directory (os error 20)"
  | .isDirectory => "Is a directory (os error 21)"
  | .nameTooLong => "File name too long (os error 36)"
  | .notUtf8 => "stream did not contain valid UTF-8"
  | .other message => message

/-- Where commands read from: the standard input, and files by name. -/
structure Inputs where
  standard : ByteArray
  file : String → Except ReadFault ByteArray

def decodeText (content : ByteArray) : Except ReadFault String :=
  match String.fromUTF8? content with
  | some text => .ok text
  | none => .error .notUtf8

def Inputs.standardText (inputs : Inputs) : Except ReadFault String :=
  decodeText inputs.standard

def Inputs.fileText (inputs : Inputs) (name : String) : Except ReadFault String :=
  (inputs.file name).bind decodeText

def pathParts : List Char → List (List Char)
  | [] => [[]]
  | c :: rest =>
    if c = '/' then [] :: pathParts rest
    else match pathParts rest with
      | part :: more => (c :: part) :: more
      | [] => [[c]]

/-- A directory that holds files under their paths, whose parts are the names of directories and at
last the name of the file. -/
structure Directory where
  files : List (List (List Char) × ByteArray)

namespace Directory

def ofList (files : List (String × ByteArray)) : Directory :=
  ⟨files.map fun (name, content) => (pathParts name.toList, content)⟩

/-- The content of the file at a path. -/
def content? (directory : Directory) (path : List (List Char)) : Option ByteArray :=
  (directory.files.find? fun file => file.1 == path).map Prod.snd

def isDirectory (directory : Directory) (path : List (List Char)) : Bool :=
  path.isEmpty || directory.files.any fun file => path.isPrefixOf file.1 && file.1 != path

/-- The longest name of a file, in bytes. -/
def longestName : Nat := 255

/-- Whether a part of a path names no entry of a directory. -/
def isDots (part : List Char) : Bool := part.isEmpty || part == ['.'] || part == ['.', '.']

/-- Reads the file at the end of a path that goes on from `here` with `parts`.  Empty parts and `.`
stay where they are, and `..` goes back; a part that goes on from a file fails.  Outside of the
directory there are no files. -/
def follow (directory : Directory) (here : List (List Char)) :
    List (List Char) → Except ReadFault ByteArray
  | [] =>
    match directory.content? here with
    | some content => .ok content
    | none => if directory.isDirectory here then .error .isDirectory else .error .notFound
  | part :: rest =>
    if (directory.content? here).isSome then .error .notDirectory
    else if !directory.isDirectory here then .error .notFound
    else if part.isEmpty || part = ['.'] then directory.follow here rest
    else if part = ['.', '.'] then
      if here.isEmpty then
        if rest.all isDots then .error .isDirectory else .error .notFound
      else directory.follow here.dropLast rest
    else if longestName < (String.ofList part).utf8ByteSize then .error .nameTooLong
    else directory.follow (here ++ [part]) rest

def read (directory : Directory) (name : String) : Except ReadFault ByteArray :=
  directory.follow [] (pathParts name.toList)

end Directory

/-!
What is written.
-/

/-- What a command leaves behind: its exit code and what it wrote. -/
structure Outcome where
  code : Nat
  output : String
  errors : String
deriving DecidableEq, Repr

def exitCode (succeeded : Bool) : Nat := if succeeded then 0 else 1

/-- The outcome of a command that fails as a whole. -/
def failure (format : OutputFormat) (message : String) : Outcome :=
  match format with
  | .json => ⟨1, (Json.object [("error", .string message)]).compact ++ "\n", ""⟩
  | .pretty => ⟨1, "", "error: " ++ message ++ "\n"⟩

/-- The text to parse, or the message that it cannot be read. -/
def parseInput (inputs : Inputs) : Option String → Except String String
  | some name =>
    (inputs.fileText name).mapError fun fault => "reading " ++ name ++ ": " ++ fault.message
  | none => inputs.standardText.mapError fun fault => "reading stdin: " ++ fault.message

def showDocument (format : OutputFormat) (document : Document) : String :=
  match format with
  | .json => document.toJson.pretty ++ "\n"
  | .pretty =>
    "OK Parsed " ++ Nat.repr document.fields.length ++ " top-level field(s)\n"
      ++ document.outline.indented ++ "\n"

/-- Shows the tree of one document. -/
def parse (format : OutputFormat) (inputs : Inputs) (file : Option String) : Outcome :=
  match parseInput inputs file with
  | .error message => failure format message
  | .ok text =>
    match Document.parse text with
    | .error error => failure format error.message
    | .ok document => ⟨0, showDocument format document, ""⟩

/-- What was found in one source. -/
structure Report where
  source : String
  diagnostics : List Diagnostic
deriving DecidableEq, Repr

namespace Report

def valid (report : Report) : Bool := report.diagnostics.isEmpty

def check (source : String) (text : Except ReadFault String) : Report :=
  match text with
  | .error _ => ⟨source, [.ofError .unreadable]⟩
  | .ok text =>
    match Document.parse text with
    | .ok _ => ⟨source, []⟩
    | .error error => ⟨source, [.ofError error]⟩

/-- The JSON form of a report, its members sorted by name. -/
def toJson (report : Report) : Json :=
  .object [("diagnostics", .array (report.diagnostics.map Diagnostic.toJson)),
    ("source", .string report.source), ("valid", .bool report.valid)]

/-- The line for a source without diagnostics, unless only those are wanted. -/
def output (quiet : Bool) (report : Report) : String :=
  if report.valid && !quiet then "OK " ++ report.source ++ "\n" else ""

/-- The lines for the diagnostics of a source. -/
def errors (report : Report) : String :=
  String.join (report.diagnostics.map (Diagnostic.lines report.source))

end Report

/-- The reports on some files, or on the standard input if there are none. -/
def reports (inputs : Inputs) (files : List String) : List Report :=
  if files.isEmpty then [.check "<stdin>" inputs.standardText]
  else files.map fun name => .check name (inputs.fileText name)

/-- The JSON form of some reports, its members sorted by name. -/
def reportsJson (found : List Report) : Json :=
  .object [("sources", .array (found.map Report.toJson)), ("valid", .bool (found.all Report.valid))]

def check (format : OutputFormat) (quiet : Bool) (inputs : Inputs) (files : List String) :
    Outcome :=
  let found := reports inputs files
  let code := exitCode (found.all Report.valid)
  match format with
  | .json => ⟨code, (reportsJson found).pretty ++ "\n", ""⟩
  | .pretty =>
    ⟨code, String.join (found.map (Report.output quiet)), String.join (found.map Report.errors)⟩

def versionText : String := "conf_cli 0.1.0\n"

/-- The lines about the options that every level has. -/
def commonOptions : String :=
  "  -o, --format <FORMAT>  Output format: pretty (default) or json [default: pretty] "
    ++ "[possible values: json, pretty]\n"
    ++ "  -q, --quiet            Suppress non-essential output\n"
    ++ "  -h, --help             Print help\n"

def helpText : Topic → String
  | .program =>
    "Parse and check conf configuration documents\n\nUsage: conf_cli [OPTIONS] <COMMAND>\n\n"
      ++ "Commands:\n  parse  Parse a document and print its parse tree\n"
      ++ "  check  Syntax-check one or more documents\n"
      ++ "  help   Print this message or the help of the given subcommand(s)\n\nOptions:\n"
      ++ commonOptions ++ "  -V, --version          Print version\n"
  | .parse =>
    "Parse a document and print its parse tree\n\nUsage: conf_cli parse [OPTIONS]\n\nOptions:\n"
      ++ "  -f, --file <FILE>      Input file (reads stdin if not provided)\n" ++ commonOptions
  | .check =>
    "Syntax-check one or more documents\n\nUsage: conf_cli check [OPTIONS]\n\nOptions:\n"
      ++ "  -f, --file <FILE>      Input files (reads stdin if none are provided)\n"
      ++ commonOptions
  | .help =>
    "Print this message or the help of the given subcommand(s)\n\n"
      ++ "Usage: conf_cli help [COMMAND]...\n\nArguments:\n"
      ++ "  [COMMAND]...  Print help for the subcommand(s)\n"

def Command.outcome (inputs : Inputs) : Command → Outcome
  | .run (.parse file) format _ => CommandLine.parse format inputs file
  | .run (.check files) format quiet => CommandLine.check format quiet inputs files
  | .version => ⟨0, versionText, ""⟩
  | .help topic => ⟨0, helpText topic, ""⟩
  | .misuse => ⟨2, "", "usage: conf_cli [OPTIONS] <COMMAND>\n"⟩

end TypedConfig.CommandLine
