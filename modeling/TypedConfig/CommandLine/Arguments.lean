/-!
The arguments of the command line.  They are read from left to right: options of the program, the
name of an activity, and options of the activity, among which those of the program may stand again.
What asks for the version or for help ends the reading; anything that does not fit is a mistake of
usage.
-/

namespace TypedConfig.CommandLine

/-- The forms of output. -/
inductive OutputFormat where
  | json
  | pretty
deriving DecidableEq, Repr

/-- What the program is asked to do: show the tree of one document, or check several.  Without files
it reads the standard input. -/
inductive Activity where
  | parse (file : Option String)
  | check (files : List String)
deriving DecidableEq, Repr

/-- The levels of arguments: those of the program, and those of each activity. -/
inductive Level where
  | program
  | parse
  | check
deriving DecidableEq, Repr

/-- What help can be asked for. -/
inductive Topic where
  | program
  | parse
  | check
  | help
deriving DecidableEq, Repr

/-- A whole command line. -/
inductive Command where
  | run (activity : Activity) (format : OutputFormat) (quiet : Bool)
  | version
  | help (topic : Topic)
  /-- The arguments do not fit together. -/
  | misuse
deriving DecidableEq, Repr

/-- The options. -/
inductive Switch where
  | format
  | quiet
  | file
  | help
  | version
deriving DecidableEq, Repr

def Level.has : Level → Switch → Bool
  | .program, .file => false
  | .parse, .version => false
  | .check, .version => false
  | _, _ => true

def longSwitch? (name : List Char) : Option Switch :=
  if name = "format".toList then some .format
  else if name = "quiet".toList then some .quiet
  else if name = "file".toList then some .file
  else if name = "help".toList then some .help
  else if name = "version".toList then some .version
  else none

def shortSwitch? : Char → Option Switch
  | 'o' => some .format
  | 'q' => some .quiet
  | 'f' => some .file
  | 'h' => some .help
  | 'V' => some .version
  | _ => none

def Switch.takesValue : Switch → Bool
  | .format => true
  | .file => true
  | _ => false

/-- What the options of one level say. -/
structure Settings where
  format : Option OutputFormat
  quiet : Bool
  files : List String
deriving DecidableEq, Repr

def Settings.none : Settings := ⟨.none, false, []⟩

def Level.topic : Level → Topic
  | .program => .program
  | .parse => .parse
  | .check => .check

def format? (name : List Char) : Option OutputFormat :=
  if name = "json".toList then some .json
  else if name = "pretty".toList then some .pretty
  else none

/-- Takes an option without value.  What ends the reading is the error. -/
def Settings.flag (level : Level) (settings : Settings) : Switch → Except Command Settings
  | .quiet => if settings.quiet then .error .misuse else .ok { settings with quiet := true }
  | .help => .error (.help level.topic)
  | .version => .error .version
  | _ => .error .misuse

/-- Takes an option with its value.  A format is given once, a file to parse is given once, and a
file has a name. -/
def Settings.value (level : Level) (settings : Settings) (option : Switch) (value : List Char) :
    Except Command Settings :=
  match option with
  | .format =>
    match settings.format, format? value with
    | .none, some format => .ok { settings with format := some format }
    | _, _ => .error .misuse
  | .file =>
    if value.isEmpty || (level = .parse && !settings.files.isEmpty) then .error .misuse
    else .ok { settings with files := settings.files ++ [String.ofList value] }
  | _ => .error .misuse

/-- A cluster of letters behind one hyphen: the settings after its options, and the option whose
value is the next argument, if the cluster ends with one. -/
def cluster (level : Level) (settings : Settings) :
    List Char → Except Command (Settings × Option Switch)
  | [] => .ok (settings, none)
  | letter :: rest =>
    match (shortSwitch? letter).filter level.has with
    | none => .error .misuse
    | some option =>
      if option.takesValue then
        match rest with
        | [] => .ok (settings, some option)
        | '=' :: value => (settings.value level option value).map fun done => (done, none)
        | value => (settings.value level option value).map fun done => (done, none)
      else do
        let settings ← settings.flag level option
        cluster level settings rest

/-- A long option behind its two hyphens, in the same way. -/
def longArgument (level : Level) (settings : Settings) (text : List Char) :
    Except Command (Settings × Option Switch) :=
  match (longSwitch? (text.takeWhile (· != '='))).filter level.has with
  | none => .error .misuse
  | some option =>
    match text.dropWhile (· != '=') with
    | _ :: value =>
      if option.takesValue then
        (settings.value level option value).map fun done => (done, none)
      else .error .misuse
    | [] =>
      if option.takesValue then .ok (settings, some option)
      else (settings.flag level option).map fun done => (done, none)

/-- Whether an argument can be the value of an option: it begins with no hyphen, or is one. -/
def isValue : List Char → Bool
  | ['-'] => true
  | '-' :: _ => false
  | _ => true

/-- The options at the front of a level: the settings, and the arguments from the first one on that
is no option.  `pending` is an option that waits for its value. -/
def readOptions (level : Level) (settings : Settings) (pending : Option Switch) :
    List (List Char) → Except Command (Settings × List (List Char))
  | [] =>
    match pending with
    | none => .ok (settings, [])
    | some _ => .error .misuse
  | argument :: rest =>
    match pending with
    | some option =>
      if isValue argument then do
        let settings ← settings.value level option argument
        readOptions level settings none rest
      else .error .misuse
    | none =>
      match argument with
      | ['-', '-'] => if rest.isEmpty then .ok (settings, []) else .error .misuse
      | '-' :: '-' :: text => do
        let (settings, pending) ← longArgument level settings text
        readOptions level settings pending rest
      | '-' :: letter :: letters => do
        let (settings, pending) ← cluster level settings (letter :: letters)
        readOptions level settings pending rest
      | _ => .ok (settings, argument :: rest)

/-- The options of an activity, behind which nothing may stand. -/
def readActivity (level : Level) (arguments : List (List Char)) : Except Command Settings := do
  let (settings, rest) ← readOptions level .none none arguments
  if rest.isEmpty then pure settings else throw .misuse

/-- The command of an activity.  Its own format goes before that of the program. -/
def combine (program own : Settings) (activity : Activity) : Command :=
  .run activity ((own.format.orElse fun _ => program.format).getD .pretty)
    (program.quiet || own.quiet)

def topic? : List (List Char) → Option Topic
  | [] => some .program
  | [name] =>
    if name = "parse".toList then some .parse
    else if name = "check".toList then some .check
    else if name = "help".toList then some .help
    else none
  | _ => none

/-- Reads the arguments up to what ends the reading early, if something does. -/
def Command.read (arguments : List (List Char)) : Except Command Command := do
  let (program, rest) ← readOptions .program .none none arguments
  match rest with
  | [] => throw .misuse
  | name :: rest =>
    if name = "parse".toList then
      let own ← readActivity .parse rest
      pure (combine program own (.parse own.files.head?))
    else if name = "check".toList then
      let own ← readActivity .check rest
      pure (combine program own (.check own.files))
    else if name = "help".toList then
      match topic? rest with
      | some topic => pure (.help topic)
      | none => throw .misuse
    else throw .misuse

def Command.ofArguments (arguments : List String) : Command :=
  match Command.read (arguments.map String.toList) with
  | .ok command => command
  | .error command => command

end TypedConfig.CommandLine
