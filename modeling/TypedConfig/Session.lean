import TypedConfig.Binding.Walk
import TypedConfig.Document.Json

/-!
Loading a value of a type from some source, alone and in a session.  The source is read first, then
the schema of the type is derived, and only then is what was read taken for a document; so a broken
type is reported even when the document is broken too.
-/

namespace TypedConfig

/-- How documents are loaded. -/
structure Options where
  /-- Whether derived schemas are kept and used again for the same root type. -/
  cacheSchemas : Bool
deriving DecidableEq, Repr

namespace Options

def standard : Options := ⟨true⟩

/-- The words that turn an option off, in lower case. -/
def offWords : List (List Char) := ["0".toList, "false".toList, "off".toList, "no".toList]

/-- The options for a value of the environment variable: a word that turns the cache off may stand
between blanks and be written in any case, and everything else leaves it on. -/
def ofEnvironment : Option String → Options
  | none => standard
  | some raw => ⟨!offWords.contains ((Text.trim raw.toList).map Char.toLower)⟩

end Options

/-- Where a document comes from. -/
inductive Source where
  /-- A text. -/
  | text (content : String)
  /-- Bytes that should be UTF-8. -/
  | bytes (content : ByteArray)
  /-- A file that is not there. -/
  | missing
  /-- The JSON form of a document. -/
  | tree (form : Json)

/-- What was read from a source and is not taken apart yet. -/
inductive Unopened where
  | text (content : String)
  | tree (form : Json)

/-- Why nothing was loaded. -/
inductive LoadFault where
  | config (error : ConfigError)
  /-- The JSON value is not the form of a document. -/
  | badTree

def Source.read : Source → Except LoadFault Unopened
  | .text content => .ok (.text content)
  | .bytes content =>
    match String.fromUTF8? content with
    | some decoded => .ok (.text decoded)
    | none => .error (.config .unreadable)
  | .missing => .error (.config .unreadable)
  | .tree form => .ok (.tree form)

def Unopened.document : Unopened → Except LoadFault Document
  | .text content => (Document.parse content).mapError .config
  | .tree form =>
    match Document.ofJson? form with
    | some document => .ok document
    | none => .error .badTree

/-- What is made of a bound document: the root container as it is, or a value of a type. -/
inductive Goal where
  | container
  | value (type : Ty)

/-- What was loaded. -/
inductive Loaded where
  | container (value : Value)
  | value (value : Bound)

/-- Binds a document along a schema towards a goal. -/
def Document.reach (schema : Schema) (goal : Goal) (document : Document) :
    Except ConfigError Loaded :=
  match goal with
  | .container => (document.bindValue schema).map .container
  | .value type => (document.bind schema type).map .value

/-- Loads what was read along a schema, if there is one. -/
def Unopened.load (unopened : Unopened) (schema : Except SchemaFault Schema) (goal : Goal) :
    Except LoadFault Loaded := do
  let schema ← schema.mapError fun fault => .config fault.toError
  let document ← unopened.document
  (document.reach schema goal).mapError .config

/-- Loads from a source along the schema of a root type, derived for this one time. -/
def Source.load (source : Source) (table : Declarations) (root : Ty) (goal : Goal) :
    Except LoadFault Loaded := do
  (← source.read).load (Schema.derive table root) goal

/-!
Sessions.  The only thing that a session remembers is the cache of derived schemas, under their root
types.  A schema that was derived once is handed out again, and its number in the cache tells
whether two were the same; a failed derivation leaves nothing behind.
-/

/-- A schema from the cache with its number there. -/
structure SharedSchema where
  number : Nat
  schema : Schema
deriving DecidableEq, Repr

/-- The schemas that were derived, latest first, with their root types. -/
structure SchemaCache where
  entries : List (Ty × SharedSchema)
deriving DecidableEq, Repr

namespace SchemaCache

def empty : SchemaCache := ⟨[]⟩

/-- The schema of a root type in the cache. -/
def find? (cache : SchemaCache) (root : Ty) : Option SharedSchema :=
  cache.entries.lookup root

/-- The schema of a root type: the one in the cache, or else a new one, which is put there. -/
def derive (table : Declarations) (root : Ty) (cache : SchemaCache) :
    Except SchemaFault SharedSchema × SchemaCache :=
  match cache.find? root with
  | some shared => (.ok shared, cache)
  | none =>
    match Schema.derive table root with
    | .ok schema =>
      let shared := ⟨cache.entries.length, schema⟩
      (.ok shared, ⟨(root, shared) :: cache.entries⟩)
    | .error fault => (.error fault, cache)

end SchemaCache

/-- A step of a session. -/
inductive Request where
  /-- Derives a schema through the cache. -/
  | cached (root : Ty)
  /-- Derives a schema without the cache. -/
  | fresh (root : Ty)
  /-- Loads a document. -/
  | load (options : Options) (root : Ty) (goal : Goal) (source : Source)

/-- The answer to a step. -/
inductive Answer where
  | shared (result : Except SchemaFault SharedSchema)
  | fresh (result : Except SchemaFault Schema)
  | loaded (result : Except LoadFault Loaded)

def Request.answer (table : Declarations) (cache : SchemaCache) : Request → Answer × SchemaCache
  | .cached root =>
    let (result, cache) := cache.derive table root
    (.shared result, cache)
  | .fresh root => (.fresh (Schema.derive table root), cache)
  | .load options root goal source =>
    match source.read with
    | .error fault => (.loaded (.error fault), cache)
    | .ok unopened =>
      if options.cacheSchemas then
        let (result, cache) := cache.derive table root
        (.loaded (unopened.load (result.map SharedSchema.schema) goal), cache)
      else (.loaded (unopened.load (Schema.derive table root) goal), cache)

/-- Answers steps in order, beginning with the given cache. -/
def Request.answers (table : Declarations) (cache : SchemaCache) : List Request → List Answer
  | [] => []
  | request :: rest =>
    let (answer, cache) := request.answer table cache
    answer :: answers table cache rest

namespace Answer

/-- The number of the cached schema that a step was given. -/
def sharedNumber? : Answer → Option Nat
  | .shared (.ok found) => some found.number
  | _ => none

/-- The first step before `index` that was given the very same cached schema as the step there. -/
def sameAs? (answers : List Answer) (index : Nat) : Option Nat :=
  match (answers[index]?).bind sharedNumber? with
  | none => none
  | some number =>
    (List.range index).find? fun earlier =>
      (answers[earlier]?).bind sharedNumber? == some number

end Answer

end TypedConfig
