import TypedConfig.Record.TypeText.Types

/-!
Records as they are written: annotated members of written types.  Reading one gives its extension
name and the role of each member, or the first refusal.
-/

namespace TypedConfig

/-!
The roles that the members of a record play when it is bound, and the annotations that give them.
An annotation group stands under a path and holds settings; only groups under `config` matter.  A
member is a field unless its settings say otherwise, and a record may set the name under which it
extends others.
-/

/-- What becomes of a member.  An extension knows the type of its elements. -/
inductive Role (Element : Type) where
  | skip
  | key
  | field (name : String) (collection : Bool)
  | extension (element : Element)
deriving DecidableEq, Repr

/-- One setting of an annotation group: a name alone, or a name with a text. -/
structure Setting where
  name : String
  value : Option String
deriving DecidableEq, Repr

/-- An annotation group: its path and its settings. -/
structure Annotation where
  path : String
  settings : List Setting
deriving DecidableEq, Repr

/-- Why a record is refused. -/
inductive RecordFault where
  | generic
  | unnamedMembers
  | notRecord
  | unsupportedRecordSetting
  | unsupportedMemberSetting
  /-- A setting that needs a text has none. -/
  | missingText
  /-- A setting that takes no text has one. -/
  | unexpectedText
  | exclusiveRoles
  | notVec
deriving DecidableEq, Repr

def RecordFault.message : RecordFault → String
  | .generic => "Configurable cannot be derived for generic types"
  | .unnamedMembers => "Configurable requires a struct with named fields"
  | .notRecord => "Configurable only works on structs"
  | .unsupportedRecordSetting =>
    "unsupported struct attribute, expected \x60extension_name\x60"
  | .unsupportedMemberSetting =>
    "unsupported field attribute, expected one of \x60name\x60, \x60skip\x60, \x60collection\x60, \x60key\x60, \x60extension\x60"
  | .missingText => "expected \x60=\x60"
  | .unexpectedText => "expected \x60,\x60"
  | .exclusiveRoles =>
    "\x60key\x60, \x60extension\x60 and \x60collection\x60 are mutually exclusive"
  | .notVec => "\x60extension\x60 fields must have type Vec<T>"

/-- The settings of all groups under `config`, in order. -/
def configSettings (annotations : List Annotation) : List Setting :=
  (annotations.filter fun annotation => annotation.path == "config").flatMap Annotation.settings

/-- What the settings of a member say. -/
structure MemberSettings where
  name : Option String
  skip : Bool
  collection : Bool
  key : Bool
  extension : Bool
deriving DecidableEq, Repr

namespace MemberSettings

/-- The settings of a member without annotations. -/
def none : MemberSettings := ⟨.none, false, false, false, false⟩

/-- A setting that takes no text. -/
def flag (setting : Setting) (settings : MemberSettings) : Except RecordFault MemberSettings :=
  if setting.value.isSome then .error .unexpectedText else .ok settings

/-- Takes one more setting.  The last name wins. -/
def add (settings : MemberSettings) (setting : Setting) : Except RecordFault MemberSettings :=
  if setting.name = "name" then
    match setting.value with
    | some text => .ok { settings with name := some text }
    | .none => .error .missingText
  else if setting.name = "skip" then flag setting { settings with skip := true }
  else if setting.name = "collection" then flag setting { settings with collection := true }
  else if setting.name = "key" then flag setting { settings with key := true }
  else if setting.name = "extension" then flag setting { settings with extension := true }
  else .error .unsupportedMemberSetting

/-- Takes settings in order, up to the first that is refused. -/
def addAll (settings : MemberSettings) : List Setting → Except RecordFault MemberSettings
  | [] => .ok settings
  | setting :: rest => do (← settings.add setting).addAll rest

/-- Whether more than one of the roles that exclude one another is set. -/
def conflicting (settings : MemberSettings) : Bool :=
  (settings.key && settings.extension) || (settings.key && settings.collection)
    || (settings.extension && settings.collection)

/-- The role that the settings give a member.  `fallback` is its name without a setting, and
`element` the element type of an extension, if the type of the member has one. -/
def role {Element : Type} (fallback : String) (element : Option Element)
    (settings : MemberSettings) : Except RecordFault (Role Element) :=
  if settings.skip then .ok .skip
  else if settings.conflicting then .error .exclusiveRoles
  else if settings.key then .ok .key
  else if settings.extension then
    match element with
    | some type => .ok (.extension type)
    | .none => .error .notVec
  else .ok (.field (settings.name.getD fallback) settings.collection)

end MemberSettings

/-- The name that a record's settings give it as an extension.  The last one wins. -/
def extensionSetting (name : Option String) : List Setting → Except RecordFault (Option String)
  | [] => .ok name
  | setting :: rest =>
    if setting.name = "extension_name" then
      match setting.value with
      | some text => extensionSetting (some text) rest
      | none => .error .missingText
    else .error .unsupportedRecordSetting

/-- The field name of a member that sets none: its identifier without the mark of a raw one, with
hyphens for underscores. -/
def defaultName (identifier : List Char) : List Char :=
  let bare := match identifier with
    | 'r' :: '#' :: rest => rest
    | other => other
  bare.map fun c => if c = '_' then '-' else c

/-!
Written records.
-/

/-- The forms of written types.  Only a plain struct with named members is a record. -/
inductive WrittenForm where
  | plain
  | generic
  | tuple
  | unit
  | choice
  | union
deriving DecidableEq, Repr

/-- A written member. -/
structure WrittenMember where
  identifier : String
  type : String
  annotations : List Annotation
deriving DecidableEq, Repr

/-- A written record. -/
structure WrittenRecord where
  form : WrittenForm
  annotations : List Annotation
  members : List WrittenMember
deriving DecidableEq, Repr

def WrittenMember.role (member : WrittenMember) : Except RecordFault (Role String) := do
  let settings ← MemberSettings.none.addAll (configSettings member.annotations)
  settings.role (String.ofList (defaultName member.identifier.toList))
    (TypeText.vecElement? member.type)

namespace WrittenRecord

/-- Refuses the forms that are no records. -/
def checkForm : WrittenForm → Except RecordFault Unit
  | .plain => .ok ()
  | .generic => .error .generic
  | .tuple => .error .unnamedMembers
  | .unit => .error .unnamedMembers
  | .choice => .error .notRecord
  | .union => .error .notRecord

/-- The roles of some members, up to the first refusal. -/
def memberRoles : List WrittenMember → Except RecordFault (List (Role String))
  | [] => .ok []
  | member :: rest => do pure ((← member.role) :: (← memberRoles rest))

/-- The extension name of a record and the roles of its members. -/
def roles (record : WrittenRecord) : Except RecordFault (Option String × List (Role String)) := do
  checkForm record.form
  let name ← extensionSetting none (configSettings record.annotations)
  pure (name, ← memberRoles record.members)

end WrittenRecord

end TypedConfig
