import TypedConfig.Record.Written
import TypedConfig.Value.Basic

/-!
Records: object types whose instances hold one value for each member.  A member has a default, and
the calls made on an instance change its members one after another: a field is replaced, an
extension is appended to, and the key is set to the name.
-/

namespace TypedConfig

/-- A member: its identifier, its type, its role, and the value that it has by default. -/
structure Member where
  identifier : String
  type : Ty
  role : Role Ty
  initial : Bound

/-- A record. -/
structure Record where
  name : String
  extensionName : Option String
  members : List Member

namespace Record

def fieldSlot? (member : Member) : Option FieldSlot :=
  match member.role with
  | .field name collection => some ⟨name, member.type, collection⟩
  | _ => none

def extensionSlot? (member : Member) : Option Ty :=
  match member.role with
  | .extension element => some element
  | _ => none

/-- Whether a member takes the name under which the record stands. -/
def isKey (member : Member) : Bool :=
  match member.role with
  | .key => true
  | _ => false

def objectType (record : Record) : ObjectType :=
  ⟨record.name, record.extensionName, record.members.filterMap fieldSlot?,
    record.members.countP isKey, record.members.filterMap extensionSlot?⟩

end Record

/-- A name as a value of a text type, wrapped or not. -/
def Bound.ofName (name : String) : Ty → Bound
  | .option inner => .present (.ofName name inner)
  | .box inner => .boxed (.ofName name inner)
  | _ => .scalar (.string name)

def Bound.append : Bound → Bound → Bound
  | .list items, value => .list (items ++ [value])
  | other, _ => other

namespace Member

/-- The name under which an extension with elements of some type is accepted. -/
def acceptedAs (table : Declarations) (element : Ty) : Option String :=
  match element.core with
  | .object id => (table.object id).extensionName
  | _ => none

/-- The value of a member after one more call. -/
def receive (table : Declarations) (member : Member) (current : Bound) (call : Call Bound) :
    Bound :=
  match member.role, call with
  | .key, .key name => .ofName name member.type
  | .field own _, .field name value => if own = name then value else current
  | .extension element, .extension name value =>
    if acceptedAs table element = some name then current.append value else current
  | _, _ => current

/-- The value of a member after some calls on a default instance. -/
def after (table : Declarations) (member : Member) (calls : List (Call Bound)) : Bound :=
  calls.foldl (member.receive table) member.initial

end Member

def Record.values (table : Declarations) (record : Record) (calls : List (Call Bound)) :
    List (String × Bound) :=
  record.members.map fun member => (member.identifier, member.after table calls)

end TypedConfig
