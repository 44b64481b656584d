import TypedConfig.Record.Basic

/-!
A catalogue of records.  They use every role, every type and every wrapper, contain themselves and
one another, and some of them break a rule of declarations on purpose.
-/

namespace TypedConfig.Catalogue

def string : Ty := .scalar .string

def int : Ty := .scalar .int

def bool : Ty := .scalar .bool

def emptyText : Bound := .scalar (.string "")

/-! The places in the catalogue of the records that other records refer to. -/

def flatObjectId : Nat := 0
def recursiveObjectId : Nat := 5
def runtimePropertyId : Nat := 7
def listenerId : Nat := 8
def poolId : Nat := 10
def memberId : Nat := 11
def backupId : Nat := 12
def sizeClaimId : Nat := 19
def otherMemberId : Nat := 21

/-- A field under its own name. -/
def field (identifier name : String) (type : Ty) (initial : Bound) : Member :=
  ⟨identifier, type, .field name false, initial⟩

/-- A field that is declared as a collection. -/
def collection (identifier name : String) (type : Ty) (initial : Bound) : Member :=
  ⟨identifier, type, .field name true, initial⟩

/-- A member that takes the name of its record. -/
def key (identifier : String) (type : Ty) (initial : Bound) : Member :=
  ⟨identifier, type, .key, initial⟩

/-- A member that takes extensions of some type. -/
def extension (identifier : String) (element : Ty) (initial : List Bound) : Member :=
  ⟨identifier, .list element, .extension element, .list initial⟩

/-- A member that takes no part in binding. -/
def skipped (identifier : String) (type : Ty) (initial : Bound) : Member :=
  ⟨identifier, type, .skip, initial⟩

/-- An optional field, absent by default. -/
def optional (identifier name : String) (type : ScalarType) : Member :=
  field identifier name (.option (.scalar type)) .absent

/-- An optional member of every scalar type beside its key. -/
def flatObject : Record :=
  ⟨"FlatObject", none, [
    key "field_name" (.option string) .absent,
    optional "integer_value" "integer-value" .int,
    optional "boolean_value" "boolean-value" .bool,
    optional "string_value" "string-value" .string,
    optional "long_value" "long-value" .long,
    optional "float_value" "float-value" .float,
    optional "size_value" "size-value" .string,
    optional "duration_value" "duration-value" .duration]⟩

def listScalar : Record :=
  ⟨"ListScalar", none, [field "names" "names" (.list string) (.list [])]⟩

/-- A collection of records. -/
def listObject : Record :=
  ⟨"ListObject", none, [
    collection "flat_objects" "flat-objects" (.list (.object flatObjectId)) (.list [])]⟩

def mapScalar : Record :=
  ⟨"MapScalar", none, [field "name_counts" "name-counts" (.map .insertion int) (.map [])]⟩

/-- A collection of records under names, which become their keys. -/
def mapObject : Record :=
  ⟨"MapObject", none, [
    collection "flat_object_map" "flat-object-map" (.map .insertion (.object flatObjectId))
      (.map [])]⟩

/-- Contains itself in a box, in a list and in a map. -/
def recursiveObject : Record :=
  ⟨"RecursiveObject", none, [
    field "value" "value" string emptyText,
    field "child" "child" (.option (.box (.object recursiveObjectId))) .absent,
    field "children" "children" (.list (.object recursiveObjectId)) (.list []),
    field "map" "map" (.map .insertion (.object recursiveObjectId)) (.map [])]⟩

/-- Open to extensions of one type. -/
def runtimeObject : Record :=
  ⟨"RuntimeObject", none, [extension "children" (.object runtimePropertyId) []]⟩

/-- Extends others under the name `property`. -/
def runtimeProperty : Record :=
  ⟨"RuntimeProperty", some "property", [field "value" "value" string emptyText]⟩

def listener : Record :=
  ⟨"Listener", none, [
    field "address" "address" string (.scalar (.string "0.0.0.0")),
    optional "max_body" "max-body" .string]⟩

/-- Has a default of its own for most members, and every kind of map. -/
def server : Record :=
  ⟨"Server", none, [
    field "host" "host" string (.scalar (.string "localhost")),
    field "port" "port" int (.scalar (.integer 8080)),
    field "tls_enabled" "tls" bool (.scalar (.boolean true)),
    field "idle_timeout" "idle-timeout" (.option (.scalar .duration))
      (.present (.scalar (.duration (Period.zero.set .minutes 5)))),
    collection "listeners" "listeners" (.list (.object listenerId))
      (.list [.object listenerId []]),
    skipped "resolved" bool (.scalar (.boolean false)),
    field "r#type" "type" string (.scalar (.string "plain")),
    field "weights" "weights" (.map .hashed (.scalar .double)) (.map []),
    field "limits" "limits" (.map .sorted (.scalar .long)) (.map [("z", .scalar (.long 1))])]⟩

/-- Takes its key and two kinds of extensions, one of which leads back to it. -/
def pool : Record :=
  ⟨"Pool", none, [
    key "name" string (.scalar (.string "unnamed")),
    field "size" "size" int (.scalar (.integer 1)),
    extension "members" (.object memberId) [.object memberId []],
    extension "backups" (.object backupId) []]⟩

/-- Extends others under the name `member`, and takes that name as its key. -/
def member : Record :=
  ⟨"Member", some "member", [
    field "host" "host" string (.scalar (.string "none")),
    key "seen" (.option string) .absent]⟩

/-- Extends others under the name `backup`, and may hold a whole pool. -/
def backup : Record :=
  ⟨"Backup", some "backup", [
    field "host" "host" string emptyText,
    field "pool" "pool" (.option (.box (.object poolId))) .absent]⟩

/-- A record that declares nothing. -/
def blank : Record := ⟨"Opaque", none, []⟩

/-- Declares nothing either, although it has a member. -/
def skippedOnly : Record :=
  ⟨"SkippedOnly", none, [skipped "hidden" int (.scalar (.integer 7))]⟩

def badCollection : Record :=
  ⟨"BadCollection", none, [collection "port" "port" int (.scalar (.integer 0))]⟩

def twoKeys : Record :=
  ⟨"TwoKeys", none, [
    key "name" string emptyText,
    key "alias" string emptyText,
    field "size" "size" int (.scalar (.integer 0))]⟩

def scalarExtension : Record :=
  ⟨"ScalarExtension", none, [
    field "size" "size" int (.scalar (.integer 0)),
    extension "extras" int []]⟩

def unnamedExtension : Record :=
  ⟨"UnnamedExtension", none, [
    field "size" "size" int (.scalar (.integer 0)),
    extension "extras" (.object listenerId) []]⟩

/-- Extends others under the name of a field that they have. -/
def sizeClaim : Record :=
  ⟨"SizeClaim", some "size", [field "host" "host" string emptyText]⟩

def claimsFieldName : Record :=
  ⟨"ClaimsFieldName", none, [
    field "size" "size" int (.scalar (.integer 0)),
    extension "claims" (.object sizeClaimId) []]⟩

/-- Extends others under a name that is taken. -/
def otherMember : Record :=
  ⟨"OtherMember", some "member", [field "port" "port" int (.scalar (.integer 0))]⟩

def claimsNameTwice : Record :=
  ⟨"ClaimsNameTwice", none, [
    extension "first" (.object memberId) [],
    extension "second" (.object otherMemberId) []]⟩

def records : List Record :=
  [flatObject, listScalar, listObject, mapScalar, mapObject, recursiveObject, runtimeObject,
    runtimeProperty, listener, server, pool, member, backup, blank, skippedOnly, badCollection,
    twoKeys, scalarExtension, unnamedExtension, sizeClaim, claimsFieldName, otherMember,
    claimsNameTwice]

def find? (name : String) : Option Nat :=
  records.findIdx? fun record => record.name == name

def record? (id : Nat) : Option Record := records[id]?

/-- The table that declares the records of the catalogue, and further object types behind them. -/
def table (more : List ObjectType) : Declarations :=
  ⟨records.map Record.objectType ++ more⟩

example :
    [flatObjectId, recursiveObjectId, runtimePropertyId, listenerId, poolId, memberId, backupId,
      sizeClaimId, otherMemberId].map (fun id => (record? id).map Record.name)
    = ["FlatObject", "RecursiveObject", "RuntimeProperty", "Listener", "Pool", "Member", "Backup",
      "SizeClaim", "OtherMember"].map some := rfl

end TypedConfig.Catalogue
