import TypedConfig.Proofs.Record.Members

/-!
Records as they are declared.  Reading a written record gives its members their roles, and wherever
a dictionary is bound to such a record in a document, the members hold in the end what their roles
say.
-/

namespace TypedConfig

/-- A role with its element type read. -/
def Role.map {α β : Type} (f : α → β) : Role α → Role β
  | .skip => .skip
  | .key => .key
  | .field name collection => .field name collection
  | .extension element => .extension (f element)

/-- A member is an extension only if its type has an element type, which is that of the extension.
-/
theorem MemberSettings.element_of_role {Element : Type} {fallback : String}
    {element : Option Element} {settings : MemberSettings} {found : Element}
    (h : settings.role fallback element = .ok (.extension found)) : element = some found := by
  unfold role at h
  cases element with
  | none => split_ifs at h <;> cases h
  | some other => split_ifs at h <;> cases h; rfl

namespace WrittenMember

/-- A written member with a role, with the type that its text stands for, and with a default. -/
def withRole (typeOf : String → Ty) (initial : WrittenMember → Bound) (written : WrittenMember)
    (role : Role String) : Member :=
  ⟨written.identifier, typeOf written.type, role.map typeOf, initial written⟩

/-- A member is declared as it is written, with the role that its annotations give it. -/
def Declares (typeOf : String → Ty) (initial : WrittenMember → Bound) (written : WrittenMember)
    (member : Member) : Prop :=
  ∃ role, written.role = .ok role ∧ member = written.withRole typeOf initial role

/-- Only a member that is written as a `Vec` is an extension. -/
theorem vecElement_of_role {written : WrittenMember} {element : String}
    (h : written.role = .ok (.extension element)) :
    TypeText.vecElement? written.type = some element := by
  obtain ⟨settings, -, hsettings⟩ := bind_eq_ok_iff.mp h
  exact MemberSettings.element_of_role hsettings

end WrittenMember

namespace WrittenRecord

/-- The record that a written one declares under a name: `typeOf` says what the texts of its types
stand for, and `initial` what its members are by default. -/
def declared (written : WrittenRecord) (name : String) (typeOf : String → Ty)
    (initial : WrittenMember → Bound) : Except RecordFault Record := do
  let (extensionName, roles) ← written.roles
  pure ⟨name, extensionName,
    List.zipWith (WrittenMember.withRole typeOf initial) written.members roles⟩

/-- The types of a written record are read as they should be: what is written as a `Vec` stands for
a list, and the default of a list is a list. -/
structure Typed (written : WrittenRecord) (typeOf : String → Ty) (initial : WrittenMember → Bound) :
    Prop where
  vec : ∀ member ∈ written.members, ∀ element,
    TypeText.vecElement? member.type = some element → typeOf member.type = .list (typeOf element)
  list : ∀ member ∈ written.members, ∀ element,
    typeOf member.type = .list element → ∃ items, initial member = .list items

variable {written : WrittenRecord} {name : String} {typeOf : String → Ty}
  {initial : WrittenMember → Bound} {record : Record}

theorem memberRoles_eq_mapM (members : List WrittenMember) :
    memberRoles members = members.mapM WrittenMember.role := by
  induction members with
  | nil => rfl
  | cons member rest ih => rw [memberRoles, List.mapM_cons, ih]

theorem forall₂_declares {members : List WrittenMember} {roles : List (Role String)}
    (h : List.Forall₂ (fun member role => member.role = .ok role) members roles) :
    List.Forall₂ (WrittenMember.Declares typeOf initial) members
      (List.zipWith (WrittenMember.withRole typeOf initial) members roles) := by
  induction h with
  | nil => exact .nil
  | cons hrole _ ih => exact .cons ⟨_, hrole, rfl⟩ ih

/-- The members of a record are those that are written, in their order. -/
theorem declares_of_declared (h : written.declared name typeOf initial = .ok record) :
    List.Forall₂ (WrittenMember.Declares typeOf initial) written.members record.members := by
  obtain ⟨⟨extensionName, roles⟩, hroles, hrecord⟩ := bind_eq_ok_iff.mp h
  obtain ⟨-, -, hrest⟩ := bind_eq_ok_iff.mp hroles
  obtain ⟨_, -, hrest⟩ := bind_eq_ok_iff.mp hrest
  obtain ⟨found, hfound, hpair⟩ := bind_eq_ok_iff.mp hrest
  rw [memberRoles_eq_mapM, mapM_eq_ok_iff] at hfound
  cases pure_eq_ok_iff.mp hpair
  cases pure_eq_ok_iff.mp hrecord
  exact forall₂_declares hfound

/-- An extension begins with a list. -/
theorem Typed.initial_of_extension (htyped : written.Typed typeOf initial)
    (h : written.declared name typeOf initial = .ok record) {member : Member}
    (hmember : member ∈ record.members) {element : Ty} (hrole : member.role = .extension element) :
    ∃ items, member.initial = .list items := by
  obtain ⟨origin, horigin, role, hread, rfl⟩ :=
    exists_left_of_forall₂ (declares_of_declared h) hmember
  cases role with
  | extension text =>
      have htype := htyped.vec origin horigin text (WrittenMember.vecElement_of_role hread)
      exact htyped.list origin horigin _ htype
  | skip => cases hrole
  | key => cases hrole
  | field own collection => cases hrole

end WrittenRecord

/-- What the members of a declared record hold, wherever a dictionary is bound to it.  In the value
of a document, the instance that a dictionary became is made by calls of its fields; after them each
member holds what its role says, and each field was meant for one member and no other. -/
theorem Document.bind_members {table : Declarations} {root : Ty} {schema : Schema}
    (hderive : Schema.derive table root = .ok schema) {document : Document} {whole : Bound}
    (hbind : document.bind schema root = .ok whole) {written : WrittenRecord} {name : String}
    {typeOf : String → Ty} {initial : WrittenMember → Bound} {record : Record}
    (hdeclared : written.declared name typeOf initial = .ok record)
    (htyped : written.Typed typeOf initial) {type : Ty} {key : Option String}
    {fields : List (Field Node)} {span : Span} {made : Bound}
    (hplace : table.Becomes root document.root whole type key (.dictionary fields span) made)
    {id : Nat} (hcore : type.core = .object id) (hobject : table.object id = record.objectType) :
    ∃ calls, made = type.wrap (.object id calls) ∧
      List.Forall₂
        (fun member shown => shown.1 = member.identifier ∧ member.Shows table key fields shown.2)
        record.members (record.values table calls) ∧
      ∀ field ∈ fields, ∃ member,
        record.members.filter (fun member => member.calledAs table == some field.name.name)
          = [member] := by
  rw [Document.bind_eq_bindDirect hderive] at hbind
  obtain ⟨hnode, hreaches⟩ := hplace.conversion hbind
  have hsound := Schema.sound_of_derive hderive (hreaches id (Derivation.mentions_of_core hcore))
  obtain ⟨-, calls, hcalls, rfl⟩ := (Direct.node_object_eq_ok_iff hcore).mp hnode
  rw [hobject] at hcalls hsound ⊢
  obtain ⟨rfl, htakes⟩ := Direct.calls_eq_map hcalls
  refine ⟨_, rfl, ?_, fun field hfield => ?_⟩
  · rw [Record.values, List.forall₂_map_right_iff, List.forall₂_same]
    exact fun member hmember => ⟨rfl, Record.Takes.shows htakes hsound hmember fun element hrole =>
      htyped.initial_of_extension hdeclared hmember hrole⟩
  · obtain ⟨acceptance, -, haccepts, -⟩ := Direct.call_eq_ok_iff.mp (htakes field hfield)
    exact Record.exists_called hsound haccepts

/-- A written record with a member for every role, which takes others of its kind as parts. -/
def assembly : WrittenRecord :=
  ⟨.plain, [⟨"config", [⟨"extension_name", some "part"⟩]⟩], [
    ⟨"id", "String", [⟨"config", [⟨"key", none⟩]⟩]⟩,
    ⟨"unit_price", "i32", []⟩,
    ⟨"sizes", "Vec<i32>", [⟨"config", [⟨"name", some "lengths"⟩, ⟨"collection", none⟩]⟩]⟩,
    ⟨"seen", "bool", [⟨"config", [⟨"skip", none⟩]⟩]⟩,
    ⟨"parts", "Vec<Assembly>", [⟨"config", [⟨"extension", none⟩]⟩]⟩]⟩

/-- What the texts of the types of `assembly` stand for. -/
def assemblyType : String → Ty
  | "i32" => .scalar .int
  | "Vec<i32>" => .list (.scalar .int)
  | "bool" => .scalar .bool
  | "Assembly" => .object 0
  | "Vec<Assembly>" => .list (.object 0)
  | _ => .scalar .string

/-- The defaults of the members of `assembly`.  One part is there from the start. -/
def assemblyDefault (member : WrittenMember) : Bound :=
  match member.identifier with
  | "unit_price" => .scalar (.integer 1)
  | "sizes" => .list [.scalar (.integer 0)]
  | "seen" => .scalar (.boolean false)
  | "parts" => .list [.object 0 []]
  | _ => .scalar (.string "")

def assemblyRecord : Record :=
  ⟨"Assembly", some "part", [
    ⟨"id", .scalar .string, .key, .scalar (.string "")⟩,
    ⟨"unit_price", .scalar .int, .field "unit-price" false, .scalar (.integer 1)⟩,
    ⟨"sizes", .list (.scalar .int), .field "lengths" true, .list [.scalar (.integer 0)]⟩,
    ⟨"seen", .scalar .bool, .skip, .scalar (.boolean false)⟩,
    ⟨"parts", .list (.object 0), .extension (.object 0), .list [.object 0 []]⟩]⟩

/-- The fields of a part: a price that is set twice, a part of its own, and no lengths. -/
def partFields : List (Field Node) :=
  let number (text : String) : Node := .literal ⟨.integer, text, ⟨0, 0, 1, 1⟩⟩
  let stand (name : String) (value : Node) : Field Node :=
    ⟨⟨name, ⟨0, 0, 1, 1⟩⟩, value, ⟨0, 0, 1, 1⟩⟩
  [stand "unit-price" (number "2"), stand "part" (.dictionary [] ⟨0, 0, 1, 1⟩),
    stand "unit-price" (number "3")]

def partDocument : Document :=
  let span : Span := ⟨0, 0, 1, 1⟩
  ⟨[⟨⟨"part", span⟩, .dictionary partFields span, span⟩], span⟩

theorem assembly_declared :
    assembly.declared "Assembly" assemblyType assemblyDefault = .ok assemblyRecord := by
  have hroles : assembly.roles = .ok (some "part",
      [.key, .field "unit-price" false, .field "lengths" true, .skip, .extension "Assembly"]) := by
    decide +kernel
  rw [WrittenRecord.declared, hroles]
  rfl

theorem assembly_typed : assembly.Typed assemblyType assemblyDefault := by
  have hlengths : TypeText.vecElement? "Vec<i32>" = some "i32" := by decide +kernel
  have hparts : TypeText.vecElement? "Vec<Assembly>" = some "Assembly" := by decide +kernel
  have hnone : ∀ text ∈ ["String", "i32", "bool"], TypeText.vecElement? text = none := by
    decide +kernel
  constructor
  · simp [assembly, hlengths, hparts, hnone, assemblyType]
  · simp [assembly, assemblyType, assemblyDefault]

theorem part_members : ∃ schema calls,
    Schema.derive ⟨[assemblyRecord.objectType]⟩ (.object 0) = .ok schema ∧
      partDocument.bind schema (.object 0) = .ok (.object 0 [.extension "part" (.object 0 calls)]) ∧
      assembly.declared "Assembly" assemblyType assemblyDefault = .ok assemblyRecord ∧
      assembly.Typed assemblyType assemblyDefault ∧
      List.Forall₂ (fun member shown => shown.1 = member.identifier ∧
          member.Shows ⟨[assemblyRecord.objectType]⟩ (some "part") partFields shown.2)
        assemblyRecord.members (assemblyRecord.values ⟨[assemblyRecord.objectType]⟩ calls) ∧
      assemblyRecord.values ⟨[assemblyRecord.objectType]⟩ calls
        = [("id", .scalar (.string "part")), ("unit_price", .scalar (.integer 3)),
          ("sizes", .list [.scalar (.integer 0)]), ("seen", .scalar (.boolean false)),
          ("parts", .list [.object 0 [], .object 0 [.key "part"]])] := by
  let table : Declarations := ⟨[assemblyRecord.objectType]⟩
  let made : List (Call Bound) := [.field "unit-price" (.scalar (.integer 2)),
    .extension "part" (.object 0 [.key "part"]), .field "unit-price" (.scalar (.integer 3))]
  obtain ⟨schema, hderive, hbind⟩ : ∃ schema, Schema.derive table (.object 0) = .ok schema ∧
      partDocument.bind schema (.object 0)
        = .ok (.object 0 [.extension "part" (.object 0 (.key "part" :: made))]) := ⟨_, rfl, rfl⟩
  have hplace : table.Becomes (.object 0) partDocument.root
      (.object 0 [.extension "part" (.object 0 (.key "part" :: made))]) (.object 0) (some "part")
      (.dictionary partFields ⟨0, 0, 1, 1⟩) (.object 0 (.key "part" :: made)) :=
    @Declarations.Becomes.field table (.object 0) partDocument.root _ (.object 0) none
      partDocument.fields partDocument.span 0 [.extension "part" (.object 0 (.key "part" :: made))]
      ⟨⟨"part", ⟨0, 0, 1, 1⟩⟩, .dictionary partFields ⟨0, 0, 1, 1⟩, ⟨0, 0, 1, 1⟩⟩
      (.extension (.object 0)) _ .root rfl rfl List.mem_cons_self
  obtain ⟨calls, hcalls, hshows, -⟩ := @Document.bind_members table (.object 0) schema hderive
    partDocument _ hbind assembly "Assembly" assemblyType assemblyDefault assemblyRecord
    assembly_declared assembly_typed (.object 0) (some "part") partFields ⟨0, 0, 1, 1⟩ _ hplace 0 rfl rfl
  cases hcalls
  exact ⟨schema, _, hderive, hbind, assembly_declared, assembly_typed, hshows, rfl⟩

end TypedConfig
