import TypedConfig.Proofs.Record.Declared

/-!
The layout of annotations makes no difference.  Settings may be spread over other groups and put
into another order, as long as those that override one another keep theirs: a record is read as
before, or refused as before.
-/

namespace TypedConfig

/-- Two layouts of the same settings under `config`: the groups differ, and so may the order, but
not that of the settings with a certain name. -/
structure Relaid (ordered : String) (annotations others : List Annotation) : Prop where
  perm : (configSettings annotations).Perm (configSettings others)
  order : (configSettings annotations).filter (fun setting => setting.name == ordered)
    = (configSettings others).filter (fun setting => setting.name == ordered)

/-- The text of the last setting, or an earlier text if there is none. -/
def lastText (earlier : Option String) (settings : List Setting) : Option String :=
  settings.foldl (fun _ setting => setting.value) earlier

namespace MemberSettings

/-- The settings that a member takes: a name with a text, and the others without one. -/
def takes (setting : Setting) : Bool :=
  if setting.name = "name" then setting.value.isSome
  else setting.name ∈ ["skip", "collection", "key", "extension"] && setting.value.isNone

/-- What a member's settings say with one more, which is one that it takes. -/
def next (settings : MemberSettings) (setting : Setting) : MemberSettings :=
  ⟨if setting.name == "name" then setting.value else settings.name,
    settings.skip || setting.name == "skip", settings.collection || setting.name == "collection",
    settings.key || setting.name == "key", settings.extension || setting.name == "extension"⟩

/-- What a member's settings say with more of them, in whatever order they come. -/
def gather (settings : MemberSettings) (more : List Setting) : MemberSettings :=
  ⟨lastText settings.name (more.filter fun setting => setting.name == "name"),
    settings.skip || more.any fun setting => setting.name == "skip",
    settings.collection || more.any fun setting => setting.name == "collection",
    settings.key || more.any fun setting => setting.name == "key",
    settings.extension || more.any fun setting => setting.name == "extension"⟩

theorem add_eq_ok_iff {settings result : MemberSettings} {setting : Setting} :
    settings.add setting = .ok result ↔ takes setting = true ∧ result = settings.next setting := by
  obtain ⟨name, value⟩ := setting
  unfold add takes next
  cases value <;> simp [flag] <;> split_ifs <;> simp_all [eq_comm]

@[simp]
theorem gather_nil (settings : MemberSettings) : settings.gather [] = settings := by
  simp [gather, lastText]

theorem gather_cons (settings : MemberSettings) (setting : Setting) (more : List Setting) :
    settings.gather (setting :: more) = (settings.next setting).gather more := by
  by_cases hname : setting.name = "name" <;>
    simp [gather, next, lastText, hname, Bool.or_assoc]

/-- Settings are taken if each of them is, and then only what they say together counts. -/
theorem addAll_eq_ok_iff {settings result : MemberSettings} {more : List Setting} :
    settings.addAll more = .ok result ↔
      (∀ setting ∈ more, takes setting = true) ∧ result = settings.gather more := by
  induction more generalizing settings with
  | nil => simpa [addAll] using eq_comm
  | cons setting rest ih =>
      simp only [addAll, bind_eq_ok_iff, add_eq_ok_iff, ih, gather_cons, List.forall_mem_cons]
      grind

theorem gather_relaid {annotations others : List Annotation}
    (h : Relaid "name" annotations others) (settings : MemberSettings) :
    settings.gather (configSettings others) = settings.gather (configSettings annotations) := by
  simp only [gather, h.order, h.perm.any_eq]

end MemberSettings

/-- A record takes settings that name it with a text, and only those; the last one counts. -/
theorem extensionSetting_eq_ok_iff {name result : Option String} {settings : List Setting} :
    extensionSetting name settings = .ok result ↔
      (∀ setting ∈ settings, setting.name = "extension_name" ∧ setting.value.isSome = true) ∧
        result = lastText name settings := by
  induction settings generalizing name with
  | nil => simpa [extensionSetting, lastText] using eq_comm
  | cons setting rest ih =>
      obtain ⟨key, value⟩ := setting
      rw [extensionSetting]
      by_cases hkey : key = "extension_name"
      · cases value <;> simp [hkey, ih, lastText]
      · simp [hkey]

/-- Where a record takes all its settings, those that keep their order are all of them. -/
theorem Relaid.eq_of_forall {ordered : String} {annotations others : List Annotation}
    (h : Relaid ordered annotations others)
    (hall : ∀ setting ∈ configSettings annotations, setting.name = ordered) :
    configSettings others = configSettings annotations := by
  have hothers : ∀ setting ∈ configSettings others, setting.name = ordered :=
    fun setting hsetting => hall setting (h.perm.mem_iff.mpr hsetting)
  have horder := h.order
  rw [List.filter_eq_self.mpr, List.filter_eq_self.mpr] at horder
  · exact horder.symm
  · simpa using hothers
  · simpa using hall

theorem Relaid.symm {ordered : String} {annotations others : List Annotation}
    (h : Relaid ordered annotations others) : Relaid ordered others annotations :=
  ⟨h.perm.symm, h.order.symm⟩

/-- In another layout the same settings name a record as before. -/
theorem Relaid.extensionSetting {annotations others : List Annotation}
    (h : Relaid "extension_name" annotations others) {result : Option String}
    (hresult : extensionSetting none (configSettings annotations) = .ok result) :
    TypedConfig.extensionSetting none (configSettings others) = .ok result := by
  obtain ⟨htaken, -⟩ := extensionSetting_eq_ok_iff.mp hresult
  rw [h.eq_of_forall fun setting hsetting => (htaken setting hsetting).1]
  exact hresult

namespace WrittenMember

/-- A written member with its annotations laid out anew. -/
structure Relaid (member other : WrittenMember) : Prop where
  identifier : other.identifier = member.identifier
  type : other.type = member.type
  annotations : TypedConfig.Relaid "name" member.annotations other.annotations

theorem Relaid.symm {member other : WrittenMember} (h : member.Relaid other) :
    other.Relaid member :=
  ⟨h.identifier.symm, h.type.symm, h.annotations.symm⟩

/-- In another layout the same settings give a member the same role. -/
theorem Relaid.role_iff {member other : WrittenMember} (h : member.Relaid other)
    (result : Role String) : member.role = .ok result ↔ other.role = .ok result := by
  simp only [role, bind_eq_ok_iff, MemberSettings.addAll_eq_ok_iff, h.identifier, h.type,
    MemberSettings.gather_relaid h.annotations, h.annotations.perm.mem_iff]

end WrittenMember

namespace WrittenRecord

/-- A written record with the annotations laid out anew, its own and those of its members. -/
structure Relaid (record other : WrittenRecord) : Prop where
  form : other.form = record.form
  annotations : TypedConfig.Relaid "extension_name" record.annotations other.annotations
  members : List.Forall₂ WrittenMember.Relaid record.members other.members

theorem Relaid.symm {record other : WrittenRecord} (h : record.Relaid other) :
    other.Relaid record :=
  ⟨h.form.symm, h.annotations.symm, h.members.flip.imp fun _ _ hmember => hmember.symm⟩

/-- A record is read if it is one and its name and all its members are read. -/
theorem roles_eq_ok_iff {record : WrittenRecord} {name : Option String}
    {found : List (Role String)} :
    record.roles = .ok (name, found) ↔ checkForm record.form = .ok () ∧
      extensionSetting none (configSettings record.annotations) = .ok name ∧
        List.Forall₂ (fun member role => member.role = .ok role) record.members found := by
  simp only [roles, bind_eq_ok_iff, pure_eq_ok_iff, memberRoles_eq_mapM, mapM_eq_ok_iff,
    Prod.mk.injEq]
  constructor
  · rintro ⟨_, hform, _, hname, _, hmembers, rfl, rfl⟩
    exact ⟨hform, hname, hmembers⟩
  · rintro ⟨hform, hname, hmembers⟩
    exact ⟨(), hform, name, hname, found, hmembers, rfl, rfl⟩

/-- Members laid out anew have the same roles. -/
theorem forall₂_role_relaid {members others : List WrittenMember}
    (h : List.Forall₂ WrittenMember.Relaid members others) {found : List (Role String)}
    (hfound : List.Forall₂ (fun member role => member.role = .ok role) members found) :
    List.Forall₂ (fun member role => member.role = .ok role) others found := by
  induction h generalizing found with
  | nil => exact hfound
  | cons hmember _ ih =>
      obtain ⟨role, more, hrole, hmore, rfl⟩ := List.forall₂_cons_left_iff.mp hfound
      exact .cons ((hmember.role_iff role).mp hrole) (ih hmore)

theorem Relaid.roles_eq_ok {record other : WrittenRecord} (h : record.Relaid other)
    {name : Option String} {found : List (Role String)}
    (hroles : record.roles = .ok (name, found)) : other.roles = .ok (name, found) := by
  obtain ⟨hform, hname, hmembers⟩ := roles_eq_ok_iff.mp hroles
  rw [roles_eq_ok_iff, h.form]
  exact ⟨hform, h.annotations.extensionSetting hname, forall₂_role_relaid h.members hmembers⟩

end WrittenRecord

/-- The settings of a record and of its members may be spread over other groups and put into another
order, as long as repeated names keep theirs: the record is accepted in both layouts or in neither,
and with the same extension name and the same roles, one for each member in their order. -/
theorem WrittenRecord.roles_layout {record other : WrittenRecord} (h : record.Relaid other) :
    ((∃ result, record.roles = .ok result) ↔ ∃ result, other.roles = .ok result) ∧
    ∀ name found, record.roles = .ok (name, found) →
      other.roles = .ok (name, found) ∧
        List.Forall₂ (fun member role => member.role = .ok role) record.members found := by
  refine ⟨⟨?_, ?_⟩, ?_⟩
  · rintro ⟨⟨name, found⟩, hroles⟩
    exact ⟨_, h.roles_eq_ok hroles⟩
  · rintro ⟨⟨name, found⟩, hroles⟩
    exact ⟨_, h.symm.roles_eq_ok hroles⟩
  · intro name found hroles
    exact ⟨h.roles_eq_ok hroles, (roles_eq_ok_iff.mp hroles).2.2⟩

/-- A written record with repeated names, and with a member that would have two roles if it were not
left out. -/
def depot : WrittenRecord :=
  ⟨.plain, [⟨"config", [⟨"extension_name", some "store"⟩, ⟨"extension_name", some "depot"⟩]⟩], [
    ⟨"shelves", "Vec<Shelf>",
      [⟨"config", [⟨"name", some "racks"⟩, ⟨"collection", none⟩, ⟨"name", some "rows"⟩]⟩]⟩,
    ⟨"stock", "u8", [⟨"config", [⟨"key", none⟩, ⟨"skip", none⟩, ⟨"extension", none⟩]⟩]⟩]⟩

/-- The same record in another layout. -/
def depotRelaid : WrittenRecord :=
  ⟨.plain, [⟨"config", [⟨"extension_name", some "store"⟩]⟩,
      ⟨"config", [⟨"extension_name", some "depot"⟩]⟩], [
    ⟨"shelves", "Vec<Shelf>", [⟨"config", [⟨"collection", none⟩, ⟨"name", some "racks"⟩]⟩,
      ⟨"config", []⟩, ⟨"serde", [⟨"name", some "other"⟩]⟩, ⟨"config", [⟨"name", some "rows"⟩]⟩]⟩,
    ⟨"stock", "u8", [⟨"config", [⟨"extension", none⟩, ⟨"key", none⟩]⟩,
      ⟨"config", [⟨"skip", none⟩]⟩]⟩]⟩

theorem depot_relaid : depot.Relaid depotRelaid :=
  ⟨rfl, ⟨by decide, by decide⟩,
    .cons ⟨rfl, rfl, by decide, by decide⟩ (.cons ⟨rfl, rfl, by decide, by decide⟩ .nil)⟩

theorem depot_layout : depot.Relaid depotRelaid ∧
    depot.roles = .ok (some "depot", [.field "rows" true, .skip]) ∧
    depotRelaid.roles = .ok (some "depot", [.field "rows" true, .skip]) := by
  have hroles : depot.roles = .ok (some "depot", [.field "rows" true, .skip]) := by decide +kernel
  exact ⟨depot_relaid, hroles, ((WrittenRecord.roles_layout depot_relaid).2 _ _ hroles).1⟩

end TypedConfig
