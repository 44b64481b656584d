import TypedConfig.Proofs.Instances

/-!
What the members of a record hold in the end.  A dictionary that is bound to a record gives each
field the last value under its name, appends every value under the name of an extension, and tells
the key the name under which the dictionary stands; what is left keeps its default.  Each field of
the dictionary is meant for exactly one member.
-/

namespace TypedConfig

/-!
How the calls on an instance reach the members of a record.  A call of a field or an extension
changes the members that are called by its name and no other one, so a member depends on the fields
of a dictionary that bear this name, in their order.
-/

/-- Elements that change nothing may be left out. -/
theorem foldl_filter_of_ignored {α β : Type} {step : β → α → β} {p : α → Bool} {xs : List α}
    (hignored : ∀ x ∈ xs, p x = false → ∀ state, step state x = state) (state : β) :
    (xs.filter p).foldl step state = xs.foldl step state := by
  induction xs generalizing state with
  | nil => rfl
  | cons x rest ih =>
      obtain ⟨hx, hrest⟩ := List.forall_mem_cons.mp hignored
      cases hp : p x with
      | true => rw [List.filter_cons_of_pos hp, List.foldl_cons, List.foldl_cons, ih hrest]
      | false =>
          rw [List.filter_cons_of_neg (by simp [hp]), List.foldl_cons, hx hp, ih hrest]

namespace Member

variable {table : Declarations} {member : Member}

/-- The name of the calls that reach a member: that of its field or of its extension. -/
def calledAs (table : Declarations) (member : Member) : Option String :=
  match member.role with
  | .field own _ => some own
  | .extension element => acceptedAs table element
  | _ => none

/-- A call of another name leaves a member as it is. -/
theorem receive_of_ne {name : String} (h : member.calledAs table ≠ some name)
    (acceptance : Acceptance) (value current : Bound) :
    member.receive table current (acceptance.call name value) = current := by
  unfold calledAs at h
  cases hrole : member.role with
  | skip => cases acceptance <;> simp [receive, hrole, Acceptance.call]
  | key => cases acceptance <;> simp [receive, hrole, Acceptance.call]
  | field own collection =>
      rw [hrole] at h
      cases acceptance <;> simp_all [receive, Acceptance.call]
  | extension element =>
      rw [hrole] at h
      cases acceptance <;> simp_all [receive, Acceptance.call]

/-- Every call that the fields of a dictionary make bears the name of its field. -/
def Named (fields : List (Field Node)) (made : Field Node → Call Bound) : Prop :=
  ∀ field ∈ fields, ∃ (acceptance : Acceptance) (value : Bound),
    made field = acceptance.call field.name.name value

/-- The calls of a dictionary that is bound bear the names of its fields. -/
theorem named_of_call {object : ObjectType} {fields : List (Field Node)}
    (h : ∀ field ∈ fields, Direct.call table object field = .ok (Direct.madeBy table object field)) :
    Named fields (Direct.madeBy table object) := by
  intro field hfield
  obtain ⟨acceptance, value, -, -, hmade⟩ := Direct.call_eq_ok_iff.mp (h field hfield)
  exact ⟨acceptance, value, hmade⟩

/-- Only the fields under its own name reach a member. -/
theorem foldl_receive_filter {fields : List (Field Node)} {made : Field Node → Call Bound}
    (hnamed : Named fields made) (current : Bound) :
    (fields.map made).foldl (member.receive table) current
      = ((fields.filter fun field => some field.name.name == member.calledAs table).map made).foldl
        (member.receive table) current := by
  rw [List.foldl_map, List.foldl_map, foldl_filter_of_ignored]
  intro field hfield hother state
  obtain ⟨acceptance, value, hmade⟩ := hnamed field hfield
  rw [hmade]
  exact receive_of_ne (Ne.symm (by simpa using hother)) acceptance value state

theorem after_append (first second : List (Call Bound)) :
    member.after table (first ++ second)
      = second.foldl (member.receive table) (member.after table first) :=
  List.foldl_append

end Member

/-!
What the members hold in the end.
-/

/-- Of elements whose names differ, one alone has its name. -/
theorem filter_eq_singleton {α : Type} {name : α → Option String} {xs : List α}
    (hnodup : (xs.filterMap name).Nodup) {x : α} (hx : x ∈ xs) {key : String}
    (hkey : name x = some key) : xs.filter (fun y => name y == some key) = [x] := by
  induction xs with
  | nil => cases hx
  | cons y rest ih =>
      by_cases hy : name y = some key
      · -- The name is given away, so nothing behind has it.
        rw [List.filterMap_cons_some hy] at hnodup
        have hfresh : ∀ z ∈ rest, name z ≠ some key := fun z hz hname =>
          (List.nodup_cons.mp hnodup).1 (List.mem_filterMap.mpr ⟨z, hz, hname⟩)
        have hrest : rest.filter (fun z => name z == some key) = [] := by
          simpa [List.filter_eq_nil_iff] using hfresh
        rcases List.mem_cons.mp hx with rfl | hmem
        · rw [List.filter_cons_of_pos (by simp [hkey]), hrest]
        · exact absurd hkey (hfresh x hmem)
      · have hmem : x ∈ rest := by
          rcases List.mem_cons.mp hx with rfl | hmem
          · exact absurd hkey hy
          · exact hmem
        rw [List.filter_cons_of_neg (by simpa using hy)]
        refine ih (hnodup.sublist ?_) hmem
        exact (List.sublist_cons_self y rest).filterMap name

namespace ObjectType.Sound

variable {table : Declarations} {object : ObjectType}

/-- A field is accepted under its name. -/
theorem accepts?_field (h : object.Sound table) {slot : FieldSlot} (hslot : slot ∈ object.fields) :
    object.accepts? table slot.name = some (.field slot.type) := by
  have hnames := (List.nodup_append.mp h.names).1
  have hfound : object.fields.find? (fun other => other.name == slot.name) = some slot := by
    rw [← List.head?_filter]
    have hone := @filter_eq_singleton FieldSlot (fun other => some other.name) object.fields
      (by simpa using hnames) slot hslot slot.name rfl
    simpa using congrArg List.head? hone
  rw [accepts?, hfound]

/-- An extension is accepted under its extension name. -/
theorem accepts?_extension (h : object.Sound table) {type : Ty} (htype : type ∈ object.extensions)
    {name : String} (hname : extensionNameOf? table type = some name) :
    object.accepts? table name = some (.extension type) := by
  obtain ⟨-, hnames, hdisjoint⟩ := List.nodup_append.mp h.names
  have hfields : object.fields.find? (fun slot => slot.name == name) = none := by
    rw [List.find?_eq_none]
    intro slot hslot heq
    exact hdisjoint _ (List.mem_map_of_mem hslot) _ (List.mem_filterMap.mpr ⟨type, htype, hname⟩)
      (by simpa using heq)
  have hfound : object.extensions.find? (fun other => extensionNameOf? table other == some name)
      = some type := by
    rw [← List.head?_filter, filter_eq_singleton hnames htype hname, List.head?_cons]
  rw [accepts?, hfields, hfound]
  rfl

end ObjectType.Sound

/-- What is accepted is accepted under one of the names. -/
theorem ObjectType.mem_acceptedNames {table : Declarations} {object : ObjectType} {name : String}
    {acceptance : Acceptance} (h : object.accepts? table name = some acceptance) :
    name ∈ object.acceptedNames table := by
  by_contra hunlisted
  cases h.symm.trans (accepts?_eq_none_iff.mpr hunlisted)

/-- What a member holds after a dictionary with some fields was bound to its record: what is shown
for its role.  `key` is the name of the field or entry that the dictionary is the value of. -/
inductive Member.Shows (table : Declarations) (key : Option String) (fields : List (Field Node))
    (member : Member) : Bound → Prop
  | skipped : member.role = .skip → Shows table key fields member member.initial
  | named {name : String} : member.role = .key → key = some name →
      Shows table key fields member (member.type.wrap (.scalar (.string name)))
  | nameless : member.role = .key → key = none → Shows table key fields member member.initial
  | given {own : String} {collection : Bool} {last : Field Node} {value : Bound} :
      member.role = .field own collection →
        (fields.filter fun field => field.name.name == own).getLast? = some last →
          Direct.node table member.type (some own) last.value = .ok value →
            Shows table key fields member value
  | missing {own : String} {collection : Bool} : member.role = .field own collection →
      (∀ field ∈ fields, field.name.name ≠ own) → Shows table key fields member member.initial
  | extended {element : Ty} {name : String} {initial added : List Bound} :
      member.role = .extension element → acceptedAs table element = some name →
        member.initial = .list initial →
          List.Forall₂
              (fun field item => Direct.node table element (some name) field.value = .ok item)
              (fields.filter fun field => field.name.name == name) added →
            Shows table key fields member (.list (initial ++ added))

/-- A name is put into the wrappers of a type. -/
theorem Bound.ofName_eq_wrap (name : String) (type : Ty) :
    ofName name type = type.wrap (.scalar (.string name)) := by
  induction type with
  | option inner ih => rw [ofName, ih, Ty.wrap]
  | box inner ih => rw [ofName, ih, Ty.wrap]
  | _ => rfl

namespace Record

variable {table : Declarations} {record : Record} {member : Member}

/-- The names that members are called by are the names that their record accepts. -/
theorem calledAs_perm (members : List Member) :
    (members.filterMap (Member.calledAs table)).Perm
      ((members.filterMap fieldSlot?).map FieldSlot.name
        ++ (members.filterMap extensionSlot?).filterMap (ObjectType.extensionNameOf? table)) := by
  induction members with
  | nil => exact .nil
  | cons member rest ih =>
      cases hrole : member.role with
      | skip => simpa [Member.calledAs, fieldSlot?, extensionSlot?, hrole] using ih
      | key => simpa [Member.calledAs, fieldSlot?, extensionSlot?, hrole] using ih
      | field own collection =>
          simpa [Member.calledAs, fieldSlot?, extensionSlot?, hrole] using ih
      | extension element =>
          have hname : Member.acceptedAs table element = ObjectType.extensionNameOf? table element :=
            rfl
          cases hfound : ObjectType.extensionNameOf? table element with
          | none =>
              simpa [Member.calledAs, fieldSlot?, extensionSlot?, hrole, hname, hfound] using ih
          | some name =>
              -- The fields come first among the names, so this one has to be moved past them.
              have hmiddle := (ih.cons name).trans List.perm_middle.symm
              simpa [Member.calledAs, fieldSlot?, extensionSlot?, hrole, hname, hfound] using hmiddle

/-- A name that a record accepts is that of one member and no other. -/
theorem exists_called (hsound : record.objectType.Sound table) {name : String}
    {acceptance : Acceptance} (haccepts : record.objectType.accepts? table name = some acceptance) :
    ∃ member, record.members.filter (fun member => member.calledAs table == some name)
      = [member] := by
  have hperm := @calledAs_perm table record.members
  have hmem := hperm.mem_iff.mpr (ObjectType.mem_acceptedNames haccepts)
  obtain ⟨member, hmember, hcalled⟩ := List.mem_filterMap.mp hmem
  exact ⟨member, filter_eq_singleton (hperm.nodup_iff.mpr hsound.names) hmember hcalled⟩

/-- All fields of a dictionary make their calls on a record. -/
def Takes (table : Declarations) (record : Record) (fields : List (Field Node)) : Prop :=
  ∀ field ∈ fields, Direct.call table record.objectType field
    = .ok (Direct.madeBy table record.objectType field)

/-- The calls that a dictionary makes on a record. -/
def callsOf (table : Declarations) (record : Record) (key : Option String)
    (fields : List (Field Node)) : List (Call Bound) :=
  Direct.keyCalls record.objectType key ++ fields.map (Direct.madeBy table record.objectType)

variable {key : Option String} {fields : List (Field Node)}

/-- The fields under a name that is accepted call by this name, with what they convert to. -/
theorem Takes.made (h : record.Takes table fields) {name : String} {acceptance : Acceptance}
    (haccepts : record.objectType.accepts? table name = some acceptance) :
    ∀ field ∈ fields.filter (fun field => field.name.name == name), ∃ value,
      Direct.node table acceptance.type (some name) field.value = .ok value ∧
        Direct.madeBy table record.objectType field = acceptance.call name value := by
  intro field hfield
  obtain ⟨hmem, hname⟩ := List.mem_filter.mp hfield
  obtain ⟨other, value, hother, hnode, hmade⟩ := Direct.call_eq_ok_iff.mp (h field hmem)
  rw [beq_iff_eq.mp hname] at hother hnode hmade
  cases haccepts.symm.trans hother
  exact ⟨value, hnode, hmade⟩

/-- The key call is meant for the key alone. -/
theorem after_keyCalls_of_ne_key (hrole : member.role ≠ .key) :
    member.after table (Direct.keyCalls record.objectType key) = member.initial := by
  unfold Direct.keyCalls
  split
  · split
    · cases h : member.role <;> simp_all [Member.after, Member.receive]
    · rfl
  · rfl

/-- Once the key is told, the fields under the name of a member are what reaches it. -/
theorem Takes.after_callsOf (h : record.Takes table fields) (member : Member) :
    member.after table (record.callsOf table key fields)
      = ((fields.filter fun field => some field.name.name == member.calledAs table).map
          (Direct.madeBy table record.objectType)).foldl (member.receive table)
            (member.after table (Direct.keyCalls record.objectType key)) := by
  rw [callsOf, Member.after_append, Member.foldl_receive_filter (Member.named_of_call h)]

theorem Takes.shows_skip (h : record.Takes table fields) (hrole : member.role = .skip) :
    member.Shows table key fields (member.after table (record.callsOf table key fields)) := by
  have hnone : member.calledAs table = none := by simp [Member.calledAs, hrole]
  have hafter : member.after table (record.callsOf table key fields) = member.initial := by
    rw [h.after_callsOf, hnone, after_keyCalls_of_ne_key (by simp [hrole])]
    simp
  rw [hafter]
  exact .skipped hrole

theorem Takes.shows_key (h : record.Takes table fields) (hsound : record.objectType.Sound table)
    (hmember : member ∈ record.members) (hrole : member.role = .key) :
    member.Shows table key fields (member.after table (record.callsOf table key fields)) := by
  have hnone : member.calledAs table = none := by simp [Member.calledAs, hrole]
  -- The rules leave room for one key, and this member is one.
  have hkeys : record.objectType.keys = 1 := by
    refine Nat.le_antisymm hsound.keys ?_
    exact List.countP_pos_iff.mpr ⟨member, hmember, by simp [isKey, hrole]⟩
  have hafter : member.after table (record.callsOf table key fields)
      = member.after table (Direct.keyCalls record.objectType key) := by
    rw [h.after_callsOf, hnone]
    simp
  rw [hafter]
  cases key with
  | none => exact .nameless hrole rfl
  | some name =>
      have hname : member.after table (Direct.keyCalls record.objectType (some name))
          = member.type.wrap (.scalar (.string name)) := by
        simp [Direct.keyCalls, hkeys, Member.after, Member.receive, hrole, Bound.ofName_eq_wrap]
      rw [hname]
      exact .named hrole rfl

/-- Every call under the name of a field replaces it, so the last one stays. -/
theorem foldl_receive_field {own : String} {collection : Bool}
    (hrole : member.role = .field own collection) {made : Field Node → Call Bound}
    {last : Field Node} (hlast : fields.getLast? = some last) {value : Bound}
    (hmade : made last = .field own value) (current : Bound) :
    (fields.map made).foldl (member.receive table) current = value := by
  obtain ⟨before, rfl⟩ := List.getLast?_eq_some_iff.mp hlast
  rw [List.map_append, List.foldl_append, List.map_singleton, List.foldl_cons, List.foldl_nil, hmade]
  simp [Member.receive, hrole]

theorem Takes.shows_field (h : record.Takes table fields) (hsound : record.objectType.Sound table)
    (hmember : member ∈ record.members) {own : String} {collection : Bool}
    (hrole : member.role = .field own collection) :
    member.Shows table key fields (member.after table (record.callsOf table key fields)) := by
  have hcalled : member.calledAs table = some own := by simp [Member.calledAs, hrole]
  have hslot : (⟨own, member.type, collection⟩ : FieldSlot) ∈ record.objectType.fields :=
    List.mem_filterMap.mpr ⟨member, hmember, by simp [fieldSlot?, hrole]⟩
  have hmade := h.made (hsound.accepts?_field hslot)
  rw [h.after_callsOf, after_keyCalls_of_ne_key (by simp [hrole]), hcalled]
  simp only [Option.some_beq_some]
  cases hlast : (fields.filter fun field => field.name.name == own).getLast? with
  | none =>
      rw [List.getLast?_eq_none_iff] at hlast
      rw [hlast]
      exact .missing hrole (by simpa [List.filter_eq_nil_iff] using hlast)
  | some last =>
      obtain ⟨value, hnode, hcall⟩ := hmade last (List.mem_of_getLast? hlast)
      rw [foldl_receive_field hrole hlast hcall]
      exact .given hrole hlast hnode

/-- Every call under the name of an extension appends to it. -/
theorem foldl_receive_extension {element : Ty} {name : String}
    (hrole : member.role = .extension element) (hname : Member.acceptedAs table element = some name)
    {made : Field Node → Call Bound} {converts : Field Node → Bound → Prop}
    (hmade : ∀ field ∈ fields, ∃ value, converts field value ∧ made field = .extension name value)
    (initial : List Bound) : ∃ added,
      (fields.map made).foldl (member.receive table) (.list initial) = .list (initial ++ added) ∧
        List.Forall₂ converts fields added := by
  induction fields generalizing initial with
  | nil => exact ⟨[], by simp, .nil⟩
  | cons field rest ih =>
      obtain ⟨⟨value, hvalue, hcall⟩, hrest⟩ := List.forall_mem_cons.mp hmade
      obtain ⟨added, hadded, hall⟩ := ih hrest (initial ++ [value])
      refine ⟨value :: added, ?_, .cons hvalue hall⟩
      have hreceive : member.receive table (.list initial) (.extension name value)
          = .list (initial ++ [value]) := by
        simp [Member.receive, hrole, hname, Bound.append]
      rw [List.map_cons, List.foldl_cons, hcall, hreceive, hadded, List.append_assoc,
        List.singleton_append]

theorem Takes.shows_extension (h : record.Takes table fields)
    (hsound : record.objectType.Sound table) (hmember : member ∈ record.members) {element : Ty}
    (hrole : member.role = .extension element) {initial : List Bound}
    (hinitial : member.initial = .list initial) :
    member.Shows table key fields (member.after table (record.callsOf table key fields)) := by
  have hslot : element ∈ record.objectType.extensions :=
    List.mem_filterMap.mpr ⟨member, hmember, by simp [extensionSlot?, hrole]⟩
  obtain ⟨id, name, hcore, hextension⟩ := hsound.extensions element hslot
  have hname : Member.acceptedAs table element = some name := by
    rw [Member.acceptedAs, hcore, ← hextension]
  have hcalled : member.calledAs table = some name := by simp [Member.calledAs, hrole, hname]
  have hmade := h.made (hsound.accepts?_extension hslot hname)
  rw [h.after_callsOf, after_keyCalls_of_ne_key (by simp [hrole]), hcalled, hinitial]
  simp only [Option.some_beq_some]
  obtain ⟨added, hadded, hall⟩ := foldl_receive_extension hrole hname hmade initial
  rw [hadded]
  exact .extended hrole hname hinitial hall

/-- Whatever the role of a member, it holds what is shown for it. -/
theorem Takes.shows (h : record.Takes table fields) (hsound : record.objectType.Sound table)
    (hmember : member ∈ record.members)
    (hinitial : ∀ element, member.role = .extension element → ∃ items, member.initial = .list items) :
    member.Shows table key fields (member.after table (record.callsOf table key fields)) := by
  cases hrole : member.role with
  | skip => exact h.shows_skip hrole
  | key => exact h.shows_key hsound hmember hrole
  | field own collection => exact h.shows_field hsound hmember hrole
  | extension element =>
      obtain ⟨items, hitems⟩ := hinitial element hrole
      exact h.shows_extension hsound hmember hrole hitems

end Record

end TypedConfig
