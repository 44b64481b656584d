import TypedConfig.Proofs.Binding

/-!
Siblings are bound apart from one another.  The call that a field makes on an object, the entry that
it puts into a map and the item that a node appends to a list are found from the field or the node
alone; a container is bound when all of them are found, and holds them in the order of the text.
-/

namespace TypedConfig

section Lists

variable {α β ε : Type} {f : α → Except ε β} {xs : List α} {ys : List β}

/-- Two steps succeed one after the other. -/
theorem bind_eq_ok_iff {first : Except ε α} {next : α → Except ε β} {y : β} :
    (first >>= next) = .ok y ↔ ∃ x, first = .ok x ∧ next x = .ok y := by
  cases first <;> simp [bind, Except.bind]

theorem pure_eq_ok_iff {x y : α} : (pure x : Except ε α) = .ok y ↔ y = x := by
  simp [pure, Except.pure, eq_comm]

theorem bind_eq_error_iff {first : Except ε α} {next : α → Except ε β} {error : ε} :
    (first >>= next) = .error error ↔
      first = .error error ∨ ∃ x, first = .ok x ∧ next x = .error error := by
  cases first <;> simp [bind, Except.bind]

theorem mapM_eq_ok_iff : xs.mapM f = .ok ys ↔ List.Forall₂ (fun x y => f x = .ok y) xs ys := by
  induction xs generalizing ys with
  | nil => rw [List.mapM_nil, List.forall₂_nil_left_iff, pure_eq_ok_iff]
  | cons x rest ih =>
      simp only [List.mapM_cons, bind_eq_ok_iff, pure_eq_ok_iff, ih, List.forall₂_cons_left_iff,
        exists_and_left]

theorem exists_mapM_eq_ok_iff : (∃ ys, xs.mapM f = .ok ys) ↔ ∀ x ∈ xs, ∃ y, f x = .ok y := by
  induction xs with
  | nil => exact ⟨fun _ _ hx => absurd hx List.not_mem_nil, fun _ => ⟨[], rfl⟩⟩
  | cons x rest ih =>
      simp only [mapM_eq_ok_iff, List.forall₂_cons_left_iff] at ih ⊢
      constructor
      · rintro ⟨_, y, more, hx, hmore, rfl⟩
        exact List.forall_mem_cons.mpr ⟨⟨y, hx⟩, ih.mp ⟨more, hmore⟩⟩
      · intro h
        obtain ⟨⟨y, hx⟩, hrest⟩ := List.forall_mem_cons.mp h
        obtain ⟨more, hmore⟩ := ih.mpr hrest
        exact ⟨y :: more, y, more, hx, hmore, rfl⟩

/-- A list that fails fails at one of its elements. -/
theorem exists_of_mapM_eq_error {error : ε} (h : xs.mapM f = .error error) :
    ∃ x ∈ xs, f x = .error error := by
  induction xs with
  | nil => cases h
  | cons x rest ih =>
      simp only [List.mapM_cons, bind_eq_error_iff] at h
      rcases h with hx | ⟨y, -, hrest | ⟨more, -, hpure⟩⟩
      · exact ⟨x, List.mem_cons_self, hx⟩
      · obtain ⟨other, hother, herror⟩ := ih hrest
        exact ⟨other, List.mem_cons_of_mem x hother, herror⟩
      · cases hpure

/-- What is found of each element is a function of the element alone. -/
theorem eq_map_of_mapM (other : β) (h : xs.mapM f = .ok ys) :
    ys = xs.map (fun x => (f x).toOption.getD other) ∧
      ∀ x ∈ xs, f x = .ok ((f x).toOption.getD other) := by
  have hfound := mapM_eq_ok_iff.mp h
  clear h
  induction hfound with
  | nil => exact ⟨rfl, List.forall_mem_nil _⟩
  | @cons x y _ _ hx _ ih =>
      have hy : (f x).toOption.getD other = y := by rw [hx]; rfl
      refine ⟨?_, List.forall_mem_cons.mpr ⟨hy ▸ hx, ih.2⟩⟩
      rw [List.map_cons, hy, ← ih.1]

end Lists

namespace Direct

variable {table : Declarations} {object : ObjectType} {element : Ty}

/-- The call that a field makes on an object of some type. -/
def call (table : Declarations) (object : ObjectType) (field : Field Node) :
    Except ConfigError (Call Bound) :=
  match object.accepts? table field.name.name with
  | some acceptance => do
    let bound ← node table acceptance.type (some field.name.name) field.value
    pure (acceptance.call field.name.name bound)
  | none =>
    .error (.unknownField field.name.name (object.acceptedNames table) field.name.span.position)

/-- The entry that a field puts into a map. -/
def entry (table : Declarations) (element : Ty) (field : Field Node) :
    Except ConfigError (String × Bound) := do
  let bound ← node table element (some field.name.name) field.value
  pure (field.name.name, bound)

theorem call_eq_ok_iff {field : Field Node} {made : Call Bound} :
    call table object field = .ok made ↔ ∃ acceptance bound,
      object.accepts? table field.name.name = some acceptance ∧
        node table acceptance.type (some field.name.name) field.value = .ok bound ∧
          made = acceptance.call field.name.name bound := by
  unfold call
  cases object.accepts? table field.name.name with
  | none => simp
  | some acceptance => simp only [bind_eq_ok_iff, pure_eq_ok_iff, Option.some.injEq,
      exists_eq_left', exists_and_left]

theorem entry_eq_ok_iff {field : Field Node} {made : String × Bound} :
    entry table element field = .ok made ↔ ∃ bound,
      node table element (some field.name.name) field.value = .ok bound ∧
        made = (field.name.name, bound) := by
  simp only [entry, bind_eq_ok_iff, pure_eq_ok_iff]

/-- The call that a field makes, of those that make one. -/
def madeBy (table : Declarations) (object : ObjectType) (field : Field Node) : Call Bound :=
  (call table object field).toOption.getD (.key "")

/-- The entry that a field puts into a map, of those that put one. -/
def putBy (table : Declarations) (element : Ty) (field : Field Node) : String × Bound :=
  (entry table element field).toOption.getD ("", .absent)

theorem putBy_name {field : Field Node}
    (h : entry table element field = .ok (putBy table element field)) :
    (putBy table element field).1 = field.name.name := by
  obtain ⟨bound, -, hmade⟩ := entry_eq_ok_iff.mp h
  rw [hmade]

theorem fields_eq_mapM (members : List (Field Node)) :
    fields table object members = members.mapM (call table object) := by
  induction members with
  | nil => rfl
  | cons field rest ih =>
      rw [fields, List.mapM_cons, call, ih]
      cases object.accepts? table field.name.name with
      | none => rfl
      | some acceptance => simp only [bind_assoc, pure_bind]

theorem entries_eq_mapM (members : List (Field Node)) :
    entries table element members = members.mapM (entry table element) := by
  induction members with
  | nil => rfl
  | cons field rest ih =>
      rw [entries, List.mapM_cons, entry, ih]
      cases node table element (some field.name.name) field.value <;> rfl

theorem items_eq_mapM (members : List Node) :
    items table element members = members.mapM (node table element none) := by
  induction members with
  | nil => rfl
  | cons item rest ih => rw [items, List.mapM_cons, ih]

variable {type : Ty} {key : Option String} {span : Span} {value : Bound}

/-- An object is bound from a dictionary when every field makes its call. -/
theorem node_object_eq_ok_iff {id : Nat} {members : List (Field Node)}
    (hcore : type.core = .object id) :
    node table type key (.dictionary members span) = .ok value ↔
      (table.object id).isEmpty = false ∧ ∃ calls,
        List.Forall₂ (fun field made => call table (table.object id) field = .ok made) members
            calls ∧
          value = type.wrap (.object id (keyCalls (table.object id) key ++ calls)) := by
  rw [node, hcore]
  cases hempty : (table.object id).isEmpty with
  | true => simp [hempty]
  | false =>
      simp only [hempty, Bool.false_eq_true, if_false, fields_eq_mapM, bind_eq_ok_iff,
        pure_eq_ok_iff, mapM_eq_ok_iff, true_and]

/-- A map is bound from a dictionary when every field gives its entry. -/
theorem node_map_eq_ok_iff {kind : MapKind} {members : List (Field Node)}
    (hcore : type.core = .map kind element) :
    node table type key (.dictionary members span) = .ok value ↔ ∃ found,
      List.Forall₂ (fun field made => entry table element field = .ok made) members found ∧
        value = type.wrap (.map (Entries.ofList kind found)) := by
  rw [node, hcore]
  simp only [entries_eq_mapM, bind_eq_ok_iff, pure_eq_ok_iff, mapM_eq_ok_iff]

/-- A list is bound from an array when every item is bound. -/
theorem node_list_eq_ok_iff {members : List Node} (hcore : type.core = .list element) :
    node table type key (.array members span) = .ok value ↔ ∃ found,
      List.Forall₂ (fun item bound => node table element none item = .ok bound) members found ∧
        value = type.wrap (.list found) := by
  rw [node, hcore]
  simp only [items_eq_mapM, bind_eq_ok_iff, pure_eq_ok_iff, mapM_eq_ok_iff]

/-- The calls of a dictionary are found one by one. -/
theorem calls_eq_map {members : List (Field Node)} {calls : List (Call Bound)}
    (h : List.Forall₂ (fun field made => call table object field = .ok made) members calls) :
    calls = members.map (madeBy table object) ∧
      ∀ field ∈ members, call table object field = .ok (madeBy table object field) :=
  eq_map_of_mapM (Call.key "") (mapM_eq_ok_iff.mpr h)

/-- The entries of a dictionary are found one by one. -/
theorem entries_eq_map {members : List (Field Node)} {found : List (String × Bound)}
    (h : List.Forall₂ (fun field made => entry table element field = .ok made) members found) :
    found = members.map (putBy table element) ∧
      ∀ field ∈ members, entry table element field = .ok (putBy table element field) :=
  eq_map_of_mapM ("", Bound.absent) (mapM_eq_ok_iff.mpr h)

/-- Whether a dictionary is bound to a type depends on each of its fields by itself. -/
theorem exists_node_dictionary_iff {members : List (Field Node)} :
    (∃ value, node table type key (.dictionary members span) = .ok value) ↔
      match type.core with
      | .object id => (table.object id).isEmpty = false ∧
          ∀ field ∈ members, ∃ made, call table (table.object id) field = .ok made
      | .map _ element => ∀ field ∈ members, ∃ made, entry table element field = .ok made
      | _ => False := by
  cases hcore : type.core with
  | object id =>
      simp only [node_object_eq_ok_iff hcore, ← exists_mapM_eq_ok_iff, mapM_eq_ok_iff]
      exact ⟨fun ⟨_, hfull, calls, h, _⟩ => ⟨hfull, calls, h⟩,
        fun ⟨hfull, calls, h⟩ => ⟨_, hfull, calls, h, rfl⟩⟩
  | map kind element =>
      simp only [node_map_eq_ok_iff hcore, ← exists_mapM_eq_ok_iff, mapM_eq_ok_iff]
      exact ⟨fun ⟨_, found, h, _⟩ => ⟨found, h⟩, fun ⟨found, h⟩ => ⟨_, found, h, rfl⟩⟩
  | _ => simp [node, hcore]

end Direct

namespace Walk

/-- What a walk binds a node to: the node is visited at some stacks, and what is found is converted
to the type at its place. -/
def bound (schema : Schema) (type : Ty) (key : Option String) (node : Node) (state : Stacks) :
    Except ConfigError Bound := do
  let (value, _) ← visit schema key node state
  (type.convert schema.table value).mapError fun mismatch => mismatch.toError node.span

/-- Whatever the stacks are below the descriptor at its place, a node is bound as it is bound
directly. -/
theorem bound_eq {schema : Schema} (hschema : schema.Faithful) {type : Ty} {id : DescriptorId}
    (hdescribes : schema.Describes id type) (key : Option String) (node : Node)
    (expected : List DescriptorId) (containers : List Value) :
    bound schema type key node ⟨id :: expected, containers⟩
      = Direct.node schema.table type key node := by
  rw [← (visit_agrees hschema node type id key expected containers hdescribes).convert, bound]
  cases visit schema key node ⟨id :: expected, containers⟩ <;> rfl

end Walk

/-- Binding a document is binding its root where nothing else is expected or open. -/
theorem Document.bind_eq_bound (schema : Schema) (type : Ty) (document : Document) :
    document.bind schema type
      = Walk.bound schema type none document.root ⟨[schema.root], []⟩ := by
  rw [bind, bindValue, Walk.bound]
  cases Walk.visit schema none document.root ⟨[schema.root], []⟩ <;> rfl

end TypedConfig
