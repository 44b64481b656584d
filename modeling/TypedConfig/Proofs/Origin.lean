import TypedConfig.Proofs.Apart

/-!
Where errors come from.  Whatever goes wrong in binding a tree goes wrong at one of its places, and
by the type declared there: a literal that is no value of the type, a name that is not accepted, or
a dictionary or an array where none is.
-/

namespace TypedConfig

/-- The places of a tree, each with the type that is declared there: the type of the field or of the
extension that a name is accepted as, or that of the elements of a map or list. -/
inductive Declarations.Stands (table : Declarations) (root : Ty) (tree : Node) : Ty → Node → Prop
  | root : Stands table root tree root tree
  | field {type : Ty} {object : Nat} {fields : List (Field Node)} {span : Span}
      {field : Field Node} {acceptance : Acceptance} :
      Stands table root tree type (.dictionary fields span) → type.core = .object object →
        field ∈ fields →
          (table.object object).accepts? table field.name.name = some acceptance →
            Stands table root tree acceptance.type field.value
  | member {type element : Ty} {kind : MapKind} {fields : List (Field Node)} {span : Span}
      {field : Field Node} :
      Stands table root tree type (.dictionary fields span) → type.core = .map kind element →
        field ∈ fields → Stands table root tree element field.value
  | item {type element : Ty} {items : List Node} {span : Span} {item : Node} :
      Stands table root tree type (.array items span) → type.core = .list element →
        item ∈ items → Stands table root tree element item

/-- The errors that the places of a tree have of their own. -/
inductive Declarations.Origin (table : Declarations) (root : Ty) (tree : Node) : ConfigError → Prop
  | literal {type : Ty} {leaf : Literal} {error : ConfigError} :
      table.Stands root tree type (.literal leaf) →
        Direct.literal table type leaf = .error error → Origin table root tree error
  | name {type : Ty} {object : Nat} {fields : List (Field Node)} {span : Span} {field : Field Node} :
      table.Stands root tree type (.dictionary fields span) → type.core = .object object →
        (table.object object).isEmpty = false → field ∈ fields →
          (table.object object).accepts? table field.name.name = none →
            Origin table root tree (.unknownField field.name.name
              ((table.object object).acceptedNames table) field.name.span.position)
  | dictionary {type : Ty} {fields : List (Field Node)} {span : Span} :
      table.Stands root tree type (.dictionary fields span) →
        Origin table root tree (.structure "a dictionary" (type.describe table) span.position)
  | array {type : Ty} {items : List Node} {span : Span} :
      table.Stands root tree type (.array items span) →
        Origin table root tree (.structure "an array" (type.describe table) span.position)

namespace Direct

variable {table : Declarations} {object : ObjectType} {type element : Ty} {key : Option String}
  {field : Field Node} {span : Span} {error : ConfigError}

/-- A literal either cannot be decoded, or stands for something that its type does not accept. -/
theorem literal_error {leaf : Literal} (h : literal table type leaf = .error error) :
    (∃ fault : DecodeError, error = fault.toError leaf.span) ∨
      ∃ given, leaf.value = .ok given ∧
        error = .typeMismatch given.typeName (type.name table) leaf.span.position := by
  rw [literal] at h
  rcases bind_eq_error_iff.mp h with hvalue | ⟨given, hvalue, hrefused⟩
  · unfold Literal.value at hvalue
    cases hdecode : leaf.decode with
    | ok given =>
        rw [hdecode] at hvalue
        cases hvalue
    | error fault =>
        rw [hdecode] at hvalue
        cases hvalue
        exact .inl ⟨fault, rfl⟩
  · refine .inr ⟨given, hvalue, ?_⟩
    simp only at hrefused
    split at hrefused
    · split at hrefused <;> cases hrefused
      rfl
    · cases hrefused
      rfl

/-- An object has no place for a field, or the field has an error of its own. -/
theorem call_error (h : call table object field = .error error) :
    (object.accepts? table field.name.name = none ∧
      error = .unknownField field.name.name (object.acceptedNames table) field.name.span.position) ∨
    ∃ acceptance, object.accepts? table field.name.name = some acceptance ∧
      node table acceptance.type (some field.name.name) field.value = .error error := by
  unfold call at h
  split at h
  · rename_i acceptance haccepts
    rcases bind_eq_error_iff.mp h with hvalue | ⟨_, -, hpure⟩
    · exact .inr ⟨acceptance, haccepts, hvalue⟩
    · cases hpure
  · rename_i hunknown
    cases h
    exact .inl ⟨hunknown, rfl⟩

/-- Every name is one of an entry, so only its value has errors. -/
theorem entry_error (h : entry table element field = .error error) :
    node table element (some field.name.name) field.value = .error error := by
  rcases bind_eq_error_iff.mp h with hvalue | ⟨_, -, hpure⟩
  · exact hvalue
  · cases hpure

/-- An array is refused, or one of its items is. -/
theorem array_error {members : List Node}
    (h : node table type key (.array members span) = .error error) :
    error = .structure "an array" (type.describe table) span.position ∨
      ∃ element item, type.core = .list element ∧ item ∈ members ∧
        node table element none item = .error error := by
  rw [node] at h
  split at h
  · rename_i element hcore
    rw [items_eq_mapM, bind_eq_error_iff] at h
    rcases h with hitems | ⟨_, -, hpure⟩
    · obtain ⟨item, hitem, herror⟩ := exists_of_mapM_eq_error hitems
      exact .inr ⟨element, item, hcore, hitem, herror⟩
    · cases hpure
  · cases h
    exact .inl rfl

/-- A dictionary is refused, or one of its fields is: by an object as a call, by a map as an entry.
-/
theorem dictionary_error {members : List (Field Node)}
    (h : node table type key (.dictionary members span) = .error error) :
    error = .structure "a dictionary" (type.describe table) span.position ∨
    (∃ id field, type.core = .object id ∧ (table.object id).isEmpty = false ∧ field ∈ members ∧
      call table (table.object id) field = .error error) ∨
    ∃ kind element field, type.core = .map kind element ∧ field ∈ members ∧
      entry table element field = .error error := by
  rw [node] at h
  split at h
  · rename_i id hcore
    split at h
    · cases h
      exact .inl rfl
    · rename_i hfull
      rw [fields_eq_mapM, bind_eq_error_iff] at h
      rcases h with hfields | ⟨_, -, hpure⟩
      · obtain ⟨field, hfield, herror⟩ := exists_of_mapM_eq_error hfields
        exact .inr (.inl ⟨id, field, hcore, by simpa using hfull, hfield, herror⟩)
      · cases hpure
  · rename_i kind element hcore
    rw [entries_eq_mapM, bind_eq_error_iff] at h
    rcases h with hentries | ⟨_, -, hpure⟩
    · obtain ⟨field, hfield, herror⟩ := exists_of_mapM_eq_error hentries
      exact .inr (.inr ⟨kind, element, field, hcore, hfield, herror⟩)
    · cases hpure
  · cases h
    exact .inl rfl

/-- An error of binding a node to the type declared at its place comes from a place of the tree. -/
theorem node_origin {root : Ty} {tree found : Node} (hplace : table.Stands root tree type found)
    (h : node table type key found = .error error) : table.Origin root tree error := by
  induction found generalizing type key with
  | literal leaf => exact .literal hplace h
  | array members span ih =>
      rcases array_error h with rfl | ⟨element, item, hcore, hitem, herror⟩
      · exact .array hplace
      · exact ih item hitem (.item hplace hcore hitem) herror
  | dictionary members span ih =>
      rcases dictionary_error h with rfl | ⟨object, field, hcore, hfull, hfield, herror⟩ |
        ⟨kind, element, field, hcore, hfield, herror⟩
      · exact .dictionary hplace
      · rcases call_error herror with ⟨hunknown, rfl⟩ | ⟨acceptance, haccepts, hvalue⟩
        · exact .name hplace hcore hfull hfield hunknown
        · exact ih field hfield (.field hplace hcore hfield haccepts) hvalue
      · exact ih field hfield (.member hplace hcore hfield) (entry_error herror)

end Direct

end TypedConfig
