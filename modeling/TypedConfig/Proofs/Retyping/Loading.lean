import TypedConfig.Proofs.Apart
import TypedConfig.Proofs.Retyping.Derivation
import TypedConfig.Proofs.Session

/-!
Loading a document at two types that correspond.  Binding takes the same course for both, and what
it makes of the document corresponds, once this is known of what is made of single scalars, items,
entries and calls.
-/

namespace TypedConfig

/-- A call on an instance of an object type corresponds to one on an instance of its retyped form;
`values` tells which values of corresponding types correspond. -/
inductive Call.Retyped (table other : Declarations) (values : Ty → Ty → Bound → Bound → Prop)
    (id : Nat) : Call Bound → Call Bound → Prop
  | key (name : String) : Retyped table other values id (.key name) (.key name)
  | field {name : String} {type type' : Ty} {value value' : Bound} :
      (table.object id).accepts? table name = some (.field type) →
        (other.object id).accepts? other name = some (.field type') → values type type' value value' →
          Retyped table other values id (.field name value) (.field name value')
  | extension {name : String} {type type' : Ty} {value value' : Bound} :
      (table.object id).accepts? table name = some (.extension type) →
        (other.object id).accepts? other name = some (.extension type') →
          values type type' value value' →
            Retyped table other values id (.extension name value) (.extension name value')

/-- A table is retyped: its types correspond to types of the same form, and what is made of
corresponding values corresponds.  Where it is `strict`, a retyped type has the same name, and
refuses what the type refuses. -/
structure Retyping (strict : Prop) (relation : Ty → Ty → Prop)
    (values : Ty → Ty → Bound → Bound → Prop) (table other : Declarations) : Prop where
  form : Ty.KeepsForm relation
  declared : table.Retyped relation other
  names : strict → ∀ {type type' : Ty}, relation type type' → type'.name other = type.name table
  wrap : ∀ {type type' : Ty}, relation type type' → ∀ ⦃value value' : Bound⦄,
    values type.core type'.core value value' → values type type' (type.wrap value) (type'.wrap value')
  accepts : ∀ {type type' : ScalarType} {given made : Scalar},
    relation (.scalar type) (.scalar type') → type.accept? given = some made →
      ∃ made', type'.accept? given = some made' ∧
        values (.scalar type) (.scalar type') (.scalar made) (.scalar made')
  refuses : strict → ∀ {type type' : ScalarType} {given : Scalar},
    relation (.scalar type) (.scalar type') → type.accept? given = none → type'.accept? given = none
  list : ∀ {element element' : Ty} {items items' : List Bound}, relation element element' →
    List.Forall₂ (values element element') items items' →
      values (.list element) (.list element') (.list items) (.list items')
  map : ∀ {kind : MapKind} {element element' : Ty} {entries entries' : List (String × Bound)},
    relation element element' → Entries.Correspond (values element element') entries entries' →
      values (.map kind element) (.map kind element') (.map entries) (.map entries')
  object : ∀ {id : Nat} {calls calls' : List (Call Bound)},
    List.Forall₂ (Call.Retyped table other values id) calls calls' →
      values (.object id) (.object id) (.object id calls) (.object id calls')

section Binding

variable {strict : Prop} {relation : Ty → Ty → Prop} {values : Ty → Ty → Bound → Bound → Prop}
  {table other : Declarations} (h : Retyping strict relation values table other)

include h

theorem Retyping.describe_eq (hstrict : strict) {type type' : Ty} (htype : relation type type') :
    type'.describe other = type.describe table := by
  have hcores := h.form htype
  unfold Ty.describe
  rw [h.names hstrict htype]
  generalize type.core = core at hcores
  generalize type'.core = core' at hcores
  cases hcores with
  | object id => simp only [(h.declared.object id).isEmpty_eq]
  | _ => rfl

namespace Direct

theorem literal_matched {type type' : Ty} (htype : relation type type') (leaf : Literal) :
    Matched strict (values type type') (literal table type leaf) (literal other type' leaf) := by
  have hcores := h.form htype
  have hwrap := h.wrap htype
  unfold literal
  cases leaf.value with
  | error error => exact .fail fun _ => rfl
  | ok given =>
      generalize type.core = core at hcores hwrap
      generalize type'.core = core' at hcores hwrap
      simp only [bind, Except.bind]
      cases hcores with
      | @scalar scalar scalar' hscalar =>
          cases haccept : scalar.accept? given with
          | none =>
              simp only [haccept]
              refine .fail fun hstrict => ?_
              rw [h.refuses hstrict hscalar haccept, h.names hstrict htype]
          | some made =>
              obtain ⟨made', haccept', hmade⟩ := h.accepts hscalar haccept
              simp only [haccept, haccept']
              exact .ok (hwrap hmade)
      | _ => exact .fail fun hstrict => by rw [h.names hstrict htype]

theorem keyCalls_retyped (id : Nat) (key : Option String) :
    List.Forall₂ (Call.Retyped table other values id) (keyCalls (table.object id) key)
      (keyCalls (other.object id) key) := by
  unfold keyCalls
  rw [(h.declared.object id).keys]
  cases key with
  | none => exact .nil
  | some name =>
      dsimp only
      split
      · exact .cons (.key name) .nil
      · exact .nil

/-- The value of a node is matched at any corresponding types, under any name. -/
def NodeMatched (strict : Prop) (relation : Ty → Ty → Prop) (values : Ty → Ty → Bound → Bound → Prop)
    (table other : Declarations) (found : Node) : Prop :=
  ∀ (type type' : Ty) (key : Option String), relation type type' →
    Matched strict (values type type') (node table type key found) (node other type' key found)

theorem call_matched (id : Nat) {field : Field Node}
    (hvalue : NodeMatched strict relation values table other field.value) :
    Matched strict (Call.Retyped table other values id) (call table (table.object id) field)
      (call other (other.object id) field) := by
  have hid := h.declared.object id
  have haccepts := hid.accepts?_rel h.form h.declared field.name.name
  unfold call
  generalize hfound : (table.object id).accepts? table field.name.name = acceptance at haccepts ⊢
  generalize hfound' : (other.object id).accepts? other field.name.name = acceptance'
    at haccepts ⊢
  cases haccepts with
  | none => exact .fail fun _ => by rw [hid.acceptedNames_eq h.form h.declared]
  | some hacceptance =>
      cases hacceptance with
      | field htype =>
          exact (hvalue _ _ _ htype).bind fun _ _ hbound => .ok (.field hfound hfound' hbound)
      | extension htype =>
          exact (hvalue _ _ _ htype).bind fun _ _ hbound => .ok (.extension hfound hfound' hbound)

omit h in
theorem entry_matched {element element' : Ty} {field : Field Node}
    (hvalue : NodeMatched strict relation values table other field.value)
    (helement : relation element element') :
    Matched strict (fun made made' => made.1 = made'.1 ∧ values element element' made.2 made'.2)
      (entry table element field) (entry other element' field) :=
  (hvalue element element' _ helement).bind fun _ _ hbound => .ok ⟨rfl, hbound⟩

theorem node_matched (found : Node) : NodeMatched strict relation values table other found := by
  induction found with
  | literal leaf =>
      intro type type' key htype
      exact literal_matched h htype leaf
  | array members span ih =>
      intro type type' key htype
      have hcores := h.form htype
      have hwrap := h.wrap htype
      rw [node, node]
      generalize type.core = core at hcores hwrap
      generalize type'.core = core' at hcores hwrap
      cases hcores with
      | list helement =>
          simp only [items_eq_mapM]
          refine (Matched.mapM fun item hitem => ih item hitem _ _ none helement).bind ?_
          exact fun _ _ hitems => .ok (hwrap (h.list helement hitems))
      | _ => exact .fail fun hstrict => by rw [h.describe_eq hstrict htype]
  | dictionary members span ih =>
      intro type type' key htype
      have hcores := h.form htype
      have hwrap := h.wrap htype
      rw [node, node]
      generalize type.core = core at hcores hwrap
      generalize type'.core = core' at hcores hwrap
      cases hcores with
      | object id =>
          dsimp only
          rw [(h.declared.object id).isEmpty_eq]
          split
          · exact .fail fun hstrict => by rw [h.describe_eq hstrict htype]
          · rw [fields_eq_mapM, fields_eq_mapM]
            refine (Matched.mapM fun field hfield => call_matched h id (ih field hfield)).bind ?_
            intro calls calls' hcalls
            exact .ok (hwrap (h.object (List.rel_append (keyCalls_retyped h id key) hcalls)))
      | @map kind _ _ helement =>
          simp only [entries_eq_mapM]
          refine (Matched.mapM fun field hfield =>
            entry_matched (ih field hfield) helement).bind fun entries entries' hentries => .ok ?_
          exact hwrap (h.map helement (Entries.Correspond.ofList kind hentries))
      | _ => exact .fail fun hstrict => by rw [h.describe_eq hstrict htype]

end Direct

/-- Documents are loaded at corresponding types with matching results. -/
theorem Retyping.load_matched (source : Source) {root root' : Ty} (hroot : relation root root') :
    Matched strict (fun loaded loaded' => ∃ value value', loaded = .value value ∧
        loaded' = .value value' ∧ values root root' value value')
      (source.load table root (.value root)) (source.load other root' (.value root')) := by
  refine (Matched.same source.read).bind ?_
  rintro unopened _ rfl
  refine ((Schema.derive_matched h.form h.declared h.names hroot).mapError _).bind ?_
  rintro schema schema' ⟨hschema, hschema'⟩
  refine (Matched.same unopened.document).bind ?_
  rintro document _ rfl
  rw [Document.reach, Document.reach, Document.bind_eq_node hschema, Document.bind_eq_node hschema']
  refine ((Direct.node_matched h document.root root root' none hroot).map ?_).mapError _
  exact fun value value' hvalue => ⟨value, value', rfl, rfl, hvalue⟩

end Binding

end TypedConfig
