import TypedConfig.Proofs.Binding
import TypedConfig.Proofs.Value.Written

/-!
A written value is read back.  Binding looks at spans only for its errors, so the tree that is read
from a text binds as the tree that was written, and that one binds to the value.
-/

namespace TypedConfig

namespace Direct

section Spans

variable {table : Declarations} {type element : Ty} {key : Option String}

theorem toOption_bind {ε α β : Type} (x : Except ε α) (f : α → Except ε β) :
    (x >>= f).toOption = x.toOption.bind fun a => (f a).toOption := by
  cases x <;> rfl

theorem toOption_eq_some {ε α : Type} {x : Except ε α} {a : α} :
    x.toOption = some a ↔ x = .ok a := by
  cases x <;> simp [Except.toOption]

/-- A node binds to the same value without its spans. -/
def Spanless (table : Declarations) (node : Node) : Prop :=
  ∀ type key, (Direct.node table type key node.bare).toOption
    = (Direct.node table type key node).toOption

theorem literal_spanless (leaf : Literal) : Spanless table (.literal leaf) := by
  intro type key
  change (literal table type ⟨leaf.kind, leaf.text, .none⟩).toOption = (literal table type leaf).toOption
  have hdecode : Literal.decode ⟨leaf.kind, leaf.text, .none⟩ = leaf.decode := rfl
  unfold literal
  rw [toOption_bind, toOption_bind, Literal.value, Literal.value, hdecode]
  cases leaf.decode with
  | error fault => rfl
  | ok given =>
      change Option.bind (some given) _ = Option.bind (some given) _
      simp only [Option.bind_some]
      split
      · split <;> rfl
      · rfl

theorem items_spanless {items : List Node} (hitems : ∀ item ∈ items, Spanless table item) :
    (Direct.items table element (items.map Node.bare)).toOption
      = (Direct.items table element items).toOption := by
  induction items with
  | nil => rfl
  | cons item rest ih =>
      obtain ⟨hitem, hrest⟩ := List.forall_mem_cons.mp hitems
      simp only [List.map_cons, Direct.items, toOption_bind, hitem element none, ih hrest]

theorem entries_spanless {fields : List (Field Node)}
    (hfields : ∀ field ∈ fields, Spanless table field.value) :
    (Direct.entries table element (fields.map Field.bare)).toOption
      = (Direct.entries table element fields).toOption := by
  induction fields with
  | nil => rfl
  | cons field rest ih =>
      obtain ⟨hfield, hrest⟩ := List.forall_mem_cons.mp hfields
      simp only [List.map_cons, Field.bare, Direct.entries, toOption_bind, hfield element _, ih hrest]

theorem fields_spanless {object : ObjectType} {fields : List (Field Node)}
    (hfields : ∀ field ∈ fields, Spanless table field.value) :
    (Direct.fields table object (fields.map Field.bare)).toOption
      = (Direct.fields table object fields).toOption := by
  induction fields with
  | nil => rfl
  | cons field rest ih =>
      obtain ⟨hfield, hrest⟩ := List.forall_mem_cons.mp hfields
      simp only [List.map_cons, Field.bare, Direct.fields]
      cases object.accepts? table field.name.name with
      | none => rfl
      | some acceptance =>
        simp only [toOption_bind, hfield acceptance.type _, ih hrest]

/-- Binding looks at spans only for its errors. -/
theorem node_spanless (node : Node) : Spanless table node := by
  induction node with
  | literal leaf => exact literal_spanless leaf
  | array items span ih =>
      intro type key
      rw [Node.bare, bareItems_eq_map, Direct.node, Direct.node]
      split
      · simp only [toOption_bind, items_spanless ih]
      · rfl
  | dictionary fields span ih =>
      intro type key
      rw [Node.bare, bareFields_eq_map, Direct.node, Direct.node]
      split
      · split
        · rfl
        · simp only [toOption_bind, fields_spanless ih]
      · simp only [toOption_bind, entries_spanless ih]
      · rfl

end Spans

section Wrappers

variable {table : Declarations} {inner outer : Ty} {wrapper : Bound → Bound} {key : Option String}

theorem rewrapped {α : Type} {bound : Except ConfigError α} {content : α → Bound} {value : Bound}
    (hwrap : ∀ content, outer.wrap content = wrapper (inner.wrap content))
    (h : (bound >>= fun found => pure (inner.wrap (content found))) = .ok value) :
    (bound >>= fun found => pure (outer.wrap (content found))) = .ok (wrapper value) := by
  cases bound with
  | error error => cases h
  | ok found =>
      cases h
      exact congrArg Except.ok (hwrap (content found))

/-- A wrapper puts something around what the type inside it binds. -/
theorem node_wrapped (inner outer : Ty) (hcore : outer.core = inner.core)
    (hwrap : ∀ content, outer.wrap content = wrapper (inner.wrap content)) {tree : Node}
    {value : Bound} (h : Direct.node table inner key tree = .ok value) :
    Direct.node table outer key tree = .ok (wrapper value) := by
  cases tree with
  | literal leaf =>
      rw [Direct.node, literal] at h ⊢
      rw [hcore]
      cases hgiven : leaf.value with
      | error error =>
          rw [hgiven] at h
          cases h
      | ok given =>
          rw [hgiven] at h
          simp only [bind, Except.bind] at h ⊢
          split at h
          · split at h
            · cases h
              exact congrArg Except.ok (hwrap _)
            · cases h
          · cases h
  | array items span =>
      rw [Direct.node] at h ⊢
      rw [hcore]
      split at h
      · exact rewrapped hwrap h
      · cases h
  | dictionary fields span =>
      rw [Direct.node] at h ⊢
      rw [hcore]
      split at h
      · split at h
        · cases h
        · rename_i hfull
          simp only [hfull]
          exact rewrapped hwrap h
      · exact rewrapped hwrap h
      · cases h

end Wrappers

end Direct

theorem ScalarType.Takes.accept?_eq {type : ScalarType} {scalar : Scalar} (h : type.Takes scalar) :
    type.accept? scalar = some scalar := by
  cases h <;> rfl

theorem Scalar.WrittenAs.value_eq {scalar : Scalar} {kind : LiteralKind} {token : List Char}
    (h : scalar.WrittenAs kind token) (span : Span) :
    Literal.value ⟨kind, .ofList token, span⟩ = .ok scalar := by
  rw [Literal.value, Literal.decode, h.decodeAs_eq]
  rfl

namespace Bound

open Direct

section Written

variable {table : Declarations} {element : Ty} {object : ObjectType}

theorem items_written {items : List (Bound × Node)}
    (h : ∀ item ∈ items, ∀ key, Direct.node table element key item.2 = .ok item.1) :
    Direct.items table element (items.map Prod.snd) = .ok (items.map Prod.fst) := by
  induction items with
  | nil => rfl
  | cons item rest ih =>
      obtain ⟨hitem, hrest⟩ := List.forall_mem_cons.mp h
      rw [List.map_cons, Direct.items, hitem none, ih hrest]
      rfl

theorem entries_written {members : List Member}
    (h : ∀ member ∈ members, ∀ key, Direct.node table element key member.tree = .ok member.value) :
    Direct.entries table element (members.map Member.field) = .ok (members.map Member.entry) := by
  induction members with
  | nil => rfl
  | cons member rest ih =>
      obtain ⟨hmember, hrest⟩ := List.forall_mem_cons.mp h
      rw [List.map_cons, Member.field, Direct.entries, hmember, ih hrest]
      rfl

theorem accepts?_of_declared? {name : String} {type : Ty} (h : object.declared? name = some type) :
    object.accepts? table name = some (.field type) := by
  obtain ⟨slot, hslot, rfl⟩ := Option.map_eq_some_iff.mp h
  rw [ObjectType.accepts?, hslot]

theorem fields_written {members : List Member}
    (hdeclared : ∀ member ∈ members, ∃ type, object.declared? member.name = some type)
    (h : ∀ member ∈ members, ∀ type, object.declared? member.name = some type →
      ∀ key, Direct.node table type key member.tree = .ok member.value) :
    Direct.fields table object (members.map Member.field) = .ok (members.map Member.call) := by
  induction members with
  | nil => rfl
  | cons member rest ih =>
      obtain ⟨⟨type, htype⟩, hothers⟩ := List.forall_mem_cons.mp hdeclared
      obtain ⟨hmember, hrest⟩ := List.forall_mem_cons.mp h
      rw [List.map_cons, Member.field, Direct.fields, accepts?_of_declared? htype]
      simp only [Acceptance.type, hmember type htype, ih hothers hrest]
      rfl

end Written

/-- The tree that a value is written as binds to the value. -/
theorem WrittenAs.node_eq {table : Declarations} {type : Ty} {value : Bound} {tree : Node}
    (h : WrittenAs table type value tree) (key : Option String) :
    Direct.node table type key tree = .ok value := by
  induction h generalizing key with
  | scalar htakes htoken =>
      rw [Direct.node, Direct.literal, htoken.value_eq]
      simp only [bind, Except.bind, Ty.core, htakes.accept?_eq]
      rfl
  | @option inner _ _ _ ih => exact node_wrapped inner (.option inner) rfl (fun _ => rfl) (ih key)
  | @box inner _ _ _ ih => exact node_wrapped inner (.box inner) rfl (fun _ => rfl) (ih key)
  | list _ ih =>
      simp only [Direct.node, Ty.core, items_written ih]
      rfl
  | map _ _ ih =>
      simp only [Direct.node, Ty.core, entries_written ih]
      rfl
  | @object id members hplain hdeclared _ ih =>
      have hfull : (table.object id).isEmpty = false := by
        simp [ObjectType.isEmpty, hplain.fields]
      simp only [Direct.node, Ty.core, hfull]
      rw [fields_written hdeclared ih]
      have hkeys : keyCalls (table.object id) key = [] := by
        cases key <;> simp [keyCalls, hplain.keys]
      simp only [Bool.false_eq_true, if_false, bind, Except.bind, hkeys]
      rfl

end Bound

end TypedConfig
