import TypedConfig.Proofs.Document.Nesting
import TypedConfig.Proofs.Entries
import TypedConfig.Proofs.Literal.Written
import TypedConfig.Value.Basic

/-!
Values and the trees they are written as.  A list is written as an array, a map as a dictionary with
its entries in any order, and an instance of an object type as a dictionary with the fields that
were set on it.  Wrappers leave no trace, and what is absent is not written.
-/

namespace TypedConfig

/-- The type that an object type declares for the field of a name. -/
def ObjectType.declared? (object : ObjectType) (name : String) : Option Ty :=
  (object.fields.find? fun slot => slot.name == name).map FieldSlot.type

/-- An object type that dictionaries of fields are enough for: it declares some fields, and it does
not ask for the name under which it stands. -/
structure ObjectType.IsPlain (object : ObjectType) : Prop where
  fields : object.fields ≠ []
  keys : object.keys = 0

/-- The scalars of a type, as far as they can be written.  No number is negative. -/
inductive ScalarType.Takes : ScalarType → Scalar → Prop
  | string (text : String) : Takes .string (.string text)
  | int {value : Int32} : 0 ≤ value.toInt → Takes .int (.integer value)
  | long {value : Int64} : 0 ≤ value.toInt → Takes .long (.long value)
  | bool (value : Bool) : Takes .bool (.boolean value)
  | duration {period : Period} : (∀ unit, 0 ≤ (period.amount unit).toInt) →
      Takes .duration (.duration period)

namespace Bound

/-- The values of a type, as far as they can be written.  Every option is present, a map lists its
entries as maps of its kind do, and what was done to an instance of an object type are calls of
declared fields. -/
inductive HasType (table : Declarations) : Ty → Bound → Prop
  | scalar {type : ScalarType} {scalar : Scalar} :
      type.Takes scalar → HasType table (.scalar type) (.scalar scalar)
  | option {inner : Ty} {value : Bound} :
      HasType table inner value → HasType table (.option inner) (.present value)
  | box {inner : Ty} {value : Bound} :
      HasType table inner value → HasType table (.box inner) (.boxed value)
  | list {element : Ty} {items : List Bound} :
      (∀ item ∈ items, HasType table element item) → HasType table (.list element) (.list items)
  | map {kind : MapKind} {element : Ty} {entries : List (String × Bound)} :
      Entries.ofList kind entries = entries →
        (∀ entry ∈ entries, HasType table element entry.2) →
          HasType table (.map kind element) (.map entries)
  | object {id : Nat} {calls : List (Call Bound)} :
      (table.object id).IsPlain →
        (∀ call ∈ calls, ∃ name value type, call = .field name value ∧
          (table.object id).declared? name = some type) →
          (∀ name value type, .field name value ∈ calls →
            (table.object id).declared? name = some type → HasType table type value) →
            HasType table (.object id) (.object id calls)

mutual

/-- How many lists, maps and objects stand inside one another. -/
def nesting : Bound → Nat
  | .scalar _ => 0
  | .absent => 0
  | .present value => value.nesting
  | .boxed value => value.nesting
  | .list items => nestingOfItems items + 1
  | .map entries => nestingOfEntries entries + 1
  | .object _ calls => nestingOfCalls calls + 1

def nestingOfItems : List Bound → Nat
  | [] => 0
  | item :: rest => max item.nesting (nestingOfItems rest)

def nestingOfEntries : List (String × Bound) → Nat
  | [] => 0
  | (_, value) :: rest => max value.nesting (nestingOfEntries rest)

def nestingOfCalls : List (Call Bound) → Nat
  | [] => 0
  | .key _ :: rest => nestingOfCalls rest
  | .field _ value :: rest => max value.nesting (nestingOfCalls rest)
  | .extension _ value :: rest => max value.nesting (nestingOfCalls rest)

end

/-- A value that is written under a name, with the tree it is written as. -/
structure Member where
  name : String
  value : Bound
  tree : Node

/-- The field of a dictionary that a member is written as. -/
def Member.field (member : Member) : Field Node :=
  ⟨⟨member.name, .none⟩, member.tree, .none⟩

/-- A member as an entry of a map. -/
def Member.entry (member : Member) : String × Bound := (member.name, member.value)

/-- A member as a call on an object. -/
def Member.call (member : Member) : Call Bound := .field member.name member.value

/-- A value of a type and a tree it is written as. -/
inductive WrittenAs (table : Declarations) : Ty → Bound → Node → Prop
  | scalar {type : ScalarType} {scalar : Scalar} {kind : LiteralKind} {token : List Char} :
      type.Takes scalar → scalar.WrittenAs kind token →
        WrittenAs table (.scalar type) (.scalar scalar) (.literal ⟨kind, .ofList token, .none⟩)
  | option {inner : Ty} {value : Bound} {tree : Node} :
      WrittenAs table inner value tree → WrittenAs table (.option inner) (.present value) tree
  | box {inner : Ty} {value : Bound} {tree : Node} :
      WrittenAs table inner value tree → WrittenAs table (.box inner) (.boxed value) tree
  | list {element : Ty} {items : List (Bound × Node)} :
      (∀ item ∈ items, WrittenAs table element item.1 item.2) →
        WrittenAs table (.list element) (.list (items.map Prod.fst))
          (.array (items.map Prod.snd) .none)
  | map {kind : MapKind} {element : Ty} {members : List Member} :
      (members.map Member.name).Nodup →
        (∀ member ∈ members, WrittenAs table element member.value member.tree) →
          WrittenAs table (.map kind element)
            (.map (Entries.ofList kind (members.map Member.entry)))
            (.dictionary (members.map Member.field) .none)
  | object {id : Nat} {members : List Member} :
      (table.object id).IsPlain →
        (∀ member ∈ members, ∃ type, (table.object id).declared? member.name = some type) →
          (∀ member ∈ members, ∀ type, (table.object id).declared? member.name = some type →
            WrittenAs table type member.value member.tree) →
            WrittenAs table (.object id) (.object id (members.map Member.call))
              (.dictionary (members.map Member.field) .none)

section Nesting

variable {items : List Bound} {entries : List (String × Bound)} {calls : List (Call Bound)}
  {table : Declarations} {type : Ty} {value : Bound} {tree : Node}

theorem nesting_le_of_item (h : value ∈ items) : value.nesting ≤ nestingOfItems items := by
  induction items with
  | nil => cases h
  | cons item rest ih =>
      rw [nestingOfItems]
      rcases List.mem_cons.mp h with rfl | hrest
      · exact Nat.le_max_left _ _
      · exact (ih hrest).trans (Nat.le_max_right _ _)

theorem nesting_le_of_entry {entry : String × Bound} (h : entry ∈ entries) :
    entry.2.nesting ≤ nestingOfEntries entries := by
  induction entries with
  | nil => cases h
  | cons first rest ih =>
      rw [nestingOfEntries]
      rcases List.mem_cons.mp h with rfl | hrest
      · exact Nat.le_max_left _ _
      · exact (ih hrest).trans (Nat.le_max_right _ _)

theorem nesting_le_of_call {name : String} (h : .field name value ∈ calls) :
    value.nesting ≤ nestingOfCalls calls := by
  induction calls with
  | nil => cases h
  | cons call rest ih =>
      rcases List.mem_cons.mp h with rfl | hrest
      · exact Nat.le_max_left _ _
      · cases call with
        | key _ => exact ih hrest
        | field _ _ => exact (ih hrest).trans (Nat.le_max_right _ _)
        | extension _ _ => exact (ih hrest).trans (Nat.le_max_right _ _)

/-- A tree is not nested more deeply than the value that is written as it. -/
theorem WrittenAs.nesting_le (h : WrittenAs table type value tree) :
    tree.nesting ≤ value.nesting := by
  induction h with
  | scalar _ _ => exact Nat.le_refl 0
  | option _ ih => exact ih
  | box _ ih => exact ih
  | @list element items _ ih =>
      apply Nat.add_le_add_right
      rw [Node.itemNesting_le_iff]
      rintro _ hmem
      obtain ⟨item, hitem, rfl⟩ := List.mem_map.mp hmem
      exact (ih item hitem).trans (nesting_le_of_item (List.mem_map_of_mem hitem))
  | @map kind element members hnodup _ ih =>
      apply Nat.add_le_add_right
      rw [Node.fieldNesting_le_iff]
      rintro _ hmem
      obtain ⟨member, hmember, rfl⟩ := List.mem_map.mp hmem
      have hkeys : (Entries.keys (members.map Member.entry)).Nodup := by
        rw [Entries.keys, List.map_map]
        exact hnodup
      have hentry := Entries.mem_ofList kind hkeys (List.mem_map_of_mem hmember)
      exact (ih member hmember).trans (nesting_le_of_entry hentry)
  | @object id members _ hdeclared _ ih =>
      apply Nat.add_le_add_right
      rw [Node.fieldNesting_le_iff]
      rintro _ hmem
      obtain ⟨member, hmember, rfl⟩ := List.mem_map.mp hmem
      obtain ⟨type, htype⟩ := hdeclared member hmember
      have hcall : Member.call member ∈ members.map Member.call := List.mem_map_of_mem hmember
      exact (ih member hmember type htype).trans (nesting_le_of_call hcall)

end Nesting

end Bound

theorem ScalarType.Takes.written {type : ScalarType} {scalar : Scalar} (h : type.Takes scalar) :
    ∃ kind token, scalar.WrittenAs kind token := by
  cases h with
  | string text => exact ⟨_, _, .string text⟩
  | int hvalue => exact ⟨_, _, .integer hvalue⟩
  | long hvalue => exact ⟨_, _, .long hvalue⟩
  | bool value =>
      cases value with
      | true => exact ⟨_, _, .yes⟩
      | false => exact ⟨_, _, .no⟩
  | @duration period hperiod =>
      by_cases hamounts : period.amounts = []
      · rw [Period.eq_zero_of_amounts_eq_nil hamounts]
        exact ⟨_, _, .noTime⟩
      · obtain ⟨text, htext⟩ := Period.exists_writesAmounts hamounts
        exact ⟨_, _, .duration hperiod htext⟩

namespace Bound

variable {table : Declarations} {type : Ty} {value : Bound}

/-- What can be chosen for each element of a list can be chosen for all of them. -/
theorem exists_map_eq {α β : Type} {f : β → α} {good : β → Prop} {xs : List α}
    (h : ∀ x ∈ xs, ∃ y, f y = x ∧ good y) : ∃ ys : List β, ys.map f = xs ∧ ∀ y ∈ ys, good y := by
  induction xs with
  | nil => exact ⟨[], rfl, List.forall_mem_nil _⟩
  | cons x rest ih =>
      obtain ⟨⟨y, rfl, hy⟩, hrest⟩ := List.forall_mem_cons.mp h
      obtain ⟨ys, rfl, hys⟩ := ih hrest
      exact ⟨y :: ys, rfl, List.forall_mem_cons.mpr ⟨hy, hys⟩⟩

theorem exists_written_list {element : Ty} {items : List Bound}
    (h : ∀ item ∈ items, ∃ tree, WrittenAs table element item tree) :
    ∃ tree, WrittenAs table (.list element) (.list items) tree := by
  have hpairs : ∀ item ∈ items, ∃ pair : Bound × Node, pair.1 = item ∧
      WrittenAs table element pair.1 pair.2 := by
    intro item hitem
    obtain ⟨tree, htree⟩ := h item hitem
    exact ⟨(item, tree), rfl, htree⟩
  obtain ⟨pairs, rfl, hwritten⟩ := exists_map_eq hpairs
  exact ⟨_, .list hwritten⟩

/-- Entries as they are kept have names of their own, so that they can be written in the order in
which they are kept. -/
theorem exists_written_map {kind : MapKind} {element : Ty} {entries : List (String × Bound)}
    (hkept : Entries.ofList kind entries = entries)
    (h : ∀ entry ∈ entries, ∃ tree, WrittenAs table element entry.2 tree) :
    ∃ tree, WrittenAs table (.map kind element) (.map entries) tree := by
  have hmembers : ∀ entry ∈ entries, ∃ member : Member, member.entry = entry ∧
      WrittenAs table element member.value member.tree := by
    intro entry hentry
    obtain ⟨tree, htree⟩ := h entry hentry
    exact ⟨⟨entry.1, entry.2, tree⟩, rfl, htree⟩
  obtain ⟨members, rfl, hwritten⟩ := exists_map_eq hmembers
  have hnodup : (members.map Member.name).Nodup := by
    have hkeys := Entries.keys_ofList_nodup kind (members.map Member.entry)
    rw [hkept, Entries.keys, List.map_map] at hkeys
    exact hkeys
  have hmap : WrittenAs table (.map kind element) _ _ := .map hnodup hwritten
  rw [hkept] at hmap
  exact ⟨_, hmap⟩

theorem exists_written_object {id : Nat} {calls : List (Call Bound)}
    (hplain : (table.object id).IsPlain)
    (h : ∀ call ∈ calls, ∃ name value type, call = .field name value ∧
      (table.object id).declared? name = some type ∧ ∃ tree, WrittenAs table type value tree) :
    ∃ tree, WrittenAs table (.object id) (.object id calls) tree := by
  have hmembers : ∀ call ∈ calls, ∃ member : Member, member.call = call ∧
      ∃ type, (table.object id).declared? member.name = some type ∧
        WrittenAs table type member.value member.tree := by
    intro call hcall
    obtain ⟨name, value, type, rfl, htype, tree, htree⟩ := h call hcall
    exact ⟨⟨name, value, tree⟩, rfl, type, htype, htree⟩
  obtain ⟨members, rfl, hwritten⟩ := exists_map_eq hmembers
  refine ⟨_, .object hplain ?_ ?_⟩
  · intro member hmember
    obtain ⟨type, htype, -⟩ := hwritten member hmember
    exact ⟨type, htype⟩
  · intro member hmember type htype
    obtain ⟨other, hother, htree⟩ := hwritten member hmember
    cases Option.some.inj (htype.symm.trans hother)
    exact htree

/-- Every value of a type can be written. -/
theorem HasType.written (h : HasType table type value) :
    ∃ tree, WrittenAs table type value tree := by
  induction h with
  | scalar htakes =>
      obtain ⟨kind, token, htoken⟩ := htakes.written
      exact ⟨_, .scalar htakes htoken⟩
  | option _ ih =>
      obtain ⟨tree, htree⟩ := ih
      exact ⟨tree, .option htree⟩
  | box _ ih =>
      obtain ⟨tree, htree⟩ := ih
      exact ⟨tree, .box htree⟩
  | list _ ih => exact exists_written_list ih
  | map hkept _ ih => exact exists_written_map hkept ih
  | object hplain hdeclared _ ih =>
      apply exists_written_object hplain
      intro call hcall
      obtain ⟨name, value, type, rfl, htype⟩ := hdeclared call hcall
      exact ⟨name, value, type, rfl, htype, ih name value type hcall htype⟩

/-- Only values of a type are written. -/
theorem WrittenAs.hasType {tree : Node} (h : WrittenAs table type value tree) :
    HasType table type value := by
  induction h with
  | scalar htakes _ => exact .scalar htakes
  | option _ ih => exact .option ih
  | box _ ih => exact .box ih
  | list _ ih =>
      apply HasType.list
      intro item hitem
      obtain ⟨pair, hpair, rfl⟩ := List.mem_map.mp hitem
      exact ih pair hpair
  | @map kind element members _ _ ih =>
      apply HasType.map (Entries.ofList_ofList kind _)
      intro entry hentry
      obtain ⟨member, hmember, rfl⟩ := List.mem_map.mp (Entries.mem_of_mem_ofList kind hentry)
      exact ih member hmember
  | @object id members hplain hdeclared _ ih =>
      apply HasType.object hplain
      · intro call hcall
        obtain ⟨member, hmember, rfl⟩ := List.mem_map.mp hcall
        obtain ⟨type, htype⟩ := hdeclared member hmember
        exact ⟨member.name, member.value, type, rfl, htype⟩
      · intro name value type hcall htype
        obtain ⟨member, hmember, hsame⟩ := List.mem_map.mp hcall
        cases hsame
        exact ih member hmember type htype

end Bound

end TypedConfig
