import TypedConfig.Proofs.Conversion
import TypedConfig.Proofs.Derivation

/-!
The walk along a schema gives what the direct recursion over the tree and the type gives.  Visiting
a node where a descriptor of a type is expected leaves the stacks as they were, and what it answers
converts to the direct result; an error of the walk is the error of the direct recursion.
-/

namespace TypedConfig

namespace Steps

variable {σ ε α β : Type}

theorem bind_apply (step : StateT σ (Except ε) α) (next : α → StateT σ (Except ε) β) (state : σ) :
    (step >>= next) state = (step state).bind fun result => next result.1 result.2 := rfl

theorem pure_apply (x : α) (state : σ) :
    (pure x : StateT σ (Except ε) α) state = .ok (x, state) := rfl

end Steps

namespace Walk

open Steps (bind_apply pure_apply)

variable {α : Type} {schema : Schema}

theorem liftM_apply (given : Except ConfigError α) (state : Stacks) :
    (liftM given : Walk α) state = given.bind fun value => .ok (value, state) := rfl

theorem expect_apply (id : DescriptorId) (state : Stacks) :
    expect id state = .ok ((), ⟨id :: state.expected, state.containers⟩) := rfl

theorem current_apply (id : DescriptorId) (expected : List DescriptorId) (containers : List Value) :
    current schema ⟨id :: expected, containers⟩
      = .ok (schema.descriptor id, ⟨id :: expected, containers⟩) := rfl

/-- How visiting a node goes along with a direct result: it fails with the same error; or it changes
no stack, and what was found converts to the type at its place as the direct result says.  Only what
a literal stands for is ever refused. -/
inductive Agrees (table : Declarations) (type : Ty) (state : Stacks) :
    Node → Except ConfigError (Value × Stacks) → Except ConfigError Bound → Prop
  | failed {node : Node} (error : ConfigError) :
      Agrees table type state node (.error error) (.error error)
  | refused {leaf : Literal} {value : Value} {mismatch : Mismatch}
      (h : type.convert table value = .error mismatch) :
      Agrees table type state (.literal leaf) (.ok (value, state))
        (.error (mismatch.toError leaf.span))
  | converted {node : Node} {value : Value} {content : Bound}
      (h : type.convert table value = .ok content) :
      Agrees table type state node (.ok (value, state)) (.ok content)

/-- Visiting a node agrees with binding it directly, wherever a descriptor of a type is expected. -/
def VisitAgrees (schema : Schema) (node : Node) : Prop :=
  ∀ (type : Ty) (id : DescriptorId) (key : Option String) (expected : List DescriptorId)
    (containers : List Value), schema.Describes id type →
      Agrees schema.table type ⟨id :: expected, containers⟩ node
        (visit schema key node ⟨id :: expected, containers⟩) (Direct.node schema.table type key node)

theorem visitItems_eq {element : Ty} {id : DescriptorId} (helement : schema.Describes id element)
    {items : List Node} (hitems : ∀ item ∈ items, VisitAgrees schema item)
    (expected : List DescriptorId) (done : List Value) (containers : List Value) :
    visitItems schema element items ⟨id :: expected, .list done :: containers⟩
      = (Direct.items schema.table element items).map fun contents =>
        ((), ⟨id :: expected,
          .list (done ++ contents.map (element.sealElement schema.table)) :: containers⟩) := by
  induction items generalizing done with
  | nil =>
      rw [visitItems, Direct.items, pure_apply]
      simp [Except.map]
  | cons item rest ih =>
      obtain ⟨hitem, hrest⟩ := List.forall_mem_cons.mp hitems
      have hagrees := hitem element id none expected (.list done :: containers) helement
      rw [visitItems, Direct.items, bind_apply]
      generalize visit schema none item ⟨id :: expected, .list done :: containers⟩ = visited
        at hagrees ⊢
      generalize Direct.node schema.table element none item = direct at hagrees ⊢
      cases hagrees with
      | failed error => rfl
      | refused h =>
          simp only [Except.bind, bind_apply, Ty.convertSealed, h]
          rfl
      | @converted _ value content h =>
          simp only [Except.bind, bind_apply, Ty.convertSealed, h]
          have happend := ih hrest (done ++ [element.sealElement schema.table content])
          refine happend.trans ?_
          cases Direct.items schema.table element rest with
          | error error => rfl
          | ok contents => simp [Except.map, bind, Except.bind, pure, Except.pure]

theorem visitEntries_eq {element : Ty} {id : DescriptorId} (helement : schema.Describes id element)
    {fields : List (Field Node)} (hfields : ∀ field ∈ fields, VisitAgrees schema field.value)
    (expected : List DescriptorId) (done : List (String × Value)) (containers : List Value) :
    visitEntries schema element id fields ⟨expected, .map done :: containers⟩
      = (Direct.entries schema.table element fields).map fun contents =>
        ((), ⟨expected, .map ((contents.map fun entry =>
          (entry.1, element.sealElement schema.table entry.2)).foldl
            (fun entries entry => Entries.put entry.1 entry.2 entries) done) :: containers⟩) := by
  induction fields generalizing done with
  | nil =>
      rw [visitEntries, Direct.entries, pure_apply]
      simp [Except.map]
  | cons field rest ih =>
      obtain ⟨name, node, span⟩ := field
      obtain ⟨hnode, hrest⟩ := List.forall_mem_cons.mp hfields
      have hagrees := hnode element id (some name.name) expected (.map done :: containers) helement
      rw [visitEntries, Direct.entries, bind_apply]
      simp only [expect_apply, Except.bind, bind_apply]
      generalize visit schema (some name.name) node ⟨id :: expected, .map done :: containers⟩
        = visited at hagrees ⊢
      generalize Direct.node schema.table element (some name.name) node = direct at hagrees ⊢
      cases hagrees with
      | failed error => rfl
      | refused h =>
          simp only [Ty.convertSealed, h]
          rfl
      | @converted _ value content h =>
          simp only [Ty.convertSealed, h]
          have hput := ih hrest
            (Entries.put name.name (element.sealElement schema.table content) done)
          refine hput.trans ?_
          cases Direct.entries schema.table element rest with
          | error error => rfl
          | ok contents => simp [Except.map, bind, Except.bind, pure, Except.pure]

/-- Related lists answer a search with related elements. -/
theorem find?_rel {relation : α → β → Prop} {p : α → Bool} {q : β → Bool}
    (hpq : ∀ x y, relation x y → p x = q y) {xs : List α} {ys : List β}
    (h : List.Forall₂ relation xs ys) : Option.Rel relation (xs.find? p) (ys.find? q) := by
  induction h with
  | nil => exact .none
  | @cons x y xs ys hxy hrest ih =>
      rw [List.find?_cons, List.find?_cons, hpq x y hxy]
      cases q y with
      | true => exact .some hxy
      | false => exact ih

/-- A shape resolves a name as its object type accepts it. -/
theorem resolve_eq {shape : ObjectShape} (hshape : shape.Faithful schema.table schema.Describes)
    (name : Identifier) :
    match (schema.table.object shape.object).accepts? schema.table name.name with
    | some acceptance => ∃ entry,
        resolve shape name = pure (entry, fun value => acceptance.call name.name value) ∧
          entry.type = acceptance.type ∧ schema.Describes entry.descriptor acceptance.type
    | none => resolve shape name = throw (.unknownField name.name
        ((schema.table.object shape.object).acceptedNames schema.table) name.span.position) := by
  have hfield : Option.Rel (Entry.OfField schema.Describes)
      ((schema.table.object shape.object).fields.find? fun slot => slot.name == name.name)
      (shape.field? name.name) :=
    find?_rel (fun slot entry h => by rw [h.1]) hshape.fields
  have hextension : Option.Rel (Entry.OfExtension schema.table schema.Describes)
      ((schema.table.object shape.object).extensions.find? fun type =>
        ObjectType.extensionNameOf? schema.table type == some name.name)
      (shape.extension? name.name) := by
    refine find?_rel (fun type entry h => ?_) hshape.extensions
    rw [h.2.1]
    rfl
  have hfieldName : ∀ entry, shape.field? name.name = some entry → entry.name = name.name :=
    fun entry h => by simpa using List.find?_some h
  have hextensionName : ∀ entry, shape.extension? name.name = some entry → entry.name = name.name :=
    fun entry h => by simpa using List.find?_some h
  unfold ObjectType.accepts? resolve
  generalize (schema.table.object shape.object).fields.find? _ = slot at hfield ⊢
  generalize shape.field? name.name = entry at hfield hfieldName ⊢
  cases hfield with
  | @some slot entry h =>
      refine ⟨entry, ?_, h.2⟩
      simp only [hfieldName entry rfl]
      rfl
  | none =>
      generalize (schema.table.object shape.object).extensions.find? _ = type at hextension ⊢
      generalize shape.extension? name.name = entry at hextension hextensionName ⊢
      cases hextension with
      | @some type entry h =>
          refine ⟨entry, ?_, h.1, h.2.2⟩
          simp only [hextensionName entry rfl]
          rfl
      | none =>
          simp only [Option.map_none, hshape.acceptedNames_eq]

/-- A name that is resolved leads to a descriptor of the type of its entry. -/
theorem resolve_describes {shape : ObjectShape}
    (hshape : shape.Faithful schema.table schema.Describes) {name : Identifier} {entry : Entry}
    {made : Bound → Call Bound} {state later : Stacks}
    (h : resolve shape name state = .ok ((entry, made), later)) :
    schema.Describes entry.descriptor entry.type ∧ later = state := by
  have hresolve := resolve_eq hshape name
  cases haccepts : (schema.table.object shape.object).accepts? schema.table name.name with
  | none =>
      rw [haccepts] at hresolve
      rw [hresolve] at h
      cases h
  | some acceptance =>
      rw [haccepts] at hresolve
      obtain ⟨found, hfound, htype, hdescribes⟩ := hresolve
      rw [hfound] at h
      cases h
      exact ⟨htype ▸ hdescribes, rfl⟩

theorem visitFields_eq {shape : ObjectShape}
    (hshape : shape.Faithful schema.table schema.Describes) {fields : List (Field Node)}
    (hfields : ∀ field ∈ fields, VisitAgrees schema field.value) (expected : List DescriptorId)
    (typeName : String) (type : Ty) (id : Nat) (calls : List (Call Bound))
    (containers : List Value) :
    visitFields schema shape fields
        ⟨expected, .sealed typeName type (.object id calls) :: containers⟩
      = (Direct.fields schema.table (schema.table.object shape.object) fields).map fun made =>
        ((), ⟨expected, .sealed typeName type (.object id (calls ++ made)) :: containers⟩) := by
  induction fields generalizing calls with
  | nil =>
      rw [visitFields, Direct.fields, pure_apply]
      simp [Except.map]
  | cons field rest ih =>
      obtain ⟨name, node, span⟩ := field
      obtain ⟨hnode, hrest⟩ := List.forall_mem_cons.mp hfields
      have hresolve := resolve_eq hshape name
      rw [visitFields, Direct.fields, bind_apply]
      cases haccepts : (schema.table.object shape.object).accepts? schema.table name.name with
      | none =>
          rw [haccepts] at hresolve
          rw [hresolve]
          rfl
      | some acceptance =>
          rw [haccepts] at hresolve
          obtain ⟨entry, hentry, htype, hdescribes⟩ := hresolve
          have hagrees := hnode acceptance.type entry.descriptor (some name.name) expected
            (.sealed typeName type (.object id calls) :: containers) hdescribes
          rw [hentry]
          simp only [pure_apply, expect_apply, Except.bind, bind_apply, htype]
          generalize visit schema (some name.name) node _ = visited at hagrees ⊢
          generalize Direct.node schema.table acceptance.type (some name.name) node = direct
            at hagrees ⊢
          cases hagrees with
          | failed error => rfl
          | refused h =>
              simp only [h]
              rfl
          | @converted _ value content h =>
              simp only [h]
              have hcall := ih hrest (calls ++ [acceptance.call name.name content])
              refine hcall.trans ?_
              cases Direct.fields schema.table (schema.table.object shape.object) rest with
              | error error => rfl
              | ok made => simp [Except.map, bind, Except.bind, pure, Except.pure]

theorem descriptor_eq {id : DescriptorId} {descriptor : Descriptor}
    (h : schema.descriptors[id]? = some descriptor) : schema.descriptor id = descriptor := by
  simp [Schema.descriptor, Array.getD_eq_getD_getElem?, h]

theorem describe_eq {table : Declarations} {type : Ty} {descriptor : Descriptor}
    (h : descriptor.Fits table type) : descriptor.describe table = type.describe table := by
  unfold Descriptor.Fits at h
  unfold Descriptor.describe Ty.describe
  split at h
  · rename_i scalar hcore
    subst h
    simp [hcore, Descriptor.type]
  · rename_i element hcore
    obtain ⟨below, rfl⟩ := h
    simp [hcore, Descriptor.type]
  · rename_i kind element hcore
    obtain ⟨below, rfl⟩ := h
    simp [hcore, Descriptor.type]
  · rename_i id hcore
    have hname : (Ty.object id).name table = type.name table := by rw [← hcore, Ty.name_core]
    split at h
    · rename_i hempty
      subst h
      simp [hcore, Descriptor.type, hempty, hname]
    · rename_i hfull
      obtain ⟨shape, rfl, rfl⟩ := h
      simp [hcore, Descriptor.type, hfull, hname]
  · exact h.elim

theorem convert_scalar (table : Declarations) (type : Ty) (given : Scalar) :
    type.convert table (.scalar given) =
      match type.core with
      | .scalar scalar =>
        match scalar.accept? given with
        | some made => .ok (type.wrap (.scalar made))
        | none => .error ⟨given.typeName, type.name table⟩
      | _ => .error ⟨given.typeName, type.name table⟩ := by
  induction type with
  | scalar scalar =>
      simp only [Ty.convert, Ty.core, Ty.wrap]
      rfl
  | list element => rfl
  | map kind element => rfl
  | object id => rfl
  | option inner ih =>
      rw [Ty.convert, ih, Ty.core, Ty.name]
      split
      · split <;> rfl
      · rfl
  | box inner ih =>
      rw [Ty.convert, ih, Ty.core, Ty.name]
      split
      · split <;> rfl
      · rfl

theorem visit_literal (leaf : Literal) : VisitAgrees schema (.literal leaf) := by
  intro type id key expected containers hdescribes
  rw [visit, Direct.node, Direct.literal, bind_apply]
  cases hvalue : leaf.value with
  | error error => exact .failed error
  | ok given =>
      have hconvert := convert_scalar schema.table type given
      simp only [liftM_apply, pure_apply, bind, Except.bind]
      split
      · rename_i scalar hcore
        rw [hcore] at hconvert
        simp only at hconvert ⊢
        split
        · rename_i made hmade
          rw [hmade] at hconvert
          exact .converted hconvert
        · rename_i hrefused
          rw [hrefused] at hconvert
          exact .refused hconvert
      · rename_i hcore
        have hrefused : type.convert schema.table (.scalar given)
            = .error ⟨given.typeName, type.name schema.table⟩ := by
          rw [hconvert]
          cases hother : type.core with
          | scalar scalar => exact absurd hother (hcore scalar)
          | _ => rfl
        exact .refused hrefused

/-- Filling a list of a type with items agrees with binding the items directly. -/
theorem items_agree {type element : Ty} {below : DescriptorId} {items : List Node}
    (hcore : type.core = .list element) (helement : schema.Describes below element)
    (hitems : ∀ item ∈ items, VisitAgrees schema item) (span : Span) (expected : List DescriptorId)
    (containers : List Value) :
    Agrees schema.table type ⟨expected, containers⟩ (.array items span)
      ((visitItems schema element items >>= fun _ => unexpect >>= fun _ => closeContainer span)
        ⟨below :: expected, .list [] :: containers⟩)
      (Direct.items schema.table element items >>= fun bound =>
        pure (type.wrap (.list bound))) := by
  rw [bind_apply, visitItems_eq helement hitems expected [] containers]
  cases Direct.items schema.table element items with
  | error error => exact .failed error
  | ok contents =>
      refine .converted ?_
      rw [Ty.convert_core, hcore, List.nil_append, Ty.convert_list_sealed]
      rfl

/-- Filling a map of a type with entries agrees with binding the entries directly. -/
theorem entries_agree {type element : Ty} {kind : MapKind} {below : DescriptorId}
    {fields : List (Field Node)} (hcore : type.core = .map kind element)
    (helement : schema.Describes below element)
    (hfields : ∀ field ∈ fields, VisitAgrees schema field.value) (span : Span)
    (expected : List DescriptorId) (containers : List Value) :
    Agrees schema.table type ⟨expected, containers⟩ (.dictionary fields span)
      ((visitEntries schema element below fields >>= fun _ => closeContainer span)
        ⟨expected, .map [] :: containers⟩)
      (Direct.entries schema.table element fields >>= fun bound =>
        pure (type.wrap (.map (Entries.ofList kind bound)))) := by
  rw [bind_apply, visitEntries_eq helement hfields expected [] containers]
  cases Direct.entries schema.table element fields with
  | error error => exact .failed error
  | ok contents =>
      refine .converted ?_
      have hmap := Ty.convert_map_sealed schema.table kind element contents
      rw [Entries.ofList] at hmap
      rw [Ty.convert_core, hcore, hmap]
      rfl

theorem newObject_eq {shape : ObjectShape} (hshape : shape.Faithful schema.table schema.Describes)
    (key : Option String) :
    newObject schema.table shape key
      = .sealed (schema.table.object shape.object).name (.object shape.object)
        (.object shape.object (Direct.keyCalls (schema.table.object shape.object) key)) := by
  cases key with
  | none => rfl
  | some name => simp [newObject, Direct.keyCalls, hshape.hasKey]

/-- Setting the fields of a new object of a type agrees with binding the fields directly. -/
theorem fields_agree {type : Ty} {shape : ObjectShape} {fields : List (Field Node)}
    (hcore : type.core = .object shape.object)
    (hshape : shape.Faithful schema.table schema.Describes)
    (hfields : ∀ field ∈ fields, VisitAgrees schema field.value) (key : Option String) (span : Span)
    (expected : List DescriptorId) (containers : List Value) :
    Agrees schema.table type ⟨expected, containers⟩ (.dictionary fields span)
      ((visitFields schema shape fields >>= fun _ => closeContainer span)
        ⟨expected, newObject schema.table shape key :: containers⟩)
      (Direct.fields schema.table (schema.table.object shape.object) fields >>= fun made =>
        pure (type.wrap (.object shape.object
          (Direct.keyCalls (schema.table.object shape.object) key ++ made)))) := by
  rw [bind_apply, newObject_eq hshape, visitFields_eq hshape hfields]
  cases Direct.fields schema.table (schema.table.object shape.object) fields with
  | error error => exact .failed error
  | ok made =>
      refine .converted ?_
      rw [Ty.convert_core, hcore]
      simp only [Ty.convert, ↓reduceIte]
      rfl

theorem visit_array (hschema : schema.Faithful) {items : List Node} (span : Span)
    (hitems : ∀ item ∈ items, VisitAgrees schema item) :
    VisitAgrees schema (.array items span) := by
  intro type id key expected containers hdescribes
  obtain ⟨descriptor, hslot, hfits⟩ := hdescribes
  have hdescribe := describe_eq hfits
  rw [visit, Direct.node, bind_apply, openArray, bind_apply, current_apply, descriptor_eq hslot]
  unfold Descriptor.Fits at hfits
  split at hfits
  · rename_i scalar hcore
    subst hfits
    simp only [hcore, ← hdescribe]
    exact .failed _
  · rename_i element hcore
    obtain ⟨below, rfl⟩ := hfits
    have helement : schema.Describes below element := hschema id _ hslot
    simp only [Except.bind, hcore]
    exact items_agree hcore helement hitems span (id :: expected) containers
  · rename_i kind element hcore
    obtain ⟨below, rfl⟩ := hfits
    simp only [hcore, ← hdescribe]
    exact .failed _
  · rename_i object hcore
    split at hfits
    · subst hfits
      simp only [hcore, ← hdescribe]
      exact .failed _
    · obtain ⟨shape, rfl, hobject⟩ := hfits
      simp only [hcore, ← hdescribe]
      exact .failed _
  · exact hfits.elim

theorem visit_dictionary (hschema : schema.Faithful) {fields : List (Field Node)} (span : Span)
    (hfields : ∀ field ∈ fields, VisitAgrees schema field.value) :
    VisitAgrees schema (.dictionary fields span) := by
  intro type id key expected containers hdescribes
  obtain ⟨descriptor, hslot, hfits⟩ := hdescribes
  have hdescribe := describe_eq hfits
  rw [visit, Direct.node, bind_apply, openDictionary, bind_apply, current_apply,
    descriptor_eq hslot]
  unfold Descriptor.Fits at hfits
  split at hfits
  · rename_i scalar hcore
    subst hfits
    simp only [hcore, ← hdescribe]
    exact .failed _
  · rename_i element hcore
    obtain ⟨below, rfl⟩ := hfits
    simp only [hcore, ← hdescribe]
    exact .failed _
  · rename_i kind element hcore
    obtain ⟨below, rfl⟩ := hfits
    have helement : schema.Describes below element := hschema id _ hslot
    simp only [Except.bind, hcore]
    exact entries_agree hcore helement hfields span (id :: expected) containers
  · rename_i object hcore
    split at hfits
    · rename_i hempty
      subst hfits
      simp only [hcore, hempty, ← hdescribe]
      exact .failed _
    · rename_i hfull
      obtain ⟨shape, rfl, rfl⟩ := hfits
      have hshape : shape.Faithful schema.table schema.Describes := hschema id _ hslot
      simp only [Except.bind, hcore, hfull]
      exact fields_agree hcore hshape hfields key span (id :: expected) containers
  · exact hfits.elim

/-- Wherever a descriptor of a type is expected, visiting a node agrees with binding it directly. -/
theorem visit_agrees (hschema : schema.Faithful) (node : Node) : VisitAgrees schema node := by
  induction node with
  | dictionary fields span ih => exact visit_dictionary hschema span ih
  | array items span ih => exact visit_array hschema span ih
  | literal leaf => exact visit_literal leaf

/-- What a walk finds converts to the direct result, and the error of a refused conversion stands at
the span of the node. -/
theorem Agrees.convert {table : Declarations} {type : Ty} {state : Stacks} {node : Node}
    {visited : Except ConfigError (Value × Stacks)} {direct : Except ConfigError Bound}
    (h : Agrees table type state node visited direct) :
    ((visited.map Prod.fst).bind fun value =>
      (type.convert table value).mapError fun mismatch => mismatch.toError node.span) = direct := by
  cases h with
  | failed error => rfl
  | refused h =>
      simp only [Except.map, Except.bind, h]
      rfl
  | converted h =>
      simp only [Except.map, Except.bind, h]
      rfl

end Walk

/-- A document is bound along the schema of a type as its root is bound to the type. -/
theorem Document.bind_eq_node {table : Declarations} {root : Ty} {schema : Schema}
    (h : Schema.derive table root = .ok schema) (document : Document) :
    document.bind schema root = Direct.node table root none document.root := by
  obtain ⟨rfl, hfaithful, hroot⟩ := Schema.derive_faithful h
  exact (Walk.visit_agrees hfaithful document.root root schema.root none [] [] hroot).convert

/-- Binding a document along the schema of a type is binding it to the type directly, for every
table of object types, every type that has a schema and every document: the same value or the same
error. -/
theorem Document.bind_eq_bindDirect {table : Declarations} {root : Ty} {schema : Schema}
    (h : Schema.derive table root = .ok schema) (document : Document) :
    document.bind schema root = document.bindDirect table root := by
  obtain ⟨rfl, hfaithful, hroot⟩ := Schema.derive_faithful h
  have hagrees := Walk.visit_agrees hfaithful document.root root schema.root none [] [] hroot
  unfold Document.bind Document.bindValue Document.bindDirect
  generalize Walk.visit schema none document.root ⟨[schema.root], []⟩ = visited at hagrees ⊢
  generalize Direct.node schema.table root none document.root = direct at hagrees ⊢
  cases hagrees with
  | failed error => rfl
  | @converted _ value content h =>
      change (root.convert schema.table value).mapError _ = _
      rw [h]
      rfl

/-- A type that contains itself as a wrapped field, in a list, in a map and as an extension, and
that asks for its key. -/
def selfContaining : Declarations :=
  ⟨[⟨"Node", some "node",
    [⟨"child", .option (.box (.object 0)), false⟩, ⟨"children", .list (.object 0), true⟩,
      ⟨"table", .map .insertion (.object 0), true⟩], 1, [.object 0]⟩]⟩

/-- A document whose dictionaries stand for instances of `selfContaining` in all of its places. -/
def selfContainingDocument : Document :=
  let span : Span := ⟨0, 0, 1, 1⟩
  let inner : Node := .dictionary [] span
  ⟨[⟨⟨"child", span⟩, inner, span⟩, ⟨⟨"children", span⟩, .array [inner, inner] span, span⟩,
    ⟨⟨"table", span⟩,
      .dictionary [⟨⟨"a", span⟩, inner, span⟩, ⟨⟨"a", span⟩, inner, span⟩] span, span⟩,
    ⟨⟨"node", span⟩, inner, span⟩], span⟩

theorem selfContaining_bind : ∃ schema,
    Schema.derive selfContaining (.option (.object 0)) = .ok schema ∧
      selfContainingDocument.bind schema (.option (.object 0))
        = selfContainingDocument.bindDirect selfContaining (.option (.object 0)) ∧
      selfContainingDocument.bindDirect selfContaining (.option (.object 0))
        = .ok (.present (.object 0
          [.field "child" (.present (.boxed (.object 0 [.key "child"]))),
            .field "children" (.list [.object 0 [], .object 0 []]),
            .field "table" (.map [("a", .object 0 [.key "a"])]),
            .extension "node" (.object 0 [.key "node"])])) :=
  ⟨_, rfl, Document.bind_eq_bindDirect rfl selfContainingDocument, rfl⟩

end TypedConfig
