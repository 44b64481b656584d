import TypedConfig.Binding.Direct
import TypedConfig.Proofs.Entries

/-!
Converting values under way: wrappers are put on at the end, and elements that were converted when
they were taken come through the conversion of their container unchanged.
-/

namespace TypedConfig

namespace Ty

variable (table : Declarations)

/-- Wrappers take what the type inside them takes, and wrap it. -/
theorem convert_core (type : Ty) (value : Value) :
    type.convert table value = (type.core.convert table value).map type.wrap := by
  have hself : ∀ result : Except Mismatch Bound, result = result.map id := by
    rintro (_ | _) <;> rfl
  induction type with
  | scalar _ => exact hself _
  | list _ => exact hself _
  | map _ _ => exact hself _
  | object _ => exact hself _
  | option inner ih =>
      rw [convert, ih, core]
      cases inner.core.convert table value <;> rfl
  | box inner ih =>
      rw [convert, ih, core]
      cases inner.core.convert table value <;> rfl

/-- A converted element of a container. -/
def sealElement (type : Ty) (content : Bound) : Value :=
  .sealed (type.name table) type content

theorem elements_sealed (type : Ty) (contents : List Bound) :
    elements (element type (type.convert table)) (contents.map (type.sealElement table))
      = .ok contents := by
  induction contents with
  | nil => rfl
  | cons content rest ih =>
      rw [List.map_cons, elements, ih]
      simp only [element, sealElement, ↓reduceIte]
      rfl

theorem entries_sealed (type : Ty) (contents : List (String × Bound)) :
    entries (element type (type.convert table))
        (contents.map fun entry => (entry.1, type.sealElement table entry.2)) = .ok contents := by
  induction contents with
  | nil => rfl
  | cons entry rest ih =>
      rw [List.map_cons, entries, ih]
      simp only [element, sealElement, ↓reduceIte]
      rfl

/-- A list whose elements were converted one by one is a value of its type. -/
theorem convert_list_sealed (type : Ty) (contents : List Bound) :
    (Ty.list type).convert table (.list (contents.map (type.sealElement table)))
      = .ok (.list contents) := by
  rw [convert, elements_sealed]
  rfl

/-- A map whose entries were converted one by one, and put into it by insertion, is a value of its
type: the entries listed in the order of the kind of the map. -/
theorem convert_map_sealed (kind : MapKind) (type : Ty) (contents : List (String × Bound)) :
    (Ty.map kind type).convert table (.map (Entries.ofList .insertion
        (contents.map fun entry => (entry.1, type.sealElement table entry.2))))
      = .ok (.map (Entries.ofList kind contents)) := by
  rw [convert, Entries.ofList_insertion_map, entries_sealed]
  simp only [Except.map]
  rw [Entries.ofList_ofList_insertion]

end Ty

/-!
Elements may be converted before their container.  Converting them one by one as they are taken, and
then the container of what they became, gives the same value or the same mismatch as converting the
container of what they were.
-/

/-- A value under way that is an instance of exactly some type. -/
def Value.IsSealedAs (type : Ty) : Value → Prop
  | .sealed _ other _ => other = type
  | _ => False

namespace Ty

variable {table : Declarations} {type : Ty}

/-- An instance of an object type is taken as it is, as an element and as a value alike. -/
theorem element_eq_convert {value : Value} (h : value.IsSealedAs type → ∃ id, type = .object id) :
    element type (type.convert table) value = type.convert table value := by
  cases value with
  | scalar _ => rfl
  | list _ => rfl
  | map _ => rfl
  | sealed name other content =>
      by_cases hother : other = type
      · obtain ⟨id, rfl⟩ := h hother
        simp [element, convert, hother]
      · simp [element, hother]

/-- Converting elements ahead of their list finds what converting the list finds of them, up to the
first mismatch. -/
theorem mapM_convertSealed {items : List Value}
    (h : ∀ item ∈ items, item.IsSealedAs type → ∃ id, type = .object id) :
    items.mapM (type.convertSealed table)
      = (elements (element type (type.convert table)) items).map
        (List.map (type.sealElement table)) := by
  induction items with
  | nil => rfl
  | cons item rest ih =>
      obtain ⟨hitem, hrest⟩ := List.forall_mem_cons.mp h
      rw [List.mapM_cons, elements, element_eq_convert hitem, convertSealed, ih hrest]
      cases type.convert table item with
      | error mismatch => rfl
      | ok content => cases elements (element type (type.convert table)) rest <;> rfl

/-- Converts the value of an entry ahead of its map. -/
def convertEntry (table : Declarations) (type : Ty) (entry : String × Value) :
    Except Mismatch (String × Value) :=
  (type.convertSealed table entry.2).map (entry.1, ·)

/-- Converting entries ahead of their map finds what converting the map finds of them, up to the
first mismatch. -/
theorem mapM_convertEntry {members : List (String × Value)}
    (h : ∀ entry ∈ members, entry.2.IsSealedAs type → ∃ id, type = .object id) :
    members.mapM (type.convertEntry table)
      = (entries (element type (type.convert table)) members).map
        (List.map fun entry => (entry.1, type.sealElement table entry.2)) := by
  induction members with
  | nil => rfl
  | cons entry rest ih =>
      obtain ⟨hentry, hrest⟩ := List.forall_mem_cons.mp h
      rw [List.mapM_cons, entries, element_eq_convert hentry, convertEntry, convertSealed, ih hrest]
      cases type.convert table entry.2 with
      | error mismatch => rfl
      | ok content => cases entries (element type (type.convert table)) rest <;> rfl

/-- Converting elements when they are taken, up to the first mismatch, and then the list or the map
of any kind that they were put into, gives the same value or the same mismatch as converting the
list or the map of the elements as they were.  Only instances of exactly the element type are taken
without being converted, so no element may be one unless the element type is an object type. -/
theorem convert_eager (table : Declarations) (type : Ty) :
    (∀ items, (∀ item ∈ items, item.IsSealedAs type → ∃ id, type = .object id) →
      (items.mapM (type.convertSealed table) >>= fun made => (Ty.list type).convert table (.list made))
        = (Ty.list type).convert table (.list items)) ∧
    ∀ kind members, (∀ entry ∈ members, entry.2.IsSealedAs type → ∃ id, type = .object id) →
      (members.mapM (type.convertEntry table) >>= fun made =>
          (Ty.map kind type).convert table (.ofEntries made))
        = (Ty.map kind type).convert table (.map members) := by
  constructor
  · intro items h
    rw [mapM_convertSealed h, convert]
    cases elements (element type (type.convert table)) items with
    | error mismatch => rfl
    | ok contents => exact convert_list_sealed table type contents
  · intro kind members h
    rw [mapM_convertEntry h, convert]
    cases entries (element type (type.convert table)) members with
    | error mismatch => rfl
    | ok contents => exact convert_map_sealed table kind type contents

end Ty

def gearTable : Declarations := ⟨[⟨"Gear", none, [⟨"teeth", .scalar .int, false⟩], 0, []⟩]⟩

/-- A gear that was converted already, and what is none. -/
def gears : List Value :=
  [.sealed "Gear" (.object 0) (.object 0 [.field "teeth" (.scalar (.integer 12))]),
    .scalar (.boolean true)]

/-- Lists of ratios, some of which were converted already. -/
def ratios : List (String × Value) :=
  [("low", .list [.scalar (.integer 3), .sealed "Long" (.scalar .long) (.scalar (.long 4))]),
    ("high", .list [])]

theorem gears_eager :
    (∀ item ∈ gears, item.IsSealedAs (.object 0) → ∃ id, Ty.object 0 = .object id) ∧
    (gears.mapM ((Ty.object 0).convertSealed gearTable) >>= fun made =>
        (Ty.list (.object 0)).convert gearTable (.list made)) = .error ⟨"Boolean", "Gear"⟩ ∧
    (∀ entry ∈ ratios, entry.2.IsSealedAs (.option (.list (.scalar .long))) →
      ∃ id, Ty.option (.list (.scalar .long)) = .object id) ∧
    (ratios.mapM ((Ty.option (.list (.scalar .long))).convertEntry gearTable) >>= fun made =>
        (Ty.map .sorted (.option (.list (.scalar .long)))).convert gearTable (.ofEntries made))
      = .ok (.map [("high", .present (.list [])),
          ("low", .present (.list [.scalar (.long 3), .scalar (.long 4)]))]) := by
  have hgears : ∀ item ∈ gears, item.IsSealedAs (.object 0) → ∃ id, Ty.object 0 = .object id :=
    fun _ _ _ => ⟨0, rfl⟩
  have hratios : ∀ entry ∈ ratios, entry.2.IsSealedAs (.option (.list (.scalar .long))) →
      ∃ id, Ty.option (.list (.scalar .long)) = .object id :=
    List.forall_mem_cons.mpr ⟨nofun, List.forall_mem_singleton.mpr nofun⟩
  exact ⟨hgears, (Ty.convert_eager gearTable (.object 0)).1 gears hgears, hratios,
    (Ty.convert_eager gearTable (.option (.list (.scalar .long)))).2 .sorted ratios hratios⟩

end TypedConfig
