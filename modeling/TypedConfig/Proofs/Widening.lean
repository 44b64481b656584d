import TypedConfig.Proofs.Retyping.Loading
import TypedConfig.Proofs.Value.Loading

/-!
Integers may be widened.  When integers become longs in some places of the declarations or of the
root type, every document that could be loaded before still can, and its value differs only in that
the integers at these places are longs.
-/

namespace TypedConfig

/-- A type that is another one with longs in the places of some integers. -/
inductive Ty.Widens : Ty → Ty → Prop
  | scalar (type : ScalarType) : Widens (.scalar type) (.scalar type)
  | long : Widens (.scalar .int) (.scalar .long)
  | list {element wide : Ty} : Widens element wide → Widens (.list element) (.list wide)
  | map {kind : MapKind} {element wide : Ty} : Widens element wide →
      Widens (.map kind element) (.map kind wide)
  | option {inner wide : Ty} : Widens inner wide → Widens (.option inner) (.option wide)
  | box {inner wide : Ty} : Widens inner wide → Widens (.box inner) (.box wide)
  | object (id : Nat) : Widens (.object id) (.object id)

mutual

/-- A value of the second type has the structure of a value of the first one: the same calls,
entries and items in the same order, under the same names, and the same scalars; only that an
integer is the same number as a long wherever its type is widened. -/
inductive Bound.Widened (table wide : Declarations) : Ty → Ty → Bound → Bound → Prop
  | scalar {type : ScalarType} (value : Scalar) :
      Bound.Widened table wide (.scalar type) (.scalar type) (.scalar value) (.scalar value)
  | long {number : Int32} {long : Int64} : long.toInt = number.toInt →
      Bound.Widened table wide (.scalar .int) (.scalar .long) (.scalar (.integer number))
        (.scalar (.long long))
  | option {inner inner' : Ty} {value value' : Bound} :
      Bound.Widened table wide inner inner' value value' →
        Bound.Widened table wide (.option inner) (.option inner') (.present value) (.present value')
  | box {inner inner' : Ty} {value value' : Bound} :
      Bound.Widened table wide inner inner' value value' →
        Bound.Widened table wide (.box inner) (.box inner') (.boxed value) (.boxed value')
  | list {element element' : Ty} {items items' : List Bound} : items.length = items'.length →
      (∀ item item', (item, item') ∈ items.zip items' →
        Bound.Widened table wide element element' item item') →
          Bound.Widened table wide (.list element) (.list element') (.list items) (.list items')
  | map {kind : MapKind} {element element' : Ty} {entries entries' : List (String × Bound)} :
      Entries.keys entries = Entries.keys entries' →
        (∀ entry entry', (entry, entry') ∈ entries.zip entries' →
          Bound.Widened table wide element element' entry.2 entry'.2) →
            Bound.Widened table wide (.map kind element) (.map kind element') (.map entries)
              (.map entries')
  | object {id : Nat} {calls calls' : List (Call Bound)} : calls.length = calls'.length →
      (∀ call call', (call, call') ∈ calls.zip calls' → Call.Widened table wide id call call') →
        Bound.Widened table wide (.object id) (.object id) (.object id calls) (.object id calls')

/-- Two calls on instances of an object type: of the same kind and name, and with such values at the
types that the tables declare. -/
inductive Call.Widened (table wide : Declarations) : Nat → Call Bound → Call Bound → Prop
  | key {id : Nat} (name : String) : Call.Widened table wide id (.key name) (.key name)
  | field {id : Nat} {name : String} {type type' : Ty} {value value' : Bound} :
      (table.object id).accepts? table name = some (.field type) →
        (wide.object id).accepts? wide name = some (.field type') →
          Bound.Widened table wide type type' value value' →
            Call.Widened table wide id (.field name value) (.field name value')
  | extension {id : Nat} {name : String} {type type' : Ty} {value value' : Bound} :
      (table.object id).accepts? table name = some (.extension type) →
        (wide.object id).accepts? wide name = some (.extension type') →
          Bound.Widened table wide type type' value value' →
            Call.Widened table wide id (.extension name value) (.extension name value')

end

/-- Wider types have the same form. -/
theorem Ty.keepsForm_widens : KeepsForm Widens := by
  intro type wide h
  induction h with
  | scalar type => exact .scalar (.scalar type)
  | long => exact .scalar .long
  | list helement _ => exact .list helement
  | map helement _ => exact .map helement
  | option _ ih => exact ih
  | box _ ih => exact ih
  | object id => exact .object id

section Tables

variable {table wide : Declarations}

theorem Bound.Widened.wrap {type type' : Ty} (htype : type.Widens type') {value value' : Bound}
    (h : Widened table wide type.core type'.core value value') :
    Widened table wide type type' (type.wrap value) (type'.wrap value') := by
  induction htype with
  | option _ ih => exact .option (ih h)
  | box _ ih => exact .box (ih h)
  | _ => exact h

/-- A long accepts what an integer accepts, as the same number. -/
theorem Bound.Widened.accepts {type type' : ScalarType}
    (htype : Ty.Widens (.scalar type) (.scalar type'))
    {given made : Scalar} (h : type.accept? given = some made) :
    ∃ made', type'.accept? given = some made' ∧
      Widened table wide (.scalar type) (.scalar type') (.scalar made) (.scalar made') := by
  cases htype with
  | scalar => exact ⟨made, h, .scalar made⟩
  | long =>
      cases given with
      | integer number =>
          cases h
          exact ⟨.long number.toInt64, rfl, .long number.toInt_toInt64⟩
      | _ => cases h

theorem Call.Retyped.widened {id : Nat} {call call' : Call Bound}
    (h : call.Retyped table wide (Bound.Widened table wide) id call') :
    Call.Widened table wide id call call' := by
  cases h with
  | key name => exact .key name
  | field haccepts haccepts' hvalue => exact .field haccepts haccepts' hvalue
  | extension haccepts haccepts' hvalue => exact .extension haccepts haccepts' hvalue

theorem Declarations.Retyped.widening (h : table.Retyped Ty.Widens wide) :
    Retyping False Ty.Widens (Bound.Widened table wide) table wide where
  form := Ty.keepsForm_widens
  declared := h
  names := False.elim
  wrap := fun htype _ _ hvalue => hvalue.wrap htype
  accepts := fun htype => Bound.Widened.accepts htype
  refuses := False.elim
  list := by
    intro _ _ items items' _ hitems
    obtain ⟨hlength, hzip⟩ := List.forall₂_iff_zip.mp hitems
    exact .list hlength fun _ _ => hzip
  map := by
    intro kind _ _ entries entries' _ hentries
    obtain ⟨-, hzip⟩ := List.forall₂_iff_zip.mp hentries
    have hkeys : Entries.keys entries = Entries.keys entries' := by
      rw [Entries.keys, Entries.keys, ← List.forall₂_eq_eq_eq, List.forall₂_map_left_iff,
        List.forall₂_map_right_iff]
      exact hentries.imp fun _ _ hentry => hentry.1
    exact .map hkeys fun _ _ hmem => (hzip hmem).2
  object := by
    intro id calls calls' hcalls
    obtain ⟨hlength, hzip⟩ := List.forall₂_iff_zip.mp hcalls
    exact .object hlength fun _ _ hmem => (hzip hmem).widened

end Tables

/-- A document that is loaded is also loaded when some integers are longs in the declarations or in
the root type: with the same structure, and with the same numbers in these places.  It does not
matter what was loaded before in a session and whether schemas are kept. -/
theorem Source.load_widened {table wide : Declarations} (htable : table.Retyped Ty.Widens wide)
    {root root' : Ty} (hroot : root.Widens root') {source : Source} {value : Bound}
    (hload : source.load table root (.value root) = .ok (.value value)) :
    ∃ value', Bound.Widened table wide root root' value value' ∧
      source.load wide root' (.value root') = .ok (.value value') ∧
      ∀ options earlier, (Request.answers wide .empty
        (earlier ++ [.load options root' (.value root') source])).getLast?
          = some (.loaded (.ok (.value value'))) := by
  have hmatched := htable.widening.load_matched source hroot
  rw [hload] at hmatched
  obtain ⟨_, hload', _, value', ⟨⟩, rfl, hvalue⟩ := hmatched
  refine ⟨value', hvalue, hload', fun options earlier => ?_⟩
  rw [Request.getLast?_load, hload']

/-- Meters with an optional limit and with counts. -/
def meterTable : Declarations :=
  ⟨[⟨"Meter", none, [⟨"limit", .option (.scalar .int), false⟩,
    ⟨"counts", .list (.scalar .int), true⟩, ⟨"step", .scalar .int, false⟩], 0, []⟩]⟩

/-- The same with longs as limits and counts. -/
def wideMeterTable : Declarations :=
  ⟨[⟨"Meter", none, [⟨"limit", .option (.scalar .long), false⟩,
    ⟨"counts", .list (.scalar .long), true⟩, ⟨"step", .scalar .int, false⟩], 0, []⟩]⟩

theorem meterTable_retyped : meterTable.Retyped Ty.Widens wideMeterTable := by
  have hlimit := Ty.Widens.option .long
  have hcounts := Ty.Widens.list .long
  have hstep := Ty.Widens.scalar .int
  refine .cons ⟨rfl, rfl, ?_, rfl, .nil⟩ .nil
  exact .cons ⟨rfl, hlimit, rfl⟩ (.cons ⟨rfl, hcounts, rfl⟩ (.cons ⟨rfl, hstep, rfl⟩ .nil))

/-- Two counts and the trees they are written as. -/
def meterCounts : List (Bound × Node) :=
  [(.scalar (.integer 1), .literal ⟨.integer, .ofList ['1'], .none⟩),
    (.scalar (.integer 2), .literal ⟨.integer, .ofList ['2'], .none⟩)]

def meterFields : List Bound.Member :=
  [⟨"limit", .present (.scalar (.integer 7)), .literal ⟨.integer, .ofList ['7'], .none⟩⟩,
    ⟨"counts", .list (meterCounts.map Prod.fst), .array (meterCounts.map Prod.snd) .none⟩]

def meter : Bound := .object 0 (meterFields.map Bound.Member.call)

theorem meter_writtenAs : meter.WrittenAs meterTable (.object 0)
    (.dictionary (meterFields.map Bound.Member.field) .none) := by
  have hinteger : ∀ {number : Int32} {token : List Char}, 0 ≤ number.toInt →
      (Scalar.integer number).WrittenAs .integer token →
        Bound.WrittenAs meterTable (.scalar .int) (.scalar (.integer number))
          (.literal ⟨.integer, .ofList token, .none⟩) :=
    fun hnumber htoken => .scalar (.int hnumber) htoken
  have hcounts : Bound.WrittenAs meterTable (.list (.scalar .int))
      (.list (meterCounts.map Prod.fst)) (.array (meterCounts.map Prod.snd) .none) := by
    refine .list (List.forall_mem_cons.mpr ⟨?_, List.forall_mem_singleton.mpr ?_⟩)
    · have hone : 0 ≤ (1 : Int32).toInt := by decide
      exact hinteger hone (.integer hone)
    · have htwo : 0 ≤ (2 : Int32).toInt := by decide
      exact hinteger htwo (.integer htwo)
  refine .object ⟨by decide, rfl⟩ ?_ ?_
  · exact List.forall_mem_cons.mpr ⟨⟨_, rfl⟩, List.forall_mem_singleton.mpr ⟨_, rfl⟩⟩
  · refine List.forall_mem_cons.mpr ⟨?_, List.forall_mem_singleton.mpr ?_⟩
    · rintro _ ⟨⟩
      have hseven : 0 ≤ (7 : Int32).toInt := by decide
      exact .option (hinteger hseven (.integer hseven))
    · rintro _ ⟨⟩
      exact hcounts

def meterText : String := "\x7b\"limit\":7,\"counts\":[1,2]\x7d"

/-- A meter that is loaded with integers is loaded with longs as well. -/
theorem meter_load_widened :
    meterTable.Retyped Ty.Widens wideMeterTable ∧
      Source.load (.text meterText) meterTable (.object 0) (.value (.object 0))
        = .ok (.value meter) ∧
      ∃ value', Bound.Widened meterTable wideMeterTable (.object 0) (.object 0) meter value' ∧
        Source.load (.text meterText) wideMeterTable (.object 0) (.value (.object 0))
          = .ok (.value value') := by
  have htext : meter.HasText meterTable (.object 0) meterText := meter_writtenAs.hasText rfl
  have hload := Source.load_of_hasText rfl rfl (by decide) htext
  obtain ⟨value', hvalue, hload', -⟩ :=
    Source.load_widened meterTable_retyped (.object 0) hload
  exact ⟨meterTable_retyped, hload, value', hvalue, hload'⟩

end TypedConfig
