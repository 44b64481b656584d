import TypedConfig.Proofs.Retyping.Loading

/-!
Options and boxes are transparent.  A table whose types are stripped of all wrappers accepts the
same documents and refuses the others with the same errors; the values are the same but for the
wrappers.
-/

namespace TypedConfig

/-- A type without its wrappers, outside and inside. -/
def Ty.erase : Ty → Ty
  | .scalar type => .scalar type
  | .list element => .list element.erase
  | .map kind element => .map kind element.erase
  | .option inner => inner.erase
  | .box inner => inner.erase
  | .object id => .object id

/-- An object type whose fields and extensions are without wrappers. -/
def ObjectType.erase (object : ObjectType) : ObjectType :=
  { object with
    fields := object.fields.map fun slot => { slot with type := slot.type.erase }
    extensions := object.extensions.map Ty.erase }

def Declarations.erase (table : Declarations) : Declarations :=
  ⟨table.objects.map ObjectType.erase⟩

namespace Bound

mutual

/-- A value with the contents of its present options and boxes in their places. -/
def erase : Bound → Bound
  | .scalar value => .scalar value
  | .absent => .absent
  | .present value => value.erase
  | .boxed value => value.erase
  | .list items => .list (eraseItems items)
  | .map entries => .map (eraseEntries entries)
  | .object id calls => .object id (eraseCalls calls)

def eraseItems : List Bound → List Bound
  | [] => []
  | item :: rest => item.erase :: eraseItems rest

def eraseEntries : List (String × Bound) → List (String × Bound)
  | [] => []
  | (name, value) :: rest => (name, value.erase) :: eraseEntries rest

def eraseCalls : List (Call Bound) → List (Call Bound)
  | [] => []
  | .key name :: rest => .key name :: eraseCalls rest
  | .field name value :: rest => .field name value.erase :: eraseCalls rest
  | .extension name value :: rest => .extension name value.erase :: eraseCalls rest

end

theorem eraseItems_eq {items items' : List Bound}
    (h : List.Forall₂ (fun item item' => item' = item.erase) items items') :
    items' = eraseItems items := by
  induction h with
  | nil => rfl
  | cons hitem _ ih => rw [eraseItems, hitem, ih]

theorem eraseEntries_eq {entries entries' : List (String × Bound)}
    (h : Entries.Correspond (fun value value' => value' = value.erase) entries entries') :
    entries' = eraseEntries entries := by
  induction h with
  | nil => rfl
  | @cons entry entry' _ _ hentry _ ih =>
      rw [eraseEntries, ← ih, ← hentry.2]
      exact congrArg (· :: _) (Prod.ext hentry.1.symm rfl)

theorem eraseCalls_eq {table other : Declarations} {id : Nat} {calls calls' : List (Call Bound)}
    (h : List.Forall₂
      (Call.Retyped table other (fun _ _ value value' => value' = value.erase) id) calls calls') :
    calls' = eraseCalls calls := by
  induction h with
  | nil => rfl
  | cons hcall _ ih =>
      cases hcall with
      | key name => rw [eraseCalls, ih]
      | field _ _ hvalue => rw [eraseCalls, ih, hvalue]
      | extension _ _ hvalue => rw [eraseCalls, ih, hvalue]

theorem erase_wrap (type : Ty) (value : Bound) : (type.wrap value).erase = value.erase := by
  induction type with
  | option inner ih => exact ih
  | box inner ih => exact ih
  | _ => rfl

end Bound

namespace Ty

theorem wrap_erase (type : Ty) (value : Bound) : type.erase.wrap value = value := by
  induction type with
  | option inner ih => exact ih
  | box inner ih => exact ih
  | _ => rfl

end Ty

section Tables

variable (table : Declarations)

theorem forall₂_map_self {α β : Type} {relation : α → β → Prop} {f : α → β}
    (h : ∀ x, relation x (f x)) (xs : List α) : List.Forall₂ relation xs (xs.map f) :=
  List.forall₂_map_right_iff.mpr (List.forall₂_same.mpr fun x _ => h x)

theorem ObjectType.erase_retyped (object : ObjectType) :
    object.Retyped (fun type other => other = type.erase) object.erase := by
  have hextensions : List.Forall₂ (fun type other => other = type.erase) object.extensions
      (object.extensions.map Ty.erase) := by
    refine forall₂_map_self ?_ object.extensions
    exact fun _ => rfl
  exact ⟨rfl, rfl, forall₂_map_self (fun _ => ⟨rfl, rfl, rfl⟩) _, rfl, hextensions⟩

theorem Declarations.erase_retyped :
    table.Retyped (fun type other => other = type.erase) table.erase :=
  forall₂_map_self ObjectType.erase_retyped table.objects

/-- Names do not show wrappers, at any depth. -/
theorem Ty.name_erase (type : Ty) : type.erase.name table.erase = type.name table := by
  induction type with
  | scalar scalarType => rfl
  | list element ih => simp only [erase, name, ih]
  | map kind element ih => simp only [erase, name, ih]
  | option inner ih => exact ih
  | box inner ih => exact ih
  | object id => exact (table.erase_retyped.object id).name.symm

theorem Declarations.erase_retyping (strict : Prop) :
    Retyping strict (fun type other => other = type.erase) (fun _ _ value other => other = value.erase)
      table table.erase where
  form := by
    rintro type _ rfl
    induction type with
    | option inner ih => exact ih
    | box inner ih => exact ih
    | scalar scalarType => exact .scalar rfl
    | list element _ => exact .list rfl
    | map kind element _ => exact .map rfl
    | object id => exact .object id
  declared := table.erase_retyped
  names := by
    rintro - type _ rfl
    exact type.name_erase table
  wrap := by
    rintro type _ rfl value _ rfl
    rw [Bound.erase_wrap, Ty.wrap_erase]
  accepts := by
    rintro type _ given made ⟨⟩ haccept
    exact ⟨made, haccept, rfl⟩
  refuses := by
    rintro - type _ given ⟨⟩ hrefused
    exact hrefused
  list := by
    intro _ _ items items' _ hitems
    rw [Bound.erase, Bound.eraseItems_eq hitems]
  map := by
    intro _ _ _ entries entries' _ hentries
    rw [Bound.erase, Bound.eraseEntries_eq hentries]
  object := by
    intro id calls calls' hcalls
    rw [Bound.erase, Bound.eraseCalls_eq hcalls]

end Tables

/-- What was loaded, with the contents of its present options and boxes in their places. -/
def Loaded.erase : Loaded → Loaded
  | .container found => .container found
  | .value found => .value found.erase

theorem Source.load_eq_erase (table : Declarations) (root : Ty) (source : Source) :
    source.load table.erase root.erase (.value root.erase)
      = (source.load table root (.value root)).map Loaded.erase := by
  have hmatched := (table.erase_retyping True).load_matched source (Eq.refl root.erase)
  cases hload : source.load table root (.value root) with
  | error fault =>
      rw [hload] at hmatched
      exact hmatched trivial
  | ok loaded =>
      rw [hload] at hmatched
      obtain ⟨found, hfound, value, _, rfl, rfl, rfl⟩ := hmatched
      exact hfound

/-- Without wrappers a document is loaded as it is with them: with the same error, or with the value
whose present options and boxes are replaced by their contents.  What was loaded before in the
sessions and whether schemas are kept makes no difference. -/
theorem Source.load_erase (table : Declarations) (root : Ty) (source : Source) :
    source.load table.erase root.erase (.value root.erase)
        = (source.load table root (.value root)).map Loaded.erase ∧
      ∀ options earlier options' earlier', ∃ result,
        (Request.answers table .empty
            (earlier ++ [.load options root (.value root) source])).getLast?
          = some (.loaded result) ∧
        (Request.answers table.erase .empty
            (earlier' ++ [.load options' root.erase (.value root.erase) source])).getLast?
          = some (.loaded (result.map Loaded.erase)) := by
  refine ⟨source.load_eq_erase table root, ?_⟩
  intro options earlier options' earlier'
  refine ⟨_, Request.getLast?_load earlier options root _ source, ?_⟩
  rw [Request.getLast?_load, source.load_eq_erase table root]

end TypedConfig
