import TypedConfig.Declaration

/-!
Entries of maps: lists of keys with values, no key twice.  Putting a key that is there already
replaces its value and keeps its place.  Keys are compared character by character, which is also
the order of their UTF-8 bytes.
-/

namespace TypedConfig.Entries

variable {κ α : Type}

/-- The keys, in the order of the entries. -/
def keys (entries : List (κ × α)) : List κ := entries.map Prod.fst

/-- An entry in front is found under its own key alone. -/
@[simp]
theorem lookup_entry [DecidableEq κ] (key : κ) (entry : κ × α) (rest : List (κ × α)) :
    (entry :: rest).lookup key = if entry.1 = key then some entry.2 else rest.lookup key := by
  obtain ⟨other, value⟩ := entry
  by_cases hkey : other = key
  · subst hkey
    simp
  · have hne : (key == other) = false := by simpa using Ne.symm hkey
    simp [List.lookup_cons, hne, hkey]

theorem lookup_eq_none_iff [DecidableEq κ] {key : κ} {entries : List (κ × α)} :
    entries.lookup key = none ↔ key ∉ keys entries := by
  rw [List.lookup_eq_none_iff, keys, List.mem_map]
  grind

/-- Puts a value under a key: in the place of the key, or behind all others. -/
def put (key : String) (value : α) : List (String × α) → List (String × α)
  | [] => [(key, value)]
  | (other, old) :: rest =>
    if other = key then (key, value) :: rest else (other, old) :: put key value rest

/-- Puts a value under a key into entries that are sorted by key. -/
def putSorted (key : String) (value : α) : List (String × α) → List (String × α)
  | [] => [(key, value)]
  | (other, old) :: rest =>
    if other = key then (key, value) :: rest
    else if key < other then (key, value) :: (other, old) :: rest
    else (other, old) :: putSorted key value rest

/-- Putting is seen under its own key alone. -/
theorem lookup_put (key other : String) (value : α) (entries : List (String × α)) :
    (put key value entries).lookup other
      = if key = other then some value else entries.lookup other := by
  induction entries with
  | nil => simp [put]
  | cons entry rest ih =>
    obtain ⟨k, v⟩ := entry
    by_cases hk : k = key
    · subst hk
      by_cases ho : k = other <;> simp [put, ho]
    · by_cases ho : k = other
      · subst ho
        simp [put, hk, Ne.symm hk]
      · simp [put, hk, ho, ih]

/-- The same in sorted entries. -/
theorem lookup_putSorted (key other : String) (value : α) (entries : List (String × α)) :
    (putSorted key value entries).lookup other
      = if key = other then some value else entries.lookup other := by
  induction entries with
  | nil => simp [putSorted]
  | cons entry rest ih =>
    obtain ⟨k, v⟩ := entry
    by_cases hk : k = key
    · subst hk
      by_cases ho : k = other <;> simp [putSorted, ho]
    · by_cases hlt : key < k
      · by_cases ho : key = other
        · subst ho
          simp [putSorted, hk, hlt]
        · simp [putSorted, hk, hlt, ho]
      · by_cases ho : k = other
        · subst ho
          simp [putSorted, hk, hlt, Ne.symm hk]
        · simp [putSorted, hk, hlt, ho, ih]

/-- The entries that a map of some kind lists after all of `entries` were put into it in order. -/
def ofList (kind : MapKind) (entries : List (String × α)) : List (String × α) :=
  match kind with
  | .insertion => entries.foldl (fun done entry => put entry.1 entry.2 done) []
  | .hashed => entries.foldl (fun done entry => putSorted entry.1 entry.2 done) []
  | .sorted => entries.foldl (fun done entry => putSorted entry.1 entry.2 done) []

end TypedConfig.Entries
