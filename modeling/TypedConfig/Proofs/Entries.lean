import Mathlib.Data.List.Induction
import Mathlib.Data.String.Basic
import TypedConfig.Entries

/-!
What a map holds after entries were put into it one by one: each key once, under it the value that
was put there last, and the keys in the order of the kind of the map.
-/

namespace TypedConfig.Entries

variable {α β : Type}

/-- The keys increase from each entry to the next. -/
def Sorted (entries : List (String × α)) : Prop :=
  entries.Pairwise fun first second => first.1 < second.1

theorem mem_of_lookup_eq_some {key : String} {value : α} {entries : List (String × α)}
    (h : entries.lookup key = some value) : (key, value) ∈ entries := by
  obtain ⟨before, after, rfl, -⟩ := List.lookup_eq_some_iff.mp h
  exact List.mem_append_right before List.mem_cons_self

/-- Where no key stands twice, it does not matter from which side it is looked for. -/
theorem lookup_reverse {entries : List (String × α)} (hnodup : (keys entries).Nodup)
    (key : String) : entries.reverse.lookup key = entries.lookup key := by
  induction entries with
  | nil => rfl
  | cons entry rest ih =>
      obtain ⟨hfresh, hrest⟩ := List.nodup_cons.mp hnodup
      rw [List.reverse_cons, List.lookup_append, ih hrest]
      by_cases hkey : entry.1 = key
      · have hnone : rest.lookup key = none := by
          rw [lookup_eq_none_iff, ← hkey]
          exact hfresh
        simp [hnone, hkey]
      · simp [hkey]

/-- Whatever way of putting one entry is used: after many, the last value of a key counts. -/
theorem lookup_foldl {insert : String → α → List (String × α) → List (String × α)}
    (hinsert : ∀ key other value entries,
      (insert key value entries).lookup other
        = if key = other then some value else entries.lookup other)
    (entries done : List (String × α)) (key : String) :
    (entries.foldl (fun acc entry => insert entry.1 entry.2 acc) done).lookup key
      = (entries.reverse.lookup key).or (done.lookup key) := by
  induction entries generalizing done with
  | nil => simp
  | cons entry rest ih =>
      rw [List.foldl_cons, ih, hinsert, List.reverse_cons, List.lookup_append, Option.or_assoc]
      by_cases hkey : entry.1 = key
      · simp [hkey]
      · simp [hkey]

/-- A map of any kind holds the last value that was put under a key. -/
theorem lookup_ofList (kind : MapKind) (entries : List (String × α)) (key : String) :
    (ofList kind entries).lookup key = entries.reverse.lookup key := by
  cases kind with
  | insertion =>
      rw [ofList, lookup_foldl lookup_put]
      simp
  | hashed =>
      rw [ofList, lookup_foldl lookup_putSorted]
      simp
  | sorted =>
      rw [ofList, lookup_foldl lookup_putSorted]
      simp

/-- Under a name, a map of any kind holds what the last element of that name gave it. -/
theorem lookup_ofList_map {γ : Type} {name : γ → String} {made : γ → String × α} {xs : List γ}
    (hname : ∀ x ∈ xs, (made x).1 = name x) (kind : MapKind) (key : String) :
    (ofList kind (xs.map made)).lookup key
      = ((xs.filter fun x => name x == key).getLast?).map fun x => (made x).2 := by
  rw [lookup_ofList]
  induction xs using List.reverseRecOn with
  | nil => rfl
  | append_singleton rest x ih =>
      obtain ⟨hrest, hx⟩ := List.forall_mem_append.mp hname
      rw [List.map_append, List.reverse_append, List.filter_append]
      by_cases hkey : name x = key
      · simp [hx x, hkey]
      · simpa [hx x, hkey] using ih hrest

theorem keys_put (key : String) (value : α) (entries : List (String × α)) :
    keys (put key value entries)
      = if key ∈ keys entries then keys entries else keys entries ++ [key] := by
  induction entries with
  | nil => simp [put, keys]
  | cons entry rest ih =>
      by_cases hkey : entry.1 = key
      · simp [put, keys, hkey]
      · have hcons : keys (put key value (entry :: rest)) = entry.1 :: keys (put key value rest) := by
          simp [put, keys, hkey]
        have hmem : key ∈ keys (entry :: rest) ↔ key ∈ keys rest := by
          simp [keys, Ne.symm hkey]
        rw [hcons, ih]
        by_cases hrest : key ∈ keys rest
        · rw [if_pos hrest, if_pos (hmem.mpr hrest)]
          rfl
        · rw [if_neg hrest, if_neg (mt hmem.mp hrest)]
          rfl

theorem keys_put_nodup {entries : List (String × α)} (hnodup : (keys entries).Nodup)
    (key : String) (value : α) : (keys (put key value entries)).Nodup := by
  rw [keys_put]
  split
  · exact hnodup
  · rename_i hfresh
    rw [List.nodup_append]
    refine ⟨hnodup, by simp, ?_⟩
    intro first hfirst second hsecond
    rw [List.mem_singleton.mp hsecond]
    exact fun heq => hfresh (heq ▸ hfirst)

/-- A map by insertion lists no key twice. -/
theorem keys_ofList_insertion_nodup (entries : List (String × α)) :
    (keys (ofList .insertion entries)).Nodup := by
  have hfold : ∀ done : List (String × α), (keys done).Nodup →
      (keys (entries.foldl (fun acc entry => put entry.1 entry.2 acc) done)).Nodup := by
    induction entries with
    | nil => exact fun done hdone => hdone
    | cons entry rest ih => exact fun done hdone => ih _ (keys_put_nodup hdone _ _)
  exact hfold [] List.nodup_nil

theorem put_of_fresh {entries : List (String × α)} {key : String} (hfresh : key ∉ keys entries)
    (value : α) : put key value entries = entries ++ [(key, value)] := by
  induction entries with
  | nil => rfl
  | cons entry rest ih =>
      simp only [keys, List.map_cons, List.mem_cons, not_or] at hfresh
      simp [put, Ne.symm hfresh.1, ih hfresh.2]

/-- Entries without a repeated key are listed as they were put. -/
theorem ofList_insertion_of_nodup {entries : List (String × α)} (hnodup : (keys entries).Nodup) :
    ofList .insertion entries = entries := by
  have hfold : ∀ done : List (String × α), (keys (done ++ entries)).Nodup →
      entries.foldl (fun acc entry => put entry.1 entry.2 acc) done = done ++ entries := by
    induction entries with
    | nil => simp
    | cons entry rest ih =>
        intro done hdone
        have hfresh : entry.1 ∉ keys done := by
          simp only [keys, List.map_append, List.map_cons, List.nodup_append] at hdone
          exact fun hmem => hdone.2.2 _ hmem _ List.mem_cons_self rfl
        have hrest : (keys (done ++ [entry] ++ rest)).Nodup := by simpa using hdone
        rw [List.foldl_cons, put_of_fresh hfresh,
          ih (List.nodup_cons.mp hnodup).2 (done ++ [entry]) hrest]
        simp
  exact hfold [] hnodup

theorem put_map (f : α → β) (key : String) (value : α) (entries : List (String × α)) :
    put key (f value) (entries.map fun entry => (entry.1, f entry.2))
      = (put key value entries).map fun entry => (entry.1, f entry.2) := by
  induction entries with
  | nil => rfl
  | cons entry rest ih =>
      by_cases hkey : entry.1 = key
      · simp [put, hkey]
      · simpa [put, hkey] using ih

/-- Changing values does not change which entries a map keeps. -/
theorem ofList_insertion_map (f : α → β) (entries : List (String × α)) :
    ofList .insertion (entries.map fun entry => (entry.1, f entry.2))
      = (ofList .insertion entries).map fun entry => (entry.1, f entry.2) := by
  have hfold : ∀ done : List (String × α),
      (entries.map fun entry => (entry.1, f entry.2)).foldl
          (fun acc entry => put entry.1 entry.2 acc) (done.map fun entry => (entry.1, f entry.2))
        = (entries.foldl (fun acc entry => put entry.1 entry.2 acc) done).map
          fun entry => (entry.1, f entry.2) := by
    induction entries with
    | nil => exact fun done => rfl
    | cons entry rest ih =>
        intro done
        rw [List.map_cons, List.foldl_cons, List.foldl_cons, ← ih, ← put_map]
  exact hfold []

/-- Entries of the same keys in the same order, with values that correspond. -/
def Correspond (correspond : α → β → Prop) : List (String × α) → List (String × β) → Prop :=
  List.Forall₂ fun entry other => entry.1 = other.1 ∧ correspond entry.2 other.2

section Correspondence

variable {correspond : α → β → Prop} {entries : List (String × α)} {others : List (String × β)}

theorem Correspond.put (h : Correspond correspond entries others) (key : String) {value : α}
    {other : β} (hvalue : correspond value other) :
    Correspond correspond (put key value entries) (put key other others) := by
  induction h with
  | nil => exact .cons ⟨rfl, hvalue⟩ .nil
  | @cons first second _ _ hfirst hrest ih =>
      rw [Entries.put, Entries.put, hfirst.1]
      split
      · exact .cons ⟨rfl, hvalue⟩ hrest
      · exact .cons ⟨rfl, hfirst.2⟩ ih

theorem Correspond.putSorted (h : Correspond correspond entries others) (key : String) {value : α}
    {other : β} (hvalue : correspond value other) :
    Correspond correspond (putSorted key value entries) (putSorted key other others) := by
  induction h with
  | nil => exact .cons ⟨rfl, hvalue⟩ .nil
  | @cons first second _ _ hfirst hrest ih =>
      rw [Entries.putSorted, Entries.putSorted, hfirst.1]
      split
      · exact .cons ⟨rfl, hvalue⟩ hrest
      · split
        · exact .cons ⟨rfl, hvalue⟩ (.cons ⟨rfl, hfirst.2⟩ hrest)
        · exact .cons ⟨rfl, hfirst.2⟩ ih

/-- Which entries a map keeps, and in which order, does not depend on their values. -/
theorem Correspond.ofList (kind : MapKind) (h : Correspond correspond entries others) :
    Correspond correspond (ofList kind entries) (ofList kind others) := by
  have hfold : ∀ {insert : String → α → List (String × α) → List (String × α)}
      {insert' : String → β → List (String × β) → List (String × β)},
      (∀ {done : List (String × α)} {done' : List (String × β)}, Correspond correspond done done' →
        ∀ (key : String) {value : α} {other : β}, correspond value other →
          Correspond correspond (insert key value done) (insert' key other done')) →
      ∀ {done : List (String × α)} {done' : List (String × β)}, Correspond correspond done done' →
        Correspond correspond (entries.foldl (fun acc entry => insert entry.1 entry.2 acc) done)
          (others.foldl (fun acc entry => insert' entry.1 entry.2 acc) done') := by
    intro insert insert' hinsert
    induction h with
    | nil => exact fun hdone => hdone
    | @cons first second _ _ hfirst _ ih =>
        intro done done' hdone
        rw [List.foldl_cons, List.foldl_cons, ← hfirst.1]
        exact ih (hinsert hdone _ hfirst.2)
  cases kind with
  | insertion => exact hfold Correspond.put .nil
  | hashed => exact hfold Correspond.putSorted .nil
  | sorted => exact hfold Correspond.putSorted .nil

end Correspondence

theorem mem_putSorted {key : String} {value : α} {entries : List (String × α)}
    {entry : String × α} (h : entry ∈ putSorted key value entries) :
    entry = (key, value) ∨ entry ∈ entries := by
  induction entries with
  | nil => exact .inl (List.mem_singleton.mp h)
  | cons head rest ih =>
      simp only [putSorted] at h
      split at h
      · rcases List.mem_cons.mp h with rfl | hrest
        · exact .inl rfl
        · exact .inr (List.mem_cons_of_mem _ hrest)
      · split at h
        · exact List.mem_cons.mp h
        · rcases List.mem_cons.mp h with rfl | hrest
          · exact .inr List.mem_cons_self
          · exact (ih hrest).imp_right (List.mem_cons_of_mem _)

theorem Sorted.putSorted {entries : List (String × α)} (hsorted : Sorted entries) (key : String)
    (value : α) : Sorted (putSorted key value entries) := by
  induction entries with
  | nil => exact List.pairwise_singleton _ _
  | cons head rest ih =>
      obtain ⟨hhead, hrest⟩ := List.pairwise_cons.mp hsorted
      simp only [Entries.putSorted]
      split
      · rename_i heq
        subst heq
        exact List.pairwise_cons.mpr ⟨hhead, hrest⟩
      · rename_i hne
        split
        · rename_i hlt
          refine List.pairwise_cons.mpr ⟨?_, hsorted⟩
          intro entry hentry
          rcases List.mem_cons.mp hentry with rfl | hmem
          · exact hlt
          · exact lt_trans hlt (hhead entry hmem)
        · rename_i hnot
          have hlt : head.1 < key := lt_of_le_of_ne (not_lt.mp hnot) hne
          refine List.pairwise_cons.mpr ⟨?_, ih hrest⟩
          intro entry hentry
          rcases mem_putSorted hentry with rfl | hmem
          · exact hlt
          · exact hhead entry hmem

/-- Putting entries one by one keeps a map sorted that is sorted by key. -/
theorem Sorted.foldl_putSorted (entries : List (String × α)) {done : List (String × α)}
    (hsorted : Sorted done) :
    Sorted (entries.foldl (fun acc entry => Entries.putSorted entry.1 entry.2 acc) done) := by
  induction entries generalizing done with
  | nil => exact hsorted
  | cons entry rest ih => exact ih (hsorted.putSorted _ _)

theorem Sorted.keys_nodup {entries : List (String × α)} (hsorted : Sorted entries) :
    (keys entries).Nodup := by
  rw [keys, List.nodup_iff_pairwise_ne, List.pairwise_map]
  exact hsorted.imp ne_of_lt

/-- A map of any kind lists no key twice. -/
theorem keys_ofList_nodup (kind : MapKind) (entries : List (String × α)) :
    (keys (ofList kind entries)).Nodup := by
  cases kind with
  | insertion => exact keys_ofList_insertion_nodup entries
  | hashed => exact (Sorted.foldl_putSorted entries List.Pairwise.nil).keys_nodup
  | sorted => exact (Sorted.foldl_putSorted entries List.Pairwise.nil).keys_nodup

theorem lookup_of_mem {entries : List (String × α)} (hnodup : (keys entries).Nodup)
    {entry : String × α} (h : entry ∈ entries) : entries.lookup entry.1 = some entry.2 := by
  induction entries with
  | nil => cases h
  | cons head rest ih =>
      obtain ⟨hfresh, hrest⟩ := List.nodup_cons.mp hnodup
      rcases List.mem_cons.mp h with rfl | hmem
      · rw [lookup_entry, if_pos rfl]
      · have hne : head.1 ≠ entry.1 := by
          intro heq
          exact hfresh (heq ▸ List.mem_map_of_mem hmem)
        rw [lookup_entry, if_neg hne, ih hrest hmem]

/-- Entries without a repeated key all stay in the map. -/
theorem mem_ofList (kind : MapKind) {entries : List (String × α)} (hnodup : (keys entries).Nodup)
    {entry : String × α} (h : entry ∈ entries) : entry ∈ ofList kind entries := by
  apply mem_of_lookup_eq_some
  rw [lookup_ofList, lookup_reverse hnodup, lookup_of_mem hnodup h]

theorem mem_of_mem_ofList (kind : MapKind) {entries : List (String × α)} {entry : String × α}
    (h : entry ∈ ofList kind entries) : entry ∈ entries := by
  have hget := lookup_of_mem (keys_ofList_nodup kind entries) h
  rw [lookup_ofList] at hget
  exact List.mem_reverse.mp (mem_of_lookup_eq_some hget)

theorem Sorted.lookup_tail {head : String × α} {rest : List (String × α)}
    (hsorted : Sorted (head :: rest)) : rest.lookup head.1 = none := by
  rw [lookup_eq_none_iff]
  intro hmem
  obtain ⟨entry, hentry, heq⟩ := List.mem_map.mp hmem
  exact absurd ((List.pairwise_cons.mp hsorted).1 entry hentry) (heq ▸ lt_irrefl _)

/-- Sorted entries are determined by what is found under each key. -/
theorem Sorted.ext {first second : List (String × α)} (hfirst : Sorted first)
    (hsecond : Sorted second) (h : ∀ key, first.lookup key = second.lookup key) :
    first = second := by
  induction first generalizing second with
  | nil =>
      cases second with
      | nil => rfl
      | cons head rest => simpa using h head.1
  | cons head rest ih =>
      cases second with
      | nil => simpa using h head.1
      | cons other more =>
          have hkeys : head.1 = other.1 := by
            by_contra hne
            have hleft : (other.1, other.2) ∈ rest := by
              have := h other.1
              simp only [lookup_entry, hne, ↓reduceIte] at this
              exact mem_of_lookup_eq_some this
            have hright : (head.1, head.2) ∈ more := by
              have := h head.1
              simp only [lookup_entry, Ne.symm hne, ↓reduceIte] at this
              exact mem_of_lookup_eq_some this.symm
            exact lt_asymm ((List.pairwise_cons.mp hfirst).1 _ hleft)
              ((List.pairwise_cons.mp hsecond).1 _ hright)
          have hvalues : head.2 = other.2 := by simpa [hkeys] using h head.1
          have hrest : rest = more := by
            apply ih (List.pairwise_cons.mp hfirst).2 (List.pairwise_cons.mp hsecond).2
            intro key
            by_cases hkey : head.1 = key
            · rw [← hkey, hfirst.lookup_tail, hkeys, hsecond.lookup_tail]
            · have hother : other.1 ≠ key := hkeys ▸ hkey
              simpa [hkey, hother] using h key
          rw [hrest, Prod.ext hkeys hvalues]

/-- Collecting entries in the order of insertion first loses nothing for a map of any kind. -/
theorem ofList_ofList_insertion (kind : MapKind) (entries : List (String × α)) :
    ofList kind (ofList .insertion entries) = ofList kind entries := by
  have hnodup := keys_ofList_insertion_nodup entries
  have hget : ∀ key,
      (ofList .insertion entries).reverse.lookup key = entries.reverse.lookup key := by
    intro key
    rw [lookup_reverse hnodup, lookup_ofList]
  cases kind with
  | insertion => exact ofList_insertion_of_nodup hnodup
  | hashed =>
      apply Sorted.ext (Sorted.foldl_putSorted _ List.Pairwise.nil)
        (Sorted.foldl_putSorted _ List.Pairwise.nil)
      intro key
      exact (lookup_ofList .hashed _ key).trans
        ((hget key).trans (lookup_ofList .hashed entries key).symm)
  | sorted =>
      apply Sorted.ext (Sorted.foldl_putSorted _ List.Pairwise.nil)
        (Sorted.foldl_putSorted _ List.Pairwise.nil)
      intro key
      exact (lookup_ofList .sorted _ key).trans
        ((hget key).trans (lookup_ofList .sorted entries key).symm)

/-- A map lists its own entries as it holds them. -/
theorem ofList_ofList (kind : MapKind) (entries : List (String × α)) :
    ofList kind (ofList kind entries) = ofList kind entries := by
  have hnodup := keys_ofList_nodup kind entries
  have hget : ∀ key,
      (ofList kind (ofList kind entries)).lookup key = (ofList kind entries).lookup key := by
    intro key
    rw [lookup_ofList, lookup_reverse hnodup]
  cases kind with
  | insertion => exact ofList_insertion_of_nodup hnodup
  | hashed =>
      exact Sorted.ext (Sorted.foldl_putSorted _ List.Pairwise.nil)
        (Sorted.foldl_putSorted _ List.Pairwise.nil) hget
  | sorted =>
      exact Sorted.ext (Sorted.foldl_putSorted _ List.Pairwise.nil)
        (Sorted.foldl_putSorted _ List.Pairwise.nil) hget

end TypedConfig.Entries
