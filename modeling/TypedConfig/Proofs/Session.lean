import TypedConfig.Session

/-!
The cache of a session.  It holds derived schemas alone, whatever the steps of the session were, so
that a schema from the cache is the one that would be derived, and a document is loaded as it would
be without the session.
-/

namespace TypedConfig

variable {table : Declarations} {cache : SchemaCache}

/-- Every schema in the cache was derived for its root type. -/
def SchemaCache.IsDerived (table : Declarations) (cache : SchemaCache) : Prop :=
  ∀ root shared, cache.find? root = some shared → Schema.derive table root = .ok shared.schema

namespace SchemaCache

theorem empty_isDerived : SchemaCache.empty.IsDerived table := by
  intro root shared hfind
  cases hfind

theorem find?_cons (other root : Ty) (shared : SharedSchema) (entries : List (Ty × SharedSchema)) :
    SchemaCache.find? ⟨(other, shared) :: entries⟩ root
      = if other = root then some shared else SchemaCache.find? ⟨entries⟩ root :=
  Entries.lookup_entry root (other, shared) entries

/-- A schema from the cache is the one that would be derived. -/
theorem derive_schema (h : cache.IsDerived table) (root : Ty) :
    (cache.derive table root).1.map SharedSchema.schema = Schema.derive table root := by
  unfold derive
  split
  · rename_i shared hfind
    exact (h root shared hfind).symm
  · split
    · rename_i schema hderive
      exact hderive.symm
    · rename_i fault hderive
      exact hderive.symm

theorem derive_isDerived (h : cache.IsDerived table) (root : Ty) :
    (cache.derive table root).2.IsDerived table := by
  unfold derive
  split
  · exact h
  · split
    · rename_i schema hderive
      intro other shared hfind
      rw [find?_cons] at hfind
      split at hfind
      · rename_i hroot
        subst hroot
        cases hfind
        exact hderive
      · exact h other shared hfind
    · exact h

end SchemaCache

namespace Request

/-- No step puts anything but derived schemas into the cache. -/
theorem answer_isDerived (h : cache.IsDerived table) (request : Request) :
    (request.answer table cache).2.IsDerived table := by
  cases request with
  | cached root => exact SchemaCache.derive_isDerived h root
  | fresh root => exact h
  | load options root goal source =>
      unfold answer
      dsimp only
      split
      · exact h
      · split
        · exact SchemaCache.derive_isDerived h root
        · exact h

/-- A document is loaded as it would be without the cache. -/
theorem answer_load (h : cache.IsDerived table) (options : Options) (root : Ty) (goal : Goal)
    (source : Source) :
    ((Request.load options root goal source).answer table cache).1
      = .loaded (source.load table root goal) := by
  unfold answer Source.load
  dsimp only
  cases source.read with
  | error fault => rfl
  | ok unopened =>
      dsimp only
      split
      · rw [SchemaCache.derive_schema h root]
        rfl
      · rfl

/-- After any steps of a session the next one is answered from a cache of derived schemas. -/
theorem getLast?_answers (h : cache.IsDerived table) (earlier : List Request) (request : Request) :
    ∃ later : SchemaCache, later.IsDerived table ∧
      (answers table cache (earlier ++ [request])).getLast? = some (request.answer table later).1 := by
  induction earlier generalizing cache with
  | nil => exact ⟨cache, h, rfl⟩
  | cons first rest ih =>
      obtain ⟨later, hlater, hlast⟩ := ih (answer_isDerived h first)
      refine ⟨later, hlater, ?_⟩
      rw [List.cons_append, answers, List.getLast?_cons, hlast]
      rfl

/-- Whatever was done before in a session, a document is loaded as it would be without it. -/
theorem getLast?_load (earlier : List Request) (options : Options) (root : Ty) (goal : Goal)
    (source : Source) :
    (answers table .empty (earlier ++ [.load options root goal source])).getLast?
      = some (.loaded (source.load table root goal)) := by
  obtain ⟨later, hlater, hlast⟩ := getLast?_answers SchemaCache.empty_isDerived earlier
    (.load options root goal source)
  rw [hlast, answer_load hlater]

end Request

/-!
The cache of a session is invisible.  Every step is answered as it would be alone, whatever the
steps before it were.  What the cache adds is that a schema is shared: two derivations through the
cache are given the very same one exactly when they are of the same type.  A type that has no schema
leaves no trace, so that its steps might as well not have been taken.
-/

variable {later : SchemaCache} {root other : Ty} {shared : SharedSchema}

namespace SchemaCache

/-- A later cache gives every type the schema that it had before. -/
def Extends (cache later : SchemaCache) : Prop :=
  ∀ root shared, cache.find? root = some shared → later.find? root = some shared

theorem Extends.refl (cache : SchemaCache) : cache.Extends cache := fun _ _ h => h

theorem Extends.trans {latest : SchemaCache} (hfirst : cache.Extends later)
    (hsecond : later.Extends latest) : cache.Extends latest :=
  fun root shared h => hsecond root shared (hfirst root shared h)

/-- The schemas of a cache are numbered in the order in which they were put there, so that no two
types share a number. -/
structure Numbered (cache : SchemaCache) : Prop where
  below : ∀ root shared, cache.find? root = some shared → shared.number < cache.entries.length
  distinct : ∀ root other shared shared', cache.find? root = some shared →
    cache.find? other = some shared' → shared.number = shared'.number → root = other

theorem empty_numbered : SchemaCache.empty.Numbered := by
  constructor <;> simp [empty, find?]

/-- What deriving a schema through a cache does: it answers from the cache and leaves it alone; or
it puts a new schema there under the next number; or the type has none, and the cache is left alone.
-/
inductive Derives (table : Declarations) (root : Ty) (cache : SchemaCache) :
    Except SchemaFault SharedSchema × SchemaCache → Prop
  | hit {shared : SharedSchema} :
      cache.find? root = some shared → Derives table root cache (.ok shared, cache)
  | added {schema : Schema} :
      cache.find? root = none → Schema.derive table root = .ok schema →
        Derives table root cache (.ok ⟨cache.entries.length, schema⟩,
          ⟨(root, ⟨cache.entries.length, schema⟩) :: cache.entries⟩)
  | failed {fault : SchemaFault} :
      cache.find? root = none → Schema.derive table root = .error fault →
        Derives table root cache (.error fault, cache)

theorem derives (table : Declarations) (root : Ty) (cache : SchemaCache) :
    Derives table root cache (cache.derive table root) := by
  unfold derive
  split
  · rename_i shared hfind
    exact .hit hfind
  · rename_i hfind
    split
    · rename_i schema hderive
      exact .added hfind hderive
    · rename_i fault hderive
      exact .failed hfind hderive

/-- A derivation that fails leaves the cache as it was. -/
theorem derive_of_error {fault : SchemaFault} (h : (cache.derive table root).1 = .error fault) :
    (cache.derive table root).2 = cache := by
  have hderives := derives table root cache
  generalize cache.derive table root = result at h hderives ⊢
  cases hderives with
  | hit hfind => rfl
  | added hfind hderive => cases h
  | failed hfind hderive => rfl

/-- Deriving a type without schema leaves the cache as it was. -/
theorem derive_of_broken (h : (Schema.derive table root).isOk = false) :
    (cache.derive table root).2 = cache := by
  have hderives := derives table root cache
  generalize cache.derive table root = result at hderives ⊢
  cases hderives with
  | hit hfind => rfl
  | added hfind hderive => simp [hderive, Except.isOk, Except.toBool] at h
  | failed hfind hderive => rfl

theorem derive_extends (table : Declarations) (root : Ty) (cache : SchemaCache) :
    cache.Extends (cache.derive table root).2 := by
  have hderives := derives table root cache
  generalize cache.derive table root = result at hderives ⊢
  cases hderives with
  | hit hfind => exact .refl cache
  | failed hfind hderive => exact .refl cache
  | added hfind hderive =>
      intro other shared hother
      rw [find?_cons]
      split
      · rename_i hroot
        rw [hroot, hother] at hfind
        cases hfind
      · exact hother

/-- A schema that was given out is in the cache from then on. -/
theorem find?_derive (h : (cache.derive table root).1 = .ok shared) :
    (cache.derive table root).2.find? root = some shared := by
  have hderives := derives table root cache
  generalize cache.derive table root = result at h hderives ⊢
  cases hderives with
  | hit hfind =>
      cases h
      exact hfind
  | added hfind hderive =>
      cases h
      rw [find?_cons, if_pos rfl]
  | failed hfind hderive => cases h

theorem Numbered.derive (hnumbered : cache.Numbered) (table : Declarations) (root : Ty) :
    (cache.derive table root).2.Numbered := by
  have hderives := derives table root cache
  generalize cache.derive table root = result at hderives ⊢
  cases hderives with
  | hit hfind => exact hnumbered
  | failed hfind hderive => exact hnumbered
  | @added schema hfind hderive =>
      -- the new number is above all others, so it belongs to the new type alone
      constructor
      · intro other shared hother
        rw [find?_cons] at hother
        split at hother
        · cases hother
          exact Nat.lt_succ_self _
        · exact Nat.lt_succ_of_lt (hnumbered.below other shared hother)
      · intro first second shared shared' hfirst hsecond hnumber
        rw [find?_cons] at hfirst hsecond
        split at hfirst <;> split at hsecond
        · rename_i hleft hright
          exact hleft.symm.trans hright
        · cases hfirst
          exact absurd hnumber.symm (Nat.ne_of_lt (hnumbered.below second shared' hsecond))
        · cases hsecond
          exact absurd hnumber (Nat.ne_of_lt (hnumbered.below first shared hfirst))
        · exact hnumbered.distinct first second shared shared' hfirst hsecond hnumber

end SchemaCache

/-- The answer to a step, without telling whether a schema was shared. -/
def Answer.unshared : Answer → Answer
  | .shared result => .fresh (result.map SharedSchema.schema)
  | answer => answer

namespace Request

/-- The type whose schema a step asks for. -/
def target : Request → Ty
  | .cached root => root
  | .fresh root => root
  | .load _ root _ _ => root

/-- The answer to a step that is taken alone, without a cache. -/
def alone (table : Declarations) : Request → Answer
  | .cached root => .fresh (Schema.derive table root)
  | .fresh root => .fresh (Schema.derive table root)
  | .load _ root goal source => .loaded (source.load table root goal)

/-- Whether the type of a step has a schema. -/
def isSound (table : Declarations) (request : Request) : Bool :=
  (Schema.derive table request.target).isOk

def cacheAfter (table : Declarations) (cache : SchemaCache) (requests : List Request) :
    SchemaCache :=
  requests.foldl (fun cache request => (request.answer table cache).2) cache

/-- A step leaves the cache alone or derives its type through it. -/
theorem answer_cache (table : Declarations) (cache : SchemaCache) (request : Request) :
    (request.answer table cache).2 = cache ∨
      (request.answer table cache).2 = (cache.derive table request.target).2 := by
  cases request with
  | cached root => exact .inr rfl
  | fresh root => exact .inl rfl
  | load options root goal source =>
      unfold answer
      dsimp only
      split
      · exact .inl rfl
      · split
        · exact .inr rfl
        · exact .inl rfl

theorem answer_extends (table : Declarations) (cache : SchemaCache) (request : Request) :
    cache.Extends (request.answer table cache).2 := by
  rcases answer_cache table cache request with hcache | hcache
  · rw [hcache]
    exact .refl cache
  · rw [hcache]
    exact SchemaCache.derive_extends table request.target cache

theorem answer_numbered (hnumbered : cache.Numbered) (request : Request) :
    (request.answer table cache).2.Numbered := by
  rcases answer_cache table cache request with hcache | hcache
  · rwa [hcache]
  · rw [hcache]
    exact hnumbered.derive table request.target

/-- A step whose type has no schema leaves the cache as it was. -/
theorem answer_of_broken {request : Request} (h : request.isSound table = false)
    (cache : SchemaCache) : (request.answer table cache).2 = cache := by
  rcases answer_cache table cache request with hcache | hcache
  · exact hcache
  · rw [hcache]
    exact SchemaCache.derive_of_broken h

theorem answer_unshared (h : cache.IsDerived table) (request : Request) :
    (request.answer table cache).1.unshared = request.alone table := by
  cases request with
  | cached root =>
      have hschema := SchemaCache.derive_schema h root
      simp only [answer, Answer.unshared, hschema, alone]
  | fresh root => rfl
  | load options root goal source =>
      rw [answer_load h]
      rfl

theorem cacheAfter_extends (table : Declarations) (cache : SchemaCache)
    (requests : List Request) : cache.Extends (cacheAfter table cache requests) := by
  induction requests generalizing cache with
  | nil => exact .refl cache
  | cons request rest ih => exact (answer_extends table cache request).trans (ih _)

theorem cacheAfter_numbered (hnumbered : cache.Numbered) (requests : List Request) :
    (cacheAfter table cache requests).Numbered := by
  induction requests generalizing cache with
  | nil => exact hnumbered
  | cons request rest ih => exact ih (answer_numbered hnumbered request)

/-- Every step of a session is answered as it would be alone. -/
theorem answers_unshared (h : cache.IsDerived table) (requests : List Request) :
    (answers table cache requests).map Answer.unshared = requests.map (alone table) := by
  induction requests generalizing cache with
  | nil => rfl
  | cons request rest ih =>
      rw [answers, List.map_cons, List.map_cons, answer_unshared h, ih (answer_isDerived h request)]

/-- A schema that was given out through the cache is the one that its type has at the end of the
session. -/
theorem find?_cacheAfter {requests : List Request} {index : Nat}
    (hrequest : requests[index]? = some (.cached root))
    (hanswer : (answers table cache requests)[index]? = some (.shared (.ok shared))) :
    (cacheAfter table cache requests).find? root = some shared := by
  induction requests generalizing cache index with
  | nil => cases hrequest
  | cons request rest ih =>
      cases index with
      | zero =>
          cases hrequest
          have hshared : (cache.derive table root).1 = .ok shared := by
            simpa [answers, answer] using hanswer
          exact cacheAfter_extends table _ rest root shared (SchemaCache.find?_derive hshared)
      | succ index => exact ih hrequest hanswer

/-- Steps whose types have no schema might as well not have been taken: the other ones are answered
in the same way, down to the numbers of the schemas, and leave the same cache. -/
theorem answers_filter_isSound (table : Declarations) (cache : SchemaCache)
    (requests : List Request) :
    cacheAfter table cache (requests.filter (isSound table)) = cacheAfter table cache requests ∧
      (requests.filter (isSound table)).zip
          (answers table cache (requests.filter (isSound table)))
        = (requests.zip (answers table cache requests)).filter fun step => step.1.isSound table := by
  induction requests generalizing cache with
  | nil => exact ⟨rfl, rfl⟩
  | cons request rest ih =>
      cases hsound : request.isSound table with
      | true =>
          obtain ⟨hcache, hanswers⟩ := ih (request.answer table cache).2
          rw [List.filter_cons_of_pos hsound]
          refine ⟨hcache, ?_⟩
          rw [answers, answers, List.zip_cons_cons, List.zip_cons_cons,
            List.filter_cons_of_pos (by exact hsound), hanswers]
      | false =>
          obtain ⟨hcache, hanswers⟩ := ih cache
          have hbroken : ¬request.isSound table = true := by simp [hsound]
          have hsame := answer_of_broken hsound cache
          rw [List.filter_cons_of_neg hbroken]
          refine ⟨hcache.trans ?_, hanswers.trans ?_⟩
          · simp only [cacheAfter, List.foldl_cons, hsame]
          · rw [answers, List.zip_cons_cons, List.filter_cons_of_neg (by exact hbroken), hsame]

/-- The cache of a session is invisible.  Every step is answered as it would be alone; two schemas
that were given out through the cache are the very same one exactly when they are of the same type;
a derivation that fails leaves the cache as it was; and leaving out all the steps whose types have
no schema changes no other answer. -/
theorem answers_alone (table : Declarations) (requests : List Request) :
    (answers table .empty requests).map Answer.unshared = requests.map (alone table) ∧
    (∀ (index index' : Nat) (root other : Ty) (shared shared' : SharedSchema),
      requests[index]? = some (.cached root) → requests[index']? = some (.cached other) →
        (answers table .empty requests)[index]? = some (.shared (.ok shared)) →
          (answers table .empty requests)[index']? = some (.shared (.ok shared')) →
            (shared.number = shared'.number ↔ root = other) ∧ (root = other → shared = shared')) ∧
    (∀ (cache : SchemaCache) (root : Ty) (fault : SchemaFault),
      (cache.derive table root).1 = .error fault → (cache.derive table root).2 = cache) ∧
    cacheAfter table .empty (requests.filter (isSound table)) = cacheAfter table .empty requests ∧
    (requests.filter (isSound table)).zip
        (answers table .empty (requests.filter (isSound table)))
      = (requests.zip (answers table .empty requests)).filter fun step => step.1.isSound table := by
  refine ⟨answers_unshared SchemaCache.empty_isDerived requests, ?_, ?_,
    answers_filter_isSound table .empty requests⟩
  · intro index index' root other shared shared' hroot hother hshared hshared'
    have hnumbered : (cacheAfter table .empty requests).Numbered :=
      cacheAfter_numbered SchemaCache.empty_numbered requests
    have hfind := find?_cacheAfter hroot hshared
    have hfind' := find?_cacheAfter hother hshared'
    have hsame : root = other → shared = shared' := by
      rintro rfl
      exact Option.some.inj (hfind.symm.trans hfind')
    exact ⟨⟨hnumbered.distinct root other shared shared' hfind hfind',
      fun h => congrArg SharedSchema.number (hsame h)⟩, hsame⟩
  · intro cache root fault h
    exact SchemaCache.derive_of_error h

/-- A sound type in place 0 and a broken one in place 1: its collection is none. -/
def brokenBesideSound : Declarations :=
  ⟨[⟨"Port", none, [⟨"port", .scalar .int, false⟩], 0, []⟩,
    ⟨"Ports", none, [⟨"ports", .scalar .int, true⟩], 0, []⟩]⟩

/-- Maps of two kinds, which are named alike, before and after derivations that fail. -/
def mixedSteps : List Request :=
  [.cached (.map .hashed (.object 0)), .cached (.object 1), .cached (.map .sorted (.object 0)),
    .load .standard (.list (.object 1)) .container (.text "\x7b\x7d"), .cached (.object 1),
    .cached (.map .hashed (.object 0))]

theorem mixedSteps_answers : ∃ first second,
    (answers brokenBesideSound .empty mixedSteps)[0]? = some (.shared (.ok first)) ∧
    (answers brokenBesideSound .empty mixedSteps)[2]? = some (.shared (.ok second)) ∧
    (answers brokenBesideSound .empty mixedSteps)[5]? = some (.shared (.ok first)) ∧
    first.number ≠ second.number ∧
    (answers brokenBesideSound .empty mixedSteps).map Answer.unshared
      = mixedSteps.map (alone brokenBesideSound) ∧
    mixedSteps.filter (isSound brokenBesideSound)
      = [.cached (.map .hashed (.object 0)), .cached (.map .sorted (.object 0)),
        .cached (.map .hashed (.object 0))] := by
  obtain ⟨hanswers, hsame, -⟩ := answers_alone brokenBesideSound mixedSteps
  refine ⟨_, _, rfl, rfl, rfl, ?_, hanswers, rfl⟩
  exact mt (hsame 0 2 (.map .hashed (.object 0)) (.map .sorted (.object 0)) _ _ rfl rfl rfl rfl).1.mp
    (by decide)

end Request

end TypedConfig
