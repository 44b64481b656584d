import TypedConfig.Proofs.Record.Members
import TypedConfig.Proofs.Value.Reading

/-!
The order of the fields of a dictionary does not matter.  Whether a dictionary is bound is the same
for every order of its fields, and its fields make the same calls in the new order.  Where fields of
one name stay in their order, the members of a record and the values in a map come out the same.
-/

namespace TypedConfig

/-- Fields of one name are in the same order in both of two dictionaries. -/
def SameOrder (fields others : List (Field Node)) : Prop :=
  ∀ name, fields.filter (fun field => field.name.name == name)
    = others.filter fun field => field.name.name == name

variable {table : Declarations} {fields others : List (Field Node)}

/-- What reaches a member comes in the same order. -/
theorem SameOrder.filter_calledAs (h : SameOrder fields others) (member : Member) :
    fields.filter (fun field => some field.name.name == member.calledAs table)
      = others.filter fun field => some field.name.name == member.calledAs table := by
  cases member.calledAs table with
  | none => simp
  | some name => simpa using h name

/-- A member is the same after the calls of two dictionaries. -/
theorem Member.foldl_receive_sameOrder {made : Field Node → Call Bound}
    (hsame : SameOrder fields others) (hfields : Member.Named fields made)
    (hothers : Member.Named others made) (member : Member) (current : Bound) :
    (fields.map made).foldl (member.receive table) current
      = (others.map made).foldl (member.receive table) current := by
  rw [foldl_receive_filter hfields, foldl_receive_filter hothers, hsame.filter_calledAs]

/-- A record is the same after the calls of two dictionaries. -/
theorem Record.values_sameOrder {made : Field Node → Call Bound}
    (hsame : SameOrder fields others) (hfields : Member.Named fields made)
    (hothers : Member.Named others made) (keyed : List (Call Bound)) (record : Record) :
    record.values table (keyed ++ fields.map made)
      = record.values table (keyed ++ others.map made) := by
  refine List.map_congr_left fun member _ => ?_
  rw [Member.after_append, Member.after_append,
    Member.foldl_receive_sameOrder hsame hfields hothers]

/-- Maps filled from two dictionaries hold the same values. -/
theorem Entries.lookup_ofList_sameOrder {α : Type} {made : Field Node → String × α}
    (hsame : SameOrder fields others)
    (hfields : ∀ field ∈ fields, (made field).1 = field.name.name)
    (hothers : ∀ field ∈ others, (made field).1 = field.name.name) (kind : MapKind)
    (key : String) :
    (ofList kind (fields.map made)).lookup key = (ofList kind (others.map made)).lookup key := by
  rw [lookup_ofList_map hfields, lookup_ofList_map hothers, hsame key]

namespace Direct

variable {object : ObjectType} {element : Ty}

/-- Whether a dictionary is bound does not depend on the order of its fields. -/
theorem exists_node_perm (hperm : fields.Perm others) {type : Ty} {key : Option String}
    {span later : Span} :
    (∃ value, node table type key (.dictionary fields span) = .ok value)
      ↔ ∃ value, node table type key (.dictionary others later) = .ok value := by
  simp only [exists_node_dictionary_iff, hperm.mem_iff]

/-- Two dictionaries make the calls of their fields, each in its order, after the key call; and the
members of a record are the same after them where fields of one name keep their order. -/
theorem node_object_reordered {type : Ty} {id : Nat} (hcore : type.core = .object id)
    {key : Option String} {span later : Span} {first second : Bound}
    (hfirst : node table type key (.dictionary fields span) = .ok first)
    (hsecond : node table type key (.dictionary others later) = .ok second) :
    ∃ made : Field Node → Call Bound,
      first = type.wrap (.object id (keyCalls (table.object id) key ++ fields.map made)) ∧
      second = type.wrap (.object id (keyCalls (table.object id) key ++ others.map made)) ∧
      (SameOrder fields others → ∀ record : Record,
        record.values table (keyCalls (table.object id) key ++ fields.map made)
          = record.values table (keyCalls (table.object id) key ++ others.map made)) := by
  obtain ⟨-, calls, hcalls, rfl⟩ := (node_object_eq_ok_iff hcore).mp hfirst
  obtain ⟨-, more, hmore, rfl⟩ := (node_object_eq_ok_iff hcore).mp hsecond
  obtain ⟨rfl, hfields⟩ := calls_eq_map hcalls
  obtain ⟨rfl, hothers⟩ := calls_eq_map hmore
  exact ⟨_, rfl, rfl, fun hsame record =>
    record.values_sameOrder hsame (Member.named_of_call hfields) (Member.named_of_call hothers) _⟩

/-- Two maps hold the same values where fields of one name keep their order. -/
theorem node_map_reordered {type : Ty} {kind : MapKind} (hcore : type.core = .map kind element)
    {key : Option String} {span later : Span} {first second : Bound}
    (hfirst : node table type key (.dictionary fields span) = .ok first)
    (hsecond : node table type key (.dictionary others later) = .ok second) :
    ∃ entries more, first = type.wrap (.map entries) ∧ second = type.wrap (.map more) ∧
      (SameOrder fields others → ∀ name, entries.lookup name = more.lookup name) := by
  obtain ⟨found, hfound, rfl⟩ := (node_map_eq_ok_iff hcore).mp hfirst
  obtain ⟨more, hmore, rfl⟩ := (node_map_eq_ok_iff hcore).mp hsecond
  obtain ⟨rfl, hfields⟩ := entries_eq_map hfound
  obtain ⟨rfl, hothers⟩ := entries_eq_map hmore
  refine ⟨_, _, rfl, rfl, fun hsame => Entries.lookup_ofList_sameOrder hsame ?_ ?_ kind⟩
  · exact fun field hfield => putBy_name (hfields field hfield)
  · exact fun field hfield => putBy_name (hothers field hfield)

/-- A dictionary binds to the same value as its fields without their spans. -/
theorem node_dictionary_bare (type : Ty) (key : Option String) (members : List (Field Node))
    (span : Span) (value : Bound) :
    node table type key (.dictionary members span) = .ok value ↔
      node table type key (.dictionary (members.map Field.bare) .none) = .ok value := by
  rw [← toOption_eq_some, ← toOption_eq_some, ← node_spanless (.dictionary members span) type key,
    Node.bare, bareFields_eq_map]

end Direct

/-- The order of fields does not matter.  Of two dictionaries with the same fields in two orders,
each at a place of one type, both are bound or none is.  At a place of an object type they make the
same calls in the two orders, after the call for the key; and where fields of one name keep their
order, every record has the same members after the one as after the other, and at a place of a map
type both give the same value under every name.  The fields are the same also where they stand at
other places of a text, and what else is expected or open around the dictionaries does not matter.
-/
theorem Walk.bound_perm {root : Ty} {schema : Schema} (h : Schema.derive table root = .ok schema)
    {type : Ty} {id : DescriptorId} (hdescribes : schema.Describes id type)
    {first second : List (Field Node)}
    (hperm : (first.map Field.bare).Perm (second.map Field.bare)) (key : Option String)
    (span later : Span) (expected others : List DescriptorId) (containers opened : List Value) :
    ((∃ value, bound schema type key (.dictionary first span) ⟨id :: expected, containers⟩
        = .ok value) ↔
      ∃ value, bound schema type key (.dictionary second later) ⟨id :: others, opened⟩
        = .ok value) ∧
    ∀ one other,
      bound schema type key (.dictionary first span) ⟨id :: expected, containers⟩ = .ok one →
      bound schema type key (.dictionary second later) ⟨id :: others, opened⟩ = .ok other →
      (∀ object, type.core = .object object → ∃ made : Field Node → Call Bound,
        one = type.wrap (.object object (Direct.keyCalls (table.object object) key
          ++ (first.map Field.bare).map made)) ∧
        other = type.wrap (.object object (Direct.keyCalls (table.object object) key
          ++ (second.map Field.bare).map made)) ∧
        (SameOrder (first.map Field.bare) (second.map Field.bare) → ∀ record : Record,
          record.values table (Direct.keyCalls (table.object object) key
              ++ (first.map Field.bare).map made)
            = record.values table (Direct.keyCalls (table.object object) key
              ++ (second.map Field.bare).map made))) ∧
      ∀ kind element, type.core = .map kind element → ∃ entries more,
        one = type.wrap (.map entries) ∧ other = type.wrap (.map more) ∧
        (SameOrder (first.map Field.bare) (second.map Field.bare) →
          ∀ name, entries.lookup name = more.lookup name) := by
  obtain ⟨rfl, hfaithful, -⟩ := Schema.derive_faithful h
  rw [bound_eq hfaithful hdescribes, bound_eq hfaithful hdescribes]
  have hfirst := @Direct.node_dictionary_bare schema.table type key first span
  have hsecond := @Direct.node_dictionary_bare schema.table type key second later
  refine ⟨?_, fun one other hone hother => ?_⟩
  · exact (exists_congr hfirst).trans
      ((Direct.exists_node_perm hperm).trans (exists_congr hsecond).symm)
  · rw [hfirst] at hone
    rw [hsecond] at hother
    exact ⟨fun object hcore => Direct.node_object_reordered hcore hone hother,
      fun kind element hcore => Direct.node_map_reordered hcore hone hother⟩

/-- Documents of a pool, whose fields stand on lines of their own in two orders: two extensions of
one name, with a field and another extension between them and with the field in front. -/
def reorderedPools : Document × Document :=
  let stand (line : Nat) (name : String) (value : Node) : Field Node :=
    ⟨⟨name, ⟨0, 0, line, 1⟩⟩, value, ⟨0, 0, line, 1⟩⟩
  let host (name : String) : Node :=
    .dictionary [stand 5 "host" (.literal ⟨.string, name, .none⟩)] .none
  let size : Node := .literal ⟨.integer, "3", .none⟩
  (⟨[stand 1 "member" (host "a"), stand 2 "size" size, stand 3 "backup" (host "c"),
      stand 4 "member" (host "b")], .none⟩,
    ⟨[stand 1 "size" size, stand 2 "member" (host "a"), stand 3 "member" (host "b"),
      stand 4 "backup" (host "c")], .none⟩)

def pooledMember (host : String) : Bound :=
  .object Catalogue.memberId [.key "member", .field "host" (.scalar (.string host))]

def pooledBackup (host : String) : Bound :=
  .object Catalogue.backupId [.field "host" (.scalar (.string host))]

theorem pool_reordered :
    let first : List (Call Bound) :=
      [.extension "member" (pooledMember "a"), .field "size" (.scalar (.integer 3)),
        .extension "backup" (pooledBackup "c"), .extension "member" (pooledMember "b")]
    let second : List (Call Bound) :=
      [.field "size" (.scalar (.integer 3)), .extension "member" (pooledMember "a"),
        .extension "member" (pooledMember "b"), .extension "backup" (pooledBackup "c")]
    (∃ schema, Schema.derive (Catalogue.table []) (.object Catalogue.poolId) = .ok schema ∧
      schema.Describes schema.root (.object Catalogue.poolId) ∧
      (reorderedPools.1.fields.map Field.bare).Perm (reorderedPools.2.fields.map Field.bare) ∧
      SameOrder (reorderedPools.1.fields.map Field.bare)
        (reorderedPools.2.fields.map Field.bare) ∧
      reorderedPools.1.bind schema (.object Catalogue.poolId)
        = .ok (.object Catalogue.poolId first) ∧
      reorderedPools.2.bind schema (.object Catalogue.poolId)
        = .ok (.object Catalogue.poolId second)) ∧
    (∀ record : Record,
      record.values (Catalogue.table []) first = record.values (Catalogue.table []) second) ∧
    Catalogue.pool.values (Catalogue.table []) second
      = [("name", .scalar (.string "unnamed")), ("size", .scalar (.integer 3)),
        ("members", .list [.object Catalogue.memberId [], pooledMember "a", pooledMember "b"]),
        ("backups", .list [pooledBackup "c"])] := by
  intro first second
  obtain ⟨schema, hderive, hone, hother⟩ : ∃ schema,
      Schema.derive (Catalogue.table []) (.object Catalogue.poolId) = .ok schema ∧
        reorderedPools.1.bind schema (.object Catalogue.poolId)
          = .ok (.object Catalogue.poolId first) ∧
        reorderedPools.2.bind schema (.object Catalogue.poolId)
          = .ok (.object Catalogue.poolId second) := ⟨_, rfl, rfl, rfl⟩
  obtain ⟨-, -, hroot⟩ := Schema.derive_faithful hderive
  have hperm : (reorderedPools.1.fields.map Field.bare).Perm
      (reorderedPools.2.fields.map Field.bare) :=
    (List.Perm.swap _ _ _).trans (((List.Perm.swap _ _ _).cons _).cons _)
  have hsame : SameOrder (reorderedPools.1.fields.map Field.bare)
      (reorderedPools.2.fields.map Field.bare) := by
    intro name
    by_cases hmember : "member" = name
    · subst hmember
      rfl
    · by_cases hbackup : "backup" = name
      · subst hbackup
        rfl
      · simp [reorderedPools, Field.bare, List.filter_cons, hmember, hbackup]
  obtain ⟨-, hequal⟩ := @Walk.bound_perm (Catalogue.table []) (.object Catalogue.poolId) schema
    hderive (.object Catalogue.poolId) schema.root hroot reorderedPools.1.fields
    reorderedPools.2.fields hperm none .none .none [] [] [] []
  obtain ⟨made, hfirst, hsecond, hrecords⟩ := (hequal _ _
    ((Document.bind_eq_bound schema _ _).symm.trans hone)
    ((Document.bind_eq_bound schema _ _).symm.trans hother)).1 Catalogue.poolId rfl
  refine ⟨⟨schema, hderive, hroot, hperm, hsame, hone, hother⟩, fun record => ?_, rfl⟩
  rw [(Bound.object.inj hfirst).2, (Bound.object.inj hsecond).2]
  exact hrecords hsame record

end TypedConfig
