import TypedConfig.Proofs.Document.Quoting
import TypedConfig.Proofs.Session
import TypedConfig.Proofs.Value.Reading

/-!
Every value has a document.  A value of a map or object type is written as a tree and the tree as a
text, and loading the text gives the value back: what the writer chose, the order of the entries,
the layout and the words of the units, makes no difference.
-/

namespace TypedConfig

/-- Whether the values of a type are written as dictionaries. -/
def Ty.isKeyed (type : Ty) : Bool :=
  match type.core with
  | .map _ _ => true
  | .object _ => true
  | _ => false

namespace Bound

variable {table : Declarations} {type : Ty} {value : Bound} {tree : Node}

/-- A text that a value of a type is written as: that of its tree, with every name quoted and commas
between siblings. -/
def HasText (table : Declarations) (type : Ty) (value : Bound) (text : String) : Prop :=
  ∃ tree, WrittenAs table type value tree ∧ Style.quoting.Written tree [] text.toList

theorem WrittenAs.dictionary (h : WrittenAs table type value tree) (htype : type.isKeyed = true) :
    ∃ fields, tree = .dictionary fields .none := by
  induction h with
  | scalar _ _ => cases htype
  | option _ ih => exact ih htype
  | box _ ih => exact ih htype
  | list _ _ => cases htype
  | map _ _ _ => exact ⟨_, rfl⟩
  | object _ _ _ _ => exact ⟨_, rfl⟩

/-- The literals of a written tree are whole tokens. -/
theorem WrittenAs.isToken (h : WrittenAs table type value tree) :
    ∀ leaf, tree.HasLiteral leaf → Token.IsToken leaf.kind leaf.text.toList := by
  induction h with
  | scalar _ htoken =>
      rintro _ ⟨⟩
      rw [String.toList_ofList]
      exact htoken.isToken
  | option _ ih => exact ih
  | box _ ih => exact ih
  | list _ ih =>
      rintro leaf (_ | ⟨hmem, hleaf⟩)
      obtain ⟨item, hitem, rfl⟩ := List.mem_map.mp hmem
      exact ih item hitem leaf hleaf
  | map _ _ ih =>
      rintro leaf (_ | _ | ⟨hmem, hleaf⟩)
      obtain ⟨member, hmember, rfl⟩ := List.mem_map.mp hmem
      exact ih member hmember leaf hleaf
  | object _ hdeclared _ ih =>
      rintro leaf (_ | _ | ⟨hmem, hleaf⟩)
      obtain ⟨member, hmember, rfl⟩ := List.mem_map.mp hmem
      obtain ⟨type, htype⟩ := hdeclared member hmember
      exact ih member hmember type htype leaf hleaf

/-- A written value has the text of its tree. -/
theorem WrittenAs.hasText (h : WrittenAs table type value tree) {text : String}
    (htext : text.toList = tree.quoted) : HasText table type value text := by
  refine ⟨tree, h, ?_⟩
  rw [htext]
  exact Style.quoting_quoted h.isToken []

end Bound

/-- A document is bound to what its root is bound to without the spans. -/
theorem Document.bind_of_bare {table : Declarations} {root : Ty} {schema : Schema}
    (h : Schema.derive table root = .ok schema) {document : Document} {tree : Node} {value : Bound}
    (hbare : document.root.bare = tree.bare) (htree : Direct.node table root none tree = .ok value) :
    document.bind schema root = .ok value := by
  rw [Document.bind_eq_node h, ← Direct.toOption_eq_some,
    ← Direct.node_spanless document.root root none, hbare, Direct.node_spanless tree root none, htree]
  rfl

/-- A text that a value is written as is loaded as the value. -/
theorem Source.load_of_hasText {table : Declarations} {root : Ty} {schema : Schema}
    (hschema : Schema.derive table root = .ok schema) (hroot : root.isKeyed = true) {value : Bound}
    (hnesting : value.nesting ≤ 128) {text : String} (htext : value.HasText table root text) :
    Source.load (.text text) table root (.value root) = .ok (.value value) := by
  obtain ⟨tree, htree, hwritten⟩ := htext
  obtain ⟨fields, rfl⟩ := htree.dictionary hroot
  obtain ⟨document, hparse, hbare⟩ := Document.parse_legible Document.quoting_legible hwritten
    (htree.nesting_le.trans hnesting)
  have hbind := Document.bind_of_bare hschema hbare (htree.node_eq none)
  rw [String.ofList_toList] at hparse
  simp only [load, read, Unopened.load, Unopened.document, hschema, hparse, Document.reach, hbind,
    Except.mapError, Except.map, bind, Except.bind]

/-- Every value of a map or object type has a text, and every text that it is written as is loaded
as the value, whatever was loaded before in the session and whether schemas are kept or not. -/
theorem Source.load_written {table : Declarations} {root : Ty} {schema : Schema}
    (hschema : Schema.derive table root = .ok schema) (hroot : root.isKeyed = true) {value : Bound}
    (hvalue : value.HasType table root) (hnesting : value.nesting ≤ 128) :
    (∃ text, value.HasText table root text) ∧ ∀ text, value.HasText table root text →
      Source.load (.text text) table root (.value root) = .ok (.value value) ∧
        ∀ options earlier, (Request.answers table .empty
          (earlier ++ [.load options root (.value root) (.text text)])).getLast?
            = some (.loaded (.ok (.value value))) := by
  obtain ⟨tree, htree⟩ := hvalue.written
  refine ⟨⟨String.ofList tree.quoted, htree.hasText String.toList_ofList⟩, ?_⟩
  intro text htext
  have hload := Source.load_of_hasText hschema hroot hnesting htext
  refine ⟨hload, ?_⟩
  intro options earlier
  obtain ⟨later, hlater, hlast⟩ := Request.getLast?_answers SchemaCache.empty_isDerived earlier
    (.load options root (.value root) (.text text))
  rw [hlast, Request.answer_load hlater, hload]

/-- An object type with an optional duration and a map that is sorted by key. -/
def jobTable : Declarations :=
  ⟨[⟨"Job", none, [⟨"every", .option (.scalar .duration), false⟩,
    ⟨"limits", .map .sorted (.scalar .long), true⟩], 0, []⟩]⟩

def jobLimits : List Bound.Member :=
  [⟨"b", .scalar (.long 2), .literal ⟨.long, .ofList ['2', 'L'], .none⟩⟩,
    ⟨"a", .scalar (.long 1), .literal ⟨.long, .ofList ['1', 'L'], .none⟩⟩]

def jobFields : List Bound.Member :=
  [⟨"every", .present (.scalar (.duration .zero)),
      .literal ⟨.duration .iso8601, .ofList "PT0S".toList, .none⟩⟩,
    ⟨"limits", .map [("a", .scalar (.long 1)), ("b", .scalar (.long 2))],
      .dictionary (jobLimits.map Bound.Member.field) .none⟩]

def job : Bound := .object 0 (jobFields.map Bound.Member.call)

theorem job_writtenAs :
    job.WrittenAs jobTable (.object 0) (.dictionary (jobFields.map Bound.Member.field) .none) := by
  have hevery : Bound.WrittenAs jobTable (.option (.scalar .duration))
      (.present (.scalar (.duration .zero)))
      (.literal ⟨.duration .iso8601, .ofList "PT0S".toList, .none⟩) := by
    apply Bound.WrittenAs.option
    refine .scalar (.duration ?_) .noTime
    intro unit
    cases unit <;> decide
  have hlimits : Bound.WrittenAs jobTable (.map .sorted (.scalar .long))
      (.map (Entries.ofList .sorted (jobLimits.map Bound.Member.entry)))
      (.dictionary (jobLimits.map Bound.Member.field) .none) := by
    refine .map (by decide) (List.forall_mem_cons.mpr ⟨?_, List.forall_mem_singleton.mpr ?_⟩)
    · have htwo : 0 ≤ (2 : Int64).toInt := by decide
      exact .scalar (.long htwo) (.long htwo)
    · have hone : 0 ≤ (1 : Int64).toInt := by decide
      exact .scalar (.long hone) (.long hone)
  refine .object ⟨by decide, rfl⟩ ?_ ?_
  · exact List.forall_mem_cons.mpr ⟨⟨_, rfl⟩, List.forall_mem_singleton.mpr ⟨_, rfl⟩⟩
  · refine List.forall_mem_cons.mpr ⟨?_, List.forall_mem_singleton.mpr ?_⟩
    · rintro _ ⟨⟩
      exact hevery
    · rintro _ ⟨⟩
      exact hlimits

theorem job_load : ∃ schema, Schema.derive jobTable (.object 0) = .ok schema ∧
    job.HasType jobTable (.object 0) ∧ job.nesting ≤ 128 ∧
      Source.load (.text "\x7b\"every\":PT0S,\"limits\":\x7b\"b\":2L,\"a\":1L\x7d\x7d") jobTable
        (.object 0) (.value (.object 0)) = .ok (.value job) := by
  have htype := job_writtenAs.hasType
  have hnesting : job.nesting ≤ 128 := by decide
  refine ⟨_, rfl, htype, hnesting, ?_⟩
  exact ((Source.load_written rfl rfl htype hnesting).2 _ (job_writtenAs.hasText rfl)).1

end TypedConfig
