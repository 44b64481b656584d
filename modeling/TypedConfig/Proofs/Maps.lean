import TypedConfig.Proofs.Document.Placement
import TypedConfig.Proofs.Instances
import TypedConfig.Proofs.Literal.Escape

/-!
What a map holds after a dictionary was bound to it.  Each name stands once, where the dictionary
has it first, and under it is what the last field of the name is bound to; the other fields are
bound all the same.  Names are compared as they are decoded.
-/

namespace TypedConfig

namespace Entries

variable {α : Type}

/-- A map by insertion lists the keys where they were put first. -/
theorem keys_ofList_insertion (entries : List (String × α)) :
    keys (ofList .insertion entries) = (keys entries).eraseDups := by
  induction entries using List.reverseRecOn with
  | nil => rfl
  | append_singleton rest entry ih =>
      have hput : ofList .insertion (rest ++ [entry])
          = put entry.1 entry.2 (ofList .insertion rest) := List.foldl_append
      have hkeys : keys (rest ++ [entry]) = keys rest ++ [entry.1] := List.map_append
      rw [hput, keys_put, ih, hkeys, List.eraseDups_append]
      simp only [List.mem_eraseDups, List.removeAll]
      by_cases hold : entry.1 ∈ keys rest
      · simp [hold]
      · simp [hold, List.eraseDups_cons]

/-- A map of any kind has the keys that were put into it. -/
theorem mem_keys_ofList (kind : MapKind) (entries : List (String × α)) (key : String) :
    key ∈ keys (ofList kind entries) ↔ key ∈ keys entries := by
  have hkeys : key ∈ keys entries.reverse ↔ key ∈ keys entries := by
    simp [keys]
  rw [← not_iff_not, ← lookup_eq_none_iff, lookup_ofList, lookup_eq_none_iff, hkeys]

end Entries

/-- What a map of some kind holds of the fields of a dictionary: each name once, in the order of
insertion where it stands first, and under it what the last field of the name is bound to.  An
object that asks for its key was told the name it stands under. -/
structure Collected (table : Declarations) (kind : MapKind) (element : Ty)
    (bind : Field Node → Except ConfigError Bound) (fields : List (Field Node))
    (entries : List (String × Bound)) : Prop where
  nodup : (Entries.keys entries).Nodup
  names : ∀ name, name ∈ Entries.keys entries ↔ ∃ field ∈ fields, field.name.name = name
  order : kind = .insertion →
    Entries.keys entries = (fields.map fun field => field.name.name).eraseDups
  last : ∀ name value, (name, value) ∈ entries → ∃ field,
    (fields.filter fun other => other.name.name == name).getLast? = some field ∧
      bind field = .ok value
  told : ∀ object, element.core = .object object → (table.object object).keys = 1 →
    ∀ name value, (name, value) ∈ entries → ∃ calls,
      value = element.wrap (.object object (.key name :: calls)) ∧ ∀ other, Call.key other ∉ calls

namespace Direct

variable {table : Declarations} {type element : Ty} {kind : MapKind} {fields : List (Field Node)}

/-- No field calls for the key. -/
theorem key_not_mem_calls {object : ObjectType} {calls : List (Call Bound)}
    (h : List.Forall₂ (fun field made => call table object field = .ok made) fields calls)
    (name : String) : Call.key name ∉ calls := by
  induction h with
  | nil => exact List.not_mem_nil
  | cons hcall _ ih =>
      obtain ⟨acceptance, bound, -, -, rfl⟩ := call_eq_ok_iff.mp hcall
      rw [List.mem_cons, not_or]
      exact ⟨by cases acceptance <;> simp [Acceptance.call], ih⟩

/-- An object that asks for its key is told the name of the field or entry that it is bound from. -/
theorem node_told {name : String} {node : Node} {value : Bound} {object : Nat}
    (hcore : element.core = .object object) (hkey : (table.object object).keys = 1)
    (h : Direct.node table element (some name) node = .ok value) :
    ∃ calls, value = element.wrap (.object object (.key name :: calls)) ∧
      ∀ other, Call.key other ∉ calls := by
  cases node with
  | dictionary members span =>
      obtain ⟨-, calls, hcalls, rfl⟩ := (node_object_eq_ok_iff hcore).mp h
      refine ⟨calls, ?_, key_not_mem_calls hcalls⟩
      rw [keyCalls, if_pos hkey, List.singleton_append]
  | array items span =>
      rw [Direct.node, hcore] at h
      cases h
  | literal leaf =>
      rw [Direct.node, literal, hcore] at h
      cases hvalue : leaf.value <;> rw [hvalue] at h <;> cases h

/-- A dictionary is bound to a map exactly if each of its fields is bound by itself. -/
theorem exists_node_map_iff {key : Option String} {span : Span}
    (hcore : type.core = .map kind element) :
    (∃ value, node table type key (.dictionary fields span) = .ok value) ↔
      ∀ field ∈ fields, ∃ value, node table element (some field.name.name) field.value
        = .ok value := by
  rw [exists_node_dictionary_iff, hcore]
  simp only [entry_eq_ok_iff]
  refine forall₂_congr fun field _ => ⟨?_, ?_⟩
  · rintro ⟨_, value, hvalue, -⟩
    exact ⟨value, hvalue⟩
  · rintro ⟨value, hvalue⟩
    exact ⟨_, value, hvalue, rfl⟩

/-- Two maps that a dictionary is bound to hold the same values, of whatever kinds they are. -/
theorem lookup_eq_of_node {other : Ty} {kind' : MapKind} {key key' : Option String}
    {span span' : Span}
    (hcore : type.core = .map kind element) (hcore' : other.core = .map kind' element)
    {entries more : List (String × Bound)}
    (h : node table type key (.dictionary fields span) = .ok (type.wrap (.map entries)))
    (hother : node table other key' (.dictionary fields span') = .ok (other.wrap (.map more)))
    (name : String) : entries.lookup name = more.lookup name := by
  obtain ⟨found, hfound, hentries⟩ := (node_map_eq_ok_iff hcore).mp h
  obtain ⟨again, hagain, hmore⟩ := (node_map_eq_ok_iff hcore').mp hother
  rw [Bound.map.inj (type.wrap_injective hentries), Bound.map.inj (other.wrap_injective hmore),
    (entries_eq_map hfound).1, (entries_eq_map hagain).1, Entries.lookup_ofList,
    Entries.lookup_ofList]

/-- What a map holds under a name is what the last field of the name is bound to. -/
theorem collected_of_node {key : Option String} {span : Span} {value : Bound}
    (hcore : type.core = .map kind element)
    (h : node table type key (.dictionary fields span) = .ok value) :
    ∃ entries, value = type.wrap (.map entries) ∧ Collected table kind element
      (fun field => node table element (some field.name.name) field.value) fields entries := by
  obtain ⟨found, hfound, rfl⟩ := (node_map_eq_ok_iff hcore).mp h
  obtain ⟨rfl, hput⟩ := entries_eq_map hfound
  have hname : ∀ field ∈ fields, (putBy table element field).1 = field.name.name :=
    fun field hfield => putBy_name (hput field hfield)
  have hkeys : Entries.keys (fields.map (putBy table element))
      = fields.map fun field => field.name.name := by
    rw [Entries.keys, List.map_map]
    exact List.map_congr_left hname
  have hnodup := Entries.keys_ofList_nodup kind (fields.map (putBy table element))
  have hlast : ∀ name item, (name, item) ∈ Entries.ofList kind (fields.map (putBy table element)) →
      ∃ field, (fields.filter fun other => other.name.name == name).getLast? = some field ∧
        node table element (some field.name.name) field.value = .ok item := by
    intro name item hmem
    -- No key stands twice, so an entry is what is found under its name.
    have hget := Entries.lookup_of_mem hnodup hmem
    rw [Entries.lookup_ofList_map hname] at hget
    obtain ⟨field, hfield, rfl⟩ := Option.map_eq_some_iff.mp hget
    refine ⟨field, hfield, ?_⟩
    obtain ⟨hfields, -⟩ := List.mem_filter.mp (List.mem_of_getLast? hfield)
    obtain ⟨bound, hbound, hentry⟩ := entry_eq_ok_iff.mp (hput field hfields)
    rw [hentry]
    exact hbound
  refine ⟨_, rfl, hnodup, fun name => ?_, fun hkind => ?_, hlast, ?_⟩
  · rw [Entries.mem_keys_ofList, hkeys, List.mem_map]
  · subst hkind
    rw [Entries.keys_ofList_insertion, hkeys]
  · intro object hobject hkey name item hmem
    obtain ⟨field, hfield, hbound⟩ := hlast name item hmem
    obtain ⟨-, hsame⟩ := List.mem_filter.mp (List.mem_of_getLast? hfield)
    rw [beq_iff_eq.mp hsame] at hbound
    exact node_told hobject hkey hbound

end Direct

/-- A dictionary with some fields stands in a tree. -/
inductive Node.HasDictionary (fields : List (Field Node)) : Node → Prop
  | dictionary {span : Span} : HasDictionary fields (.dictionary fields span)
  | item {items : List Node} {span : Span} {item : Node} :
      item ∈ items → HasDictionary fields item → HasDictionary fields (.array items span)
  | field {others : List (Field Node)} {span : Span} {field : Field Node} :
      field ∈ others → HasDictionary fields field.value →
        HasDictionary fields (.dictionary others span)

/-- A name is what the piece of the text under its span is decoded as, with or without quotes. -/
def Identifier.Spelled (text : List Char) (name : Identifier) : Prop :=
  ∃ before token, name.span.Covers text before token ∧
    name.name.toList = Literal.decodeString token

section Spelling

variable {text before after : List Char}

/-- A bare name is decoded as itself. -/
theorem decodeString_identifier {token : List Char}
    (h : Token.identifier token = some (token, [])) : Literal.decodeString token = token := by
  have hplain : ∀ text : List Char, (∀ c ∈ text, c ≠ '\\') → Literal.unescape text = text := by
    intro text htext
    induction text with
    | nil => rfl
    | cons c rest ih =>
        obtain ⟨hc, hrest⟩ := List.forall_mem_cons.mp htext
        rw [Literal.unescape_plain hc, ih hrest]
  cases token with
  | nil => cases h
  | cons c more =>
      simp only [Token.identifier, Option.ite_none_right_eq_some, Option.some.injEq,
        Prod.mk.injEq, List.cons.injEq, true_and] at h
      obtain ⟨hstart, hmore, -⟩ := h
      have hquote : c ≠ '"' := by
        rintro rfl
        exact absurd hstart (by decide)
      have hunquote : Literal.unquote (c :: more) = c :: more := by
        unfold Literal.unquote
        split
        · rename_i heq
          exact absurd (List.cons.inj heq).1 hquote
        · rfl
      rw [Literal.decodeString, hunquote]
      refine hplain _ (List.forall_mem_cons.mpr ⟨?_, fun d hd => ?_⟩)
      · rintro rfl
        exact absurd hstart (by decide)
      · rintro rfl
        exact absurd (List.takeWhile_eq_self_iff.mp hmore _ hd) (by decide)

/-- What is written inside brackets is written somewhere in the whole text. -/
theorem exists_written_of_inside {α : Type} {item : α → List Char → List Char → Prop} {xs : List α}
    {body : List Char} (h : Style.accepted.Inside item xs before body)
    (htext : text = before ++ body ++ after) : ∀ x ∈ xs, ∃ before piece after,
      text = before ++ piece ++ after ∧ item x before piece :=
  inside_quotes h (fun _ _ before piece after htext hitem => ⟨before, piece, after, htext, hitem⟩)
    htext

theorem name_spelled {field : Field Node} {piece : List Char}
    (h : Style.accepted.FieldWritten field before piece) (htext : text = before ++ piece ++ after) :
    field.name.Spelled text := by
  cases h with
  | @field _ _ token first second part hname hspan _ _ _ _ =>
      have htoken : text = before ++ token ++ (first ++ ':' :: second ++ part ++ after) := by
        simp [htext]
      refine ⟨before, token, covers_of_span hspan htoken, ?_⟩
      rcases hname with ⟨hidentifier, hbare⟩ | ⟨-, hquoted⟩
      · rw [hbare, decodeString_identifier hidentifier]
      · exact hquoted

/-- The names of the dictionaries in a written tree are spelled in its text. -/
theorem Node.HasDictionary.spelled {fields : List (Field Node)} {node : Node}
    (h : node.HasDictionary fields) {before piece after : List Char}
    (htext : text = before ++ piece ++ after) (hwritten : Style.accepted.Written node before piece) :
    ∀ field ∈ fields, field.name.Spelled text := by
  induction h generalizing before piece after with
  | dictionary =>
      cases hwritten with
      | @dictionary _ _ _ body hinside _ =>
          have hbody : text = before ++ ['\x7b'] ++ body ++ ('\x7d' :: after) := by simp [htext]
          intro field hfield
          obtain ⟨_, _, _, hpiece, hfield⟩ := exists_written_of_inside hinside hbody field hfield
          exact name_spelled hfield hpiece
  | @item items span item hmem _ ih =>
      cases hwritten with
      | @array _ _ _ body hinside _ =>
          have hbody : text = before ++ ['['] ++ body ++ (']' :: after) := by simp [htext]
          obtain ⟨_, _, _, hpiece, hitem⟩ := exists_written_of_inside hinside hbody item hmem
          exact ih hpiece hitem
  | @field others span field hmem _ ih =>
      cases hwritten with
      | @dictionary _ _ _ body hinside _ =>
          have hbody : text = before ++ ['\x7b'] ++ body ++ ('\x7d' :: after) := by simp [htext]
          obtain ⟨front, piece, back, hpiece, hfield⟩ :=
            exists_written_of_inside hinside hbody field hmem
          cases hfield with
          | @field _ _ token first second part _ _ _ _ hvalue _ =>
              have hpart : text = front ++ (token ++ first ++ ':' :: second) ++ part ++ back := by
                simp [hpiece]
              exact ih hpart hvalue

end Spelling

/-- What a dictionary becomes at a place of a map type.  It is bound exactly if each of its fields
is bound by itself to the type of the elements, also those of which another one of the same name
follows.  The map then holds, for each name, what the last field of the name is bound to.  At a
place of another map type with the same elements, of whatever kind, the same dictionaries are bound
and the maps hold the same values under the same names.  In a document, a name is what its token is
decoded as. -/
theorem Walk.bound_map {table : Declarations} {root : Ty} {schema : Schema}
    (h : Schema.derive table root = .ok schema) {type element : Ty} {kind : MapKind}
    {id below : DescriptorId} (hdescribes : schema.Describes id type)
    (hcore : type.core = .map kind element) (hbelow : schema.Describes below element)
    (fields : List (Field Node)) (span : Span) (key : Option String)
    (expected others : List DescriptorId) (containers opened : List Value) :
    ((∃ value, bound schema type key (.dictionary fields span) ⟨id :: expected, containers⟩
        = .ok value) ↔
      ∀ field ∈ fields, ∃ value, bound schema element (some field.name.name) field.value
        ⟨below :: others, opened⟩ = .ok value) ∧
    (∀ value,
      bound schema type key (.dictionary fields span) ⟨id :: expected, containers⟩ = .ok value →
        ∃ entries, value = type.wrap (.map entries) ∧ Collected table kind element
          (fun field => bound schema element (some field.name.name) field.value
            ⟨below :: others, opened⟩) fields entries) ∧
    (∀ (root' type' : Ty) (schema' : Schema) (kind' : MapKind) (id' : DescriptorId),
      Schema.derive table root' = .ok schema' → schema'.Describes id' type' →
      type'.core = .map kind' element → ∀ span' key' expected' containers',
        ((∃ value, bound schema type key (.dictionary fields span) ⟨id :: expected, containers⟩
            = .ok value) ↔
          ∃ value, bound schema' type' key' (.dictionary fields span') ⟨id' :: expected', containers'⟩
            = .ok value) ∧
        ∀ entries more,
          bound schema type key (.dictionary fields span) ⟨id :: expected, containers⟩
            = .ok (type.wrap (.map entries)) →
          bound schema' type' key' (.dictionary fields span') ⟨id' :: expected', containers'⟩
            = .ok (type'.wrap (.map more)) →
          ∀ name, entries.lookup name = more.lookup name) ∧
    ∀ text document, Document.parse text = .ok document → document.root.HasDictionary fields →
      ∀ field ∈ fields, field.name.Spelled text.toList := by
  obtain ⟨rfl, hfaithful, -⟩ := Schema.derive_faithful h
  simp only [bound_eq hfaithful hdescribes, bound_eq hfaithful hbelow]
  refine ⟨?_, fun value hvalue => Direct.collected_of_node hcore hvalue, ?_, ?_⟩
  · exact Direct.exists_node_map_iff hcore
  · intro root' type' schema' kind' id' hderive hdescribes' hcore' span' key' expected' containers'
    obtain ⟨htable, hfaithful', -⟩ := Schema.derive_faithful hderive
    simp only [bound_eq hfaithful' hdescribes', htable]
    refine ⟨?_, fun entries more hentries hmore name => ?_⟩
    · exact (Direct.exists_node_map_iff hcore).trans (Direct.exists_node_map_iff hcore').symm
    · exact Direct.lookup_eq_of_node hcore hcore' hentries hmore name
  · intro text document hparse hfields
    obtain ⟨lead, body, trail, htext, -, hwritten, -⟩ := Document.written_of_parse hparse
    exact hfields.spelled htext hwritten

/-- A text in which a name is spelled in two ways. -/
def spellingsText : String := "\x7ba:\x7b\x7d,b:\x7b\x7d,\"\\u0061\":\x7binteger-value:7\x7d\x7d"

def spellings : Document :=
  ⟨[⟨⟨"a", ⟨1, 2, 1, 2⟩⟩, .dictionary [] ⟨3, 5, 1, 4⟩, ⟨1, 5, 1, 2⟩⟩,
    ⟨⟨"b", ⟨6, 7, 1, 7⟩⟩, .dictionary [] ⟨8, 10, 1, 9⟩, ⟨6, 10, 1, 7⟩⟩,
    ⟨⟨"a", ⟨11, 19, 1, 12⟩⟩, .dictionary [⟨⟨"integer-value", ⟨21, 34, 1, 22⟩⟩,
      .literal ⟨.integer, "7", ⟨35, 36, 1, 36⟩⟩, ⟨21, 36, 1, 22⟩⟩] ⟨20, 37, 1, 21⟩,
      ⟨11, 37, 1, 12⟩⟩], ⟨0, 38, 1, 1⟩⟩

theorem spellings_map :
    let flat : Ty := .object Catalogue.flatObjectId
    let entries : List (String × Bound) := [
      ("a", .object Catalogue.flatObjectId
        [.key "a", .field "integer-value" (.present (.scalar (.integer 7)))]),
      ("b", .object Catalogue.flatObjectId [.key "b"])]
    Document.parse spellingsText = .ok spellings ∧
    (∀ field ∈ spellings.fields, field.name.Spelled spellingsText.toList) ∧
    ∃ schema below, Schema.derive (Catalogue.table []) (.map .insertion flat) = .ok schema ∧
      schema.Describes schema.root (.map .insertion flat) ∧ schema.Describes below flat ∧
      spellings.bind schema (.map .insertion flat) = .ok (.map entries) ∧
      Collected (Catalogue.table []) .insertion flat
        (fun field => Walk.bound schema flat (some field.name.name) field.value ⟨[below], []⟩)
        spellings.fields entries ∧
      (Catalogue.table []).object Catalogue.flatObjectId = Catalogue.flatObject.objectType ∧
      Catalogue.flatObject.objectType.keys = 1 := by
  intro flat entries
  obtain ⟨schema, hderive⟩ :
      ∃ schema, Schema.derive (Catalogue.table []) (.map .insertion flat) = .ok schema := ⟨_, rfl⟩
  have hbind : spellings.bind schema (.map .insertion flat) = .ok (.map entries) :=
    (Document.bind_eq_bindDirect hderive spellings).trans rfl
  obtain ⟨-, hfaithful, hroot⟩ := Schema.derive_faithful hderive
  obtain ⟨below, hbelow⟩ : ∃ below, schema.Describes below flat := by
    obtain ⟨descriptor, hdescriptor, below, rfl⟩ := hroot
    exact ⟨below, hfaithful _ _ hdescriptor⟩
  obtain ⟨-, hmap, -, hspelled⟩ := Walk.bound_map hderive hroot rfl hbelow spellings.fields
    spellings.span none [] [] [] []
  obtain ⟨found, hfound, hcollected⟩ :=
    hmap _ ((Document.bind_eq_bound schema _ spellings).symm.trans hbind)
  obtain rfl : entries = found := Bound.map.inj hfound
  exact ⟨rfl, hspelled _ spellings rfl .dictionary, schema, below, hderive, hroot, hbelow, hbind,
    hcollected, rfl, rfl⟩

end TypedConfig
