import TypedConfig.Proofs.Record.Declared
import TypedConfig.Proofs.Value.Loading

/-!
The names that members have without an annotation.  The identifier can be recovered from the name,
so different members have different names; and the name can be written bare unless the identifier
begins with an underscore.
-/

namespace TypedConfig

/-- The characters of an identifier: ASCII letters and digits and the underscore. -/
def isIdentifierText (c : Char) : Bool := c.isAlphanum || c == '_'

/-- An identifier: it begins with no digit. -/
def IsIdentifier (identifier : List Char) : Prop :=
  ∃ c more, identifier = c :: more ∧ Token.isIdentifierStart c = true ∧
    ∀ d ∈ more, isIdentifierText d = true

/-- A member's identifier as it is written: as it is, or marked as a raw one. -/
inductive Spells (identifier : List Char) : List Char → Prop where
  | plain : Spells identifier identifier
  | raw : Spells identifier ('r' :: '#' :: identifier)

def hyphenate (c : Char) : Char := if c = '_' then '-' else c

def underscore (c : Char) : Char := if c = '-' then '_' else c

section Characters

variable {c : Char}

theorem isIdentifierText_of_isIdentifierStart (h : Token.isIdentifierStart c = true) :
    isIdentifierText c = true := by
  simp only [Token.isIdentifierStart, Bool.or_eq_true] at h
  rcases h with halpha | hline <;> simp_all [isIdentifierText, Char.isAlphanum]

theorem underscore_hyphenate (h : isIdentifierText c = true) : underscore (hyphenate c) = c := by
  by_cases hline : c = '_'
  · rw [hline]
    rfl
  · have hhyphen : c ≠ '-' := by
      rintro rfl
      exact absurd h (by decide)
    rw [hyphenate, if_neg hline, underscore, if_neg hhyphen]

theorem isIdentifierChar_hyphenate (h : isIdentifierText c = true) :
    Token.isIdentifierChar (hyphenate c) = true := by
  by_cases hline : c = '_'
  · rw [hline]
    rfl
  · rw [hyphenate, if_neg hline, Token.isIdentifierChar, ← isIdentifierText, h]
    rfl

/-- A hyphen begins no bare name, and it comes from an underscore alone. -/
theorem isIdentifierStart_hyphenate (h : Token.isIdentifierStart c = true) :
    Token.isIdentifierStart (hyphenate c) = true ↔ c ≠ '_' := by
  by_cases hline : c = '_'
  · simp [hyphenate, hline, Token.isIdentifierStart]
  · simp [hyphenate, hline, h]

end Characters

section Identifiers

variable {identifier text : List Char}

theorem IsIdentifier.forall_mem (h : IsIdentifier identifier) :
    ∀ c ∈ identifier, isIdentifierText c = true := by
  obtain ⟨c, more, rfl, hstart, hmore⟩ := h
  exact List.forall_mem_cons.mpr ⟨isIdentifierText_of_isIdentifierStart hstart, hmore⟩

/-- The mark of a raw identifier is not part of its name. -/
theorem defaultName_eq (h : IsIdentifier identifier) (htext : Spells identifier text) :
    defaultName text = identifier.map hyphenate := by
  cases htext with
  | raw => rfl
  | plain =>
      -- No identifier has the second character of the mark, so none is taken for a raw one.
      unfold defaultName
      split
      · have hmark := h.forall_mem '#' (by simp)
        exact absurd hmark (by decide)
      · rfl

/-- The identifier can be recovered from the name. -/
theorem map_underscore_defaultName (h : IsIdentifier identifier) (htext : Spells identifier text) :
    (defaultName text).map underscore = identifier := by
  rw [defaultName_eq h htext, List.map_map]
  calc identifier.map (underscore ∘ hyphenate) = identifier.map id :=
        List.map_congr_left fun c hc => underscore_hyphenate (h.forall_mem c hc)
    _ = identifier := List.map_id identifier

theorem isBareName_cons {c : Char} {more : List Char}
    (hmore : ∀ d ∈ more, Token.isIdentifierChar d = true) :
    isBareName (c :: more) = true ↔ Token.isIdentifierStart c = true := by
  rw [isBareName, Token.identifier, List.takeWhile_eq_self_iff.mpr hmore,
    List.dropWhile_eq_nil_iff.mpr hmore]
  simp

/-- The name can be written bare unless the identifier begins with an underscore. -/
theorem isBareName_defaultName_iff (h : IsIdentifier identifier) (htext : Spells identifier text) :
    isBareName (defaultName text) = true ↔ identifier.head? ≠ some '_' := by
  have hchars := h.forall_mem
  rw [defaultName_eq h htext]
  obtain ⟨c, more, rfl, hstart, hmore⟩ := h
  have hnames : ∀ d ∈ more.map hyphenate, Token.isIdentifierChar d = true := by
    simpa using fun d hd => isIdentifierChar_hyphenate (hmore d hd)
  rw [List.map_cons, isBareName_cons hnames, isIdentifierStart_hyphenate hstart]
  simp

end Identifiers

/-- A member without annotations is a field of its default name. -/
theorem WrittenMember.role_of_bare {member : WrittenMember}
    (h : configSettings member.annotations = []) :
    member.role = .ok (.field (String.ofList (defaultName member.identifier.toList)) false) := by
  rw [role, h]
  rfl

/-- Documents set a field of an object type under its name, written bare: a document with this field
alone makes the call that sets it. -/
def Declarations.SetBare (table : Declarations) (id : Nat) (name : List Char) (type : Ty) : Prop :=
  ∀ schema value piece bound, Schema.derive table (.object id) = .ok schema →
    Style.careful.Written value ('\x7b' :: (name ++ [':'])) piece → value.nesting < 128 →
      Direct.node table type (some (String.ofList name)) value = .ok bound →
        ∃ document,
          Document.parse (String.ofList ('\x7b' :: (name ++ ':' :: piece ++ ['\x7d']))) = .ok document ∧
            document.bind schema (.object id) = .ok (.object id [.field (String.ofList name) bound])

/-- A text with one field under a bare name is read as this field. -/
theorem Document.parse_bareField {name piece : List Char} {value : Node}
    (hname : isBareName name = true)
    (hvalue : Style.careful.Written value ('\x7b' :: (name ++ [':'])) piece)
    (hnesting : value.nesting < 128) :
    ∃ document,
      Document.parse (String.ofList ('\x7b' :: (name ++ ':' :: piece ++ ['\x7d'])))
          = .ok document ∧
        document.root.bare
          = (Node.dictionary [⟨⟨String.ofList name, .none⟩, value, .none⟩] .none).bare := by
  have hspelled : name = spellName (String.ofList name).toList := by
    rw [String.toList_ofList, spellName, if_pos hname]
  have hfield : Style.careful.FieldWritten ⟨⟨String.ofList name, .none⟩, value, .none⟩
      ['\x7b'] (name ++ [] ++ ':' :: [] ++ piece) := by
    refine .field hspelled trivial .nil .nil ?_ trivial
    simpa using hvalue
  have hroot : Style.careful.Written
      (.dictionary [⟨⟨String.ofList name, .none⟩, value, .none⟩] .none)
      [] ('\x7b' :: (([] ++ (name ++ [] ++ ':' :: [] ++ piece) ++ []) ++ ['\x7d'])) :=
    .dictionary (.filled .nil (.last hfield) .nil) trivial
  have hdepth :
      (Node.dictionary [⟨⟨String.ofList name, .none⟩, value, .none⟩] .none).nesting ≤ 128 := by
    simp only [Node.nesting, Node.fieldNesting]
    omega
  obtain ⟨document, hparse, hsame⟩ := Document.parse_legible Document.careful_legible hroot hdepth
  refine ⟨document, ?_, hsame⟩
  simpa using hparse

/-- A field whose name can be written bare is set under it. -/
theorem Declarations.setBare_of_field {table : Declarations} {id : Nat} {slot : FieldSlot}
    (hslot : slot ∈ (table.object id).fields) {name : List Char}
    (hname : slot.name = String.ofList name) (hbare : isBareName name = true) :
    table.SetBare id name slot.type := by
  intro schema value piece bound hschema hwritten hnesting hbound
  obtain ⟨document, hparse, hsame⟩ := Document.parse_bareField hbare hwritten hnesting
  refine ⟨document, hparse, Document.bind_of_bare hschema hsame ?_⟩
  have hsound := Schema.sound_of_derive hschema (.root (Derivation.mentions_of_core rfl))
  have haccepts := hsound.accepts?_field hslot
  have hfull : (table.object id).isEmpty = false := by
    have hne : (table.object id).fields ≠ [] := List.ne_nil_of_mem hslot
    simp [ObjectType.isEmpty, hne]
  rw [Direct.node_object_eq_ok_iff rfl]
  refine ⟨hfull, [.field (String.ofList name) bound], .cons ?_ .nil, rfl⟩
  rw [Direct.call_eq_ok_iff]
  rw [hname] at haccepts
  exact ⟨_, bound, haccepts, hbound, rfl⟩

/-- The type of a record has a slot for each member without annotations. -/
theorem WrittenRecord.slot_of_bare {written : WrittenRecord} {name : String}
    {typeOf : String → Ty} {initial : WrittenMember → Bound} {record : Record}
    (h : written.declared name typeOf initial = .ok record) {member : WrittenMember}
    (hmember : member ∈ written.members) (hbare : configSettings member.annotations = []) :
    ⟨String.ofList (defaultName member.identifier.toList), typeOf member.type, false⟩
      ∈ record.objectType.fields := by
  obtain ⟨made, hmade, role, hrole, rfl⟩ :=
    exists_right_of_forall₂ (declares_of_declared h) hmember
  cases member.role_of_bare hbare ▸ hrole
  exact List.mem_filterMap.mpr ⟨_, hmade, rfl⟩

/-- What the default names of identifiers are good for.  The name of an identifier is a bare name
exactly if the identifier does not begin with an underscore, and no other identifier has it.  A
member without annotations is a field of this name, and documents set it under the name, written
bare. -/
theorem defaultName_addresses {identifier text : List Char} (h : IsIdentifier identifier)
    (htext : Spells identifier text) :
    (Token.identifier (defaultName text) = some (defaultName text, [])
        ↔ identifier.head? ≠ some '_') ∧
      (∀ other otherText, IsIdentifier other → Spells other otherText →
        defaultName otherText = defaultName text → other = identifier) ∧
      ∀ (written : WrittenRecord) (name : String) (typeOf : String → Ty)
        (initial : WrittenMember → Bound) (record : Record),
        written.declared name typeOf initial = .ok record →
          ∀ member ∈ written.members, member.identifier.toList = text →
            configSettings member.annotations = [] →
              member.role = .ok (.field (String.ofList (defaultName text)) false) ∧
                ∀ (table : Declarations) (id : Nat), table.object id = record.objectType →
                  identifier.head? ≠ some '_' →
                    table.SetBare id (defaultName text) (typeOf member.type) := by
  have hbare := isBareName_defaultName_iff h htext
  refine ⟨by simpa [isBareName] using hbare, fun other otherText hother hotherText hsame => ?_, ?_⟩
  · rw [← map_underscore_defaultName h htext, ← hsame,
      map_underscore_defaultName hother hotherText]
  · rintro written name typeOf initial record hdeclared member hmember rfl hnone
    refine ⟨member.role_of_bare hnone, fun table id hobject hline => ?_⟩
    have hslot := WrittenRecord.slot_of_bare hdeclared hmember hnone
    rw [← hobject] at hslot
    exact Declarations.setBare_of_field hslot rfl (hbare.mpr hline)

/-- A written record whose members have no annotations: a keyword for an identifier, underscores
with digits between them, and an underscore in front. -/
def plainMembers : WrittenRecord :=
  ⟨.plain, [], [⟨"r#type", "bool", []⟩, ⟨"x__2_", "bool", []⟩, ⟨"_a", "bool", []⟩]⟩

def plainRecord : Record :=
  ⟨"Plain", none, [
    ⟨"r#type", .scalar .bool, .field "type" false, .scalar (.boolean false)⟩,
    ⟨"x__2_", .scalar .bool, .field "x--2-" false, .scalar (.boolean false)⟩,
    ⟨"_a", .scalar .bool, .field "-a" false, .scalar (.boolean false)⟩]⟩

theorem plainMembers_declared :
    plainMembers.declared "Plain" (fun _ => .scalar .bool) (fun _ => .scalar (.boolean false))
      = .ok plainRecord := by
  have hroles : plainMembers.roles
      = .ok (none, [.field "type" false, .field "x--2-" false, .field "-a" false]) := by
    decide +kernel
  rw [WrittenRecord.declared, hroles]
  rfl

theorem isIdentifier_type : IsIdentifier "type".toList :=
  ⟨'t', "ype".toList, rfl, rfl, List.all_eq_true.mp (by decide)⟩

theorem type_addresses :
    IsIdentifier "type".toList ∧ Spells "type".toList "r#type".toList ∧
      Token.identifier "type".toList = some ("type".toList, []) ∧
      plainMembers.declared "Plain" (fun _ => .scalar .bool) (fun _ => .scalar (.boolean false))
        = .ok plainRecord ∧
      (⟨"r#type", "bool", []⟩ : WrittenMember).role = .ok (.field "type" false) ∧
      ∃ schema document,
        Schema.derive ⟨[plainRecord.objectType]⟩ (.object 0) = .ok schema ∧
          Document.parse (String.ofList "\x7btype:true\x7d".toList) = .ok document ∧
            document.bind schema (.object 0)
              = .ok (.object 0 [.field "type" (.scalar (.boolean true))]) := by
  have hmain := defaultName_addresses isIdentifier_type .raw
  obtain ⟨hrole, hset⟩ := hmain.2.2 plainMembers _ _ _ plainRecord plainMembers_declared
    ⟨"r#type", "bool", []⟩ (by simp [plainMembers]) rfl rfl
  obtain ⟨schema, hschema⟩ : ∃ schema,
      Schema.derive ⟨[plainRecord.objectType]⟩ (.object 0) = .ok schema := ⟨_, rfl⟩
  have htrue : Token.IsToken .boolean "true".toList :=
    ⟨Token.boolean, by simp [Token.alternatives], by decide⟩
  obtain ⟨document, hparse, hbind⟩ := hset ⟨[plainRecord.objectType]⟩ 0 rfl (by decide) schema
    (.literal ⟨.boolean, "true", .none⟩) "true".toList (.scalar (.boolean true)) hschema
    (.literal htrue trivial) (by decide) rfl
  exact ⟨isIdentifier_type, .raw, hmain.1.mpr (by decide), plainMembers_declared, hrole,
    schema, document, hschema, hparse, hbind⟩

/-- An identifier that begins with an underscore has a name that no document can write bare. -/
theorem underscore_hides :
    IsIdentifier "_a".toList ∧ "_a" ≠ "_" ∧ Spells "_a".toList "_a".toList ∧
      (⟨"_a", "bool", []⟩ : WrittenMember).role = .ok (.field "-a" false) ∧
      Token.identifier (defaultName "_a".toList) ≠ some (defaultName "_a".toList, []) ∧
      Document.parse "\x7b -a: 1 \x7d"
        = .error (.malformed "expected '\x7d', found '-a:'" ⟨1, 3⟩) :=
  ⟨⟨'_', ['a'], rfl, rfl, List.all_eq_true.mp (by decide)⟩, by decide, .plain,
    by decide +kernel, by decide, rfl⟩

end TypedConfig
