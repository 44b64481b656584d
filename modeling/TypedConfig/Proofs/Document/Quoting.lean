import Mathlib.Data.List.Forall2
import TypedConfig.Proofs.Document.Ending
import TypedConfig.Proofs.Literal.Agreement
import TypedConfig.Proofs.Literal.Written

/-!
Texts with quoted names and commas between siblings.  Every tree of whole tokens has such a text,
and reading it gives the tree back.
-/

namespace TypedConfig

mutual

/-- A tree as a text with quoted names, and with a comma alone between siblings. -/
def Node.quoted : Node → List Char
  | .dictionary fields _ => '\x7b' :: ([','].intercalate (quotedFields fields) ++ ['\x7d'])
  | .array items _ => '[' :: ([','].intercalate (quotedItems items) ++ [']'])
  | .literal leaf => leaf.text.toList

def quotedFields : List (Field Node) → List (List Char)
  | [] => []
  | ⟨name, value, _⟩ :: rest =>
    (Token.quote name.name.toList ++ ':' :: value.quoted) :: quotedFields rest

def quotedItems : List Node → List (List Char)
  | [] => []
  | item :: rest => item.quoted :: quotedItems rest

end

theorem quotedFields_eq_map (fields : List (Field Node)) : quotedFields fields
    = fields.map fun field => Token.quote field.name.name.toList ++ ':' :: field.value.quoted := by
  induction fields with
  | nil => rfl
  | cons field rest ih => rw [quotedFields, ih]; rfl

theorem quotedItems_eq_map (items : List Node) : quotedItems items = items.map Node.quoted := by
  induction items with
  | nil => rfl
  | cons item rest ih => rw [quotedItems, ih]; rfl

namespace Style

section Commas

variable {α : Type} {item : α → List Char → List Char → Prop} {text : α → List Char} {xs : List α}

theorem quoting_comma : quoting.between [','] := ⟨[], [], .nil, .nil, rfl⟩

theorem series_commas (hne : xs ≠ []) (h : ∀ x ∈ xs, ∀ before, item x before (text x))
    (before : List Char) : Series quoting item xs before ([','].intercalate (xs.map text)) := by
  induction xs generalizing before with
  | nil => exact absurd rfl hne
  | cons x rest ih =>
      obtain ⟨hx, hrest⟩ := List.forall_mem_cons.mp h
      cases rest with
      | nil =>
          have hlast : [','].intercalate ([x].map text) = text x := by simp [List.intercalate]
          rw [hlast]
          exact .last (hx before)
      | cons next more =>
          have hnext : [','].intercalate ((x :: next :: more).map text)
              = text x ++ [','] ++ [','].intercalate ((next :: more).map text) := by
            simp [List.intercalate]
          rw [hnext]
          exact .next (hx before) quoting_comma (ih (List.cons_ne_nil _ _) hrest _)

/-- Siblings with a comma alone between them, inside brackets. -/
theorem inside_commas (h : ∀ x ∈ xs, ∀ before, item x before (text x)) (before : List Char) :
    Inside quoting item xs before ([','].intercalate (xs.map text)) := by
  by_cases hne : xs = []
  · subst hne
    exact .empty .nil
  · have hseries := series_commas hne h (before ++ [])
    have hinside := Inside.filled .nil hseries .nil
    rw [List.nil_append, List.append_nil] at hinside
    exact hinside

end Commas

/-- A tree of whole tokens is written as its text with quoted names. -/
theorem quoting_quoted {tree : Node}
    (htokens : ∀ leaf, tree.HasLiteral leaf → Token.IsToken leaf.kind leaf.text.toList)
    (before : List Char) : quoting.Written tree before tree.quoted := by
  induction tree generalizing before with
  | dictionary fields span ih =>
      rw [Node.quoted, quotedFields_eq_map]
      refine .dictionary (inside_commas ?_ _) trivial
      intro field hfield before
      have hvalue := ih field hfield fun leaf hleaf => htokens leaf (.field hfield hleaf)
      have hwritten : quoting.FieldWritten field before
          (Token.quote field.name.name.toList ++ [] ++ ':' :: [] ++ field.value.quoted) :=
        .field rfl trivial .nil .nil (hvalue _) trivial
      rw [List.append_nil, List.append_assoc] at hwritten
      exact hwritten
  | array items span ih =>
      rw [Node.quoted, quotedItems_eq_map]
      refine .array (inside_commas ?_ _) trivial
      intro item hitem before
      exact ih item hitem (fun leaf hleaf => htokens leaf (.item hitem hleaf)) before
  | literal leaf => exact .literal (htokens leaf .literal) trivial

end Style

/-- A dictionary that is written in a legible style is the root of a document. -/
theorem Document.parse_legible {style : Style} (hstyle : style.Legible) {fields : List (Field Node)}
    {span : Span} {text : List Char} (h : style.Written (.dictionary fields span) [] text)
    (hnesting : (Node.dictionary fields span).nesting ≤ 128) :
    ∃ document, Document.parse (String.ofList text) = .ok document ∧
      document.root.bare = (Node.dictionary fields span).bare := by
  obtain ⟨-, hreads⟩ := readNode_legible hstyle 128 h hnesting
  obtain ⟨node, hread, hsame⟩ := hreads [] .start Token.atEdge_nil
  obtain ⟨body, rfl⟩ : ∃ body, text = '\x7b' :: body := by
    cases h
    exact ⟨_, rfl⟩
  rw [List.cons_append, ← map_root_readRoot] at hread
  obtain ⟨document, hroot, rfl⟩ := Reading.found_of_map hread
  have hwhole : (String.ofList ('\x7b' :: body)).toList = [] ++ ('\x7b' :: body ++ []) := by
    rw [String.toList_ofList, List.append_nil, List.nil_append]
  exact ⟨document, parse_of_readRoot hwhole .nil (.inl .nil) hroot, hsame⟩

/-!
Strings in documents.  Any text at all, with quotes, backslashes, line feeds or braces in it, can be
written as a value and as the name of a field, and is read back unchanged.
-/

/-- A string as a leaf, written as a quoted text. -/
def Literal.quoted (text : String) : Literal :=
  ⟨.string, String.ofList (Token.quote text.toList), .none⟩

/-- The text of a dictionary of strings, with the names and the strings between quotes. -/
def quotedStrings (entries : List (String × String)) : String :=
  String.ofList ('\x7b' :: ([','].intercalate (entries.map fun entry =>
    Token.quote entry.1.toList ++ ':' :: Token.quote entry.2.toList) ++ ['\x7d']))

def stringField (entry : String × String) : Field Node :=
  ⟨⟨entry.1, .none⟩, .literal (.quoted entry.2), .none⟩

theorem Literal.decode_quoted {leaf : Literal} {text : String} (hkind : leaf.kind = .string)
    (htext : leaf.text = String.ofList (Token.quote text.toList)) :
    leaf.decode = .ok (.string text) := by
  simp [decode, decodeAs, hkind, htext, Token.decodeString_quote]

section Fields

variable {entries : List (String × String)}

theorem isToken_stringField :
    ∀ leaf, (Node.dictionary (entries.map stringField) .none).HasLiteral leaf →
      Token.IsToken leaf.kind leaf.text.toList := by
  rintro leaf (_ | _ | ⟨hfield, hleaf⟩)
  obtain ⟨entry, -, rfl⟩ := List.mem_map.mp hfield
  cases hleaf
  have htoken := Token.isToken_quote entry.2.toList
  rwa [← @String.toList_ofList (Token.quote entry.2.toList)] at htoken

theorem fieldNesting_stringField (entries : List (String × String)) :
    Node.fieldNesting (entries.map stringField) = 0 := by
  induction entries with
  | nil => rfl
  | cons entry rest ih =>
      change max 0 (Node.fieldNesting (rest.map stringField)) = 0
      rw [ih, Nat.max_self]

theorem quoted_stringField :
    String.ofList (Node.dictionary (entries.map stringField) .none).quoted = quotedStrings entries := by
  simp only [quotedStrings, Node.quoted, quotedFields_eq_map, List.map_map, Function.comp_def,
    stringField, Literal.quoted, String.toList_ofList]

/-- What is a field with a string, spans apart, has that name and that string. -/
theorem Field.decode_of_bare {field : Field Node} {entry : String × String}
    (h : field.bare = (stringField entry).bare) :
    field.name.name = entry.1 ∧
      ∃ leaf, field.value = .literal leaf ∧ leaf.decode = .ok (.string entry.2) := by
  obtain ⟨name, value, span⟩ := field
  simp only [bare, stringField, Field.mk.injEq, Identifier.mk.injEq, and_true] at h
  obtain ⟨hname, hvalue⟩ := h
  cases value with
  | dictionary fields span => simp [Node.bare] at hvalue
  | array items span => simp [Node.bare] at hvalue
  | literal leaf =>
      simp only [Node.bare, Node.literal.injEq, Literal.quoted, Literal.mk.injEq, and_true] at hvalue
      exact ⟨hname, leaf, rfl, Literal.decode_quoted hvalue.1 hvalue.2⟩

end Fields

namespace Document

/-- A quoted text is read as a value. -/
theorem readNode_quote (text : String) (rest : List Char) (place : Text.Place)
    (limit levels : Nat) :
    ∃ leaf, leaf.decode = .ok (.string text) ∧
      readNode limit levels ⟨Token.quote text.toList ++ rest, place⟩
        = .found (.literal leaf) ⟨rest, place.afterAll (Token.quote text.toList)⟩ := by
  have hread : readLiteral ⟨Token.quote text.toList ++ rest, place⟩ = _ :=
    readLiteral_of_literal (Token.literal_of_quoted (Token.quoted_quote text.toList rest))
  exact ⟨_, Literal.decode_quoted rfl rfl,
    (readNode_literal ⟨by decide, by decide⟩ place).trans hread⟩

/-- A dictionary of quoted names and strings is a document with these names and strings. -/
theorem parse_strings (entries : List (String × String)) :
    ∃ document, Document.parse (quotedStrings entries) = .ok document ∧
      List.Forall₂ (fun entry field => field.name.name = entry.1 ∧
        ∃ leaf, field.value = .literal leaf ∧ leaf.decode = .ok (.string entry.2))
          entries document.fields := by
  have hnesting : (Node.dictionary (entries.map stringField) .none).nesting ≤ 128 := by
    rw [Node.nesting, fieldNesting_stringField]
    decide
  have hwritten := Style.quoting_quoted (@isToken_stringField entries) []
  obtain ⟨document, hparse, hbare⟩ := Document.parse_legible quoting_legible hwritten hnesting
  rw [quoted_stringField] at hparse
  refine ⟨document, hparse, ?_⟩
  simp only [Document.root, Node.bare, Node.dictionary.injEq, and_true, bareFields_eq_map] at hbare
  have hsame : List.Forall₂ (· = ·) (document.fields.map Field.bare)
      ((entries.map stringField).map Field.bare) := by
    rw [List.forall₂_eq_eq_eq]
    exact hbare
  rw [List.map_map, List.forall₂_map_left_iff, List.forall₂_map_right_iff] at hsame
  exact hsame.flip.imp fun _ _ => Field.decode_of_bare

end Document

/-- Every text, whatever characters are in it and whatever follows it, can be written between quotes
as a value and as the name of a field: it is one token, up to its closing quote, and stands for the
text.  So every list of names and strings has a document that gives them back. -/
theorem Document.parse_quote :
    (∀ (text : String) (rest : List Char) (place : Text.Place),
      Token.string (Token.quote text.toList ++ rest) = some (Token.quote text.toList, rest) ∧
      Literal.decodeString (Token.quote text.toList) = text.toList ∧
      (∀ limit levels, ∃ leaf, leaf.decode = .ok (.string text) ∧
        readNode limit levels ⟨Token.quote text.toList ++ rest, place⟩
          = .found (.literal leaf) ⟨rest, place.afterAll (Token.quote text.toList)⟩) ∧
      readName ⟨Token.quote text.toList ++ rest, place⟩
        = .found ⟨text, .between place (place.afterAll (Token.quote text.toList))⟩
            ⟨rest, place.afterAll (Token.quote text.toList)⟩) ∧
    ∀ entries : List (String × String), ∃ document,
      Document.parse (quotedStrings entries) = .ok document ∧
      List.Forall₂ (fun entry field => field.name.name = entry.1 ∧
        ∃ leaf, field.value = .literal leaf ∧ leaf.decode = .ok (.string entry.2))
          entries document.fields := by
  refine ⟨?_, parse_strings⟩
  intro text rest place
  exact ⟨Token.string_of_quoted (Token.quoted_quote text.toList rest), Token.decodeString_quote _,
    readNode_quote text rest place, readName_quoted text rest place⟩

example : Token.quote "\\u0041\"\\".toList = "\"\\\\u0041\\\"\\\\\"".toList := by decide

end TypedConfig
