import TypedConfig.Document.Reader
import TypedConfig.Proofs.Token.Edge

/-!
Layout: the blanks and comments between the tokens of a document.  A comment ends with its line;
only the last one of a text may be left open.
-/

namespace TypedConfig

/-- Blanks, and comments that end with their line. -/
inductive Layout : List Char → Prop where
  | nil : Layout []
  | blank {c : Char} {rest : List Char} : Text.isBlank c = true → Layout rest → Layout (c :: rest)
  | comment {words rest : List Char} :
      '\n' ∉ words → Layout rest → Layout ('#' :: (words ++ '\n' :: rest))

/-- Layout that ends in a comment whose line does not end. -/
def OpenLayout (text : List Char) : Prop :=
  ∃ layout words, Layout layout ∧ '\n' ∉ words ∧ text = layout ++ '#' :: words

/-- No layout begins here. -/
def Solid (text : List Char) : Prop :=
  ∀ c ∈ text.head?, Text.isBlank c = false ∧ c ≠ '#'

theorem solid_cons {c : Char} {text : List Char} (hblank : Text.isBlank c = false) (hc : c ≠ '#') :
    Solid (c :: text) := by
  rintro _ ⟨⟩
  exact ⟨hblank, hc⟩

namespace Layout

variable {layout first second rest : List Char}

theorem append (hfirst : Layout first) (hsecond : Layout second) : Layout (first ++ second) := by
  induction hfirst with
  | nil => exact hsecond
  | blank hc _ ih => exact ih.blank hc
  | comment hwords _ ih =>
      have happend := ih.comment hwords
      simpa using happend

theorem append_open (hfirst : Layout first) (hsecond : OpenLayout second) :
    OpenLayout (first ++ second) := by
  obtain ⟨layout, words, hlayout, hwords, rfl⟩ := hsecond
  exact ⟨first ++ layout, words, hfirst.append hlayout, hwords, by simp⟩

theorem splitLayout_comment {words : List Char} (hwords : '\n' ∉ words) :
    Token.splitLayout true (words ++ '\n' :: rest)
      = (words ++ '\n' :: (Token.splitLayout false rest).1, (Token.splitLayout false rest).2) := by
  induction words with
  | nil => simp [Token.splitLayout]
  | cons c more ih =>
      simp only [List.mem_cons, not_or] at hwords
      obtain ⟨hc, hmore⟩ := hwords
      have hline : (c != '\n') = true := by simpa using fun h => hc h.symm
      simp [Token.splitLayout, hline, ih hmore]

/-- Layout in front of a text is cut off with the layout at the front of that text. -/
theorem splitLayout_append (h : Layout layout) :
    Token.splitLayout false (layout ++ rest)
      = (layout ++ (Token.splitLayout false rest).1, (Token.splitLayout false rest).2) := by
  induction h with
  | nil => rfl
  | blank hc _ ih => simp [Token.splitLayout, hc, ih]
  | comment hwords _ ih =>
      have hblank : Text.isBlank '#' = false := by decide
      simp [Token.splitLayout, hblank, splitLayout_comment hwords, ih]

end Layout

theorem splitLayout_solid {text : List Char} (h : Solid text) :
    Token.splitLayout false text = ([], text) := by
  cases text with
  | nil => rfl
  | cons c rest =>
      obtain ⟨hblank, hc⟩ := h c rfl
      simp [Token.splitLayout, hblank, hc]

theorem splitLayout_open {text : List Char} (h : '\n' ∉ text) :
    Token.splitLayout true text = (text, []) := by
  induction text with
  | nil => rfl
  | cons c rest ih =>
      simp only [List.mem_cons, not_or] at h
      obtain ⟨hc, hrest⟩ := h
      have hline : (c != '\n') = true := by simpa using fun h => hc h.symm
      simp [Token.splitLayout, hline, ih hrest]

theorem solid_splitLayout (comment : Bool) (text : List Char) :
    Solid (Token.splitLayout comment text).2 := by
  induction text generalizing comment with
  | nil => simp [Token.splitLayout, Solid]
  | cons c rest ih =>
      unfold Token.splitLayout
      split
      · exact ih _
      · split
        · exact ih _
        · rename_i hblank
          split
          · exact ih _
          · rename_i hc
            exact solid_cons (by simpa using hblank) hc

/-- Layout, or layout at the end of the text whose last comment may be open. -/
def LayoutBefore (layout left : List Char) : Prop :=
  Layout layout ∨ OpenLayout layout ∧ left = []

theorem LayoutBefore.layout {layout left : List Char} (h : LayoutBefore layout left)
    (hleft : left ≠ []) : Layout layout := by
  rcases h with hlayout | ⟨-, hnil⟩
  · exact hlayout
  · exact absurd hnil hleft

/-- What is cut off as layout is layout, or the text ends inside its last comment. -/
theorem layout_splitLayout (text : List Char) :
    LayoutBefore (Token.splitLayout false text).1 (Token.splitLayout false text).2 := by
  induction hlength : text.length using Nat.strong_induction_on generalizing text with
  | h n ih =>
      cases text with
      | nil => exact .inl .nil
      | cons c rest =>
          subst hlength
          by_cases hblank : Text.isBlank c = true
          · have hsplit : Token.splitLayout false (c :: rest)
                = (c :: (Token.splitLayout false rest).1, (Token.splitLayout false rest).2) := by
              simp [Token.splitLayout, hblank]
            rw [hsplit]
            rcases ih rest.length (by simp) rest rfl with hlayout | ⟨hopen, hend⟩
            · exact .inl (hlayout.blank hblank)
            · exact .inr ⟨(Layout.nil.blank hblank).append_open hopen, hend⟩
          · by_cases hc : c = '#'
            · subst hc
              have hsplit : Token.splitLayout false ('#' :: rest)
                  = ('#' :: (Token.splitLayout true rest).1, (Token.splitLayout true rest).2) := by
                simp [Token.splitLayout, hblank]
              rw [hsplit]
              by_cases hline : '\n' ∈ rest
              · obtain ⟨words, more, rfl, hwords⟩ := List.eq_append_cons_of_mem hline
                rw [Layout.splitLayout_comment hwords]
                rcases ih more.length (by simp; omega) more rfl with hlayout | ⟨hopen, hend⟩
                · exact .inl (hlayout.comment hwords)
                · have happend := (Layout.nil.comment hwords).append_open hopen
                  exact .inr ⟨by simpa using happend, hend⟩
              · rw [splitLayout_open hline]
                exact .inr ⟨⟨[], rest, .nil, hline, rfl⟩, rfl⟩
            · rw [splitLayout_solid (solid_cons (by simpa using hblank) hc)]
              exact .inl .nil

theorem toNat_of_isDigit {c : Char} (h : c.isDigit = true) : 48 ≤ c.toNat ∧ c.toNat ≤ 57 := by
  obtain ⟨hlow, hhigh⟩ := Bool.and_eq_true_iff.mp h
  exact ⟨of_decide_eq_true hlow, of_decide_eq_true hhigh⟩

theorem toNat_of_isAlpha {c : Char} (h : c.isAlpha = true) :
    65 ≤ c.toNat ∧ c.toNat ≤ 90 ∨ 97 ≤ c.toNat ∧ c.toNat ≤ 122 := by
  rcases Bool.or_eq_true_iff.mp h with hupper | hlower
  · exact .inl (of_decide_eq_true hupper)
  · obtain ⟨hlow, hhigh⟩ := Bool.and_eq_true_iff.mp hlower
    exact .inr ⟨of_decide_eq_true hlow, of_decide_eq_true hhigh⟩

/-- A letter is no digit. -/
theorem isDigit_of_isAlpha {c : Char} (h : c.isAlpha = true) : c.isDigit = false := by
  by_contra hdigit
  have hletter := toNat_of_isAlpha h
  have hrange := toNat_of_isDigit (by simpa using hdigit)
  omega

theorem toNat_of_isWordChar {c : Char} (h : Token.isWordChar c = true) :
    45 ≤ c.toNat ∧ c.toNat ≤ 122 := by
  simp only [Token.isWordChar, Char.isAlphanum, Bool.or_eq_true, beq_iff_eq] at h
  rcases h with (((halpha | hdigit) | rfl) | rfl) | rfl
  · have hrange := toNat_of_isAlpha halpha
    omega
  · have hrange := toNat_of_isDigit hdigit
    omega
  all_goals decide

theorem isWordChar_of_isBlank {c : Char} (h : Text.isBlank c = true) :
    Token.isWordChar c = false := by
  by_contra hword
  have hrange := toNat_of_isWordChar (by simpa using hword)
  simp only [Text.isBlank, Bool.or_eq_true, Bool.and_eq_true, decide_eq_true_eq, beq_iff_eq] at h
  omega

theorem isBlank_of_isWordChar {c : Char} (h : Token.isWordChar c = true) :
    Text.isBlank c = false := by
  by_contra hblank
  simp [isWordChar_of_isBlank (by simpa using hblank)] at h

theorem atEdge_cons {c : Char} {rest : List Char} (hgap : Token.isGap c = false)
    (hword : Token.isWordChar c = false) : Token.AtEdge (c :: rest) := by
  rintro d hd
  simp only [Token.afterGap, List.dropWhile_cons, hgap] at hd
  cases hd
  exact hword

theorem atEdge_cons_gap {c : Char} {rest : List Char} (hgap : Token.isGap c = true)
    (h : Token.AtEdge rest) : Token.AtEdge (c :: rest) := by
  unfold Token.AtEdge Token.afterGap at h ⊢
  simpa [hgap] using h

namespace Layout

variable {layout rest : List Char}

theorem atEdge_blank {c : Char} (hc : Text.isBlank c = true) (h : Token.AtEdge rest) :
    Token.AtEdge (c :: rest) := by
  by_cases hgap : Token.isGap c = true
  · exact atEdge_cons_gap hgap h
  · exact atEdge_cons (by simpa using hgap) (isWordChar_of_isBlank hc)

/-- Layout in front of an edge is an edge. -/
theorem atEdge (h : Layout layout) (hrest : Token.AtEdge rest) : Token.AtEdge (layout ++ rest) := by
  induction h with
  | nil => exact hrest
  | blank hc _ ih => exact atEdge_blank hc ih
  | comment _ _ _ => exact atEdge_cons (by decide) (by decide)

/-- Layout other than a run of spaces and tabs is an edge, whatever follows it. -/
theorem atEdge_of_break (h : Layout layout) (hbreak : ∃ c ∈ layout, Token.isGap c = false) :
    Token.AtEdge (layout ++ rest) := by
  induction h with
  | nil => simp at hbreak
  | @blank c more hc _ ih =>
      by_cases hgap : Token.isGap c = true
      · apply atEdge_cons_gap hgap
        apply ih
        obtain ⟨d, hd, hstop⟩ := hbreak
        rcases List.mem_cons.mp hd with rfl | hmore
        · simp [hgap] at hstop
        · exact ⟨d, hmore, hstop⟩
      · exact atEdge_cons (by simpa using hgap) (isWordChar_of_isBlank hc)
  | comment _ _ _ => exact atEdge_cons (by decide) (by decide)

end Layout

namespace Cursor

/-- Layout in front of a solid text is passed. -/
theorem pastLayout_layout {layout rest : List Char} (hlayout : Layout layout) (hrest : Solid rest)
    (place : Text.Place) :
    (Cursor.mk (layout ++ rest) place).pastLayout = ⟨rest, place.afterAll layout⟩ := by
  simp [pastLayout, hlayout.splitLayout_append, splitLayout_solid hrest, past]

end Cursor

end TypedConfig
