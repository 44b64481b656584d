import Mathlib.Algebra.Group.Nat.Defs
import Mathlib.Data.Prod.Lex
import TypedConfig.Proofs.Document.Placement
import TypedConfig.Text.LineIndex

/-!
Looking up lines and columns.  Halving the list of line starts finds the same line as reading the
text from its start, whatever offset is looked up, and the column counts the characters behind that
start.
-/

namespace TypedConfig.Text

section Search

variable {starts : Array LineStart} {offset low high : Nat}

/-- The line of an index is one of the list, and starts at or before an offset. -/
def StartsBy (starts : Array LineStart) (offset line : Nat) : Prop :=
  ∃ start, starts[line]? = some start ∧ start.offset ≤ offset

/-- Halving keeps a line that starts by the offset at the low end and one that does not at the high
end, so it stops at a line that does in front of one that does not.  The list need not be sorted. -/
theorem lastStartWithin_between (hlt : low < high) (hlow : StartsBy starts offset low)
    (hhigh : ¬StartsBy starts offset high) :
    StartsBy starts offset (lastStartWithin starts offset low high) ∧
      ¬StartsBy starts offset (lastStartWithin starts offset low high + 1) := by
  fun_induction lastStartWithin starts offset low high with
  | case1 low high hmore middle start hstart hby ih =>
      exact ih (by omega) ⟨start, hstart, hby⟩ hhigh
  | case2 low high hmore middle start hstart hpast ih =>
      refine ih (by omega) hlow ?_
      rintro ⟨other, hother, hby⟩
      cases hstart.symm.trans hother
      exact hpast hby
  | case3 low high hmore middle hnone ih =>
      refine ih (by omega) hlow ?_
      rintro ⟨other, hother, -⟩
      cases hnone.symm.trans hother
  | case4 low high hdone =>
      obtain rfl : high = low + 1 := by omega
      exact ⟨hlow, hhigh⟩

end Search

section Starts

variable {before after : List Char}

/-- The lines that start in two stretches of text, one behind the other. -/
theorem laterLineStarts_append (offset : Nat) (before after : List Char) :
    laterLineStarts offset (before ++ after)
      = (laterLineStarts offset before).map (fun start => ⟨start.offset, start.rest ++ after⟩)
        ++ laterLineStarts (offset + byteLength before) after := by
  induction before generalizing offset with
  | nil => simp [laterLineStarts, byteLength]
  | cons c rest ih =>
      simp only [List.cons_append, laterLineStarts, ih, byteLength, Nat.add_assoc]
      split <;> rfl

theorem length_laterLineStarts (offset : Nat) (text : List Char) :
    (laterLineStarts offset text).length = text.count '\n' := by
  induction text generalizing offset with
  | nil => rfl
  | cons c rest ih =>
      by_cases hc : c = '\n' <;> simp [laterLineStarts, hc, ih]

theorem offset_laterLineStarts {offset : Nat} {text : List Char} {start : LineStart}
    (h : start ∈ laterLineStarts offset text) :
    offset < start.offset ∧ start.offset ≤ offset + byteLength text := by
  induction text generalizing offset with
  | nil => cases h
  | cons c rest ih =>
      have hsize := c.utf8Size_pos
      have hrest : start ∈ laterLineStarts (offset + c.utf8Size) rest →
          offset < start.offset ∧ start.offset ≤ offset + byteLength (c :: rest) := by
        intro hmem
        have hbounds := ih hmem
        rw [byteLength]
        omega
      simp only [laterLineStarts] at h
      split at h
      · rcases List.mem_cons.mp h with rfl | hmem
        · simp only [byteLength]
          omega
        · exact hrest hmem
      · exact hrest h

theorem starts_succ (text : List Char) (line : Nat) :
    (LineIndex.ofText text).starts[line + 1]? = (laterLineStarts 0 text)[line]? := by
  simp [LineIndex.ofText]

/-- The lines that start by the end of a stretch of text are those that reading it has begun. -/
theorem startsBy_iff {line : Nat} :
    StartsBy (LineIndex.ofText (before ++ after)).starts (byteLength before) line ↔
      line < lineBehind before := by
  cases line with
  | zero =>
      have hpos : 0 < lineBehind before := by
        unfold lineBehind
        omega
      exact iff_of_true ⟨⟨0, before ++ after⟩, rfl, Nat.zero_le _⟩ hpos
  | succ line =>
      have hlength := length_laterLineStarts 0 before
      rw [StartsBy, starts_succ, laterLineStarts_append, lineBehind]
      by_cases hline : line < before.count '\n'
      · refine iff_of_true ?_ (by omega)
        rw [List.getElem?_append_left (by simpa [hlength] using hline), List.getElem?_map,
          List.getElem?_eq_getElem (hlength ▸ hline)]
        refine ⟨_, rfl, ?_⟩
        have hbounds := (offset_laterLineStarts (List.getElem_mem (hlength ▸ hline))).2
        rwa [Nat.zero_add] at hbounds
      · refine iff_of_false ?_ (by omega)
        rintro ⟨start, hstart, hby⟩
        rw [List.getElem?_append_right (by simpa [hlength] using hline)] at hstart
        have hpast := (offset_laterLineStarts (List.mem_of_getElem? hstart)).1
        omega

/-- A stretch of text that a line can start behind. -/
inductive EndsLine : List Char → Prop
  | start : EndsLine []
  | feed (front : List Char) : EndsLine (front ++ ['\n'])

/-- A stretch of text is some lines and then the beginning of one more. -/
theorem exists_line (before : List Char) :
    ∃ lines line, before = lines ++ line ∧ EndsLine lines ∧ '\n' ∉ line := by
  induction before using List.reverseRecOn with
  | nil => exact ⟨[], [], rfl, .start, List.not_mem_nil⟩
  | append_singleton text c ih =>
      by_cases hc : c = '\n'
      · subst hc
        exact ⟨text ++ ['\n'], [], (List.append_nil _).symm, .feed text, List.not_mem_nil⟩
      · obtain ⟨lines, line, rfl, hlines, hline⟩ := ih
        refine ⟨lines, line ++ [c], List.append_assoc .., hlines, ?_⟩
        simp [hline, Ne.symm hc]

variable {lines line : List Char}

theorem lineBehind_append (hline : '\n' ∉ line) :
    lineBehind (lines ++ line) = lines.count '\n' + 1 := by
  rw [lineBehind, List.count_append, List.count_eq_zero_of_not_mem hline, Nat.add_zero, Nat.add_comm]

theorem columnBehind_append (hlines : EndsLine lines) (hline : '\n' ∉ line) :
    columnBehind (lines ++ line) = line.length + 1 := by
  have hrun : ∀ c ∈ line.reverse, (c != '\n') = true := by
    intro c hc
    rw [bne_iff_ne]
    rintro rfl
    exact hline (List.mem_reverse.mp hc)
  have hstops : Token.Stops (fun c => c != '\n') lines.reverse := by
    cases hlines with
    | start => nofun
    | feed front =>
        rw [List.reverse_append]
        exact Token.stops_cons rfl
  rw [columnBehind, List.reverse_append, Token.takeWhile_run hrun hstops, List.length_reverse,
    Nat.add_comm]

/-- The list of line starts has the line that was begun last at the number of line feeds. -/
theorem starts_line (hlines : EndsLine lines) :
    (LineIndex.ofText (lines ++ line ++ after)).starts[lines.count '\n']?
      = some ⟨byteLength lines, line ++ after⟩ := by
  cases hlines with
  | start => rfl
  | feed front =>
      have htext : front ++ ['\n'] ++ line ++ after = front ++ '\n' :: (line ++ after) := by simp
      have hcount : (front ++ ['\n']).count '\n' = front.count '\n' + 1 := by simp
      have hlength := length_laterLineStarts 0 front
      rw [htext, hcount, starts_succ, laterLineStarts_append,
        List.getElem?_append_right (by simp [hlength])]
      simp [laterLineStarts, hlength, byteLength_append, byteLength]

/-- The characters of a stretch of text fill its bytes. -/
theorem charsFilling_append (line after : List Char) :
    charsFilling (byteLength line) (line ++ after) = some line.length := by
  induction line with
  | nil =>
      cases after <;> rfl
  | cons c rest ih =>
      have hsize := c.utf8Size_pos
      have hne : c.utf8Size + byteLength rest ≠ 0 := by omega
      have hle : c.utf8Size ≤ c.utf8Size + byteLength rest := Nat.le_add_right _ _
      rw [List.cons_append, charsFilling, byteLength, if_neg hne, if_pos hle, Nat.add_sub_cancel_left,
        ih]
      rfl

/-- No more characters than bytes are filled. -/
theorem charsFilling_le {bytes : Nat} {text : List Char} {count : Nat}
    (h : charsFilling bytes text = some count) : count ≤ bytes := by
  induction text generalizing bytes count with
  | nil =>
      simp only [charsFilling, Option.ite_none_right_eq_some, Option.some.injEq] at h
      omega
  | cons c rest ih =>
      have hsize := c.utf8Size_pos
      simp only [charsFilling] at h
      split at h
      · cases h
        exact Nat.zero_le _
      · split at h
        · obtain ⟨fewer, hfewer, rfl⟩ := Option.map_eq_some_iff.mp h
          have hle := ih hfewer
          omega
        · cases h

theorem length_le_byteLength (text : List Char) : text.length ≤ byteLength text :=
  charsFilling_le (charsFilling_append text [])

end Starts

namespace Place

/-- A place in front of another one, by its line and then by its column. -/
def position (place : Place) : Nat ×ₗ Nat := toLex (place.line, place.column)

theorem position_lt_after (place : Place) (c : Char) :
    place.position < (place.after c).position := by
  rw [position, position, Prod.Lex.toLex_lt_toLex, after]
  split
  · exact .inl (Nat.lt_succ_self _)
  · exact .inr ⟨rfl, Nat.lt_succ_self _⟩

theorem position_lt_afterAll (place : Place) {text : List Char} (h : text ≠ []) :
    place.position < (place.afterAll text).position := by
  induction text generalizing place with
  | nil => exact absurd rfl h
  | cons c rest ih =>
      rw [afterAll_cons]
      cases rest with
      | nil => exact place.position_lt_after c
      | cons d more => exact (place.position_lt_after c).trans (ih _ (List.cons_ne_nil d more))

end Place

namespace LineIndex

/-- The line found for an offset starts by it and the next one does not.  It is the answer only if
it starts right there; otherwise the answer is the next one. -/
theorem search_between (text : List Char) (offset : Nat) :
    ∃ line start, (ofText text).starts[line]? = some start ∧ start.offset ≤ offset ∧
      ¬StartsBy (ofText text).starts offset (line + 1) ∧
      (ofText text).search offset
        = if start.offset = offset then .ok line else .error (line + 1) := by
  have hfirst : StartsBy (ofText text).starts offset 0 := ⟨⟨0, text⟩, rfl, Nat.zero_le _⟩
  have hlast : ¬StartsBy (ofText text).starts offset (ofText text).starts.size := by
    rintro ⟨start, hstart, -⟩
    simp at hstart
  have hsize : 0 < (ofText text).starts.size := by simp [ofText]
  obtain ⟨⟨start, hstart, hby⟩, hnext⟩ := lastStartWithin_between hsize hfirst hlast
  refine ⟨_, start, hstart, hby, hnext, ?_⟩
  simp only [search, hstart]
  split
  · rfl
  · rename_i hne
    rw [if_pos (Nat.lt_of_le_of_ne hby hne)]

/-- A line that starts behind the offset has another one in front of it. -/
theorem search_ne_zero (text : List Char) (offset : Nat) :
    (ofText text).search offset ≠ .error 0 := by
  obtain ⟨line, start, -, -, -, hsearch⟩ := search_between text offset
  rw [hsearch]
  split
  · nofun
  · intro h
    cases h

/-- Whatever offset is looked up, the position is that of the line that starts by it last. -/
theorem position_between (text : List Char) (offset : Nat) :
    ∃ line start, (ofText text).starts[line]? = some start ∧
      start.offset ≤ min offset (byteLength text) ∧
      ¬StartsBy (ofText text).starts (min offset (byteLength text)) (line + 1) ∧
      (ofText text).position offset = (line + 1,
        (charsFilling (min offset (byteLength text) - start.offset) start.rest).getD 0 + 1) := by
  obtain ⟨line, start, hstart, hby, hnext, hsearch⟩ :=
    search_between text (min offset (byteLength text))
  refine ⟨line, start, hstart, hby, hnext, ?_⟩
  have htext : (ofText text).text = text := rfl
  have hline : (ofText text).line (min offset (byteLength text)) = line := by
    rw [LineIndex.line, hsearch]
    by_cases hexact : start.offset = min offset (byteLength text)
    · rw [if_pos hexact]
    · rw [if_neg hexact]
      rfl
  simp only [position, htext, hline, Array.getD_eq_getD_getElem?, hstart, Option.getD_some]

/-- An offset past the end stands for the end. -/
theorem position_min (text : List Char) (offset : Nat) :
    (ofText text).position offset = (ofText text).position (min offset (byteLength text)) := by
  have htext : (ofText text).text = text := rfl
  simp only [position, htext, Nat.min_assoc, Nat.min_self]

/-- Looking up the end of a stretch of text finds the line and the column that reading it leads to.
-/
theorem position_append (before after : List Char) :
    (ofText (before ++ after)).position (byteLength before)
      = (lineBehind before, columnBehind before) := by
  obtain ⟨found, start, hstart, hby, hnext, hposition⟩ :=
    position_between (before ++ after) (byteLength before)
  have hoffset : min (byteLength before) (byteLength (before ++ after)) = byteLength before :=
    Nat.min_eq_left (byteLength_le_append before after)
  rw [hoffset] at hby hnext hposition
  have hfound : found + 1 = lineBehind before := by
    have hstarts := startsBy_iff.mp ⟨start, hstart, hby⟩
    rw [startsBy_iff] at hnext
    omega
  obtain ⟨lines, line, rfl, hlines, hline⟩ := exists_line before
  have hcount : lineBehind (lines ++ line) = lines.count '\n' + 1 := lineBehind_append hline
  obtain rfl : found = lines.count '\n' := by omega
  obtain rfl : start = ⟨byteLength lines, line ++ after⟩ :=
    Option.some.inj (hstart.symm.trans (starts_line hlines))
  rw [hposition, hcount, columnBehind_append hlines hline, byteLength_append,
    Nat.add_sub_cancel_left, charsFilling_append]
  rfl

/-- What is left of a text tells where it starts. -/
theorem offsetOf_append (before after : List Char) :
    (ofText (before ++ after)).offsetOf after = byteLength before :=
  Nat.sub_eq_of_eq_add (byteLength_append before after)

/-- Lines and columns are no larger than the text. -/
theorem position_le (text : List Char) (offset : Nat) :
    ((ofText text).position offset).1 ≤ byteLength text + 1 ∧
      ((ofText text).position offset).2 ≤ byteLength text + 1 := by
  obtain ⟨line, start, hstart, -, -, hposition⟩ := position_between text offset
  have hline := (Array.getElem?_eq_some_iff.mp hstart).1
  have hsize : (ofText text).starts.size = text.count '\n' + 1 := by
    simp [ofText, length_laterLineStarts]
  have hcount : text.count '\n' ≤ byteLength text :=
    List.count_le_length.trans (length_le_byteLength text)
  rw [hposition]
  refine ⟨by omega, Nat.succ_le_succ ?_⟩
  cases hchars : charsFilling (min offset (byteLength text) - start.offset) start.rest with
  | none => exact Nat.zero_le _
  | some count =>
      have hle := charsFilling_le hchars
      simp only [Option.getD_some]
      omega

end LineIndex

/-- A boundary between two characters of a text, or one of its ends. -/
def Boundary (text : List Char) (offset : Nat) : Prop :=
  ∃ before after, text = before ++ after ∧ offset = byteLength before

/-- A later boundary is at a later line, or at a later column of the same line. -/
theorem LineIndex.position_lt {text : List Char} {first second : Nat} (hfirst : Boundary text first)
    (hsecond : Boundary text second) (hlt : first < second) :
    toLex ((ofText text).position first) < toLex ((ofText text).position second) := by
  obtain ⟨before, after, htext, rfl⟩ := hfirst
  obtain ⟨before', after', htext', rfl⟩ := hsecond
  obtain ⟨more, hmore⟩ : ∃ more, before' = before ++ more := by
    rcases List.append_eq_append_iff.mp (htext.symm.trans htext') with
      ⟨more, hmore, -⟩ | ⟨more, rfl, -⟩
    · exact ⟨more, hmore⟩
    · exact absurd (byteLength_le_append before' more) (Nat.not_le_of_lt hlt)
  have hne : more ≠ [] := by
    rintro rfl
    simp [hmore] at hlt
  have hplaces := (Place.start.afterAll before).position_lt_afterAll hne
  rw [← Place.afterAll_append, ← hmore, Place.start_afterAll, Place.start_afterAll] at hplaces
  rw [htext, position_append, ← htext, htext', position_append]
  exact hplaces

/-- Different boundaries have different positions. -/
theorem LineIndex.eq_of_position_eq {text : List Char} {first second : Nat}
    (hfirst : Boundary text first) (hsecond : Boundary text second)
    (hsame : (ofText text).position first = (ofText text).position second) : first = second := by
  rcases Nat.lt_trichotomy first second with hlt | heq | hlt
  · exact absurd (position_lt hfirst hsecond hlt) (hsame ▸ lt_irrefl _)
  · exact heq
  · exact absurd (position_lt hsecond hfirst hlt) (hsame ▸ lt_irrefl _)

/-- Looking up an offset of a text that has less than 2^32 - 1 bytes.  At a boundary between
characters it finds the line and the column that a scan of the text before it counts, past the end
those of the end.  There is always a line that starts by the offset, and the last of them is found;
so the first line is never the answer as one that starts behind the offset.  Both numbers have 32
bits.  Later boundaries have later positions, so no two have the same, and what is left of a text
tells its own offset. -/
theorem LineIndex.position_scan {text : List Char} (h : byteLength text < 2 ^ 32 - 1) :
    (∀ before after, text = before ++ after →
      (ofText text).position (byteLength before) = (lineBehind before, columnBehind before)) ∧
    (∀ offset, byteLength text < offset →
      (ofText text).position offset = (ofText text).position (byteLength text)) ∧
    (∀ offset, ∃ line, ((ofText text).position offset).1 = line + 1 ∧
      StartsBy (ofText text).starts (min offset (byteLength text)) line ∧
      ¬StartsBy (ofText text).starts (min offset (byteLength text)) (line + 1)) ∧
    (∀ offset, (ofText text).search offset ≠ .error 0) ∧
    (∀ offset, ((ofText text).position offset).1 < 2 ^ 32 ∧
      ((ofText text).position offset).2 < 2 ^ 32) ∧
    (∀ first second, Boundary text first → Boundary text second → first < second →
      toLex ((ofText text).position first) < toLex ((ofText text).position second)) ∧
    (∀ first second, Boundary text first → Boundary text second →
      (ofText text).position first = (ofText text).position second → first = second) ∧
    ∀ before after, text = before ++ after → (ofText text).offsetOf after = byteLength before := by
  refine ⟨?_, ?_, ?_, search_ne_zero text, ?_, fun _ _ => position_lt,
    fun _ _ => eq_of_position_eq, ?_⟩
  · rintro before after rfl
    exact position_append before after
  · intro offset hpast
    rw [position_min, Nat.min_eq_right hpast.le]
  · intro offset
    obtain ⟨line, start, hstart, hby, hnext, hposition⟩ := position_between text offset
    exact ⟨line, by rw [hposition], ⟨start, hstart, hby⟩, hnext⟩
  · intro offset
    obtain ⟨hline, hcolumn⟩ := position_le text offset
    omega
  · rintro before after rfl
    exact offsetOf_append before after

/-- Lines that end with a return or are empty, and characters of several bytes. -/
def mixedLines : List Char := "é\r\n\n€x\n".toList

theorem mixedLines_position :
    byteLength mixedLines < 2 ^ 32 - 1 ∧
      (LineIndex.ofText mixedLines).position 8 = (3, 2) ∧
      (LineIndex.ofText mixedLines).position 99 = (LineIndex.ofText mixedLines).position 10 ∧
      toLex ((LineIndex.ofText mixedLines).position 5)
        < toLex ((LineIndex.ofText mixedLines).position 8) ∧
      (LineIndex.ofText mixedLines).offsetOf ['x', '\n'] = 8 := by
  have hlength : byteLength mixedLines < 2 ^ 32 - 1 := by decide
  obtain ⟨hscan, hpast, -, -, -, hlt, -, hoffset⟩ := LineIndex.position_scan hlength
  have hfive : Boundary mixedLines 5 := ⟨"é\r\n\n".toList, "€x\n".toList, rfl, rfl⟩
  have height : Boundary mixedLines 8 := ⟨"é\r\n\n€".toList, "x\n".toList, rfl, rfl⟩
  exact ⟨hlength, hscan "é\r\n\n€".toList ['x', '\n'] rfl, hpast 99 (by decide),
    hlt 5 8 hfive height (by decide), hoffset "é\r\n\n€".toList ['x', '\n'] rfl⟩

end TypedConfig.Text
