import TypedConfig.Error
import TypedConfig.Proofs.Document.Grammar

/-!
What is read was written.  Every reader takes one stretch off the front of the text, and what it
finds there is a derivation of the grammar for that stretch, with the spans of the text.
-/

namespace TypedConfig

/-- The cursor behind a stretch of text from the start, with the text that follows it. -/
def Cursor.behind (before rest : List Char) : Cursor :=
  ⟨rest, Text.Place.start.afterAll before⟩

namespace Document

/-- What the reader finds is the thing that the text it takes is written for. -/
def Sound {α : Type} (reader : Cursor → Reading α) (item : α → List Char → List Char → Prop) :
    Prop :=
  ∀ ⦃before rest : List Char⦄ ⦃x : α⦄ ⦃next : Cursor⦄,
    reader (.behind before rest) = .found x next →
      ∃ piece left, rest = piece ++ left ∧ next = .behind (before ++ piece) left ∧ piece ≠ [] ∧
        item x before piece

section Steps

variable {before rest : List Char} {next : Cursor}

theorem past_behind (before taken left : List Char) :
    (Cursor.behind before rest).past taken left = .behind (before ++ taken) left := by
  simp [Cursor.behind, Cursor.past, Text.Place.afterAll_append]

theorem taken_unique {token left piece : List Char} (htext : token ++ left = piece ++ rest)
    (hcursor : Cursor.behind (before ++ token) left = .behind (before ++ piece) rest) :
    token = piece ∧ left = rest := by
  obtain rfl : left = rest := congrArg Cursor.rest hcursor
  exact ⟨List.append_cancel_right htext, rfl⟩

theorem span_behind {after piece left : List Char} (h : before ++ piece = after) :
    Style.accepted.span ((Cursor.behind before rest).spanTo (.behind after left)) before piece := by
  subst h
  rfl

theorem span_past (before piece left : List Char) :
    Style.accepted.span
      ((Cursor.behind before rest).spanTo ((Cursor.behind before rest).past piece left))
      before piece := by
  rw [past_behind]
  exact span_behind rfl

/-- Layout is passed up to a text that none begins. -/
theorem pastLayout_behind (before rest : List Char) : ∃ layout left,
    rest = layout ++ left ∧ LayoutBefore layout left ∧ Solid left ∧
      (Cursor.behind before rest).pastLayout = .behind (before ++ layout) left :=
  ⟨_, _, (Token.splitLayout_append false rest).symm, layout_splitLayout rest,
    solid_splitLayout false rest, past_behind before _ _⟩

theorem readMark_sound {mark : Char} {expected : Expectation}
    (h : readMark mark expected (.behind before rest) = .found () next) :
    ∃ left, rest = mark :: left ∧ next = .behind (before ++ [mark]) left := by
  cases rest with
  | nil => cases h
  | cons c more =>
      by_cases hc : c = mark
      · subst hc
        simp only [readMark, Cursor.behind, if_true, Reading.found.injEq, true_and] at h
        subst h
        exact ⟨more, rfl, past_behind before [c] more⟩
      · simp [readMark, Cursor.behind, hc] at h

/-- The text of a comma that may stand somewhere. -/
def commaText (comma : Bool) : List Char := if comma then [','] else []

theorem readComma_behind (before rest : List Char) :
    ∃ comma left, rest = commaText comma ++ left ∧
      readComma (.behind before rest) = (comma, .behind (before ++ commaText comma) left) := by
  unfold readComma
  split
  · rename_i left hrest
    cases hrest
    exact ⟨true, left, rfl, by rw [past_behind]; rfl⟩
  · exact ⟨false, rest, rfl, by simp [commaText]⟩

end Steps

section Series

variable {α : Type} {reader : Cursor → Reading α} {item : α → List Char → List Char → Prop}
  {expected : Expectation}

/-- A series that was read: nothing but layout, or things in the order of the text. -/
inductive SeriesRead (item : α → List Char → List Char → Prop) (before rest : List Char) :
    Bool → List α → Cursor → Prop where
  | nothing {layout left : List Char} :
      rest = layout ++ left → (left ≠ [] → Layout layout) →
        SeriesRead item before rest false [] (.behind (before ++ layout) left)
  | things {afterComma : Bool} {xs : List α} {lead body trail left : List Char} :
      rest = lead ++ (body ++ (trail ++ left)) → Layout lead → body ≠ [] →
        Style.accepted.Series item xs (before ++ lead) body → (left ≠ [] → Layout trail) →
          SeriesRead item before rest afterComma xs
            (.behind (before ++ (lead ++ (body ++ trail))) left)

/-- A thing in front of a series that was read, with what is passed between them. -/
theorem SeriesRead.cons {before lead piece gap left : List Char} {x : α} {xs : List α}
    {comma afterComma : Bool} {next : Cursor} (hlead : Layout lead)
    (hx : item x (before ++ lead) piece) (hpiece : piece ≠ [])
    (hgap : commaText comma ++ left ≠ [] → Layout gap)
    (h : SeriesRead item (before ++ lead ++ piece ++ gap ++ commaText comma) left comma xs next) :
    SeriesRead item before (lead ++ (piece ++ (gap ++ (commaText comma ++ left)))) afterComma
      (x :: xs) next := by
  cases h with
  | @nothing layout follow hleft hlayout =>
      have hnext : Cursor.behind (before ++ lead ++ piece ++ gap ++ commaText false ++ layout) follow
          = .behind (before ++ (lead ++ (piece ++ (gap ++ layout)))) follow := by
        simp [commaText]
      subst hleft
      rw [hnext]
      refine .things (by simp [commaText]) hlead hpiece (.last hx) ?_
      intro hfollow
      exact (hgap (by simp [hfollow])).append (hlayout hfollow)
  | @things _ _ other body trail follow hleft hother hbody hseries htrail =>
      have hnext : Cursor.behind (before ++ lead ++ piece ++ gap ++ commaText comma
            ++ (other ++ (body ++ trail))) follow
          = .behind (before ++ (lead ++ (piece ++ (gap ++ commaText comma ++ other) ++ body ++ trail)))
              follow := by
        simp
      have hbetween : Style.accepted.between (gap ++ commaText comma ++ other) := by
        refine ⟨gap, other, hgap (by simp [hleft, hbody]), hother, ?_⟩
        cases comma with
        | true => exact .inl (by simp [commaText])
        | false => exact .inr (by simp [commaText])
      have hbefore : before ++ lead ++ piece ++ gap ++ commaText comma ++ other
          = before ++ lead ++ piece ++ (gap ++ commaText comma ++ other) := by simp
      rw [hbefore] at hseries
      subst hleft
      rw [hnext]
      exact .things (by simp) hlead (by simp [hpiece]) (.next hx hbetween hseries) htrail

theorem readSeries_sound (hitem : Sound reader item) {bound : Nat} {before rest : List Char}
    {afterComma : Bool} {xs : List α} {next : Cursor} (hbound : rest.length < bound)
    (h : readSeries reader expected bound afterComma (.behind before rest) = .found xs next) :
    SeriesRead item before rest afterComma xs next := by
  induction bound generalizing before rest afterComma xs next with
  | zero => omega
  | succ bound ih =>
      obtain ⟨layout, left, rfl, hlayout, -, hpast⟩ := pastLayout_behind before rest
      simp only [readSeries, hpast] at h
      split at h
      · rename_i value cursor hread
        obtain ⟨piece, follow, rfl, rfl, hpiece, hvalue⟩ := hitem hread
        obtain ⟨gap, others, rfl, hgap, -, hpastGap⟩ :=
          pastLayout_behind (before ++ layout ++ piece) follow
        rw [hpastGap] at h
        obtain ⟨ys, hys, rfl⟩ := Reading.found_of_map h
        have hpos := List.length_pos_iff.mpr hpiece
        simp only [List.length_append] at hbound
        have hlead : Layout layout := hlayout.layout (by simp [hpiece])
        obtain ⟨comma, left, rfl, hcomma⟩ :=
          readComma_behind (before ++ layout ++ piece ++ gap) others
        rw [hcomma] at hys
        have hrest := ih (by simp only [List.length_append] at hbound; omega) hys
        exact hrest.cons hlead hvalue hpiece hgap.layout
      · split at h
        · cases h
        · rename_i hcomma
          cases h
          simp only [Bool.not_eq_true] at hcomma
          subst hcomma
          exact .nothing rfl hlayout.layout
      · cases h

theorem readInside_sound (hitem : Sound reader item) {close : Char} {unclosed : Expectation}
    {before rest : List Char} {xs : List α} {next : Cursor}
    (h : readInside reader expected close unclosed (.behind before rest) = .found xs next) :
    ∃ body left, rest = body ++ close :: left ∧ next = .behind (before ++ body ++ [close]) left ∧
      Style.accepted.Inside item xs before body := by
  obtain ⟨ys, cursor, hseries, hmark⟩ := Reading.found_of_andThen h
  obtain ⟨_, hclose, rfl⟩ := Reading.found_of_map hmark
  have hread := readSeries_sound hitem (Nat.lt_succ_self _) hseries
  cases hread with
  | @nothing layout left hrest hlayout =>
      obtain ⟨follow, rfl, rfl⟩ := readMark_sound hclose
      exact ⟨layout, follow, hrest, rfl, .empty (hlayout (List.cons_ne_nil _ _))⟩
  | @things _ _ lead body trail left hrest hlead _ hbody htrail =>
      obtain ⟨follow, rfl, rfl⟩ := readMark_sound hclose
      change rest = lead ++ (body ++ (trail ++ close :: follow)) at hrest
      refine ⟨lead ++ body ++ trail, follow, by simp [hrest], by simp, ?_⟩
      exact .filled hlead hbody (htrail (List.cons_ne_nil _ _))

end Series

/-- A name and its span are written as a piece. -/
def NameWritten (name : Identifier) (before piece : List Char) : Prop :=
  Style.accepted.name name.name piece ∧ Style.accepted.span name.span before piece

theorem identifier_alone {text token left : List Char}
    (h : Token.identifier text = some (token, left)) :
    Token.identifier token = some (token, []) ∧ token ≠ [] := by
  cases text with
  | nil => cases h
  | cons c more =>
      simp only [Token.identifier, Option.ite_none_right_eq_some, Option.some.injEq,
        Prod.mk.injEq] at h
      obtain ⟨hstart, rfl, -⟩ := h
      have hmore : ∀ d ∈ more.takeWhile Token.isIdentifierChar, Token.isIdentifierChar d = true :=
        fun d hd => List.mem_takeWhile_imp hd
      refine ⟨?_, List.cons_ne_nil _ _⟩
      simp [Token.identifier, hstart, List.takeWhile_eq_self_iff.mpr hmore,
        List.dropWhile_eq_nil_iff.mpr hmore]

theorem readName_sound : Sound readName NameWritten := by
  intro before rest name next h
  unfold readName at h
  split at h
  · cases h
  · split at h
    · rename_i token left hquoted
      change Token.quoted rest = .closed token left at hquoted
      have hcut : token ++ left = rest :=
        Token.quoted_lossless (by simp [hquoted, Token.Quoted.split?])
      have halone : Token.quoted token = .closed token [] := by
        simpa using Token.quoted_token hquoted []
      have hstring := Token.string_of_quoted halone
      have hne := (Token.opens_string hstring).ne_nil
      cases h
      exact ⟨token, left, hcut.symm, past_behind _ _ _, hne, .inr ⟨hstring, String.toList_ofList⟩,
        span_past before token left⟩
    · cases h
    · split at h
      · rename_i token left hidentifier
        obtain ⟨halone, hne⟩ := identifier_alone hidentifier
        have hcut : token ++ left = rest := Token.identifier_lossless hidentifier
        cases h
        exact ⟨token, left, hcut.symm, past_behind _ _ _, hne, .inl ⟨halone, String.toList_ofList⟩,
          span_past before token left⟩
      · cases h

theorem literal_written {kind : LiteralKind} {token before : List Char} {span : Span}
    (htoken : Style.accepted.literal kind token) (hspan : Style.accepted.span span before token) :
    Style.accepted.Written (.literal ⟨kind, String.ofList token, span⟩) before token := by
  have htext : (String.ofList token).toList = token := String.toList_ofList
  have hwritten : Style.accepted.Written (.literal ⟨kind, String.ofList token, span⟩) before
      (String.ofList token).toList := .literal (htext.symm ▸ htoken) (htext.symm ▸ hspan)
  rwa [htext] at hwritten

theorem readLiteral_sound : Sound readLiteral Style.accepted.Written := by
  intro before rest node next h
  unfold readLiteral at h
  split at h
  · cases h
  · split at h
    · rename_i kind token left hliteral
      have hcut : token ++ left = rest := Token.literal_append hliteral
      have hne := (Token.opens_literal hliteral).ne_nil
      cases h
      refine ⟨token, left, hcut.symm, past_behind _ _ _, hne, ?_⟩
      exact literal_written ⟨left, hcut ▸ hliteral⟩ (span_past before token left)
    · cases h

/-- A field that was read: its name, and behind the colon its value. -/
theorem readField_found {value : Cursor → Reading Node} {before rest : List Char}
    {field : Field Node} {next : Cursor}
    (h : readField value (.behind before rest) = .found field next) :
    ∃ token first second text, rest = token ++ (first ++ ':' :: (second ++ text)) ∧
      readName (.behind before rest) = .found field.name
        (.behind (before ++ token) (first ++ ':' :: (second ++ text))) ∧
      Layout first ∧ LayoutBefore second text ∧ Solid text ∧
      value (.behind (before ++ (token ++ first ++ ':' :: second)) text) = .found field.value next ∧
      field.span = (Cursor.behind before rest).spanTo next := by
  obtain ⟨name, cursor, hname, h⟩ := Reading.found_of_andThen h
  obtain ⟨token, follow, rfl, rfl, -⟩ := readName_sound hname
  obtain ⟨first, others, rfl, hfirst, -, hpast⟩ := pastLayout_behind (before ++ token) follow
  rw [hpast] at h
  obtain ⟨_, cursor, hmark, h⟩ := Reading.found_of_andThen h
  obtain ⟨behindColon, rfl, rfl⟩ := readMark_sound hmark
  obtain ⟨second, text, rfl, hsecond, hsolid, hpastSecond⟩ :=
    pastLayout_behind (before ++ token ++ first ++ [':']) behindColon
  rw [hpastSecond] at h
  obtain ⟨node, cursor, hnode, h⟩ := Reading.found_of_andThen h
  have hvalue := Reading.found_of_require hnode
  have hbefore : before ++ token ++ first ++ [':'] ++ second
      = before ++ (token ++ first ++ ':' :: second) := by simp
  rw [hbefore] at hvalue
  cases h
  exact ⟨token, first, second, text, rfl, hname, hfirst.layout (List.cons_ne_nil _ _), hsecond,
    hsolid, hvalue, rfl⟩

theorem readField_sound {value : Cursor → Reading Node}
    (hvalue : Sound value Style.accepted.Written) :
    Sound (readField value) Style.accepted.FieldWritten := by
  intro before rest field next h
  obtain ⟨token, first, second, text, rfl, hname, hfirst, hsecond, -, hread, hspan⟩ :=
    readField_found h
  obtain ⟨piece, left, rfl, rfl, hpiece, hwritten⟩ := hvalue hread
  obtain ⟨name, follow, htext, hcursor, hne, hnameWritten, hnameSpan⟩ := readName_sound hname
  obtain ⟨rfl, -⟩ := taken_unique htext hcursor
  refine ⟨token ++ first ++ ':' :: second ++ piece, left, by simp, by simp, by simp [hne], ?_⟩
  refine .field hnameWritten hnameSpan hfirst (hsecond.layout (by simp [hpiece])) hwritten ?_
  rw [hspan]
  exact span_behind (by simp)

theorem readNode_sound (limit levels : Nat) :
    Sound (readNode limit levels) Style.accepted.Written := by
  induction levels with
  | zero =>
      intro before rest node next h
      unfold readNode at h
      split at h
      · cases h
      · cases h
      · exact readLiteral_sound h
  | succ levels ih =>
      intro before rest node next h
      unfold readNode at h
      split at h
      · rename_i follow hrest
        change rest = '\x7b' :: follow at hrest
        subst hrest
        obtain ⟨⟨fields, span⟩, hread, rfl⟩ := Reading.found_of_map h
        obtain ⟨ys, cursor, hinside, hfound⟩ := Reading.found_of_andThen hread
        cases hfound
        rw [past_behind] at hinside
        obtain ⟨body, left, rfl, rfl, hwritten⟩ := readInside_sound (readField_sound ih) hinside
        refine ⟨'\x7b' :: (body ++ ['\x7d']), left, by simp, by simp, List.cons_ne_nil _ _, ?_⟩
        exact .dictionary hwritten (span_behind (by simp))
      · rename_i follow hrest
        change rest = '[' :: follow at hrest
        subst hrest
        obtain ⟨⟨items, span⟩, hread, rfl⟩ := Reading.found_of_map h
        obtain ⟨ys, cursor, hinside, hfound⟩ := Reading.found_of_andThen hread
        cases hfound
        rw [past_behind] at hinside
        obtain ⟨body, left, rfl, rfl, hwritten⟩ := readInside_sound ih hinside
        refine ⟨'[' :: (body ++ [']']), left, by simp, by simp, List.cons_ne_nil _ _, ?_⟩
        exact .array hwritten (span_behind (by simp))
      · exact readLiteral_sound h

theorem readRoot_brace {limit : Nat} {cursor next : Cursor} {document : Document}
    (h : readRoot limit cursor = .found document next) :
    ∃ rest, cursor.rest = '\x7b' :: rest := by
  unfold readRoot at h
  split at h
  · rename_i rest hrest
    exact ⟨rest, hrest⟩
  · cases h

theorem within_of_parse {text : String} {document : Document}
    (h : Document.parse text = .ok document) :
    ofTextWithin nestingLimit text.toList = .ok document := by
  change (ofTextWithin nestingLimit text.toList).mapError Fault.toError = .ok document at h
  cases hread : ofTextWithin nestingLimit text.toList with
  | error fault =>
      rw [hread] at h
      cases h
  | ok found =>
      rw [hread] at h
      cases h
      rfl

theorem reading_of_within {limit : Nat} {text : List Char} {document : Document}
    (h : ofTextWithin limit text = .ok document) :
    ∃ next cursor, readRoot limit (Cursor.behind [] text).pastLayout = .found document next ∧
      readEnd next.pastLayout = .found () cursor := by
  simp only [ofTextWithin] at h
  split at h
  · rename_i found last hreading
    cases h
    obtain ⟨root, next, hroot, hmap⟩ := Reading.found_of_andThen hreading
    obtain ⟨_, hend, rfl⟩ := Reading.found_of_map hmap
    exact ⟨next, last, hroot, hend⟩
  · cases h
  · cases h

theorem reading_of_parse {text : String} {document : Document}
    (h : Document.parse text = .ok document) :
    ∃ next cursor, readRoot nestingLimit (Cursor.behind [] text.toList).pastLayout
      = .found document next ∧ readEnd next.pastLayout = .found () cursor :=
  reading_of_within (within_of_parse h)

/-- Where the root of a text stands that is read within some limit. -/
theorem root_of_within {limit : Nat} {text : List Char} {document : Document}
    (h : ofTextWithin limit text = .ok document) :
    ∃ lead body trail, text = lead ++ (body ++ trail) ∧ Layout lead ∧ LayoutBefore trail [] ∧
      readRoot limit (.behind lead (body ++ trail))
          = .found document (.behind (lead ++ body) trail) ∧
        Style.accepted.Written document.root lead body := by
  obtain ⟨next, cursor, hroot, hend⟩ := reading_of_within h
  obtain ⟨lead, left, rfl, hlead, -, hpast⟩ := pastLayout_behind [] text
  rw [hpast, List.nil_append] at hroot
  obtain ⟨rest, hrest⟩ := readRoot_brace hroot
  change left = '\x7b' :: rest at hrest
  subst hrest
  have hread :
      readNode limit limit (.behind lead ('\x7b' :: rest)) = .found document.root next := by
    unfold Cursor.behind at hroot ⊢
    rw [← map_root_readRoot, hroot, Reading.map_found]
  obtain ⟨body, follow, hbody, rfl, -, hwritten⟩ := readNode_sound _ _ hread
  obtain ⟨trail, others, rfl, htrail, -, hpastEnd⟩ := pastLayout_behind (lead ++ body) follow
  have hnil : others = [] := by
    rw [hpastEnd] at hend
    cases others with
    | nil => rfl
    | cons c more => simp [readEnd, Cursor.behind] at hend
  subst hnil
  rw [List.append_nil] at hbody hroot
  rw [hbody] at hroot ⊢
  exact ⟨lead, body, trail, rfl, hlead.layout (List.cons_ne_nil _ _), htrail, hroot, hwritten⟩

/-- A text that is read within some limit is layout, its root as the grammar writes it with the
spans of the text, and layout again, whose last comment may be left open. -/
theorem written_of_within {limit : Nat} {text : List Char} {document : Document}
    (h : ofTextWithin limit text = .ok document) :
    ∃ lead body trail, text = lead ++ body ++ trail ∧ Layout lead ∧
      Style.accepted.Written document.root lead body ∧ (Layout trail ∨ OpenLayout trail) := by
  obtain ⟨lead, body, trail, htext, hlead, htrail, -, hwritten⟩ := root_of_within h
  rw [← List.append_assoc] at htext
  exact ⟨lead, body, trail, htext, hlead, hwritten, htrail.imp id And.left⟩

end Document

/-- An accepted text is layout, its root as the grammar writes it with the spans of the text, and
layout again, whose last comment may be left open. -/
theorem Document.written_of_parse {text : String} {document : Document}
    (h : Document.parse text = .ok document) :
    ∃ lead body trail, text.toList = lead ++ body ++ trail ∧ Layout lead ∧
      Style.accepted.Written document.root lead body ∧ (Layout trail ∨ OpenLayout trail) :=
  Document.written_of_within (Document.within_of_parse h)

end TypedConfig
