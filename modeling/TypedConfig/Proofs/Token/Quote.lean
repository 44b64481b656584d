import TypedConfig.Literal.Decode
import TypedConfig.Proofs.Token.Edge

/-!
Strings and quoting.  A string token is closed by its own last quote, whatever follows it.  A text
between quotes, with a backslash before each quote and each backslash in it, is such a token, and
stands for the text.
-/

namespace TypedConfig.Token

theorem Quoted.consume_eq_closed {reading : Quoted} {front token rest : List Char} :
    reading.consume front = .closed token rest ↔
      ∃ inner, reading = .closed inner rest ∧ front ++ inner = token := by
  cases reading with
  | absent => simp [Quoted.consume]
  | closed inner left =>
      simp only [Quoted.consume, Quoted.closed.injEq]
      constructor
      · rintro ⟨rfl, rfl⟩
        exact ⟨inner, ⟨rfl, rfl⟩, rfl⟩
      · rintro ⟨_, ⟨rfl, rfl⟩, rfl⟩
        exact ⟨rfl, rfl⟩
  | unclosed taken left => simp [Quoted.consume]

section Strings

variable {text : List Char}

theorem quoted_eq_absent (h : ∀ c ∈ text.head?, c ≠ '"') : quoted text = .absent := by
  unfold quoted
  split
  · exact absurd rfl (h _ rfl)
  · rfl

theorem string_eq_none (h : quoted text = .absent) : string text = none := by
  simp [string, h]

theorem quoted_eq_absent_of_head {c : Char} (hc : c ∈ text.head?) (hquote : c ≠ '"') :
    quoted text = .absent := by
  apply quoted_eq_absent
  intro d hd
  rw [hc] at hd
  cases hd
  exact hquote

theorem quoted_of_string {token rest : List Char} (h : string text = some (token, rest)) :
    quoted text = .closed token rest := by
  unfold string at h
  split at h
  · rename_i hquoted
    cases h
    exact hquoted
  · cases h

theorem string_of_quoted {token rest : List Char} (h : quoted text = .closed token rest) :
    string text = some (token, rest) := by
  rw [string, h]

/-- A string comes before all other literals. -/
theorem literal_of_quoted {token rest : List Char} (h : quoted text = .closed token rest) :
    literal text = some (.string, token, rest) := by
  simp only [literal, alternatives, firstMatch, string_of_quoted h]

theorem quoted_append_of_absent {rest : List Char} (hne : text ≠ []) (h : quoted text = .absent) :
    quoted (text ++ rest) = .absent := by
  obtain ⟨c, more, rfl⟩ := List.exists_cons_of_ne_nil hne
  apply quoted_eq_absent
  rintro _ ⟨⟩ rfl
  have hopen := quotedBody_lossless more
  cases hbody : quotedBody more <;> simp [quoted, hbody, Quoted.consume, Quoted.split?] at h hopen

end Strings

theorem quotedBody_plain {c : Char} (hquote : c ≠ '"') (hslash : c ≠ '\\') (more : List Char) :
    quotedBody (c :: more) = (quotedBody more).consume [c] := by
  rw [quotedBody]
  · exact hquote
  · exact fun hc _ => hslash hc
  · exact fun _ _ hc _ => hslash hc

/-- The text of a closed string is that string in front of any other text. -/
theorem quotedBody_token {text token left : List Char} (h : quotedBody text = .closed token left)
    (rest : List Char) : quotedBody (token ++ rest) = .closed token rest := by
  fun_induction quotedBody text generalizing token left with
  | case1 => cases h
  | case2 more =>
      cases h
      rfl
  | case3 => cases h
  | case4 c more ih =>
      obtain ⟨inner, hinner, rfl⟩ := Quoted.consume_eq_closed.mp h
      have hmore := ih hinner
      simp only [List.cons_append, List.nil_append, quotedBody, hmore]
      rfl
  | case5 c more hquote hlast hescape ih =>
      obtain ⟨inner, hinner, rfl⟩ := Quoted.consume_eq_closed.mp h
      have hmore := ih hinner
      have hslash : c ≠ '\\' := by
        intro hc
        cases more with
        | nil => exact hlast hc rfl
        | cons d others => exact hescape d others hc rfl
      rw [List.cons_append, List.nil_append, List.cons_append, quotedBody_plain hquote hslash, hmore]
      rfl

theorem quoted_token {text token left : List Char} (h : quoted text = .closed token left)
    (rest : List Char) : quoted (token ++ rest) = .closed token rest := by
  unfold quoted at h
  split at h
  · rename_i body
    obtain ⟨inner, hinner, rfl⟩ := Quoted.consume_eq_closed.mp h
    simp only [List.cons_append, List.nil_append, quoted, quotedBody_token hinner]
    rfl
  · cases h

theorem quoted_append_of_closed {text token left : List Char} (h : quoted text = .closed token left)
    (rest : List Char) : quoted (text ++ rest) = .closed token (left ++ rest) := by
  obtain rfl : token ++ left = text := quoted_lossless (congrArg Quoted.split? h)
  rw [List.append_assoc]
  exact quoted_token h (left ++ rest)

theorem cons_of_closed {text token rest : List Char} (h : quoted text = .closed token rest) :
    ∃ more, token = '"' :: more := by
  unfold quoted at h
  split at h
  · obtain ⟨inner, -, rfl⟩ := Quoted.consume_eq_closed.mp h
    exact ⟨inner, rfl⟩
  · cases h

/-- A character as it stands between quotes. -/
def escapeChar (c : Char) : List Char :=
  if c = '"' ∨ c = '\\' then ['\\', c] else [c]

def quote (text : List Char) : List Char :=
  '"' :: (text.flatMap escapeChar ++ ['"'])

theorem quotedBody_escape (text rest : List Char) :
    quotedBody (text.flatMap escapeChar ++ '"' :: rest)
      = .closed (text.flatMap escapeChar ++ ['"']) rest := by
  induction text with
  | nil => rfl
  | cons c more ih =>
      rw [List.flatMap_cons]
      by_cases hc : c = '"' ∨ c = '\\'
      · have hescape : escapeChar c = ['\\', c] := if_pos hc
        rw [hescape]
        change quotedBody ('\\' :: c :: (more.flatMap escapeChar ++ '"' :: rest)) = _
        rw [quotedBody, ih]
        rfl
      · have hescape : escapeChar c = [c] := if_neg hc
        rw [not_or] at hc
        rw [hescape]
        change quotedBody (c :: (more.flatMap escapeChar ++ '"' :: rest)) = _
        rw [quotedBody_plain hc.1 hc.2, ih]
        rfl

/-- A quoted text is read as one string. -/
theorem quoted_quote (text rest : List Char) :
    quoted (quote text ++ rest) = .closed (quote text) rest := by
  change quoted ('"' :: (text.flatMap escapeChar ++ ['"'] ++ rest)) = _
  rw [List.append_assoc]
  change (quotedBody (text.flatMap escapeChar ++ '"' :: rest)).consume ['"'] = _
  rw [quotedBody_escape]
  rfl

theorem unescape_escape (text : List Char) :
    Literal.unescape (text.flatMap escapeChar) = text := by
  induction text with
  | nil => rfl
  | cons c more ih =>
      rw [List.flatMap_cons]
      by_cases hc : c = '"' ∨ c = '\\'
      · have hescape : escapeChar c = ['\\', c] := if_pos hc
        rw [hescape]
        change Literal.unescape ('\\' :: c :: more.flatMap escapeChar) = _
        rcases hc with rfl | rfl <;> simp [Literal.unescape, Literal.simpleEscape?, ih]
      · have hescape : escapeChar c = [c] := if_neg hc
        rw [not_or] at hc
        rw [hescape]
        change Literal.unescape (c :: more.flatMap escapeChar) = _
        rw [Literal.unescape, ih]
        · exact fun hslash _ => hc.2 hslash
        · exact fun _ _ _ _ _ hslash _ => hc.2 hslash
        · exact fun _ _ hslash _ => hc.2 hslash

/-- A quoted text stands for the text. -/
theorem decodeString_quote (text : List Char) : Literal.decodeString (quote text) = text := by
  unfold Literal.decodeString quote Literal.unquote
  simp [unescape_escape]

end TypedConfig.Token
