import TypedConfig.Proofs.Document.Soundness
import TypedConfig.Proofs.Literal.Duration

/-!
The recognisers and the decoders agree.  A literal is recognised by its kind and decoded from its
text alone, by another reading of the same text.  What was recognised always has the form that its
decoder expects, so that decoding fails on numbers out of range and on nothing else.
-/

namespace TypedConfig

/-- A literal stands in a tree. -/
inductive Node.HasLiteral (leaf : Literal) : Node → Prop
  | literal : HasLiteral leaf (.literal leaf)
  | item {items : List Node} {span : Span} {item : Node} :
      item ∈ items → HasLiteral leaf item → HasLiteral leaf (.array items span)
  | field {fields : List (Field Node)} {span : Span} {field : Field Node} :
      field ∈ fields → HasLiteral leaf field.value → HasLiteral leaf (.dictionary fields span)

/-- The text of each literal of a written tree is one of its kind. -/
theorem Node.HasLiteral.style_literal {style : Style} {leaf : Literal} {node : Node}
    (h : node.HasLiteral leaf) {before piece : List Char}
    (hwritten : style.Written node before piece) : style.literal leaf.kind leaf.text.toList := by
  induction h generalizing before piece with
  | literal =>
      cases hwritten with
      | literal hliteral _ => exact hliteral
  | @item items span item hmem _ ih =>
      cases hwritten with
      | array hinside _ =>
          obtain ⟨_, _, hitem⟩ := hinside.written_of_mem item hmem
          exact ih hitem
  | @field fields span field hmem _ ih =>
      cases hwritten with
      | dictionary hinside _ =>
          obtain ⟨_, _, hfield⟩ := hinside.written_of_mem field hmem
          cases hfield with
          | field _ _ _ _ hvalue _ => exact ih hvalue

namespace Literal

open Token (Numeral Suffixed WritesAmounts)

/-- Decoding gives a scalar with some meaning if a condition holds, and is refused if it does not.
-/
structure DecodesIff (leaf : Literal) (fits : Prop) (refusal : DecodeError)
    (meaning : Scalar → Prop) : Prop where
  decodes : fits → ∃ scalar, leaf.decode = .ok scalar ∧ meaning scalar
  refuses : ¬ fits → leaf.decode = .error refusal

/-- What decoding makes of a literal is what its text says.  An integer and a long are the number
written if that is in range, and are refused otherwise.  A float and a double are the nearest
numbers of their formats, and are refused where these are not finite.  A duration in words has the
amounts that are written, in the units that are written, and is refused if one of them is out of
range.  Strings, booleans and sizes are never refused. -/
def Agrees (leaf : Literal) : Prop :=
  match leaf.kind with
  | .string => ∃ body, leaf.text.toList = '"' :: (body ++ ['"']) ∧
      leaf.decode = .ok (.string (String.ofList (unescape body)))
  | .boolean => ∃ value, leaf.text.toList ∈ Token.booleanWords ∧
      (value = true ↔ leaf.text.toList ∈ trueWords) ∧ leaf.decode = .ok (.boolean value)
  | .size => ∃ n : Numeral, n.fraction = [] ∧
      Suffixed Token.sizeUnits n.text leaf.text.toList ∧ leaf.decode = .ok (.size leaf.text)
  | .integer => ∃ n : Numeral, n.fraction = [] ∧ leaf.text.toList = n.text ∧
      leaf.DecodesIff (n.value ≤ 2147483647) (.number "Integer" leaf.text) fun scalar =>
        ∃ value : Int32, scalar = .integer value ∧ value.toInt = n.value
  | .long => ∃ n : Numeral, n.fraction = [] ∧
      Suffixed [['l'], ['L']] n.text leaf.text.toList ∧
        leaf.DecodesIff (n.value ≤ 9223372036854775807) (.number "Long" leaf.text) fun scalar =>
          ∃ value : Int64, scalar = .long value ∧ value.toInt = n.value
  | .float => ∃ n : Numeral,
      (Suffixed [['f'], ['F']] n.text leaf.text.toList ∨
        n.fraction ≠ [] ∧ leaf.text.toList = n.text) ∧
        leaf.DecodesIff
          (BinaryFormat.single.nearest n.value n.scale < BinaryFormat.single.infinity)
          (.number "Float" leaf.text) fun scalar => ∃ value : Binary32, scalar = .float value ∧
            value.bits.toNat = BinaryFormat.single.nearest n.value n.scale
  | .double => ∃ n : Numeral, Suffixed [['d'], ['D']] n.text leaf.text.toList ∧
      leaf.DecodesIff
        (BinaryFormat.double.nearest n.value n.scale < BinaryFormat.double.infinity)
        (.number "Double" leaf.text) fun scalar => ∃ value : Binary64, scalar = .double value ∧
          value.bits.toNat = BinaryFormat.double.nearest n.value n.scale
  | .duration .simple => ∃ amounts, WritesAmounts amounts leaf.text.toList ∧
      (amounts.map Prod.fst).Sublist TimeUnit.all ∧
        leaf.DecodesIff (∀ amount ∈ amounts, amount.2 ≤ 9223372036854775807)
          (.duration leaf.text) fun scalar => ∃ period : Period, scalar = .duration period ∧
            (∀ unit value, (unit, value) ∈ amounts → (period.amount unit).toInt = value) ∧
              ∀ unit, unit ∉ amounts.map Prod.fst → period.amount unit = 0
  | .duration .iso8601 => True

section Kinds

variable {leaf : Literal} {n : Numeral}

/-- Decoding by a partial decoder that has a value exactly if a condition holds. -/
theorem decodesIff_of_numberOr {α : Type} {fits : Prop} [Decidable fits] {kind : String}
    {make : α → Scalar} {value : α} {decoded : Option α} {meaning : Scalar → Prop}
    (hdecode : leaf.decode = numberOr kind leaf.text make decoded)
    (hdecoded : decoded = if fits then some value else none)
    (hmeaning : fits → meaning (make value)) :
    leaf.DecodesIff fits (.number kind leaf.text) meaning := by
  constructor
  · intro hfits
    rw [if_pos hfits] at hdecoded
    rw [hdecode, hdecoded]
    exact ⟨make value, rfl, hmeaning hfits⟩
  · intro hfits
    rw [if_neg hfits] at hdecoded
    rw [hdecode, hdecoded]
    rfl

theorem agrees_string (hkind : leaf.kind = .string) {body : List Char}
    (htext : leaf.text.toList = '"' :: (body ++ ['"'])) : leaf.Agrees := by
  rw [Agrees, hkind]
  refine ⟨body, htext, ?_⟩
  have hbody : unquote ('"' :: (body ++ ['"'])) = body := by simp [unquote]
  simp only [decode, decodeAs, hkind, htext, decodeString, hbody]

theorem agrees_boolean (hkind : leaf.kind = .boolean)
    (htext : leaf.text.toList ∈ Token.booleanWords) : leaf.Agrees := by
  rw [Agrees, hkind]
  refine ⟨decodeBoolean leaf.text.toList, htext, ?_, ?_⟩
  · simp [decodeBoolean]
  · simp only [decode, decodeAs, hkind]

theorem agrees_size (hkind : leaf.kind = .size) (hfraction : n.fraction = [])
    (htext : Suffixed Token.sizeUnits n.text leaf.text.toList) : leaf.Agrees := by
  rw [Agrees, hkind]
  refine ⟨n, hfraction, htext, ?_⟩
  simp only [decode, decodeAs, hkind]

theorem agrees_integer (hkind : leaf.kind = .integer) (hfraction : n.fraction = [])
    (htext : leaf.text.toList = n.text) : leaf.Agrees := by
  rw [Agrees, hkind]
  have hdecode : leaf.decode
      = numberOr "Integer" leaf.text .integer (decodeInteger? leaf.text.toList) := by
    simp only [decode, decodeAs, hkind]
  refine ⟨n, hfraction, htext, ?_⟩
  apply decodesIff_of_numberOr hdecode (decodeInteger?_eq hfraction htext)
  intro hlimit
  exact ⟨_, rfl, toInt_int32 hlimit⟩

theorem agrees_long (hkind : leaf.kind = .long) (hfraction : n.fraction = [])
    (htext : Suffixed [['l'], ['L']] n.text leaf.text.toList) : leaf.Agrees := by
  rw [Agrees, hkind]
  have hdecode : leaf.decode
      = numberOr "Long" leaf.text .long (decodeLong? leaf.text.toList) := by
    simp only [decode, decodeAs, hkind]
  refine ⟨n, hfraction, htext, ?_⟩
  apply decodesIff_of_numberOr hdecode (decodeLong?_eq hfraction htext)
  intro hlimit
  exact ⟨_, rfl, toInt_int64 hlimit⟩

theorem ofQuotient?_single (numerator denominator : Nat) :
    Binary32.ofQuotient? numerator denominator
      = if BinaryFormat.single.nearest numerator denominator < BinaryFormat.single.infinity then
          some ⟨UInt32.ofNat (BinaryFormat.single.nearest numerator denominator)⟩ else none := by
  rw [Binary32.ofQuotient?, BinaryFormat.finite?]
  exact apply_ite (Option.map _) _ _ _

theorem ofQuotient?_double (numerator denominator : Nat) :
    Binary64.ofQuotient? numerator denominator
      = if BinaryFormat.double.nearest numerator denominator < BinaryFormat.double.infinity then
          some ⟨UInt64.ofNat (BinaryFormat.double.nearest numerator denominator)⟩ else none := by
  rw [Binary64.ofQuotient?, BinaryFormat.finite?]
  exact apply_ite (Option.map _) _ _ _

theorem agrees_float (hkind : leaf.kind = .float)
    (htext : Suffixed [['f'], ['F']] n.text leaf.text.toList ∨
      n.fraction ≠ [] ∧ leaf.text.toList = n.text) : leaf.Agrees := by
  rw [Agrees, hkind]
  have hdecode : leaf.decode
      = numberOr "Float" leaf.text .float (decodeFloat? leaf.text.toList) := by
    simp only [decode, decodeAs, hkind]
  have hvalue := (decodeFloat?_eq (htext.imp id And.right)).trans (ofQuotient?_single _ _)
  refine ⟨n, htext, ?_⟩
  apply decodesIff_of_numberOr hdecode hvalue
  intro hfinite
  exact ⟨_, rfl, UInt32.toNat_ofNat_of_lt' (hfinite.trans (by decide))⟩

theorem agrees_double (hkind : leaf.kind = .double)
    (htext : Suffixed [['d'], ['D']] n.text leaf.text.toList) : leaf.Agrees := by
  rw [Agrees, hkind]
  have hdecode : leaf.decode
      = numberOr "Double" leaf.text .double (decodeDouble? leaf.text.toList) := by
    simp only [decode, decodeAs, hkind]
  have hvalue := (decodeDouble?_eq htext).trans (ofQuotient?_double _ _)
  refine ⟨n, htext, ?_⟩
  apply decodesIff_of_numberOr hdecode hvalue
  intro hfinite
  exact ⟨_, rfl, UInt64.toNat_ofNat_of_lt' (hfinite.trans (by decide))⟩

theorem decode_simple_some (hkind : leaf.kind = .duration .simple) {period : Period}
    (h : Period.ofWords? leaf.text.toList = some period) :
    leaf.decode = .ok (.duration period) := by
  simp only [decode, decodeAs, hkind, decodeDuration?, h]

theorem decode_simple_none (hkind : leaf.kind = .duration .simple)
    (h : Period.ofWords? leaf.text.toList = none) :
    leaf.decode = .error (.duration leaf.text) := by
  simp only [decode, decodeAs, hkind, decodeDuration?, h]

theorem agrees_simple (hkind : leaf.kind = .duration .simple) {amounts : List (TimeUnit × Nat)}
    (htext : WritesAmounts amounts leaf.text.toList)
    (hunits : (amounts.map Prod.fst).Sublist TimeUnit.all) : leaf.Agrees := by
  rw [Agrees, hkind]
  have hperiod := Period.ofWords?_eq htext hunits
  have hnodup : (amounts.map Prod.fst).Nodup := hunits.nodup (by decide)
  refine ⟨amounts, htext, hunits, ?_, ?_⟩
  · intro hlimit
    rw [if_pos (by exact hlimit)] at hperiod
    refine ⟨_, decode_simple_some hkind hperiod, _, rfl, ?_, ?_⟩
    · intro unit value hmem
      rw [Period.amount_setAll_of_mem _ hnodup hmem]
      exact toInt_int64 (hlimit _ hmem)
    · intro unit hmem
      rw [Period.amount_setAll_of_not_mem _ hmem]
      cases unit <;> rfl
  · intro hlimit
    rw [if_neg (by exact hlimit)] at hperiod
    exact decode_simple_none hkind hperiod

theorem agrees_iso (hkind : leaf.kind = .duration .iso8601) : leaf.Agrees := by
  rw [Agrees, hkind]
  trivial

/-- Every literal that is recognised agrees with what it is decoded as. -/
theorem agrees_of_literal {rest : List Char}
    (h : Token.literal (leaf.text.toList ++ rest) = some (leaf.kind, leaf.text.toList, rest)) :
    leaf.Agrees := by
  obtain ⟨recognise, hmem, hfound⟩ := Token.firstMatch_mem h
  simp only [Token.alternatives, List.mem_cons, Prod.mk.injEq, List.not_mem_nil, or_false] at hmem
  rcases hmem with ⟨hkind, rfl⟩ | ⟨hkind, rfl⟩ | ⟨hkind, rfl⟩ | ⟨hkind, rfl⟩ | ⟨hkind, rfl⟩ |
    ⟨hkind, rfl⟩ | ⟨hkind, rfl⟩ | ⟨hkind, rfl⟩ | ⟨hkind, rfl⟩
  · obtain ⟨body, htext⟩ := Token.string_shape hfound
    exact agrees_string hkind htext
  · exact agrees_iso hkind
  · exact agrees_boolean hkind (Token.boolean_shape hfound)
  · obtain ⟨amounts, htext, hunits⟩ := Token.amountsIn_shape hfound
    exact agrees_simple hkind htext hunits
  · obtain ⟨n, hfraction, htext⟩ := Token.size_shape hfound
    exact agrees_size hkind hfraction htext
  · obtain ⟨n, hfraction, htext⟩ := Token.long_shape hfound
    exact agrees_long hkind hfraction htext
  · obtain ⟨n, htext⟩ := Token.double_shape hfound
    exact agrees_double hkind htext
  · obtain ⟨n, htext⟩ := Token.float_shape hfound
    exact agrees_float hkind htext
  · obtain ⟨n, hfraction, htext⟩ := Token.integer_shape hfound
    exact agrees_integer hkind hfraction htext

end Kinds

end Literal

/-- Every literal of an accepted text is decoded as what is written, or refused because a number in
it is out of range. -/
theorem Document.parse_agrees {text : String} {document : Document}
    (h : Document.parse text = .ok document) :
    ∀ leaf, document.root.HasLiteral leaf → leaf.Agrees := by
  intro leaf hleaf
  obtain ⟨lead, body, trail, -, -, hwritten, -⟩ := Document.written_of_parse h
  obtain ⟨rest, hliteral⟩ := hleaf.style_literal hwritten
  exact Literal.agrees_of_literal hliteral

/-- One literal that is out of range and two that are not. -/
def delays : Document :=
  ⟨[⟨⟨"a", ⟨1, 2, 1, 2⟩⟩, .literal ⟨.integer, "2147483648", ⟨3, 13, 1, 4⟩⟩, ⟨1, 13, 1, 2⟩⟩,
    ⟨⟨"b", ⟨14, 15, 1, 15⟩⟩, .literal ⟨.duration .simple, "1 day\t02 millis", ⟨16, 31, 1, 17⟩⟩,
      ⟨14, 31, 1, 15⟩⟩], ⟨0, 32, 1, 1⟩⟩

theorem delays_agrees : Document.parse "\x7ba:2147483648,b:1 day\t02 millis\x7d" = .ok delays ∧
    Literal.Agrees ⟨.integer, "2147483648", ⟨3, 13, 1, 4⟩⟩ ∧
      Literal.Agrees ⟨.duration .simple, "1 day\t02 millis", ⟨16, 31, 1, 17⟩⟩ := by
  have hparse : Document.parse "\x7ba:2147483648,b:1 day\t02 millis\x7d" = .ok delays := rfl
  refine ⟨hparse, Document.parse_agrees hparse _ ?_, Document.parse_agrees hparse _ ?_⟩
  · exact .field List.mem_cons_self .literal
  · exact .field (List.mem_cons_of_mem _ List.mem_cons_self) .literal

end TypedConfig
