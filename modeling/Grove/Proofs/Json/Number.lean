import Grove.Proofs.Json.Token

/-!
# Numbers as tokens

A number takes the longest beginning of a text that has its form; what the writer puts behind a
number prolongs none. So digits come back as the same digits, and a numeral as the number that it is
worth.
-/
namespace Grove.Json

open Binary64 (signText exponentText)
open Text (NoDigit noDigit_cons takeWhile_isDigit)

/-- The text goes on with a separator, a closing bracket or a line end, or not at all. -/
def Stops (rest : List CodePoint) : Prop :=
  ∀ c, rest.head? = some c → c = ',' ∨ c = ']' ∨ c = '\x7d' ∨ c = '\n'

theorem Stops.noDigit {rest : List CodePoint} (h : Stops rest) : NoDigit rest := by
  intro c hc
  rcases h c hc with rfl | rfl | rfl | rfl <;> decide

theorem Stops.spanFraction {rest : List CodePoint} (h : Stops rest) : spanFraction rest = [] := by
  unfold Json.spanFraction
  split
  · next more => rcases h '.' rfl with h | h | h | h <;> exact absurd h (by decide)
  · rfl

theorem Stops.spanExponent {rest : List CodePoint} (h : Stops rest) : spanExponent rest = none := by
  unfold Json.spanExponent
  split
  · next c more => rcases h c rfl with rfl | rfl | rfl | rfl <;> rfl
  · rfl

theorem spanExponent_exponentText (k : Int) {rest : List CodePoint} (h : Stops rest) :
    spanExponent (↑ 'e' :: exponentText k ++ rest) = some (k, (exponentText k).length + 1) := by
  have hdigits : ∀ c ∈ Text.paddedDigits 10 2 k.natAbs, Text.isDigit c = true :=
    fun _ hc => Text.isDigit_of_mem_paddedDigits hc
  have hds := takeWhile_isDigit hdigits h.noDigit
  have hne := List.isEmpty_eq_false_iff.mpr (Text.paddedDigits_ne_nil 2 k.natAbs)
  have hvalue := Text.decimalValue_paddedDigits 2 k.natAbs
  by_cases hk : k < 0
  · have htext : exponentText k = ↑ '-' :: Text.paddedDigits 10 2 k.natAbs := by
      rw [exponentText, if_pos hk]
    rw [htext]
    simp only [List.cons_append, spanExponent, takeSign, hds, hne, hvalue]
    simp [abs_of_neg hk]
    omega
  · have htext : exponentText k = ↑ '+' :: Text.paddedDigits 10 2 k.natAbs := by
      rw [exponentText, if_neg hk]
    rw [htext]
    simp only [List.cons_append, spanExponent, takeSign, hds, hne, hvalue]
    simp [abs_of_nonneg (not_lt.mp hk)]
    omega

/-- Digits in front without needless zeros. -/
structure Leading (whole : List CodePoint) : Prop where
  ne_nil : whole ≠ []
  digits : ∀ c ∈ whole, Text.isDigit c = true
  leading : whole = [CodePoint.scalar '0'] ∨ whole.head? ≠ some (CodePoint.scalar '0')

theorem readNumber_append (negative : Bool) {whole behind : List CodePoint} (hw : Leading whole)
    (h : NoDigit behind) :
    readNumber (signText negative ++ whole ++ behind) =
      let fraction := spanFraction behind
      let size := (signText negative ++ whole).length +
        (if fraction.isEmpty then 0 else 1 + fraction.length)
      match spanExponent (if fraction.isEmpty then behind else behind.drop (1 + fraction.length))
      with
      | none =>
        if fraction.isEmpty then some (.whole negative whole, size)
        else
          some (.fixed (.float (.ofDecimal negative (Text.decimalValue (whole ++ fraction))
            (-fraction.length))), size)
      | some (k, n) =>
        some (.fixed (.float (.ofDecimal negative (Text.decimalValue (whole ++ fraction))
          (k - fraction.length))), size + n) := by
  obtain ⟨d, ds, rfl⟩ := List.exists_cons_of_ne_nil hw.ne_nil
  have hdigit := hw.digits d List.mem_cons_self
  have hminus : d ≠ '-' := by
    rintro rfl
    exact absurd hdigit (by decide)
  have hsize : (signText negative ++ d :: ds).length =
      (if negative then 1 else 0) + (d :: ds).length := by
    cases negative <;> simp [signText]
    omega
  have htake := takeWhile_isDigit hw.digits h
  unfold readNumber
  split
  next sign body heq =>
  have hsign : (negative, d :: ds ++ behind) = (sign, body) := by
    rw [← heq]
    cases negative
    · split
      · next hcons => exact absurd (List.cons.inj hcons).1 hminus
      · rfl
    · rfl
  cases hsign
  rw [hsize]
  split
  · next tail heq =>
    have hone : d :: ds = [CodePoint.scalar '0'] := by
      rcases hw.leading with hone | hhead
      · exact hone
      · exact absurd (congrArg some (List.cons.inj heq).1) hhead
    rw [hone]
    rfl
  · simp only [htake, List.drop_left]
    rfl

theorem readNumber_whole (negative : Bool) {whole rest : List CodePoint} (hw : Leading whole)
    (h : Stops rest) :
    readNumber (signText negative ++ whole ++ rest) =
      some (.whole negative whole, (signText negative ++ whole).length) := by
  rw [readNumber_append negative hw h.noDigit, h.spanFraction]
  simp only [List.isEmpty_nil, if_true, h.spanExponent, Nat.add_zero]

theorem leading_of_wellFormed {n : Numeral} (h : n.WellFormed) : Leading n.whole :=
  ⟨h.whole_ne_nil, h.whole_digits, h.leading⟩

theorem noDigit_exponentChars (n : Numeral) {rest : List CodePoint} (h : Stops rest) :
    NoDigit (n.exponentChars ++ rest) := by
  unfold Numeral.exponentChars
  split
  · exact h.noDigit
  · exact noDigit_cons (by decide) _

theorem spanFraction_numeral {n : Numeral} (hn : n.WellFormed) {rest : List CodePoint}
    (h : Stops rest) :
    spanFraction (n.fractionChars ++ (n.exponentChars ++ rest)) = n.fraction := by
  unfold Numeral.fractionChars
  split
  · next hnil =>
    rw [hnil, List.nil_append]
    unfold Numeral.exponentChars
    split
    · exact h.spanFraction
    · rfl
  · exact takeWhile_isDigit hn.fraction_digits (noDigit_exponentChars n h)

/-- A numeral is read as the number that it is worth. -/
theorem readNumber_numeral (negative : Bool) {n : Numeral} (hn : n.WellFormed)
    {rest : List CodePoint} (h : Stops rest) :
    readNumber (signText negative ++ n.chars ++ rest) =
      some (.fixed (.float (n.value negative)), (signText negative ++ n.chars).length) := by
  have hbehind : NoDigit (n.fractionChars ++ (n.exponentChars ++ rest)) := by
    unfold Numeral.fractionChars
    split
    · exact noDigit_exponentChars n h
    · exact noDigit_cons (by decide) _
  have htext : signText negative ++ n.chars ++ rest =
      signText negative ++ n.whole ++ (n.fractionChars ++ (n.exponentChars ++ rest)) := by
    simp only [Numeral.chars, List.append_assoc]
  have hdrop : (if n.fraction.isEmpty then n.fractionChars ++ (n.exponentChars ++ rest)
      else (n.fractionChars ++ (n.exponentChars ++ rest)).drop (1 + n.fraction.length)) =
      n.exponentChars ++ rest := by
    unfold Numeral.fractionChars
    by_cases hnil : n.fraction = []
    · simp [hnil]
    · rw [if_neg (by simpa using hnil), if_neg hnil, Nat.add_comm]
      exact List.drop_left
  have hlength : n.fractionChars.length =
      if n.fraction.isEmpty then 0 else 1 + n.fraction.length := by
    unfold Numeral.fractionChars
    by_cases hnil : n.fraction = []
    · simp [hnil]
    · simp [hnil]
      omega
  rw [htext, readNumber_append negative (leading_of_wellFormed hn) hbehind]
  simp only [spanFraction_numeral hn h, hdrop, ← hlength]
  unfold Numeral.value
  cases hexp : n.exponent with
  | none =>
    have hbroken : n.fraction.isEmpty = false := by
      simpa using hn.broken.resolve_right (not_not.mpr hexp)
    have hchars : n.exponentChars = [] := by rw [Numeral.exponentChars, hexp]
    simp only [hchars, List.nil_append, h.spanExponent, hbroken, Option.getD_none, zero_sub]
    simp [Numeral.chars, hchars]
    omega
  | some k =>
    have hchars : n.exponentChars = ↑ 'e' :: exponentText k := by rw [Numeral.exponentChars, hexp]
    simp only [hchars, spanExponent_exponentText k h, Option.getD_some]
    simp [Numeral.chars, hchars]
    omega

/-- A digit is none of some characters that are no digits. -/
theorem ne_of_isDigit {d : CodePoint} (hd : Text.isDigit d = true) {marks : List CodePoint}
    (h : marks.all (!Text.isDigit ·) = true) : ∀ c ∈ marks, c ≠ d := by
  rintro c hc rfl
  have hnot := List.all_eq_true.mp h c hc
  rw [hd] at hnot
  cases hnot

theorem find?_words_eq_none {c : CodePoint}
    (hne : ∀ mark ∈ [CodePoint.scalar 'n', 't', 'f', 'N', 'I', '-'], mark ≠ c)
    (cs : List CodePoint) : (words.find? fun (word, _) => word.isPrefixOf (c :: cs)) = none := by
  simp only [List.forall_mem_cons] at hne
  simp [words, List.isPrefixOf, hne]

theorem find?_words_minus {d : CodePoint} (hd : Text.isDigit d = true) (cs : List CodePoint) :
    (words.find? fun (word, _) => word.isPrefixOf (↑ '-' :: d :: cs)) = none := by
  have hne : 'I' ≠ d := by
    rintro rfl
    exact absurd hd (by decide)
  simp [words, List.isPrefixOf, hne]

theorem readToken_of_readNumber {p : Place} {c : CodePoint} {cs : List CodePoint}
    {t : Token} {n : Nat}
    (hc : ∀ mark ∈ [CodePoint.scalar '\x7b', '\x7d', '[', ']', ':', ',', '"'], mark ≠ c)
    (hwords : (words.find? fun (word, _) => word.isPrefixOf (c :: cs)) = none)
    (h : readNumber (c :: cs) = some (t, n + 1)) : readToken p c cs = (t, n) := by
  simp only [List.forall_mem_cons] at hc
  obtain ⟨h₁, h₂, h₃, h₄, h₅, h₆, h₇, -⟩ := hc
  rw [readToken, if_neg h₁.symm, if_neg h₂.symm, if_neg h₃.symm, if_neg h₄.symm, if_neg h₅.symm,
    if_neg h₆.symm, if_neg h₇.symm, hwords]
  simp only [h, Nat.add_sub_cancel]

/-- Where a number is read, the number is the token. -/
theorem lexes_of_readNumber {negative : Bool} {whole more rest : List CodePoint} {t : Token}
    (hw : Leading whole) (h : readNumber (signText negative ++ (whole ++ more) ++ rest) =
      some (t, (signText negative ++ (whole ++ more)).length)) :
    Lexes (signText negative ++ (whole ++ more)) rest [t] := by
  obtain ⟨d, ds, rfl⟩ := List.exists_cons_of_ne_nil hw.ne_nil
  have hdigit := hw.digits d List.mem_cons_self
  cases negative with
  | true =>
    exact lexes_of_readToken (by decide) fun p =>
      readToken_of_readNumber (by simp) (find?_words_minus hdigit _) h
  | false =>
    have hspace : isSpace d = false := by
      have hblanks := ne_of_isDigit hdigit
        (show [CodePoint.scalar ' ', '\t', '\n', '\r'].all (!Text.isDigit ·) = true by decide)
      simp only [List.forall_mem_cons] at hblanks
      obtain ⟨h₁, h₂, h₃, h₄, -⟩ := hblanks
      simp [isSpace, h₁.symm, h₂.symm, h₃.symm, h₄.symm]
    refine lexes_of_readToken hspace fun p => ?_
    exact readToken_of_readNumber (ne_of_isDigit hdigit (by decide))
      (find?_words_eq_none (ne_of_isDigit hdigit (by decide)) _) h

theorem words_eq : words =
    [([CodePoint.scalar 'n', 'u', 'l', 'l'], .null),
      ([CodePoint.scalar 't', 'r', 'u', 'e'], .boolean true),
      ([CodePoint.scalar 'f', 'a', 'l', 's', 'e'], .boolean false),
      ([CodePoint.scalar 'N', 'a', 'N'], .float .nan),
      ([CodePoint.scalar 'I', 'n', 'f', 'i', 'n', 'i', 't', 'y'], .float (.infinite false)),
      ([CodePoint.scalar '-', 'I', 'n', 'f', 'i', 'n', 'i', 't', 'y'],
        .float (.infinite true))] := by
  simp [words]

/-- A word is the token of its value. -/
theorem lexes_word {word : List CodePoint} {v : Value} (hword : (word, v) ∈ words.tail)
    (rest : List CodePoint) :
    Lexes word rest [.fixed v] := by
  rw [words_eq] at hword
  simp only [List.tail_cons, List.mem_cons, Prod.mk.injEq, List.not_mem_nil, or_false] at hword
  rcases hword with ⟨rfl, rfl⟩ | ⟨rfl, rfl⟩ | ⟨rfl, rfl⟩ | ⟨rfl, rfl⟩ | ⟨rfl, rfl⟩ <;>
    exact lexes_of_readToken (by decide) fun p => by rw [readToken, words_eq]; rfl

def numberToken (x : Binary64) : Token :=
  match Tree.numberValue true x with
  | .int n => .whole (n < 0) (Text.decimal n.natAbs)
  | v => .fixed v

theorem leading_decimal (n : Nat) : Leading (Text.decimal n) where
  ne_nil := Text.decimal_ne_nil n
  digits := fun _ hc => Text.isDigit_of_mem_decimal hc
  leading := by
    by_cases hn : n = 0
    · subst hn
      exact Or.inl rfl
    · exact Or.inr (Text.head?_decimal hn)

theorem numberChars_finite (s : Bool) (m : Nat) (e : Int) (canon : Canonical m e) :
    numberChars (.finite s m e canon) =
      match Binary64.toInt? (.finite s m e canon) with
      | some n => Text.signedDecimal n
      | none => Binary64.chars (.finite s m e canon) :=
  rfl

/-- A number is written as one token. -/
theorem lexes_numberChars (x : Binary64) {rest : List CodePoint} (h : Stops rest) :
    Lexes (numberChars x) rest [numberToken x] := by
  cases x with
  | nan =>
    show Lexes (Text.toList "NaN") rest [.fixed (.float .nan)]
    exact lexes_word (by simp [words]) rest
  | infinite s =>
    cases s
    · show Lexes (Text.toList "Infinity") rest [.fixed (.float (.infinite false))]
      exact lexes_word (by simp [words]) rest
    · show Lexes (Text.toList "-Infinity") rest [.fixed (.float (.infinite true))]
      exact lexes_word (by simp [words]) rest
  | finite s m e canon =>
    cases hint : Binary64.toInt? (.finite s m e canon) with
    | some n =>
      have htext : numberChars (.finite s m e canon) =
          signText (n < 0) ++ (Text.decimal n.natAbs ++ []) := by
        rw [numberChars_finite, hint, List.append_nil]
        by_cases hn : n < 0 <;> simp [Text.signedDecimal, signText, hn]
      have htoken : numberToken (.finite s m e canon) = .whole (n < 0) (Text.decimal n.natAbs) := by
        simp only [numberToken, Tree.numberValue, if_true, hint]
      rw [htext, htoken]
      refine lexes_of_readNumber (leading_decimal _) ?_
      rw [List.append_nil]
      exact readNumber_whole _ (leading_decimal _) h
    | none =>
      have hm := Binary64.ne_zero_of_toInt?_eq_none hint
      obtain ⟨n, hn, htext, hvalue⟩ := Binary64.exists_numeral (s := s) hm canon
      have htext : numberChars (.finite s m e canon) =
          signText s ++ (n.whole ++ (n.fractionChars ++ n.exponentChars)) := by
        rw [numberChars_finite, hint]
        simp only [htext, Numeral.chars, List.append_assoc]
      have htoken : numberToken (.finite s m e canon) = .fixed (.float (.finite s m e canon)) := by
        simp only [numberToken, Tree.numberValue, if_true, hint]
      rw [htext, htoken]
      refine lexes_of_readNumber (leading_of_wellFormed hn) ?_
      have hread := readNumber_numeral s hn h
      rw [hvalue] at hread
      simpa only [Numeral.chars, List.append_assoc] using hread

end Grove.Json
