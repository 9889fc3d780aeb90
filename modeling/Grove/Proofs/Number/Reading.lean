import Grove.Number.Reading
import Grove.Proofs.Number.Numeral

/-!
# Numbers read from their digits

The characters of numerals are no blanks and stand for themselves in every script and case, so that
decimal digits are read as the whole number that they were written from, and a numeral as the number
that it is worth.
-/
namespace Grove

def numeralMarks : List CodePoint :=
  [CodePoint.scalar '.', 'e', '+', '-', '0', '1', '2', '3', '4', '5', '6', '7', '8', '9']

def IsNumeral (cs : List CodePoint) : Prop :=
  ∀ c ∈ cs, c ∈ numeralMarks

theorem mem_numeralMarks_of_isDigit {c : CodePoint} (h : Text.isDigit c = true) :
    c ∈ numeralMarks := by
  obtain ⟨k, hk, hc⟩ : ∃ k < 10, c.toNat = 48 + k := by
    simp only [Text.isDigit, Bool.and_eq_true, decide_eq_true_eq] at h
    have hzero : '0'.toNat = 48 := rfl
    have hnine : '9'.toNat = 57 := rfl
    exact ⟨c.toNat - 48, by omega⟩
  have hdigit : ∀ k < 10, numeralMarks.contains (CodePoint.ofNat (48 + k)) = true := by decide
  rw [← CodePoint.ofNat_toNat c, hc]
  exact List.contains_iff_mem.mp (hdigit k hk)

theorem isNumeral_of_digits {ds : List CodePoint}
    (h : ∀ c ∈ ds, Text.isDigit c = true) : IsNumeral ds :=
  fun c hc => mem_numeralMarks_of_isDigit (h c hc)

theorem IsNumeral.append {cs ds : List CodePoint} (h : IsNumeral cs) (h' : IsNumeral ds) :
    IsNumeral (cs ++ ds) :=
  List.forall_mem_append.mpr ⟨h, h'⟩

theorem IsNumeral.cons {c : CodePoint} {cs : List CodePoint} (hc : c ∈ numeralMarks)
    (h : IsNumeral cs) : IsNumeral (c :: cs) :=
  List.forall_mem_cons.mpr ⟨hc, h⟩

/-- What every character of a numeral has can be read off the list of them. -/
theorem IsNumeral.forall_of_all {p : CodePoint → Bool} (hp : numeralMarks.all p = true)
    {cs : List CodePoint} (h : IsNumeral cs) : ∀ c ∈ cs, p c = true :=
  fun c hc => List.all_eq_true.mp hp c (h c hc)

theorem IsNumeral.trim_eq {cs : List CodePoint} (h : IsNumeral cs) : Text.trim cs = cs := by
  have hstart {ds : List CodePoint} (hds : ∀ c ∈ ds, (!Text.isBlank c) = true) :
      Text.trimStart ds = ds := by
    cases ds with
    | nil => rfl
    | cons d ds =>
      have hd := hds d List.mem_cons_self
      rw [Text.trimStart, List.dropWhile_cons, if_neg (by simpa using hd)]
  have hblank := h.forall_of_all (p := fun c => !Text.isBlank c) (by decide)
  rw [Text.trim, hstart hblank, hstart (by simpa using hblank), List.reverse_reverse]

theorem IsNumeral.map_eq {f : CodePoint → CodePoint}
    (hf : (numeralMarks.all fun c => f c == c) = true) {cs : List CodePoint} (h : IsNumeral cs) :
    cs.map f = cs := by
  have hsame := h.forall_of_all hf
  conv => rhs; rw [← List.map_id cs]
  exact List.map_congr_left fun c hc => by simpa using hsame c hc

theorem IsNumeral.map_plainDigit {cs : List CodePoint} (h : IsNumeral cs) :
    cs.map plainDigit = cs :=
  h.map_eq (by decide)

theorem IsNumeral.lowerAscii_eq {cs : List CodePoint} (h : IsNumeral cs) : lowerAscii cs = cs :=
  h.map_eq (by decide)

/-! ## Whole numbers -/

theorem digitIn?_digitChar {d : Nat} (h : d < 10) : digitIn? 10 d.digitChar = some d := by
  revert d
  decide

theorem foldlM_decimal (n : Nat) :
    ((Text.decimal n).foldlM (fun acc c => (digitIn? 10 c).map (acc * 10 + ·)) 0) = some n := by
  induction n using Nat.strongRecOn with
  | ind n ih =>
    by_cases hlt : n < 10
    · rw [Text.decimal_of_lt hlt]
      simp [digitIn?_digitChar hlt]
    · have hsplit : Text.decimal n =
          Text.decimal (n / 10) ++ [CodePoint.scalar (n % 10).digitChar] :=
        Text.digits_of_le (by decide) (by omega)
      rw [hsplit, List.foldlM_append, ih (n / 10) (by omega)]
      simp [digitIn?_digitChar (Nat.mod_lt n (by decide : 0 < 10))]
      omega

theorem takeSign_digit {d : CodePoint} (h : Text.isDigit d = true) (cs : List CodePoint) :
    takeSign (d :: cs) = (false, d :: cs) := by
  unfold takeSign
  split
  · next heq =>
    cases heq
    exact absurd h (by decide)
  · next heq =>
    cases heq
    exact absurd h (by decide)
  · rfl

/-- The decimal digits of a number are read as the number. -/
theorem readInt?_decimal {n : Nat} (h : (Text.decimal n).length ≤ maxDigits) :
    readInt? 10 (Text.decimal n) = some (n : Int) := by
  have hdigits : ∀ c ∈ Text.decimal n, Text.isDigit c = true := fun _ hc =>
    Text.isDigit_of_mem_decimal hc
  have hnumeral := isNumeral_of_digits hdigits
  obtain ⟨d, ds, hds⟩ := List.exists_cons_of_ne_nil (Text.decimal_ne_nil n)
  have hsign : takeSign (Text.decimal n) = (false, Text.decimal n) := by
    rw [hds]
    exact takeSign_digit (hdigits d (by rw [hds]; exact List.mem_cons_self)) ds
  have hmark (cs : List CodePoint) : dropBaseMark 10 cs = cs := by
    unfold dropBaseMark
    split <;> simp
  have hvalue : natInBase? 10 (Text.decimal n) = some n := by
    rw [natInBase?, List.isEmpty_eq_false_iff.mpr (Text.decimal_ne_nil n),
      if_neg Bool.false_ne_true]
    exact foldlM_decimal n
  rw [readInt?, hnumeral.trim_eq, hnumeral.map_plainDigit, hsign]
  simp only [hmark, hvalue]
  rw [if_neg (by omega)]
  rfl

/-! ## Numerals -/

namespace Numeral

variable {n : Numeral}

theorem isNumeral_exponentText (k : Int) : IsNumeral (Binary64.exponentText k) := by
  have hdigits : IsNumeral (Text.paddedDigits 10 2 k.natAbs) :=
    isNumeral_of_digits fun _ hc => Text.isDigit_of_mem_paddedDigits hc
  unfold Binary64.exponentText
  split <;> exact hdigits.cons (by decide)

theorem isNumeral_exponentChars (n : Numeral) : IsNumeral n.exponentChars := by
  unfold exponentChars
  split
  · exact nofun
  · exact (isNumeral_exponentText _).cons (by decide)

theorem isNumeral_chars (h : n.WellFormed) : IsNumeral n.chars := by
  refine ((isNumeral_of_digits h.whole_digits).append ?_).append n.isNumeral_exponentChars
  unfold fractionChars
  split
  · exact nofun
  · exact (isNumeral_of_digits h.fraction_digits).cons (by decide)

theorem noDigit_exponentChars (n : Numeral) : Text.NoDigit n.exponentChars := by
  unfold exponentChars
  split
  · exact Text.noDigit_nil
  · exact Text.noDigit_cons (by decide) _

theorem readExponent?_exponentChars (n : Numeral) :
    readExponent? n.exponentChars = some (n.exponent.getD 0) := by
  unfold exponentChars
  split
  · next h => rw [h]; rfl
  · next k h =>
    have hdigits : ∀ c ∈ Text.paddedDigits 10 2 k.natAbs, Text.isDigit c = true :=
      fun _ hc => Text.isDigit_of_mem_paddedDigits hc
    have htake := Text.takeWhile_isDigit hdigits Text.noDigit_nil
    have hdrop := Text.dropWhile_isDigit hdigits Text.noDigit_nil
    rw [List.append_nil] at htake hdrop
    have hspan : spanDigits (Text.paddedDigits 10 2 k.natAbs) =
        (Text.paddedDigits 10 2 k.natAbs, []) := by
      rw [spanDigits, htake, hdrop]
    obtain ⟨d, ds, hds⟩ := List.exists_cons_of_ne_nil (Text.paddedDigits_ne_nil 2 k.natAbs)
    have hvalue := Text.decimalValue_paddedDigits 2 k.natAbs
    rw [hds] at hspan hvalue
    rw [h, Option.getD_some]
    by_cases hk : k < 0
    · rw [Binary64.exponentText, if_pos hk, hds]
      simp only [readExponent?, takeSign, hspan, hvalue]
      simp [abs_of_neg hk]
    · rw [Binary64.exponentText, if_neg hk, hds]
      simp only [readExponent?, takeSign, hspan, hvalue]
      simp [abs_of_nonneg (not_lt.mp hk)]

/-- A numeral is read as the number that it is worth. -/
theorem readMagnitude?_chars (h : n.WellFormed) (negative : Bool) :
    readMagnitude? negative n.chars = some (n.value negative) := by
  have hbehind : Text.NoDigit (n.fractionChars ++ n.exponentChars) := by
    unfold fractionChars
    split
    · exact n.noDigit_exponentChars
    · exact Text.noDigit_cons (by decide) _
  have hwhole : spanDigits n.chars = (n.whole, n.fractionChars ++ n.exponentChars) := by
    rw [spanDigits, chars, List.append_assoc, Text.takeWhile_isDigit h.whole_digits hbehind,
      Text.dropWhile_isDigit h.whole_digits hbehind]
  have hempty : n.whole.isEmpty = false := List.isEmpty_eq_false_iff.mpr h.whole_ne_nil
  have hexponent := n.readExponent?_exponentChars
  rw [readMagnitude?, hwhole]
  by_cases hnil : n.fraction = []
  · have hnone : n.fractionChars = [] := if_pos hnil
    rw [hnone, List.nil_append]
    have hpoint : ∀ more, n.exponentChars ≠ ↑ '.' :: more := by
      intro more hc
      unfold exponentChars at hc
      split at hc <;> cases hc
    simp only [hempty, Bool.false_and, Bool.false_eq_true, if_false]
    rw [hexponent, value, hnil]
    rfl
  · have hsome : n.fractionChars = ↑ '.' :: n.fraction := if_neg hnil
    have hfraction : spanDigits (n.fraction ++ n.exponentChars) =
        (n.fraction, n.exponentChars) := by
      rw [spanDigits, Text.takeWhile_isDigit h.fraction_digits n.noDigit_exponentChars,
        Text.dropWhile_isDigit h.fraction_digits n.noDigit_exponentChars]
    rw [hsome, List.cons_append]
    simp only [hfraction, hempty, hexponent, Bool.false_and, Bool.false_eq_true, if_false]
    rfl

/-- A numeral is read as a floating-point number. -/
theorem readFloat?_chars (h : n.WellFormed) : readFloat? n.chars = some (n.value false) := by
  have hnumeral := isNumeral_chars h
  obtain ⟨d, ds, hds⟩ : ∃ d ds, n.chars = d :: ds ∧ Text.isDigit d = true := by
    obtain ⟨d, ds, hwhole⟩ := List.exists_cons_of_ne_nil h.whole_ne_nil
    refine ⟨d, ds ++ n.fractionChars ++ n.exponentChars, ?_,
      h.whole_digits d (by rw [hwhole]; exact List.mem_cons_self)⟩
    rw [chars, hwhole]
    rfl
  have hsign : takeSign n.chars = (false, n.chars) := by
    rw [hds.1]
    exact takeSign_digit hds.2 ds
  have hword (w : List CodePoint) (c : CodePoint) (hw : w.head? = some c)
      (hc : Text.isDigit c = false) : n.chars ≠ w := by
    rintro rfl
    rw [hds.1] at hw
    cases hw
    rw [hds.2] at hc
    cases hc
  rw [readFloat?, hnumeral.trim_eq, hnumeral.map_plainDigit, hsign]
  simp only [hnumeral.lowerAscii_eq, readMagnitude?_chars h]
  have hinf := hword [CodePoint.scalar 'i', 'n', 'f'] 'i' rfl (by decide)
  have hinfinity := hword [CodePoint.scalar 'i', 'n', 'f', 'i', 'n', 'i', 't', 'y']
    'i' rfl (by decide)
  have hnan := hword [CodePoint.scalar 'n', 'a', 'n'] 'n' rfl (by decide)
  simp only [hinf, hinfinity, hnan, decide_false, Bool.or_self, Bool.false_eq_true, if_false]

end Numeral

end Grove
