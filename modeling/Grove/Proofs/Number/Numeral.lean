import Grove.Proofs.Number.ReadBack

/-!
# Numerals

The text of a finite number is a sign and a numeral: digits before the point, digits behind it if
there is a point, and an exponent if one is written. What the numeral is worth, read digit by digit,
is the number.
-/
namespace Grove

/-- A number in decimal digits, cut at the point and at the exponent. -/
structure Numeral where
  whole : List CodePoint
  fraction : List CodePoint
  exponent : Option Int

namespace Numeral

def fractionChars (n : Numeral) : List CodePoint :=
  if n.fraction = [] then [] else ↑ '.' :: n.fraction

def exponentChars (n : Numeral) : List CodePoint :=
  match n.exponent with
  | none => []
  | some k => ↑ 'e' :: Binary64.exponentText k

def chars (n : Numeral) : List CodePoint :=
  n.whole ++ n.fractionChars ++ n.exponentChars

def value (n : Numeral) (negative : Bool) : Binary64 :=
  .ofDecimal negative (Text.decimalValue (n.whole ++ n.fraction))
    (n.exponent.getD 0 - n.fraction.length)

/-- There are digits in front, without needless zeros, and a fraction or an exponent. -/
structure WellFormed (n : Numeral) : Prop where
  whole_ne_nil : n.whole ≠ []
  whole_digits : ∀ c ∈ n.whole, Text.isDigit c = true
  fraction_digits : ∀ c ∈ n.fraction, Text.isDigit c = true
  leading : n.whole = [CodePoint.scalar '0'] ∨ n.whole.head? ≠ some (CodePoint.scalar '0')
  broken : n.fraction ≠ [] ∨ n.exponent ≠ none

end Numeral

namespace Binary64

/-- A whole number in place is a numeral with one zero behind the point. -/
theorem exists_numeral_whole {d : Decimal} (hd : d.digits ≠ 0) (hexp : 0 ≤ d.exponent) :
    ∃ n : Numeral, n.WellFormed ∧ positional d = n.chars ∧
      n.exponent = none ∧ n.fraction ≠ [] ∧ ∀ negative, n.value negative =
        ofDecimal negative d.digits d.exponent := by
  obtain ⟨k, hk⟩ := Int.eq_ofNat_of_zero_le hexp
  have hne := Text.decimal_ne_nil d.digits
  refine ⟨⟨Text.decimal d.digits ++ List.replicate d.exponent.toNat (CodePoint.scalar '0'),
    [CodePoint.scalar '0'], none⟩, ⟨?_, ?_, ?_, .inr ?_, .inl (List.cons_ne_nil _ _)⟩, ?_, rfl,
    List.cons_ne_nil _ _, ?_⟩
  · simp [hne]
  · intro c hc
    rcases List.mem_append.mp hc with hc | hc
    · exact Text.isDigit_of_mem_decimal hc
    · exact Text.isDigit_of_mem_zeros hc
  · intro c hc
    rw [List.mem_singleton.mp hc]
    decide
  · have hhead := Text.head?_decimal hd
    obtain ⟨c, cs, hcs⟩ := List.exists_cons_of_ne_nil hne
    rw [hcs] at hhead ⊢
    exact hhead
  · rw [positional, if_pos hexp]
    simp [Numeral.chars, Numeral.fractionChars, Numeral.exponentChars]
  · intro negative
    -- The zeros in place and the one behind the point move to the exponent.
    have hzeros : List.replicate k (CodePoint.scalar '0') ++ [CodePoint.scalar '0'] =
        List.replicate (k + 1) (CodePoint.scalar '0') :=
      List.replicate_succ'.symm
    have hdigits : Text.decimalValue (Text.decimal d.digits ++
        List.replicate k (CodePoint.scalar '0') ++ [CodePoint.scalar '0']) =
        d.digits * 10 ^ (k + 1) := by
      rw [List.append_assoc, hzeros, Text.decimalValue_append, Text.decimalValue_decimal,
        Text.decimalValue_zeros, List.length_replicate, Nat.add_zero]
    rw [hk] at *
    simp only [Numeral.value, Int.toNat_natCast, hdigits, ofDecimal_mul_pow negative hd]
    congr 1
    simp

section

variable {k m : Nat} {ds : List CodePoint}

theorem isDigit_padded (hds : List.replicate k (CodePoint.scalar '0') ++ Text.decimal m = ds) :
    ∀ c ∈ ds, Text.isDigit c = true := by
  intro c hc
  rw [← hds] at hc
  rcases List.mem_append.mp hc with hc | hc
  · exact Text.isDigit_of_mem_zeros hc
  · exact Text.isDigit_of_mem_decimal hc

/-- Zeros in front that only make up for a digit before the point leave exactly one of them
there. -/
theorem leading_padded (hm : m ≠ 0)
    (hds : List.replicate (k + 1 + 1 - (Text.decimal m).length) (CodePoint.scalar '0') ++
      Text.decimal m = ds) :
    ds.take (ds.length - (k + 1)) = [CodePoint.scalar '0'] ∨
      (ds.take (ds.length - (k + 1))).head? ≠ some (CodePoint.scalar '0') := by
  have hlength : ds.length = k + 1 + 1 - (Text.decimal m).length + (Text.decimal m).length := by
    rw [← hds, List.length_append, List.length_replicate]
  by_cases hshort : (Text.decimal m).length ≤ k + 1
  · left
    have hexact : ds.length = k + 2 := by omega
    rw [hexact, show k + 2 - (k + 1) = 1 by omega, ← hds,
      show k + 1 + 1 - (Text.decimal m).length = (k + 1 - (Text.decimal m).length) + 1 by omega,
      List.replicate_succ]
    rfl
  · right
    have hnone : k + 1 + 1 - (Text.decimal m).length = 0 := by omega
    have hhead := Text.head?_decimal hm
    rw [hnone] at hds
    have hsame : Text.decimal m = ds := hds
    rw [hsame] at hhead hshort
    obtain ⟨c, cs, rfl⟩ :=
      List.exists_cons_of_ne_nil (List.ne_nil_of_length_pos (by omega : 0 < ds.length))
    obtain ⟨j, hj⟩ : ∃ j, (c :: cs).length - (k + 1) = j + 1 :=
      ⟨(c :: cs).length - (k + 1) - 1, by omega⟩
    rw [hj]
    exact hhead

end

/-- Digits with a point among them, or zeros in front, are a numeral. -/
theorem exists_numeral_broken {d : Decimal} (hd : d.digits ≠ 0) (hexp : ¬ 0 ≤ d.exponent) :
    ∃ n : Numeral, n.WellFormed ∧ positional d = n.chars ∧
      n.exponent = none ∧ n.fraction ≠ [] ∧ ∀ negative, n.value negative =
        ofDecimal negative d.digits d.exponent := by
  rw [positional, if_neg hexp]
  obtain ⟨k, hk⟩ : ∃ k : Nat, d.exponent = -((k : Int) + 1) := ⟨(-d.exponent - 1).toNat, by omega⟩
  have hplaces : (-d.exponent).toNat = k + 1 := by omega
  simp only [hplaces]
  generalize hds : List.replicate (k + 1 + 1 - (Text.decimal d.digits).length)
    (CodePoint.scalar '0') ++ Text.decimal d.digits = ds
  have hlen : k + 2 ≤ ds.length := by
    rw [← hds, List.length_append, List.length_replicate]
    omega
  have hdigit := isDigit_padded hds
  have hfraction : (ds.drop (ds.length - (k + 1))).length = k + 1 := by
    rw [List.length_drop]
    omega
  have hne : ds.drop (ds.length - (k + 1)) ≠ [] := List.ne_nil_of_length_pos (by omega)
  refine ⟨⟨ds.take (ds.length - (k + 1)), ds.drop (ds.length - (k + 1)), none⟩,
    ⟨?_, ?_, ?_, leading_padded hd hds, .inl hne⟩, ?_, rfl, hne, ?_⟩
  · intro hnil
    have hnone := congrArg List.length hnil
    rw [List.length_take, List.length_nil] at hnone
    omega
  · intro c hc
    exact hdigit c (List.mem_of_mem_take hc)
  · intro c hc
    exact hdigit c (List.mem_of_mem_drop hc)
  · simp [Numeral.chars, Numeral.fractionChars, Numeral.exponentChars, hne]
  · intro negative
    simp only [Numeral.value, List.take_append_drop, hfraction]
    rw [← hds, Text.decimalValue_zeros_append, Text.decimalValue_decimal]
    congr 1
    simp
    omega

/-- Digits in place make a numeral without an exponent. -/
theorem exists_numeral_positional {d : Decimal} (hd : d.digits ≠ 0) :
    ∃ n : Numeral, n.WellFormed ∧ positional d = n.chars ∧
      n.exponent = none ∧ n.fraction ≠ [] ∧ ∀ negative, n.value negative =
        ofDecimal negative d.digits d.exponent := by
  by_cases hexp : 0 ≤ d.exponent
  · exact exists_numeral_whole hd hexp
  · exact exists_numeral_broken hd hexp

/-- One digit, the others behind the point, and an exponent make a numeral. -/
theorem exists_numeral_scientific {d : Decimal} (hd : d.digits ≠ 0) :
    ∃ n : Numeral, n.WellFormed ∧ scientific d = n.chars ∧
      n.exponent = some d.leading ∧ ∀ negative, n.value negative =
        ofDecimal negative d.digits d.exponent := by
  obtain ⟨c, cs, hcs⟩ := List.exists_cons_of_ne_nil (Text.decimal_ne_nil d.digits)
  have hdigit : ∀ b ∈ c :: cs, Text.isDigit b = true := by
    intro b hb
    rw [← hcs] at hb
    exact Text.isDigit_of_mem_decimal hb
  have hhead := Text.head?_decimal hd
  rw [hcs] at hhead
  refine ⟨⟨[c], cs, some d.leading⟩,
    ⟨List.cons_ne_nil _ _, ?_, ?_, .inr hhead, .inr (Option.some_ne_none _)⟩, ?_, rfl, ?_⟩
  · intro b hb
    exact hdigit b (List.mem_cons.mpr (.inl (List.mem_singleton.mp hb)))
  · intro b hb
    exact hdigit b (List.mem_cons_of_mem _ hb)
  · unfold scientific
    rw [hcs]
    cases cs with
    | nil => rfl
    | cons b bs => simp [Numeral.chars, Numeral.fractionChars, Numeral.exponentChars]
  · intro negative
    have hlength : Text.decimalLength d.digits = cs.length + 1 := by
      rw [Text.decimalLength, hcs, List.length_cons]
    have hvalue : Text.decimalValue ([c] ++ cs) = d.digits := by
      rw [List.singleton_append, ← hcs, Text.decimalValue_decimal]
    simp only [Numeral.value, hvalue, Option.getD_some, Decimal.leading, hlength]
    congr 1
    push_cast
    ring

/-- The text of a finite number other than zero is its sign and a numeral that is worth the
number. -/
theorem exists_numeral {s : Bool} {m : Nat} {e : Int} (hm : m ≠ 0) (canon : Canonical m e) :
    ∃ n : Numeral, n.WellFormed ∧ chars (.finite s m e canon) = signText s ++ n.chars ∧
      n.value s = .finite s m e canon := by
  have hd := shortest_digits_ne_zero (s := s) hm canon
  have hvalue := ofDecimal_shortest s m e canon
  simp only [chars]
  split
  · obtain ⟨n, hwf, htext, -, -, hn⟩ := exists_numeral_positional hd
    exact ⟨n, hwf, by rw [htext], (hn s).trans hvalue⟩
  · obtain ⟨n, hwf, htext, -, hn⟩ := exists_numeral_scientific hd
    exact ⟨n, hwf, by rw [htext], (hn s).trans hvalue⟩

end Binary64

end Grove
