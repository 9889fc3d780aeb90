import Grove.Number.Shortest
import Grove.Proofs.Number.Rounding
import Grove.Proofs.Text.Digit

/-!
# Reading shortest decimal text back

A decimal number is read the same with zeros moved from its digits to its exponent. The digits that
are chosen for a finite number read back as that number, whichever way they were found: the search
keeps only digits that do, and when it finds none the number is written in full.
-/
namespace Grove

theorem ofDecimal_value (c : Nat) (s : Int) :
    ((scaleRatio 10 c 1 s).1 : ℚ) / (scaleRatio 10 c 1 s).2 = c * 10 ^ s := by
  rw [scaleRatio_value (by decide), Nat.cast_one, div_one, Nat.cast_ofNat]

namespace Binary64

theorem ofDecimal_mul_ten (negative : Bool) {c : Nat} (hc : c ≠ 0) (s : Int) :
    ofDecimal negative (c * 10) s = ofDecimal negative c (s + 1) := by
  have htop : (Text.decimalLength (c * 10) : Int) + s = Text.decimalLength c + (s + 1) := by
    rw [Text.decimalLength_mul_ten hc]
    omega
  have hvalue : ofRatio negative (scaleRatio 10 (c * 10) 1 s).1 (scaleRatio 10 (c * 10) 1 s).2 =
      ofRatio negative (scaleRatio 10 c 1 (s + 1)).1 (scaleRatio 10 c 1 (s + 1)).2 := by
    refine ofRatio_congr negative (scaleRatio_denominator_pos (by decide) Nat.one_pos s)
      (scaleRatio_denominator_pos (by decide) Nat.one_pos _) ?_
    rw [ofDecimal_value, ofDecimal_value, zpow_add₀ (by norm_num)]
    push_cast
    ring
  have hne : c * 10 ≠ 0 := by omega
  simp only [ofDecimal, if_neg hc, if_neg hne, htop, hvalue]

theorem ofDecimal_mul_pow (negative : Bool) {c : Nat} (hc : c ≠ 0) (k : Nat) (s : Int) :
    ofDecimal negative (c * 10 ^ k) s = ofDecimal negative c (s + k) := by
  induction k generalizing s with
  | zero => simp
  | succ k ih =>
    have hne : c * 10 ^ k ≠ 0 := Nat.mul_ne_zero hc (Nat.ne_of_gt (Nat.pow_pos (by decide)))
    rw [Nat.pow_succ, ← Nat.mul_assoc, ofDecimal_mul_ten negative hne, ih]
    congr 1
    omega

theorem finite_lt {m : Nat} {e : Int} (canon : Canonical m e) :
    (m : ℚ) * 2 ^ e < 10 ^ (309 : Int) := by
  calc (m : ℚ) * 2 ^ e ≤ 2 ^ (53 : Int) * 2 ^ (971 : Int) := by
        refine mul_le_mul ?_ (zpow_le_zpow_right₀ one_le_two canon.2.2.1)
          (by positivity) (by positivity)
        exact_mod_cast le_of_lt canon.1
    _ < _ := by
        rw [← zpow_add₀ two_ne_zero]
        exact_mod_cast (by decide +kernel : 2 ^ 1024 < 10 ^ 309)

/-- A whole number that is a finite one has few digits. -/
theorem decimalLength_of_toInt? {x : Binary64} {n : Int} (h : x.toInt? = some n) :
    Text.decimalLength n.natAbs ≤ 309 := by
  cases x with
  | nan | infinite => cases h
  | finite s m e canon =>
    refine (Text.decimalLength_le_iff (by decide)).mpr ?_
    have hlt := finite_lt canon
    rw [← (value_of_toInt? h).1] at hlt
    exact_mod_cast hlt

/-- Decimal digits that are a finite number read as that number. -/
theorem ofDecimal_exact (negative : Bool) {c m : Nat} {s e : Int} (hm : m ≠ 0)
    (canon : Canonical m e) (h : (c : ℚ) * 10 ^ s = m * 2 ^ e) :
    ofDecimal negative c s = .finite negative m e canon := by
  have ten : (10 : ℚ) ≠ 0 := by norm_num
  have hmpos : (1 : ℚ) ≤ m := by exact_mod_cast Nat.one_le_iff_ne_zero.mpr hm
  have hc : c ≠ 0 := by
    rintro rfl
    rw [Nat.cast_zero, zero_mul] at h
    have : (0 : ℚ) < m * 2 ^ e := by positivity
    exact absurd h (ne_of_lt this)
  have below : (c : ℚ) * 10 ^ s < 10 ^ (309 : Int) := by
    rw [h]
    exact finite_lt canon
  have above : (10 : ℚ) ^ (-324 : Int) < c * 10 ^ s := by
    rw [h]
    calc (10 : ℚ) ^ (-324 : Int) < 1 * 2 ^ (-1074 : Int) := by
          rw [one_mul, zpow_neg, zpow_neg]
          refine inv_strictAnti₀ (by positivity) ?_
          exact_mod_cast (by decide +kernel : 2 ^ 1074 < 10 ^ 324)
      _ ≤ _ := mul_le_mul hmpos (zpow_le_zpow_right₀ one_le_two canon.2.1)
        (by positivity) (by positivity)
  have hlen := Text.decimalLength_pos c
  -- The power of ten above the number bounds it from both sides.
  have hhigh : ((Text.decimalLength c : Int) - 1) + s < 309 := by
    refine (zpow_lt_zpow_iff_right₀ (show (1 : ℚ) < 10 by norm_num)).mp (lt_of_le_of_lt ?_ below)
    rw [zpow_add₀ ten]
    refine mul_le_mul_of_nonneg_right ?_ (by positivity)
    rw [← Nat.cast_pred hlen, zpow_natCast]
    exact_mod_cast Text.pow_decimalLength_le hc
  have hlow : -324 < (Text.decimalLength c : Int) + s := by
    refine (zpow_lt_zpow_iff_right₀ (show (1 : ℚ) < 10 by norm_num)).mp (lt_trans above ?_)
    rw [zpow_add₀ ten]
    refine mul_lt_mul_of_pos_right ?_ (by positivity)
    rw [zpow_natCast]
    exact_mod_cast Text.lt_pow_decimalLength c
  have htop : ¬ 400 < (Text.decimalLength c : Int) + s := by omega
  have hbottom : ¬ (Text.decimalLength c : Int) + s < -400 := by omega
  simp only [ofDecimal, if_neg hc, if_neg htop, if_neg hbottom]
  exact ofRatio_exact negative (scaleRatio_denominator_pos (by decide) Nat.one_pos s) hm canon
    ((ofDecimal_value c s).trans h)

theorem ofDecimal_trimZeros (negative : Bool) (fuel : Nat) (d : Decimal) :
    ofDecimal negative (d.trimZeros fuel).digits (d.trimZeros fuel).exponent =
      ofDecimal negative d.digits d.exponent := by
  induction fuel generalizing d with
  | zero => rfl
  | succ fuel ih =>
    rw [Decimal.trimZeros]
    split
    · next h =>
      have hne : d.digits / 10 ≠ 0 := by omega
      have hdigits : d.digits / 10 * 10 = d.digits := by omega
      rw [ih, ← ofDecimal_mul_ten negative hne, hdigits]
    · rfl

theorem ofDecimal_of_onGrid? {x : Binary64} {count : Nat} {d : Decimal}
    (h : x.onGrid? count = some d) :
    ofDecimal x.negative d.digits d.exponent = x := by
  obtain ⟨c, hc, rfl⟩ := Option.map_eq_some_iff.mp h
  simpa using List.find?_some hc

theorem ofDecimal_exactDecimal {s : Bool} {m : Nat} {e : Int} (hm : m ≠ 0) (canon : Canonical m e) :
    ofDecimal s (exactDecimal (.finite s m e canon)).digits
      (exactDecimal (.finite s m e canon)).exponent =
      .finite s m e canon := by
  refine ofDecimal_exact s hm canon ?_
  simp only [exactDecimal]
  split
  · next he =>
    obtain ⟨j, rfl⟩ := Int.eq_ofNat_of_zero_le he
    simp
  · next he =>
    obtain ⟨j, rfl⟩ : ∃ j : Nat, e = -(j : Int) := ⟨e.natAbs, by omega⟩
    have hten : (10 : ℚ) ^ j = 5 ^ j * 2 ^ j := by
      rw [← mul_pow]
      norm_num
    simp only [neg_neg, Int.toNat_natCast, Nat.pow_eq, Nat.cast_mul, Nat.cast_pow,
      Nat.cast_ofNat, zpow_neg, zpow_natCast, hten]
    field_simp

/-- The digits that stand for a finite number read back as that number. -/
theorem ofDecimal_shortest (s : Bool) (m : Nat) (e : Int) (canon : Canonical m e) :
    ofDecimal s (shortest (.finite s m e canon)).digits (shortest (.finite s m e canon)).exponent =
      .finite s m e canon := by
  unfold shortest
  split
  · next hzero =>
    have hm : m = 0 := magnitude_eq_zero_iff.mp hzero
    subst hm
    have he : e = -1074 := canon.2.2.2.resolve_left (by decide)
    subst he
    rfl
  · next hne =>
    have hm : m ≠ 0 := mt magnitude_eq_zero_iff.mpr hne
    split
    · next found hfound =>
      obtain ⟨k, -, hk⟩ := List.exists_of_findSome?_eq_some hfound
      rw [ofDecimal_trimZeros]
      exact ofDecimal_of_onGrid? hk
    · exact ofDecimal_exactDecimal hm canon

theorem shortest_digits_ne_zero {s : Bool} {m : Nat} {e : Int} (hm : m ≠ 0)
    (canon : Canonical m e) :
    (shortest (.finite s m e canon)).digits ≠ 0 := by
  intro hzero
  have h := ofDecimal_shortest s m e canon
  rw [hzero, ofDecimal, if_pos rfl, zero] at h
  cases h
  exact hm rfl

end Binary64

end Grove
