import Mathlib.Algebra.Order.Field.Power
import Mathlib.Data.Rat.Cast.Order
import Mathlib.Tactic.FieldSimp
import Mathlib.Tactic.Positivity
import Mathlib.Tactic.Ring
import Grove.Number.Binary64

/-!
# Rounding

The number nearest to a quotient depends on the value of the quotient alone, not on its terms, and a
quotient that is a finite number rounds to that number. Quotients are compared as rationals, with
integer powers.
-/
namespace Grove

theorem scaleRatio_denominator_pos {base n d : Nat} (hb : 0 < base) (hd : 0 < d) (k : Int) :
    0 < (scaleRatio base n d k).2 := by
  unfold scaleRatio
  split
  · exact hd
  · exact Nat.mul_pos hd (Nat.pow_pos hb)

theorem scaleRatio_value {base n d : Nat} (hb : 0 < base) (k : Int) :
    ((scaleRatio base n d k).1 : ℚ) / (scaleRatio base n d k).2 = n / d * (base : ℚ) ^ k := by
  have hb' : (base : ℚ) ≠ 0 := by positivity
  unfold scaleRatio
  split
  · next hk =>
    obtain ⟨j, rfl⟩ := Int.eq_ofNat_of_zero_le hk
    simp only [Int.toNat_natCast, Nat.pow_eq, Nat.cast_mul, Nat.cast_pow, zpow_natCast]
    ring
  · next hk =>
    obtain ⟨j, rfl⟩ : ∃ j : Nat, k = -(j : Int) := ⟨k.natAbs, by omega⟩
    simp only [neg_neg, Int.toNat_natCast, Nat.pow_eq, Nat.cast_mul, Nat.cast_pow,
      zpow_neg, zpow_natCast]
    field_simp

theorem divHalfEven_mul {k : Nat} (hk : 0 < k) (n d : Nat) :
    divHalfEven (k * n) (k * d) = divHalfEven n d := by
  have hlt : k * d < 2 * (k * (n % d)) ↔ d < 2 * (n % d) := by
    rw [show 2 * (k * (n % d)) = k * (2 * (n % d)) by ring]
    exact Nat.mul_lt_mul_left hk
  have heq : k * d = 2 * (k * (n % d)) ↔ d = 2 * (n % d) := by
    rw [show 2 * (k * (n % d)) = k * (2 * (n % d)) by ring]
    exact Nat.mul_right_inj (Nat.ne_of_gt hk)
  simp only [divHalfEven, Nat.mul_div_mul_left _ _ hk, Nat.mul_mod_mul_left, hlt, heq]

theorem divHalfEven_congr {n d n' d' : Nat} (hd : 0 < d) (hd' : 0 < d')
    (h : (n : ℚ) / d = n' / d') : divHalfEven n d = divHalfEven n' d' := by
  have hcross : n * d' = n' * d := by
    rw [div_eq_div_iff (by positivity) (by positivity)] at h
    exact_mod_cast h
  calc divHalfEven n d = divHalfEven (d' * n) (d' * d) := (divHalfEven_mul hd' n d).symm
    _ = divHalfEven (d * n') (d * d') := by
      rw [Nat.mul_comm d' n, hcross, Nat.mul_comm n' d, Nat.mul_comm d' d]
    _ = divHalfEven n' d' := divHalfEven_mul hd n' d'

theorem divHalfEven_exact {n d m : Nat} (hd : 0 < d) (h : (n : ℚ) / d = m) :
    divHalfEven n d = m := by
  rw [divHalfEven_congr hd Nat.one_pos (show (n : ℚ) / d = (m : Nat) / (1 : Nat) by simp [h])]
  simp [divHalfEven, Nat.mod_one]

theorem floorLog2_bounds {n d : Nat} (hn : 0 < n) (hd : 0 < d) :
    (2 : ℚ) ^ floorLog2 n d ≤ n / d ∧ (n : ℚ) / d < 2 ^ (floorLog2 n d + 1) := by
  have hd' : (0 : ℚ) < d := by positivity
  have two : (2 : ℚ) ≠ 0 := two_ne_zero
  have nlow : (2 : ℚ) ^ (Nat.log2 n : Int) ≤ n := by
    rw [zpow_natCast]
    exact_mod_cast Nat.log2_self_le (Nat.ne_of_gt hn)
  have nhigh : (n : ℚ) < 2 ^ ((Nat.log2 n : Int) + 1) := by
    rw [← Nat.cast_succ, zpow_natCast]
    exact_mod_cast Nat.lt_log2_self
  have dlow : (2 : ℚ) ^ (Nat.log2 d : Int) ≤ d := by
    rw [zpow_natCast]
    exact_mod_cast Nat.log2_self_le (Nat.ne_of_gt hd)
  have dhigh : (d : ℚ) < 2 ^ ((Nat.log2 d : Int) + 1) := by
    rw [← Nat.cast_succ, zpow_natCast]
    exact_mod_cast Nat.lt_log2_self
  -- The difference of the logarithms is at most one too great.
  have above : (n : ℚ) / d < 2 ^ ((Nat.log2 n : Int) - Nat.log2 d + 1) := by
    rw [div_lt_iff₀ hd']
    calc (n : ℚ) < 2 ^ ((Nat.log2 n : Int) - Nat.log2 d + 1) * 2 ^ (Nat.log2 d : Int) := by
          rw [← zpow_add₀ two, show (Nat.log2 n : Int) - Nat.log2 d + 1 + Nat.log2 d =
            Nat.log2 n + 1 by omega]
          exact nhigh
      _ ≤ _ := mul_le_mul_of_nonneg_left dlow (by positivity)
  have below : (2 : ℚ) ^ ((Nat.log2 n : Int) - Nat.log2 d - 1) ≤ n / d := by
    rw [le_div_iff₀ hd']
    calc (2 : ℚ) ^ ((Nat.log2 n : Int) - Nat.log2 d - 1) * d
        ≤ 2 ^ ((Nat.log2 n : Int) - Nat.log2 d - 1) * 2 ^ ((Nat.log2 d : Int) + 1) :=
          mul_le_mul_of_nonneg_left (le_of_lt dhigh) (by positivity)
      _ = 2 ^ (Nat.log2 n : Int) := by
          rw [← zpow_add₀ two]
          congr 1
          omega
      _ ≤ n := nlow
  have scaled := @scaleRatio_value 2 n d (by decide) (-((Nat.log2 n : Int) - Nat.log2 d))
  have hpos := @scaleRatio_denominator_pos 2 n d (by decide) hd (-((Nat.log2 n : Int) - Nat.log2 d))
  have hless : (scaleRatio 2 n d (-((Nat.log2 n : Int) - Nat.log2 d))).1 <
      (scaleRatio 2 n d (-((Nat.log2 n : Int) - Nat.log2 d))).2 ↔
      (n : ℚ) / d < 2 ^ ((Nat.log2 n : Int) - Nat.log2 d) := by
    rw [← Nat.cast_lt (α := ℚ), ← div_lt_one (by positivity), scaled, zpow_neg, ← div_eq_mul_inv]
    exact div_lt_one (by positivity)
  simp only [floorLog2]
  split
  · next h => exact ⟨below, by simpa using hless.mp h⟩
  · next h => exact ⟨not_lt.mp (mt hless.mpr h), above⟩

theorem zpow_two_unique {q : ℚ} {j k : Int} (hj : (2 : ℚ) ^ j ≤ q ∧ q < 2 ^ (j + 1))
    (hk : (2 : ℚ) ^ k ≤ q ∧ q < 2 ^ (k + 1)) : j = k := by
  have h₁ : j < k + 1 := (zpow_lt_zpow_iff_right₀ one_lt_two).mp (lt_of_le_of_lt hj.1 hk.2)
  have h₂ : k < j + 1 := (zpow_lt_zpow_iff_right₀ one_lt_two).mp (lt_of_le_of_lt hk.1 hj.2)
  omega

theorem floorLog2_eq {n d : Nat} {k : Int} (hn : 0 < n) (hd : 0 < d)
    (h : (2 : ℚ) ^ k ≤ n / d ∧ (n : ℚ) / d < 2 ^ (k + 1)) : floorLog2 n d = k :=
  zpow_two_unique (floorLog2_bounds hn hd) h

namespace Binary64

/-- The nearest number depends on the value of the quotient alone. -/
theorem ofRatio_congr {n d n' d' : Nat} (s : Bool) (hd : 0 < d) (hd' : 0 < d')
    (h : (n : ℚ) / d = n' / d') : ofRatio s n d = ofRatio s n' d' := by
  have hzero : n = 0 ↔ n' = 0 := by
    rw [← Nat.cast_eq_zero (R := ℚ), ← Nat.cast_eq_zero (R := ℚ) (n := n')]
    have hd₀ : (d : ℚ) ≠ 0 := by positivity
    have hd₁ : (d' : ℚ) ≠ 0 := by positivity
    constructor
    · intro hn
      rw [hn, zero_div] at h
      exact (div_eq_zero_iff.mp h.symm).resolve_right hd₁
    · intro hn
      rw [hn, zero_div] at h
      exact (div_eq_zero_iff.mp h).resolve_right hd₀
  by_cases hn : n = 0
  · simp [ofRatio, hn, hzero.mp hn]
  · have hn' : n' ≠ 0 := mt hzero.mpr hn
    have hlog : floorLog2 n d = floorLog2 n' d' :=
      floorLog2_eq (Nat.pos_of_ne_zero hn) hd (h ▸ floorLog2_bounds (Nat.pos_of_ne_zero hn') hd')
    have hround (k : Int) : divHalfEven (scaleRatio 2 n d k).1 (scaleRatio 2 n d k).2 =
        divHalfEven (scaleRatio 2 n' d' k).1 (scaleRatio 2 n' d' k).2 := by
      refine divHalfEven_congr (scaleRatio_denominator_pos (by decide) hd k)
        (scaleRatio_denominator_pos (by decide) hd' k) ?_
      rw [scaleRatio_value (by decide), scaleRatio_value (by decide), h]
    simp only [ofRatio, if_neg hn, if_neg hn', hlog, hround]

/-- A quotient that is a finite number rounds to it. -/
theorem ofRatio_exact {n d m : Nat} {e : Int} (s : Bool) (hd : 0 < d) (hm : m ≠ 0)
    (c : Canonical m e) (h : (n : ℚ) / d = m * 2 ^ e) : ofRatio s n d = .finite s m e c := by
  have two : (2 : ℚ) ≠ 0 := two_ne_zero
  have hpos : (0 : ℚ) < n / d := by
    rw [h]
    have : 0 < m := Nat.pos_of_ne_zero hm
    positivity
  have hn : n ≠ 0 := by
    rintro rfl
    simp at hpos
  have hlog : floorLog2 n d = Nat.log2 m + e := by
    refine floorLog2_eq (Nat.pos_of_ne_zero hn) hd ?_
    rw [h, show (Nat.log2 m : Int) + e + 1 = (Nat.log2 m + 1 : Nat) + e by push_cast; ring,
      zpow_add₀ two, zpow_add₀ two, zpow_natCast, zpow_natCast]
    refine ⟨mul_le_mul_of_nonneg_right ?_ (by positivity),
      mul_lt_mul_of_pos_right ?_ (by positivity)⟩
    · exact_mod_cast Nat.log2_self_le hm
    · exact_mod_cast Nat.lt_log2_self
  obtain ⟨hlt, hlow, hhigh, hnormal⟩ := c
  have hsmall : Nat.log2 m < 53 := (Nat.log2_lt hm).mpr hlt
  -- The exponent is the one that was given: the mantissa has 53 bits or the exponent is the least.
  have hexp : max (floorLog2 n d - 52) (-1074) = e := by
    rcases hnormal with hbig | rfl
    · have hlarge : 52 ≤ Nat.log2 m := (Nat.le_log2 hm).mpr hbig
      omega
    · omega
  have hround : divHalfEven (scaleRatio 2 n d (-e)).1 (scaleRatio 2 n d (-e)).2 = m := by
    refine divHalfEven_exact (scaleRatio_denominator_pos (by decide) hd _) ?_
    rw [scaleRatio_value (by decide), h, mul_assoc, Nat.cast_ofNat, ← zpow_add₀ two,
      add_neg_cancel, zpow_zero, mul_one]
  have hne : m ≠ 9007199254740992 := Nat.ne_of_lt hlt
  simp only [ofRatio, if_neg hn, hexp, hround, if_neg hne]
  exact dif_pos ⟨hlt, hlow, hhigh, hnormal⟩

theorem magnitude_value (s : Bool) (m : Nat) (e : Int) (c : Canonical m e) :
    ((magnitude (.finite s m e c)).1 : ℚ) / (magnitude (.finite s m e c)).2 = m * 2 ^ e := by
  rw [magnitude, scaleRatio_value (by decide), Nat.cast_one, div_one, Nat.cast_ofNat]

theorem magnitude_denominator_pos (x : Binary64) : 0 < x.magnitude.2 := by
  unfold magnitude
  split
  · exact scaleRatio_denominator_pos (by decide) Nat.one_pos _
  · exact Nat.one_pos

theorem magnitude_eq_zero_iff {s : Bool} {m : Nat} {e : Int} {c : Canonical m e} :
    (magnitude (.finite s m e c)).1 = 0 ↔ m = 0 := by
  have hpow : (2 : Nat).pow e.toNat ≠ 0 := Nat.ne_of_gt (Nat.pow_pos (by decide))
  simp only [magnitude, scaleRatio]
  split
  · exact ⟨fun h => (Nat.mul_eq_zero.mp h).resolve_right hpow, fun h => by rw [h, Nat.zero_mul]⟩
  · exact Iff.rfl

/-- The number without the sign of zero. -/
def plain : Binary64 → Binary64
  | .finite s m e c => .finite (s && m ≠ 0) m e c
  | x => x

theorem ratio?_finite (s : Bool) (m : Nat) (e : Int) (c : Canonical m e) :
    ratio? (.finite s m e c) =
      some (if s then -((magnitude (.finite s m e c)).1 : Int) else (magnitude (.finite s m e c)).1,
        (magnitude (.finite s m e c)).2) :=
  rfl

theorem toInt?_zero (s : Bool) (e : Int) (c : Canonical 0 e) :
    toInt? (.finite s 0 e c) = some 0 := by
  rw [toInt?, ratio?_finite, magnitude_eq_zero_iff.mpr rfl]
  cases s <;> simp

theorem ne_zero_of_toInt?_eq_none {s : Bool} {m : Nat} {e : Int} {c : Canonical m e}
    (h : toInt? (.finite s m e c) = none) : m ≠ 0 := by
  rintro rfl
  rw [toInt?_zero] at h
  cases h

/-- A finite number that is whole has the magnitude and the sign of the whole number. -/
theorem value_of_toInt? {s : Bool} {m : Nat} {e : Int} {c : Canonical m e} {n : Int}
    (h : toInt? (.finite s m e c) = some n) :
    (n.natAbs : ℚ) = m * 2 ^ e ∧ (m ≠ 0 → decide (n < 0) = s) := by
  have hd := magnitude_denominator_pos (.finite s m e c)
  have hvalue := magnitude_value s m e c
  have hzero := magnitude_eq_zero_iff (s := s) (c := c)
  rw [toInt?, ratio?_finite] at h
  generalize (magnitude (.finite s m e c)).1 = num at h hvalue hzero
  generalize (magnitude (.finite s m e c)).2 = den at h hvalue hd
  obtain ⟨hmod, hn⟩ := Option.ite_none_right_eq_some.mp h
  obtain ⟨q, rfl⟩ : den ∣ num := by
    have hdvd := Int.dvd_of_emod_eq_zero hmod
    cases s
    · exact Int.natCast_dvd_natCast.mp hdvd
    · exact Int.natCast_dvd_natCast.mp ((Int.dvd_neg).mp hdvd)
  have hn : n = if s then -(q : Int) else q := by
    cases Option.some.inj hn
    have hd' : (den : Int) ≠ 0 := by omega
    cases s
    · exact (congrArg (· / (den : Int)) (Nat.cast_mul den q)).trans (Int.mul_ediv_cancel_left _ hd')
    · rw [if_pos rfl, if_pos rfl, Nat.cast_mul, ← Int.mul_neg, Int.mul_ediv_cancel_left _ hd']
  have habs : n.natAbs = q := by
    subst hn
    cases s <;> simp
  constructor
  · rw [habs, ← hvalue, Nat.cast_mul, mul_div_cancel_left₀ _ (by positivity)]
  · intro hm
    have hq : q ≠ 0 := by
      rintro rfl
      exact hm (hzero.mp (Nat.mul_zero den))
    subst hn
    cases s <;> simp
    omega

/-- A number that is whole is the one nearest to that whole number, but for the sign of zero. -/
theorem ofInt_of_toInt? {x : Binary64} {n : Int} (h : x.toInt? = some n) : ofInt n = x.plain := by
  cases x with
  | nan | infinite => cases h
  | finite s m e c =>
    obtain ⟨hvalue, hsign⟩ := value_of_toInt? h
    by_cases hm : m = 0
    · subst hm
      have he : e = -1074 := c.2.2.2.resolve_left (by decide)
      subst he
      rw [toInt?_zero] at h
      cases h
      simp [ofInt, ofRatio, plain, zero]
    · have hexact : (n.natAbs : ℚ) / (1 : Nat) = m * 2 ^ e := by rw [Nat.cast_one, div_one, hvalue]
      rw [ofInt, hsign hm, ofRatio_exact s Nat.one_pos hm c hexact, plain]
      simp [hm]

end Binary64

end Grove
