import Mathlib.Tactic.Linarith
import Grove.Proofs.Number.Rounding
import Grove.Value.Real

/-!
# Nearest numbers

The number that a quotient is rounded to is nearest to it among all finite numbers, and the one with
the even mantissa if two are equally near. The numbers are compared with the multiples of the power
of two that rounding goes by: every finite number is such a multiple, or so small that the least
multiple with a full mantissa lies between it and the quotient.
-/
namespace Grove

/-! ### Whole numbers -/

/-- The difference to a multiple of the divisor is a half of the divisor at most, and the multiple
is an even one if it is a half. -/
theorem natAbs_sub_divHalfEven {n d : Nat} (hd : 0 < d) :
    2 * ((n : Int) - (divHalfEven n d * d : Nat)).natAbs ≤ d ∧
      (2 * ((n : Int) - (divHalfEven n d * d : Nat)).natAbs = d → divHalfEven n d % 2 = 0) := by
  have hmod : n % d < d := Nat.mod_lt n hd
  have hn : n / d * d + n % d = n := Nat.div_add_mod' n d
  simp only [divHalfEven]
  split
  · have hnext : (n / d + 1) * d = n / d * d + d := Nat.succ_mul _ _
    omega
  · omega

/-- The nearest whole number is at most a half away, and even if it is a half away. -/
theorem divHalfEven_near {n d : Nat} (hd : 0 < d) :
    |(n : ℚ) / d - divHalfEven n d| ≤ 1 / 2 ∧
      (|(n : ℚ) / d - divHalfEven n d| = 1 / 2 → divHalfEven n d % 2 = 0) := by
  obtain ⟨hnear, htie⟩ := natAbs_sub_divHalfEven (n := n) hd
  have hd' : (0 : ℚ) < d := by exact_mod_cast hd
  have hdiff : |(n : ℚ) / d - divHalfEven n d| =
      ((n : Int) - (divHalfEven n d * d : Nat)).natAbs / d := by
    rw [Nat.cast_natAbs, Int.cast_abs, ← abs_of_pos hd', ← abs_div, abs_of_pos hd']
    push_cast
    rw [sub_div, mul_div_cancel_right₀ _ hd'.ne']
  generalize ((n : Int) - (divHalfEven n d * d : Nat)).natAbs = r at *
  rw [hdiff]
  constructor
  · rw [div_le_div_iff₀ hd' two_pos, one_mul, mul_comm]
    exact_mod_cast hnear
  · intro heq
    rw [div_eq_div_iff hd'.ne' two_ne_zero, one_mul, mul_comm] at heq
    exact htie (by exact_mod_cast heq)

/-- No whole number is nearer, and of two that are equally near the even one is taken. -/
theorem divHalfEven_nearest {n d : Nat} (hd : 0 < d) (k : Int) :
    |(n : ℚ) / d - divHalfEven n d| ≤ |(n : ℚ) / d - k| ∧
      (|(n : ℚ) / d - k| = |(n : ℚ) / d - divHalfEven n d| → k ≠ divHalfEven n d →
        divHalfEven n d % 2 = 0) := by
  obtain ⟨hnear, htie⟩ := divHalfEven_near (n := n) hd
  by_cases heq : k = divHalfEven n d
  · rw [heq]
    exact ⟨le_of_eq rfl, fun _ hne => absurd rfl hne⟩
  · have happart : (1 : ℚ) ≤ |(k : ℚ) - divHalfEven n d| := by
      exact_mod_cast Int.one_le_abs (sub_ne_zero.mpr heq)
    have hsum : |(k : ℚ) - divHalfEven n d| ≤
        |(n : ℚ) / d - k| + |(n : ℚ) / d - divHalfEven n d| := by
      rw [abs_sub_comm ((n : ℚ) / d) k]
      exact abs_sub_le _ _ _
    refine ⟨by linarith, fun hsame _ => htie ?_⟩
    linarith

namespace Binary64

def value? : Binary64 → Option ℚ
  | .finite s m e _ => some ((if s then -1 else 1) * (m * 2 ^ e))
  | _ => none

/-- The last bit of the mantissa is not set. -/
def IsEven : Binary64 → Prop
  | .finite _ m _ _ => m % 2 = 0
  | _ => False

/-- No finite number is nearer to a quotient, and the mantissa is even if there is another one that
is as near. -/
def Nearest (x : Binary64) (q : ℚ) : Prop :=
  ∃ v, x.value? = some v ∧ ∀ (y : Binary64) (u : ℚ), y.value? = some u →
    |q - v| ≤ |q - u| ∧ (|q - u| = |q - v| → u ≠ v → x.IsEven)

/-- A number is nearest to what it is worth. -/
theorem nearest_value {x : Binary64} {q : ℚ} (h : x.value? = some q) : x.Nearest q := by
  refine ⟨q, h, fun y u _ => ?_⟩
  rw [sub_self, abs_zero]
  refine ⟨abs_nonneg _, fun heq hne => absurd ?_ hne⟩
  exact (sub_eq_zero.mp (abs_eq_zero.mp heq)).symm

/-! ### Multiples of a power of two -/

/-- A finite number is a multiple of a power of two, or less than the least multiple with a full
mantissa. -/
theorem multiple_or_small {y : Binary64} {u : ℚ} (h : y.value? = some u) (e : Int) :
    (∃ k : Int, u = k * 2 ^ e) ∨ -1074 < e ∧ |u| < 2 ^ 52 * 2 ^ e := by
  cases y with
  | nan | infinite => cases h
  | finite s m f c =>
    cases h
    rcases le_or_gt e f with hle | hlt
    · left
      obtain ⟨j, rfl⟩ := Int.exists_add_of_le hle
      refine ⟨(if s then -1 else 1) * (m * 2 ^ j), ?_⟩
      rw [zpow_add₀ two_ne_zero]
      cases s <;> push_cast <;> simp <;> ring
    · right
      have hm : (m : ℚ) < 2 ^ 53 := by exact_mod_cast c.1
      have habs : |(if s then -1 else 1) * ((m : ℚ) * 2 ^ f)| = m * 2 ^ f := by
        have hnonneg : (0 : ℚ) ≤ m * 2 ^ f := by positivity
        cases s <;> simp [abs_of_nonneg hnonneg]
      refine ⟨by have := c.2.1; omega, ?_⟩
      rw [habs]
      calc (m : ℚ) * 2 ^ f < 2 ^ 53 * 2 ^ f := mul_lt_mul_of_pos_right hm (by positivity)
        _ ≤ 2 ^ 53 * 2 ^ (e - 1) := by
            refine mul_le_mul_of_nonneg_left
              (zpow_le_zpow_right₀ one_le_two (by omega)) (by positivity)
        _ = 2 ^ 52 * 2 ^ e := by
            rw [zpow_sub_one₀ two_ne_zero]
            ring

/-- The multiple that a quotient is rounded to is nearest to it, if the quotient has a full mantissa
or the power is the least one. -/
theorem nearest_multiple {a : ℚ} {n d : Nat} (hd : 0 < d) {e : Int} (ha : a = (n : ℚ) / d * 2 ^ e)
    (full : -1074 < e → 2 ^ 52 * 2 ^ e ≤ a) {y : Binary64} {u : ℚ} (h : y.value? = some u) :
    |a - divHalfEven n d * 2 ^ e| ≤ |a - u| ∧
      (|a - u| = |a - divHalfEven n d * 2 ^ e| → u ≠ divHalfEven n d * 2 ^ e →
        divHalfEven n d % 2 = 0) := by
  have hpow : (0 : ℚ) < 2 ^ e := by positivity
  have scaled : ∀ k : Int, |a - k * 2 ^ e| = |(n : ℚ) / d - k| * 2 ^ e := by
    intro k
    rw [ha, ← sub_mul, abs_mul, abs_of_pos hpow]
  have hm := scaled (divHalfEven n d : Nat)
  push_cast at hm
  rcases multiple_or_small h e with ⟨k, rfl⟩ | ⟨he, hsmall⟩
  · obtain ⟨hnear, htie⟩ := divHalfEven_nearest (n := n) hd k
    rw [hm, scaled k]
    refine ⟨mul_le_mul_of_nonneg_right hnear hpow.le, fun heq hne => ?_⟩
    refine htie (mul_right_cancel₀ hpow.ne' heq) ?_
    rintro rfl
    exact hne rfl
  · -- The least multiple with a full mantissa lies between the small number and the quotient.
    obtain ⟨hnear, -⟩ := divHalfEven_nearest (n := n) hd (2 ^ 52)
    have hbetween := full he
    have hfull : |a - divHalfEven n d * 2 ^ e| ≤ a - 2 ^ 52 * 2 ^ e := by
      have hscaled := scaled (2 ^ 52)
      rw [Int.cast_pow, Int.cast_ofNat] at hscaled hnear
      rw [hm, ← abs_of_nonneg (sub_nonneg.mpr hbetween), hscaled]
      exact mul_le_mul_of_nonneg_right hnear hpow.le
    have hfar : a - 2 ^ 52 * 2 ^ e < |a - u| := by
      have := (abs_lt.mp hsmall).2
      exact lt_of_lt_of_le (by linarith) (le_abs_self _)
    exact ⟨le_of_lt (lt_of_le_of_lt hfull hfar), fun heq _ =>
      absurd heq (ne_of_gt (lt_of_le_of_lt hfull hfar))⟩

/-- The quotient that rounding scales has a full mantissa, unless the power is the least one. -/
theorem full_of_floorLog2 {n d : Nat} (hn : 0 < n) (hd : 0 < d)
    (h : -1074 < max (floorLog2 n d - 52) (-1074)) :
    (2 : ℚ) ^ 52 * 2 ^ max (floorLog2 n d - 52) (-1074) ≤ n / d := by
  have he : max (floorLog2 n d - 52) (-1074) = floorLog2 n d - 52 := by omega
  rw [he]
  calc (2 : ℚ) ^ 52 * 2 ^ (floorLog2 n d - 52) = 2 ^ floorLog2 n d := by
        rw [← zpow_natCast, ← zpow_add₀ two_ne_zero]
        congr 1
        push_cast
        ring
    _ ≤ n / d := (floorLog2_bounds hn hd).1

/-- A number that a quotient is rounded to is worth the multiple that is nearest, and its mantissa
is even if the multiple is. -/
theorem value?_ofRatio {s : Bool} {n d m : Nat} {e : Int} (hn : n ≠ 0)
    (he : max (floorLog2 n d - 52) (-1074) = e)
    (hm : divHalfEven (scaleRatio 2 n d (-e)).1 (scaleRatio 2 n d (-e)).2 = m)
    (finite : ∀ b, ofRatio s n d ≠ .infinite b) :
    (ofRatio s n d).value? = some ((if s then -1 else 1) * ((m : ℚ) * 2 ^ e)) ∧
      (m % 2 = 0 → (ofRatio s n d).IsEven) := by
  by_cases hcarry : m = 9007199254740992
  · have hround : ofRatio s n d = if h : Canonical 4503599627370496 (e + 1) then
        .finite s 4503599627370496 (e + 1) h else .infinite s := by
      simp only [ofRatio, if_neg hn, he, hm, if_pos hcarry]
    have hcanonical : Canonical 4503599627370496 (e + 1) := by
      by_contra hnot
      exact finite s (hround.trans (dif_neg hnot))
    rw [hround, dif_pos hcanonical]
    refine ⟨?_, fun _ => rfl⟩
    rw [value?, hcarry, zpow_add_one₀ two_ne_zero]
    congr 2
    push_cast
    ring
  · have hround : ofRatio s n d = if h : Canonical m e then .finite s m e h else .infinite s := by
      simp only [ofRatio, if_neg hn, he, hm, if_neg hcarry]
    have hcanonical : Canonical m e := by
      by_contra hnot
      exact finite s (hround.trans (dif_neg hnot))
    rw [hround, dif_pos hcanonical]
    exact ⟨rfl, id⟩

/-- With every finite number there is the one of either sign. -/
theorem exists_value?_signed {y : Binary64} {u : ℚ} (h : y.value? = some u) (s : Bool) :
    ∃ y' : Binary64, y'.value? = some ((if s then -1 else 1) * u) := by
  cases y with
  | nan | infinite => cases h
  | finite s' m e c =>
    cases h
    refine ⟨.finite (s != s') m e c, ?_⟩
    cases s <;> cases s' <;> simp [value?]

/-- A quotient that is rounded to a finite number is rounded to the nearest one. -/
theorem nearest_ofRatio {s : Bool} {n d : Nat} (hd : 0 < d)
    (finite : ∀ b, ofRatio s n d ≠ .infinite b) :
    (ofRatio s n d).Nearest ((if s then -1 else 1) * ((n : ℚ) / d)) := by
  by_cases hn : n = 0
  · subst hn
    apply nearest_value
    cases s <;> simp [ofRatio, zero, value?]
  · have hscaled := @scaleRatio_value 2 n d (by decide) (-max (floorLog2 n d - 52) (-1074))
    have hpos := @scaleRatio_denominator_pos 2 n d (by decide) hd
      (-max (floorLog2 n d - 52) (-1074))
    have full := full_of_floorLog2 (Nat.pos_of_ne_zero hn) hd
    obtain ⟨hvalue, heven⟩ := value?_ofRatio hn rfl rfl finite
    generalize max (floorLog2 n d - 52) (-1074) = e at *
    have ha : (n : ℚ) / d =
        ((scaleRatio 2 n d (-e)).1 : ℚ) / (scaleRatio 2 n d (-e)).2 * 2 ^ e := by
      rw [hscaled, mul_assoc, Nat.cast_ofNat, ← zpow_add₀ two_ne_zero, neg_add_cancel,
        zpow_zero, mul_one]
    have hsign : (if s then -1 else 1 : ℚ) * (if s then -1 else 1) = 1 := by cases s <;> norm_num
    have hflip : ∀ a b : ℚ, |(if s then -1 else 1) * a - b| = |a - (if s then -1 else 1) * b| := by
      intro a b
      cases s
      · simp
      · rw [← abs_neg]
        congr 1
        simp
        ring
    refine ⟨_, hvalue, fun y u hu => ?_⟩
    obtain ⟨y', hu'⟩ := exists_value?_signed hu s
    obtain ⟨hnear, htie⟩ := nearest_multiple hpos ha full hu'
    rw [hflip, hflip, ← mul_assoc, hsign, one_mul]
    refine ⟨hnear, fun heq hne => heven (htie heq ?_)⟩
    intro hsame
    apply hne
    rw [← hsame, ← mul_assoc, hsign, one_mul]

/-! ### Whole numbers among the finite ones -/

/-- A finite number is worth its quotient. -/
theorem value?_of_ratio? {x : Binary64} {n : Int} {d : Nat} (h : x.ratio? = some (n, d)) :
    0 < d ∧ x.value? = some ((n : ℚ) / d) := by
  cases x with
  | nan | infinite => cases h
  | finite s m e c =>
    rw [ratio?_finite] at h
    obtain ⟨hn, rfl⟩ := Prod.mk.inj (Option.some.inj h)
    refine ⟨magnitude_denominator_pos _, ?_⟩
    rw [value?, ← magnitude_value s m e c, ← hn]
    cases s
    · simp
    · simp [neg_div]

/-- A number is given as a whole number exactly if it is worth one. -/
theorem toInt?_eq_some_iff {x : Binary64} {k : Int} :
    x.toInt? = some k ↔ x.value? = some (k : ℚ) := by
  cases hratio : x.ratio? with
  | none =>
    have hvalue : x.value? = none := by
      cases x with
      | nan | infinite => rfl
      | finite => cases hratio
    simp [toInt?, hratio, hvalue]
  | some r =>
    obtain ⟨n, d⟩ := r
    obtain ⟨hd, hvalue⟩ := value?_of_ratio? hratio
    have hd' : (d : ℚ) ≠ 0 := by exact_mod_cast hd.ne'
    have hwhole : (n : ℚ) / d = k ↔ n = k * d := by
      rw [div_eq_iff hd']
      exact_mod_cast Iff.rfl
    rw [hvalue, Option.some.injEq, hwhole, toInt?, hratio]
    constructor
    · intro h
      obtain ⟨hmod, hk⟩ := Option.ite_none_right_eq_some.mp h
      rw [← Option.some.inj hk]
      exact (Int.ediv_mul_cancel (Int.dvd_of_emod_eq_zero hmod)).symm
    · rintro rfl
      simp [hd.ne']

end Binary64

namespace Value

/-- What a number is worth exactly, if it is finite. -/
def worth? : Value → Option ℚ
  | .int n => some n
  | .fraction n d => if d = 0 then none else some ((n : ℚ) / d)
  | .float x => x.value?
  | _ => none

theorem of_wholeToFloat {n : Int} {x : Binary64} (h : wholeToFloat n = .ok x) :
    Binary64.ofInt n = x ∧ ∀ b, Binary64.ofInt n ≠ .infinite b := by
  unfold wholeToFloat at h
  split at h
  · cases h
  · next hfinite => exact ⟨Except.ok.inj h, hfinite⟩

theorem of_quotientToFloat {n : Int} {d : Nat} {x : Binary64} (h : quotientToFloat n d = .ok x) :
    Binary64.ofRatio (n < 0) n.natAbs d = x ∧ ∀ b,
      Binary64.ofRatio (n < 0) n.natAbs d ≠ .infinite b := by
  unfold quotientToFloat at h
  split at h
  · cases h
  · next hfinite => exact ⟨Except.ok.inj h, hfinite⟩

theorem nearest_signed {n : Int} {d : Nat} (hd : 0 < d)
    (finite : ∀ b, Binary64.ofRatio (n < 0) n.natAbs d ≠ .infinite b) :
    (Binary64.ofRatio (n < 0) n.natAbs d).Nearest ((n : ℚ) / d) := by
  have hnearest := Binary64.nearest_ofRatio hd finite
  have hsign : (if decide (n < 0) then -1 else 1 : ℚ) * n.natAbs = n := by
    by_cases hneg : n < 0
    · have habs : ((n.natAbs : Int) : ℚ) = -n := by
        exact_mod_cast Int.ofNat_natAbs_of_nonpos hneg.le
      rw [if_pos (decide_eq_true hneg), ← Int.cast_natCast, habs]
      ring
    · have habs : ((n.natAbs : Int) : ℚ) = n := by
        exact_mod_cast Int.natAbs_of_nonneg (not_lt.mp hneg)
      rw [if_neg (by simpa using hneg), one_mul, ← Int.cast_natCast, habs]
  rwa [← mul_div_assoc, hsign] at hnearest

/-- A number is converted to the nearest one. -/
theorem nearest_of_real? {v : Value} {x : Binary64} {q : ℚ} (hx : v.real? = some (.ok x))
    (hq : v.worth? = some q) :
    x.Nearest q := by
  cases v with
  | int n =>
    cases hq
    obtain ⟨rfl, finite⟩ := of_wholeToFloat (Option.some.inj hx)
    have hnearest := nearest_signed Nat.one_pos finite
    rwa [Nat.cast_one, div_one] at hnearest
  | fraction n d =>
    obtain ⟨rfl, finite⟩ := of_quotientToFloat (Option.some.inj hx)
    obtain ⟨hd, hq⟩ := Option.ite_none_left_eq_some.mp hq
    rw [← Option.some.inj hq]
    exact nearest_signed (Nat.pos_of_ne_zero hd) finite
  | float y =>
    cases hx
    exact Binary64.nearest_value hq
  | _ => cases hq

end Value

end Grove
