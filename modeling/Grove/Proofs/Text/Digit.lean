import Mathlib.Data.List.Induction
import Mathlib.Tactic.Ring
import Grove.Text.Digit

/-!
# Decimal digits

How the digits of a number grow, what stands first among them, and what digits in a row are worth.
Digits without zeros in front are the digits of what they are worth.
-/
namespace Grove.Text

theorem isDigit_of_mem_decimal {n : Nat} {c : CodePoint} (h : c ∈ decimal n) :
    isDigit c = true := by
  obtain ⟨d, hd, rfl⟩ := List.mem_map.mp h
  have hdigit := Nat.isDigit_of_mem_toDigits (by decide) (by decide) hd
  simp only [Char.isDigit, Bool.and_eq_true, decide_eq_true_eq] at hdigit
  simp only [isDigit, Bool.and_eq_true, decide_eq_true_eq]
  exact ⟨UInt32.le_iff_toNat_le.mp hdigit.1, UInt32.le_iff_toNat_le.mp hdigit.2⟩

theorem digits_ne_nil (base n : Nat) : digits base n ≠ [] :=
  mt List.map_eq_nil_iff.mp Nat.toDigits_ne_nil

theorem decimal_ne_nil (n : Nat) : decimal n ≠ [] :=
  digits_ne_nil 10 n

theorem digits_of_lt {base n : Nat} (h : n < base) :
    digits base n = [CodePoint.scalar n.digitChar] := by
  rw [digits, Nat.toDigits_of_lt_base h]
  rfl

theorem digits_append {base q d : Nat} (hbase : 1 < base) (hq : 0 < q) (hd : d < base) :
    digits base (base * q + d) = digits base q ++ digits base d := by
  rw [digits, ← Nat.toDigits_append_toDigits hbase hq hd, List.map_append]
  rfl

/-- The digits of a number that has more than one are those of its quotient and the one of its
remainder. -/
theorem digits_of_le {base n : Nat} (hbase : 1 < base) (h : base ≤ n) :
    digits base n = digits base (n / base) ++ [CodePoint.scalar (n % base).digitChar] := by
  have hlast : n % base < base := Nat.mod_lt n (by omega)
  have happend := digits_append hbase (Nat.div_pos h (by omega)) hlast
  rwa [Nat.div_add_mod, digits_of_lt hlast] at happend

theorem length_digits_le_iff {base k n : Nat} (hbase : 1 < base) (hk : 0 < k) :
    (digits base n).length ≤ k ↔ n < base ^ k := by
  rw [digits, List.length_map]
  exact Nat.length_toDigits_le_iff hbase hk

theorem decimal_of_lt {n : Nat} (h : n < 10) : decimal n = [CodePoint.scalar n.digitChar] :=
  digits_of_lt h

theorem decimal_append {q d : Nat} (hq : 0 < q) (hd : d < 10) :
    decimal (10 * q + d) = decimal q ++ decimal d :=
  digits_append (by decide) hq hd

theorem decimal_mul_ten {n : Nat} (h : n ≠ 0) :
    decimal (n * 10) = decimal n ++ [CodePoint.scalar '0'] := by
  have happend := decimal_append (Nat.pos_of_ne_zero h) (show 0 < 10 by decide)
  rwa [Nat.add_zero, Nat.mul_comm] at happend

/-- The first digit is a zero for zero only. -/
theorem head?_decimal {n : Nat} (h : n ≠ 0) : (decimal n).head? ≠ some (CodePoint.scalar '0') := by
  induction n using Nat.strongRecOn with
  | ind n ih =>
    by_cases hlt : n < 10
    · rw [decimal_of_lt hlt]
      clear ih
      revert h
      revert n
      decide
    · have hstep : decimal n = decimal (n / 10) ++ [CodePoint.scalar (n % 10).digitChar] :=
        digits_of_le (by decide) (by omega)
      have hrest := ih (n / 10) (by omega) (by omega)
      obtain ⟨d, ds, hds⟩ := List.exists_cons_of_ne_nil (decimal_ne_nil (n / 10))
      rw [hds] at hstep hrest
      rw [hstep]
      exact hrest

theorem decimalLength_pos (n : Nat) : 0 < decimalLength n :=
  List.length_pos_iff.mpr (decimal_ne_nil n)

/-- So many digits are enough for the numbers below the power of ten. -/
theorem decimalLength_le_iff {k n : Nat} (hk : 0 < k) : decimalLength n ≤ k ↔ n < 10 ^ k :=
  length_digits_le_iff (by decide) hk

theorem decimalLength_mul_ten {n : Nat} (h : n ≠ 0) :
    decimalLength (n * 10) = decimalLength n + 1 := by
  rw [decimalLength, decimal_mul_ten h, List.length_append]
  rfl

theorem lt_pow_decimalLength (n : Nat) : n < 10 ^ decimalLength n :=
  (decimalLength_le_iff (decimalLength_pos n)).mp (Nat.le_refl _)

theorem pow_decimalLength_le {n : Nat} (h : n ≠ 0) : 10 ^ (decimalLength n - 1) ≤ n := by
  by_cases hone : decimalLength n = 1
  · rw [hone]
    exact Nat.one_le_iff_ne_zero.mpr h
  · have hpos := decimalLength_pos n
    have hlt : ¬ n < 10 ^ (decimalLength n - 1) := by
      rw [← decimalLength_le_iff (by omega)]
      omega
    omega

/-- A number has more than so many digits if it is at least the power of ten. -/
theorem lt_decimalLength_iff {k n : Nat} (hk : 0 < k) : k < decimalLength n ↔ 10 ^ k ≤ n := by
  rw [← not_iff_not, Nat.not_lt, Nat.not_le]
  exact decimalLength_le_iff hk

theorem decimalValue_append_digit (ds : List CodePoint) (d : CodePoint) :
    decimalValue (ds ++ [d]) = 10 * decimalValue ds + (d.toNat - '0'.toNat) := by
  rw [decimalValue, List.foldl_append]
  rfl

theorem decimalValue_append (xs ys : List CodePoint) :
    decimalValue (xs ++ ys) = decimalValue xs * 10 ^ ys.length + decimalValue ys := by
  induction ys using List.reverseRecOn with
  | nil => rw [List.append_nil, List.length_nil, Nat.pow_zero, Nat.mul_one]; rfl
  | append_singleton ys d ih =>
    rw [← List.append_assoc, decimalValue_append_digit, decimalValue_append_digit, ih,
      List.length_append, List.length_singleton, Nat.pow_succ]
    ring

theorem decimalValue_zeros (n : Nat) :
    decimalValue (List.replicate n (CodePoint.scalar '0')) = 0 := by
  induction n with
  | zero => rfl
  | succ n ih => rw [List.replicate_succ', decimalValue_append_digit, ih]; rfl

theorem decimalValue_zeros_append (n : Nat) (ds : List CodePoint) :
    decimalValue (List.replicate n (CodePoint.scalar '0') ++ ds) = decimalValue ds := by
  rw [decimalValue_append, decimalValue_zeros, Nat.zero_mul, Nat.zero_add]

theorem decimalValue_paddedDigits (width n : Nat) : decimalValue (paddedDigits 10 width n) = n :=
  (decimalValue_zeros_append _ _).trans (decimalValue_decimal n)

def withoutZeros : List CodePoint → List CodePoint
  | '0' :: c :: cs => withoutZeros (c :: cs)
  | ds => ds

theorem length_withoutZeros_le (ds : List CodePoint) : (withoutZeros ds).length ≤ ds.length := by
  fun_induction withoutZeros ds with
  | case1 c cs ih => exact Nat.le_succ_of_le ih
  | case2 ds => exact Nat.le_refl _

theorem decimalValue_digit {c : CodePoint} (h : isDigit c = true) :
    decimalValue [c] < 10 ∧ decimal (decimalValue [c]) = [c] := by
  have hvalue : decimalValue [c] = c.toNat - '0'.toNat := by
    rw [decimalValue, List.foldl_cons, List.foldl_nil, Nat.mul_zero, Nat.zero_add]
  have hchar : ∀ n < 10, CodePoint.scalar n.digitChar = CodePoint.ofNat ('0'.toNat + n) := by decide
  simp only [isDigit, Bool.and_eq_true, decide_eq_true_eq] at h
  have hlt : decimalValue [c] < 10 := by
    have hnine : '9'.toNat = '0'.toNat + 9 := rfl
    omega
  refine ⟨hlt, ?_⟩
  rw [decimal_of_lt hlt, hchar _ hlt, hvalue, Nat.add_sub_cancel' h.1, CodePoint.ofNat_toNat]

/-- Digits without zeros in front are the digits of the number that they denote. -/
theorem decimal_decimalValue_of_head? {ds : List CodePoint}
    (hds : ∀ c ∈ ds, isDigit c = true) (hne : ds ≠ [])
    (hhead : ds.head? ≠ some (CodePoint.scalar '0')) :
    decimalValue ds ≠ 0 ∧ decimal (decimalValue ds) = ds := by
  induction ds using List.reverseRecOn with
  | nil => exact absurd rfl hne
  | append_singleton front c ih =>
    obtain ⟨hfront, hlast⟩ := List.forall_mem_append.mp hds
    obtain ⟨hlt, hdigit⟩ := decimalValue_digit (hlast c List.mem_cons_self)
    cases front with
    | nil =>
      refine ⟨fun hzero => hhead ?_, hdigit⟩
      rw [List.nil_append] at hzero
      rw [hzero] at hdigit
      exact congrArg List.head? hdigit.symm
    | cons first rest =>
      obtain ⟨hpos, hdigits⟩ := ih hfront (List.cons_ne_nil _ _) hhead
      rw [decimalValue_append, List.length_singleton, Nat.pow_one, Nat.mul_comm]
      refine ⟨by omega, ?_⟩
      calc decimal (10 * decimalValue (first :: rest) + decimalValue [c])
          = decimal (decimalValue (first :: rest)) ++ decimal (decimalValue [c]) :=
            decimal_append (Nat.pos_of_ne_zero hpos) hlt
        _ = first :: rest ++ [c] := by rw [hdigits, hdigit]

/-- The digits of the number that digits denote are those digits without the zeros in front. -/
theorem decimal_decimalValue {ds : List CodePoint}
    (hds : ∀ c ∈ ds, isDigit c = true) (hne : ds ≠ []) :
    decimal (decimalValue ds) = withoutZeros ds := by
  fun_induction withoutZeros ds with
  | case1 c cs ih =>
    rw [← ih (List.forall_mem_cons.mp hds).2 (List.cons_ne_nil _ _)]
    exact congrArg decimal (decimalValue_zeros_append 1 (c :: cs))
  | case2 ds hzero =>
    by_cases hhead : ds.head? = some (CodePoint.scalar '0')
    · obtain ⟨cs, rfl⟩ : ∃ cs, ds = ↑ '0' :: cs := List.head?_eq_some_iff.mp hhead
      cases cs with
      | nil => rfl
      | cons c cs => exact absurd rfl (hzero c cs)
    · exact (decimal_decimalValue_of_head? hds hne hhead).2

theorem isDigit_of_mem_zeros {n : Nat} {c : CodePoint}
    (h : c ∈ List.replicate n (CodePoint.scalar '0')) : isDigit c = true := by
  rw [List.eq_of_mem_replicate h]
  decide

theorem isDigit_of_mem_paddedDigits {width n : Nat} {c : CodePoint}
    (h : c ∈ paddedDigits 10 width n) :
    isDigit c = true := by
  rcases List.mem_append.mp h with h | h
  · exact isDigit_of_mem_zeros h
  · exact isDigit_of_mem_decimal h

theorem paddedDigits_ne_nil (width n : Nat) : paddedDigits 10 width n ≠ [] :=
  fun h => decimal_ne_nil n (List.append_eq_nil_iff.mp h).2

/-- The text does not go on with a digit. -/
def NoDigit (rest : List CodePoint) : Prop :=
  ∀ c, rest.head? = some c → isDigit c = false

theorem noDigit_nil : NoDigit [] :=
  nofun

theorem noDigit_cons {c : CodePoint} (h : isDigit c = false) (cs : List CodePoint) :
    NoDigit (c :: cs) := by
  intro b hb
  cases hb
  exact h

theorem takeWhile_isDigit {ds rest : List CodePoint} (hds : ∀ c ∈ ds, isDigit c = true)
    (h : NoDigit rest) :
    (ds ++ rest).takeWhile isDigit = ds := by
  have hrest : rest.takeWhile isDigit = [] := by
    cases rest with
    | nil => rfl
    | cons c cs => rw [List.takeWhile_cons, h c rfl, if_neg Bool.false_ne_true]
  rw [List.takeWhile_append_of_pos hds, hrest, List.append_nil]

theorem dropWhile_isDigit {ds rest : List CodePoint} (hds : ∀ c ∈ ds, isDigit c = true)
    (h : NoDigit rest) :
    (ds ++ rest).dropWhile isDigit = rest := by
  have hrest : rest.dropWhile isDigit = rest := by
    cases rest with
    | nil => rfl
    | cons c cs => rw [List.dropWhile_cons, h c rfl, if_neg Bool.false_ne_true]
  rw [List.dropWhile_append_of_pos hds, hrest]

end Grove.Text
