import Grove.Text.Digit

/-!
# Binary floating point of 64 bits

A number is kept as an exact sign, mantissa and exponent in lowest position, so that equality of
values (the sign of zero apart) is equality of terms. Every operation is an exact calculation on
natural numbers followed by one rounding, to nearest with ties to the even mantissa.
-/
namespace Grove

/-- The one pair of mantissa and exponent that a finite magnitude has: 53 bits, from
4503599627370496 up to 9007199254740991, unless it is subnormal. -/
def Canonical (mantissa : Nat) (exponent : Int) : Prop :=
  mantissa < 9007199254740992 ∧ -1074 ≤ exponent ∧ exponent ≤ 971 ∧
    (4503599627370496 ≤ mantissa ∨ exponent = -1074)

instance (mantissa : Nat) (exponent : Int) : Decidable (Canonical mantissa exponent) :=
  inferInstanceAs (Decidable (_ ∧ _))

/-- A binary floating-point number of 64 bits; there is one NaN. -/
inductive Binary64 where
  | nan
  | infinite (negative : Bool)
  | finite (negative : Bool) (mantissa : Nat) (exponent : Int)
      (canonical : Canonical mantissa exponent)
  deriving DecidableEq

/-- The nearest whole number to `n / d`, ties to even. -/
def divHalfEven (n d : Nat) : Nat :=
  let q := n / d
  let r := n % d
  if d < 2 * r ∨ (d = 2 * r ∧ q % 2 = 1) then q + 1 else q

def scaleRatio (base n d : Nat) (k : Int) : Nat × Nat :=
  if 0 ≤ k then (n * base.pow k.toNat, d) else (n, d * base.pow (-k).toNat)

/-- The exponent of the greatest power of two that is at most `n / d`, for positive `n` and `d`. -/
def floorLog2 (n d : Nat) : Int :=
  let k : Int := (Nat.log2 n : Int) - Nat.log2 d
  let (n', d') := scaleRatio 2 n d (-k)
  if n' < d' then k - 1 else k

namespace Binary64

def zero (negative : Bool) : Binary64 :=
  .finite negative 0 (-1074) (by decide)

/-- The number of the given sign whose magnitude is nearest to `n / d`. -/
def ofRatio (negative : Bool) (n d : Nat) : Binary64 :=
  if n = 0 then zero negative
  else
    let e := max (floorLog2 n d - 52) (-1074)
    let (n', d') := scaleRatio 2 n d (-e)
    let m := divHalfEven n' d'
    let (m, e) := if m = 9007199254740992 then (4503599627370496, e + 1) else (m, e)
    if h : Canonical m e then .finite negative m e h else .infinite negative

def ofInt (n : Int) : Binary64 :=
  ofRatio (n < 0) n.natAbs 1

/-- The number of the given sign nearest to `c · 10 ^ s`. Far outside the range no power is
computed. -/
def ofDecimal (negative : Bool) (c : Nat) (s : Int) : Binary64 :=
  if c = 0 then zero negative
  else
    let top := (Text.decimalLength c : Int) + s
    if 400 < top then .infinite negative
    else if top < -400 then zero negative
    else
      let (n, d) := scaleRatio 10 c 1 s
      ofRatio negative n d

def magnitude : Binary64 → Nat × Nat
  | .finite _ m e _ => scaleRatio 2 m 1 e
  | _ => (0, 1)

def negative : Binary64 → Bool
  | .nan => false
  | .infinite s => s
  | .finite s _ _ _ => s

/-- A finite number as a signed numerator and a denominator. -/
def ratio? : Binary64 → Option (Int × Nat)
  | x@(.finite s ..) =>
    let (n, d) := x.magnitude
    some (if s then -(n : Int) else n, d)
  | _ => none

/-- The whole number that a finite number without fraction is equal to. -/
def toInt? (x : Binary64) : Option Int :=
  match x.ratio? with
  | some (n, d) => if n % d = 0 then some (n / d) else none
  | none => none

/-- Equality as a number: both zeros agree, and NaN differs from everything. -/
def sameNumber (x y : Binary64) : Bool :=
  match x, y with
  | .nan, _ => false
  | .finite s m e _, .finite s' m' e' _ => m = m' && e = e' && (s = s' || m = 0)
  | _, _ => x = y

/-- Sum, rounded once. A zero sum is negative only if both terms are. -/
def add (x y : Binary64) : Binary64 :=
  match x.ratio?, y.ratio? with
  | some (n, d), some (n', d') =>
    let sum := n * d' + n' * d
    let sign := if sum = 0 then x.negative && y.negative else decide (sum < 0)
    ofRatio sign sum.natAbs (d * d')
  | none, some _ => x
  | some _, none => y
  | none, none => if x = y then x else .nan

/-- Product, rounded once. -/
def mul (x y : Binary64) : Binary64 :=
  match x.ratio?, y.ratio? with
  | some (n, d), some (n', d') => ofRatio (x.negative != y.negative) (n * n').natAbs (d * d')
  | _, _ =>
    if x = .nan || y = .nan || x.sameNumber (zero false) || y.sameNumber (zero false) then .nan
    else .infinite (x.negative != y.negative)

theorem ofInt_one : ofInt 1 = .finite false 4503599627370496 (-52) (by decide) := by decide +kernel

end Binary64

end Grove
