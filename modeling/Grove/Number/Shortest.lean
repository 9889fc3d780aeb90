import Grove.Number.Binary64

/-!
# Shortest decimal text

The decimal text of a number has the fewest significant digits that read back as the same number,
and among those the ones nearest to it. For each count of digits the two neighbours on the decimal
grid are tried, by reading them back. Digits stand in place from `0.0001` up to sixteen places
before the point; beyond that the text has an exponent.
-/
namespace Grove

/-- The exponent of the greatest power of ten that is at most `n / d`, for positive `n` and `d`. -/
def floorLog10 (n d : Nat) : Int :=
  if d ≤ n then (Text.decimalLength (n / d) : Int) - 1
  else -(Text.decimalLength ((d - 1) / n) : Int)

/-- The whole numbers next to `n / d`, the nearer one first; the even one of two equally near. -/
def neighbours (n d : Nat) : List Nat :=
  let q := n / d
  let r := n % d
  if r = 0 then [q]
  else if 2 * r < d ∨ (2 * r = d ∧ q % 2 = 0) then [q, q + 1]
  else [q + 1, q]

/-- The number `digits · 10 ^ exponent`. -/
structure Decimal where
  digits : Nat
  exponent : Int
  deriving DecidableEq

namespace Decimal

/-- Drops the zeros at the end of the digits, at most as many as the fuel. -/
def trimZeros : Nat → Decimal → Decimal
  | 0, x => x
  | fuel + 1, x =>
    if x.digits ≠ 0 ∧ x.digits % 10 = 0 then trimZeros fuel ⟨x.digits / 10, x.exponent + 1⟩ else x

/-- The exponent of the first digit. -/
def leading (x : Decimal) : Int :=
  (Text.decimalLength x.digits : Int) - 1 + x.exponent

end Decimal

namespace Binary64

/-- A neighbour on the grid of `count` significant digits that reads back as the finite number
`x`. -/
def onGrid? (x : Binary64) (count : Nat) : Option Decimal :=
  let (n, d) := x.magnitude
  let step := floorLog10 n d - count + 1
  let (n', d') := scaleRatio 10 n d (-step)
  ((neighbours n' d').find? fun c => ofDecimal x.negative c step = x).map fun c => ⟨c, step⟩

def exactDecimal (x : Binary64) : Decimal :=
  match x with
  | .finite _ m e _ => if 0 ≤ e then ⟨m * Nat.pow 2 e.toNat, 0⟩ else ⟨m * Nat.pow 5 (-e).toNat, e⟩
  | _ => ⟨0, 0⟩

/-- The fewest digits, and of those the nearest, that read back as the finite number `x`. -/
def shortest (x : Binary64) : Decimal :=
  if x.magnitude.1 = 0 then ⟨0, 0⟩
  else
    match (List.range 17).findSome? fun k => x.onGrid? (k + 1) with
    | some found => found.trimZeros 17
    | none => x.exactDecimal

def signText (negative : Bool) : List CodePoint :=
  if negative then ['-'] else []

/-- An exponent with its sign and at least two digits. -/
def exponentText (k : Int) : List CodePoint :=
  (if k < 0 then '-' else '+') :: Text.paddedDigits 10 2 k.natAbs

/-- Digits in place, with at least one on either side of the point. -/
def positional (x : Decimal) : List CodePoint :=
  let ds := Text.decimal x.digits
  if 0 ≤ x.exponent then ds ++ List.replicate x.exponent.toNat (CodePoint.scalar '0') ++
    [CodePoint.scalar '.', '0']
  else
    let places := (-x.exponent).toNat
    let ds := List.replicate (places + 1 - ds.length) (CodePoint.scalar '0') ++ ds
    ds.take (ds.length - places) ++ ↑ '.' :: ds.drop (ds.length - places)

/-- One digit, the point with the other digits if there are any, and the exponent. -/
def scientific (x : Decimal) : List CodePoint :=
  match Text.decimal x.digits with
  | [] => []
  | [d] => d :: ↑ 'e' :: exponentText x.leading
  | d :: ds => d :: ↑ '.' :: ds ++ ↑ 'e' :: exponentText x.leading

/-- Whether digits stand in place when the first one has exponent `k`. -/
def inPlace (k : Int) : Bool :=
  -4 ≤ k && k < 16

/-- The text of a number, always recognisable as one that may have a fraction. -/
def chars : Binary64 → List CodePoint
  | .nan => [CodePoint.scalar 'n', 'a', 'n']
  | .infinite s => signText s ++ [CodePoint.scalar 'i', 'n', 'f']
  | x@(.finite s ..) =>
    let dec := x.shortest
    signText s ++ if inPlace dec.leading then positional dec else scientific dec

def text (x : Binary64) : Text :=
  Text.ofList x.chars

end Binary64

end Grove
