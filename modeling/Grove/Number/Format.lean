import Grove.Number.Shortest

/-!
# Numbers with a given precision

The three notations with a chosen number of digits: in place, with an exponent, and the general one
that takes whichever suits the size. Digits are exact and rounded once, ties to even. Only the
magnitude is written here; signs and padding belong to the caller.
-/
namespace Grove

inductive NumberStyle where
  | fixed
  | scientific
  | general
  deriving DecidableEq

namespace Binary64

/-- Digits cut before the last `places`, with a point between if there are any or if one is
forced. -/
def withPoint (forcePoint : Bool) (ds : List CodePoint) (places : Nat) : List CodePoint :=
  let whole := ds.take (ds.length - places)
  let rest := ds.drop (ds.length - places)
  if rest.isEmpty && !forcePoint then whole else whole ++ ↑ '.' :: rest

/-- More places than any finite number has digits, before or after the point: the digits behind them
are zeros. -/
def exactPlaces : Nat := 1100

/-- Digits in place with exactly `places` after the point. -/
def fixedChars (forcePoint : Bool) (places : Nat) (x : Binary64) : List CodePoint :=
  let shown := min places exactPlaces
  let (n, d) := x.magnitude
  withPoint forcePoint
    (Text.paddedDigits 10 (shown + 1) (divHalfEven (n * Nat.pow 10 shown) d)) shown ++
    List.replicate (places - shown) (CodePoint.scalar '0')

/-- The `count` leading digits of a magnitude as a whole number, and the exponent of the first. -/
def leadingDigits (count : Nat) (x : Binary64) : Nat × Int :=
  let (n, d) := x.magnitude
  if n = 0 then (0, 0)
  else
    let k := floorLog10 n d
    let (n', d') := scaleRatio 10 n d (count - 1 - k)
    let q := divHalfEven n' d'
    if q = Nat.pow 10 count then (Nat.pow 10 (count - 1), k + 1) else (q, k)

def scientificChars (forcePoint : Bool) (places : Nat) (x : Binary64) : List CodePoint :=
  let shown := min places exactPlaces
  let (q, k) := x.leadingDigits (shown + 1)
  withPoint forcePoint (Text.paddedDigits 10 (shown + 1) q) shown ++
    List.replicate (places - shown) (CodePoint.scalar '0') ++ ↑ 'e' :: exponentText k

/-- Drops zeros at the end of a fraction, and the point when nothing is left behind it. -/
def trimFraction (cs : List CodePoint) : List CodePoint :=
  if cs.contains '.' then
    match cs.reverse.dropWhile (· = CodePoint.scalar '0') with
    | '.' :: rest => rest.reverse
    | rest => rest.reverse
  else cs

/-- `count` significant digits, in place when the exponent is from -4 up to the count, and without
zeros at the end unless the point is forced. -/
def generalChars (forcePoint : Bool) (count : Nat) (x : Binary64) : List CodePoint :=
  let count := max count 1
  let shown := min count exactPlaces
  let (q, k) := x.leadingDigits shown
  if -4 ≤ k ∧ k < count then
    if forcePoint then x.fixedChars forcePoint ((count : Int) - 1 - k).toNat
    else trimFraction (x.fixedChars forcePoint ((shown : Int) - 1 - k).toNat)
  else
    let body := withPoint forcePoint (Text.paddedDigits 10 shown q) (shown - 1)
    (if forcePoint then body ++ List.replicate (count - shown) (CodePoint.scalar '0')
      else trimFraction body) ++
      ↑ 'e' :: exponentText k

def magnitudeChars (style : NumberStyle) (forcePoint : Bool) (precision : Nat)
    (x : Binary64) : List CodePoint :=
  match x with
  | .nan => ['n', 'a', 'n']
  | .infinite _ => ['i', 'n', 'f']
  | .finite .. =>
    match style with
    | .fixed => x.fixedChars forcePoint precision
    | .scientific => x.scientificChars forcePoint precision
    | .general => x.generalChars forcePoint precision

end Binary64

end Grove
