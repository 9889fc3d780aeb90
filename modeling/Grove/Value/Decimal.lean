import Grove.Number.Shortest

/-!
# Decimal numbers among the plain values

A decimal number keeps the digits and the power of ten that it was made with. Digits stand in place
if there is no power above the ones and no more than six places before the first digit; otherwise
the text has an exponent, however small.
-/
namespace Grove

/-- A decimal number, an infinite one, or none with some digits of its own. -/
inductive DecimalNumber where
  | finite (negative : Bool) (digits : Nat) (exponent : Int)
  | infinite (negative : Bool)
  | nan (negative : Bool) (payload : Nat)
  deriving DecidableEq

namespace DecimalNumber

def exponentText (k : Int) : List CodePoint :=
  'E' :: (if k < 0 then '-' else '+') :: Text.decimal k.natAbs

def magnitudeText (digits : Nat) (exponent : Int) : List CodePoint :=
  let ds := Text.decimal digits
  let leading := (Decimal.mk digits exponent).leading
  if exponent = 0 then ds
  else if exponent < 0 ∧ -6 ≤ leading then Binary64.positional ⟨digits, exponent⟩
  else ds.take 1 ++ (if ds.length = 1 then [] else ↑ '.' :: ds.drop 1) ++ exponentText leading

def text (x : DecimalNumber) : Text :=
  Text.ofList <|
    match x with
    | .finite negative digits exponent =>
      Binary64.signText negative ++ magnitudeText digits exponent
    | .infinite negative => Binary64.signText negative ++ Text.toList "Infinity"
    | .nan negative payload =>
      Binary64.signText negative ++ Text.toList "NaN" ++
        if payload = 0 then [] else Text.decimal payload

/-- The number as an exact quotient, if it is finite. -/
def ratio? : DecimalNumber → Option (Int × Nat)
  | .finite negative digits exponent =>
    let (n, d) := scaleRatio 10 digits 1 exponent
    some (if negative then -n else n, d)
  | _ => none

def toBinary64 : DecimalNumber → Binary64
  | .finite negative digits exponent => .ofDecimal negative digits exponent
  | .infinite negative => .infinite negative
  | .nan .. => .nan

example : (finite false 15 (-1)).text = "1.5" := by decide
example : (finite false 1 2).text = "1E+2" := by decide
example : (finite true 123 (-10)).text = "-1.23E-8" := by decide
example : (finite false 0 (-7)).text = "0E-7" := by decide

end DecimalNumber

end Grove
