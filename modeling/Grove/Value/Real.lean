import Grove.Value.Basic

/-!
# Real numbers among the plain values

A whole number or a fraction becomes the nearest floating-point number, and fails if that is beyond
the greatest one. Truth values and decimals are left to the caller, since not every reader takes
them.
-/
namespace Grove

inductive RangeFault where
  | wholeTooLarge
  | quotientTooLarge
  deriving DecidableEq

namespace RangeFault

def message : RangeFault → Text
  | .wholeTooLarge => "int too large to convert to float"
  | .quotientTooLarge => "integer division result too large for a float"

end RangeFault

def wholeToFloat (n : Int) : Except RangeFault Binary64 :=
  match Binary64.ofInt n with
  | .infinite _ => .error .wholeTooLarge
  | x => .ok x

def quotientToFloat (n : Int) (d : Nat) : Except RangeFault Binary64 :=
  match Binary64.ofRatio (n < 0) n.natAbs d with
  | .infinite _ => .error .quotientTooLarge
  | x => .ok x

namespace Value

/-- The floating-point value of a whole number, a fraction or a floating-point number; `none` for a
value of another type. -/
def real? : Value → Option (Except RangeFault Binary64)
  | .int n => some (wholeToFloat n)
  | .fraction n d => some (quotientToFloat n d)
  | .float x => some (.ok x)
  | _ => none

/-- The floating-point value of anything that counts as a number in a template. -/
def anyReal? : Value → Option (Except RangeFault Binary64)
  | .boolean b => some (.ok (.ofInt (if b then 1 else 0)))
  | .decimal x => some (.ok x.toBinary64)
  | v => v.real?

end Value

end Grove
