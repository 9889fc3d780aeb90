import Grove.Text.Basic

/-!
# Base 64

Decoding of bytes written as text, three bytes in four characters. Characters that are no digits are
skipped; the text is over at the padding that completes a group.
-/
namespace Grove.Text

def base64Value? (c : CodePoint) : Option Nat :=
  let n := c.toNat
  if 65 ≤ n && n ≤ 90 then some (n - 65)
  else if 97 ≤ n && n ≤ 122 then some (n - 71)
  else if 48 ≤ n && n ≤ 57 then some (n + 4)
  else if c = '+' then some 62
  else if c = '/' then some 63
  else none

/-- The bytes of the rest of a text, where `place` digits of the group are read and hold `bits`, and
`pads` padding characters stand behind them; `none` if the last group is not complete. -/
def decodeBase64From : Nat → Nat → Nat → List CodePoint → Option (List UInt8)
  | place, _, _, [] => if place = 0 then some [] else none
  | place, bits, pads, c :: cs =>
    if c = '=' then
      if 2 ≤ place && 4 ≤ place + pads + 1 then some []
      else decodeBase64From place bits (if 2 ≤ place then pads + 1 else pads) cs
    else
      match base64Value? c with
      | none => decodeBase64From place bits pads cs
      | some v =>
        if place = 0 then decodeBase64From 1 v 0 cs
        else if place = 1 then do
          return UInt8.ofNat (bits * 4 + v / 16) :: (← decodeBase64From 2 (v % 16) 0 cs)
        else if place = 2 then do
          return UInt8.ofNat (bits * 16 + v / 4) :: (← decodeBase64From 3 (v % 4) 0 cs)
        else do return UInt8.ofNat (bits * 64 + v) :: (← decodeBase64From 0 0 0 cs)

def decodeBase64 (cs : List CodePoint) : Option (List UInt8) :=
  decodeBase64From 0 0 0 cs

end Grove.Text
