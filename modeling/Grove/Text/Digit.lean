import Grove.Text.Basic

/-!
# Digits

The decimal digits of every script, and the digits of a natural number in a given base. Reading the
decimal digits of a number gives the number back.
-/
namespace Grove.Text

/-- The code points of the digit zero of each script; nine more digits follow each. -/
def zeroDigits : List Nat :=
  [0x30, 0x660, 0x6F0, 0x7C0, 0x966, 0x9E6, 0xA66, 0xAE6, 0xB66, 0xBE6, 0xC66, 0xCE6, 0xD66, 0xDE6,
    0xE50, 0xED0, 0xF20, 0x1040, 0x1090, 0x17E0, 0x1810, 0x1946, 0x19D0, 0x1A80, 0x1A90, 0x1B50,
    0x1BB0, 0x1C40, 0x1C50, 0xA620, 0xA8D0, 0xA900, 0xA9D0, 0xA9F0, 0xAA50, 0xABF0, 0xFF10, 0x104A0,
    0x10D30, 0x11066, 0x110F0, 0x11136, 0x111D0, 0x112F0, 0x11450, 0x114D0,
    0x11650, 0x116C0, 0x11730, 0x118E0, 0x11950, 0x11C50, 0x11D50, 0x11DA0, 0x16A60, 0x16AC0,
    0x16B50, 0x1D7CE, 0x1D7D8, 0x1D7E2, 0x1D7EC, 0x1D7F6, 0x1E140, 0x1E2F0, 0x1E950, 0x1FBF0]

/-- The value of a decimal digit of any script. -/
def digitValue? (c : CodePoint) : Option Nat :=
  (zeroDigits.find? fun start => start ≤ c.toNat && c.toNat ≤ start + 9).map (c.toNat - ·)

def isDigit (c : CodePoint) : Bool :=
  '0'.toNat ≤ c.toNat && c.toNat ≤ '9'.toNat

/-- The value of a hexadecimal digit in either case. -/
def hexValue? (c : CodePoint) : Option Nat :=
  let n := c.toNat
  if 48 ≤ n && n ≤ 57 then some (n - 48)
  else if 97 ≤ n && n ≤ 102 then some (n - 87)
  else if 65 ≤ n && n ≤ 70 then some (n - 55)
  else none

def hexNumber? (cs : List CodePoint) : Option Nat :=
  cs.foldlM (fun acc c => (hexValue? c).map (acc * 16 + ·)) 0

def digits (base n : Nat) : List CodePoint :=
  (Nat.toDigits base n).map .scalar

def paddedDigits (base width n : Nat) : List CodePoint :=
  let ds := digits base n
  List.replicate (width - ds.length) (CodePoint.scalar '0') ++ ds

def decimal (n : Nat) : List CodePoint :=
  digits 10 n

def decimalValue (cs : List CodePoint) : Nat :=
  cs.foldl (fun n c => 10 * n + (c.toNat - '0'.toNat)) 0

def decimalLength (n : Nat) : Nat :=
  (decimal n).length

def signedDecimal (n : Int) : List CodePoint :=
  if n < 0 then '-' :: decimal n.natAbs else decimal n.natAbs

theorem decimalValue_decimal (n : Nat) : decimalValue (decimal n) = n := by
  rw [decimalValue, decimal, digits, List.foldl_map]
  exact Nat.ofDigitChars_toDigits (by decide) (by decide)

theorem digitValue?_zero : digitValue? '0' = some 0 := by decide

end Grove.Text
