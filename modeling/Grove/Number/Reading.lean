import Grove.Number.Binary64
import Grove.Text.Blank

/-!
# Reading numbers

Whole numbers in a base and floating-point numbers, both with blanks around them, an optional sign
and the decimal digits of any script. A decimal whole number has at most 4300 digits.
-/
namespace Grove

/-- The most decimal digits that a whole number is read from or written with. -/
def maxDigits : Nat := 4300

/-- The plain form of a digit of any script; other characters stay. -/
def plainDigit (c : CodePoint) : CodePoint :=
  match Text.digitValue? c with
  | some d => Nat.digitChar d
  | none => c

def takeSign : List CodePoint → Bool × List CodePoint
  | '-' :: cs => (true, cs)
  | '+' :: cs => (false, cs)
  | cs => (false, cs)

/-- The value of a digit below `base`, letters in either case. -/
def digitIn? (base : Nat) (c : CodePoint) : Option Nat :=
  (Text.hexValue? c).filter (· < base)

def natInBase? (base : Nat) (cs : List CodePoint) : Option Nat :=
  if cs.isEmpty then none
  else cs.foldlM (fun acc c => (digitIn? base c).map (acc * base + ·)) 0

/-- Drops the marker of base 2, 8 or 16 (`0b`, `0o`, `0x`) in front of the digits. -/
def dropBaseMark (base : Nat) (cs : List CodePoint) : List CodePoint :=
  match cs with
  | '0' :: c :: rest =>
    if (base = 2 ∧ (c = 'b' ∨ c = 'B')) ∨ (base = 8 ∧ (c = 'o' ∨ c = 'O')) ∨
        (base = 16 ∧ (c = 'x' ∨ c = 'X')) then rest
    else cs
  | _ => cs

def readInt? (base : Nat) (cs : List CodePoint) : Option Int :=
  let (negative, body) := takeSign ((Text.trim cs).map plainDigit)
  let body := dropBaseMark base body
  if base = 10 ∧ maxDigits < body.length then none
  else (natInBase? base body).map fun n => if negative then -(n : Int) else n

def lowerAscii (cs : List CodePoint) : List CodePoint :=
  cs.map CodePoint.toLower

def spanDigits (cs : List CodePoint) : List CodePoint × List CodePoint :=
  (cs.takeWhile Text.isDigit, cs.dropWhile Text.isDigit)

/-- The exponent at the end of a number: nothing, or `e` with an optional sign and digits. -/
def readExponent? : List CodePoint → Option Int
  | [] => some 0
  | c :: cs =>
    if c = 'e' || c = 'E' then
      let (negative, body) := takeSign cs
      match spanDigits body with
      | ([], _) => none
      | (ds, []) => some (if negative then -(Text.decimalValue ds : Int) else Text.decimalValue ds)
      | _ => none
    else none

/-- A magnitude in decimal notation: digits, a point among them if any, and an exponent. -/
def readMagnitude? (negative : Bool) (cs : List CodePoint) : Option Binary64 :=
  let (whole, rest) := spanDigits cs
  let (fraction, rest) :=
    match rest with
    | '.' :: more => spanDigits more
    | _ => ([], rest)
  if whole.isEmpty && fraction.isEmpty then none
  else
    (readExponent? rest).map fun k =>
      Binary64.ofDecimal negative (Text.decimalValue (whole ++ fraction)) (k - fraction.length)

/-- A floating-point number: a decimal magnitude, an infinity or NaN, with an optional sign. -/
def readFloat? (cs : List CodePoint) : Option Binary64 :=
  let (negative, body) := takeSign ((Text.trim cs).map plainDigit)
  let word := lowerAscii body
  if word = [CodePoint.scalar 'i', 'n', 'f'] ||
    word = [CodePoint.scalar 'i', 'n', 'f', 'i', 'n', 'i', 't', 'y'] then
    some (.infinite negative)
  else if word = [CodePoint.scalar 'n', 'a', 'n'] then some .nan
  else readMagnitude? negative body

end Grove
