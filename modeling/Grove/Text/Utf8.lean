import Grove.Text.Basic

/-!
# UTF-8

Texts as bytes in UTF-8, and bytes as texts. A surrogate has no bytes, but for those that may stand
for bytes which are no text. A fault of the bytes names the bytes that it concerns: from the first
byte of a character up to, but not including, the first byte that cannot belong to it.
-/
namespace Grove.Text

/-- Surrogates that stand for no bytes: the place of the first one, the place behind those that
follow it, and the number of the first one. -/
structure SurrogateFault where
  first : Nat
  behind : Nat
  number : Nat
  deriving DecidableEq

/-- The bytes of a code point. A surrogate from U+DC80 to U+DCFF stands for a single byte if such
bytes are `escaped`. -/
def codePointBytes? (escaped : Bool) : CodePoint → Option (List UInt8)
  | .scalar c => some (String.utf8EncodeChar c)
  | .surrogate i =>
    if escaped && 0x480 ≤ i.val && i.val < 0x500 then some [UInt8.ofNat (i.val - 0x400)]
    else none

def encodeUtf8From (escaped : Bool) : Nat → List CodePoint → Except SurrogateFault (List UInt8)
  | _, [] => .ok []
  | i, c :: cs =>
    match codePointBytes? escaped c with
    | some bytes => (encodeUtf8From escaped (i + 1) cs).map (bytes ++ ·)
    | none => .error ⟨i, i + 1 + (cs.takeWhile CodePoint.isSurrogate).length, c.toNat⟩

def encodeUtf8 (escaped : Bool) (s : Text) : Except SurrogateFault (List UInt8) :=
  encodeUtf8From escaped 0 s.toList

/-- Why bytes are not UTF-8, with the position of the first byte concerned and of the one behind the
last. -/
inductive Utf8Fault where
  | invalidStart (position : Nat)
  | invalidContinuation (first behind : Nat)
  | unexpectedEnd (first behind : Nat)
  deriving DecidableEq

/-- What the first byte of a character calls for: how many bytes follow, and the range of the next
one. -/
def utf8Lead? (b : Nat) : Option (Nat × Nat × Nat) :=
  if 0xC2 ≤ b ∧ b ≤ 0xDF then some (1, 0x80, 0xBF)
  else if b = 0xE0 then some (2, 0xA0, 0xBF)
  else if b = 0xED then some (2, 0x80, 0x9F)
  else if 0xE1 ≤ b ∧ b ≤ 0xEF then some (2, 0x80, 0xBF)
  else if b = 0xF0 then some (3, 0x90, 0xBF)
  else if b = 0xF4 then some (3, 0x80, 0x8F)
  else if 0xF1 ≤ b ∧ b ≤ 0xF3 then some (3, 0x80, 0xBF)
  else none

/-- A character in progress: its first byte's position, the bits so far, how many bytes are due, and
the range of the next one. -/
structure Utf8Partial where
  first : Nat
  bits : Nat
  due : Nat
  low : Nat
  high : Nat

def decodeUtf8From : Option Utf8Partial → Nat → List UInt8 → Except Utf8Fault (List CodePoint)
  | none, _, [] => .ok []
  | some p, i, [] => .error (.unexpectedEnd p.first i)
  | none, i, byte :: bytes =>
    let b := byte.toNat
    if b < 0x80 then do return CodePoint.ofNat b :: (← decodeUtf8From none (i + 1) bytes)
    else
      match utf8Lead? b with
      | none => .error (.invalidStart i)
      | some (due, low, high) =>
        decodeUtf8From (some ⟨i, b % Nat.pow 2 (6 - due), due, low, high⟩) (i + 1) bytes
  | some p, i, byte :: bytes =>
    let b := byte.toNat
    if b < p.low || p.high < b then .error (.invalidContinuation p.first i)
    else
      let bits := p.bits * 64 + b % 64
      if p.due = 1 then do return CodePoint.ofNat bits :: (← decodeUtf8From none (i + 1) bytes)
      else decodeUtf8From (some ⟨p.first, bits, p.due - 1, 0x80, 0xBF⟩) (i + 1) bytes

def decodeUtf8 (bytes : List UInt8) : Except Utf8Fault (List CodePoint) :=
  decodeUtf8From none 0 bytes

end Grove.Text
