import Grove.Text.Digit

/-!
# Faults of a JSON text

A fault is a cause with the place where it was met. Places count characters; the line and the column
are counted from one, the position from zero.
-/
namespace Grove.Json

inductive Cause where
  | byteOrderMark
  | value
  | propertyName
  | colon
  | comma
  | extraData
  | controlCharacter
  | unterminated
  | badEscape
  | badUnicodeEscape
  deriving DecidableEq

def Cause.message : Cause → Text
  | .byteOrderMark => "Unexpected UTF-8 BOM (decode using utf-8-sig)"
  | .value => "Expecting value"
  | .propertyName => "Expecting property name enclosed in double quotes"
  | .colon => "Expecting ':' delimiter"
  | .comma => "Expecting ',' delimiter"
  | .extraData => "Extra data"
  | .controlCharacter => "Invalid control character at"
  | .unterminated => "Unterminated string starting at"
  | .badEscape => "Invalid \\escape"
  | .badUnicodeEscape => "Invalid \\uXXXX escape"

/-- A place in a text. -/
structure Place where
  line : Nat
  column : Nat
  position : Nat
  deriving DecidableEq

def Place.start : Place :=
  ⟨1, 1, 0⟩

/-- The place behind one more character; a line feed opens the next line. -/
def Place.after (p : Place) (c : CodePoint) : Place :=
  if c = '\n' then ⟨p.line + 1, 1, p.position + 1⟩ else ⟨p.line, p.column + 1, p.position + 1⟩

inductive Fault where
  | malformed (cause : Cause) (place : Place)
  | tooManyDigits (count : Nat)
  | tooDeep
  deriving DecidableEq

def Fault.message : Fault → Text
  | .malformed cause p =>
    let number (n : Nat) := Text.ofList (Text.decimal n)
    cause.message ++ ": line " ++ number p.line ++ " column " ++ number p.column ++ " (char " ++
      number p.position ++ ")"
  | .tooManyDigits count =>
    "Exceeds the limit (4300 digits) for integer string conversion: value has " ++
      Text.ofList (Text.decimal count) ++
      " digits; use sys.set_int_max_str_digits() to increase the limit"
  | .tooDeep => "maximum recursion depth exceeded"

end Grove.Json
