import Grove.Text.Digit

/-!
# Characters of YAML

The characters that a document may hold, those that end a line, and those that mean something where
a token may start. The end of the text counts as a blank wherever a blank may close a token.
-/
namespace Grove.Yaml

def isAllowed (c : CodePoint) : Bool :=
  let n := c.toNat
  n = 9 || n = 10 || n = 13 || (0x20 ≤ n && n ≤ 0x7E) || n = 0x85 || (0xA0 ≤ n && n ≤ 0xD7FF) ||
    (0xE000 ≤ n && n ≤ 0xFFFD) || 0x10000 ≤ n

def isBreak (c : CodePoint) : Bool :=
  c = '\n' || c = '\r' || c = '\x85' || c = '\u2028' || c = '\u2029'

/-- A space, a tab or the end of a line. -/
def isBlank (c : CodePoint) : Bool :=
  c = ' ' || c = '\t' || isBreak c

/-- A blank or the end of the text. -/
def endsWord : Option CodePoint → Bool
  | none => true
  | some c => isBlank c

/-- The end of a line or of the text. -/
def endsLine : Option CodePoint → Bool
  | none => true
  | some c => isBreak c

/-- A space, or the end of a line or of the text; a tab does not count. -/
def endsField : Option CodePoint → Bool
  | none => true
  | some c => c = ' ' || isBreak c

/-- A letter, a digit, a hyphen or an underscore: what names are made of. -/
def isNameChar (c : CodePoint) : Bool :=
  Text.isDigit c || ('a' ≤ c && c ≤ 'z') || ('A' ≤ c && c ≤ 'Z') || c = '-' || c = '_'

/-- A character of a tag, escapes included. -/
def isTagChar (c : CodePoint) : Bool :=
  isNameChar c || (Text.toList ";/?:@&=+$,.!~*'()[]%").contains c

/-- A character that opens or closes something, or is kept for later use, at the start of a
token. -/
def isIndicator (c : CodePoint) : Bool :=
  (Text.toList "-?:,[]\x7b\x7d#&*!|>'\"%@`").contains c

/-- A character that ends plain text between the brackets of a flow collection. -/
def isFlowEnd (c : CodePoint) : Bool :=
  (Text.toList ",?[]\x7b\x7d").contains c

end Grove.Yaml
