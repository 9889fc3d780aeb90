import Grove.Text.Digit
import Grove.Text.Printable

/-!
# Quoted text

A text between quotes, with escapes for whatever would not show: the quote itself, backslashes,
controls and unprintable characters. Single quotes are taken unless the text holds one and no double
quote.
-/
namespace Grove.Text

/-- The shortest numeric escape for a character: two, four or eight hexadecimal digits. -/
def numericEscape (c : CodePoint) : List CodePoint :=
  let n := c.toNat
  if n < 0x100 then '\\' :: 'x' :: paddedDigits 16 2 n
  else if n < 0x10000 then '\\' :: 'u' :: paddedDigits 16 4 n
  else '\\' :: 'U' :: paddedDigits 16 8 n

/-- One character inside quotes; `shows` says which characters from 128 on stand for themselves. -/
def escapeChar (shows : CodePoint → Bool) (quote c : CodePoint) : List CodePoint :=
  if c = quote || c = '\\' then ['\\', c]
  else if c = '\t' then ['\\', 't']
  else if c = '\n' then ['\\', 'n']
  else if c = '\r' then ['\\', 'r']
  else if c.toNat < 32 || c.toNat = 127 then numericEscape c
  else if c.toNat < 127 then [c]
  else if shows c then [c]
  else numericEscape c

def quoteFor (cs : List CodePoint) : CodePoint :=
  if cs.contains '\'' && !cs.contains '"' then '"' else '\''

/-- A text between quotes, where `shows` decides on the characters beyond ASCII. -/
def quotedWith (shows : CodePoint → Bool) (cs : List CodePoint) : List CodePoint :=
  let quote := quoteFor cs
  quote :: cs.flatMap (escapeChar shows quote) ++ [quote]

/-- A text between quotes, with printable characters left as they are. -/
def quoted (s : Text) : Text :=
  Text.ofList (quotedWith isPrintable s.toList)

end Grove.Text
