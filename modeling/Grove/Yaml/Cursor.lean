import Grove.Yaml.Char

/-!
# Cursors

A cursor is a place in a document: the text from there on, how many characters lie before it, and
its line and column. Byte order marks take no column.
-/
namespace Grove.Yaml

/-- A place in a document. -/
structure Cursor where
  rest : List CodePoint
  index : Nat
  line : Nat
  column : Nat

namespace Cursor

def start (cs : List CodePoint) : Cursor :=
  ⟨cs, 0, 0, 0⟩

def peek (c : Cursor) : Option CodePoint :=
  c.rest.head?

def peekAt (c : Cursor) (k : Nat) : Option CodePoint :=
  c.rest[k]?

def sees (c : Cursor) (x : CodePoint) : Bool :=
  c.peek = some x

/-- The cursor behind the next character. A carriage return ends the line only without a line
feed. -/
def advance (c : Cursor) : Cursor :=
  match c.rest with
  | [] => c
  | x :: xs =>
    if x = '\n' || x = '\x85' || x = '\u2028' || x = '\u2029' ||
      (x = '\r' && xs.head? != some (CodePoint.scalar '\n')) then
      ⟨xs, c.index + 1, c.line + 1, 0⟩
    else if x = '\uFEFF' then ⟨xs, c.index + 1, c.line, c.column⟩
    else ⟨xs, c.index + 1, c.line, c.column + 1⟩

def forward (c : Cursor) : Nat → Cursor
  | 0 => c
  | n + 1 => c.advance.forward n

/-- The characters up to the first one that `p` refuses, and the cursor there. -/
def span (c : Cursor) (p : CodePoint → Bool) : List CodePoint × Cursor :=
  let taken := c.rest.takeWhile p
  (taken, c.forward taken.length)

def skip (c : Cursor) (p : CodePoint → Bool) : Cursor :=
  (c.span p).2

def skipSpaces (c : Cursor) : Cursor :=
  c.skip (· = ' ')

def skipLine (c : Cursor) : Cursor :=
  c.skip fun x => !isBreak x

/-- The end of a line: the character that it counts as, and the cursor on the next line. All ends
count as a line feed but the two separators of Unicode, which stay themselves. -/
def lineBreak? (c : Cursor) : Option (CodePoint × Cursor) :=
  match c.rest with
  | '\r' :: '\n' :: _ => some ('\n', c.forward 2)
  | x :: _ =>
    if x = '\u2028' || x = '\u2029' then some (x, c.advance)
    else if isBreak x then some ('\n', c.advance)
    else none
  | [] => none

/-- Whether three hyphens or three points stand here as a word of their own. -/
def atMarker (c : Cursor) (x : CodePoint) : Bool :=
  match c.rest with
  | a :: b :: d :: rest => a = x && b = x && d = x && endsWord rest.head?
  | _ => false

/-- Whether a marker of the start or the end of a document stands here. -/
def atDocumentMarker (c : Cursor) : Bool :=
  c.atMarker '-' || c.atMarker '.'

end Cursor

end Grove.Yaml
