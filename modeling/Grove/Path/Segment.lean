import Grove.Text.Digit
import Grove.Text.Quoted

/-!
# Segments

A segment is one step from a node to a child: a key into a level, or a position in a list. A path is
a list of segments. Written with points between its segments it is dotted text, which does not tell
a key of digits from a position, nor a point inside a key from one between two segments.
-/
namespace Grove

/-- One step down a tree. -/
inductive Segment where
  | key (name : Text)
  | index (position : Nat)
  deriving DecidableEq

namespace Segment

/-- A key as it is, a position in decimal digits. -/
def text : Segment → Text
  | .key name => name
  | .index position => Text.ofList (Text.decimal position)

def description : Segment → Text
  | .key name => "Key(name=" ++ Text.quoted name ++ ")"
  | .index position => "Index(position=" ++ Text.ofList (Text.decimal position) ++ ")"

def dotted (segments : List Segment) : Text :=
  Text.intercalate "." (segments.map text)

@[simp] theorem dotted_nil : dotted [] = "" := rfl

@[simp] theorem dotted_singleton (s : Segment) : dotted [s] = s.text := rfl

end Segment

end Grove
