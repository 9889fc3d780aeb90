import Grove.Proofs.Yaml.Word
import Grove.Yaml.Writer

/-!
# What is read of a written tree

The outline of a tree has each text as it is read back, and whether it stood without quotes. How a
tree is laid out tells its outline, and the outline alone tells the tokens, so that nothing behind
the tokens depends on columns.
-/
namespace Grove.Yaml

/-- A key as it is read back, with whether it stood in front of a colon on one line, and whether
without quotes. -/
structure KeyOutline where
  simple : Bool
  plain : Bool
  text : List CodePoint

/-- A tree as it is read back. -/
inductive Outline where
  | scalar (plain : Bool) (text : List CodePoint)
  | list (items : List Outline)
  | level (entries : List (KeyOutline × Outline))

namespace Outline

mutual

/-- The tokens of an outline. A list that is not indented further than the key in front of it is no
block of its own. -/
def tokens (flush : Bool) : Outline → List Token
  | .scalar plain text => [.scalar plain text]
  | .list [] => [.flowSequenceStart, .flowSequenceEnd]
  | .list (o :: os) =>
    (if flush then [] else [.sequenceStart]) ++ (.entry :: o.tokens false ++ itemsTokens os) ++
      (if flush then [] else [.blockEnd])
  | .level [] => [.flowMappingStart, .flowMappingEnd]
  | .level ((k, o) :: es) =>
    .mappingStart :: (.key :: .scalar k.plain k.text :: .value :: o.tokens k.simple ++
      entriesTokens es) ++ [.blockEnd]

def itemsTokens : List Outline → List Token
  | [] => []
  | o :: os => .entry :: o.tokens false ++ itemsTokens os

def entriesTokens : List (KeyOutline × Outline) → List Token
  | [] => []
  | (k, o) :: es => .key :: .scalar k.plain k.text :: .value ::
      o.tokens k.simple ++ entriesTokens es

end

end Outline

/-- Whether a list behind a mark or a colon is not indented further. -/
def Place.flush : Place → Bool
  | .key _ => true
  | _ => false

/-- A key as it is read back from the column of its level. -/
def keyOutline (step column : Nat) (k : Text) : KeyOutline :=
  if isSimpleKey k.toList then ⟨true, Style.ofText k.toList = .plain, reread ⟨0, false⟩ 0 k.toList⟩
  else ⟨false, Style.ofText k.toList = .plain, reread ⟨column + step, true⟩ (column + 2) k.toList⟩

mutual

def outline (step column : Nat) (place : Place) : Tree → Outline
  | .number x => .scalar true (numberChars x)
  | .boolean b => .scalar true (if b then Text.toList "true" else Text.toList "false")
  | .string s =>
    .scalar (Style.ofText s.toList = .plain)
      (reread ⟨column + step, true⟩ (place.scalarStart column).2 s.toList)
  | .list ts => .list (itemOutlines step (place.listStart step column).2 ts)
  | .level es => .level (entryOutlines step (place.levelStart step column).2 es)

def itemOutlines (step column : Nat) : List Tree → List Outline
  | [] => []
  | t :: ts => outline step column .mark t :: itemOutlines step column ts

def entryOutlines (step column : Nat) : List (Text × Tree) → List (KeyOutline × Outline)
  | [] => []
  | (k, t) :: es =>
    (keyOutline step column k, outline step column (keyChars step column k).2 t) ::
      entryOutlines step column es

end

def shortKey (k : Text) : Bool :=
  !isSimpleKey k.toList || (simpleKeyChars k).length ≤ 1024

mutual

def shortKeys : Tree → Bool
  | .list ts => shortKeysAll ts
  | .level es => shortKeysEntries es
  | _ => true

def shortKeysAll : List Tree → Bool
  | [] => true
  | t :: ts => shortKeys t && shortKeysAll ts

def shortKeysEntries : List (Text × Tree) → Bool
  | [] => true
  | (k, t) :: es => shortKey k && shortKeys t && shortKeysEntries es

end

end Grove.Yaml
