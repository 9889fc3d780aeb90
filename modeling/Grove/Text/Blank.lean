import Grove.Text.Basic

/-!
# Blanks and lines

White space in the wide sense, which covers the separators of Unicode, and the cutting of a text at
its line ends or at a given character. Splitting and joining at one character undo each other.
-/
namespace Grove.Text

/-- White space of any kind: controls that move the cursor, the four information separators, and the
space characters of Unicode. -/
def isBlank (c : CodePoint) : Bool :=
  let n := c.toNat
  (9 ≤ n && n ≤ 13) || (28 ≤ n && n ≤ 32) || n = 0x85 || n = 0xA0 || n = 0x1680 ||
    (0x2000 ≤ n && n ≤ 0x200A) || n = 0x2028 || n = 0x2029 || n = 0x202F || n = 0x205F || n = 0x3000

def isLineEnd (c : CodePoint) : Bool :=
  let n := c.toNat
  (10 ≤ n && n ≤ 13) || (28 ≤ n && n ≤ 30) || n = 0x85 || n = 0x2028 || n = 0x2029

def trimStart (cs : List CodePoint) : List CodePoint :=
  cs.dropWhile isBlank

def trim (cs : List CodePoint) : List CodePoint :=
  (trimStart (trimStart cs).reverse).reverse

/-- The parts between the occurrences of `sep`; there is always at least one. -/
def splitOn {α : Type} [DecidableEq α] (sep : α) : List α → List (List α)
  | [] => [[]]
  | c :: cs =>
    if c = sep then [] :: splitOn sep cs
    else
      match splitOn sep cs with
      | [] => [[c]]
      | part :: parts => (c :: part) :: parts

/-- The parts with `sep` between each two neighbours. -/
def joinWith (sep : CodePoint) : List (List CodePoint) → List CodePoint
  | [] => []
  | [part] => part
  | part :: parts => part ++ sep :: joinWith sep parts

/-- The lines of a text without their ends; a carriage return and the line feed after it are one
end, and a text that closes with an end has no further line. `line` is the line in progress,
reversed. -/
def linesFrom : List CodePoint → List CodePoint → List (List CodePoint)
  | [], line => if line.isEmpty then [] else [line.reverse]
  | '\r' :: '\n' :: cs, line => line.reverse :: linesFrom cs []
  | c :: cs, line =>
    if isLineEnd c then line.reverse :: linesFrom cs [] else linesFrom cs (c :: line)

def lines (cs : List CodePoint) : List (List CodePoint) :=
  linesFrom cs []

theorem splitOn_ne_nil {α : Type} [DecidableEq α] (sep : α) (cs : List α) :
    splitOn sep cs ≠ [] := by
  cases cs with
  | nil => simp [splitOn]
  | cons c cs =>
    simp only [splitOn]
    split
    · simp
    · split <;> simp

theorem joinWith_splitOn (sep : CodePoint) (cs : List CodePoint) :
    joinWith sep (splitOn sep cs) = cs := by
  induction cs with
  | nil => rfl
  | cons c cs ih =>
    have hne := splitOn_ne_nil sep cs
    simp only [splitOn]
    split
    · next h =>
      cases hs : splitOn sep cs with
      | nil => exact absurd hs hne
      | cons p ps => rw [hs] at ih; simp [joinWith, ih, h]
    · cases hs : splitOn sep cs with
      | nil => exact absurd hs hne
      | cons p ps =>
        rw [hs] at ih
        cases ps with
        | nil => simpa [joinWith] using ih
        | cons q qs => simpa [joinWith] using ih

theorem splitOn_of_notMem {α : Type} [DecidableEq α] {sep : α} {cs : List α} (h : sep ∉ cs) :
    splitOn sep cs = [cs] := by
  induction cs with
  | nil => rfl
  | cons c cs ih =>
    simp only [List.mem_cons, not_or] at h
    simp [splitOn, ih h.2, Ne.symm h.1]

end Grove.Text
