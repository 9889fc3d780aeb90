import Grove.Proofs.Yaml.Outline

/-!
# Places in a written document

What a tree is written behind tells the column in front of it, the blocks that are open and whether
a key may begin; what is written behind it tells where the blocks in it end. Both are kept up from a
container to its items and entries.
-/
namespace Grove.Yaml

/-! ## Places -/

/-- A place in front of a tree: the column of the lines around it, the column in front of the tree,
the open blocks, and whether a key may begin. -/
def At (place : Place) (column start : Nat) (indents : List Nat) (allowed : Bool) : Prop :=
  match place with
  | .root => column = 0 ∧ start = 0 ∧ indents = [] ∧ allowed = true
  | .mark => indents.head? = some column ∧ start = column + 1 ∧ allowed = true
  | .key last => indents.head? = some column ∧ start = last + 1 ∧ column ≤ last

/-- The next line belongs to nothing that is indented further than a column. -/
def EndsBlock (column k : Nat) (more : List CodePoint) : Prop :=
  k ≤ column ∧ Cutting.NoMarker (List.replicate k (CodePoint.scalar ' ') ++ more)

/-- What follows a tree at a place: the end of the document, with its mark behind plain scalars, or
the next line. -/
def Follows (place : Place) (t : Tree) (column k : Nat) (more : List CodePoint) : Prop :=
  match place with
  | .root => k = 0 ∧
      if isWrittenPlain t then ∀ c : Cursor, c.rest = more → c.atDocumentMarker = true
      else more = []
  | _ => EndsBlock column k more

section

variable {place : Place} {column start k : Nat} {indents : List Nat} {allowed : Bool} {t : Tree}
  {more : List CodePoint}

theorem At.inside (h : At place column start indents allowed) : Cutting.Inside indents start := by
  intro i hi
  cases place with
  | root =>
    obtain ⟨-, -, rfl, -⟩ := h
    cases hi
  | mark =>
    obtain ⟨hhead, rfl, -⟩ := h
    rw [hhead] at hi
    cases hi
    omega
  | key last =>
    obtain ⟨hhead, rfl, hle⟩ := h
    rw [hhead] at hi
    cases hi
    omega

theorem At.le_column (h : At place column start indents allowed) :
    ∀ i, indents.head? = some i → i ≤ column := by
  intro i hi
  cases place with
  | root =>
    obtain ⟨-, -, rfl, -⟩ := h
    cases hi
  | mark | key =>
    obtain ⟨hhead, -⟩ := h
    rw [hhead] at hi
    cases hi
    exact Nat.le_refl _

theorem noMarker_nil : Cutting.NoMarker [] := by
  intro c hc
  exact Cursor.atDocumentMarker_eq_false fun x hx => by rw [hc] at hx; cases hx

theorem Follows.endsBlock (h : Follows place t column k more)
    (ht : isWrittenPlain t = false) {inner : Nat} (hinner : column ≤ inner) :
    EndsBlock inner k more := by
  cases place with
  | root =>
    obtain ⟨rfl, hmore⟩ := h
    rw [ht, if_neg Bool.false_ne_true] at hmore
    subst hmore
    exact ⟨Nat.zero_le _, noMarker_nil⟩
  | mark | key => exact ⟨Nat.le_trans h.1 hinner, h.2⟩

theorem Follows.plainEnds (h : Follows place t column k more) (ht : isWrittenPlain t = true)
    (hat : At place column start indents allowed) : Cutting.PlainEnds indents k more := by
  cases place with
  | root =>
    obtain ⟨rfl, hmore⟩ := h
    rw [ht, if_pos rfl] at hmore
    exact Or.inr ⟨hat.2.2.1, rfl, hmore⟩
  | mark | key => exact Or.inl ⟨column, hat.1, h.1, h.2⟩

end

/-! ## In front of a tree -/

namespace Cutting

section

variable {s : Cutting} {place : Place} {column start k step : Nat} {done : List Token}
  {indents : List Nat}
  {allowed : Bool} {rest more : List CodePoint}

/-- Over the space in front of a scalar or of brackets. -/
theorem Stands.scalarStart (hat : At place column start indents allowed)
    (hs : Stands s ((place.scalarStart column).1 ++ rest) start done indents allowed)
    (hrest : StartsToken rest) :
    Leads s true fun s' =>
      ∃ first, Inside indents first ∧ Stands s' rest first done indents allowed := by
  have hin := hat.inside
  cases place with
  | root => exact .refl ⟨start, hin, hs⟩
  | mark | key =>
    have hspace : Leads s true (Stands · rest (start + 1) done indents allowed) :=
      Stands.spaces (k := 1) hs hrest
    exact hspace.imp fun s' hs' => ⟨start + 1, fun i hi => Nat.lt_succ_of_lt (hin i hi), hs'⟩

/-- What is written in front of the first item or entry: spaces, or the end of a line and the
indentation. -/
def Opens (chars : List CodePoint) (start inner : Nat) (allowed : Bool) : Prop :=
  (∃ n, chars = List.replicate n (CodePoint.scalar ' ') ∧ inner = start + n ∧ allowed = true) ∨
    chars = lineAt inner

/-- A block is open at the column of a container's lines, or opens there. -/
structure Fresh (indents : List Nat) (inner : Nat) (flush : Bool) : Prop where
  opens : opens indents inner = !flush
  inside : ∀ i, indents.head? = some i → i ≤ inner
  head : flush = true → indents.head? = some inner

theorem At.listStart (hstep : 0 < step) (hat : At place column start indents allowed) :
    Opens (place.listStart step column).1 start (place.listStart step column).2 allowed ∧
      Fresh indents (place.listStart step column).2 place.flush ∧
      column ≤ (place.listStart step column).2 := by
  cases place with
  | root =>
    obtain ⟨rfl, rfl, rfl, rfl⟩ := hat
    exact ⟨Or.inl ⟨0, rfl, rfl, rfl⟩, ⟨rfl, nofun, nofun⟩, Nat.le_refl _⟩
  | mark =>
    have hle := hat.le_column
    obtain ⟨hhead, rfl, rfl⟩ := hat
    refine ⟨Or.inl ⟨step - 1, rfl, ?_, rfl⟩,
      ⟨?_, fun i hi => Nat.le_trans (hle i hi) (Nat.le_add_right _ _), nofun⟩, Nat.le_add_right _ _⟩
    · show column + step = _
      omega
    · cases indents with
      | nil => rfl
      | cons i is =>
        cases hhead
        exact decide_eq_true (Nat.lt_add_of_pos_right hstep)
  | key last =>
    have hle := hat.le_column
    obtain ⟨hhead, -, -⟩ := hat
    refine ⟨Or.inr rfl, ⟨?_, hle, fun _ => hhead⟩, Nat.le_refl _⟩
    cases indents with
    | nil => cases hhead
    | cons i is =>
      cases hhead
      exact decide_eq_false (Nat.lt_irrefl column)

theorem At.levelStart (hstep : 0 < step) (hat : At place column start indents allowed) :
    Opens (place.levelStart step column).1 start (place.levelStart step column).2 allowed ∧
      Fresh indents (place.levelStart step column).2 false ∧
      column ≤ (place.levelStart step column).2 := by
  have hle := hat.le_column
  cases place with
  | root | mark => exact At.listStart hstep hat
  | key last =>
    obtain ⟨hhead, -, -⟩ := hat
    refine ⟨Or.inr rfl, ⟨?_, fun i hi => Nat.le_trans (hle i hi) (Nat.le_add_right _ _), nofun⟩,
      Nat.le_add_right _ _⟩
    cases indents with
    | nil => rfl
    | cons i is =>
      cases hhead
      exact decide_eq_true (Nat.lt_add_of_pos_right hstep)

/-- To the first item or entry. -/
theorem Stands.opening {chars : List CodePoint} {inner : Nat} (h : Opens chars start inner allowed)
    (hs : Stands s (chars ++ more) start done indents allowed) (hmore : StartsToken more) :
    Leads s true (Stands · more inner done indents true) := by
  rcases h with ⟨n, rfl, rfl, rfl⟩ | rfl
  · exact hs.spaces hmore
  · exact hs.ends.line hmore

/-- The columns of the open blocks inside a container. -/
def within (indents : List Nat) (inner : Nat) : List Nat :=
  if opens indents inner then inner :: indents else indents

theorem Fresh.head_within {inner : Nat} {flush : Bool} (h : Fresh indents inner flush) :
    (within indents inner).head? = some inner := by
  rw [within, h.opens]
  cases flush with
  | false => rfl
  | true => exact h.head rfl

/-- Behind the last item or entry the block ends, if one was opened. -/
theorem Stands.closing {inner : Nat} {flush : Bool} (h : Fresh indents inner flush)
    (hs : Stands s more k done (within indents inner) true) (hmore : StartsToken more)
    (hk : flush = false → k < inner ∨ more = []) :
    Leads s true (Stands · more k (done ++ if flush then [] else [.blockEnd]) indents true) := by
  rw [within, h.opens] at hs
  cases flush with
  | false => exact hs.close hmore (hk rfl)
  | true =>
    rw [if_pos rfl, List.append_nil]
    exact .refl hs

end

end Cutting

/-! ## Where lines go on -/

open Cutting

theorem noMarker_spaces {rest : List CodePoint} (h : NoMarker rest) (n : Nat) :
    NoMarker (List.replicate n (CodePoint.scalar ' ') ++ rest) := by
  cases n with
  | zero => exact h
  | succ n =>
    intro c hc
    refine Cursor.atDocumentMarker_eq_false fun x hx => ?_
    rw [hc] at hx
    cases hx
    decide

theorem noMarker_cons {x : CodePoint} {rest : List CodePoint}
    (h : x = '-' ∨ x = '.' → rest.head? ≠ some x) :
    NoMarker (x :: rest) := by
  intro c hc
  have hdash : c.atMarker '-' = false :=
    Cursor.atMarker_eq_false hc (by rintro rfl; exact h (Or.inl rfl))
  have hpoint : c.atMarker '.' = false :=
    Cursor.atMarker_eq_false hc (by rintro rfl; exact h (Or.inr rfl))
  rw [Cursor.atDocumentMarker, hdash, hpoint]
  rfl

theorem noMarker_presents {f : Folding} {chars text rest : List CodePoint} {plain : Bool}
    (h : Presents f chars plain text) (hrest : rest.head? ≠ some (CodePoint.scalar '-') ∧
      rest.head? ≠ some (CodePoint.scalar '.')) : NoMarker (chars ++ rest) := by
  cases h with
  | plain column h hne =>
    intro c hc
    have hdash : c.atMarker '-' = false :=
      atMarker_foldPlain (x := '-') (by decide) hrest.1 h.dashes hc
    have hpoint : c.atMarker '.' = false :=
      atMarker_foldPlain (x := '.') (by decide) hrest.2 h.points hc
    rw [Cursor.atDocumentMarker, hdash, hpoint]
    rfl
  | single | double => exact noMarker_cons (fun hx => absurd hx (by decide))

/-- The column of the next of several items or entries, or of what follows them. -/
def nextColumn {α : Type} (column k : Nat) : List α → Nat
  | [] => k
  | _ :: _ => column

def itemsText (step column k : Nat) (more : List CodePoint) : List Tree → List CodePoint
  | [] => more
  | t :: ts => ↑ '-' ::
      (treeChars step column .mark t ++ (itemsChars step column ts ++ (lineAt k ++ more)))

def entriesText (step column k : Nat) (more : List CodePoint) : List (Text × Tree) → List CodePoint
  | [] => more
  | (name, t) :: es => (keyChars step column name).1 ++
      (treeChars step column (keyChars step column name).2 t ++
        (entriesChars step column es ++ (lineAt k ++ more)))

section

variable {step column k : Nat} {more : List CodePoint}

theorem itemsChars_line (ts : List Tree) : itemsChars step column ts ++ (lineAt k ++ more) =
    lineAt (nextColumn column k ts) ++ itemsText step column k more ts := by
  cases ts with
  | nil => rfl
  | cons t ts => simp [itemsChars, itemsText, nextColumn]

theorem entriesChars_line (es : List (Text × Tree)) :
    entriesChars step column es ++ (lineAt k ++ more) =
    lineAt (nextColumn column k es) ++ entriesText step column k more es := by
  cases es with
  | nil => rfl
  | cons e es => simp [entriesChars, entriesText, nextColumn]

theorem treeChars_list (place : Place) (t : Tree) (ts : List Tree) :
    treeChars step column place (.list (t :: ts)) ++ (lineAt k ++ more) =
      (place.listStart step column).1 ++
      itemsText step (place.listStart step column).2 k more (t :: ts) := by
  simp [treeChars, itemsText]

theorem treeChars_level (place : Place) (e : Text × Tree) (es : List (Text × Tree)) :
    treeChars step column place (.level (e :: es)) ++ (lineAt k ++ more) =
      (place.levelStart step column).1 ++
      entriesText step (place.levelStart step column).2 k more (e :: es) := by
  simp [treeChars, entriesText]

/-- What stands behind a mark or a colon is set off. -/
theorem endsWord_treeChars (hstep : 1 < step) {place : Place}
    (hplace : place = .mark ∨ ∃ last, place = .key last) (t : Tree) (rest : List CodePoint) :
    endsWord (treeChars step column place t ++ rest).head? = true := by
  have hspaces (cs : List CodePoint) :
      endsWord (List.replicate (step - 1) (CodePoint.scalar ' ') ++ cs).head? = true := by
    obtain ⟨n, hn⟩ : ∃ n, step - 1 = n + 1 := ⟨step - 2, by omega⟩
    rw [hn]
    rfl
  rcases hplace with rfl | ⟨last, rfl⟩
  · cases t with
    | number | string => rfl
    | boolean b => cases b <;> rfl
    | list ts =>
      cases ts with
      | nil => rfl
      | cons t ts => simp only [treeChars, Place.listStart, List.append_assoc, hspaces]
    | level es =>
      cases es with
      | nil => rfl
      | cons e es => simp only [treeChars, Place.levelStart, List.append_assoc, hspaces]
  · cases t with
    | number | string => rfl
    | boolean b => cases b <;> rfl
    | list ts => cases ts <;> rfl
    | level es => cases es <;> rfl

end

end Grove.Yaml
