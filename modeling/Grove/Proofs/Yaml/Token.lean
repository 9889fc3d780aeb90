import Mathlib.Data.List.Basic
import Grove.Proofs.Yaml.Scalar
import Grove.Yaml.Token

/-!
# Cutting a document into tokens

A state of cutting is told by the text that is left, the column, the tokens so far, the open blocks,
and whether a key may begin. Each piece of a written document leads from one such state to another;
a slot that is never filled contributes no token, and a place where a key may have begun is
forgotten on the next line.
-/
namespace Grove.Yaml

namespace Cutting

/-! ## Tokens so far -/

def itemTokens (fillings : Array Filling) : Item → List Token
  | .token t => [t]
  | .slot n =>
    match fillings[n]? with
    | some .key => [.key]
    | some .mappingAndKey => [.mappingStart, .key]
    | _ => []

theorem tokens_eq (s : Cutting) : s.tokens = s.items.reverse.flatMap (itemTokens s.fillings) :=
  rfl

/-- The slots are numbered. -/
def Slotted (s : Cutting) : Prop :=
  ∀ n, .slot n ∈ s.items → n < s.fillings.size

theorem tokens_push (s : Cutting) (t : Token) : (s.push t).tokens = s.tokens ++ [t] := by
  simp [tokens_eq, push, itemTokens]

theorem Slotted.push {s : Cutting} (h : s.Slotted) (t : Token) : (s.push t).Slotted := by
  intro n hn
  rcases List.mem_cons.mp hn with hn | hn
  · cases hn
  · exact h n hn

/-- A slot that is left behind the items, and what it is filled with. -/
theorem flatMap_slot {items : List Item} {fillings : Array Filling}
    (h : ∀ n, .slot n ∈ items → n < fillings.size) (filling : Filling) :
    (Item.slot fillings.size :: items).reverse.flatMap (itemTokens (fillings.push filling)) =
      items.reverse.flatMap (itemTokens fillings) ++ itemTokens #[filling] (.slot 0) := by
  have hsame : items.reverse.flatMap (itemTokens (fillings.push filling)) =
      items.reverse.flatMap (itemTokens fillings) := by
    refine List.flatMap_congr fun item hitem => ?_
    cases item with
    | token t => rfl
    | slot n =>
      have hlt := h n (List.mem_reverse.mp hitem)
      simp only [itemTokens, Array.getElem?_push_lt hlt, Array.getElem?_eq_getElem hlt]
  rw [List.reverse_cons, List.flatMap_append, hsame]
  simp [itemTokens]

/-! ## States -/

/-- No key has to begin where one may have begun, and all such places are on earlier lines. -/
def Stale (s : Cutting) : Prop :=
  ∀ e ∈ s.possible, e.2.required = false ∧ e.2.line < s.cursor.line

/-- What a state is in, outside flow collections: the text that is left, the column, the tokens so
far, the columns of the open blocks, and whether a key may begin. -/
structure Stands (s : Cutting) (rest : List CodePoint) (column : Nat) (done : List Token)
    (indents : List Nat) (allowed : Bool) : Prop where
  rest : s.cursor.rest = rest
  column : s.cursor.column = column
  tokens : s.tokens = done
  indents : s.indents = indents
  keyAllowed : s.keyAllowed = allowed
  depth : s.depth = 0
  slotted : s.Slotted
  stale : s.Stale

/-- What a state behind a value is in: the text that is left, the tokens so far and the columns of
the open blocks. A key may have begun on the same line, but none had to. -/
structure Ends (s : Cutting) (rest : List CodePoint) (done : List Token)
    (indents : List Nat) : Prop where
  rest : s.cursor.rest = rest
  tokens : s.tokens = done
  indents : s.indents = indents
  depth : s.depth = 0
  slotted : s.Slotted
  settled : ∀ e ∈ s.possible, e.2.required = false ∧ e.2.line ≤ s.cursor.line

/-- The run goes on, if it does not fail, from a state with the property, and has taken no more
steps than there were characters on the way. -/
def Leads (s : Cutting) (ok : Bool) (p : Cutting → Prop) : Prop :=
  if ok then ∃ s' n, p s' ∧ n + s'.cursor.rest.length ≤ s.cursor.rest.length ∧
    ∀ fuel, s.run (fuel + n) = s'.run fuel
  else ∃ n ≤ s.cursor.rest.length, ∀ fuel, s.run (fuel + n) = none

namespace Leads

variable {s s' : Cutting} {ok ok' : Bool} {p q : Cutting → Prop}

theorem of_same (h : p s') (hrest : s'.cursor.rest.length ≤ s.cursor.rest.length)
    (hrun : ∀ fuel, s.run fuel = s'.run fuel) : Leads s true p :=
  ⟨s', 0, h, by omega, hrun⟩

theorem of_step (h : p s') (hrest : s'.cursor.rest.length < s.cursor.rest.length)
    (hrun : ∀ fuel, s.run (fuel + 1) = s'.run fuel) : Leads s true p :=
  ⟨s', 1, h, by omega, hrun⟩

theorem refl (h : p s) : Leads s true p :=
  of_same h (Nat.le_refl _) fun _ => rfl

theorem trans (h : Leads s ok p) (h' : ∀ s', p s' → Leads s' ok' q) : Leads s (ok && ok') q := by
  cases ok with
  | false => exact h
  | true =>
    obtain ⟨t, n, ht, hn, hrun⟩ := h
    rw [Bool.true_and]
    cases ok' with
    | false =>
      obtain ⟨m, hm, hfail⟩ := h' t ht
      refine ⟨m + n, by omega, fun fuel => ?_⟩
      rw [← Nat.add_assoc, hrun, hfail]
    | true =>
      obtain ⟨u, m, hu, hm, hgo⟩ := h' t ht
      refine ⟨u, m + n, hu, by omega, fun fuel => ?_⟩
      rw [← Nat.add_assoc, hrun, hgo]

theorem andThen (h : Leads s true p) (h' : ∀ s', p s' → Leads s' ok q) : Leads s ok q := by
  have hboth := h.trans h'
  rwa [Bool.true_and] at hboth

theorem imp (h : Leads s ok p) (hpq : ∀ s', p s' → q s') : Leads s ok q := by
  have hboth := h.trans fun s' hs' => refl (hpq s' hs')
  rwa [Bool.and_true] at hboth

end Leads

/-! ## Between tokens -/

/-- A token starts here, or the text ends. -/
def StartsToken (rest : List CodePoint) : Prop :=
  ∀ x, rest.head? = some x → x ≠ ' ' ∧ x ≠ '#' ∧ isBreak x = false

theorem startsToken_cons {x : CodePoint} (h : x ≠ ' ' ∧ x ≠ '#' ∧ isBreak x = false)
    (rest : List CodePoint) :
    StartsToken (x :: rest) := by
  intro y hy
  cases hy
  exact h

section

variable {s s' : Cutting} {rest more : List CodePoint} {k column : Nat} {done : List Token}
  {indents : List Nat}
  {allowed : Bool}

theorem skipSpaces_token {c : Cursor}
    (hc : c.rest = List.replicate k (CodePoint.scalar ' ') ++ more) (h : StartsToken more) :
    c.skipSpaces = c.forward k ∧ (c.forward k).sees '#' = false ∧
      (c.forward k).lineBreak? = none := by
  have hrest : (c.forward k).rest = more := by
    rw [Cursor.rest_forward, hc, List.drop_left' List.length_replicate]
  refine ⟨Cursor.skipSpaces_eq hc fun hx => (h ' ' hx).1 rfl, Cursor.sees_eq_false ?_,
    Cursor.lineBreak?_eq_none ?_⟩
  · rw [hrest]
    exact fun hx => (h '#' hx).2.1 rfl
  · rw [hrest]
    exact fun x hx => (h x hx).2.2

theorem toNextToken_spaces (hrest : s.cursor.rest = List.replicate k (CodePoint.scalar ' ') ++ more)
    (h : StartsToken more) (fuel : Nat) :
    toNextToken (fuel + 1) s = s.moveTo (s.cursor.forward k) := by
  obtain ⟨hskip, hsees, hbreak⟩ := skipSpaces_token hrest h
  rw [toNextToken, hskip]
  simp only [hsees, hbreak, Bool.false_eq_true, if_false]

theorem toNextToken_line
    (hrest : s.cursor.rest = ↑ '\n' :: (List.replicate k (CodePoint.scalar ' ') ++ more))
    (h : StartsToken more) (fuel : Nat) : toNextToken (fuel + 2) s =
      { s with cursor := s.cursor.forward (k + 1), keyAllowed := s.keyAllowed || s.depth = 0 } := by
  have hskip : s.cursor.skipSpaces = s.cursor := Cursor.skipSpaces_eq (k := 0) hrest nofun
  have hsees : s.cursor.sees '#' = false := by
    refine Cursor.sees_eq_false ?_
    rw [hrest]
    nofun
  have hadvance : s.cursor.advance.rest = List.replicate k (CodePoint.scalar ' ') ++ more := by
    rw [Cursor.rest_advance, hrest]
    rfl
  rw [toNextToken, hskip]
  simp only [hsees, Cursor.lineBreak?_newLine hrest, Bool.false_eq_true, if_false]
  exact toNextToken_spaces hadvance h fuel

theorem run_congr (h : toNextToken (s.cursor.rest.length + 1) s =
    toNextToken (s'.cursor.rest.length + 1) s') (fuel : Nat) : s.run fuel = s'.run fuel := by
  cases fuel with
  | zero => rfl
  | succ fuel => rw [run, run, h]

theorem toNextToken_here (h : StartsToken s.cursor.rest) (fuel : Nat) :
    toNextToken (fuel + 1) s = s :=
  toNextToken_spaces (k := 0) rfl h fuel

/-- Over spaces to the next token. -/
theorem Stands.spaces
    (hs : Stands s (List.replicate k (CodePoint.scalar ' ') ++ more) column done indents allowed)
    (h : StartsToken more) : Leads s true (Stands · more (column + k) done indents allowed) := by
  have hmove := Cursor.forward_spaces hs.rest
  have hnext := toNextToken_spaces hs.rest h
  have hstands : Stands (s.moveTo (s.cursor.forward k)) more (column + k) done indents allowed := by
    refine ⟨?_, ?_, hs.tokens, hs.indents, hs.keyAllowed, hs.depth, hs.slotted, ?_⟩
    · rw [moveTo, hmove]
    · rw [moveTo, hmove, hs.column]
    · rw [Stale, moveTo, hmove]
      exact hs.stale
  refine .of_same hstands ?_ (run_congr ?_)
  · rw [hstands.rest, hs.rest, List.length_append]
    omega
  · rw [hnext, toNextToken_here (by rw [hstands.rest]; exact h)]

theorem Stands.ends (hs : Stands s rest column done indents allowed) : Ends s rest done indents :=
  ⟨hs.rest, hs.tokens, hs.indents, hs.depth, hs.slotted,
    fun e he => ⟨(hs.stale e he).1, Nat.le_of_lt (hs.stale e he).2⟩⟩

/-- Over the end of a line to the next token, where a key may begin. -/
theorem Ends.line
    (hs : Ends s (↑ '\n' :: (List.replicate k (CodePoint.scalar ' ') ++ more)) done indents)
    (h : StartsToken more) : Leads s true (Stands · more k done indents true) := by
  have hmove := Cursor.forward_newLine hs.rest
  have hnext := toNextToken_line hs.rest h
  generalize hs' : { s with cursor := s.cursor.forward (k + 1), keyAllowed := s.keyAllowed ||
    s.depth = 0 } = s' at hnext
  have hcursor : s'.cursor = s.cursor.forward (k + 1) := by rw [← hs']
  have hstands : Stands s' more k done indents true := by
    subst hs'
    refine ⟨?_, ?_, hs.tokens, hs.indents, ?_, hs.depth, hs.slotted, ?_⟩
    · rw [hcursor, hmove]
    · rw [hcursor, hmove]
    · simp [hs.depth]
    · intro e he
      have hold := hs.settled e he
      rw [hcursor, hmove]
      exact ⟨hold.1, Nat.lt_succ_of_le hold.2⟩
  refine .of_same hstands ?_ (run_congr ?_)
  · rw [hstands.rest, hs.rest, List.length_cons, List.length_append]
    omega
  · have hlength : s.cursor.rest.length + 1 =
        (List.replicate k (CodePoint.scalar ' ') ++ more).length + 2 := by
      rw [hs.rest, List.length_cons]
    rw [hlength, hnext, toNextToken_here (by rw [hstands.rest]; exact h)]

/-! ## At a token -/

theorem Stale.dropStale (h : s.Stale) : s.dropStale = some { s with possible := [] } := by
  have hrequired : (s.possible.any fun e => !(decide (e.2.line = s.cursor.line) &&
      decide (s.cursor.index - e.2.index ≤ 1024)) && e.2.required) = false := by
    rw [List.any_eq_false]
    intro e he
    simp [(h e he).1]
  have hfilter : (s.possible.filter fun e => decide (e.2.line = s.cursor.line) &&
      decide (s.cursor.index - e.2.index ≤ 1024)) = [] := by
    rw [List.filter_eq_nil_iff]
    intro e he
    simp [Nat.ne_of_lt (h e he).2]
  simp only [Cutting.dropStale, hrequired, hfilter]
  rfl

theorem unwind_indents (column : Int) (is js : List Nat) (s : Cutting) :
    unwind column is { s with indents := js } = unwind column is s := by
  induction is generalizing s js with
  | nil => rfl
  | cons i is ih =>
    rw [unwind, unwind]
    split
    · exact ih js (s.push .blockEnd)
    · rfl

theorem unwind_unwind (column : Int) (is : List Nat) (s : Cutting) :
    unwind (-1) (unwind column is s).indents (unwind column is s) = unwind (-1) is s := by
  induction is generalizing s with
  | nil => rfl
  | cons i is ih =>
    rw [unwind]
    split
    · have hlt : (-1 : Int) < i := by omega
      rw [ih, unwind, if_pos hlt]
    · exact unwind_indents (-1) (i :: is) (i :: is) s

/-- Closing blocks changes the items and the blocks only. -/
theorem unwind_frame (column : Int) (is : List Nat) (s : Cutting) :
    (unwind column is s).cursor = s.cursor ∧ (unwind column is s).depth = s.depth ∧
      (unwind column is s).possible = s.possible := by
  induction is generalizing s with
  | nil => exact ⟨rfl, rfl, rfl⟩
  | cons i is ih =>
    rw [unwind]
    split
    · exact ih (s.push .blockEnd)
    · exact ⟨rfl, rfl, rfl⟩

theorem dropPossible_nil (h : s.possible = []) : s.dropPossible = some s := by
  obtain ⟨cursor, items, fillings, indents, depth, keyAllowed, possible⟩ := s
  cases h
  rfl

/-- What breaks off closes all blocks, whichever have been closed. -/
theorem breakOff_unwind (column : Int) (is : List Nat) (hdepth : s.depth = 0)
    (hpossible : s.possible = []) :
    (unwind column is s).breakOff = some { unwind (-1) is s with keyAllowed := false } := by
  obtain ⟨-, hdepth', hpossible'⟩ := unwind_frame column is s
  have hclose : closeBlocks (unwind column is s) (-1) = unwind (-1) is s := by
    rw [closeBlocks, if_pos (hdepth'.trans hdepth), unwind_unwind]
  rw [breakOff, hclose, dropPossible_nil ((unwind_frame (-1) is s).2.2.trans hpossible)]
  rfl

/-- A step at a token that closes no block. -/
theorem run_of_tokenAt {x : CodePoint} (h : StartsToken s.cursor.rest)
    (hdrop : s.dropStale = some s') (hclose : s'.closeBlocks s'.cursor.column = s')
    (hpeek : s'.cursor.peek = some x) (fuel : Nat) :
    s.run (fuel + 1) = (s'.tokenAt x).bind (·.run fuel) := by
  rw [run, toNextToken_here h, hdrop, Option.bind_eq_bind, Option.bind_some]
  simp only [hclose, hpeek]

/-- The first step at a token or at the end of the text. -/
theorem Stands.run_here (hs : Stands s rest column done indents allowed)
    (h : StartsToken rest) (fuel : Nat) :
    s.run (fuel + 1) =
      match rest.head? with
      | none => (unwind column indents { s with possible := [] }).breakOff.map (·.push .finish)
      | some x => ((unwind column indents { s with possible := [] }).tokenAt x).bind
          (·.run fuel) := by
  have hnext := toNextToken_here (s := s) (by rw [hs.rest]; exact h) s.cursor.rest.length
  have hclose : closeBlocks { s with possible := [] } (s.cursor.column : Nat) =
      unwind column indents { s with possible := [] } := by
    rw [closeBlocks, if_pos hs.depth, hs.column]
    exact congrArg (unwind column · _) hs.indents
  have hpeek : (unwind column indents { s with possible := [] }).cursor.peek = rest.head? := by
    rw [(unwind_frame column indents _).1, Cursor.peek]
    exact congrArg List.head? hs.rest
  rw [run, hnext, hs.stale.dropStale, Option.bind_eq_bind, Option.bind_some]
  simp only [hclose, hpeek]
  cases rest.head? with
  | none =>
    show (Cutting.breakOff _).bind _ = _
    cases Cutting.breakOff _ <;> rfl
  | some x => rfl

/-- A block ends in front of text that is not indented as far, and at the end of the text. -/
theorem Stands.close {i : Nat} (hs : Stands s rest column done (i :: indents) allowed)
    (h : StartsToken rest) (hi : column < i ∨ rest = []) :
    Leads s true (Stands · rest column (done ++ [.blockEnd]) indents allowed) := by
  have hs' : Stands { s.push .blockEnd with indents := indents } rest column (done ++ [.blockEnd])
      indents allowed :=
    ⟨hs.rest, hs.column, by rw [← hs.tokens]; exact tokens_push s _, rfl, hs.keyAllowed, hs.depth,
      hs.slotted.push _, hs.stale⟩
  refine .of_same hs' (Nat.le_refl _) fun fuel => ?_
  cases fuel with
  | zero => rfl
  | succ fuel =>
    rw [hs.run_here h, hs'.run_here h]
    have hforget : unwind column indents
        ({ s.push .blockEnd with indents := indents, possible := [] } : Cutting) =
        unwind column indents ({ s with possible := [] }.push .blockEnd) :=
      unwind_indents _ _ _ ({ s with possible := [] }.push .blockEnd)
    cases rest with
    | nil =>
      have hlt : (-1 : Int) < i := by omega
      have hleft := breakOff_unwind (s := { s with possible := [] }) column
        (i :: indents) hs.depth rfl
      have hright := breakOff_unwind (s := { s with possible := [] }.push .blockEnd) column
        indents hs.depth rfl
      simp only [List.head?_nil]
      rw [hforget, hleft, hright, unwind, if_pos hlt]
    | cons x rest =>
      have hlt : (column : Int) < i := by
        rcases hi with hi | hi
        · omega
        · cases hi
      simp only [List.head?_cons]
      rw [hforget, unwind, if_pos hlt]

/-- No block ends that is not indented further. -/
theorem unwind_open (hs : s.indents = indents) (hin : ∀ i, indents.head? = some i → i ≤ column) :
    unwind column indents s = s := by
  subst hs
  obtain ⟨cursor, items, fillings, indents, depth, keyAllowed, possible⟩ := s
  cases indents with
  | nil => rfl
  | cons i is =>
    have hi : i ≤ column := hin i rfl
    rw [unwind, if_neg (by omega)]

/-- At a token that no open block ends in front of. -/
theorem Stands.run_token {x : CodePoint} (hs : Stands s (x :: rest) column done indents allowed)
    (h : StartsToken (x :: rest)) (hin : ∀ i, indents.head? = some i → i ≤ column) (fuel : Nat) :
    s.run (fuel + 1) = ({ s with possible := [] }.tokenAt x).bind (·.run fuel) := by
  have hopen : unwind column indents { s with possible := [] } = { s with possible := [] } :=
    unwind_open hs.indents hin
  rw [hs.run_here h, hopen]
  rfl

theorem Stands.ready (hs : Stands s rest column done indents allowed) :
    Stands { s with possible := [] } rest column done indents allowed :=
  ⟨hs.rest, hs.column, hs.tokens, hs.indents, hs.keyAllowed, hs.depth, hs.slotted, nofun⟩

/-- One step over a token. -/
theorem Stands.step {x : CodePoint} {p : Cutting → Prop}
    (hs : Stands s (x :: rest) column done indents allowed) (h : StartsToken (x :: rest))
    (hin : ∀ i, indents.head? = some i → i ≤ column)
    (hstep : ∃ s', { s with possible := [] }.tokenAt x = some s' ∧ p s' ∧
      s'.cursor.rest.length ≤ rest.length) :
    Leads s true p := by
  obtain ⟨s', htoken, hp, hlength⟩ := hstep
  refine .of_step hp ?_ fun fuel => ?_
  · rw [hs.rest, List.length_cons]
    omega
  · rw [hs.run_token h hin, htoken]
    rfl

end

end Cutting

theorem Cursor.atMarker_eq_false {c : Cursor} {x y : CodePoint} {rest : List CodePoint}
    (hc : c.rest = x :: rest) (h : x = y → rest.head? ≠ some y) : c.atMarker y = false := by
  unfold Cursor.atMarker
  rw [hc]
  split
  · next a b d more heq =>
    cases heq
    by_cases hx : x = y
    · have hb : b ≠ y := fun hby => h hx (congrArg some hby)
      simp [hb]
    · simp [hx]
  · rfl

namespace Cutting

section

variable {s : Cutting} {rest : List CodePoint} {column : Nat} {done : List Token}
  {indents : List Nat} {allowed : Bool}

theorem ne_of_endsWord {rest : List CodePoint} (h : endsWord rest.head? = true) {x : CodePoint}
    (hx : isBlank x = false) :
    rest.head? ≠ some x := by
  intro heq
  rw [heq, endsWord, hx] at h
  cases h

theorem peekAt_one {c : Cursor} {x : CodePoint} (hc : c.rest = x :: rest) :
    c.peekAt 1 = rest.head? := by
  rw [Cursor.peekAt, hc, List.getElem?_cons_succ, List.head?_eq_getElem?]

/-- Marks of a block stand in front of a blank. -/
theorem tokenAt_mark {x : CodePoint} (hc : s.cursor.rest = x :: rest) (hdepth : s.depth = 0)
    (hrest : endsWord rest.head? = true) :
    (x = '-' → s.tokenAt x = s.blockMark .sequenceStart .entry true) ∧
      (x = '?' → s.tokenAt x = s.blockMark .mappingStart .key true) ∧
      (x = ':' → s.tokenAt x = s.valueMark) := by
  have hpeek := peekAt_one hc
  have hdash : s.cursor.atMarker '-' = false :=
    Cursor.atMarker_eq_false hc fun _ => ne_of_endsWord hrest (by decide)
  have hpoint : s.cursor.atMarker '.' = false :=
    Cursor.atMarker_eq_false hc fun _ => ne_of_endsWord hrest (by decide)
  refine ⟨?_, ?_, ?_⟩
  · rintro rfl
    simp [tokenAt, hdash, hpoint, hpeek, hrest]
  · rintro rfl
    simp [tokenAt, hdash, hpoint, hpeek, hrest, hdepth]
  · rintro rfl
    simp [tokenAt, hdash, hpoint, hpeek, hrest]

/-- Whether a block at a column is inside the open ones. -/
def opens (indents : List Nat) (column : Nat) : Bool :=
  match indents with
  | [] => true
  | i :: _ => i < column

theorem indent_lt_iff (hs : s.indents = indents) :
    s.indent < (column : Int) ↔ opens indents column = true := by
  unfold indent opens
  rw [hs]
  cases indents with
  | nil => simp; omega
  | cons i is => simp

theorem indent_lt (hs : s.indents = indents) {k : Nat} (h : ∀ i, indents.head? = some i → i < k) :
    s.indent < (k : Int) := by
  rw [indent_lt_iff hs]
  cases indents with
  | nil => rfl
  | cons i is => exact decide_eq_true (h i rfl)

theorem indent_le (hs : s.indents = indents) {k : Nat} (h : ∀ i, indents.head? = some i → i ≤ k) :
    s.indent ≤ (k : Int) :=
  Int.le_of_lt_add_one (indent_lt hs (k := k + 1) fun i hi => Nat.lt_succ_of_le (h i hi))

theorem Stands.moveTo {c : Cursor} (hs : Stands s rest column done indents allowed)
    (hc : s.cursor.line ≤ c.line) : Stands (s.moveTo c) c.rest c.column done indents allowed :=
  ⟨rfl, rfl, hs.tokens, hs.indents, hs.keyAllowed, hs.depth, hs.slotted,
    fun e he => ⟨(hs.stale e he).1, Nat.lt_of_lt_of_le (hs.stale e he).2 hc⟩⟩

theorem Stands.push (hs : Stands s rest column done indents allowed) (t : Token) :
    Stands (s.push t) rest column (done ++ [t]) indents allowed :=
  ⟨hs.rest, hs.column, by rw [tokens_push, hs.tokens], hs.indents, hs.keyAllowed, hs.depth,
    hs.slotted.push t, hs.stale⟩

theorem Stands.allow (hs : Stands s rest column done indents allowed) (b : Bool) :
    Stands { s with keyAllowed := b } rest column done indents b :=
  ⟨hs.rest, hs.column, hs.tokens, hs.indents, rfl, hs.depth, hs.slotted, hs.stale⟩

theorem Stands.advance {x : CodePoint} (hs : Stands s (x :: rest) column done indents allowed)
    (hx : isInline x = true) :
    Stands (s.moveTo s.cursor.advance) rest (column + 1) done indents allowed := by
  have hmove := Cursor.advance_inline hs.rest hx
  have hmoved := hs.moveTo (c := s.cursor.advance) (by rw [hmove])
  rwa [show s.cursor.advance.rest = rest by rw [hmove], show s.cursor.advance.column = column + 1 by
    rw [hmove, hs.column]] at hmoved

theorem openBlock_spec (hs : Stands s rest column done indents allowed) (opener : Token) :
    Stands (s.openBlock s.cursor.column opener) rest column
      (done ++ (if opens indents column then [opener] else []))
      (if opens indents column then column :: indents else indents) allowed ∧
      (s.openBlock s.cursor.column opener).possible = s.possible := by
  rw [openBlock, hs.column]
  by_cases hopens : opens indents column = true
  · rw [if_pos ((indent_lt_iff hs.indents).mpr hopens), if_pos hopens, if_pos hopens]
    have hpush := hs.push opener
    exact ⟨⟨hpush.rest, hpush.column, hpush.tokens, congrArg (column :: ·) hs.indents,
      hpush.keyAllowed, hpush.depth, hpush.slotted, hpush.stale⟩, rfl⟩
  · rw [if_neg (mt (indent_lt_iff hs.indents).mp hopens), if_neg hopens,
      if_neg hopens, List.append_nil]
    exact ⟨hs, rfl⟩

/-- A dash or a question mark, with the start of a block if none is open at the column. -/
theorem blockMark_spec {x : CodePoint} (hs : Stands s (x :: rest) column done indents true)
    (hpossible : s.possible = []) (hx : isInline x = true) (opener t : Token) (allowed : Bool) :
    ∃ s', s.blockMark opener t allowed = some s' ∧
      Stands s' rest (column + 1) (done ++ (if opens indents column then [opener] else []) ++ [t])
        (if opens indents column then column :: indents else indents) allowed := by
  obtain ⟨hopened, hnone⟩ := openBlock_spec hs opener
  have hallowed := (hopened.allow allowed).push t
  have hdrop :
      ({ s.openBlock s.cursor.column opener with keyAllowed := allowed } : Cutting).dropPossible =
      some { s.openBlock s.cursor.column opener with keyAllowed := allowed } :=
    dropPossible_nil (hnone.trans hpossible)
  refine ⟨_, ?_, hallowed.advance hx⟩
  rw [blockMark, if_pos hs.depth, if_pos hs.keyAllowed]
  exact congrArg (Option.bind · fun s => some ((s.push t).moveTo s.cursor.advance)) hdrop

theorem startsToken_mark {x : CodePoint} (hx : x = '-' ∨ x = '?' ∨ x = ':')
    (rest : List CodePoint) :
    StartsToken (x :: rest) := by
  rcases hx with rfl | rfl | rfl <;> exact startsToken_cons (by decide) rest

/-- The dash of an item, with the start of the sequence if none is open at the column. -/
theorem Stands.dash (hs : Stands s (↑ '-' :: rest) column done indents true)
    (hrest : endsWord rest.head? = true) (hin : ∀ i, indents.head? = some i → i ≤ column) :
    Leads s true (Stands · rest (column + 1)
      (done ++ (if opens indents column then [.sequenceStart] else []) ++ [.entry])
      (if opens indents column then column :: indents else indents) true) := by
  obtain ⟨s', hmark, hs'⟩ := blockMark_spec hs.ready rfl (by decide) .sequenceStart .entry true
  refine hs.step (startsToken_mark (by decide) rest) hin
    ⟨s', ?_, hs', Nat.le_of_eq (congrArg List.length hs'.rest)⟩
  rw [(tokenAt_mark hs.ready.rest hs.ready.depth hrest).1 rfl, hmark]

/-- The question mark of a key, with the start of the mapping if none is open at the column. -/
theorem Stands.question (hs : Stands s (↑ '?' :: rest) column done indents true)
    (hrest : endsWord rest.head? = true) (hin : ∀ i, indents.head? = some i → i ≤ column) :
    Leads s true (Stands · rest (column + 1)
      (done ++ (if opens indents column then [.mappingStart] else []) ++ [.key])
      (if opens indents column then column :: indents else indents) true) := by
  obtain ⟨s', hmark, hs'⟩ := blockMark_spec hs.ready rfl (by decide) .mappingStart .key true
  refine hs.step (startsToken_mark (by decide) rest) hin
    ⟨s', ?_, hs', Nat.le_of_eq (congrArg List.length hs'.rest)⟩
  rw [(tokenAt_mark hs.ready.rest hs.ready.depth hrest).2.1 rfl, hmark]

/-- The colon at the start of a line, behind a key that has a question mark. -/
theorem Stands.colon (hs : Stands s (↑ ':' :: rest) column done (column :: indents) true)
    (hrest : endsWord rest.head? = true) :
    Leads s true (Stands · rest (column + 1) (done ++ [.value]) (column :: indents) true) := by
  have hin : ∀ i, (column :: indents).head? = some i → i ≤ column := by
    intro i hi
    cases hi
    exact Nat.le_refl _
  have hopens : opens (column :: indents) column = false := decide_eq_false (Nat.lt_irrefl column)
  obtain ⟨hopened, -⟩ := openBlock_spec hs.ready .mappingStart
  rw [hopens, if_neg Bool.false_ne_true, if_neg Bool.false_ne_true, List.append_nil] at hopened
  have hs' := ((hopened.allow true).push .value).advance (by decide)
  refine hs.step (startsToken_mark (by decide) rest) hin
    ⟨_, ?_, hs', Nat.le_of_eq (congrArg List.length hs'.rest)⟩
  rw [(tokenAt_mark hs.ready.rest hs.ready.depth hrest).2.2 rfl, valueMark]
  simp only [List.find?_nil]
  rw [if_pos hs.depth, if_pos hs.keyAllowed]
  rfl

def keyHere (s : Cutting) : PossibleKey :=
  ⟨s.fillings.size, s.depth = 0 && s.indent = s.cursor.column, s.cursor.index,
    s.cursor.line, s.cursor.column⟩

/-- The state with a slot left here. -/
def leaveSlot (s : Cutting) : Cutting :=
  { s with
    items := .slot s.fillings.size :: s.items
    fillings := s.fillings.push .nothing
    possible := [(s.depth, s.keyHere)] }

theorem savePossible_eq (hs : s.possible = []) :
    s.savePossible = some (if s.keyAllowed then s.leaveSlot else s) := by
  rw [savePossible]
  by_cases hallowed : s.keyAllowed = true
  · rw [if_pos hallowed, if_pos hallowed, dropPossible_nil hs]
    obtain ⟨cursor, items, fillings, indents, depth, keyAllowed, possible⟩ := s
    cases hs
    rfl
  · rw [if_neg hallowed, if_neg hallowed]

theorem Slotted.leaveSlot (hs : s.Slotted) : s.leaveSlot.Slotted := by
  intro n hn
  have hsize : s.leaveSlot.fillings.size = s.fillings.size + 1 := Array.size_push _
  rcases List.mem_cons.mp hn with hn | hn
  · cases hn
    omega
  · have hlt := hs n hn
    omega

theorem tokens_leaveSlot (hs : s.Slotted) : s.leaveSlot.tokens = s.tokens := by
  rw [tokens_eq, tokens_eq]
  exact (flatMap_slot hs .nothing).trans (List.append_nil _)

/-- Nothing that may begin with a key stands where a key has to begin. -/
def Inside (indents : List Nat) (column : Nat) : Prop :=
  ∀ i, indents.head? = some i → i < column

theorem keyHere_required (hs : Stands s rest column done indents allowed)
    (hin : Inside indents column) :
    s.keyHere.required = false := by
  have hne : ¬ s.indent = (s.cursor.column : Int) := by
    rw [hs.column]
    unfold indent
    rw [hs.indents]
    cases indents with
    | nil => nofun
    | cons i is =>
      have hi := hin i rfl
      simp
      omega
  simp [keyHere, hne]

/-- A slot or none is left in front of what may begin with a key. -/
theorem savePossible_spec (hs : Stands s rest column done indents allowed)
    (hpossible : s.possible = []) (hin : Inside indents column) :
    ∃ s', s.savePossible = some s' ∧ s'.cursor = s.cursor ∧ s'.depth = 0 ∧
      Ends s' rest done indents ∧
      (∀ e ∈ s'.possible, e.1 = 0) := by
  rw [savePossible_eq hpossible]
  refine ⟨_, rfl, ?_⟩
  by_cases hallowed : s.keyAllowed = true
  · rw [if_pos hallowed]
    refine ⟨rfl, hs.depth,
      ⟨hs.rest, (tokens_leaveSlot hs.slotted).trans hs.tokens, hs.indents, hs.depth,
        hs.slotted.leaveSlot, ?_⟩, ?_⟩
    · intro e he
      rw [List.mem_singleton.mp he]
      exact ⟨keyHere_required hs hin, Nat.le_refl _⟩
    · intro e he
      rw [List.mem_singleton.mp he]
      exact hs.depth
  · rw [if_neg hallowed]
    refine ⟨rfl, hs.depth, hs.ends, ?_⟩
    rw [hpossible]
    nofun

theorem Inside.le (h : Inside indents column) : ∀ i, indents.head? = some i → i ≤ column :=
  fun i hi => Nat.le_of_lt (h i hi)

/-- A scalar that is not plain. -/
theorem wordToken_spec (hs : Stands s rest column done indents allowed)
    (hpossible : s.possible = []) (hin : Inside indents column) (t : Token) {c : Cursor}
    (hc : s.cursor.line ≤ c.line) :
    ∃ s', s.wordToken t c = some s' ∧ s'.cursor = c ∧ Ends s' c.rest (done ++ [t]) indents ∧
      (∀ e ∈ s'.possible, e.2.line ≤ s.cursor.line) := by
  obtain ⟨s', hsave, hcursor, -, hends, -⟩ := savePossible_spec hs hpossible hin
  refine ⟨{ s'.push t with keyAllowed := false, cursor := c }, ?_, rfl,
    ⟨rfl, ?_, hends.indents, hends.depth, hends.slotted.push t, ?_⟩, ?_⟩
  · rw [wordToken, hsave]
    rfl
  · rw [← hends.tokens]
    exact tokens_push s' t
  · intro e he
    have hold := hends.settled e he
    rw [hcursor] at hold
    exact ⟨hold.1, Nat.le_trans hold.2 hc⟩
  · intro e he
    have hold := hends.settled e he
    rw [hcursor] at hold
    exact hold.2

end

end Cutting

end Grove.Yaml
