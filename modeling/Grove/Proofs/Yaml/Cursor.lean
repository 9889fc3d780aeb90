import Grove.Yaml.Cursor

/-!
# Moves of a cursor

How place, line and column change when a cursor moves over text without line ends, over spaces, and
over the end of a line with the indentation behind it.
-/
namespace Grove.Yaml

/-- A character that takes one column and ends no line. -/
def isInline (x : CodePoint) : Bool :=
  !isBreak x && x ≠ '\uFEFF'

theorem isInline_space : isInline ' ' = true := by decide

/-- A kind of characters that no line end is of, nor the mark of the byte order, is one of
characters inside a line. -/
theorem isInline_of_kind {p : CodePoint → Prop}
    (h : ¬ p '\n' ∧ ¬ p '\r' ∧ ¬ p '\x85' ∧ ¬ p '\u2028' ∧ ¬ p '\u2029' ∧ ¬ p '\uFEFF')
    {x : CodePoint} (hx : p x) :
    isInline x = true := by
  have hne {b : CodePoint} (hb : ¬ p b) : x ≠ b := by
    rintro rfl
    exact hb hx
  obtain ⟨hn, hr, hnel, hls, hps, hbom⟩ := h
  simp [isInline, isBreak, hne hn, hne hr, hne hnel, hne hls, hne hps, hne hbom]

theorem isBlank_eq_false {x : CodePoint} (h : isInline x = true) (htab : x ≠ '\t')
    (hspace : x ≠ ' ') :
    isBlank x = false := by
  simp only [isInline, Bool.and_eq_true, Bool.not_eq_true'] at h
  simp [isBlank, hspace, htab, h.1]

namespace Cursor

theorem rest_advance (c : Cursor) : c.advance.rest = c.rest.tail := by
  unfold advance
  split
  · next h => rw [h, List.tail_nil]
  · next x xs h =>
    rw [h, List.tail_cons]
    split
    · rfl
    · split <;> rfl

theorem rest_forward (c : Cursor) (n : Nat) : (c.forward n).rest = c.rest.drop n := by
  induction n generalizing c with
  | zero => rfl
  | succ n ih => rw [forward, ih, rest_advance, List.drop_tail]

theorem forward_add (c : Cursor) (m n : Nat) : c.forward (m + n) = (c.forward m).forward n := by
  induction m generalizing c with
  | zero => rw [Nat.zero_add, forward]
  | succ m ih => rw [Nat.succ_add, forward, forward, ih]

theorem forward_one (c : Cursor) : c.forward 1 = c.advance :=
  rfl

theorem line_le_advance (c : Cursor) : c.line ≤ c.advance.line := by
  unfold advance
  split
  · exact Nat.le_refl _
  · split
    · exact Nat.le_succ _
    · split <;> exact Nat.le_refl _

theorem line_le_forward (c : Cursor) (n : Nat) : c.line ≤ (c.forward n).line := by
  induction n generalizing c with
  | zero => exact Nat.le_refl _
  | succ n ih => exact Nat.le_trans c.line_le_advance (ih c.advance)

variable {c : Cursor} {x : CodePoint} {cs rest : List CodePoint}

theorem advance_inline (h : c.rest = x :: rest) (hx : isInline x = true) :
    c.advance = ⟨rest, c.index + 1, c.line, c.column + 1⟩ := by
  simp only [isInline, isBreak, Bool.and_eq_true, Bool.not_eq_true', Bool.or_eq_false_iff,
    decide_eq_false_iff_not, decide_eq_true_eq] at hx
  obtain ⟨⟨⟨⟨⟨hn, hr⟩, hnel⟩, hls⟩, hps⟩, hbom⟩ := hx
  simp only [advance, h, hn, hr, hnel, hls, hps, hbom, decide_false, Bool.false_and, Bool.or_self,
    Bool.false_eq_true, if_false]

theorem forward_inline (h : c.rest = cs ++ rest) (hcs : ∀ x ∈ cs, isInline x = true) :
    c.forward cs.length = ⟨rest, c.index + cs.length, c.line, c.column + cs.length⟩ := by
  induction cs generalizing c with
  | nil =>
    rw [List.nil_append] at h
    rw [List.length_nil, forward, ← h]
    rfl
  | cons x cs ih =>
    have hstep := advance_inline h (hcs x List.mem_cons_self)
    rw [List.length_cons, forward,
      ih (by rw [hstep]; rfl) (fun y hy => hcs y (List.mem_cons_of_mem _ hy)), hstep]
    simp only [Nat.add_assoc, Nat.add_comm 1]

theorem forward_spaces {k : Nat} (h : c.rest = List.replicate k (CodePoint.scalar ' ') ++ rest) :
    c.forward k = ⟨rest, c.index + k, c.line, c.column + k⟩ := by
  have hmove := forward_inline h
    (fun x hx => by rw [List.eq_of_mem_replicate hx]; exact isInline_space)
  rwa [List.length_replicate] at hmove

theorem advance_newLine (h : c.rest = ↑ '\n' :: rest) :
    c.advance = ⟨rest, c.index + 1, c.line + 1, 0⟩ := by
  simp [advance, h]

/-- Over the end of a line and the indentation of the next one. -/
theorem forward_newLine {k : Nat}
    (h : c.rest = ↑ '\n' :: (List.replicate k (CodePoint.scalar ' ') ++ rest)) :
    c.forward (k + 1) = ⟨rest, c.index + 1 + k, c.line + 1, k⟩ := by
  have hnew := advance_newLine h
  rw [forward, forward_spaces (by rw [hnew]), hnew, Nat.zero_add]

theorem lineBreak?_newLine (h : c.rest = ↑ '\n' :: rest) :
    c.lineBreak? = some (↑ '\n', c.advance) := by
  simp [lineBreak?, h, isBreak]

theorem lineBreak?_eq_none (h : ∀ x, c.rest.head? = some x → isBreak x = false) :
    c.lineBreak? = none := by
  unfold lineBreak?
  split
  · next hrest =>
    have := h '\r' (by rw [hrest]; rfl)
    exact absurd this (by decide)
  · next x more hne hrest =>
    have hx := h x (by rw [hrest]; rfl)
    have hline : x ≠ '\u2028' ∧ x ≠ '\u2029' := by
      constructor <;> rintro rfl <;> exact absurd hx (by decide)
    simp [hx, hline]
  · rfl

theorem span_eq {p : CodePoint → Bool} (h : c.rest = cs ++ rest) (hcs : ∀ x ∈ cs, p x = true)
    (hrest : ∀ x, rest.head? = some x → p x = false) : c.span p = (cs, c.forward cs.length) := by
  have htake : c.rest.takeWhile p = cs := by
    have hnone : rest.takeWhile p = [] := by
      cases rest with
      | nil => rfl
      | cons x xs => rw [List.takeWhile_cons, hrest x rfl, if_neg Bool.false_ne_true]
    rw [h, List.takeWhile_append_of_pos hcs, hnone, List.append_nil]
  rw [span, htake]

theorem skip_eq {p : CodePoint → Bool} (h : c.rest = cs ++ rest) (hcs : ∀ x ∈ cs, p x = true)
    (hrest : ∀ x, rest.head? = some x → p x = false) : c.skip p = c.forward cs.length := by
  rw [skip, span_eq h hcs hrest]

theorem skipSpaces_eq {k : Nat} (h : c.rest = List.replicate k (CodePoint.scalar ' ') ++ rest)
    (hrest : rest.head? ≠ some (CodePoint.scalar ' ')) :
    c.skipSpaces = c.forward k := by
  have hskip := skip_eq (p := (· = ' ')) h (fun x hx => by simp [List.eq_of_mem_replicate hx]) (by
    intro x hx
    simp only [decide_eq_false_iff_not]
    rintro rfl
    exact hrest hx)
  rwa [List.length_replicate] at hskip

theorem peek_eq (h : c.rest = x :: rest) : c.peek = some x := by
  rw [peek, h, List.head?_cons]

theorem sees_eq_false (h : c.rest.head? ≠ some x) : c.sees x = false := by
  exact decide_eq_false h

/-- A marker starts with a hyphen or a point. -/
theorem atDocumentMarker_eq_false (h : ∀ x, c.rest.head? = some x → x ≠ '-' ∧ x ≠ '.') :
    c.atDocumentMarker = false := by
  unfold atDocumentMarker atMarker
  split
  · next a b d more hrest =>
    obtain ⟨hdash, hpoint⟩ := h a (by rw [hrest]; rfl)
    simp [hdash, hpoint]
  · rfl

end Cursor

end Grove.Yaml
