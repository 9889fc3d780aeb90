import Grove.Proofs.Yaml.Cursor
import Grove.Yaml.Presentation
import Grove.Yaml.Style

/-!
# Pieces of quoted text

Quoted text is read in pieces: characters that mean themselves, escapes, spaces, and line ends with
the indentation behind them. A piece is judged by the text that it adds in front of whatever is read
after it.
-/
namespace Grove.Yaml

/-- In front of `rest`, the piece of quoted text is read as `text`. -/
def Quotes (double : Bool) (piece rest text : List CodePoint) : Prop :=
  ∀ c : Cursor, c.rest = piece ++ rest → ∃ k ≤ piece.length, ∀ fuel more last,
    quotedText double fuel (c.forward piece.length) = some (more, last) →
      quotedText double (fuel + k) c = some (text ++ more, last)

namespace Quotes

variable {double : Bool} {piece piece' rest text text' : List CodePoint}

theorem nil (double : Bool) (rest : List CodePoint) : Quotes double [] rest [] :=
  fun _ _ => ⟨0, Nat.le_refl 0, fun _ _ _ h => h⟩

theorem append (h : Quotes double piece (piece' ++ rest) text)
    (h' : Quotes double piece' rest text') :
    Quotes double (piece ++ piece') rest (text ++ text') := by
  intro c hc
  rw [List.append_assoc] at hc
  have hrest : (c.forward piece.length).rest = piece' ++ rest := by
    rw [Cursor.rest_forward, hc, List.drop_left]
  obtain ⟨k, hk, hfirst⟩ := h c hc
  obtain ⟨l, hl, hsecond⟩ := h' _ hrest
  refine ⟨l + k, ?_, ?_⟩
  · rw [List.length_append]
    omega
  · intro fuel more last hlast
    rw [List.length_append, Cursor.forward_add] at hlast
    rw [← Nat.add_assoc, List.append_assoc]
    exact hfirst _ _ _ (hsecond _ _ _ hlast)

/-- Pieces that are read in one step. -/
theorem of_step (h : ∀ (c : Cursor) (fuel : Nat) (more : List CodePoint) (last : Cursor),
    c.rest = piece ++ rest →
    quotedText double fuel (c.forward piece.length) = some (more, last) →
      quotedText double (fuel + 1) c = some (text ++ more, last)) (hne : piece ≠ []) :
    Quotes double piece rest text :=
  fun c hc => ⟨1, List.length_pos_iff.mpr hne, fun fuel more last hlast =>
    h c fuel more last hc hlast⟩

end Quotes

theorem isBreak_of_isBlank {x : CodePoint} (h : isBlank x = false) : isBreak x = false := by
  simp only [isBlank, Bool.or_eq_false_iff] at h
  exact h.2

theorem ne_space_of_isBlank {x : CodePoint} (h : isBlank x = false) : x ≠ ' ' := by
  rintro rfl
  cases h

theorem ne_tab_of_isBlank {x : CodePoint} (h : isBlank x = false) : x ≠ '\t' := by
  rintro rfl
  cases h

/-- The text does not go on with a blank. -/
def StartsWord (rest : List CodePoint) : Prop :=
  ∀ x, rest.head? = some x → isBlank x = false

theorem startsWord_cons {x : CodePoint} (h : isBlank x = false) (rest : List CodePoint) :
    StartsWord (x :: rest) := by
  intro y hy
  cases hy
  exact h

section

variable {double : Bool} {rest : List CodePoint}

/-- A character that means itself. -/
theorem quotes_char {x : CodePoint} (hblank : isBlank x = false)
    (hmark : x ≠ (if double then ↑ '"' else ↑ '\'')) (hback : double = true → x ≠ '\\')
    (rest : List CodePoint) : Quotes double [x] rest [x] := by
  refine .of_step ?_ (List.cons_ne_nil _ _)
  intro c fuel more last hc hmore
  have hmove : quotedText double fuel c.advance = some (more, last) := hmore
  have hspace := ne_space_of_isBlank hblank
  have htab := ne_tab_of_isBlank hblank
  have hbreak := isBreak_of_isBlank hblank
  rw [quotedText, hc]
  cases double
  · have hquote : x ≠ '\'' := hmark
    simp [hspace, htab, hbreak, hquote, hmove]
  · have hquote : x ≠ '"' := hmark
    simp [hspace, htab, hbreak, hquote, hback rfl, hmove]

/-- The closing quote. -/
theorem quotedText_close {c : Cursor} (hc : c.rest = (if double then ↑ '"' else ↑ '\'') :: rest)
    (hrest : rest.head? ≠ some (CodePoint.scalar '\'')) (fuel : Nat) :
    quotedText double (fuel + 1) c = some ([], c.advance) := by
  rw [quotedText, hc]
  cases double
  · have hpeek : c.peekAt 1 ≠ some (CodePoint.scalar '\'') := by
      rw [Cursor.peekAt, hc, List.getElem?_cons_succ, ← List.head?_eq_getElem?]
      exact hrest
    simp [isBreak, hpeek]
  · simp [isBreak]

/-- The two quotes that stand for one. -/
theorem quotes_quote (rest : List CodePoint) :
    Quotes false [CodePoint.scalar '\'', '\''] rest [CodePoint.scalar '\''] := by
  refine .of_step ?_ (List.cons_ne_nil _ _)
  intro c fuel more last hc hmore
  have hmove : quotedText false fuel (c.forward 2) = some (more, last) := hmore
  have hpeek : c.peekAt 1 = some (CodePoint.scalar '\'') := by
    rw [Cursor.peekAt, hc]
    rfl
  rw [quotedText, hc]
  simp [isBreak, hpeek, hmove]

/-- Blanks in quotes, up to anything but a line end. -/
theorem span_blanks {c : Cursor} {n : Nat}
    (hc : c.rest = List.replicate n (CodePoint.scalar ' ') ++ rest) (h : StartsWord rest) :
    (c.span fun y => y = ' ' || y = '\t') =
      (List.replicate n (CodePoint.scalar ' '), c.forward n) := by
  have hspan := Cursor.span_eq (p := fun y => y = ' ' || y = '\t') hc
    (fun x hx => by simp [List.eq_of_mem_replicate hx])
    (fun x hx => by simp [ne_space_of_isBlank (h x hx), ne_tab_of_isBlank (h x hx)])
  rwa [List.length_replicate] at hspan

theorem lineBreak?_startsWord {c : Cursor} (h : StartsWord c.rest) : c.lineBreak? = none :=
  Cursor.lineBreak?_eq_none fun x hx => isBreak_of_isBlank (h x hx)

theorem quotedText_spaces {c : Cursor} {n : Nat}
    (hc : c.rest = List.replicate (n + 1) (CodePoint.scalar ' ') ++ rest) (h : StartsWord rest)
    (fuel : Nat) : quotedText double (fuel + 1) c =
      (quotedText double fuel (c.forward (n + 1))).map fun r =>
        (List.replicate (n + 1) (CodePoint.scalar ' ') ++ r.1, r.2) := by
  have hspan := span_blanks hc h
  have hbreak : (c.forward (n + 1)).lineBreak? = none := by
    refine lineBreak?_startsWord ?_
    rwa [Cursor.rest_forward, hc, List.drop_left' List.length_replicate]
  rw [quotedText, hc, List.replicate_succ, List.cons_append]
  simp only [hspan, hbreak]
  cases quotedText double fuel (c.forward (n + 1)) <;> rfl

/-- Spaces within a line. -/
theorem quotes_spaces (n : Nat) (h : StartsWord rest) :
    Quotes double (List.replicate (n + 1) (CodePoint.scalar ' ')) rest
      (List.replicate (n + 1) (CodePoint.scalar ' ')) := by
  refine .of_step ?_ (List.cons_ne_nil _ _)
  intro c fuel more last hc hmore
  rw [List.length_replicate] at hmore
  rw [quotedText_spaces hc h, hmore]
  rfl

/-- The text goes on with spaces and then no blank. -/
def StartsSpaced (rest : List CodePoint) : Prop :=
  ∃ n more, rest = List.replicate n (CodePoint.scalar ' ') ++ more ∧ StartsWord more

theorem StartsWord.startsSpaced (h : StartsWord rest) : StartsSpaced rest :=
  ⟨0, rest, rfl, h⟩

theorem StartsSpaced.space (h : StartsSpaced rest) : StartsSpaced (↑ ' ' :: rest) := by
  obtain ⟨n, more, rfl, hmore⟩ := h
  exact ⟨n + 1, more, rfl, hmore⟩

/-- A space; further ones are read together with it. -/
theorem quotes_space (h : StartsSpaced rest) :
    Quotes double [CodePoint.scalar ' '] rest [CodePoint.scalar ' '] := by
  obtain ⟨n, more, rfl, hmore⟩ := h
  cases n with
  | zero => exact quotes_spaces 0 hmore
  | succ n =>
    intro c hc
    refine ⟨0, Nat.zero_le _, ?_⟩
    intro fuel text last hlast
    have hadvance : c.advance.rest = List.replicate (n + 1) (CodePoint.scalar ' ') ++ more := by
      rw [Cursor.rest_advance, hc]
      rfl
    have hspaces : c.rest = List.replicate (n + 2) (CodePoint.scalar ' ') ++ more := hc
    obtain ⟨fuel, rfl⟩ : ∃ fuel', fuel = fuel' + 1 := by
      cases fuel with
      | zero => cases hlast
      | succ fuel => exact ⟨fuel, rfl⟩
    rw [List.length_singleton, Cursor.forward_one, quotedText_spaces hadvance hmore] at hlast
    rw [Nat.add_zero, quotedText_spaces hspaces hmore, Cursor.forward]
    obtain ⟨r, hread, hr⟩ := Option.map_eq_some_iff.mp hlast
    cases hr
    rw [hread]
    rfl

/-! ### Line ends -/

/-- A marker of a document may stand at the start of a line only, so not behind an indentation. -/
theorem atDocumentMarker_indented {c : Cursor} {k : Nat} (hk : 0 < k)
    (hc : c.rest = List.replicate k (CodePoint.scalar ' ') ++ rest) :
    c.atDocumentMarker = false := by
  obtain ⟨j, rfl⟩ := Nat.exists_eq_succ_of_ne_zero (Nat.ne_of_gt hk)
  refine Cursor.atDocumentMarker_eq_false fun x hx => ?_
  rw [hc] at hx
  cases hx
  decide

def readBreak (b : CodePoint) : CodePoint :=
  if b = '\u2028' || b = '\u2029' then b else '\n'

theorem isTextBreak_cases {b : CodePoint} (h : isTextBreak b = true) :
    b = '\n' ∨ b = '\x85' ∨ b = '\u2028' ∨ b = '\u2029' := by
  simpa only [isTextBreak, Bool.or_eq_true, decide_eq_true_eq, or_assoc] using h

theorem lineBreak?_textBreak {c : Cursor} {b : CodePoint} (h : isTextBreak b = true)
    (hc : c.rest = b :: rest) :
    c.lineBreak? = some (readBreak b, c.advance) := by
  rcases isTextBreak_cases h with rfl | rfl | rfl | rfl <;>
    simp [Cursor.lineBreak?, hc, readBreak, isBreak]

/-- Line ends without anything between them, and the indentation of the line behind them. -/
theorem quotedBreaks_breaks {bs : List CodePoint} (hbs : ∀ b ∈ bs, isTextBreak b = true)
    {c : Cursor} {k : Nat} (hk : 0 < k)
    (hc : c.rest = bs ++ (List.replicate k (CodePoint.scalar ' ') ++ rest))
    (h : StartsWord rest) {fuel : Nat} (hfuel : bs.length < fuel) :
    quotedBreaks fuel c = some (bs.map readBreak, c.forward (bs.length + k)) := by
  obtain ⟨fuel, rfl⟩ :=
    Nat.exists_eq_succ_of_ne_zero (Nat.ne_of_gt (Nat.lt_of_le_of_lt (Nat.zero_le _) hfuel))
  induction bs generalizing c fuel with
  | nil =>
    have hskip : (c.skip fun x => x = ' ' || x = '\t') = c.forward k := by
      rw [Cursor.skip, span_blanks hc h]
    have hbreak : (c.forward k).lineBreak? = none := by
      refine lineBreak?_startsWord ?_
      rwa [Cursor.rest_forward, hc, List.nil_append, List.drop_left' List.length_replicate]
    rw [quotedBreaks, atDocumentMarker_indented hk hc, if_neg Bool.false_ne_true]
    simp only [hskip, hbreak, List.map_nil, List.length_nil, Nat.zero_add]
  | cons b bs ih =>
    have hb := hbs b List.mem_cons_self
    have hline := lineBreak?_textBreak hb hc
    have hmarker : c.atDocumentMarker = false := by
      refine Cursor.atDocumentMarker_eq_false fun x hx => ?_
      rw [hc] at hx
      cases hx
      rcases isTextBreak_cases hb with rfl | rfl | rfl | rfl <;> decide
    have hskip : (c.skip fun x => x = ' ' || x = '\t') = c := by
      refine Cursor.skip_eq (show c.rest = [] ++ _ from hc) (List.forall_mem_nil _) fun x hx => ?_
      cases hx
      rcases isTextBreak_cases hb with rfl | rfl | rfl | rfl <;> decide
    have hadvance : c.advance.rest = bs ++ (List.replicate k (CodePoint.scalar ' ') ++ rest) := by
      rw [Cursor.rest_advance, hc]
      rfl
    obtain ⟨fuel, rfl⟩ : ∃ fuel', fuel = fuel' + 1 := by
      rw [List.length_cons] at hfuel
      exact ⟨fuel - 1, by omega⟩
    have hmore := ih (fun x hx => hbs x (List.mem_cons_of_mem _ hx)) hadvance fuel
      (by rw [List.length_cons] at hfuel; omega)
    rw [quotedBreaks, hmarker, if_neg Bool.false_ne_true]
    simp only [hskip, hline, hmore]
    rw [List.length_cons, Nat.succ_add_eq_add_succ, Nat.add_succ, Cursor.forward]
    rfl

/-- Line ends in a row, with the indentation behind them. -/
theorem quotes_breaks {b : CodePoint} {bs : List CodePoint}
    (hbs : ∀ x ∈ b :: bs, isTextBreak x = true) {k : Nat} (hk : 0 < k) (h : StartsWord rest) :
    Quotes double (b :: (bs ++ List.replicate k (CodePoint.scalar ' '))) rest
      (foldBreaks (readBreak b) (bs.map readBreak)) := by
  refine .of_step ?_ (List.cons_ne_nil _ _)
  intro c fuel more last hc hmore
  have hb := hbs b List.mem_cons_self
  have hadvance : c.advance.rest = bs ++ (List.replicate k (CodePoint.scalar ' ') ++ rest) := by
    rw [Cursor.rest_advance, hc, List.cons_append, List.append_assoc]
    rfl
  have hlength : bs.length < c.advance.rest.length + 1 := by
    rw [hadvance, List.length_append]
    omega
  have hbreaks := quotedBreaks_breaks (fun x hx => hbs x (List.mem_cons_of_mem _ hx)) hk
    hadvance h hlength
  have hmove : quotedText double fuel (c.advance.forward (bs.length + k)) = some (more, last) := by
    rw [List.length_cons, List.length_append, List.length_replicate, Cursor.forward] at hmore
    exact hmore
  have hblank : b ≠ ' ' ∧ b ≠ '\t' ∧ isBreak b = true := by
    rcases isTextBreak_cases hb with rfl | rfl | rfl | rfl <;> decide
  rw [quotedText, hc, List.cons_append]
  simp [hblank, lineBreak?_textBreak hb hc, hbreaks, hmove]

/-- A line end with the indentation behind it is a space. -/
theorem quotes_newLine {k : Nat} (hk : 0 < k) (h : StartsWord rest) :
    Quotes double (↑ '\n' :: List.replicate k (CodePoint.scalar ' ')) rest [CodePoint.scalar ' '] :=
  quotes_breaks (show ∀ x ∈ [CodePoint.scalar '\n'], isTextBreak x = true by
    simp [isTextBreak]) hk h

/-! ### Escapes -/

/-- An escaped line end with the indentation behind it is nothing. -/
theorem quotes_escapedNewLine {k : Nat} (hk : 0 < k) (h : StartsWord rest) :
    Quotes true (↑ '\\' :: ↑ '\n' :: List.replicate k (CodePoint.scalar ' ')) rest [] := by
  refine .of_step ?_ (List.cons_ne_nil _ _)
  intro c fuel more last hc hmore
  have hadvance : c.advance.rest = ↑ '\n' :: (List.replicate k (CodePoint.scalar ' ') ++ rest) := by
    rw [Cursor.rest_advance, hc]
    rfl
  have hnext : c.advance.advance.rest = List.replicate k (CodePoint.scalar ' ') ++ rest := by
    rw [Cursor.rest_advance, hadvance]
    rfl
  have hnone : ∀ x ∈ [], isTextBreak x = true := nofun
  have hbreaks := quotedBreaks_breaks hnone hk hnext h (Nat.succ_pos c.advance.advance.rest.length)
  rw [List.map_nil, List.length_nil, Nat.zero_add] at hbreaks
  have hmove : quotedText true fuel (c.advance.advance.forward k) = some (more, last) := by
    rw [List.length_cons, List.length_cons, List.length_replicate, Nat.add_assoc, Nat.add_comm,
      Cursor.forward_add]
      at hmore
    exact hmore
  rw [quotedText, hc, List.cons_append]
  simp [isBreak, Cursor.peek_eq hadvance, escaped?, escapeWidth?,
    Cursor.lineBreak?_newLine hadvance, hbreaks, hmove]

/-- A character behind a backslash. -/
theorem quotes_letter {x y : CodePoint} (h : escaped? x = some y) (rest : List CodePoint) :
    Quotes true [CodePoint.scalar '\\', x] rest [y] := by
  refine .of_step ?_ (List.cons_ne_nil _ _)
  intro c fuel more last hc hmore
  have hadvance : c.advance.rest = x :: rest := by
    rw [Cursor.rest_advance, hc]
    rfl
  have hmove : quotedText true fuel c.advance.advance = some (more, last) := hmore
  rw [quotedText, hc, List.cons_append]
  simp [isBreak, Cursor.peek_eq hadvance, h, hmove]

/-- The digits of a character behind a backslash and the letter that tells how many they are. -/
theorem quotes_code {x y : CodePoint} {n : Nat} {ds : List CodePoint} (hletter : escaped? x = none)
    (hwidth : escapeWidth? x = some ds.length) (hvalue : Text.hexNumber? ds = some n)
    (hcode : charOfCode? n = some y) (rest : List CodePoint) :
    Quotes true (↑ '\\' :: x :: ds) rest [y] := by
  refine .of_step ?_ (List.cons_ne_nil _ _)
  intro c fuel more last hc hmore
  have hadvance : c.advance.rest = x :: (ds ++ rest) := by
    rw [Cursor.rest_advance, hc]
    rfl
  have hdigits : c.advance.advance.rest = ds ++ rest := by
    rw [Cursor.rest_advance, hadvance]
    rfl
  have hmove : quotedText true fuel (c.advance.advance.forward ds.length) = some (more, last) := by
    rw [List.length_cons, List.length_cons, Nat.add_assoc, Nat.add_comm,
      Cursor.forward_add] at hmore
    exact hmore
  rw [quotedText, hc, List.cons_append]
  simp [isBreak, Cursor.peek_eq hadvance, hletter, hwidth, hdigits, hvalue, hcode, hmove]

end

/-- Quoted text, with its closing quote, is read from behind its opening quote. -/
theorem quotedText_of_quotes {double : Bool} {q : CodePoint}
    (hq : q = if double then ↑ '"' else ↑ '\'') {piece rest text : List CodePoint}
    (h : Quotes double piece (q :: rest) text) (hrest : rest.head? ≠ some (CodePoint.scalar '\''))
    {c : Cursor} (hc : c.rest = q :: (piece ++ q :: rest)) :
    quotedText double (c.rest.length + 1) c.advance =
      some (text, c.forward (q :: (piece ++ [q])).length) := by
  have hadvance : c.advance.rest = piece ++ q :: rest := by
    rw [Cursor.rest_advance, hc]
    rfl
  obtain ⟨k, hk, hread⟩ := h c.advance hadvance
  have hclose : (c.advance.forward piece.length).rest = q :: rest := by
    rw [Cursor.rest_forward, hadvance, List.drop_left]
  have hlength : c.rest.length + 1 = (c.rest.length - k) + 1 + k := by
    rw [hc, List.length_cons, List.length_append]
    omega
  subst hq
  rw [hlength, hread _ _ _ (quotedText_close hclose hrest _), List.append_nil, List.length_cons,
    List.length_append, Cursor.forward, Cursor.forward_add]
  rfl

end Grove.Yaml
