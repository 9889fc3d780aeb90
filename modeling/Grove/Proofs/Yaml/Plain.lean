import Grove.Proofs.Yaml.Quoted
import Grove.Proofs.Yaml.Style
import Grove.Yaml.Folding

/-!
# Plain text read back

Plain text is words with spaces between them, and a single space may have become a line end. The
reader takes word after word and counts a line end as a space again, up to where the text stops.
-/
namespace Grove.Yaml

structure PlainWords (cs : List CodePoint) : Prop where
  start : ∀ x, cs.head? = some x → x ≠ ' ' ∧ x ≠ '#'
  final : cs.getLast? ≠ some (CodePoint.scalar ' ')
  inline : ∀ x ∈ cs, isInline x = true ∧ x ≠ '\t'
  colon : hasKeyColon cs = false
  comment : anyNeighbours (fun a b => isBlank a && b = '#') cs = false

namespace PlainWords

variable {cs : List CodePoint}

/-- Words go on behind spaces. -/
theorem behind {w more : List CodePoint} {n : Nat}
    (h : PlainWords (w ++ (List.replicate (n + 1) (CodePoint.scalar ' ') ++ more)))
    (hmore : ∀ x, more.head? = some x → x ≠ ' ') (hne : more ≠ []) : PlainWords more where
  start := by
    intro x hx
    refine ⟨hmore x hx, ?_⟩
    rintro rfl
    obtain ⟨ys, rfl⟩ : ∃ ys, more = ↑ '#' :: ys := by
      cases more with
      | nil => cases hx
      | cons y ys => cases hx; exact ⟨ys, rfl⟩
    have hcomment := h.comment
    rw [List.replicate_succ', List.append_assoc, List.singleton_append,
      ← List.append_assoc] at hcomment
    exact absurd (anyNeighbours_pair hcomment) (by decide)
  final := by
    have hfinal := h.final
    rw [← List.append_assoc, List.getLast?_append, List.getLast?_eq_some_getLast hne] at hfinal
    rwa [List.getLast?_eq_some_getLast hne]
  inline := fun x hx => h.inline x (List.mem_append_right _ (List.mem_append_right _ hx))
  colon := hasKeyColon_append (hasKeyColon_append h.colon)
  comment := anyNeighbours_append (anyNeighbours_append h.comment)

/-- Words are one word, or a word, spaces and words. -/
theorem split (h : PlainWords cs) : (∀ x ∈ cs, x ≠ ' ') ∨
    ∃ w n more, cs = w ++ (List.replicate (n + 1) (CodePoint.scalar ' ') ++ more) ∧ w ≠ [] ∧
      (∀ x ∈ w, x ≠ ' ') ∧ more ≠ [] ∧
      (∀ x, more.head? = some x → x ≠ ' ') ∧ PlainWords more := by
  by_cases hspace : ∀ x ∈ cs, x ≠ ' '
  · exact Or.inl hspace
  · right
    obtain ⟨w, gap, hcs, hw, hgap⟩ := exists_word cs
    have hgapne : gap ≠ [] := by
      rintro rfl
      rw [List.append_nil] at hcs
      exact hspace (hcs ▸ hw)
    obtain ⟨n, more, rfl, hmore⟩ := exists_spaces gap
    obtain ⟨m, rfl⟩ : ∃ m, n = m + 1 := by
      cases n with
      | zero => exact absurd rfl (hmore ' ' (hgap hgapne))
      | succ m => exact ⟨m, rfl⟩
    have hmorene : more ≠ [] := by
      rintro rfl
      refine h.final ?_
      rw [hcs, List.append_nil, List.replicate_succ', ← List.append_assoc, List.getLast?_concat]
    have hwne : w ≠ [] := by
      rintro rfl
      exact (h.start ' ' (by rw [hcs]; rfl)).1 rfl
    refine ⟨w, m, more, hcs, hwne, hw, hmorene, hmore, ?_⟩
    rw [hcs] at h
    exact h.behind hmore hmorene

end PlainWords

/-! ## Folding -/

theorem foldPlain_word (f : Folding) (column : Nat) {w : List CodePoint} (hw : ∀ x ∈ w, x ≠ ' ')
    (more : List CodePoint) :
    foldPlain f 0 column (w ++ more) = w ++ foldPlain f 0 (column + w.length) more := by
  induction w generalizing column with
  | nil => rfl
  | cons x w ih =>
    rw [List.cons_append, foldPlain, if_neg (hw x List.mem_cons_self), if_neg (by simp),
      ih (column + 0 + 1) (fun y hy => hw y (List.mem_cons_of_mem _ hy)), List.length_cons]
    simp only [List.replicate_zero, List.nil_append, List.cons_append, Nat.add_zero, Nat.add_assoc,
      Nat.add_comm 1]

theorem foldPlain_spaces (f : Folding) (s column n : Nat) (more : List CodePoint) :
    foldPlain f s column (List.replicate n (CodePoint.scalar ' ') ++ more) =
      foldPlain f (s + n) column more := by
  induction n generalizing s with
  | zero => rfl
  | succ n ih =>
    rw [List.replicate_succ, List.cons_append, foldPlain, if_pos rfl, ih]
    congr 1
    omega

/-- Spaces between words stay, or a single one becomes a line end with the indentation behind it. -/
theorem foldPlain_gap (f : Folding) (column n : Nat) {more : List CodePoint} (hne : more ≠ [])
    (hmore : ∀ x, more.head? = some x → x ≠ ' ') :
    ∃ gap column', foldPlain f 0 column (List.replicate (n + 1) (CodePoint.scalar ' ') ++ more) =
      gap ++ foldPlain f 0 column' more ∧
      (gap = List.replicate (n + 1) (CodePoint.scalar ' ') ∨ gap = f.newLine ∧ n = 0 ∧
        f.fold = true) := by
  obtain ⟨x, xs, rfl⟩ := List.exists_cons_of_ne_nil hne
  have hx := hmore x rfl
  have hword (column : Nat) : foldPlain f 0 column (x :: xs) = x :: foldPlain f 0 (column + 1) xs :=
    foldPlain_word f column (w := [x]) (by simpa using hx) xs
  rw [foldPlain_spaces, Nat.zero_add, foldPlain, if_neg hx]
  split
  · next h =>
    simp only [Bool.and_eq_true, decide_eq_true_eq] at h
    refine ⟨f.newLine, f.indent, by rw [hword], Or.inr ⟨rfl, by omega, h.2⟩⟩
  · exact ⟨List.replicate (n + 1) (CodePoint.scalar ' '), column + (n + 1), by
      rw [hword], Or.inl rfl⟩

theorem length_le_foldPlain (f : Folding) (spaces column : Nat) (cs : List CodePoint) :
    spaces + cs.length ≤ (foldPlain f spaces column cs).length := by
  induction cs generalizing spaces column with
  | nil => rw [foldPlain, List.length_replicate]; exact Nat.le_refl _
  | cons c cs ih =>
    rw [foldPlain]
    split
    · have hmore := ih (spaces + 1) column
      rw [List.length_cons]
      omega
    · split
      · next hends =>
        simp only [Bool.and_eq_true, decide_eq_true_eq] at hends
        have hmore := ih 0 (f.indent + 1)
        simp only [Folding.newLine, List.length_append, List.length_cons, List.length_replicate]
        omega
      · have hmore := ih 0 (column + spaces + 1)
        simp only [List.length_append, List.length_cons, List.length_replicate]
        omega

/-! ## Reading -/

theorem plainRun_word {w rest : List CodePoint} (hw : ∀ x ∈ w, isBlank x = false)
    (hcolon : w.getLast? ≠ some (CodePoint.scalar ':')) (hrest : plainRun false rest = 0) :
    plainRun false (w ++ rest) = w.length := by
  induction w with
  | nil => exact hrest
  | cons x w ih =>
    have hx := hw x List.mem_cons_self
    have hword : (x = ':' && endsWord (w ++ rest).head?) = false := by
      cases w with
      | nil =>
        have hne : x ≠ ':' := by
          rintro rfl
          exact hcolon rfl
        simp [hne]
      | cons y w =>
        have hy := hw y (List.mem_cons_of_mem _ List.mem_cons_self)
        simp [endsWord, hy]
    have hlast : w.getLast? ≠ some (CodePoint.scalar ':') := by
      cases w with
      | nil => nofun
      | cons y w => rwa [List.getLast?_cons_cons] at hcolon
    rw [List.cons_append, plainRun, hx]
    simp only [Bool.false_eq_true, if_false, Bool.false_and, Bool.or_false, hword]
    rw [ih (fun y hy => hw y (List.mem_cons_of_mem _ hy)) hlast, List.length_cons]

/-- Spaces inside a line of plain text. -/
theorem plainSpaces_spaces {c : Cursor} {n : Nat} {rest : List CodePoint}
    (h : c.rest = List.replicate n (CodePoint.scalar ' ') ++ rest)
    (hrest : ∀ x, rest.head? = some x → isBlank x = false) :
    plainSpaces c = (List.replicate n (CodePoint.scalar ' '), false, c.forward n) := by
  have hspan : c.span (· = ' ') = (List.replicate n (CodePoint.scalar ' '), c.forward n) := by
    have hmove := Cursor.span_eq (p := (· = ' ')) h
      (fun x hx => by simp [List.eq_of_mem_replicate hx])
      (fun x hx => decide_eq_false (ne_space_of_isBlank (hrest x hx)))
    rwa [List.length_replicate] at hmove
  have hbreak : (c.forward n).lineBreak? = none := by
    refine Cursor.lineBreak?_eq_none fun x hx => isBreak_of_isBlank (hrest x ?_)
    rwa [Cursor.rest_forward, h, List.drop_left' List.length_replicate] at hx
  simp only [plainSpaces, hspan, hbreak]

theorem plainBreaks_spaces {c : Cursor} {k fuel : Nat} {rest : List CodePoint}
    (h : c.rest = List.replicate k (CodePoint.scalar ' ') ++ rest)
    (hrest : ∀ x, rest.head? = some x → x ≠ ' ' ∧ isBreak x = false) (hfuel : k ≤ fuel) :
    plainBreaks fuel c = (some [], c.forward k) := by
  induction k generalizing c fuel with
  | zero =>
    have hsees : c.sees ' ' = false :=
      Cursor.sees_eq_false fun hx => (hrest ' ' (by rwa [h] at hx)).1 rfl
    have hbreak : c.lineBreak? = none :=
      Cursor.lineBreak?_eq_none fun x hx => (hrest x (by rwa [h] at hx)).2
    cases fuel with
    | zero => rfl
    | succ fuel =>
      simp only [plainBreaks, hsees, hbreak]
      rfl
  | succ k ih =>
    obtain ⟨fuel, rfl⟩ : ∃ fuel', fuel = fuel' + 1 := ⟨fuel - 1, by omega⟩
    have hsees : c.sees ' ' = true := by
      rw [Cursor.sees, Cursor.peek, h]
      rfl
    have hadvance : c.advance.rest = List.replicate k (CodePoint.scalar ' ') ++ rest := by
      rw [Cursor.rest_advance, h]
      rfl
    rw [plainBreaks, if_pos hsees, ih hadvance (by omega)]
    rfl

/-- A line end in plain text, unless it is in front of a marker of the document. -/
theorem plainSpaces_newLine {c : Cursor} {k : Nat} {rest : List CodePoint}
    (h : c.rest = ↑ '\n' :: (List.replicate k (CodePoint.scalar ' ') ++ rest))
    (hmarker : c.advance.atDocumentMarker = false)
    (hrest : ∀ x, rest.head? = some x → x ≠ ' ' ∧ isBreak x = false) :
    plainSpaces c = ([CodePoint.scalar ' '], true, c.forward (k + 1)) := by
  have hspan : c.span (· = ' ') = ([], c) :=
    Cursor.span_eq (show c.rest = [] ++ _ from h) nofun (fun x hx => by cases hx; rfl)
  have hadvance : c.advance.rest = List.replicate k (CodePoint.scalar ' ') ++ rest := by
    rw [Cursor.rest_advance, h]
    rfl
  have hlength : k ≤ c.advance.rest.length := by
    rw [hadvance, List.length_append, List.length_replicate]
    exact Nat.le_add_right k _
  have hbreaks := plainBreaks_spaces hadvance hrest hlength
  simp only [plainSpaces, hspan, Cursor.lineBreak?_newLine h, hmarker, hbreaks]
  rfl

/-- A line end in front of a marker of the document. -/
theorem plainSpaces_marker {c : Cursor} {rest : List CodePoint} (h : c.rest = ↑ '\n' :: rest)
    (hmarker : c.advance.atDocumentMarker = true) : plainSpaces c = ([], true, c.advance) := by
  have hspan : c.span (· = ' ') = ([], c) :=
    Cursor.span_eq (show c.rest = [] ++ _ from h) nofun (fun x hx => by cases hx; rfl)
  simp only [plainSpaces, hspan, Cursor.lineBreak?_newLine h, hmarker, if_true]

/-- One word of plain text, and what is made of the spaces behind it. -/
theorem plainText_word {m : Int} {fuel : Nat} {before : Bool}
    {spaces w rest : List CodePoint} {c : Cursor} (h : c.rest = w ++ rest) (hne : w ≠ [])
    (hw : ∀ x ∈ w, isBlank x = false) (hhash : w.head? ≠ some (CodePoint.scalar '#'))
    (hcolon : w.getLast? ≠ some (CodePoint.scalar ':')) (hrest : plainRun false rest = 0)
    {between : List CodePoint} {broke : Bool} {next : Cursor}
    (hspaces : plainSpaces (c.forward w.length) = (between, broke, next)) :
    plainText false m (fuel + 1) before spaces c =
      if between.isEmpty || next.sees '#' || (!false && decide ((next.column : Int) < m)) then
        (spaces ++ w, broke, next)
      else
        let (more, ended, last) := plainText false m fuel broke between next
        (spaces ++ w ++ more, ended, last) := by
  have hsees : c.sees '#' = false := by
    refine Cursor.sees_eq_false ?_
    obtain ⟨x, xs, rfl⟩ := List.exists_cons_of_ne_nil hne
    rw [h]
    exact hhash
  have hrun : plainRun false c.rest = w.length := by rw [h, plainRun_word hw hcolon hrest]
  have hlength : w.length ≠ 0 := fun hzero => hne (List.length_eq_zero_iff.mp hzero)
  have htake : c.rest.take w.length = w := by rw [h, List.take_left]
  rw [plainText, hsees, if_neg Bool.false_ne_true]
  simp only [hrun, hlength, if_false, htake, hspaces]

theorem foldPlain_nil (f : Folding) (column : Nat) : foldPlain f 0 column [] = [] :=
  rfl

theorem head?_foldPlain (f : Folding) (column : Nat) {cs : List CodePoint}
    (h : ∀ x, cs.head? = some x → x ≠ ' ') :
    (foldPlain f 0 column cs).head? = cs.head? := by
  cases cs with
  | nil => rfl
  | cons x xs =>
    have hx : ∀ y ∈ [x], y ≠ ' ' := by
      intro y hy
      rw [List.mem_singleton.mp hy]
      exact h x rfl
    rw [show x :: xs = [x] ++ xs from rfl, foldPlain_word f column hx]
    rfl

/-- A word is followed by a blank, or it stands at the end; so it does not end with a colon. -/
theorem PlainWords.getLast?_word {w more : List CodePoint} (h : PlainWords (w ++ more))
    (hmore : endsWord more.head? = true) : w.getLast? ≠ some (CodePoint.scalar ':') := by
  intro hlast
  obtain ⟨ys, rfl⟩ := List.getLast?_eq_some_iff.mp hlast
  have hcolon := h.colon
  rw [List.append_assoc] at hcolon
  exact absurd (hmore.symm.trans (@hasKeyColon_at ys more hcolon)) (by decide)

/-- Where plain text stops in front of `rest`: what stands behind it is no more of it. -/
def PlainStops (m : Int) (d : Cursor) (ended : Bool) (next : Cursor) : Prop :=
  plainRun false d.rest = 0 ∧ ∃ between, plainSpaces d = (between, ended, next) ∧
    (between.isEmpty || next.sees '#' || (!false && decide ((next.column : Int) < m))) = true

/-- The gap between two words is read as the spaces that it was, and text goes on behind it. -/
theorem plainSpaces_gap {f : Folding} {m : Int}
    (hfold : f.fold = true → 0 < f.indent ∧ m ≤ f.indent) {gap behind : List CodePoint} {n : Nat}
    (hgap : gap = List.replicate (n + 1) (CodePoint.scalar ' ') ∨ gap = f.newLine ∧ n = 0 ∧
      f.fold = true) {d : Cursor}
    (hrest : d.rest = gap ++ behind) (hbehind : ∀ x, behind.head? = some x → isBlank x = false)
    (hcolumn : m ≤ d.column) :
    (∃ broke, plainSpaces d = (List.replicate (n + 1) (CodePoint.scalar ' '), broke,
      d.forward gap.length)) ∧
      m ≤ (d.forward gap.length).column := by
  rcases hgap with rfl | ⟨rfl, rfl, hfolds⟩
  · rw [List.length_replicate]
    refine ⟨⟨false, plainSpaces_spaces hrest hbehind⟩, ?_⟩
    rw [Cursor.forward_spaces hrest]
    push_cast
    omega
  · obtain ⟨hindent, hdeep⟩ := hfold hfolds
    have hlength : f.newLine.length = f.indent + 1 := by
      rw [Folding.newLine, List.length_cons, List.length_replicate]
    have hadvance : d.advance.rest = List.replicate f.indent (CodePoint.scalar ' ') ++ behind := by
      rw [Cursor.rest_advance, hrest]
      rfl
    have hmarker := atDocumentMarker_indented hindent hadvance
    have hafter : ∀ x, behind.head? = some x → x ≠ ' ' ∧ isBreak x = false :=
      fun x hx => ⟨ne_space_of_isBlank (hbehind x hx), isBreak_of_isBlank (hbehind x hx)⟩
    rw [hlength]
    refine ⟨⟨true, plainSpaces_newLine hrest hmarker hafter⟩, ?_⟩
    rw [Cursor.forward_newLine hrest]
    exact hdeep

theorem PlainWords.notBlank {cs : List CodePoint} (h : PlainWords cs) {x : CodePoint} (hx : x ∈ cs)
    (hspace : x ≠ ' ') :
    isBlank x = false :=
  isBlank_eq_false (h.inline x hx).1 (h.inline x hx).2 hspace

theorem PlainWords.head?_ne {cs : List CodePoint} (h : PlainWords cs) :
    cs.head? ≠ some (CodePoint.scalar '#') :=
  fun hx => (h.start '#' hx).2 rfl

/-- The last word of plain text is read up to where the text stops. -/
theorem plainText_lastWord {m : Int} {cs rest : List CodePoint}
    (hcs : PlainWords cs) (hne : cs ≠ []) (hword : ∀ x ∈ cs, x ≠ ' ') {c : Cursor}
    (h : c.rest = cs ++ rest) {ended : Bool} {next : Cursor}
    (hstop : PlainStops m (c.forward cs.length) ended next) (fuel : Nat) (before : Bool)
    (spaces : List CodePoint) :
    plainText false m (fuel + 1) before spaces c = (spaces ++ cs, ended, next) := by
  obtain ⟨hrun, between, hspaces, hover⟩ := hstop
  rw [Cursor.rest_forward, h, List.drop_left] at hrun
  have hlast : cs.getLast? ≠ some (CodePoint.scalar ':') := by
    rw [← List.append_nil cs] at hcs
    exact hcs.getLast?_word rfl
  rw [plainText_word h hne (fun x hx => hcs.notBlank hx (hword x hx)) hcs.head?_ne hlast hrun
    hspaces, if_pos hover]

/-- A word in front of a gap is read with the gap, and text goes on behind both. -/
theorem plainText_wordGap {f : Folding} {m : Int}
    (hfold : f.fold = true → 0 < f.indent ∧ m ≤ f.indent) {w more gap behind : List CodePoint}
    {n : Nat} (hcs : PlainWords (w ++ (List.replicate (n + 1) (CodePoint.scalar ' ') ++ more)))
    (hne : w ≠ []) (hw : ∀ x ∈ w, x ≠ ' ') (hmore : ∀ x, more.head? = some x → x ≠ ' ')
    (hmorene : more ≠ []) (hgap : gap = List.replicate (n + 1) (CodePoint.scalar ' ') ∨
      gap = f.newLine ∧ n = 0 ∧ f.fold = true)
    (hbehind : behind.head? = more.head?) {c : Cursor} (h : c.rest = w ++ (gap ++ behind))
    (hcolumn : m ≤ c.column + 1) (fuel : Nat) (before : Bool) (spaces : List CodePoint) :
    m ≤ (c.forward (w ++ gap).length).column ∧ ∃ broke,
      plainText false m (fuel + 1) before spaces c =
      let (text, ended, last) :=
        plainText false m fuel broke (List.replicate (n + 1) (CodePoint.scalar ' '))
          (c.forward (w ++ gap).length)
      (spaces ++ w ++ text, ended, last) := by
  have hrest : (c.forward w.length).rest = gap ++ behind := by
    rw [Cursor.rest_forward, h, List.drop_left]
  have hnonblank : ∀ x, behind.head? = some x → isBlank x = false := by
    intro x hx
    rw [hbehind] at hx
    refine hcs.notBlank ?_ (hmore x hx)
    exact List.mem_append_right _ (List.mem_append_right _ (List.mem_of_mem_head? hx))
  have hword : m ≤ (c.forward w.length).column := by
    have hpos : 0 < w.length := List.length_pos_iff.mpr hne
    rw [Cursor.forward_inline h fun x hx => (hcs.inline x (List.mem_append_left _ hx)).1]
    push_cast
    omega
  obtain ⟨⟨broke, hspaces⟩, hbelow⟩ := plainSpaces_gap hfold hgap hrest hnonblank hword
  have hrun : plainRun false (gap ++ behind) = 0 := by
    rcases hgap with rfl | ⟨rfl, -, -⟩ <;> rfl
  have hfirst : w.head? ≠ some (CodePoint.scalar '#') := by
    obtain ⟨x, xs, rfl⟩ := List.exists_cons_of_ne_nil hne
    exact hcs.head?_ne
  have hsees : ((c.forward w.length).forward gap.length).sees '#' = false := by
    refine Cursor.sees_eq_false ?_
    rw [Cursor.rest_forward, hrest, List.drop_left, hbehind]
    exact (hcs.behind hmore hmorene).head?_ne
  rw [List.length_append, Cursor.forward_add]
  refine ⟨hbelow, broke, ?_⟩
  rw [plainText_word h hne (fun x hx => hcs.notBlank (List.mem_append_left _ hx) (hw x hx)) hfirst
    (hcs.getLast?_word rfl) hrun hspaces, if_neg (by simpa [hsees] using hbelow)]

/-- Plain text is read back, however its lines were ended, up to where it stops. -/
theorem plainText_foldPlain (f : Folding) {m : Int}
    (hfold : f.fold = true → 0 < f.indent ∧ m ≤ f.indent) {cs : List CodePoint}
    (hcs : PlainWords cs) (hne : cs ≠ []) {rest : List CodePoint} {fuel : Nat}
    (hfuel : cs.length ≤ fuel) (column : Nat) {c : Cursor}
    (h : c.rest = foldPlain f 0 column cs ++ rest) (hcolumn : m ≤ c.column + 1) (before : Bool)
    (spaces : List CodePoint) {ended : Bool} {next : Cursor}
    (hstop : PlainStops m (c.forward (foldPlain f 0 column cs).length) ended next) :
    plainText false m fuel before spaces c = (spaces ++ cs, ended, next) := by
  induction fuel generalizing cs column c before spaces with
  | zero => exact absurd (List.length_eq_zero_iff.mp (Nat.le_zero.mp hfuel)) hne
  | succ fuel ih =>
    rcases hcs.split with hword | ⟨w, n, more, rfl, hwne, hw, hmorene, hmore, hwords⟩
    · have hfolded : foldPlain f 0 column cs = cs := by
        have hfolded := foldPlain_word f column hword []
        rwa [foldPlain_nil, List.append_nil] at hfolded
      rw [hfolded] at h hstop
      exact plainText_lastWord hcs hne hword h hstop fuel before spaces
    · obtain ⟨gap, column', hgap, hkind⟩ := foldPlain_gap f (column + w.length) n hmorene hmore
      rw [foldPlain_word f column hw, hgap, ← List.append_assoc] at h hstop
      have hhead : (foldPlain f 0 column' more ++ rest).head? = more.head? := by
        obtain ⟨x, xs, rfl⟩ := List.exists_cons_of_ne_nil hmorene
        rw [List.head?_append, head?_foldPlain f column' hmore]
        rfl
      have hnext : (c.forward (w ++ gap).length).rest = foldPlain f 0 column' more ++ rest := by
        rw [Cursor.rest_forward, h, List.append_assoc, List.drop_left]
      have hlength : more.length ≤ fuel := by
        simp only [List.length_append, List.length_replicate] at hfuel
        omega
      have hstop' : PlainStops m
          ((c.forward (w ++ gap).length).forward (foldPlain f 0 column' more).length) ended
          next := by
        rwa [← Cursor.forward_add, ← List.length_append]
      rw [List.append_assoc, List.append_assoc] at h
      obtain ⟨hbelow, broke, hstep⟩ :=
        plainText_wordGap hfold hcs hwne hw hmore hmorene hkind hhead h hcolumn fuel before spaces
      rw [hstep, ih hwords hmorene hlength column' hnext (by omega) broke _ hstop']
      simp only [List.append_assoc]

end Grove.Yaml
