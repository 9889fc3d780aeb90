import Grove.Proofs.Yaml.Quoted
import Grove.Proofs.Yaml.Style
import Grove.Yaml.Folding

/-!
# Single-quoted text read back

Text between single quotes is words, spaces and runs of line ends. The writer doubles a line feed
that comes first in its run, since the reader takes a single line end for a space. A next line
character it does not double, and the reader takes it for a line feed, so that these are the only
characters that are lost.
-/
namespace Grove.Yaml

def rereadSingle : Bool → List CodePoint → List CodePoint
  | _, [] => []
  | behindBreak, c :: cs =>
    if c = '\x85' then
      if behindBreak then ↑ '\n' :: rereadSingle true cs
      else if cs.head?.any isTextBreak then rereadSingle true cs
      else ↑ ' ' :: rereadSingle true cs
    else c :: rereadSingle (isTextBreak c) cs

theorem rereadSingle_eq {cs : List CodePoint} (h : ↑ '\x85' ∉ cs) (behindBreak : Bool) :
    rereadSingle behindBreak cs = cs := by
  induction cs generalizing behindBreak with
  | nil => rfl
  | cons c cs ih =>
    rw [List.mem_cons, not_or] at h
    rw [rereadSingle, if_neg (Ne.symm h.1), ih h.2]

theorem notMem_rereadSingle (behindBreak : Bool) (cs : List CodePoint) :
    ↑ '\x85' ∉ rereadSingle behindBreak cs := by
  induction cs generalizing behindBreak with
  | nil => nofun
  | cons c cs ih =>
    rw [rereadSingle]
    split
    · split
      · exact List.not_mem_cons_of_ne_of_not_mem (by decide) (ih true)
      · split
        · exact ih true
        · exact List.not_mem_cons_of_ne_of_not_mem (by decide) (ih true)
    · next hc => exact List.not_mem_cons_of_ne_of_not_mem (Ne.symm hc) (ih _)

/-! ## Runs of line ends -/

theorem rereadSingle_behindBreak {more : List CodePoint} (h : more.head?.any isTextBreak = false) :
    rereadSingle true more = rereadSingle false more := by
  cases more with
  | nil => rfl
  | cons c cs =>
    have hc : c ≠ '\x85' := by
      rintro rfl
      cases h
    rw [rereadSingle, rereadSingle, if_neg hc, if_neg hc]

theorem rereadSingle_others {bs more : List CodePoint} (hbs : ∀ b ∈ bs, isTextBreak b = true)
    (hmore : more.head?.any isTextBreak = false) :
    rereadSingle true (bs ++ more) = bs.map readBreak ++ rereadSingle false more := by
  induction bs with
  | nil => exact rereadSingle_behindBreak hmore
  | cons b bs ih =>
    have hmoreBreaks := ih fun x hx => hbs x (List.mem_cons_of_mem _ hx)
    rw [List.cons_append, rereadSingle, List.map_cons, List.cons_append, ← hmoreBreaks,
      hbs b List.mem_cons_self, if_pos rfl]
    rcases isTextBreak_cases (hbs b List.mem_cons_self) with rfl | rfl | rfl | rfl <;> rfl

/-- What is written for a run of line ends is read back as the run is reread. -/
theorem quotes_run {b : CodePoint} {bs more rest : List CodePoint}
    (hbs : ∀ x ∈ b :: bs, isTextBreak x = true) (hmore : more.head?.any isTextBreak = false)
    {k : Nat} (hk : 0 < k) (hrest : StartsWord rest) :
    ∃ text, Quotes false (singleBreak true b ++ bs ++
      List.replicate k (CodePoint.scalar ' ')) rest text ∧
      rereadSingle false (b :: (bs ++ more)) = text ++ rereadSingle false more := by
  have hothers := rereadSingle_others (fun x hx => hbs x (List.mem_cons_of_mem _ hx)) hmore
  rcases isTextBreak_cases (hbs b List.mem_cons_self) with rfl | rfl | rfl | rfl
  · refine ⟨↑ '\n' :: bs.map readBreak, ?_, ?_⟩
    · have hdouble : ∀ x ∈ ↑ '\n' :: ↑ '\n' :: bs, isTextBreak x = true :=
        List.forall_mem_cons.mpr ⟨rfl, hbs⟩
      exact quotes_breaks hdouble hk hrest
    · rw [rereadSingle, if_neg (by decide), List.cons_append, ← hothers]
      rfl
  · refine ⟨if bs.isEmpty then [CodePoint.scalar ' '] else bs.map readBreak, ?_, ?_⟩
    · have hquotes : Quotes false _ rest _ := quotes_breaks hbs hk hrest
      cases bs <;> exact hquotes
    · cases bs with
      | nil =>
        rw [rereadSingle, if_pos rfl, if_neg Bool.false_ne_true, List.nil_append, hmore,
          if_neg Bool.false_ne_true]
        rw [rereadSingle_behindBreak hmore]
        rfl
      | cons d bs =>
        have hd := hbs d (List.mem_cons_of_mem _ List.mem_cons_self)
        rw [rereadSingle, if_pos rfl, if_neg Bool.false_ne_true,
          if_pos (by simpa using hd), hothers]
        rfl
  · refine ⟨↑ '\u2028' :: bs.map readBreak, quotes_breaks hbs hk hrest, ?_⟩
    rw [rereadSingle, if_neg (by decide), List.cons_append, ← hothers]
    rfl
  · refine ⟨↑ '\u2029' :: bs.map readBreak, quotes_breaks hbs hk hrest, ?_⟩
    rw [rereadSingle, if_neg (by decide), List.cons_append, ← hothers]
    rfl

/-! ## Folding -/

/-- Text that single quotes can hold. -/
structure SingleText (cs : List CodePoint) : Prop where
  plain : ∀ x ∈ cs, isSpecial x = false
  spaceBreak : anyNeighbours (fun a b => a = ' ' && isTextBreak b) cs = false
  breakSpace : anyNeighbours (fun a b => isTextBreak a && b = ' ') cs = false

theorem singleText_of_allowsSingle {cs : List CodePoint} (h : allowsSingle cs = true) :
    SingleText cs := by
  simp only [allowsSingle, Bool.and_eq_true, Bool.not_eq_true', List.any_eq_false,
    Bool.not_eq_true] at h
  exact ⟨h.1.1, h.1.2, h.2⟩

namespace SingleText

variable {cs ds : List CodePoint}

theorem behind (h : SingleText (cs ++ ds)) : SingleText ds where
  plain x hx := h.plain x (List.mem_append_right _ hx)
  spaceBreak := anyNeighbours_append h.spaceBreak
  breakSpace := anyNeighbours_append h.breakSpace

theorem isBlank_eq_false {x : CodePoint} (h : SingleText cs) (hx : x ∈ cs)
    (hedge : isEdge x = false) :
    isBlank x = false := by
  have hplain := h.plain x hx
  simp only [isEdge, isTextBreak, Bool.or_eq_false_iff, decide_eq_false_iff_not] at hedge
  simp only [isBlank, isBreak, Bool.or_eq_false_iff, decide_eq_false_iff_not]
  refine ⟨⟨hedge.1, ?_⟩, ⟨⟨⟨⟨?_, ?_⟩, ?_⟩, ?_⟩, ?_⟩⟩
  · rintro rfl
    exact absurd hplain (by decide)
  · exact hedge.2.1.1.1
  · rintro rfl
    exact absurd hplain (by decide)
  · exact hedge.2.1.1.2
  · exact hedge.2.1.2
  · exact hedge.2.2

end SingleText

section

variable {f : Folding} {more rest : List CodePoint}

theorem quotes_singleChar {x : CodePoint} (h : isBlank x = false) (rest : List CodePoint) :
    Quotes false (singleChar x) rest [x] := by
  unfold singleChar
  split
  · next hx =>
    subst hx
    exact quotes_quote rest
  · next hx =>
    have hmark : x ≠ (if false then ↑ '"' else ↑ '\'') := hx
    exact quotes_char h hmark nofun rest

theorem foldSingle_char (column : Nat) {x : CodePoint} (hx : isEdge x = false) {behind : Behind}
    (hbehind : behind = .quote ∨ behind = .text) (cs : List CodePoint) :
    foldSingle f behind column (x :: cs) =
      singleChar x ++ foldSingle f .text (column + (singleChar x).length) cs := by
  simp only [isEdge, Bool.or_eq_false_iff, decide_eq_false_iff_not] at hx
  rcases hbehind with rfl | rfl <;> simp [foldSingle, hx]

theorem foldSingle_spaces (n : Nat) (first : Bool) (column k : Nat) (more : List CodePoint) :
    foldSingle f (.spaces n first) column (List.replicate k (CodePoint.scalar ' ') ++ more) =
      foldSingle f (.spaces (n + k) first) column more := by
  induction k generalizing n with
  | zero => rfl
  | succ k ih =>
    rw [List.replicate_succ, List.cons_append, foldSingle, if_pos rfl, ih]
    congr 2
    omega

/-- Spaces stay, or a single one becomes a line end with the indentation behind it. -/
theorem foldSingle_gap (n : Nat) (first : Bool) (column : Nat)
    (hmore : more.head?.any isEdge = false) :
    ∃ gap column', foldSingle f (.spaces (n + 1) first) column more =
      gap ++ foldSingle f .text column' more ∧
      (gap = List.replicate (n + 1) (CodePoint.scalar ' ') ∨ gap = f.newLine ∧ n = 0 ∧
        f.fold = true) := by
  cases more with
  | nil => exact ⟨List.replicate (n + 1) (CodePoint.scalar ' '),
      0, by simp [foldSingle], Or.inl rfl⟩
  | cons x xs =>
    have hx : isEdge x = false := hmore
    have hword := fun column => foldSingle_char (f := f) column hx (Or.inr rfl) xs
    simp only [isEdge, Bool.or_eq_false_iff, decide_eq_false_iff_not] at hx
    by_cases hfold : ((n = 0 ∧ first = false) ∧ width < column) ∧ f.fold = true
    · refine ⟨f.newLine, f.indent, ?_, Or.inr ⟨rfl, hfold.1.1.1, hfold.2⟩⟩
      rw [hword]
      simp [foldSingle, hx, hfold]
    · refine ⟨List.replicate (n + 1) (CodePoint.scalar ' '), column + (n + 1), ?_, Or.inl rfl⟩
      rw [hword]
      simp [foldSingle, hx, hfold]

theorem foldSingle_others {bs : List CodePoint}
    (hbs : ∀ b ∈ bs, isTextBreak b = true) (column : Nat) (hmore : more.head?.any isEdge = false) :
    foldSingle f .breaks column (bs ++ more) =
      bs ++ List.replicate f.indent (CodePoint.scalar ' ') ++ foldSingle f .text f.indent more := by
  induction bs generalizing column with
  | nil =>
    cases more with
    | nil => simp [foldSingle]
    | cons x xs =>
      have hx : isEdge x = false := hmore
      rw [foldSingle_char f.indent hx (Or.inr rfl)]
      simp only [isEdge, Bool.or_eq_false_iff, decide_eq_false_iff_not] at hx
      simp [foldSingle, hx]
  | cons b bs ih =>
    have hb := hbs b List.mem_cons_self
    have hspace : b ≠ ' ' := by
      rintro rfl
      cases hb
    rw [List.cons_append, foldSingle, if_neg hspace, if_pos hb]
    simp only [ih (fun x hx => hbs x (List.mem_cons_of_mem _ hx)) 0, singleBreak, Bool.false_and,
      Bool.false_eq_true, if_false, List.cons_append, List.nil_append]

/-- A run of line ends is written with the first one doubled if it is a line feed. -/
theorem foldSingle_run {b : CodePoint} {bs : List CodePoint}
    (hbs : ∀ x ∈ b :: bs, isTextBreak x = true) (column : Nat)
    (hmore : more.head?.any isEdge = false) {behind : Behind}
    (hbehind : behind = .quote ∨ behind = .text) :
    foldSingle f behind column (b :: (bs ++ more)) =
      singleBreak true b ++ bs ++ List.replicate f.indent (CodePoint.scalar ' ') ++
        foldSingle f .text f.indent more := by
  have hb := hbs b List.mem_cons_self
  have hspace : b ≠ ' ' := by
    rintro rfl
    cases hb
  have hothers := foldSingle_others (f := f) (fun x hx => hbs x (List.mem_cons_of_mem _ hx)) 0 hmore
  rcases hbehind with rfl | rfl <;> simp [foldSingle, hspace, hb, hothers]

/-! ## Reading -/

theorem startsWord_foldSingle (column : Nat) (hmore : more.head?.any isEdge = false)
    (h : SingleText more) (hrest : StartsWord rest) :
    StartsWord (foldSingle f .text column more ++ rest) := by
  cases more with
  | nil => exact hrest
  | cons x xs =>
    have hblank := h.isBlank_eq_false List.mem_cons_self hmore
    rw [foldSingle_char column hmore (Or.inr rfl), singleChar]
    split
    · exact startsWord_cons (by decide) _
    · exact startsWord_cons hblank _

theorem rereadSingle_spaces (n : Nat) (more : List CodePoint) :
    rereadSingle false (List.replicate n (CodePoint.scalar ' ') ++ more) =
      List.replicate n (CodePoint.scalar ' ') ++ rereadSingle false more := by
  induction n with
  | zero => rfl
  | succ n ih => exact congrArg (↑ ' ' :: ·) ih

/-- Spaces are followed by text that starts with a word. -/
theorem SingleText.behindSpaces {n : Nat}
    (h : SingleText (List.replicate (n + 1) (CodePoint.scalar ' ') ++ more))
    (hmore : ∀ x, more.head? = some x → x ≠ ' ') : more.head?.any isEdge = false := by
  cases more with
  | nil => rfl
  | cons x xs =>
    have hpair := h.spaceBreak
    rw [List.replicate_succ', List.append_assoc, List.singleton_append] at hpair
    have hbreak : isTextBreak x = false := by simpa using anyNeighbours_pair hpair
    simp [isEdge, hmore x rfl, hbreak]

theorem SingleText.behindBreaks {b : CodePoint} {bs : List CodePoint}
    (h : SingleText (b :: (bs ++ more))) (hbs : ∀ x ∈ b :: bs, isTextBreak x = true)
    (hmore : more.head?.any isTextBreak = false) :
    more.head?.any isEdge = false := by
  cases more with
  | nil => rfl
  | cons x xs =>
    have hbreak : isTextBreak x = false := hmore
    have hpair := h.breakSpace
    rw [← List.cons_append, ← List.dropLast_concat_getLast (List.cons_ne_nil b bs),
      List.append_assoc, List.singleton_append] at hpair
    have hlast := hbs _ (List.getLast_mem (List.cons_ne_nil b bs))
    have hspace : x ≠ ' ' := by simpa [hlast] using anyNeighbours_pair hpair
    simp [isEdge, hspace, hbreak]

theorem quotes_gap (hf : f.fold = true → 0 < f.indent) {n : Nat} {gap : List CodePoint}
    (hgap : gap = List.replicate (n + 1) (CodePoint.scalar ' ') ∨ gap = f.newLine ∧ n = 0 ∧
      f.fold = true) (hrest : StartsWord rest) :
    Quotes false gap rest (List.replicate (n + 1) (CodePoint.scalar ' ')) := by
  rcases hgap with rfl | ⟨rfl, rfl, hfold⟩
  · exact quotes_spaces n hrest
  · exact quotes_newLine (hf hfold) hrest

section

variable (hrest : StartsWord rest) {behind : Behind} (hbehind : behind = .quote ∨ behind = .text)
  (hnext : ∀ column, Quotes false (foldSingle f .text column more) rest (rereadSingle false more))

include hrest hbehind hnext

/-- Spaces, and the text behind them. -/
theorem quotes_singleSpaces (hf : f.fold = true → 0 < f.indent) {n : Nat}
    (hcs : SingleText (List.replicate (n + 1) (CodePoint.scalar ' ') ++ more))
    (hmore : ∀ x, more.head? = some x → x ≠ ' ') (column : Nat) :
    Quotes false (foldSingle f behind column
      (List.replicate (n + 1) (CodePoint.scalar ' ') ++ more)) rest
      (rereadSingle false (List.replicate (n + 1) (CodePoint.scalar ' ') ++ more)) := by
  have hword := hcs.behindSpaces hmore
  obtain ⟨first, hfirst⟩ :
      ∃ first, foldSingle f behind column (List.replicate (n + 1) (CodePoint.scalar ' ') ++ more) =
      foldSingle f (.spaces (n + 1) first) column more := by
    have hspaces := fun first => foldSingle_spaces (f := f) 1 first column n more
    rw [Nat.add_comm 1 n] at hspaces
    rcases hbehind with rfl | rfl
    · exact ⟨true, hspaces true⟩
    · exact ⟨false, hspaces false⟩
  obtain ⟨gap, column', hgap, hkind⟩ := foldSingle_gap (f := f) n first column hword
  rw [hfirst, hgap, rereadSingle_spaces]
  exact (quotes_gap hf hkind (startsWord_foldSingle column' hword hcs.behind hrest)).append
    (hnext column')

/-- A run of line ends, and the text behind it. -/
theorem quotes_singleRun (hindent : 0 < f.indent) {b : CodePoint} {bs : List CodePoint}
    (hcs : SingleText (b :: (bs ++ more))) (hbs : ∀ x ∈ b :: bs, isTextBreak x = true)
    (hmore : more.head?.any isTextBreak = false) (column : Nat) :
    Quotes false (foldSingle f behind column (b :: (bs ++ more))) rest
      (rereadSingle false (b :: (bs ++ more))) := by
  have hword := hcs.behindBreaks hbs hmore
  have htail : SingleText more := SingleText.behind (show SingleText ((b :: bs) ++ more) from hcs)
  obtain ⟨text, hquotes, hreread⟩ :=
    quotes_run hbs hmore hindent (startsWord_foldSingle f.indent hword htail hrest)
  rw [foldSingle_run hbs column hword hbehind, hreread]
  exact hquotes.append (hnext f.indent)

omit hrest in
/-- A character of a word, and the text behind it. -/
theorem quotes_singleWord {x : CodePoint} (hcs : SingleText (x :: more))
    (hx : isEdge x = false) (column : Nat) :
    Quotes false (foldSingle f behind column (x :: more)) rest
      (rereadSingle false (x :: more)) := by
  have hnel : x ≠ '\x85' := by
    rintro rfl
    cases hx
  have hbreak : isTextBreak x = false := (Bool.or_eq_false_iff.mp hx).2
  rw [foldSingle_char column hx hbehind, rereadSingle, if_neg hnel, hbreak]
  exact (quotes_singleChar (hcs.isBlank_eq_false List.mem_cons_self hx) _).append (hnext _)

end

/-- Single-quoted text is read as it is reread. Its lines go on at an indentation if there are
any. -/
theorem quotes_foldSingle (hf : f.fold = true → 0 < f.indent) (hrest : StartsWord rest)
    {cs : List CodePoint} (hcs : SingleText cs) (hbreaks : cs.any isTextBreak = true → 0 < f.indent)
    (column : Nat) {behind : Behind} (hbehind : behind = .quote ∨ behind = .text) :
    Quotes false (foldSingle f behind column cs) rest (rereadSingle false cs) := by
  induction hn : cs.length using Nat.strongRecOn generalizing behind column cs with
  | ind n ih =>
    subst hn
    have hnext {part more : List CodePoint} (hparts : cs = part ++ more)
        (hne : part ≠ []) (column : Nat) :
        Quotes false (foldSingle f .text column more) rest (rereadSingle false more) := by
      subst hparts
      refine ih more.length ?_ hcs.behind ?_ column (Or.inr rfl) rfl
      · have hpos := List.length_pos_iff.mpr hne
        rw [List.length_append]
        omega
      · intro hany
        exact hbreaks (by rw [List.any_append, hany, Bool.or_true])
    cases cs with
    | nil => rcases hbehind with rfl | rfl <;> exact .nil false rest
    | cons x xs =>
      by_cases hspace : x = ' '
      · obtain ⟨n, more, rfl, hmore⟩ := exists_spaces xs
        subst hspace
        have hparts : ↑ ' ' :: (List.replicate n (CodePoint.scalar ' ') ++ more) =
            List.replicate (n + 1) (CodePoint.scalar ' ') ++ more := rfl
        exact quotes_singleSpaces hrest hbehind (hnext hparts (List.cons_ne_nil _ _))
          hf hcs hmore column
      · by_cases hbreak : isTextBreak x = true
        · obtain ⟨bs, more, rfl, hrun, hmore⟩ := exists_run isTextBreak xs
          have hbs : ∀ y ∈ x :: bs, isTextBreak y = true := List.forall_mem_cons.mpr ⟨hbreak, hrun⟩
          have hparts : x :: (bs ++ more) = (x :: bs) ++ more := rfl
          have hindent := hbreaks (by simp [hbreak])
          exact quotes_singleRun hrest hbehind (hnext hparts (List.cons_ne_nil _ _)) hindent
            hcs hbs hmore column
        · have hedge : isEdge x = false := by simp [isEdge, hspace, hbreak]
          have hparts : x :: xs = [x] ++ xs := rfl
          exact quotes_singleWord hbehind (hnext hparts (List.cons_ne_nil _ _)) hcs hedge column

end

end Grove.Yaml
