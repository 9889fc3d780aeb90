import Grove.Proofs.Yaml.Double
import Grove.Proofs.Yaml.Plain
import Grove.Proofs.Yaml.Single

/-!
# Scalars as they are written

Whatever its style, a written scalar is read as one text. That text is the one that was written but
for next line characters between single quotes and lines between double quotes that are ended twice.
-/
namespace Grove.Yaml

/-! ## Text that stands without quotes -/

theorem not_isSpecial_cases {x : CodePoint} (h : isSpecial x = false) :
    isTextBreak x = true ∨ isInline x = true ∧ x ≠ '\t' := by
  by_cases hbreak : isTextBreak x = true
  · exact Or.inl hbreak
  · right
    simp only [isTextBreak, Bool.or_eq_true, decide_eq_true_eq, not_or] at hbreak
    have hr : x ≠ '\r' := by
      rintro rfl
      cases h
    have hbom : x ≠ '\uFEFF' := by
      rintro rfl
      cases h
    have htab : x ≠ '\t' := by
      rintro rfl
      cases h
    refine ⟨?_, htab⟩
    simp [isInline, isBreak, hbreak, hr, hbom]

/-- What is not told as a token is told as text. -/
structure PlainStart (x : CodePoint) (next : Option CodePoint) : Prop where
  word : isBlank x = false
  sign : x = '-' ∨ x = '?' ∨ x = ':' → endsWord next = false
  indicator : isIndicator x = true → x = '-' ∨ x = '?' ∨ x = ':'

/-- Text that can stand without quotes. -/
structure PlainText (cs : List CodePoint) : Prop where
  special : ∀ x ∈ cs, isSpecial x = false
  words : PlainWords cs
  start : ∀ x xs, cs = x :: xs → PlainStart x xs.head?
  dashes : (Text.toList "---").isPrefixOf cs = false
  points : (Text.toList "...").isPrefixOf cs = false

theorem plainText_of_allowsPlain {cs : List CodePoint} (h : allowsPlain cs = true) :
    PlainText cs := by
  simp only [allowsPlain, looksLikeToken, Bool.and_eq_true, Bool.not_eq_true',
    Bool.or_eq_false_iff] at h
  obtain ⟨⟨⟨⟨hspecial, hbreak⟩, hfirst⟩, hlast⟩, ⟨htoken, hcolon⟩, hcomment⟩ := h
  rw [List.any_eq_false] at hspecial hbreak
  have hinline : ∀ x ∈ cs, isInline x = true ∧ x ≠ '\t' := fun x hx =>
    (not_isSpecial_cases (by simpa using hspecial x hx)).resolve_left (hbreak x hx)
  have hspace : ∀ x, cs.head? = some x → x ≠ ' ' := by
    rintro x hx rfl
    rw [hx] at hfirst
    cases hfirst
  cases cs with
  | nil => exact ⟨nofun, ⟨nofun, nofun, nofun, rfl, rfl⟩, nofun, rfl, rfl⟩
  | cons c rest =>
    simp only [startsLikeToken, Bool.or_eq_false_iff] at htoken
    obtain ⟨⟨⟨hmark, hsign⟩, hdashes⟩, hpoints⟩ := htoken
    have hc := hinline c List.mem_cons_self
    refine ⟨fun x hx => by simpa using hspecial x hx, ⟨?_, ?_, hinline, hcolon, hcomment⟩,
      ?_, hdashes, hpoints⟩
    · intro x hx
      refine ⟨hspace x hx, ?_⟩
      rintro rfl
      cases hx
      exact absurd hmark (by decide)
    · intro hx
      rw [hx] at hlast
      cases hlast
    · rintro x xs hx
      cases hx
      refine ⟨isBlank_eq_false hc.1 hc.2 (hspace c rfl), ?_, ?_⟩
      · rintro (rfl | rfl | rfl)
        · simpa using hsign
        · simpa using hsign
        · exact hasKeyColon_at (show hasKeyColon ([] ++ ↑ ':' :: _) = false from hcolon)
      · intro hindicator
        simp only [isIndicator] at hindicator
        simp at hindicator hmark
        simp only [hmark, or_false] at hindicator
        exact hindicator

theorem Style.ofText_cases (cs : List CodePoint) :
    (ofText cs = .plain ∧ Tag.ofForm cs = .str ∧ PlainText cs) ∨
      (ofText cs = .single ∧ SingleText cs) ∨
      ofText cs = .double := by
  unfold ofText
  split
  · next h =>
    simp only [Bool.and_eq_true, decide_eq_true_eq] at h
    exact Or.inl ⟨rfl, h.1, plainText_of_allowsPlain h.2⟩
  · split
    · next h => exact Or.inr (Or.inl ⟨rfl, singleText_of_allowsSingle h⟩)
    · exact Or.inr (Or.inr rfl)

/-! ## Characters that are written -/

/-- A character that may be written, and that ends no line unless lines may be ended. -/
def Writable (lines : Prop) (x : CodePoint) : Prop :=
  isAllowed x = true ∧ (isInline x = true ∨ lines ∧ isTextBreak x = true)

theorem writable_of_not_isSpecial {x : CodePoint} (h : isSpecial x = false) :
    Writable (isTextBreak x = true) x := by
  refine ⟨?_, ?_⟩
  · simp only [isSpecial, Bool.and_eq_false_iff, Bool.not_eq_false',
      Bool.or_eq_true, Bool.and_eq_true, decide_eq_true_eq] at h
    simp only [isAllowed, Bool.or_eq_true, Bool.and_eq_true, decide_eq_true_eq]
    rcases h with (rfl | h) | h
    · decide
    · omega
    · omega
  · rcases not_isSpecial_cases h with hbreak | hinline
    · exact Or.inr ⟨hbreak, hbreak⟩
    · exact Or.inl hinline.1

theorem Writable.imp {p q : Prop} {x : CodePoint} (h : Writable p x) (hpq : p → q) : Writable q x :=
  ⟨h.1, h.2.imp_right (And.imp_left hpq)⟩

section

variable {p : CodePoint → Prop} {f : Folding}

theorem forall_mem_spaces (hspace : p ' ') (n : Nat) :
    ∀ x ∈ List.replicate n (CodePoint.scalar ' '), p x := by
  intro x hx
  rwa [List.eq_of_mem_replicate hx]

theorem forall_mem_newLine (hspace : p ' ') (hline : p '\n') : ∀ x ∈ f.newLine, p x :=
  List.forall_mem_cons.mpr ⟨hline, forall_mem_spaces hspace f.indent⟩

theorem forall_mem_foldPlain (hspace : p ' ') (hline : f.fold = true → p '\n') {cs : List CodePoint}
    (hcs : ∀ x ∈ cs, p x) (spaces column : Nat) : ∀ x ∈ foldPlain f spaces column cs, p x := by
  induction cs generalizing spaces column with
  | nil => exact forall_mem_spaces hspace spaces
  | cons c cs ih =>
    rw [List.forall_mem_cons] at hcs
    rw [foldPlain]
    split
    · exact ih hcs.2 _ _
    · split
      · next hends =>
        simp only [Bool.and_eq_true] at hends
        exact List.forall_mem_append.mpr ⟨forall_mem_newLine hspace (hline hends.2),
          List.forall_mem_cons.mpr ⟨hcs.1, ih hcs.2 _ _⟩⟩
      · exact List.forall_mem_append.mpr ⟨forall_mem_spaces hspace _,
          List.forall_mem_cons.mpr ⟨hcs.1, ih hcs.2 _ _⟩⟩

theorem forall_mem_singleBreak {c : CodePoint} (hc : p c) (first : Bool) :
    ∀ x ∈ singleBreak first c, p x := by
  unfold singleBreak
  split
  · next h =>
    simp only [Bool.and_eq_true, decide_eq_true_eq] at h
    rw [← h.2]
    simpa using hc
  · simpa using hc

theorem forall_mem_singleChar (hquote : p '\'') {c : CodePoint} (hc : p c) :
    ∀ x ∈ singleChar c, p x := by
  unfold singleChar
  split <;> simp [hquote, hc]

theorem forall_mem_foldSingle (hspace : p ' ') (hquote : p '\'') (hline : f.fold = true → p '\n')
    {cs : List CodePoint} (hcs : ∀ x ∈ cs, p x) (behind : Behind) (column : Nat) :
    ∀ x ∈ foldSingle f behind column cs, p x := by
  induction cs generalizing behind column with
  | nil =>
    cases behind with
    | quote | text => simp [foldSingle]
    | spaces | breaks => exact forall_mem_spaces hspace _
  | cons c cs ih =>
    rw [List.forall_mem_cons] at hcs
    have hmore := ih hcs.2
    have hspaces := fun n => forall_mem_spaces (p := p) hspace n
    have hbreak := forall_mem_singleBreak hcs.1
    have hchar := forall_mem_singleChar hquote hcs.1
    cases behind with
    | quote | text =>
      simp only [foldSingle]
      split
      · exact hmore _ _
      · split
        · exact List.forall_mem_append.mpr ⟨hbreak _, hmore _ _⟩
        · exact List.forall_mem_append.mpr ⟨hchar, hmore _ _⟩
    | breaks =>
      simp only [foldSingle]
      split
      · exact List.forall_mem_append.mpr ⟨hspaces _, hmore _ _⟩
      · split
        · exact List.forall_mem_append.mpr ⟨hbreak _, hmore _ _⟩
        · exact List.forall_mem_append.mpr
            ⟨List.forall_mem_append.mpr ⟨hspaces _, hchar⟩, hmore _ _⟩
    | spaces n first =>
      simp only [foldSingle]
      split
      · exact hmore _ _
      · split
        · exact List.forall_mem_append.mpr
            ⟨List.forall_mem_append.mpr ⟨hspaces _, hbreak _⟩, hmore _ _⟩
        · refine List.forall_mem_append.mpr ⟨List.forall_mem_append.mpr ⟨?_, hchar⟩, hmore _ _⟩
          split
          · next hends =>
            simp only [Bool.and_eq_true] at hends
            exact forall_mem_newLine hspace (hline hends.2)
          · exact hspaces _

theorem forall_mem_foldDouble (hspace : p ' ') (hback : p '\\') (hline : f.fold = true → p '\n')
    {cs : List CodePoint} (hplain : ∀ x ∈ cs, needsEscape x = false → p x)
    (hescape : ∀ c, ∀ x ∈ escape c, p x) (first afterEscape : Bool) (column : Nat) :
    ∀ x ∈ foldDouble f first afterEscape column cs, p x := by
  induction cs generalizing first afterEscape column with
  | nil => exact nofun
  | cons c cs ih =>
    rw [List.forall_mem_cons] at hplain
    have hmore := ih hplain.2
    have hend (h : f.fold = true) (next : Option CodePoint) : ∀ x ∈ escapedNewLine f next, p x := by
      refine List.forall_mem_append.mpr
        ⟨List.forall_mem_cons.mpr ⟨hback, forall_mem_newLine hspace (hline h)⟩, ?_⟩
      split <;> simp [hback]
    rw [foldDouble]
    dsimp only
    split
    · split
      · next hends =>
        simp only [Bool.and_eq_true] at hends
        exact List.forall_mem_append.mpr
          ⟨List.forall_mem_append.mpr ⟨hescape c, hend hends.1.2 _⟩, hmore _ _ _⟩
      · exact List.forall_mem_append.mpr ⟨hescape c, hmore _ _ _⟩
    · next hc =>
      have hthis := hplain.1 (by simpa using hc)
      split
      · next hends =>
        simp only [Bool.and_eq_true] at hends
        exact List.forall_mem_append.mpr ⟨hend hends.1.1.2 _,
          List.forall_mem_cons.mpr ⟨hthis, hmore _ _ _⟩⟩
      · exact List.forall_mem_cons.mpr ⟨hthis, hmore _ _ _⟩

end

theorem writable_of_printed {x : CodePoint} (h : 0x20 ≤ x.toNat ∧ x.toNat ≤ 0x7E) (lines : Prop) :
    Writable lines x := by
  refine ⟨?_, Or.inl
    (isInline_of_kind (p := fun x => 0x20 ≤ x.toNat ∧ x.toNat ≤ 0x7E) (by decide) h)⟩
  simp only [isAllowed, Bool.or_eq_true, Bool.and_eq_true, decide_eq_true_eq]
  omega

theorem writable_unescaped {x : CodePoint} (h : needsEscape x = false) (lines : Prop) :
    Writable lines x := by
  refine ⟨?_, Or.inl (isInline_unescaped h)⟩
  simp only [needsEscape, Bool.or_eq_false_iff, Bool.not_eq_false',
    Bool.or_eq_true, Bool.and_eq_true, decide_eq_true_eq] at h
  simp only [isAllowed, Bool.or_eq_true, Bool.and_eq_true, decide_eq_true_eq]
  omega

theorem writable_newLine {lines : Prop} (h : lines) : Writable lines '\n' :=
  ⟨by decide, Or.inr ⟨h, by decide⟩⟩

/-- What is written of a text may stand in a document, on one line unless lines are ended in it. -/
theorem writable_styledText (f : Folding) (column : Nat) (cs : List CodePoint) :
    ∀ x ∈ styledText f (.ofText cs) column cs,
      Writable (f.fold = true ∨ cs.any isTextBreak = true) x := by
  have hspace := writable_of_printed (x := ' ') (by decide)
    (f.fold = true ∨ cs.any isTextBreak = true)
  have hline (hf : f.fold = true) : Writable (f.fold = true ∨ cs.any isTextBreak = true) '\n' :=
    writable_newLine (Or.inl hf)
  have hplain (hspecial : ∀ x ∈ cs, isSpecial x = false) :
      ∀ x ∈ cs, Writable (f.fold = true ∨ cs.any isTextBreak = true) x := by
    intro x hx
    exact (writable_of_not_isSpecial (hspecial x hx)).imp fun hbreak =>
      Or.inr (List.any_eq_true.mpr ⟨x, hx, hbreak⟩)
  rcases Style.ofText_cases cs with ⟨hstyle, -, hcs⟩ | ⟨hstyle, hcs⟩ | hstyle
  · rw [hstyle]
    exact forall_mem_foldPlain hspace hline (hplain hcs.special) 0 column
  · rw [hstyle]
    have hquote := writable_of_printed (x := '\'') (by decide)
      (f.fold = true ∨ cs.any isTextBreak = true)
    have htext := forall_mem_foldSingle hspace hquote hline (hplain hcs.plain) .quote (column + 1)
    exact List.forall_mem_cons.mpr
      ⟨hquote, List.forall_mem_append.mpr ⟨htext, by simpa using hquote⟩⟩
  · rw [hstyle]
    have hquote := writable_of_printed (x := '"') (by decide)
      (f.fold = true ∨ cs.any isTextBreak = true)
    have hback := writable_of_printed (x := '\\') (by decide)
      (f.fold = true ∨ cs.any isTextBreak = true)
    have hescape : ∀ c, ∀ x ∈ escape c, Writable (f.fold = true ∨ cs.any isTextBreak = true) x := by
      intro c x hx
      have hvisible := isVisible_of_mem_escape hx
      simp only [isVisible, Bool.and_eq_true, decide_eq_true_eq] at hvisible
      exact writable_of_printed (by omega) _
    have hplain : ∀ x ∈ cs, needsEscape x = false →
        Writable (f.fold = true ∨ cs.any isTextBreak = true) x :=
      fun x _ hx => writable_unescaped hx _
    have htext := forall_mem_foldDouble hspace hback hline hplain hescape true false (column + 1)
    exact List.forall_mem_cons.mpr
      ⟨hquote, List.forall_mem_append.mpr ⟨htext, by simpa using hquote⟩⟩

end Grove.Yaml
