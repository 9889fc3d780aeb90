import Mathlib.Data.List.TakeWhile
import Grove.Proofs.Number.Reading
import Grove.Proofs.Yaml.Scalar
import Grove.Yaml.Scalar
import Grove.Yaml.Writer

/-!
# Numbers read back

The text of a number stands without quotes, its form makes it a whole or a floating-point number,
and it is read as the number that it was written from.
-/
namespace Grove

namespace Binary64

def withSign (negative : Bool) : Binary64 → Binary64
  | .nan => .nan
  | .infinite _ => .infinite negative
  | .finite _ m e c => .finite negative m e c

theorem ofRatio_withSign (s negative : Bool) (n d : Nat) :
    ofRatio s n d = withSign s (ofRatio negative n d) := by
  unfold ofRatio
  split
  · rfl
  · dsimp only
    split
    · split <;> rfl
    · split <;> rfl

theorem ofDecimal_withSign (s negative : Bool) (c : Nat) (k : Int) :
    ofDecimal s c k = withSign s (ofDecimal negative c k) := by
  unfold ofDecimal
  split
  · rfl
  · dsimp only
    split
    · rfl
    · split
      · rfl
      · exact ofRatio_withSign s negative _ _

/-- The magnitude is read from the same digits without the sign. -/
theorem value_false {n : Numeral} {s : Bool} {m : Nat} {e : Int} {c : Canonical m e}
    (h : n.value s = .finite s m e c) : n.value false = .finite false m e c := by
  rw [Numeral.value, ofDecimal_withSign false s]
  rw [Numeral.value] at h
  rw [h]
  rfl

theorem ofInt_neg_one : ofInt (-1) = .finite true 4503599627370496 (-52) (by decide) := by
    decide +kernel

/-- Taking a magnitude times one or minus one puts the sign in. -/
theorem mul_sign {m : Nat} {e : Int} (hm : m ≠ 0) (c : Canonical m e) (s : Bool) :
    (ofInt (if s then -1 else 1)).mul (.finite false m e c) = .finite s m e c := by
  have hone : Canonical 4503599627370496 (-52) := by decide
  have hunit : ofInt (if s then -1 else 1) = .finite s 4503599627370496 (-52) hone := by
    cases s
    · exact ofInt_one
    · exact ofInt_neg_one
  have hmagnitude : magnitude (.finite s 4503599627370496 (-52) hone) =
      (4503599627370496, 4503599627370496) :=
    rfl
  have hvalue := magnitude_value false m e c
  have hpos := magnitude_denominator_pos (.finite false m e c)
  rw [hunit, mul, ratio?_finite, ratio?_finite, hmagnitude]
  generalize magnitude (.finite false m e c) = q at hvalue hpos
  have habs : ((if s then -((4503599627370496 : Nat) : Int) else (4503599627370496 : Nat)) *
      (if false then -(q.1 : Int) else q.1)).natAbs = 4503599627370496 * q.1 := by
    cases s <;> simp [Int.natAbs_mul]
  have hsign : (negative (.finite s 4503599627370496 (-52) hone) !=
      negative (.finite false m e c)) = s := by
    cases s <;> rfl
  show ofRatio _ (Int.natAbs _) _ = _
  rw [hsign]
  refine Eq.trans (congrArg (ofRatio s · _) habs)
    (ofRatio_exact s (Nat.mul_pos (by decide) hpos) hm c ?_)
  rw [← hvalue]
  push_cast
  exact mul_div_mul_left _ _ (by norm_num)

/-! ## The text of a number -/

end Binary64

namespace Numeral

variable {n : Numeral}

theorem notMem_digits {x : CodePoint} (hx : Text.isDigit x = false) {ds : List CodePoint}
    (h : ∀ c ∈ ds, Text.isDigit c = true) : x ∉ ds := by
  intro hmem
  rw [h x hmem] at hx
  cases hx

theorem notMem_exponentText {x : CodePoint} (hx : Text.isDigit x = false)
    (hsign : x ≠ '-' ∧ x ≠ '+') (k : Int) :
    x ∉ Binary64.exponentText k := by
  have hdigits : x ∉ Text.paddedDigits 10 2 k.natAbs :=
    notMem_digits hx fun _ hc => Text.isDigit_of_mem_paddedDigits hc
  unfold Binary64.exponentText
  split
  · exact List.not_mem_cons_of_ne_of_not_mem hsign.1 hdigits
  · exact List.not_mem_cons_of_ne_of_not_mem hsign.2 hdigits

theorem flatMap_eq {x : CodePoint} {f : CodePoint → List CodePoint} (hf : ∀ c, c ≠ x → f c = [c])
    {cs : List CodePoint} (h : x ∉ cs) :
    cs.flatMap f = cs := by
  induction cs with
  | nil => rfl
  | cons c cs ih =>
    rw [List.mem_cons, not_or] at h
    rw [List.flatMap_cons, hf c (Ne.symm h.1), ih h.2]
    rfl

/-- The numeral with a zero behind the point if there was no point. -/
def pointed (n : Numeral) : Numeral :=
  if n.fraction = [] then { n with fraction := [CodePoint.scalar '0'] } else n

theorem wellFormed_pointed (h : n.WellFormed) : n.pointed.WellFormed ∧ n.pointed.fraction ≠ [] := by
  unfold pointed
  split
  · refine ⟨⟨h.whole_ne_nil, h.whole_digits, ?_, h.leading, Or.inl (List.cons_ne_nil _ _)⟩,
      List.cons_ne_nil _ _⟩
    intro c hc
    rw [List.mem_singleton.mp hc]
    decide
  · next hfraction => exact ⟨h, hfraction⟩

theorem value_pointed {s : Bool} (hne : n.value s ≠ .zero s) : n.pointed.value s = n.value s := by
  unfold pointed
  split
  · next hfraction =>
    have hdigits : Text.decimalValue n.whole ≠ 0 := by
      intro hzero
      rw [value, hfraction, List.append_nil, hzero] at hne
      exact hne rfl
    have hzero : Text.decimalValue (n.whole ++ [CodePoint.scalar '0']) =
        Text.decimalValue n.whole * 10 := by
      rw [Text.decimalValue_append]
      rfl
    rw [value, value, hfraction, List.append_nil, hzero, Binary64.ofDecimal_mul_ten s hdigits]
    congr 1
    simp
  · rfl

end Numeral

namespace Yaml

open Binary64 (signText)

theorem notMem_signText {x : CodePoint} (hx : x ≠ '-') (s : Bool) : x ∉ signText s := by
  cases s
  · nofun
  · simpa [signText] using hx

/-- The text of a number that is not whole has a point in it. -/
theorem chars_pointed (s : Bool) {n : Numeral} (h : n.WellFormed) :
    (if (signText s ++ n.chars).contains '.' then signText s ++ n.chars
      else (signText s ++ n.chars).flatMap fun c =>
        if c = CodePoint.scalar 'e' then ['.', '0', 'e'] else [c]) =
      signText s ++ n.pointed.chars := by
  have hflat {cs : List CodePoint} (hcs : ↑ 'e' ∉ cs) :
      (cs.flatMap fun c => if c = CodePoint.scalar 'e' then
          [CodePoint.scalar '.', '0', 'e'] else [c]) = cs :=
    Numeral.flatMap_eq (fun c hc => if_neg hc) hcs
  have hwhole {x : CodePoint} (hx : Text.isDigit x = false) : x ∉ n.whole :=
    Numeral.notMem_digits hx h.whole_digits
  by_cases hfraction : n.fraction = []
  · obtain ⟨k, hk⟩ := Option.ne_none_iff_exists'.mp (h.broken.resolve_left (not_not.mpr hfraction))
    have hchars : n.chars = n.whole ++ ↑ 'e' :: Binary64.exponentText k := by
      simp [Numeral.chars, Numeral.fractionChars, Numeral.exponentChars, hfraction, hk]
    have hpointed : n.pointed.chars =
        n.whole ++ ↑ '.' :: ↑ '0' :: ↑ 'e' :: Binary64.exponentText k := by
      simp [Numeral.pointed, Numeral.chars, Numeral.fractionChars,
        Numeral.exponentChars, hfraction, hk]
    have hpoint : (signText s ++ n.chars).contains '.' = false := by
      have hexponent := Numeral.notMem_exponentText (x := '.') (by decide) (by decide) k
      have hsign := notMem_signText (x := '.') (by decide) s
      simp [hchars, hwhole (x := '.') (by decide), hexponent, hsign]
    rw [hpoint, if_neg Bool.false_ne_true, hchars, hpointed, List.flatMap_append,
      List.flatMap_append, List.flatMap_cons, hflat (notMem_signText (by decide) s),
      hflat (hwhole (by decide)), hflat (Numeral.notMem_exponentText (by decide) (by decide) k)]
    rfl
  · have hpointed : n.pointed = n := if_neg hfraction
    have hpoint : (signText s ++ n.chars).contains '.' = true := by
      simp [Numeral.chars, Numeral.fractionChars, hfraction]
    rw [hpoint, if_pos rfl, hpointed]

/-- The text of a number other than the special ones: whole digits, or a numeral with a point. -/
theorem numberChars_finite {s : Bool} {m : Nat} {e : Int} (canon : Canonical m e) :
    (∃ n : Int, (Binary64.finite s m e canon).toInt? = some n ∧
      numberChars (.finite s m e canon) = Text.signedDecimal n) ∨
    ∃ n : Numeral, (Binary64.finite s m e canon).toInt? = none ∧ m ≠ 0 ∧
      n.WellFormed ∧ n.fraction ≠ [] ∧
      numberChars (.finite s m e canon) = signText s ++ n.chars ∧
      n.value false = .finite false m e canon := by
  cases hint : (Binary64.finite s m e canon).toInt? with
  | some n =>
    refine Or.inl ⟨n, rfl, ?_⟩
    simp only [numberChars, hint]
  | none =>
    have hm := Binary64.ne_zero_of_toInt?_eq_none hint
    obtain ⟨n, hwf, hchars, hvalue⟩ := Binary64.exists_numeral hm canon
    have hzero : n.value s ≠ .zero s := by
      rw [hvalue]
      intro h
      cases h
      exact hm rfl
    obtain ⟨hpointed, hfraction⟩ := Numeral.wellFormed_pointed hwf
    refine Or.inr ⟨n.pointed, rfl, hm, hpointed, hfraction, ?_, ?_⟩
    · simp only [numberChars, hint, hchars]
      exact chars_pointed s hwf
    · exact Binary64.value_false ((Numeral.value_pointed hzero).trans hvalue)

/-! ## Its style and its form -/

theorem hasKeyColon_eq_false {cs : List CodePoint} (h : ↑ ':' ∉ cs) : hasKeyColon cs = false := by
  induction cs with
  | nil => rfl
  | cons c cs ih =>
    rw [List.mem_cons, not_or] at h
    have hc : c ≠ ':' := Ne.symm h.1
    simp [hasKeyColon, hc, ih h.2]

theorem anyNeighbours_eq_false {p : CodePoint → CodePoint → Bool} {cs : List CodePoint}
    (h : ∀ c ∈ cs, ∀ a, p a c = false) :
    anyNeighbours p cs = false := by
  induction cs with
  | nil => rfl
  | cons a cs ih =>
    cases cs with
    | nil => rfl
    | cons b cs =>
      have hpair := h b (List.mem_cons_of_mem _ List.mem_cons_self) a
      simp [anyNeighbours, hpair, ih fun c hc => h c (List.mem_cons_of_mem _ hc)]

section

variable {s : Bool} {d : CodePoint} {ds : List CodePoint}

theorem isNumeral_signed (s : Bool) {cs : List CodePoint} (h : IsNumeral cs) :
    IsNumeral (signText s ++ cs) := by
  cases s
  · exact h
  · exact h.cons (by decide)

/-- A sign and a numeral stand without quotes. -/
theorem plainText_signed (s : Bool) (hd : Text.isDigit d = true) (h : IsNumeral (d :: ds)) :
    PlainText (signText s ++ d :: ds) := by
  have hnumeral := isNumeral_signed s h
  have hchar := hnumeral.forall_of_all (p := fun c => !isSpecial c && isInline c && c ≠ '\t' &&
    c ≠ ':' && c ≠ '#' &&
    c ≠ ' ') (by decide)
  simp only [Bool.and_eq_true, Bool.not_eq_true', decide_eq_true_eq, and_assoc] at hchar
  have hmark {x : CodePoint} (hx : Text.isDigit x = false) : x ≠ d := by
    rintro rfl
    rw [hd] at hx
    cases hx
  have hfirst := mem_numeralMarks_of_isDigit hd
  have hword : isBlank d = false := by
    have hall : (numeralMarks.all fun c => !isBlank c) = true := by decide
    simpa using List.all_eq_true.mp hall d hfirst
  have hplain : isIndicator d = false := by
    have hall : (numeralMarks.all fun c => c = '-' || !isIndicator c) = true := by decide
    simpa [Ne.symm (@hmark '-' (by decide))] using List.all_eq_true.mp hall d hfirst
  have hdash : '-' ≠ d := hmark (by decide)
  have hpoint : '.' ≠ d := hmark (by decide)
  refine ⟨fun x hx => (hchar x hx).1,
    ⟨?_, ?_, fun x hx => ⟨(hchar x hx).2.1, (hchar x hx).2.2.1⟩, ?_, ?_⟩, ?_, ?_, ?_⟩
  · intro x hx
    have hmem := hchar x (List.mem_of_mem_head? hx)
    exact ⟨hmem.2.2.2.2.2, hmem.2.2.2.2.1⟩
  · exact fun hlast => (hchar ' ' (List.mem_of_mem_getLast? hlast)).2.2.2.2.2 rfl
  · exact hasKeyColon_eq_false fun hmem => (hchar ':' hmem).2.2.2.1 rfl
  · exact anyNeighbours_eq_false fun c hc a => by simp [(hchar c hc).2.2.2.2.1]
  · intro x xs hcs
    cases s
    · cases hcs
      refine ⟨hword, ?_, ?_⟩
      · rintro (rfl | rfl | rfl)
        · exact absurd rfl hdash
        · exact absurd hd (by decide)
        · exact absurd hd (by decide)
      · rw [hplain]
        nofun
    · cases hcs
      exact ⟨by decide, fun _ => hword, fun _ => Or.inl rfl⟩
  · cases s <;> simp [signText, List.isPrefixOf, hdash]
  · cases s <;> simp [signText, List.isPrefixOf, hpoint]

theorem dropSign_signed (s : Bool) (hd : Text.isDigit d = true) :
    dropSign (signText s ++ d :: ds) = d :: ds := by
  cases s
  · unfold dropSign
    split
    · next heq =>
      cases heq
      exact absurd hd (by decide)
    · next heq =>
      cases heq
      exact absurd hd (by decide)
    · rfl
  · rfl

/-- A sign and a numeral are none of some texts that do not start like one. -/
theorem signed_ne (s : Bool) (hd : Text.isDigit d = true) {w : List CodePoint}
    (hw : (w.head?.any numeralMarks.contains) = false) : signText s ++ d :: ds ≠ w := by
  rintro rfl
  have hfirst := mem_numeralMarks_of_isDigit hd
  cases s
  · simp [signText, hfirst] at hw
  · simp [signText, numeralMarks] at hw

theorem contains_signed (s : Bool) (hd : Text.isDigit d = true) {ws : List (List CodePoint)}
    (hws : ws.all (fun w => !(w.head?.any numeralMarks.contains)) = true) :
    ws.contains (signText s ++ d :: ds) = false := by
  rw [Bool.eq_false_iff]
  intro hmem
  have hw := List.all_eq_true.mp hws _ (List.contains_iff_mem.mp hmem)
  rw [Bool.not_eq_true'] at hw
  exact @signed_ne d ds s hd _ hw rfl

theorem dropLineFeed_eq {cs : List CodePoint} (h : ↑ '\n' ∉ cs) : dropLineFeed cs = cs := by
  rw [dropLineFeed, if_neg]
  exact fun hlast => h (List.mem_of_mem_getLast? hlast)

/-- The form of a sign and a numeral is told by the rules for numbers alone. -/
theorem ofForm_signed (s : Bool) (hd : Text.isDigit d = true) (h : IsNumeral (d :: ds)) :
    Tag.ofForm (signText s ++ d :: ds) =
      if isFloatForm (signText s ++ d :: ds) then .float
      else if isWholeForm (d :: ds) then .int
      else if isTimeForm (signText s ++ d :: ds) then .timestamp else .str := by
  have hnumeral := isNumeral_signed s h
  have hline : ↑ '\n' ∉ signText s ++ d :: ds := by
    intro hmem
    exact absurd (hnumeral _ hmem) (by decide)
  have hne {w : List CodePoint} (hw : (w.head?.any numeralMarks.contains) = false) :
      signText s ++ d :: ds ≠ w :=
    signed_ne s hd hw
  have htruth : truthWords.contains (signText s ++ d :: ds) = false :=
    contains_signed s hd (by decide)
  have hnull : nullWords.contains (signText s ++ d :: ds) = false :=
    contains_signed s hd (by decide)
  have hsigns : (decide (signText s ++ d :: ds = [CodePoint.scalar '!']) ||
      decide (signText s ++ d :: ds = [CodePoint.scalar '&']) ||
      decide (signText s ++ d :: ds = [CodePoint.scalar '*'])) = false := by
    simp only [hne (w := [CodePoint.scalar '!']) rfl, hne (w := [CodePoint.scalar '&']) rfl,
      hne (w := [CodePoint.scalar '*']) rfl, decide_false, Bool.or_self]
  rw [Tag.ofForm, dropLineFeed_eq hline, dropSign_signed s hd, if_neg (hne (by decide)), htruth,
    if_neg Bool.false_ne_true, if_neg (hne (by decide)), hnull, if_neg Bool.false_ne_true,
    if_neg (hne (by decide)), hsigns, if_neg Bool.false_ne_true]

end

theorem isDigitOrScore_of_isDigit {c : CodePoint} (h : Text.isDigit c = true) :
    isDigitOrScore c = true := by
  rw [isDigitOrScore, h, Bool.true_or]

theorem exists_digit_cons {ds : List CodePoint} (hne : ds ≠ [])
    (h : ∀ c ∈ ds, Text.isDigit c = true) :
    ∃ d more, ds = d :: more ∧ Text.isDigit d = true ∧ IsNumeral (d :: more) := by
  obtain ⟨d, more, rfl⟩ := List.exists_cons_of_ne_nil hne
  exact ⟨d, more, rfl, h d List.mem_cons_self, isNumeral_of_digits h⟩

theorem isDigits_of_forall {ds : List CodePoint} (hne : ds ≠ [])
    (h : ∀ c ∈ ds, Text.isDigit c = true) :
    isDigits ds = true := by
  obtain ⟨d, more, rfl⟩ := List.exists_cons_of_ne_nil hne
  rw [List.forall_mem_cons] at h
  rw [isDigits, h.1, Bool.true_and, List.all_eq_true]
  exact fun c hc => isDigitOrScore_of_isDigit (h.2 c hc)

/-- Digits alone are not the form of a floating-point number. -/
theorem isFloatForm_digits (s : Bool) {ds : List CodePoint} (hne : ds ≠ [])
    (h : ∀ c ∈ ds, Text.isDigit c = true) :
    isFloatForm (signText s ++ ds) = false := by
  have hpoint : ∀ more, ds ≠ ↑ '.' :: more := by
    rintro more rfl
    exact absurd (h '.' List.mem_cons_self) (by decide)
  have hbody : ds.dropWhile isDigitOrScore = [] :=
    List.dropWhile_eq_nil_iff.mpr fun c hc => isDigitOrScore_of_isDigit (h c hc)
  have hnone : ds.dropWhile (· ≠ CodePoint.scalar '.') = [] := by
    refine List.dropWhile_eq_nil_iff.mpr fun c hc => ?_
    simp only [decide_eq_true_eq]
    rintro rfl
    exact absurd (h '.' hc) (by decide)
  obtain ⟨d, more, hds, hd, -⟩ := exists_digit_cons hne h
  have hdrop : dropSign (signText s ++ ds) = ds := by
    rw [hds]
    exact dropSign_signed s hd
  have hwords (words : List (List CodePoint))
      (hpoints : ∀ w ∈ words, w.head? = some (CodePoint.scalar '.'))
      {cs : List CodePoint} (hcs : cs.head? ≠ some (CodePoint.scalar '.')) :
          words.contains cs = false := by
    rw [List.contains_eq_mem, decide_eq_false_iff_not]
    exact fun hmem => hcs (hpoints cs hmem)
  have hbare : ds.head? ≠ some (CodePoint.scalar '.') := by
    rw [hds]
    rintro heq
    cases heq
    exact absurd hd (by decide)
  have hsigned : (signText s ++ ds).head? ≠ some (CodePoint.scalar '.') := by
    cases s
    · exact hbare
    · nofun
  have hinfinite := hwords infinityWords (by decide) hbare
  have hnan := hwords nanWords (by decide) hsigned
  -- This rules out the branch of the definition for a bare fraction.
  have hfraction : ∀ c rest, signText s ++ ds ≠ ↑ '.' :: c :: rest := by
    intro c rest heq
    rw [heq] at hsigned
    exact hsigned rfl
  simp only [isFloatForm, hdrop, hbody, hnone, hinfinite, hnan, Bool.or_self]

theorem isWholeForm_decimal (n : Nat) : isWholeForm (Text.decimal n) = true := by
  by_cases hn : n = 0
  · rw [hn]
    decide
  · have hhead := Text.head?_decimal hn
    have hdigits := isDigits_of_forall (Text.decimal_ne_nil n) fun _ hc =>
      Text.isDigit_of_mem_decimal hc
    unfold isWholeForm
    split <;> simp_all

theorem isExponent_exponentChars (n : Numeral) : isExponent n.exponentChars = true := by
  unfold Numeral.exponentChars
  split
  · rfl
  · next k hk =>
    have hdigits : ∀ c ∈ Text.paddedDigits 10 2 k.natAbs, Text.isDigit c = true :=
      fun _ hc => Text.isDigit_of_mem_paddedDigits hc
    have hne := List.isEmpty_eq_false_iff.mpr (Text.paddedDigits_ne_nil 2 k.natAbs)
    have hall := List.all_eq_true.mpr hdigits
    unfold Binary64.exponentText
    split <;> simp [isExponent, hne, hall]

/-- Digits with a point among them, and perhaps an exponent, are the form of a floating-point
number. -/
theorem isFloatForm_numeral (s : Bool) {n : Numeral} (h : n.WellFormed)
    (hfraction : n.fraction ≠ []) :
    isFloatForm (signText s ++ n.chars) = true := by
  obtain ⟨d, more, hds, hd, -⟩ := exists_digit_cons h.whole_ne_nil h.whole_digits
  have hchars : n.chars = n.whole ++ ↑ '.' :: (n.fraction ++ n.exponentChars) := by
    simp [Numeral.chars, Numeral.fractionChars, hfraction]
  have hdrop : dropSign (signText s ++ n.chars) = n.chars := by
    rw [hchars, hds]
    exact dropSign_signed s hd
  have hwhole : ∀ c ∈ n.whole, isDigitOrScore c = true := fun c hc =>
    isDigitOrScore_of_isDigit (h.whole_digits c hc)
  have htake : n.chars.takeWhile isDigitOrScore = n.whole := by
    rw [hchars, List.takeWhile_append_of_pos hwhole]
    simp [isDigitOrScore, Text.isDigit]
  have hbody : n.chars.dropWhile isDigitOrScore = ↑ '.' :: (n.fraction ++ n.exponentChars) := by
    rw [hchars, List.dropWhile_append_of_pos hwhole]
    simp [isDigitOrScore, Text.isDigit]
  have hrest : (n.fraction ++ n.exponentChars).dropWhile isDigitOrScore = n.exponentChars := by
    rw [List.dropWhile_append_of_pos fun c hc => isDigitOrScore_of_isDigit (h.fraction_digits c hc)]
    unfold Numeral.exponentChars
    split
    · rfl
    · simp [isDigitOrScore, Text.isDigit]
  have hdigits := isDigits_of_forall h.whole_ne_nil h.whole_digits
  simp only [isFloatForm, hdrop, htake, hbody, hrest, hdigits, isExponent_exponentChars,
    Bool.and_self, Bool.true_or]

/-! ## Its value -/

section

variable {s : Bool} {d : CodePoint} {ds : List CodePoint}

theorem filter_score {cs : List CodePoint} (h : IsNumeral cs) :
    cs.filter (· ≠ CodePoint.scalar '_') = cs :=
  List.filter_eq_self.mpr fun c hc =>
    h.forall_of_all (p := fun c => decide (c ≠ '_')) (by decide) c hc

theorem takeFactor_signed (s : Bool) (hd : Text.isDigit d = true) :
    takeFactor (signText s ++ d :: ds) = .ok (if s then -1 else 1, d :: ds) := by
  cases s
  · unfold takeFactor
    split
    · next heq => cases heq
    · next heq =>
      cases heq
      exact absurd hd (by decide)
    · next heq =>
      cases heq
      exact absurd hd (by decide)
    · rfl
  · rfl

theorem contains_colon {cs : List CodePoint} (h : IsNumeral cs) : cs.contains ':' = false := by
  rw [Bool.eq_false_iff]
  intro hmem
  exact absurd (h _ (List.contains_iff_mem.mp hmem)) (by decide)

end

theorem signedDecimal_eq (n : Int) :
    Text.signedDecimal n = signText (n < 0) ++ Text.decimal n.natAbs := by
  by_cases hn : n < 0
  · simp [Text.signedDecimal, signText, hn]
  · simp [Text.signedDecimal, signText, hn]

theorem wholeMagnitude_decimal {n : Nat} (h : (Text.decimal n).length ≤ maxDigits) :
    wholeMagnitude (Text.decimal n) = .ok (n : Int) := by
  by_cases hn : n = 0
  · rw [hn]
    rfl
  · have hhead := Text.head?_decimal hn
    have hnumeral := isNumeral_of_digits fun _ hc => Text.isDigit_of_mem_decimal (n := n) hc
    have hread := readInt?_decimal h
    generalize Text.decimal n = ds at hhead hnumeral hread
    have hcolon := contains_colon hnumeral
    unfold wholeMagnitude
    split
    · cases hread
    · exact absurd rfl hhead
    · exact absurd rfl hhead
    · exact absurd rfl hhead
    · exact absurd rfl hhead
    · rw [hcolon, if_neg Bool.false_ne_true, hread]
      rfl

/-- The digits of a whole number are read as the number. -/
theorem intValue_signedDecimal {n : Int} (h : (Text.decimal n.natAbs).length ≤ maxDigits) :
    intValue (Text.signedDecimal n) = .ok (.int n) := by
  have hdigits : ∀ c ∈ Text.decimal n.natAbs, Text.isDigit c = true := fun _ hc =>
    Text.isDigit_of_mem_decimal hc
  have hmagnitude := wholeMagnitude_decimal h
  obtain ⟨d, ds, hds, hd, hnumeral⟩ := exists_digit_cons (Text.decimal_ne_nil _) hdigits
  rw [signedDecimal_eq, intValue, filter_score (isNumeral_signed _ (isNumeral_of_digits hdigits))]
  rw [hds] at hmagnitude ⊢
  rw [takeFactor_signed _ hd]
  show (do return Value.int (_ * (← wholeMagnitude (d :: ds)))) = _
  rw [hmagnitude]
  show Except.ok (Value.int _) = _
  by_cases hn : n < 0
  · simp [hn, abs_of_neg hn]
  · simp [hn, abs_of_nonneg (not_lt.mp hn)]

/-- A sign and a numeral are read as the number that they are worth. -/
theorem floatValue_numeral {s : Bool} {m : Nat} {e : Int} {c : Canonical m e}
    (hm : m ≠ 0) {n : Numeral} (h : n.WellFormed) (hvalue : n.value false = .finite false m e c) :
    floatValue (signText s ++ n.chars) = .ok (.float (.finite s m e c)) := by
  have hnumeral := Numeral.isNumeral_chars h
  have hread := Numeral.readFloat?_chars h
  obtain ⟨d, ds, hds, hd⟩ : ∃ d ds, n.chars = d :: ds ∧ Text.isDigit d = true := by
    obtain ⟨d, more, hwhole, hd, -⟩ := exists_digit_cons h.whole_ne_nil h.whole_digits
    refine ⟨d, more ++ n.fractionChars ++ n.exponentChars, ?_, hd⟩
    rw [Numeral.chars, hwhole]
    rfl
  have hsigned := isNumeral_signed s hnumeral
  have hcolon := contains_colon hnumeral
  have hword (w : List CodePoint) (hw : w.head? = some (CodePoint.scalar '.')) : d :: ds ≠ w := by
    rintro rfl
    cases hw
    exact absurd hd (by decide)
  rw [floatValue, filter_score hsigned, hsigned.lowerAscii_eq]
  rw [hds] at hread hcolon ⊢
  rw [takeFactor_signed s hd]
  have hinf := hword (Text.toList ".inf") rfl
  have hnan := hword (Text.toList ".nan") rfl
  simp only [bind, Except.bind, List.isEmpty_cons, hinf, hnan, hcolon, hread, hvalue, orUnfit,
    Bool.false_eq_true, if_false, Binary64.mul_sign hm]
  rfl

/-- The text of a number is not empty, stands without quotes, and is read as the number. -/
theorem numberChars_spec (x : Binary64) : numberChars x ≠ [] ∧ PlainText (numberChars x) ∧
    scalarValue (Tag.ofForm (numberChars x)) (numberChars x) = .ok (Tree.numberValue true x) := by
  cases x with
  | nan => exact ⟨List.cons_ne_nil _ _, plainText_of_allowsPlain (by decide), rfl⟩
  | infinite s =>
    cases s
    · exact ⟨List.cons_ne_nil _ _, plainText_of_allowsPlain (by decide), rfl⟩
    · exact ⟨List.cons_ne_nil _ _, plainText_of_allowsPlain (by decide), rfl⟩
  | finite s m e c =>
    rcases numberChars_finite (s := s) c with ⟨n, hint, hchars⟩ | ⟨n, hint, hm, hwf,
      hfraction, hchars, hvalue⟩
    · have hlength : (Text.decimal n.natAbs).length ≤ maxDigits :=
        Nat.le_trans (Binary64.decimalLength_of_toInt? hint) (by decide)
      have hdigits : ∀ c ∈ Text.decimal n.natAbs, Text.isDigit c = true := fun _ hc =>
        Text.isDigit_of_mem_decimal hc
      have hread := intValue_signedDecimal hlength
      have hfloat := isFloatForm_digits (n < 0) (Text.decimal_ne_nil _) hdigits
      have hwhole := isWholeForm_decimal n.natAbs
      obtain ⟨d, ds, hds, hd, hnumeral⟩ := exists_digit_cons (Text.decimal_ne_nil _) hdigits
      rw [hchars]
      rw [signedDecimal_eq, hds] at hread ⊢
      rw [hds] at hfloat hwhole
      refine ⟨by simp, plainText_signed _ hd hnumeral, ?_⟩
      rw [ofForm_signed _ hd hnumeral, hfloat, hwhole, if_neg Bool.false_ne_true, if_pos rfl,
        scalarValue, hread, Tree.numberValue, if_pos rfl, hint]
    · have hnumeral := Numeral.isNumeral_chars hwf
      have hfloat := isFloatForm_numeral s hwf hfraction
      have hread := floatValue_numeral (s := s) hm hwf hvalue
      obtain ⟨d, more, hwhole, hd, -⟩ := exists_digit_cons hwf.whole_ne_nil hwf.whole_digits
      have hds : n.chars = d :: (more ++ n.fractionChars ++ n.exponentChars) := by
        rw [Numeral.chars, hwhole]
        rfl
      rw [hchars]
      rw [hds] at hnumeral hfloat hread ⊢
      refine ⟨by simp, plainText_signed s hd hnumeral, ?_⟩
      rw [ofForm_signed s hd hnumeral, hfloat, if_pos rfl, scalarValue, hread,
        Tree.numberValue, if_pos rfl, hint]

/-- Truth values are written as words that are read as them. -/
theorem truthChars_spec (b : Bool) :
    PlainText (if b then Text.toList "true" else Text.toList "false") ∧
    scalarValue (Tag.ofForm (if b then Text.toList "true" else Text.toList "false"))
      (if b then Text.toList "true" else Text.toList "false") = .ok (.boolean b) := by
  cases b
  · exact ⟨plainText_of_allowsPlain (by decide), rfl⟩
  · exact ⟨plainText_of_allowsPlain (by decide), rfl⟩

end Yaml

end Grove
