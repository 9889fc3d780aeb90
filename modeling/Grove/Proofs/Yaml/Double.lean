import Grove.Proofs.Text.Digit
import Grove.Proofs.Yaml.Quoted
import Grove.Yaml.Folding

/-!
# Double-quoted text read back

Every character between double quotes is read back from itself or from its escape, and an escaped
line end with the indentation behind it as nothing. In one place the writer ends a line twice:
behind an escape, in front of a space, when the indentation alone is as wide as a line. The two
backslashes there are then read as one, and the second line end as a space.
-/
namespace Grove

/-! ## Capital hexadecimal digits -/

namespace Text

theorem hexValue?_toUpper_digitChar {d : Nat} (h : d < 16) :
    hexValue? (CodePoint.toUpper d.digitChar) = some d := by
  revert d
  decide

theorem hexNumber?_concat (ds : List CodePoint) (d : CodePoint) :
    hexNumber? (ds ++ [d]) = (hexNumber? ds).bind fun n => (hexValue? d).map (n * 16 + ·) := by
  rw [hexNumber?, List.foldlM_append]
  simp [hexNumber?]

theorem hexNumber?_toUpper_digits (n : Nat) :
    hexNumber? ((digits 16 n).map CodePoint.toUpper) = some n := by
  induction n using Nat.strongRecOn with
  | ind n ih =>
    by_cases hlt : n < 16
    · rw [digits_of_lt hlt]
      simp [hexNumber?, hexValue?_toUpper_digitChar hlt]
    · rw [digits_of_le (by decide) (by omega), List.map_append, List.map_singleton,
        hexNumber?_concat, ih (n / 16) (by omega),
        hexValue?_toUpper_digitChar (Nat.mod_lt n (by decide))]
      simp
      omega

theorem hexNumber?_zeros_append (k : Nat) (ds : List CodePoint) :
    hexNumber? (List.replicate k (CodePoint.scalar '0') ++ ds) = hexNumber? ds := by
  induction k with
  | zero => rfl
  | succ k ih => exact ih

end Text

namespace Yaml

theorem hexNumber?_capitalHex (places n : Nat) :
    Text.hexNumber? (capitalHex places n) = some n := by
  rw [capitalHex, Text.paddedDigits, List.map_append, List.map_replicate]
  exact (Text.hexNumber?_zeros_append _ _).trans (Text.hexNumber?_toUpper_digits n)

theorem length_capitalHex {places n : Nat} (hpos : 0 < places) (h : n < 16 ^ places) :
    (capitalHex places n).length = places := by
  have hdigits := (Text.length_digits_le_iff (by decide) hpos).mpr h
  rw [capitalHex, List.length_map, Text.paddedDigits, List.length_append, List.length_replicate]
  omega

/-! ## Escapes -/

theorem charOfCode?_toNat (c : CodePoint) : charOfCode? c.toNat = some c := by
  rw [charOfCode?, if_pos c.toNat_lt, CodePoint.ofNat_toNat]

/-- A character that is printed and is no space. -/
def isVisible (x : CodePoint) : Bool :=
  0x21 ≤ x.toNat && x.toNat ≤ 0x7E

theorem exists_digitChar_of_mem_digits {n : Nat} {x : CodePoint} (h : x ∈ Text.digits 16 n) :
    ∃ d < 16, x = CodePoint.scalar d.digitChar := by
  induction n using Nat.strongRecOn with
  | ind n ih =>
    by_cases hlt : n < 16
    · rw [Text.digits_of_lt hlt] at h
      exact ⟨n, hlt, List.mem_singleton.mp h⟩
    · rw [Text.digits_of_le (by decide) (by omega)] at h
      rcases List.mem_append.mp h with h | h
      · exact ih (n / 16) (by omega) h
      · exact ⟨n % 16, Nat.mod_lt n (by decide), List.mem_singleton.mp h⟩

theorem isVisible_of_mem_capitalHex {places n : Nat} {x : CodePoint} (h : x ∈ capitalHex places n) :
    isVisible x = true := by
  have hdigit : ∀ d < 16, isVisible (CodePoint.toUpper d.digitChar) = true := by decide
  obtain ⟨y, hy, rfl⟩ := List.mem_map.mp h
  rcases List.mem_append.mp hy with hy | hy
  · rw [List.eq_of_mem_replicate hy]
    decide
  · obtain ⟨d, hd, rfl⟩ := exists_digitChar_of_mem_digits hy
    exact hdigit d hd

/-- The escapes of a character: by a letter, or by a letter and as many digits as it calls for. -/
inductive IsEscape (c : CodePoint) : List CodePoint → Prop where
  | letter {x : CodePoint} (h : escaped? x = some c)
      (hx : isVisible x = true) : IsEscape c ['\\', x]
  | code {x : CodePoint} {places : Nat} (h : escaped? x = none)
      (hplaces : escapeWidth? x = some places)
      (hpos : 0 < places) (hc : c.toNat < 16 ^ places) (hx : isVisible x = true) :
      IsEscape c (↑ '\\' :: x :: capitalHex places c.toNat)

theorem isEscape_escape (c : CodePoint) : IsEscape c (escape c) := by
  have hletter {n : Nat} {x : CodePoint} (h : c.toNat = n)
      (hx : escaped? x = some (CodePoint.ofNat n))
      (hvisible : isVisible x = true) : IsEscape c [CodePoint.scalar '\\', x] := by
    rw [← h, CodePoint.ofNat_toNat] at hx
    exact .letter hx hvisible
  have hbound : c.toNat < 16 ^ 8 := Nat.lt_trans c.toNat_lt (by decide)
  have next {p : Prop} [Decidable p] {a b : List CodePoint} (ha : p → IsEscape c (↑ '\\' :: a))
      (hb : ¬ p → IsEscape c (↑ '\\' :: b)) : IsEscape c (↑ '\\' :: if p then a else b) :=
    iteInduction (motive := fun cs => IsEscape c (↑ '\\' :: cs)) ha hb
  unfold escape
  refine next (fun h => hletter h rfl rfl) fun _ => ?_
  refine next (fun h => hletter h rfl rfl) fun _ => ?_
  refine next (fun h => hletter h rfl rfl) fun _ => ?_
  refine next (fun h => hletter h rfl rfl) fun _ => ?_
  refine next (fun h => hletter h rfl rfl) fun _ => ?_
  refine next (fun h => hletter h rfl rfl) fun _ => ?_
  refine next (fun h => hletter h rfl rfl) fun _ => ?_
  refine next (fun h => hletter h rfl rfl) fun _ => ?_
  refine next (fun h => hletter h rfl rfl) fun _ => ?_
  refine next ?mark fun _ => ?_
  case mark =>
    intro h
    simp only [Bool.or_eq_true, decide_eq_true_eq] at h
    rcases h with rfl | rfl <;> exact .letter rfl rfl
  refine next (fun h => hletter h rfl rfl) fun _ => ?_
  refine next (fun h => hletter h rfl rfl) fun _ => ?_
  refine next (fun h => hletter h rfl rfl) fun _ => ?_
  refine next (fun h => .code rfl rfl (by decide) (Nat.lt_succ_of_le h) rfl) fun _ => ?_
  refine next (fun h => .code rfl rfl (by decide) (Nat.lt_succ_of_le h) rfl) fun _ => ?_
  exact .code rfl rfl (by decide) hbound rfl

/-- The escape of a character is read as the character. -/
theorem quotes_escape (c : CodePoint) (rest : List CodePoint) :
    Quotes true (escape c) rest [c] := by
  have hescape := isEscape_escape c
  generalize escape c = chars at hescape
  cases hescape with
  | letter h => exact quotes_letter h rest
  | code h hplaces hpos hc =>
    rw [← length_capitalHex hpos hc] at hplaces
    exact quotes_code h hplaces (hexNumber?_capitalHex _ c.toNat) (charOfCode?_toNat c) rest

/-- Escapes are printed. -/
theorem isVisible_of_mem_escape {c x : CodePoint} (h : x ∈ escape c) : isVisible x = true := by
  have hback : isVisible '\\' = true := by decide
  have hescape := isEscape_escape c
  generalize escape c = chars at h hescape
  revert x
  cases hescape with
  | letter _ hx => simp [hback, hx]
  | code _ _ _ _ hx =>
    simp only [List.forall_mem_cons]
    exact ⟨hback, hx, fun _ h => isVisible_of_mem_capitalHex h⟩

theorem startsWord_escape (c : CodePoint) (rest : List CodePoint) : StartsWord (escape c ++ rest) :=
  startsWord_cons (by decide) _

theorem isInline_unescaped {c : CodePoint} (h : needsEscape c = false) : isInline c = true :=
  isInline_of_kind (p := fun x => needsEscape x = false) (by decide) h

theorem unescaped {c : CodePoint} (h : needsEscape c = false) :
    (c ≠ ' ' → isBlank c = false) ∧ c ≠ '"' ∧ c ≠ '\\' := by
  refine ⟨?_, ?_, ?_⟩
  · refine isBlank_eq_false (isInline_unescaped h) ?_
    rintro rfl
    exact absurd h (by decide)
  · rintro rfl
    exact absurd h (by decide)
  · rintro rfl
    exact absurd h (by decide)

/-! ## Lines -/

/-- Between double quotes the text as it is read back: at a line end in front of a space, where the
space would be beyond the width again, a backslash and a blank come in. -/
def rereadDouble (f : Folding) : Bool → Bool → Nat → List CodePoint → List CodePoint
  | _, _, _, [] => []
  | first, afterEscape, column, c :: cs =>
    let mayEnd := !first && !cs.isEmpty && f.fold
    if needsEscape c then
      let column := column + (escape c).length
      if mayEnd && width + 1 < column then
        if cs.head? = some (CodePoint.scalar ' ') && 1 < cs.length && width ≤ f.indent then
          c :: ↑ '\\' :: ↑ ' ' :: rereadDouble f false true (columnAfter f cs.head?) cs
        else c :: rereadDouble f false true (columnAfter f cs.head?) cs
      else c :: rereadDouble f false true column cs
    else if mayEnd && (c = ' ' || afterEscape) && width < column then
      c :: rereadDouble f false false (columnAfter f (some c) + 1) cs
    else c :: rereadDouble f false false (column + 1) cs

section

variable {f : Folding} {rest : List CodePoint}

theorem quotes_unescaped {c : CodePoint} (h : needsEscape c = false) (hrest : StartsSpaced rest) :
    Quotes true [c] rest [c] := by
  obtain ⟨hblank, hquote, hback⟩ := unescaped h
  by_cases hspace : c = ' '
  · subst hspace
    exact quotes_space hrest
  · have hmark : c ≠ (if true then ↑ '"' else ↑ '\'') := hquote
    exact quotes_char (hblank hspace) hmark (fun _ => hback) rest

theorem quotes_lineEnd (hf : 0 < f.indent) (hrest : StartsWord rest) :
    Quotes true (↑ '\\' :: f.newLine) rest [] :=
  quotes_escapedNewLine hf hrest

/-- An escaped line end in front of a space that is kept by a backslash. -/
theorem quotes_keptSpace (hf : 0 < f.indent) (rest : List CodePoint) :
    Quotes true ((↑ '\\' :: f.newLine) ++ [CodePoint.scalar '\\', ' ']) rest
      [CodePoint.scalar ' '] :=
  (quotes_lineEnd hf (startsWord_cons (by decide) _)).append (quotes_letter rfl rest)

/-- Text starts with no blank unless it starts with a space that ends no line. -/
theorem startsWord_foldDouble_cons (f : Folding) (first afterEscape : Bool) (column : Nat)
    {c : CodePoint} (hc : c ≠ ' ') (cs rest : List CodePoint) :
    StartsWord (foldDouble f first afterEscape column (c :: cs) ++ rest) := by
  rw [foldDouble]
  dsimp only
  split
  · split
    · rw [List.append_assoc, List.append_assoc]
      exact startsWord_escape c _
    · rw [List.append_assoc]
      exact startsWord_escape c _
  · next hplain =>
    split
    · exact startsWord_cons (by decide) _
    · exact startsWord_cons ((unescaped (by simpa using hplain)).1 hc) _

theorem startsSpaced_foldDouble (f : Folding) (first afterEscape : Bool) (column : Nat)
    (cs : List CodePoint) (h : StartsSpaced rest) :
    StartsSpaced (foldDouble f first afterEscape column cs ++ rest) := by
  induction cs generalizing first afterEscape column with
  | nil => exact h
  | cons c cs ih =>
    by_cases hspace : c = ' '
    · subst hspace
      rw [foldDouble, if_neg (by decide)]
      split
      · exact StartsWord.startsSpaced (startsWord_cons (by decide) _)
      · exact (ih _ _ _).space
    · exact (startsWord_foldDouble_cons f first afterEscape column hspace cs rest).startsSpaced

theorem cons_of_head? {c : CodePoint} {cs : List CodePoint} (h : cs.head? = some c) :
    ∃ more, cs = c :: more := by
  cases cs with
  | nil => cases h
  | cons d more =>
    cases h
    exact ⟨more, rfl⟩

/-- Behind a line end, text that starts with no space starts with no blank. -/
theorem startsWord_foldDouble (f : Folding) (afterEscape : Bool) (column : Nat)
    {cs : List CodePoint}
    (hcs : cs.head? ≠ some (CodePoint.scalar ' ')) (h : StartsWord rest) :
    StartsWord (foldDouble f false afterEscape column cs ++ rest) := by
  cases cs with
  | nil => exact h
  | cons c cs => exact startsWord_foldDouble_cons f false afterEscape column (fun hc =>
    hcs (congrArg some hc)) cs rest

/-- An escaped line end in front of text that starts with a space, with the space read or, where the
line is ended a second time, with what becomes of both ends. -/
theorem quotes_endedTwice (hf : 0 < f.indent) {xs : List CodePoint} (hfold : f.fold = true)
    (hmore : ∀ column, Quotes true (foldDouble f false false column xs) rest
      (rereadDouble f false false column xs)) :
    Quotes true (escapedNewLine f (some ' ') ++
      foldDouble f false true (columnAfter f (some ' ')) (↑ ' ' :: xs)) rest
      ((if 1 < (↑ ' ' :: xs).length && width ≤ f.indent then [CodePoint.scalar '\\', ' ']
        else []) ++
        rereadDouble f false true (columnAfter f (some ' ')) (↑ ' ' :: xs)) := by
  have hspace : ¬ needsEscape ' ' = true := by decide
  have hcolumn : columnAfter f (some ' ') = f.indent + 1 := rfl
  rw [foldDouble, rereadDouble, hcolumn]
  dsimp only
  rw [if_neg hspace, if_neg hspace, hfold]
  have hline : escapedNewLine f (some ' ') = (↑ '\\' :: f.newLine) ++ [CodePoint.scalar '\\'] := rfl
  rw [hline]
  have hlast := hmore (f.indent + 1 + 1)
  generalize foldDouble f false false (f.indent + 1 + 1) xs = folded at hlast ⊢
  generalize rereadDouble f false false (f.indent + 1 + 1) xs = reread at hlast ⊢
  have hkept := (quotes_keptSpace hf _).append hlast
  cases xs with
  | nil => simpa using hkept
  | cons y ys =>
    by_cases hwide : width ≤ f.indent
    · have hbreak : Quotes true (↑ '\n' :: List.replicate f.indent (CodePoint.scalar ' '))
          ([CodePoint.scalar '\\', ' '] ++ folded ++ rest) [CodePoint.scalar ' '] :=
        quotes_newLine hf (startsWord_cons (x := '\\') (by decide) _)
      have hsecond := hbreak.append ((quotes_letter (x := ' ') rfl _).append hlast)
      have hfirst := (quotes_lineEnd hf (startsWord_cons (x := '\\') (by decide) _)).append
        ((quotes_letter (x := '\\') rfl _).append hsecond)
      simpa [Nat.lt_succ_of_le hwide, hwide, hcolumn, Folding.newLine] using hfirst
    · have hwithin : ¬ width < f.indent + 1 := by omega
      simpa [hwide, hwithin] using hkept

/-- A line end behind an escape, with what becomes of it where the line is ended a second time. -/
theorem quotes_endedBehind (c : CodePoint) (hf : f.fold = true → 0 < f.indent)
    (hfold : f.fold = true) (hrest : StartsWord rest) {cs : List CodePoint}
    (hmore : ∀ xs : List CodePoint, xs.length ≤ cs.length → ∀ first afterEscape column,
      Quotes true (foldDouble f first afterEscape column xs) rest
        (rereadDouble f first afterEscape column xs)) :
    Quotes true (escape c ++
      (escapedNewLine f cs.head? ++ foldDouble f false true (columnAfter f cs.head?) cs)) rest
      (if cs.head? = some (CodePoint.scalar ' ') && 1 < cs.length && width ≤ f.indent then
        c :: ↑ '\\' :: ↑ ' ' :: rereadDouble f false true (columnAfter f cs.head?) cs
      else c :: rereadDouble f false true (columnAfter f cs.head?) cs) := by
  by_cases hspace : cs.head? = some (CodePoint.scalar ' ')
  · obtain ⟨xs, rfl⟩ := cons_of_head? hspace
    have htwice := quotes_endedTwice (hf hfold) hfold (hmore xs (Nat.le_succ _) false false)
    have hended := (quotes_escape c _).append htwice
    by_cases hbad : (decide (1 < (↑ ' ' :: xs).length) && decide (width ≤ f.indent)) = true
    · rw [if_pos hbad] at hended
      rw [if_pos (by simpa using hbad)]
      exact hended
    · rw [if_neg hbad] at hended
      rw [if_neg (by simpa using hbad)]
      exact hended
  · have hend : escapedNewLine f cs.head? = ↑ '\\' :: f.newLine := by
      rw [escapedNewLine, if_neg hspace, List.append_nil]
    have hline := quotes_lineEnd (hf hfold)
      (startsWord_foldDouble f true (columnAfter f cs.head?) hspace hrest)
    rw [if_neg (by simp [hspace]), hend]
    exact (quotes_escape c _).append (hline.append (hmore cs (Nat.le_refl _) false true _))

/-- A line end in front of a character that is not escaped. -/
theorem quotes_endedBefore {c : CodePoint} (h : needsEscape c = false) (hf : 0 < f.indent)
    {chars text : List CodePoint} (hchars : StartsSpaced (chars ++ rest))
    (hmore : Quotes true chars rest text) :
    Quotes true (escapedNewLine f (some c) ++ c :: chars) rest (c :: text) := by
  by_cases hspace : c = ' '
  · subst hspace
    have hkept := (quotes_keptSpace hf (chars ++ rest)).append hmore
    simpa [escapedNewLine] using hkept
  · have hline := quotes_lineEnd hf (startsWord_cons ((unescaped h).1 hspace) (chars ++ rest))
    have hended := hline.append ((quotes_unescaped h hchars).append hmore)
    simpa [escapedNewLine, hspace] using hended

/-- Double-quoted text is read as it is reread. -/
theorem quotes_foldDouble (hf : f.fold = true → 0 < f.indent) (hrest : StartsWord rest)
    (first afterEscape : Bool) (column : Nat) (cs : List CodePoint) :
    Quotes true (foldDouble f first afterEscape column cs) rest
      (rereadDouble f first afterEscape column cs) := by
  -- A line that is ended twice is ended in front of the text behind the next character.
  induction hn : cs.length using Nat.strongRecOn generalizing first afterEscape column cs with
  | ind n ih =>
    cases cs with
    | nil => exact .nil true rest
    | cons c cs =>
      subst hn
      have hmore (xs : List CodePoint) (hxs : xs.length ≤ cs.length)
          (first afterEscape : Bool) (column : Nat) :
          Quotes true (foldDouble f first afterEscape column xs) rest
              (rereadDouble f first afterEscape column xs) :=
        ih xs.length (Nat.lt_succ_of_le hxs) first afterEscape column xs rfl
      have hnext := hmore cs (Nat.le_refl _)
      have hspaced (first afterEscape : Bool) (column : Nat) :
          StartsSpaced (foldDouble f first afterEscape column cs ++ rest) :=
        startsSpaced_foldDouble f first afterEscape column cs hrest.startsSpaced
      rw [foldDouble, rereadDouble]
      dsimp only
      by_cases hescape : needsEscape c = true
      · rw [if_pos hescape, if_pos hescape]
        by_cases hends : (!first && !cs.isEmpty && f.fold &&
          decide (width + 1 < column + (escape c).length)) = true
        · have hfold : f.fold = true := by
            simp only [Bool.and_eq_true] at hends
            exact hends.1.2
          rw [if_pos hends, if_pos hends, List.append_assoc]
          exact quotes_endedBehind c hf hfold hrest hmore
        · rw [if_neg hends, if_neg hends]
          exact (quotes_escape c _).append (hnext false true _)
      · have hplain : needsEscape c = false := by simpa using hescape
        rw [if_neg hescape, if_neg hescape]
        split
        · next hends =>
          have hfold : f.fold = true := by
            simp only [Bool.and_eq_true] at hends
            exact hends.1.1.2
          exact quotes_endedBefore hplain (hf hfold) (hspaced _ _ _) (hnext false false _)
        · exact (quotes_unescaped hplain (hspaced _ _ _)).append (hnext false false (column + 1))

end

/-! ## What is read back as it is -/

/-- Whether a line of double-quoted text is ended twice in one place: behind an escape and again in
front of the space that comes next, which the indentation alone puts beyond the width. -/
def endsTwice (f : Folding) : Bool → Bool → Nat → List CodePoint → Bool
  | _, _, _, [] => false
  | first, afterEscape, column, c :: cs =>
    let mayEnd := !first && !cs.isEmpty && f.fold
    if needsEscape c then
      let column := column + (escape c).length
      if mayEnd && width + 1 < column then
        (cs.head? = some (CodePoint.scalar ' ') && 1 < cs.length && width ≤ f.indent) ||
          endsTwice f false true (columnAfter f cs.head?) cs
      else endsTwice f false true column cs
    else if mayEnd && (c = ' ' || afterEscape) && width < column then
      endsTwice f false false (columnAfter f (some c) + 1) cs
    else endsTwice f false false (column + 1) cs

theorem rereadDouble_eq {f : Folding} {first afterEscape : Bool} {column : Nat}
    {cs : List CodePoint} (h : endsTwice f first afterEscape column cs = false) :
    rereadDouble f first afterEscape column cs = cs := by
  induction cs generalizing first afterEscape column with
  | nil => rfl
  | cons c cs ih =>
    rw [endsTwice] at h
    rw [rereadDouble]
    dsimp only at h ⊢
    split
    · next hescape =>
      rw [if_pos hescape] at h
      split
      · next hends =>
        rw [if_pos hends, Bool.or_eq_false_iff] at h
        rw [if_neg (by rw [h.1]; exact Bool.false_ne_true), ih h.2]
      · next hends =>
        rw [if_neg hends] at h
        rw [ih h]
    · next hescape =>
      rw [if_neg hescape] at h
      split
      · next hends =>
        rw [if_pos hends] at h
        rw [ih h]
      · next hends =>
        rw [if_neg hends] at h
        rw [ih h]

/-- Where a line is ended twice, the text does not even come first in what is read. -/
theorem not_prefix_rereadDouble {f : Folding} {first afterEscape : Bool} {column : Nat}
    {cs : List CodePoint}
    (h : endsTwice f first afterEscape column cs = true) :
    ¬ cs <+: rereadDouble f first afterEscape column cs := by
  induction cs generalizing first afterEscape column with
  | nil => cases h
  | cons c cs ih =>
    rw [endsTwice] at h
    rw [rereadDouble]
    dsimp only at h ⊢
    split
    · next hescape =>
      rw [if_pos hescape] at h
      split
      · next hends =>
        rw [if_pos hends, Bool.or_eq_true] at h
        split
        · next hbad =>
          intro hprefix
          simp only [Bool.and_eq_true, decide_eq_true_eq] at hbad
          obtain ⟨xs, rfl⟩ := cons_of_head? hbad.1.1
          exact absurd (List.cons_prefix_cons.mp (List.cons_prefix_cons.mp hprefix).2).1 (by decide)
        · next hgood =>
            exact fun hprefix => ih (h.resolve_left hgood) (List.cons_prefix_cons.mp hprefix).2
      · next hends =>
        rw [if_neg hends] at h
        exact fun hprefix => ih h (List.cons_prefix_cons.mp hprefix).2
    · next hescape =>
      rw [if_neg hescape] at h
      split
      · next hends =>
        rw [if_pos hends] at h
        exact fun hprefix => ih h (List.cons_prefix_cons.mp hprefix).2
      · next hends =>
        rw [if_neg hends] at h
        exact fun hprefix => ih h (List.cons_prefix_cons.mp hprefix).2

end Yaml

end Grove
