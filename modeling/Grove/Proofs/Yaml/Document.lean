import Grove.Proofs.Yaml.Number
import Grove.Proofs.Yaml.Place

/-!
# The tokens of a written document

Wherever a tree is written, cutting leads from the mark in front of it to what follows it and adds
the tokens of its outline, unless a key is too long to be found in front of its colon. From this the
tokens of the whole document follow.
-/
namespace Grove.Yaml

open Cutting

/-- A tree is read wherever it is written: cutting leads from the mark in front of it to what
follows it, and adds the tokens of its outline, unless a key in it is too long. -/
def Reads (step : Nat) (t : Tree) : Prop :=
  ∀ {place : Place} {column start k : Nat} {indents : List Nat} {allowed : Bool} {s : Cutting}
    {done : List Token}
    {more : List CodePoint}, At place column start indents allowed → Follows place t column k more →
      StartsToken more →
    Stands s (treeChars step column place t ++ (lineAt k ++ more)) start done indents allowed →
    Leads s (shortKeys t)
      (Stands · more k (done ++ (outline step column place t).tokens place.flush) indents true)

/-! ## Scalars and empty containers -/

theorem foldPlain_unfolded (n spaces column : Nat) (cs : List CodePoint) :
    foldPlain ⟨n, false⟩ spaces column cs = List.replicate spaces (CodePoint.scalar ' ') ++ cs := by
  induction cs generalizing spaces column with
  | nil => rw [foldPlain, List.append_nil]
  | cons c cs ih =>
    rw [foldPlain, Bool.and_false, if_neg Bool.false_ne_true]
    split
    · next hc => rw [ih, hc, List.replicate_succ', List.append_assoc, List.singleton_append]
    · rw [ih, List.replicate_zero, List.nil_append]

theorem presents_word (n : Nat) {cs : List CodePoint} (h : PlainText cs) (hne : cs ≠ []) :
    Presents ⟨n, false⟩ cs true cs := by
  have hplain := Presents.plain (f := ⟨n, false⟩) 0 h hne
  rwa [foldPlain_unfolded, List.replicate_zero, List.nil_append] at hplain

section

variable {place : Place} {step column start k : Nat} {indents : List Nat}
  {allowed : Bool} {t : Tree}
  {s : Cutting} {done : List Token} {more : List CodePoint}

/-- A scalar at a place. -/
theorem Cutting.Stands.scalarAt {f : Folding} {chars text : List CodePoint} {plain : Bool}
    (hstep : 0 < step) (hat : At place column start indents allowed)
    (hfollows : Follows place t column k more) (hmore : StartsToken more)
    (hp : Presents f chars plain text) (hindent : f.indent = column + step)
    (hplain : plain = isWrittenPlain t)
    (hs : Stands s ((place.scalarStart column).1 ++ chars ++ (lineAt k ++ more)) start done
      indents allowed) :
    Leads s true (Stands · more k (done ++ [.scalar plain text]) indents true) := by
  obtain ⟨x, xs, hx, hstart⟩ := hp.startsToken (lineAt k ++ more)
  rw [List.append_assoc] at hs
  refine (Stands.scalarStart hat hs (by rw [hx]; exact hstart)).andThen ?_
  rintro s' ⟨first, hin, hs'⟩
  refine hs'.scalar hp hin hmore (fun _ => by omega) ?_ fun h => hfollows.plainEnds (hplain ▸ h) hat
  intro i hi
  have hle := hat.le_column i hi
  omega

/-- The brackets of an empty container at a place. -/
theorem Cutting.Stands.bracketsAt {x y : CodePoint} {opening closing : Token}
    (hx : x = '[' ∧ y = ']' ∧ opening = .flowSequenceStart ∧ closing = .flowSequenceEnd ∨
      x = '\x7b' ∧ y = '\x7d' ∧ opening = .flowMappingStart ∧ closing = .flowMappingEnd)
    (hat : At place column start indents allowed) (hmore : StartsToken more)
    (hs : Stands s ((place.scalarStart column).1 ++ [x, y] ++ (lineAt k ++ more)) start done
      indents allowed) :
    Leads s true (Stands · more k (done ++ [opening, closing]) indents true) := by
  have hstart : StartsToken ([x, y] ++ (lineAt k ++ more)) := by
    rcases hx with ⟨rfl, -⟩ | ⟨rfl, -⟩ <;> exact startsToken_cons (by decide) _
  rw [List.append_assoc] at hs
  refine (Stands.scalarStart hat hs hstart).andThen ?_
  rintro s' ⟨first, hin, hs'⟩
  exact hs'.brackets hx hin hmore

end

section

variable {step : Nat}

theorem reads_string (hstep : 0 < step) (text : Text) : Reads step (.string text) := by
  intro place column start k indents allowed s done more hat hfollows hmore hs
  exact hs.scalarAt hstep hat hfollows hmore (presents_styledText _ fun _ =>
    Nat.add_pos_right _ hstep) rfl rfl

theorem reads_number (hstep : 0 < step) (x : Binary64) : Reads step (.number x) := by
  intro place column start k indents allowed s done more hat hfollows hmore hs
  obtain ⟨hne, hplain, -⟩ := numberChars_spec x
  exact hs.scalarAt hstep hat hfollows hmore (presents_word (column + step) hplain hne) rfl rfl

theorem reads_boolean (hstep : 0 < step) (b : Bool) : Reads step (.boolean b) := by
  intro place column start k indents allowed s done more hat hfollows hmore hs
  obtain ⟨hplain, -⟩ := truthChars_spec b
  cases b <;>
    exact hs.scalarAt hstep hat hfollows hmore
      (presents_word (column + step) hplain (by decide)) rfl rfl

theorem reads_nil : Reads step (.list []) := by
  intro place column start k indents allowed s done more hat _ hmore hs
  exact Stands.bracketsAt (Or.inl ⟨rfl, rfl, rfl, rfl⟩) hat hmore hs

theorem reads_empty : Reads step (.level []) := by
  intro place column start k indents allowed s done more hat _ hmore hs
  exact Stands.bracketsAt (Or.inr ⟨rfl, rfl, rfl, rfl⟩) hat hmore hs

end

/-! ## Items -/

section

variable {step inner k : Nat} {more : List CodePoint} {indents : List Nat} {s : Cutting}
  {done : List Token}

theorem fresh_of_head (h : indents.head? = some inner) : Fresh indents inner true := by
  obtain ⟨is, rfl⟩ := List.head?_eq_some_iff.mp h
  refine ⟨decide_eq_false (Nat.lt_irrefl inner), ?_, fun _ => rfl⟩
  intro i hi
  cases hi
  exact Nat.le_refl _

theorem Cutting.Fresh.opening {flush : Bool} (h : Fresh indents inner flush) (t : Token) :
    (if Cutting.opens indents inner then [t] else []) = if flush then [] else [t] := by
  rw [h.opens]
  cases flush <;> rfl

theorem within_of_head (h : indents.head? = some inner) :
    opens indents inner = false ∧ within indents inner = indents := by
  have hopens := (fresh_of_head h).opens
  exact ⟨hopens, by rw [within, hopens]; rfl⟩

theorem Follows.closes {place : Place} {t : Tree} {column : Nat} (h : Follows place t column k more)
    (ht : isWrittenPlain t = false) (hinner : place ≠ .root → column < inner) :
    k < inner ∨ more = [] := by
  cases place with
  | root =>
    obtain ⟨-, hmore⟩ := h
    rw [ht, if_neg Bool.false_ne_true] at hmore
    exact Or.inr hmore
  | mark | key => exact Or.inl (Nat.lt_of_le_of_lt h.1 (hinner nofun))

theorem startsToken_itemsText (hmore : StartsToken more) (ts : List Tree) :
    StartsToken (itemsText step inner k more ts) := by
  cases ts with
  | nil => exact hmore
  | cons t ts => exact startsToken_mark (Or.inl rfl) _

theorem EndsBlock.items (hstep : 1 < step) (h : EndsBlock inner k more) (ts : List Tree) :
    EndsBlock inner (nextColumn inner k ts) (itemsText step inner k more ts) := by
  cases ts with
  | nil => exact h
  | cons t ts =>
    have hmark : endsWord (treeChars step inner .mark t ++
        (itemsChars step inner ts ++ (lineAt k ++ more))).head? = true :=
      endsWord_treeChars hstep (Or.inl rfl) t _
    refine ⟨Nat.le_refl _, noMarker_spaces (noMarker_cons fun _ => ?_) _⟩
    exact ne_of_endsWord hmark (by decide)

/-- The first of several items. -/
theorem Reads.item {t : Tree} (h : Reads step t) (hstep : 1 < step) (ts : List Tree) {flush : Bool}
    (hfresh : Fresh indents inner flush) (hends : EndsBlock inner k more) (hmore : StartsToken more)
    (hs : Stands s (itemsText step inner k more (t :: ts)) inner done indents true) :
    Leads s (shortKeys t) (Stands · (itemsText step inner k more ts) (nextColumn inner k ts)
      (done ++ (if flush then [] else [.sequenceStart]) ++
        .entry :: (outline step inner .mark t).tokens false)
      (within indents inner) true) := by
  have hdash := hs.dash (endsWord_treeChars hstep (Or.inl rfl) t _) hfresh.inside
  have hat : At .mark inner (inner + 1) (within indents inner) true :=
    ⟨hfresh.head_within, rfl, rfl⟩
  refine hdash.andThen fun s' hs' => ?_
  rw [itemsChars_line] at hs'
  refine (h hat (hends.items hstep ts) (startsToken_itemsText hmore ts) hs').imp fun s'' hs'' => ?_
  rw [hfresh.opens, List.append_assoc (done ++ _)] at hs''
  cases flush <;> exact hs''

/-- The items after the first. -/
theorem reads_items (hstep : 1 < step) {ts : List Tree} (h : ∀ t ∈ ts, Reads step t)
    (hhead : indents.head? = some inner) (hends : EndsBlock inner k more) (hmore : StartsToken more)
    (hs : Stands s (itemsText step inner k more ts) (nextColumn inner k ts) done indents true) :
    Leads s (shortKeysAll ts)
      (Stands · more k (done ++ Outline.itemsTokens (itemOutlines step inner ts))
        indents true) := by
  induction ts generalizing s done with
  | nil =>
    refine .refl ?_
    rw [itemOutlines, Outline.itemsTokens, List.append_nil]
    exact hs
  | cons t ts ih =>
    obtain ⟨hfirst, hothers⟩ := List.forall_mem_cons.mp h
    refine (hfirst.item hstep ts (fresh_of_head hhead) hends hmore hs).trans fun s' hs' => ?_
    rw [(within_of_head hhead).2] at hs'
    refine (ih hothers hs').imp fun s'' hs'' => ?_
    simpa [itemOutlines, Outline.itemsTokens] using hs''

theorem reads_list (hstep : 1 < step) {t : Tree} {ts : List Tree}
    (h : ∀ u ∈ t :: ts, Reads step u) :
    Reads step (.list (t :: ts)) := by
  intro place column start k indents allowed s done more hat hfollows hmore hs
  obtain ⟨hopens, hfresh, hle⟩ := At.listStart (Nat.lt_of_succ_lt hstep) hat
  have hends := hfollows.endsBlock rfl hle
  have hclosed (hflush : place.flush = false) :
      k < (place.listStart step column).2 ∨ more = [] := by
    refine hfollows.closes rfl fun hroot => ?_
    cases place with
    | root => exact absurd rfl hroot
    | mark => exact Nat.lt_add_of_pos_right (Nat.lt_of_succ_lt hstep)
    | key last => cases hflush
  obtain ⟨hfirst, hothers⟩ := List.forall_mem_cons.mp h
  rw [treeChars_list] at hs
  refine (Stands.opening hopens hs (startsToken_itemsText hmore _)).andThen fun s₁ hs₁ => ?_
  refine (hfirst.item hstep ts hfresh hends hmore hs₁).trans fun s₂ hs₂ => ?_
  have hitems := reads_items hstep hothers hfresh.head_within hends hmore hs₂
  have hboth := hitems.trans fun s₃ hs₃ => Stands.closing hfresh hs₃ hmore hclosed
  rw [Bool.and_true] at hboth
  refine hboth.imp fun s₄ hs₄ => ?_
  simpa [outline, itemOutlines, Outline.tokens] using hs₄

end

/-! ## Entries -/

section

variable {step inner k : Nat} {more rest : List CodePoint} {indents : List Nat} {s : Cutting}
  {done : List Token} {name : Text}

theorem keyChars_simple (h : isSimpleKey name.toList = true) :
    keyChars step inner name = (simpleKeyChars name ++ [CodePoint.scalar ':'],
      .key (inner + (simpleKeyChars name).length)) :=
  if_pos h

theorem keyChars_marked (h : isSimpleKey name.toList = false) : keyChars step inner name =
    (↑ '?' :: ↑ ' ' :: textChars (inner + step) (inner + 2) name.toList ++ lineAt inner ++
      [CodePoint.scalar ':'], .mark) :=
  if_neg (Bool.eq_false_iff.mp h)

theorem flush_keyChars (step inner : Nat) (name : Text) :
    (keyChars step inner name).2.flush = (keyOutline step inner name).simple := by
  unfold keyChars keyOutline
  split <;> rfl

theorem presents_simpleKey (h : isSimpleKey name.toList = true) :
    Presents ⟨0, false⟩ (simpleKeyChars name) (Style.ofText name.toList =
      .plain) (reread ⟨0, false⟩ 0 name.toList) ∧
      ∀ x ∈ simpleKeyChars name, isInline x = true := by
  simp only [isSimpleKey, Bool.and_eq_true, Bool.not_eq_true'] at h
  have hbreaks : ¬ name.toList.any isTextBreak = true := by
    rw [h.1.2]
    exact Bool.false_ne_true
  refine ⟨presents_styledText 0 fun hany => absurd hany hbreaks, fun x hx => ?_⟩
  rcases (writable_styledText ⟨0, false⟩ 0 name.toList x hx).2 with hinline | ⟨hfold | hany, -⟩
  · exact hinline
  · exact absurd hfold Bool.false_ne_true
  · exact absurd hany hbreaks

theorem presents_markedKey (hstep : 0 < step) (inner column : Nat) (name : Text) :
    Presents ⟨inner + step, true⟩ (textChars (inner + step) column name.toList)
      (Style.ofText name.toList = .plain) (reread ⟨inner + step, true⟩ column name.toList) :=
  presents_styledText column fun _ => Nat.add_pos_right _ hstep

/-- A key behind a question mark, up to its colon. -/
theorem Cutting.Stands.markedKey (hstep : 0 < step) {flush : Bool}
    (hfresh : Fresh indents inner flush)
    (hs : Stands s (↑ '?' :: ↑ ' ' ::
      (textChars (inner + step) (inner + 2) name.toList ++ (lineAt inner ++ ↑ ':' :: rest)))
      inner done indents true) (hrest : endsWord rest.head? = true) :
    Leads s true (Stands · rest (inner + 1) (done ++ (if flush then [] else [.mappingStart]) ++
      [.key, .scalar (Style.ofText name.toList =
        .plain) (reread ⟨inner + step, true⟩ (inner + 2) name.toList), .value])
      (within indents inner) true) := by
  have hp := presents_markedKey hstep inner (inner + 2) name
  have hkey : StartsToken
      (textChars (inner + step) (inner + 2) name.toList ++ (lineAt inner ++ ↑ ':' :: rest)) := by
    obtain ⟨x, xs, hx, hstart⟩ := hp.startsToken (lineAt inner ++ ↑ ':' :: rest)
    rwa [hx]
  obtain ⟨is, his⟩ := List.head?_eq_some_iff.mp hfresh.head_within
  have hquestion := hs.question rfl hfresh.inside
  rw [hfresh.opening] at hquestion
  change Leads s true (Stands · _ _ _ (within indents inner) true) at hquestion
  rw [his] at hquestion ⊢
  refine hquestion.andThen fun s₁ hs₁ => ?_
  refine (Stands.spaces (k := 1) hs₁ hkey).andThen fun s₂ hs₂ => ?_
  refine (Stands.scalar hp hs₂ ?_ (startsToken_mark (by decide) rest)
    (fun _ => Nat.add_pos_right _ hstep) ?_
    fun _ => ?_).andThen fun s₃ hs₃ => ?_
  · rintro _ ⟨⟩
    omega
  · rintro _ ⟨⟩
    exact Nat.lt_add_of_pos_right hstep
  · exact Or.inl ⟨inner, rfl, Nat.le_refl _,
      noMarker_spaces (noMarker_cons fun h => absurd h (by decide)) _⟩
  · refine (hs₃.colon hrest).imp fun s₄ hs₄ => ?_
    simpa using hs₄

/-- The first of several keys, up to its value. -/
theorem Cutting.Stands.keyAt (hstep : 0 < step) {flush : Bool} (hfresh : Fresh indents inner flush)
    (hs : Stands s ((keyChars step inner name).1 ++ rest) inner done indents true)
    (hrest : endsWord rest.head? = true) :
    Leads s (shortKey name) fun s' => ∃ start allowed,
      At (keyChars step inner name).2 inner start (within indents inner) allowed ∧
      Stands s' rest start (done ++ (if flush then [] else [.mappingStart]) ++
        [.key, .scalar (keyOutline step inner name).plain (keyOutline step inner name).text,
          .value])
        (within indents inner) allowed := by
  have hhead := hfresh.head_within
  by_cases hsimple : isSimpleKey name.toList = true
  · obtain ⟨hp, hinline⟩ := presents_simpleKey hsimple
    rw [keyChars_simple hsimple, List.append_assoc] at hs
    have hkey := Stands.key hp rfl hinline hs hrest hfresh.inside
    rw [hfresh.opening] at hkey
    rw [shortKey, hsimple, keyChars_simple hsimple, keyOutline, if_pos hsimple]
    exact hkey.imp fun s' hs' => ⟨_, _, ⟨hhead, rfl, Nat.le_add_right _ _⟩, hs'⟩
  · rw [Bool.not_eq_true] at hsimple
    rw [keyChars_marked hsimple] at hs
    rw [shortKey, hsimple, keyChars_marked hsimple, keyOutline,
      if_neg (Bool.eq_false_iff.mp hsimple)]
    have hkey := Stands.markedKey hstep hfresh (by simpa using hs) hrest
    exact hkey.imp fun s' hs' => ⟨_, _, ⟨hhead, rfl, rfl⟩, hs'⟩

theorem startsToken_keyChars (name : Text) (rest : List CodePoint) :
    StartsToken ((keyChars step inner name).1 ++ rest) := by
  by_cases hsimple : isSimpleKey name.toList = true
  · obtain ⟨x, xs, hx, hstart⟩ := (presents_simpleKey hsimple).1.startsToken (↑ ':' :: rest)
    rw [keyChars_simple hsimple, List.append_assoc]
    exact hx ▸ hstart
  · rw [keyChars_marked (Bool.eq_false_iff.mpr hsimple)]
    exact startsToken_mark (by decide) _

theorem noMarker_keyChars (name : Text) (rest : List CodePoint) :
    NoMarker ((keyChars step inner name).1 ++ rest) := by
  by_cases hsimple : isSimpleKey name.toList = true
  · rw [keyChars_simple hsimple, List.append_assoc]
    exact noMarker_presents (presents_simpleKey hsimple).1 (by simp)
  · rw [keyChars_marked (Bool.eq_false_iff.mpr hsimple)]
    exact noMarker_cons fun h => absurd h (by decide)

theorem place_keyChars (step inner : Nat) (name : Text) :
    (keyChars step inner name).2 = .mark ∨ ∃ last, (keyChars step inner name).2 = .key last := by
  unfold keyChars
  split
  · exact Or.inr ⟨_, rfl⟩
  · exact Or.inl rfl

theorem startsToken_entriesText (hmore : StartsToken more) (es : List (Text × Tree)) :
    StartsToken (entriesText step inner k more es) := by
  cases es with
  | nil => exact hmore
  | cons e es => exact startsToken_keyChars e.1 _

theorem EndsBlock.entries (h : EndsBlock inner k more) (es : List (Text × Tree)) :
    EndsBlock inner (nextColumn inner k es) (entriesText step inner k more es) := by
  cases es with
  | nil => exact h
  | cons e es => exact ⟨Nat.le_refl _, noMarker_spaces (noMarker_keyChars e.1 _) _⟩

theorem follows_value {place : Place} (hplace : place = .mark ∨ ∃ last, place = .key last)
    {t : Tree} {column : Nat} (h : EndsBlock column k more) : Follows place t column k more := by
  rcases hplace with rfl | ⟨last, rfl⟩ <;> exact h

/-- The first of several entries. -/
theorem Reads.entry {t : Tree} (h : Reads step t) (hstep : 1 < step) (name : Text)
    (es : List (Text × Tree)) {flush : Bool} (hfresh : Fresh indents inner flush)
    (hends : EndsBlock inner k more) (hmore : StartsToken more)
    (hs : Stands s (entriesText step inner k more ((name, t) :: es)) inner done indents true) :
    Leads s (shortKey name && shortKeys t)
      (Stands · (entriesText step inner k more es) (nextColumn inner k es)
      (done ++ (if flush then [] else [.mappingStart]) ++
        .key :: .scalar (keyOutline step inner name).plain (keyOutline step inner name).text ::
          .value ::
          (outline step inner (keyChars step inner name).2 t).tokens
            (keyOutline step inner name).simple)
      (within indents inner) true) := by
  have hplace := place_keyChars step inner name
  have hkey := hs.keyAt (Nat.lt_of_succ_lt hstep) hfresh (endsWord_treeChars hstep hplace t _)
  refine hkey.trans ?_
  rintro s' ⟨start, allowed, hat, hs'⟩
  rw [entriesChars_line] at hs'
  refine (h hat (follows_value hplace (hends.entries es))
    (startsToken_entriesText hmore es) hs').imp
    fun s'' hs'' => ?_
  rw [flush_keyChars, List.append_assoc (done ++ _)] at hs''
  exact hs''

/-- The entries after the first. -/
theorem reads_entries (hstep : 1 < step) {es : List (Text × Tree)} (h : ∀ e ∈ es, Reads step e.2)
    (hhead : indents.head? = some inner) (hends : EndsBlock inner k more) (hmore : StartsToken more)
    (hs : Stands s (entriesText step inner k more es) (nextColumn inner k es) done indents true) :
    Leads s (shortKeysEntries es)
      (Stands · more k (done ++ Outline.entriesTokens (entryOutlines step inner es))
        indents true) := by
  induction es generalizing s done with
  | nil =>
    refine .refl ?_
    rw [entryOutlines, Outline.entriesTokens, List.append_nil]
    exact hs
  | cons e es ih =>
    obtain ⟨hfirst, hothers⟩ := List.forall_mem_cons.mp h
    refine (hfirst.entry hstep e.1 es (fresh_of_head hhead) hends hmore hs).trans fun s' hs' => ?_
    rw [(within_of_head hhead).2] at hs'
    refine (ih hothers hs').imp fun s'' hs'' => ?_
    simpa [entryOutlines, Outline.entriesTokens] using hs''

theorem reads_level (hstep : 1 < step) {e : Text × Tree} {es : List (Text × Tree)}
    (h : ∀ d ∈ e :: es, Reads step d.2) : Reads step (.level (e :: es)) := by
  intro place column start k indents allowed s done more hat hfollows hmore hs
  obtain ⟨hopens, hfresh, hle⟩ := At.levelStart (Nat.lt_of_succ_lt hstep) hat
  have hends := hfollows.endsBlock rfl hle
  have hclosed : k < (place.levelStart step column).2 ∨ more = [] := by
    refine hfollows.closes rfl fun hroot => ?_
    cases place with
    | root => exact absurd rfl hroot
    | mark | key => exact Nat.lt_add_of_pos_right (Nat.lt_of_succ_lt hstep)
  obtain ⟨hfirst, hothers⟩ := List.forall_mem_cons.mp h
  rw [treeChars_level] at hs
  refine (Stands.opening hopens hs (startsToken_entriesText hmore _)).andThen fun s₁ hs₁ => ?_
  refine (hfirst.entry hstep e.1 es hfresh hends hmore hs₁).trans fun s₂ hs₂ => ?_
  have hentries := reads_entries hstep hothers hfresh.head_within hends hmore hs₂
  have hboth := hentries.trans fun s₃ hs₃ => Stands.closing hfresh hs₃ hmore fun _ => hclosed
  rw [Bool.and_true] at hboth
  refine hboth.imp fun s₄ hs₄ => ?_
  simpa [outline, entryOutlines, Outline.tokens] using hs₄

end

/-! ## Every tree -/

section

variable {step : Nat}

mutual

/-- Every tree is read wherever it is written. -/
theorem reads (hstep : 1 < step) : (t : Tree) → Reads step t
  | .number x => reads_number (Nat.lt_of_succ_lt hstep) x
  | .string text => reads_string (Nat.lt_of_succ_lt hstep) text
  | .boolean b => reads_boolean (Nat.lt_of_succ_lt hstep) b
  | .list [] => reads_nil
  | .list (t :: ts) => reads_list hstep (readsAll hstep (t :: ts))
  | .level [] => reads_empty
  | .level (e :: es) => reads_level hstep (readsEntries hstep (e :: es))

theorem readsAll (hstep : 1 < step) : (ts : List Tree) → ∀ t ∈ ts, Reads step t
  | [] => List.forall_mem_nil _
  | t :: ts => List.forall_mem_cons.mpr ⟨reads hstep t, readsAll hstep ts⟩

theorem readsEntries (hstep : 1 < step) : (es : List (Text × Tree)) → ∀ e ∈ es, Reads step e.2
  | [] => List.forall_mem_nil _
  | (_, t) :: es => List.forall_mem_cons.mpr ⟨reads hstep t, readsEntries hstep es⟩

end

end

/-! ## The whole document -/

section

variable {step column : Nat} {place : Place}

theorem writable_lineAt (column : Nat) : ∀ x ∈ lineAt column, Writable True x :=
  List.forall_mem_cons.mpr ⟨writable_newLine trivial,
    forall_mem_spaces (writable_of_printed (by decide) True) column⟩

theorem writable_text (f : Folding) (column : Nat) (cs : List CodePoint) :
    ∀ x ∈ styledText f (.ofText cs) column cs, Writable True x :=
  fun x hx => (writable_styledText f column cs x hx).imp fun _ => trivial

theorem writable_plain {cs : List CodePoint} (h : PlainText cs) : ∀ x ∈ cs, Writable True x :=
  fun x hx => (writable_of_not_isSpecial (h.special x hx)).imp fun _ => trivial

theorem writable_printed {cs : List CodePoint}
    (h : cs.all (fun x => 0x20 ≤ x.toNat && x.toNat ≤ 0x7E) = true) :
    ∀ x ∈ cs, Writable True x := by
  intro x hx
  have hprinted := List.all_eq_true.mp h x hx
  simp only [Bool.and_eq_true, decide_eq_true_eq] at hprinted
  exact writable_of_printed hprinted True

theorem writable_spaces (n : Nat) :
    ∀ x ∈ List.replicate n (CodePoint.scalar ' '), Writable True x :=
  forall_mem_spaces (writable_of_printed (by decide) True) n

theorem writable_start (place : Place) (step column : Nat) :
    (∀ x ∈ (place.scalarStart column).1, Writable True x) ∧
    (∀ x ∈ (place.listStart step column).1, Writable True x) ∧
      ∀ x ∈ (place.levelStart step column).1, Writable True x := by
  have hspace : ∀ x ∈ [CodePoint.scalar ' '], Writable True x := writable_spaces 1
  cases place with
  | root => exact ⟨List.forall_mem_nil _, List.forall_mem_nil _, List.forall_mem_nil _⟩
  | mark => exact ⟨hspace, writable_spaces _, writable_spaces _⟩
  | key last => exact ⟨hspace, writable_lineAt _, writable_lineAt _⟩

theorem writable_keyChars (step column : Nat) (name : Text) :
    ∀ x ∈ (keyChars step column name).1, Writable True x := by
  have hcolon : ∀ x ∈ [CodePoint.scalar ':'], Writable True x := writable_printed rfl
  have hmark : ∀ x ∈ [CodePoint.scalar '?', ' '], Writable True x := writable_printed rfl
  unfold keyChars
  split
  · exact List.forall_mem_append.mpr ⟨writable_text _ _ _, hcolon⟩
  · exact List.forall_mem_append.mpr ⟨List.forall_mem_append.mpr ⟨List.forall_mem_append.mpr
      ⟨hmark, writable_text _ _ _⟩, writable_lineAt _⟩, hcolon⟩

mutual

/-- What is written of a tree may stand in a document. -/
theorem writable_treeChars (step column : Nat) (place : Place) : (t : Tree) →
    ∀ x ∈ treeChars step column place t, Writable True x
  | .number x => List.forall_mem_append.mpr
      ⟨(writable_start place step column).1, writable_plain (numberChars_spec x).2.1⟩
  | .string s => List.forall_mem_append.mpr ⟨(writable_start place step column).1,
      writable_text _ _ _⟩
  | .boolean true | .boolean false => List.forall_mem_append.mpr
      ⟨(writable_start place step column).1, writable_printed rfl⟩
  | .list [] | .level [] => List.forall_mem_append.mpr
      ⟨(writable_start place step column).1, writable_printed rfl⟩
  | .list (t :: ts) => List.forall_mem_append.mpr ⟨List.forall_mem_append.mpr
      ⟨(writable_start place step column).2.1, List.forall_mem_cons.mpr
        ⟨writable_of_printed (by decide) True, writable_treeChars step _ .mark t⟩⟩,
          writable_itemsChars step _ ts⟩
  | .level ((name, t) :: es) =>
    List.forall_mem_append.mpr ⟨List.forall_mem_append.mpr ⟨List.forall_mem_append.mpr
      ⟨(writable_start place step column).2.2, writable_keyChars step _ name⟩,
        writable_treeChars step _ _ t⟩, writable_entriesChars step _ es⟩

theorem writable_itemsChars (step column : Nat) : (ts : List Tree) →
    ∀ x ∈ itemsChars step column ts, Writable True x
  | [] => List.forall_mem_nil _
  | t :: ts => List.forall_mem_append.mpr ⟨List.forall_mem_append.mpr ⟨writable_lineAt column,
      List.forall_mem_cons.mpr ⟨writable_of_printed (by decide) True,
        writable_treeChars step column .mark t⟩⟩, writable_itemsChars step column ts⟩

theorem writable_entriesChars (step column : Nat) : (es : List (Text × Tree)) →
    ∀ x ∈ entriesChars step column es, Writable True x
  | [] => List.forall_mem_nil _
  | (name, t) :: es =>
    List.forall_mem_append.mpr ⟨List.forall_mem_append.mpr ⟨List.forall_mem_append.mpr
      ⟨writable_lineAt column, writable_keyChars step column name⟩,
        writable_treeChars step column _ t⟩, writable_entriesChars step column es⟩

end

end

namespace Cutting

section

variable {s : Cutting} {column : Nat} {done : List Token} {indents : List Nat} {allowed : Bool}

theorem startsToken_nil : StartsToken [] := by
  intro x hx
  cases hx

/-- Outside all blocks nothing is closed. -/
theorem Stands.breakOff {rest : List CodePoint} (hs : Stands s rest column done [] allowed)
    (hpossible : s.possible = []) :
    s.breakOff = some { s with keyAllowed := false } := by
  have hclose : s.closeBlocks (-1) = s := by
    rw [closeBlocks, if_pos hs.depth]
    obtain ⟨cursor, items, fillings, indents, depth, keyAllowed, possible⟩ := s
    cases hs.indents
    rfl
  rw [Cutting.breakOff, hclose, dropPossible_nil hpossible]
  rfl

/-- The end of the text, outside all blocks. -/
theorem Stands.finish (hs : Stands s [] column done [] allowed) (fuel : Nat) :
    (s.run (fuel + 1)).map Cutting.tokens = some (done ++ [.finish]) := by
  have hopen : unwind column [] { s with possible := [] } = { s with possible := [] } :=
    unwind_open hs.indents nofun
  have hbreak := hs.ready.breakOff rfl
  rw [hs.run_here startsToken_nil, List.head?_nil, hopen]
  simp only [hbreak, Option.map_some, tokens_push]
  rw [← hs.tokens]
  rfl

/-- The tokens of a run that leads to the end of the text. -/
theorem Leads.finish {ok : Bool} (h : Leads s ok (Stands · [] column done [] allowed)) {fuel : Nat}
    (hfuel : s.cursor.rest.length < fuel) :
    (s.run fuel).map Cutting.tokens = if ok then some (done ++ [.finish]) else none := by
  cases ok with
  | false =>
    obtain ⟨n, hn, hfail⟩ := h
    obtain ⟨m, rfl⟩ := Nat.exists_eq_add_of_le' (Nat.le_trans hn (Nat.le_of_lt hfuel))
    rw [hfail]
    rfl
  | true =>
    obtain ⟨s', n, hs', hn, hrun⟩ := h
    have hlt : n < fuel := by
      rw [hs'.rest] at hn
      exact Nat.lt_of_le_of_lt hn hfuel
    obtain ⟨m, rfl⟩ := Nat.exists_eq_add_of_lt hlt
    rw [show n + m + 1 = m + 1 + n by omega, hrun]
    exact hs'.finish m

/-- The mark behind the end of a document. -/
theorem Stands.documentEnd (hs : Stands s (Text.toList "...\n") 0 done [] true) :
    Leads s true (Stands · [] 0 (done ++ [.documentEnd]) [] true) := by
  have hready := hs.ready
  have hrest : s.cursor.rest = [CodePoint.scalar '.', '.', '.', '\n'] := hs.rest
  have hdash : s.cursor.atMarker '-' = false := Cursor.atMarker_eq_false hrest fun h =>
    absurd h (by decide)
  have hpoint : s.cursor.atMarker '.' = true := by
    rw [Cursor.atMarker, hrest]
    rfl
  have htoken : { s with possible := [] }.tokenAt '.' =
      some ((({ s with possible := [], keyAllowed := false } : Cutting).push .documentEnd).moveTo
        (s.cursor.forward 3)) := by
    have hbreak := hready.breakOff rfl
    simp [tokenAt, hdash, hpoint, hs.column, hbreak]
  have hends := (((hready.allow false).push .documentEnd).moveTo (s.cursor.line_le_forward 3)).ends
  rw [show (s.cursor.forward 3).rest = [CodePoint.scalar '\n'] by
    rw [Cursor.rest_forward, hrest]; rfl] at hends
  have hopen : ∀ i, ([] : List Nat).head? = some i → i ≤ 0 := by
    intro i hi
    cases hi
  have hgo : Leads s true (Ends · [CodePoint.scalar '\n'] (done ++ [.documentEnd]) []) :=
    hs.step (startsToken_cons (by decide) _) hopen ⟨_, htoken, hends, by rw [hends.rest]; simp⟩
  exact hgo.andThen fun s' hs' => hs'.line (k := 0) startsToken_nil

end

end Cutting

/-- What stands behind the line end of a tree that is a whole document. -/
def documentTail (t : Tree) : List CodePoint :=
  if isWrittenPlain t then Text.toList "...\n" else []

theorem toList_write (indent : Int) (t : Tree) :
    (write indent t).toList =
      treeChars (indentStep indent) 0 .root t ++ (lineAt 0 ++ documentTail t) := by
  rw [write, documentTail, Text.toList_ofList]
  split <;> rfl

theorem writable_write (indent : Int) (t : Tree) :
    ∀ x ∈ (write indent t).toList, Writable True x := by
  have htail : ∀ x ∈ documentTail t, Writable True x := by
    have hline : ∀ x ∈ Text.toList "...", Writable True x := writable_printed rfl
    unfold documentTail
    split
    · exact List.forall_mem_append.mpr ⟨hline, writable_lineAt 0⟩
    · exact List.forall_mem_nil _
  rw [toList_write]
  exact List.forall_mem_append.mpr ⟨writable_treeChars _ _ _ t,
    List.forall_mem_append.mpr ⟨writable_lineAt 0, htail⟩⟩

theorem startsToken_documentTail (t : Tree) : StartsToken (documentTail t) := by
  unfold documentTail
  split
  · exact startsToken_cons (by decide) _
  · exact startsToken_nil

theorem follows_documentTail (t : Tree) : Follows .root t 0 0 (documentTail t) := by
  refine ⟨rfl, ?_⟩
  unfold documentTail
  split
  · intro c hc
    rw [Cursor.atDocumentMarker, Cursor.atMarker, Cursor.atMarker, hc]
    rfl
  · rfl

theorem one_lt_indentStep (indent : Int) : 1 < indentStep indent := by
  unfold indentStep
  split <;> omega

/-- The tokens of a written document: those of the outline of its tree. None can be cut if a key is
too long. -/
theorem tokens_write (indent : Int) (t : Tree) : tokens (write indent t).toList =
    if shortKeys t then some ((outline (indentStep indent) 0 .root t).tokens false ++
      (if isWrittenPlain t then [.documentEnd] else []) ++ [.finish]) else none := by
  have hallowed : (write indent t).toList.all isAllowed = true :=
    List.all_eq_true.mpr fun x hx => (writable_write indent t x hx).1
  have hmark : (Cutting.start (write indent t).toList).cursor.sees '\uFEFF' = false := by
    refine Cursor.sees_eq_false fun h => ?_
    have hfirst := (writable_write indent t _ (List.mem_of_mem_head? h)).2
    rcases hfirst with hinline | ⟨-, hbreak⟩
    · exact absurd hinline (by decide)
    · exact absurd hbreak (by decide)
  have hstart : Stands (.start (write indent t).toList)
      (treeChars (indentStep indent) 0 .root t ++ (lineAt 0 ++ documentTail t)) 0 [] [] true :=
    ⟨toList_write indent t, rfl, rfl, rfl, rfl, rfl, nofun, nofun⟩
  have hat : At .root 0 0 [] true := ⟨rfl, rfl, rfl, rfl⟩
  have hread := reads (one_lt_indentStep indent) t hat (follows_documentTail t)
    (startsToken_documentTail t) hstart
  have hend : Leads (.start (write indent t).toList) (shortKeys t) (Stands · [] 0
      ((outline (indentStep indent) 0 .root t).tokens false ++
        if isWrittenPlain t then [.documentEnd] else [])
      [] true) := by
    by_cases hplain : isWrittenPlain t = true
    · rw [documentTail, if_pos hplain] at hread
      have hboth := hread.trans fun _ hs => hs.documentEnd
      rw [if_pos hplain]
      rwa [Bool.and_true] at hboth
    · rw [documentTail, if_neg hplain] at hread
      rwa [if_neg hplain, List.append_nil]
  rw [tokens, if_pos hallowed]
  simp only [hmark, Bool.false_eq_true, if_false]
  exact hend.finish (Nat.lt_succ_self _)

end Grove.Yaml
