import Grove.Proofs.Tree.Plain
import Grove.Proofs.Yaml.Assembly
import Grove.Proofs.Yaml.Document
import Grove.Proofs.Yaml.Number

/-!
# Written trees read back

Of a written tree the value of its outline is read, which is the tree's own if its texts and keys
are read back as they are. If one is not, another tree comes back: what is lost of a text cannot be
made up for by cutting it, and keys that fall together leave fewer entries.
-/
namespace Grove.Yaml

/-! ## Texts that are kept -/

/-- Whether a text is read back as it is when it is written from a column on. -/
def keepsText (f : Folding) (column : Nat) (cs : List CodePoint) : Bool :=
  match Style.ofText cs with
  | .plain => true
  | .single => !cs.contains '\x85'
  | .double => !endsTwice f true false (column + 1) cs

/-- Whether a key is read back as it is from the column of its level. -/
def keepsKey (step column : Nat) (k : Text) : Bool :=
  if isSimpleKey k.toList then keepsText ⟨0, false⟩ 0 k.toList
  else keepsText ⟨column + step, true⟩ (column + 2) k.toList

mutual

/-- Whether every text and every key of a tree at a place is read back as it is. -/
def keepsTexts (step column : Nat) (place : Place) : Tree → Bool
  | .string s => keepsText ⟨column + step, true⟩ (place.scalarStart column).2 s.toList
  | .list ts => keepsTextsAll step (place.listStart step column).2 ts
  | .level es => keepsTextsEntries step (place.levelStart step column).2 es
  | _ => true

def keepsTextsAll (step column : Nat) : List Tree → Bool
  | [] => true
  | t :: ts => keepsTexts step column .mark t && keepsTextsAll step column ts

def keepsTextsEntries (step column : Nat) : List (Text × Tree) → Bool
  | [] => true
  | (k, t) :: es =>
    keepsKey step column k && keepsTexts step column (keyChars step column k).2 t &&
      keepsTextsEntries step column es

end

section

variable {f : Folding} {column : Nat} {cs : List CodePoint}

theorem reread_eq (h : keepsText f column cs = true) : reread f column cs = cs := by
  unfold keepsText at h
  unfold reread
  generalize Style.ofText cs = style at h ⊢
  cases style with
  | plain => rfl
  | single => exact rereadSingle_eq (by simpa using h) false
  | double => exact rereadDouble_eq (by simpa using h)

/-- A text that is not kept does not even come first in what is read. -/
theorem not_prefix_reread (h : keepsText f column cs = false) : ¬ cs <+: reread f column cs := by
  unfold keepsText at h
  unfold reread
  generalize Style.ofText cs = style at h ⊢
  cases style with
  | plain => cases h
  | single =>
    have hmem : ↑ '\x85' ∈ cs := by simpa using h
    exact fun hfirst => notMem_rereadSingle false cs (hfirst.subset hmem)
  | double => exact not_prefix_rereadDouble (by simpa using h)

theorem keepsText_of_prefix (h : cs <+: reread f column cs) : keepsText f column cs = true :=
  Bool.of_not_eq_false fun hlost => not_prefix_reread hlost h

theorem keepsText_of_cutString {s : Text}
    (h : Tree.cutString (Text.ofList (reread f column s.toList)) = s) :
    keepsText f column s.toList = true := by
  refine keepsText_of_prefix ?_
  have hchars := congrArg Text.toList h
  rw [Tree.cutString, Text.toList_ofList, Text.toList_ofList] at hchars
  generalize reread f column s.toList = text at hchars ⊢
  rw [← hchars]
  exact List.take_prefix _ _

/-- What is read back of a text, plain or not, is a text. -/
theorem scalarTag_reread (f : Folding) (column : Nat) (cs : List CodePoint) :
    Growth.scalarTag none (Style.ofText cs = .plain) (reread f column cs) = .str := by
  unfold reread
  rcases Style.ofText_cases cs with ⟨hstyle, hform, -⟩ | ⟨hstyle, -⟩ | hstyle
  · rw [hstyle]
    exact hform
  · rw [hstyle]
    rfl
  · rw [hstyle]
    rfl

theorem scalarValue_reread (f : Folding) (column : Nat) (cs : List CodePoint) :
    scalarValue (Growth.scalarTag none (Style.ofText cs = .plain) (reread f column cs))
      (reread f column cs) =
      .ok (.text (Text.ofList (reread f column cs))) := by
  rw [scalarTag_reread]
  rfl

theorem keyText_eq {step : Nat} {k : Text} (h : keepsKey step column k = true) :
    Text.ofList (keyOutline step column k).text = k := by
  unfold keepsKey at h
  unfold keyOutline
  split
  · next hsimple =>
    rw [if_pos hsimple] at h
    rw [reread_eq h, Text.ofList_toList]
  · next hsimple =>
    rw [if_neg hsimple] at h
    rw [reread_eq h, Text.ofList_toList]

theorem keepsKey_of_text {step : Nat} {k : Text}
    (h : Text.ofList (keyOutline step column k).text = k) :
    keepsKey step column k = true := by
  have hchars : k.toList = (keyOutline step column k).text := by
    rw [← Text.toList_ofList (keyOutline step column k).text, h]
  unfold keyOutline at hchars
  unfold keepsKey
  split
  · next hsimple =>
    rw [if_pos hsimple] at hchars
    exact keepsText_of_prefix ⟨[], (List.append_nil _).trans hchars⟩
  · next hsimple =>
    rw [if_neg hsimple] at hchars
    exact keepsText_of_prefix ⟨[], (List.append_nil _).trans hchars⟩

end

/-! ## Trees that are kept for certain -/

theorem endsTwice_eq_false {f : Folding} (h : f.fold = true → f.indent < width)
    (first afterEscape : Bool) (column : Nat) (cs : List CodePoint) :
    endsTwice f first afterEscape column cs = false := by
  induction cs generalizing first afterEscape column with
  | nil => rfl
  | cons c cs ih =>
    rw [endsTwice]
    dsimp only
    split
    · split
      · next hends =>
        simp only [Bool.and_eq_true] at hends
        have hnarrow := h hends.1.2
        rw [ih, Bool.or_false, Bool.and_eq_false_iff]
        exact Or.inr (decide_eq_false (Nat.not_le.mpr hnarrow))
      · exact ih _ _ _
    · split <;> exact ih _ _ _

theorem keepsText_of_notMem {f : Folding} {cs : List CodePoint}
    (hwidth : f.fold = true → f.indent < width) (h : ↑ '\x85' ∉ cs) (column : Nat) :
    keepsText f column cs = true := by
  unfold keepsText
  split
  · rfl
  · simpa using h
  · rw [endsTwice_eq_false hwidth]
    rfl

theorem keepsKey_of_notMem {step column : Nat} {k : Text} (hwidth : column + step < width)
    (h : ↑ '\x85' ∉ k.toList) : keepsKey step column k = true := by
  unfold keepsKey
  split
  · exact keepsText_of_notMem (fun hfold => absurd hfold Bool.false_ne_true) h 0
  · exact keepsText_of_notMem (fun _ => hwidth) h _

theorem start_le (place : Place) (step column : Nat) :
    (place.listStart step column).2 ≤ column + step ∧
      (place.levelStart step column).2 ≤ column + step := by
  cases place with
  | root => exact ⟨Nat.le_add_right _ _, Nat.le_add_right _ _⟩
  | mark => exact ⟨Nat.le_refl _, Nat.le_refl _⟩
  | key => exact ⟨Nat.le_add_right _ _, Nat.le_refl _⟩

/-- A tree that is no deeper goes no further. -/
theorem narrow_of_le {step column m n : Nat} (hle : m ≤ n) (h : column + (n + 1) * step < width) :
    column + (m + 1) * step < width :=
  Nat.lt_of_le_of_lt
    (Nat.add_le_add_left (Nat.mul_le_mul_right step (Nat.succ_le_succ hle)) column) h

mutual

/-- The texts and keys of a tree. -/
def texts : Tree → List Text
  | .string s => [s]
  | .list ts => textsAll ts
  | .level es => textsEntries es
  | _ => []

def textsAll : List Tree → List Text
  | [] => []
  | t :: ts => texts t ++ textsAll ts

def textsEntries : List (Text × Tree) → List Text
  | [] => []
  | (k, t) :: es => k :: texts t ++ textsEntries es

end

mutual

/-- A tree without next line characters whose lines all start within the width is kept. -/
theorem keepsTexts_of_narrow (step column : Nat) (place : Place) : (t : Tree) →
    (∀ s ∈ texts t, ↑ '\x85' ∉ s.toList) → column + (t.depth + 1) * step < width →
    keepsTexts step column place t = true
  | .number _, _, _ | .boolean _, _, _ => rfl
  | .string s, htexts, hnarrow => by
    have hscalar : (Tree.string s).depth = 0 := rfl
    rw [hscalar, Nat.zero_add, Nat.one_mul] at hnarrow
    exact keepsText_of_notMem (fun _ => hnarrow) (htexts s (List.mem_singleton_self s)) _
  | .list ts, htexts, hnarrow => by
    refine keepsTextsAll_of_narrow step _ ts htexts ?_
    have hstart := (start_le place step column).1
    rw [Tree.depth, Nat.add_one_mul] at hnarrow
    omega
  | .level es, htexts, hnarrow => by
    refine keepsTextsEntries_of_narrow step _ es htexts ?_
    have hstart := (start_le place step column).2
    rw [Tree.depth, Nat.add_one_mul] at hnarrow
    omega

theorem keepsTextsAll_of_narrow (step column : Nat) : (ts : List Tree) →
    (∀ s ∈ textsAll ts, ↑ '\x85' ∉ s.toList) → column + (Tree.depthAll ts + 1) * step < width →
    keepsTextsAll step column ts = true
  | [], _, _ => rfl
  | t :: ts, htexts, hnarrow => by
    obtain ⟨hfirst, hothers⟩ := List.forall_mem_append.mp htexts
    rw [Tree.depthAll] at hnarrow
    rw [keepsTextsAll,
      keepsTexts_of_narrow step column .mark t hfirst (narrow_of_le (Nat.le_max_left _ _) hnarrow),
      keepsTextsAll_of_narrow step column ts hothers (narrow_of_le (Nat.le_max_right _ _) hnarrow)]
    rfl

theorem keepsTextsEntries_of_narrow (step column : Nat) : (es : List (Text × Tree)) →
    (∀ s ∈ textsEntries es, ↑ '\x85' ∉ s.toList) →
    column + (Tree.depthEntries es + 1) * step < width →
    keepsTextsEntries step column es = true
  | [], _, _ => rfl
  | (k, t) :: es, htexts, hnarrow => by
    obtain ⟨hkey, htexts⟩ := List.forall_mem_cons.mp htexts
    obtain ⟨hfirst, hothers⟩ := List.forall_mem_append.mp htexts
    rw [Tree.depthEntries] at hnarrow
    have hstep := narrow_of_le (Nat.zero_le _) hnarrow
    rw [Nat.zero_add, Nat.one_mul] at hstep
    rw [keepsTextsEntries, keepsKey_of_notMem hstep hkey,
      keepsTexts_of_narrow step column _ t hfirst (narrow_of_le (Nat.le_max_left _ _) hnarrow),
      keepsTextsEntries_of_narrow step column es hothers
        (narrow_of_le (Nat.le_max_right _ _) hnarrow)]
    rfl

end

/-! ## Outlines of trees are sound -/

theorem Outline.value_scalar {plain : Bool} {text : List CodePoint} {v : Value}
    (h : scalarValue (Growth.scalarTag none plain text) text = .ok v) :
    (Outline.scalar plain text).value = v := by
  rw [Outline.value, h]
  rfl

theorem Outline.value_ne_null {o : Outline} (h : o.Sound) : o.value ≠ .null := by
  cases o with
  | scalar plain text =>
    obtain ⟨v, hv, hscalar⟩ := h
    rw [Outline.value_scalar hv]
    rintro rfl
    cases hscalar
  | list | level => nofun

theorem isScalar_numberValue (x : Binary64) : (Tree.numberValue true x).isScalar = true := by
  unfold Tree.numberValue
  split <;> rfl

theorem scalarTag_keyOutline (step column : Nat) (k : Text) : Growth.scalarTag none
    (keyOutline step column k).plain (keyOutline step column k).text = .str := by
  unfold keyOutline
  split
  · exact scalarTag_reread _ _ _
  · exact scalarTag_reread _ _ _

mutual

theorem sound_outline (step column : Nat) (place : Place) :
    (t : Tree) → (outline step column place t).Sound
  | .number x => ⟨_, (numberChars_spec x).2.2, isScalar_numberValue x⟩
  | .boolean b => ⟨_, (truthChars_spec b).2, rfl⟩
  | .string _ => ⟨_, scalarValue_reread _ _ _, rfl⟩
  | .list ts => sound_itemOutlines step _ ts
  | .level es => sound_entryOutlines step _ es

theorem sound_itemOutlines (step column : Nat) : (ts : List Tree) →
    Outline.SoundItems (itemOutlines step column ts)
  | [] => trivial
  | t :: ts => ⟨sound_outline step column .mark t, sound_itemOutlines step column ts⟩

theorem sound_entryOutlines (step column : Nat) : (es : List (Text × Tree)) →
    Outline.SoundEntries (entryOutlines step column es)
  | [] => trivial
  | (k, t) :: es =>
    ⟨scalarTag_keyOutline step column k, sound_outline step column _ t,
      sound_entryOutlines step column es⟩

end

mutual

theorem depth_outline (step column : Nat) (place : Place) : (t : Tree) →
    (outline step column place t).depth = t.depth
  | .number _ | .boolean _ | .string _ => rfl
  | .list ts => congrArg (· + 1) (depth_itemOutlines step _ ts)
  | .level es => congrArg (· + 1) (depth_entryOutlines step _ es)

theorem depth_itemOutlines (step column : Nat) : (ts : List Tree) →
    Outline.depthAll (itemOutlines step column ts) = Tree.depthAll ts
  | [] => rfl
  | t :: ts => congrArg₂ max (depth_outline step column .mark t) (depth_itemOutlines step column ts)

theorem depth_entryOutlines (step column : Nat) : (es : List (Text × Tree)) →
    Outline.depthEntries (entryOutlines step column es) = Tree.depthEntries es
  | [] => rfl
  | (_, t) :: es => congrArg₂ max (depth_outline step column _ t)
      (depth_entryOutlines step column es)

end

/-! ## Keys that fall together -/

/-- An entry of a mapping that is converted to an entry of a level. -/
def Converts (follow : Container → Nat → Except Error Tree) (e : Value × Value)
    (e' : Text × Tree) : Prop :=
  Tree.levelKey e.1 = .ok e'.1 ∧ Tree.convert follow e.2 = .ok e'.2

theorem eq_of_levelKey_text {k l : Text} (h : Tree.levelKey (.text k) = .ok l) : k = l := by
  unfold Tree.levelKey at h
  simp only [Value.asText] at h
  split at h
  · cases h
  · cases h
    rfl

/-- Entries that are converted one by one are all there, or there are fewer. -/
theorem convertEntries_cases {follow : Container → Nat → Except Error Tree}
    {vs : List (Value × Value)} {level r : List (Text × Tree)}
    (h : Tree.convertEntries follow level vs = .ok r) :
    r.length < level.length + vs.length ∨ ∃ es, r = level ++ es ∧
      List.Forall₂ (Converts follow) vs es := by
  induction vs generalizing level with
  | nil =>
    cases h
    exact Or.inr ⟨[], (List.append_nil _).symm, .nil⟩
  | cons e vs ih =>
    obtain ⟨k, v⟩ := e
    by_cases hnull : v = .null
    · -- An empty value adds no entry, so that one is missing from here on.
      subst hnull
      obtain ⟨_, -, h⟩ := ok_of_bind h
      left
      rw [List.length_cons]
      rcases ih h with hless | ⟨es, rfl, hall⟩
      · omega
      · rw [List.length_append, ← hall.length_eq]
        omega
    · rw [Tree.convertEntries] at h
      · obtain ⟨name, hname, h⟩ := ok_of_bind h
        obtain ⟨t, ht, h⟩ := ok_of_bind h
        rw [List.length_cons]
        rcases Entries.put_cases name t level with hput | hput
        · rcases ih h with hless | ⟨es, rfl, hall⟩
          · left
            rw [hput, List.length_append, List.length_singleton] at hless
            omega
          · right
            refine ⟨(name, t) :: es, ?_, .cons ⟨hname, ht⟩ hall⟩
            rw [hput, List.append_assoc]
            rfl
        · -- The key is there already, and its entry takes the new value.
          left
          rcases ih h with hless | ⟨es, rfl, hall⟩
          · omega
          · rw [List.length_append, ← hall.length_eq]
            omega
      · exact hnull

namespace Outline

/-- The entries as they stand, with keys that may fall together. -/
def entryParts : List (KeyOutline × Outline) → List (Value × Value)
  | [] => []
  | (k, o) :: es => (.text (Text.ofList k.text), o.value) :: entryParts es

theorem length_entryParts (es : List (KeyOutline × Outline)) :
    (entryParts es).length = es.length := by
  induction es with
  | nil => rfl
  | cons e es ih => exact congrArg (· + 1) ih

theorem same_text (a b : Text) : (Value.text a).same (.text b) = decide (a = b) :=
  rfl

theorem putEntry_cases (eq : Value → Value → Bool) (k v : Value) (done : List (Value × Value)) :
    Value.putEntry eq k v done = done ++ [(k, v)] ∨
      (Value.putEntry eq k v done).length = done.length := by
  induction done with
  | nil => exact Or.inl rfl
  | cons e done ih =>
    obtain ⟨l, u⟩ := e
    rw [Value.putEntry]
    split
    · exact Or.inr rfl
    · exact ih.imp (congrArg ((l, u) :: ·)) (congrArg (· + 1))

/-- The entries are put one behind the other, or there are fewer. -/
theorem entryValues_cases (es : List (KeyOutline × Outline)) (done : List (Value × Value)) :
    (entryValues es done).length < done.length + es.length ∨
      entryValues es done = done ++ entryParts es := by
  induction es generalizing done with
  | nil => exact Or.inr (List.append_nil _).symm
  | cons e es ih =>
    obtain ⟨k, o⟩ := e
    rw [entryValues, List.length_cons]
    have hmore := ih (Value.putEntry Value.same (.text (Text.ofList k.text)) o.value done)
    rcases putEntry_cases Value.same (.text (Text.ofList k.text)) o.value done with hput | hput
    · rw [hput, List.append_assoc, List.length_append, List.length_singleton] at hmore
      rw [hput]
      exact hmore.imp_left fun hless => by omega
    · left
      rcases hmore with hless | heq
      · omega
      · rw [heq, List.length_append, hput, length_entryParts]
        omega

theorem putEntry_of_forall {k : Value} {done : List (Value × Value)}
    (h : ∀ e ∈ done, Value.same e.1 k = false) (v : Value) :
    Value.putEntry Value.same k v done = done ++ [(k, v)] := by
  induction done with
  | nil => rfl
  | cons e done ih =>
    obtain ⟨hfirst, hothers⟩ := List.forall_mem_cons.mp h
    rw [Value.putEntry, hfirst, if_neg Bool.false_ne_true, ih hothers]
    rfl

theorem entryValues_of_pairwise {es : List (KeyOutline × Outline)} {done : List (Value × Value)}
    (h : (done ++ entryParts es).Pairwise fun a b => Value.same a.1 b.1 = false) :
    entryValues es done = done ++ entryParts es := by
  induction es generalizing done with
  | nil => exact (List.append_nil _).symm
  | cons e es ih =>
    obtain ⟨k, o⟩ := e
    have hnew : ∀ e ∈ done, Value.same e.1 (.text (Text.ofList k.text)) = false := fun e he =>
      (List.pairwise_append.mp h).2.2 e he _ List.mem_cons_self
    have hput := putEntry_of_forall hnew o.value
    rw [entryParts, List.append_cons] at h ⊢
    rw [entryValues, hput]
    exact ih h

end Outline

/-- If as many entries come out as go in, no keys fell together. -/
theorem converts_of_length {follow : Container → Nat → Except Error Tree}
    {es : List (KeyOutline × Outline)} {r : List (Text × Tree)}
    (h : Tree.convertEntries follow [] (Outline.entryValues es []) = .ok r)
    (hlength : r.length = es.length) :
    List.Forall₂ (Converts follow) (Outline.entryParts es) r := by
  have hparts := Outline.entryValues_cases es []
  rcases convertEntries_cases h with hless | ⟨r, rfl, hall⟩
  · exfalso
    rcases hparts with hfewer | heq
    · rw [List.length_nil] at hless hfewer
      omega
    · rw [heq, List.length_nil, List.nil_append, Outline.length_entryParts] at hless
      omega
  · rcases hparts with hfewer | heq
    · have hsame := hall.length_eq
      rw [List.length_nil] at hfewer
      omega
    · rw [heq] at hall
      exact hall

/-! ## Trees that are kept -/

theorem length_plainEntries (es : List (Text × Tree)) :
    (Tree.plainEntries es).length = es.length := by
  have hkeys := congrArg List.length (Tree.keys_plainEntries es)
  rwa [Entries.keys, Entries.keys, List.length_map, List.length_map] at hkeys

theorem length_entryOutlines (step column : Nat) (es : List (Text × Tree)) :
    (entryOutlines step column es).length = es.length := by
  induction es with
  | nil => rfl
  | cons e es ih => exact congrArg (· + 1) ih

theorem keys_entryValues (es : List (Text × Tree)) :
    (Tree.entryValues true es).map (·.1) = (Entries.keys es).map .text := by
  induction es with
  | nil => rfl
  | cons e es ih => exact congrArg (.text e.1 :: ·) ih

theorem pairwise_entryValues {es : List (Text × Tree)} (h : (Entries.keys es).Nodup) :
    (Tree.entryValues true es).Pairwise fun a b => Value.same a.1 b.1 = false := by
  have hkeys : ((Tree.entryValues true es).map (·.1)).Pairwise fun a b =>
      Value.same a b = false := by
    rw [keys_entryValues, List.pairwise_map]
    refine h.imp fun hne => ?_
    rw [Outline.same_text]
    exact decide_eq_false hne
  exact List.pairwise_map.mp hkeys

mutual

/-- If all texts and keys of a tree are kept, the value of its outline is that of the tree. -/
theorem value_outline (step column : Nat) (place : Place) : (t : Tree) → t.Fits →
    keepsTexts step column place t = true → (outline step column place t).value = t.toValue true
  | .number x, _, _ => Outline.value_scalar (numberChars_spec x).2.2
  | .boolean b, _, _ => Outline.value_scalar (truthChars_spec b).2
  | .string s, _, hkept => by
    rw [outline, Outline.value_scalar (scalarValue_reread _ _ _), reread_eq hkept,
      Text.ofList_toList]
    rfl
  | .list ts, hfits, hkept => by
    rw [outline, Outline.value, itemValues_outlines step _ ts hfits hkept]
    rfl
  | .level es, hfits, hkept => by
    have hparts := entryParts_outlines step _ es hfits.2 hkept
    have hapart := pairwise_entryValues hfits.1
    rw [← hparts] at hapart
    rw [outline, Outline.value, Outline.entryValues_of_pairwise hapart, List.nil_append, hparts]
    rfl

theorem itemValues_outlines (step column : Nat) : (ts : List Tree) → Tree.AllFit ts →
    keepsTextsAll step column ts = true →
    Outline.itemValues (itemOutlines step column ts) = Tree.itemValues true ts
  | [], _, _ => rfl
  | t :: ts, hfits, hkept => by
    rw [keepsTextsAll, Bool.and_eq_true] at hkept
    rw [itemOutlines, Outline.itemValues, value_outline step column .mark t hfits.1 hkept.1,
      itemValues_outlines step column ts hfits.2 hkept.2]
    rfl

theorem entryParts_outlines (step column : Nat) : (es : List (Text × Tree)) → Tree.EntriesFit es →
    keepsTextsEntries step column es = true →
    Outline.entryParts (entryOutlines step column es) = Tree.entryValues true es
  | [], _, _ => rfl
  | (k, t) :: es, hfits, hkept => by
    simp only [keepsTextsEntries, Bool.and_eq_true] at hkept
    rw [entryOutlines, Outline.entryParts, keyText_eq hkept.1.1,
      value_outline step column _ t hfits.1.2 hkept.1.2,
      entryParts_outlines step column es hfits.2 hkept.2]
    rfl

end

section

variable (follow : Container → Nat → Except Error Tree)

mutual

/-- If the value of the outline of a tree makes the tree again, all its texts and keys are kept. -/
theorem keepsTexts_of_convert (step column : Nat) (place : Place) : (t : Tree) →
    Tree.convert follow (outline step column place t).value = .ok t.plain →
    keepsTexts step column place t = true
  | .number _, _ | .boolean _, _ => rfl
  | .string s, h => by
    rw [outline, Outline.value_scalar (scalarValue_reread _ _ _), Tree.convert, Tree.plain] at h
    exact keepsText_of_cutString (Tree.string.inj (Except.ok.inj h))
  | .list ts, h => by
    obtain ⟨us, hus, h⟩ := ok_of_bind h
    cases h
    exact keepsTextsAll_of_convert step _ ts hus
  | .level es, h => by
    obtain ⟨fs, hfs, h⟩ := ok_of_bind h
    cases h
    refine keepsTextsEntries_of_converts step _ es (converts_of_length hfs ?_)
    rw [length_plainEntries, length_entryOutlines]

theorem keepsTextsAll_of_convert (step column : Nat) : (ts : List Tree) →
    Tree.convertItems follow (Outline.itemValues (itemOutlines step column ts)) =
      .ok (Tree.plainAll ts) →
    keepsTextsAll step column ts = true
  | [], _ => rfl
  | t :: ts, h => by
    rw [itemOutlines, Outline.itemValues, Tree.convertItems] at h
    · obtain ⟨u, hu, h⟩ := ok_of_bind h
      obtain ⟨us, hus, h⟩ := ok_of_bind h
      cases h
      rw [keepsTextsAll, keepsTexts_of_convert step column .mark t hu,
        keepsTextsAll_of_convert step column ts hus]
      rfl
    · exact Outline.value_ne_null (sound_outline step column .mark t)

theorem keepsTextsEntries_of_converts (step column : Nat) : (es : List (Text × Tree)) →
    List.Forall₂ (Converts follow) (Outline.entryParts (entryOutlines step column es))
      (Tree.plainEntries es) →
    keepsTextsEntries step column es = true
  | [], _ => rfl
  | (k, t) :: es, h => by
    rw [entryOutlines, Outline.entryParts] at h
    obtain ⟨⟨hkey, hvalue⟩, hothers⟩ := List.forall₂_cons.mp h
    rw [keepsTextsEntries, keepsKey_of_text (eq_of_levelKey_text hkey),
      keepsTexts_of_convert step column _ t hvalue,
      keepsTextsEntries_of_converts step column es hothers]
    rfl

end

/-- The value of the outline of a tree makes the tree again exactly if all its texts and keys are
kept. -/
theorem convert_outline_iff (step column : Nat) (place : Place) {t : Tree} (h : t.Fits) :
    Tree.convert follow (outline step column place t).value = .ok t.plain ↔
      keepsTexts step column place t = true := by
  constructor
  · exact keepsTexts_of_convert follow step column place t
  · intro hkept
    rw [value_outline step column place t h hkept]
    exact Tree.convert_toValue follow true t h

end

/-! ## Whole documents -/

section

variable {t : Tree}

/-- A document with a key that takes too many characters cannot be read. -/
theorem read_write_of_long (indent : Int) (hlong : shortKeys t = false) :
    read (write indent t).toList = .error .malformed := by
  have htokens := tokens_write indent t
  rw [hlong, if_neg Bool.false_ne_true] at htokens
  rw [read, htokens]
  rfl

/-- Any other document is read, and makes the tree that the value of the outline makes. -/
theorem read_write (indent : Int) (hshort : shortKeys t = true) (hdepth : t.depth ≤ maxNesting) :
    ∃ d, read (write indent t).toList = .ok d ∧ d.root ≠ .null ∧
      d.toTree = (Document.ofValue (outline (indentStep indent) 0 .root t).value).toTree := by
  have htokens := tokens_write indent t
  rw [hshort, if_pos rfl, List.append_assoc] at htokens
  have hends : Growth.dropEnds ((if isWrittenPlain t then [.documentEnd] else []) ++ [.finish]) =
      [.finish] := by
    split <;> rfl
  rw [← depth_outline (indentStep indent) 0 .root] at hdepth
  obtain ⟨d, hread, hroot, -, htree⟩ := read_outline htokens hends hdepth (sound_outline _ _ _ t)
  exact ⟨d, hread, hroot, htree⟩

end

end Grove.Yaml
