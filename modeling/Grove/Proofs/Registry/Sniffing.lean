import Grove.Proofs.Backend.Json
import Grove.Proofs.Backend.Yaml
import Grove.Proofs.Registry.Selection

/-!
# Sniffing at written text

JSON is told by the bracket that opens a container, behind blanks of any kind; YAML takes everything
else. What JSON writes of a container opens with its bracket. What YAML writes of one does not, but
for a first key that starts with blanks of Unicode and a bracket and needs no quotes: this text
looks like JSON, which knows only four blanks and refuses it.
-/
namespace Grove

namespace Json

theorem looksLike_cons {c : CodePoint} (hc : Text.isBlank c = false) (cs : List CodePoint) :
    looksLike (c :: cs) = (c = '\x7b' || c = '[') := by
  simp [looksLike, Text.trimStart, hc]

theorem looksLike_blank {c : CodePoint} (hc : Text.isBlank c = true) (cs : List CodePoint) :
    looksLike (c :: cs) = looksLike cs := by
  simp [looksLike, Text.trimStart, hc]

/-- Behind a text that is blank, or tells by itself, nothing but a bracket makes a difference. -/
theorem looksLike_append {c : CodePoint} (hc : Text.isBlank c = false)
    (hopen : c ≠ '\x7b' ∧ c ≠ '[') (cs rest : List CodePoint) :
    looksLike (cs ++ c :: rest) = looksLike cs := by
  induction cs with
  | nil =>
    rw [List.nil_append, looksLike_cons hc]
    simp [hopen, looksLike, Text.trimStart]
  | cons first cs ih =>
    cases hblank : Text.isBlank first
    · rw [List.cons_append, looksLike_cons hblank, looksLike_cons hblank]
    · rw [List.cons_append, looksLike_blank hblank, looksLike_blank hblank, ih]

/-- No token of JSON starts with a blank. -/
theorem readToken_of_isBlank {c : CodePoint} (hc : Text.isBlank c = true) (p : Place)
    (cs : List CodePoint) :
    readToken p c cs = (.bad false (.malformed .value p), 0) := by
  have hne : ∀ mark : CodePoint, Text.isBlank mark = false → c ≠ mark := by
    rintro mark hmark rfl
    rw [hmark] at hc
    cases hc
  have hmarks : ([CodePoint.scalar 'n', 't', 'f', 'N', 'I', '-'].all fun mark =>
      !Text.isBlank mark) = true := by decide
  have hwords := find?_words_eq_none (c := c) (fun mark hmark => (hne mark (by
    simpa using List.all_eq_true.mp hmarks mark hmark)).symm) cs
  have hdigit : Text.isDigit c = false := by
    by_contra h
    simp only [Text.isDigit, Bool.not_eq_false, Bool.and_eq_true, decide_eq_true_eq] at h
    simp only [Text.isBlank, Bool.or_eq_true, Bool.and_eq_true, decide_eq_true_eq] at hc
    have hzero : '0'.toNat = 48 := rfl
    have hnine : '9'.toNat = 57 := rfl
    omega
  have hnumber : readNumber (c :: cs) = none := by
    have hminus := hne '-' (by decide)
    have hzero := hne '0' (by decide)
    simp [readNumber, hminus, hzero, hdigit]
  have h1 := hne '\x7b' (by decide)
  have h2 := hne '\x7d' (by decide)
  have h3 := hne '[' (by decide)
  have h4 := hne ']' (by decide)
  have h5 := hne ':' (by decide)
  have h6 := hne ',' (by decide)
  have h7 := hne '"' (by decide)
  simp [readToken, h1, h2, h3, h4, h5, h6, h7, hwords, hnumber]

theorem read_of_isBlank {c : CodePoint} (hc : Text.isBlank c = true) (hspace : isSpace c = false)
    (cs : List CodePoint) :
    read (c :: cs) = .error (.malformed .value .start) := by
  have hlex : lex (c :: cs) =
      ⟨.bad false (.malformed .value .start), .start⟩ :: lexFrom 0 (Place.start.after c) cs := by
    simp [lex, lexFrom, hspace, readToken_of_isBlank hc]
  unfold read
  split
  · next hmark =>
    cases hmark
    cases hc
  · rw [hlex]
    rfl

/-- A container is written with its bracket in front. -/
theorem looksLike_write (indent : Int) {t : Tree} (ht : t.kind.isScalar = false) :
    looksLike (write indent t).toList = true := by
  rw [write, Text.toList_ofList]
  cases t with
  | number | string | boolean => cases ht
  | list items => cases items <;> rfl
  | level entries => cases entries <;> rfl

end Json

namespace Yaml

/-- Whether the first key of a level is written without quotes although it looks like JSON. -/
def startsLikeJson : Tree → Bool
  | .level ((k, _) :: _) => isSimpleKey k.toList && Style.ofText k.toList = .plain &&
      Json.looksLike k.toList
  | _ => false

/-- A level is written with its first key in front. -/
theorem exists_write_level (indent : Int) (k : Text) (t : Tree) (es : List (Text × Tree)) :
    ∃ rest, (write indent (.level ((k, t) :: es))).toList =
      (keyChars (indentStep indent) 0 k).1 ++ rest := by
  rw [toList_write]
  simp only [treeChars, Place.levelStart, List.nil_append, List.append_assoc]
  exact ⟨_, rfl⟩

theorem looksLike_keyChars (step column : Nat) (k : Text) (rest : List CodePoint) :
    Json.looksLike ((keyChars step column k).1 ++ rest) =
      (isSimpleKey k.toList && Style.ofText k.toList = .plain && Json.looksLike k.toList) := by
  cases hsimple : isSimpleKey k.toList
  · rw [keyChars_marked hsimple]
    simp only [List.cons_append, Bool.false_and]
    rw [Json.looksLike_cons (by decide)]
    rfl
  · rw [keyChars_simple hsimple, simpleKeyChars]
    cases hstyle : Style.ofText k.toList with
    | plain =>
      rw [styledText, foldPlain_unfolded, List.replicate_zero, List.nil_append, List.append_assoc,
        List.singleton_append, Json.looksLike_append (by decide) (by decide)]
      simp
    | single =>
      simp only [styledText, List.cons_append]
      rw [Json.looksLike_cons (by decide)]
      rfl
    | double =>
      simp only [styledText, List.cons_append]
      rw [Json.looksLike_cons (by decide)]
      rfl

/-- What is written of a container that is not empty looks like JSON exactly if its first key
does. -/
theorem looksLike_write (indent : Int) {t : Tree} (ht : t.kind.isScalar = false)
    (hlist : t ≠ .list []) (hlevel : t ≠ .level []) :
    Json.looksLike (write indent t).toList = startsLikeJson t := by
  cases t with
  | number | string | boolean => cases ht
  | list items =>
    cases items with
    | nil => exact absurd rfl hlist
    | cons item items =>
      rw [toList_write]
      simp only [treeChars, Place.listStart, List.nil_append, List.cons_append]
      rw [Json.looksLike_cons (by decide)]
      rfl
  | level entries =>
    cases entries with
    | nil => exact absurd rfl hlevel
    | cons e es =>
      obtain ⟨rest, hrest⟩ := exists_write_level indent e.1 e.2 es
      rw [hrest, looksLike_keyChars]
      rfl

/-- A key that stands without quotes and looks like JSON starts with a blank that JSON does not
know. -/
theorem exists_blank_of_plain {cs : List CodePoint} (hstyle : Style.ofText cs = .plain)
    (hlooks : Json.looksLike cs = true) :
    ∃ c rest, cs = c :: rest ∧ Text.isBlank c = true ∧ Json.isSpace c = false := by
  have hplain : PlainText cs := by
    rcases Style.ofText_cases cs with ⟨-, -, h⟩ | ⟨h, -⟩ | h
    · exact h
    · rw [hstyle] at h
      cases h
    · rw [hstyle] at h
      cases h
  cases cs with
  | nil => cases hlooks
  | cons c rest =>
    have hstart := hplain.start c rest rfl
    refine ⟨c, rest, rfl, ?_, ?_⟩
    · by_contra hblank
      rw [Bool.not_eq_true] at hblank
      rw [Json.looksLike_cons hblank] at hlooks
      simp only [Bool.or_eq_true, decide_eq_true_eq] at hlooks
      rcases hlooks with rfl | rfl
      · exact absurd (hstart.indicator (by decide)) (by decide)
      · exact absurd (hstart.indicator (by decide)) (by decide)
    · have hword := hstart.word
      simp only [isBlank, isBreak, Bool.or_eq_false_iff, decide_eq_false_iff_not] at hword
      simp [Json.isSpace, hword]

/-- JSON refuses what YAML writes of a level that starts like JSON. -/
theorem json_read_write (indent : Int) {t : Tree} (h : startsLikeJson t = true) :
    Json.read (write indent t).toList = .error (.malformed .value .start) := by
  cases t with
  | number | string | boolean | list => cases h
  | level entries =>
    cases entries with
    | nil => cases h
    | cons e es =>
      simp only [startsLikeJson, Bool.and_eq_true, decide_eq_true_eq] at h
      obtain ⟨⟨hsimple, hstyle⟩, hlooks⟩ := h
      obtain ⟨c, cs, hkey, hblank, hspace⟩ := exists_blank_of_plain hstyle hlooks
      obtain ⟨rest, hrest⟩ := exists_write_level indent e.1 e.2 es
      have htext : (write indent (.level (e :: es))).toList = c :: (cs ++ ↑ ':' :: rest) := by
        rw [hrest, keyChars_simple hsimple, simpleKeyChars, hstyle, styledText,
          foldPlain_unfolded, hkey]
        simp
      rw [htext]
      exact Json.read_of_isBlank hblank hspace _

end Yaml

namespace Registry

variable {own : Option ConfigId} {strict : Bool} {config : StorageConfig} {t : Tree}

/-- The tree that is loaded, whichever way loading fails otherwise. -/
def loaded? (outcome : Except Error (Option Tree)) : Option Tree :=
  outcome.toOption.join

theorem loaded?_settle (r : Registry) (x : Except Error Tree) :
    loaded? (r.settle x) = x.toOption := by
  cases x with
  | ok t => rfl
  | error e =>
    unfold settle
    dsimp only
    split <;> rfl

/-- What is loaded from a text without a format named is what JSON or YAML parses. -/
theorem parseString_jsonFirst (text : Text) : (jsonFirst own strict).parseString text .unspecified =
    if Json.looksLike text.toList then Backend.json.parse text else Backend.yaml.parse text := by
  cases hlooks : Json.looksLike text.toList
  · simp [parseString, selectForString, jsonFirst, Backend.json, Backend.yaml, hlooks,
      bind, Except.bind]
  · simp [parseString, selectForString, jsonFirst, Backend.json, hlooks, bind, Except.bind]

theorem parseString_json (text : Text) :
    (jsonFirst own strict).parseString text (.named "json") = Backend.json.parse text := by
  rfl

theorem parseString_yaml (text : Text) :
    (jsonFirst own strict).parseString text (.named "yaml") = Backend.yaml.parse text := by
  rfl

/-- The brackets of an empty container are the same in both formats. -/
theorem parse_brackets (indent : Int) (ht : t = .list [] ∨ t = .level []) :
    Backend.json.parse (Yaml.write indent t) = Backend.yaml.parse (Yaml.write indent t) := by
  rcases ht with rfl | rfl
  · have htext : (Yaml.write indent (.list [])).toList = [CodePoint.scalar '[', ']', '\n'] := by
      simp [Yaml.write, Yaml.treeChars, Yaml.Place.scalarStart, Yaml.isWrittenPlain]
    have hload : Backend.json.load (Yaml.write indent (.list [])) = .ok (.ofValue (.list [])) := by
      simp only [Backend.json, htext]
      rfl
    have hfits : (Tree.list []).Fits := by simp [Tree.Fits, Tree.AllFit]
    rw [(Backend.parse_yaml_write_iff indent hfits (by decide)).mpr ⟨rfl, rfl⟩]
    exact (Backend.parse_eq_ok_iff hload).mpr rfl
  · have htext : (Yaml.write indent (.level [])).toList =
        [CodePoint.scalar '\x7b', '\x7d', '\n'] := by
      simp [Yaml.write, Yaml.treeChars, Yaml.Place.scalarStart, Yaml.isWrittenPlain]
    have hload : Backend.json.load (Yaml.write indent (.level [])) = .ok (.ofValue (.dict [])) := by
      simp only [Backend.json, htext]
      rfl
    rw [(Backend.parse_yaml_write_iff indent Tree.fits_emptyLevel (by decide)).mpr ⟨rfl, rfl⟩]
    exact (Backend.parse_eq_ok_iff hload).mpr rfl

/-- What YAML writes of a container is parsed the same with and without the format named, unless its
first key starts like JSON; then nothing is parsed if the format is not named. -/
theorem parseString_write (ht : t.kind.isScalar = false) (indent : Int) :
    (Yaml.startsLikeJson t = false →
      (jsonFirst own strict).parseString (Yaml.write indent t) .unspecified =
      Backend.yaml.parse (Yaml.write indent t)) ∧
    (Yaml.startsLikeJson t = true →
      ((jsonFirst own strict).parseString (Yaml.write indent t) .unspecified).toOption = none) := by
  rw [parseString_jsonFirst]
  by_cases hempty : t = .list [] ∨ t = .level []
  · rw [parse_brackets indent hempty, ite_self]
    refine ⟨fun _ => rfl, fun hstarts => ?_⟩
    rcases hempty with rfl | rfl <;> cases hstarts
  · rw [not_or] at hempty
    rw [Yaml.looksLike_write indent ht hempty.1 hempty.2]
    constructor
    · intro hstarts
      rw [if_neg (by simp [hstarts])]
    · intro hstarts
      have hload : Backend.json.load (Yaml.write indent t) =
          .error (.json (.malformed .value .start)) := by
        simp only [Backend.json, Yaml.json_read_write indent hstarts]
        rfl
      rw [if_pos hstarts]
      cases hparse : Backend.json.parse (Yaml.write indent t) with
      | error e => rfl
      | ok u => exact absurd hparse (Backend.parse_ne_ok hload)

/-- A registry of JSON and YAML, in this order, reads a container that it wrote as JSON the same
with and without the format named. One that it wrote as YAML it reads the same unless its first key
stands without quotes and looks like JSON; then nothing is loaded without the format named, which is
the same only if nothing is loaded with it either. -/
theorem sniffing_outcome (own : Option ConfigId) (strict : Bool) (config : StorageConfig) {t : Tree}
    (ht : t.kind.isScalar = false) :
    ∃ r, ofBackends [.json, .yaml] own strict = .ok r ∧
      (∃ s, r.serialize config (some t) (.named "json") = .ok (some s) ∧
        r.loadString (.text s) .unspecified = r.loadString (.text s) (.named "json")) ∧
      (∃ s, r.serialize config (some t) (.named "yaml") = .ok (some s) ∧
        (Yaml.startsLikeJson t = false →
          r.loadString (.text s) .unspecified = r.loadString (.text s) (.named "yaml")) ∧
        (loaded? (r.loadString (.text s) .unspecified) =
          loaded? (r.loadString (.text s) (.named "yaml")) ↔
          Yaml.startsLikeJson t = false ∨
            loaded? (r.loadString (.text s) (.named "yaml")) = none)) := by
  refine ⟨jsonFirst own strict, ofBackends_json_yaml own strict,
    ⟨Json.write config.indent t, rfl, ?_⟩, Yaml.write config.indent t, rfl, ?_, ?_⟩
  · simp only [loadString, parseString_jsonFirst, parseString_json]
    rw [if_pos (Json.looksLike_write config.indent ht)]
  · intro hstarts
    simp only [loadString, parseString_yaml, (parseString_write ht config.indent).1 hstarts]
  · simp only [loadString, loaded?_settle, parseString_yaml]
    cases hstarts : Yaml.startsLikeJson t
    · simp [(parseString_write ht config.indent).1 hstarts]
    · rw [(parseString_write ht config.indent).2 hstarts]
      simp [eq_comm]

/-- A level whose first key has to be quoted is read the same either way. -/
theorem sniffing_outcome_quoted :
    let t : Tree := .level [("\x7ba", .boolean true)]
    t.kind.isScalar = false ∧ ∃ r, ofBackends [.json, .yaml] none false = .ok r ∧
      ∃ s, r.serialize (.standard .empty) (some t) (.named "yaml") = .ok (some s) ∧
        r.loadString (.text s) .unspecified = r.loadString (.text s) (.named "yaml") := by
  intro t
  have container : t.kind.isScalar = false := rfl
  obtain ⟨r, hr, -, s, hs, hsame, -⟩ := sniffing_outcome none false (.standard .empty) container
  exact ⟨container, r, hr, s, hs, hsame (by decide)⟩

/-- A first key that starts with a no-break space and a brace is lost unless the format is named. -/
theorem sniffing_outcome_noBreakSpace :
    let t : Tree := .level [("\u00A0\x7ba", .boolean true)]
    let r := jsonFirst none false
    t.kind.isScalar = false ∧ ∃ s,
      r.serialize (.standard .empty) (some t) (.named "yaml") = .ok (some s) ∧
      loaded? (r.loadString (.text s) (.named "yaml")) = some t ∧
      loaded? (r.loadString (.text s) .unspecified) = none := by
  intro t r
  have container : t.kind.isScalar = false := rfl
  have hfits : t.Fits := ⟨by decide, ⟨by decide, trivial⟩, trivial⟩
  have hparse : Backend.yaml.parse (Yaml.write 2 t) = .ok t :=
    (Backend.parse_yaml_write_iff 2 hfits (by decide)).mpr ⟨by decide, by decide⟩
  refine ⟨container, Yaml.write 2 t, rfl, ?_, ?_⟩
  · simp only [r, loadString, loaded?_settle, parseString_yaml, hparse]
    rfl
  · simp only [r, loadString, loaded?_settle]
    exact (parseString_write container 2).2 (by decide)

end Registry

end Grove
