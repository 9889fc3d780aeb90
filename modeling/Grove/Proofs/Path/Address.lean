import Grove.Path.Address
import Grove.Proofs.Result
import Grove.Proofs.Text.Split

/-!
# What addresses stand for

Dotted text and explicit paths without arguments have a written form and a list of segments. They
stand for those segments exactly if the written form is short enough; the positions in a path that
is short enough are never too long to be written.
-/
namespace Grove

namespace Segment

theorem dotted_cons_cons (s next : Segment) (rest : List Segment) :
    dotted (s :: next :: rest) = s.text ++ "." ++ dotted (next :: rest) := by
  simp [dotted]

/-- No segment is longer than the dotted form that it is part of. -/
theorem length_text_le_dotted {segments : List Segment} {s : Segment} (h : s ∈ segments) :
    s.text.length ≤ (dotted segments).length := by
  induction segments with
  | nil => cases h
  | cons first rest ih =>
    cases rest with
    | nil =>
      rw [List.mem_singleton.mp h]
      exact Nat.le_refl _
    | cons second rest =>
      rw [dotted_cons_cons, Text.length_append, Text.length_append]
      rcases List.mem_cons.mp h with rfl | h
      · omega
      · have := ih h
        omega

/-- A path that is short enough has no position of too many digits. -/
theorem fits_of_length_dotted_le {segments : List Segment}
    (short : (dotted segments).length ≤ maxPathLength) (n : Nat) (h : Segment.index n ∈ segments) :
    Text.decimalLength n ≤ maxDigits := by
  have hlength := length_text_le_dotted h
  rw [text, Text.length_ofList] at hlength
  exact Nat.le_trans hlength (Nat.le_trans short (by decide))

def ofParts (text : Text) : List Segment :=
  if text = "" then [] else (Text.splitOn (CodePoint.scalar '.') text.toList).map ofPart

theorem ofParts_ne_nil {text : Text} (h : text ≠ "") : ofParts text ≠ [] := by
  rw [ofParts, if_neg h, ne_eq, List.map_eq_nil_iff]
  exact Text.splitOn_ne_nil _ _

theorem length_join (p q : Text) : (p ++ "." ++ q).length = p.length + 1 + q.length := by
  rw [Text.length_append, Text.length_append]
  rfl

/-- Two texts with a point between them spell what they spell, one after the other. -/
theorem ofParts_join {p q : Text} (hp : p ≠ "") (hq : q ≠ "") :
    ofParts (p ++ "." ++ q) = ofParts p ++ ofParts q := by
  have hjoin : p ++ "." ++ q ≠ "" := by
    intro h
    have hlength := length_join p q
    rw [h, Text.length_empty] at hlength
    omega
  have hchars : (p ++ "." ++ q).toList = p.toList ++ ↑ '.' :: q.toList := by simp
  rw [ofParts, ofParts, ofParts, if_neg hjoin, if_neg hp, if_neg hq, hchars,
    Text.splitOn_append, List.map_append]

/-- No key is longer than the text that it is spelled in. -/
theorem length_le_of_mem_ofParts {text name : Text} (h : .key name ∈ ofParts text) :
    name.length ≤ text.length := by
  unfold ofParts at h
  split at h
  · cases h
  · obtain ⟨part, hpart, heq⟩ := List.mem_map.mp h
    unfold ofPart at heq
    split at heq <;> cases heq
    rw [Text.length_ofList, ← Text.length_toList]
    exact Text.length_le_of_mem_splitOn hpart

theorem ofDotted_eq_ok_iff {text : Text} {segments : List Segment} :
    ofDotted text = .ok segments ↔ text.length ≤ maxPathLength ∧ segments = ofParts text := by
  unfold ofDotted ofParts
  by_cases long : maxPathLength < text.length
  · simp [long, Nat.not_le.mpr long]
  · by_cases hempty : text = ""
    · simp [hempty, eq_comm]
    · simp [long, hempty, Nat.le_of_not_lt long, eq_comm]

end Segment

theorem intText_position (n : Nat) : intText n =
    if maxDigits < Text.decimalLength n then .error .tooManyDigits
    else .ok (Segment.index n).text := by
  have hsign : ¬ (n : Int) < 0 := by omega
  rw [intText, Text.signedDecimal, if_neg hsign]
  rfl

namespace Address

/-- Dotted text or an explicit path, as opposed to an address left out. -/
def Keyed : Address → Prop
  | .text _ | .path _ => True
  | .omitted | .unusable _ => False

def written : Address → Text
  | .text template => template
  | .path segments => Segment.dotted segments
  | .omitted | .unusable _ => ""

def spelled : Address → List Segment
  | .text template => Segment.ofParts template
  | .path segments => segments
  | .omitted | .unusable _ => []

theorem length_le_written {address : Address} {name : Text} (h : .key name ∈ address.spelled) :
    name.length ≤ address.written.length := by
  cases address with
  | text template => exact Segment.length_le_of_mem_ofParts h
  | path segments => exact Segment.length_text_le_dotted h
  | omitted | unusable => cases h

theorem Keyed.ne_omitted {address : Address} (h : address.Keyed) : address ≠ .omitted := by
  rintro rfl
  exact h

def segmentText (s : Segment) : Except TextFault Text :=
  match s with
  | .key name => .ok name
  | .index position => intText position

theorem segmentText_eq_ok_iff {s : Segment} {word : Text} : segmentText s = .ok word ↔
    (∀ n, s = .index n → Text.decimalLength n ≤ maxDigits) ∧ word = s.text := by
  cases s with
  | key name => simp [segmentText, Segment.text, eq_comm]
  | index n =>
    rw [segmentText, intText_position]
    by_cases long : maxDigits < Text.decimalLength n
    · simp [long, Nat.not_le.mpr long]
    · simp [long, Nat.le_of_not_lt long, eq_comm]

theorem mapM_segmentText_eq_ok_iff {segments : List Segment} {words : List Text} :
    segments.mapM segmentText = .ok words ↔
      (∀ n, Segment.index n ∈ segments → Text.decimalLength n ≤ maxDigits) ∧
        words = segments.map Segment.text := by
  induction segments generalizing words with
  | nil => simp [pure, Except.pure, eq_comm]
  | cons s rest ih =>
    rw [List.mapM_cons]
    constructor
    · intro h
      obtain ⟨word, hword, h⟩ := ok_of_bind h
      obtain ⟨others, hothers, h⟩ := ok_of_bind h
      cases h
      obtain ⟨hfits, rfl⟩ := segmentText_eq_ok_iff.mp hword
      obtain ⟨hrest, rfl⟩ := ih.mp hothers
      refine ⟨?_, rfl⟩
      intro n hn
      rcases List.mem_cons.mp hn with hn | hn
      · exact hfits n hn.symm
      · exact hrest n hn
    · rintro ⟨hfits, rfl⟩
      have hword : segmentText s = .ok s.text :=
        segmentText_eq_ok_iff.mpr ⟨fun n hn => hfits n (hn ▸ List.mem_cons_self), rfl⟩
      have hothers := ih.mpr ⟨fun n hn => hfits n (List.mem_cons_of_mem _ hn), rfl⟩
      rw [hword, hothers]
      rfl

/-- The text of an explicit path is its written form, unless a position has too many digits. -/
theorem dottedWithin_eq_ok_iff {segments : List Segment} {text : Text} :
    dottedWithin segments = .ok text ↔
      (∀ n, Segment.index n ∈ segments → Text.decimalLength n ≤ maxDigits) ∧
        text = Segment.dotted segments := by
  show (((segments.mapM segmentText).map fun words => Text.intercalate "." words).mapError
      Error.text) = _ ↔ _
  cases hwords : segments.mapM segmentText with
  | error fault =>
    simp only [Except.map, Except.mapError, reduceCtorEq, false_iff, not_and]
    intro hfits
    rw [mapM_segmentText_eq_ok_iff.mpr ⟨hfits, rfl⟩] at hwords
    cases hwords
  | ok words =>
    obtain ⟨hfits, rfl⟩ := mapM_segmentText_eq_ok_iff.mp hwords
    constructor
    · intro h
      cases h
      exact ⟨hfits, rfl⟩
    · rintro ⟨-, rfl⟩
      rfl

/-- Without arguments a keyed address stands for what it spells exactly if its written form is short
enough. -/
theorem segments_eq_ok_iff {address : Address} (keyed : address.Keyed) {segments : List Segment} :
    address.segments [] = .ok segments ↔
      address.written.length ≤ maxPathLength ∧ segments = address.spelled := by
  cases address with
  | omitted | unusable => cases keyed
  | text template => exact Segment.ofDotted_eq_ok_iff
  | path given =>
    simp only [Address.segments, pathSegments, List.isEmpty_nil, if_true, written, spelled]
    constructor
    · intro h
      obtain ⟨text, htext, h⟩ := ok_of_bind h
      obtain ⟨-, rfl⟩ := dottedWithin_eq_ok_iff.mp htext
      split at h
      · cases h
      · next short =>
        cases h
        exact ⟨Nat.le_of_not_lt short, rfl⟩
    · rintro ⟨short, rfl⟩
      rw [dottedWithin_eq_ok_iff.mpr ⟨Segment.fits_of_length_dotted_le short, rfl⟩]
      exact if_neg (Nat.not_lt.mpr short)

end Address

end Grove
