import Grove.Path.Explicit
import Grove.Proofs.Path.Address
import Grove.Proofs.Text.Digit

/-!
# Dotted text and explicit paths

Dotted text is read as an explicit path, and an explicit path is written as dotted text. To read and
to write again takes the zeros in front of positions away and nothing else. To write and to read
again gives the path back unless a key has a point in it or looks like a position; besides, the
empty key alone is written like the path without segments.
-/
namespace Grove

namespace Segment

/-- A part of dotted text without the zeros in front of a position. -/
def trimmedPart (part : List CodePoint) : List CodePoint :=
  if !part.isEmpty && part.all Text.isDigit then Text.withoutZeros part else part

/-- Dotted text without the zeros in front of positions; a position keeps its last digit. -/
def trimmed (text : Text) : Text :=
  Text.ofList (Text.joinWith '.'
    ((Text.splitOn (CodePoint.scalar '.') text.toList).map trimmedPart))

/-- A segment that its text stands for: a position, or a key that has no point and that no position
is written as. -/
def Faithful : Segment → Prop
  | .key name => ↑ '.' ∉ name.toList ∧ ¬ (name ≠ "" ∧ ∀ c ∈ name.toList, Text.isDigit c = true)
  | .index _ => True

/-! ### Parts -/

theorem isPosition_iff {part : List CodePoint} :
    (!part.isEmpty && part.all Text.isDigit) = true ↔ part ≠ [] ∧ ∀ c ∈ part,
      Text.isDigit c = true := by
  simp

theorem text_ofPart (part : List CodePoint) :
    (ofPart part).text = Text.ofList (trimmedPart part) := by
  unfold ofPart trimmedPart
  split
  · next h =>
    obtain ⟨hne, hdigits⟩ := isPosition_iff.mp h
    rw [text, Text.decimal_decimalValue hdigits hne]
  · rfl

theorem length_trimmedPart_le (part : List CodePoint) :
    (trimmedPart part).length ≤ part.length := by
  unfold trimmedPart
  split
  · exact Text.length_withoutZeros_le part
  · exact Nat.le_refl _

theorem faithful_ofPart {part : List CodePoint} (h : ↑ '.' ∉ part) : (ofPart part).Faithful := by
  unfold ofPart
  split
  · trivial
  · next hpart =>
    refine ⟨by rwa [Text.toList_ofList], fun ⟨hne, hdigits⟩ => hpart (isPosition_iff.mpr ⟨?_, ?_⟩)⟩
    · rintro rfl
      exact hne rfl
    · rwa [Text.toList_ofList] at hdigits

theorem Faithful.ofPart_text {s : Segment} (h : s.Faithful) : ofPart s.text.toList = s := by
  unfold ofPart
  cases s with
  | key name =>
    have hkey : ¬ (!name.toList.isEmpty && name.toList.all Text.isDigit) = true := by
      rw [isPosition_iff]
      rintro ⟨hne, hdigits⟩
      refine h.2 ⟨?_, hdigits⟩
      rintro rfl
      exact hne rfl
    rw [text, if_neg hkey, Text.ofList_toList]
  | index n =>
    have hposition : (!(Text.decimal n).isEmpty && (Text.decimal n).all Text.isDigit) = true :=
      isPosition_iff.mpr ⟨Text.decimal_ne_nil n, fun _ => Text.isDigit_of_mem_decimal⟩
    rw [text, Text.toList_ofList, if_pos hposition, Text.decimalValue_decimal]

theorem Faithful.point_notMem {s : Segment} (h : s.Faithful) : ↑ '.' ∉ s.text.toList := by
  cases s with
  | key name => exact h.1
  | index n =>
    rw [text, Text.toList_ofList]
    intro hmem
    exact absurd (Text.isDigit_of_mem_decimal hmem) (by decide)

/-! ### Dotted text -/

theorem toList_dotted (segments : List Segment) :
    (dotted segments).toList = Text.joinWith '.' (segments.map fun s => s.text.toList) := by
  induction segments with
  | nil => rfl
  | cons s rest ih =>
    cases rest with
    | nil => rfl
    | cons next rest =>
      rw [dotted_cons_cons, Text.toList_append, Text.toList_append, ih, List.append_assoc]
      rfl

/-- To read dotted text and to write it again takes the zeros in front of positions away. -/
theorem dotted_ofParts (text : Text) : dotted (ofParts text) = trimmed text := by
  unfold ofParts
  split
  · next h => rw [h]; rfl
  · rw [← Text.toList_inj, toList_dotted, trimmed, Text.toList_ofList, List.map_map]
    congr 1
    apply List.map_congr_left
    intro part _
    rw [Function.comp_apply, text_ofPart, Text.toList_ofList]

theorem length_trimmed_le (text : Text) : (trimmed text).length ≤ text.length := by
  have hparts : (Text.joinWith '.'
      ((Text.splitOn (CodePoint.scalar '.') text.toList).map trimmedPart)).length ≤
      (Text.joinWith '.' (Text.splitOn (CodePoint.scalar '.') text.toList)).length :=
    Text.length_joinWith_map_le length_trimmedPart_le _
  rwa [Text.joinWith_splitOn, ← Text.length_ofList, Text.length_toList] at hparts

theorem faithful_of_mem_ofParts {text : Text} {s : Segment}
    (h : s ∈ ofParts text) : s.Faithful := by
  unfold ofParts at h
  split at h
  · cases h
  · obtain ⟨part, hpart, rfl⟩ := List.mem_map.mp h
    exact faithful_ofPart (Text.notMem_of_mem_splitOn hpart)

theorem eq_emptyKey_of_ofPart {part : List CodePoint} (h : ofPart part = .key "") : part = [] := by
  have htext := text_ofPart part
  unfold ofPart at h
  split at h
  · cases h
  · exact Text.ofList_eq_empty_iff.mp (Segment.key.inj h)

/-- No text is read as the path of the empty key alone: the empty text is the path without
segments. -/
theorem ofParts_ne_emptyKey (text : Text) : ofParts text ≠ [.key ""] := by
  intro h
  unfold ofParts at h
  split at h
  · cases h
  · next hne =>
    obtain ⟨part, hparts, hpart⟩ := List.map_eq_singleton_iff.mp h
    have hjoin := Text.joinWith_splitOn '.' text.toList
    rw [hparts, eq_emptyKey_of_ofPart hpart] at hjoin
    exact hne (Text.toList_eq_nil_iff.mp hjoin.symm)

/-- A path is read back from its dotted form exactly if each segment is read back from its text and
the path is not that of the empty key alone. -/
theorem ofParts_dotted_iff {path : List Segment} :
    ofParts (dotted path) = path ↔ (∀ s ∈ path, s.Faithful) ∧ path ≠ [.key ""] := by
  constructor
  · intro h
    refine ⟨fun s hs => faithful_of_mem_ofParts (h ▸ hs), ?_⟩
    rintro rfl
    exact ofParts_ne_emptyKey _ h
  · rintro ⟨faithful, hne⟩
    cases path with
    | nil => rfl
    | cons s rest =>
      have hsplit : Text.splitOn (CodePoint.scalar '.') (dotted (s :: rest)).toList =
          (s :: rest).map fun s => s.text.toList := by
        rw [toList_dotted]
        refine Text.splitOn_joinWith nofun ?_
        intro part hpart
        obtain ⟨t, ht, rfl⟩ := List.mem_map.mp hpart
        exact (faithful t ht).point_notMem
      have hread : ((s :: rest).map fun s => s.text.toList).map ofPart = s :: rest := by
        rw [List.map_map]
        exact (List.map_congr_left fun t ht => (faithful t ht).ofPart_text).trans (List.map_id _)
      unfold ofParts
      split
      · next hempty =>
        rw [hempty] at hsplit
        rw [← hsplit] at hread
        exact absurd hread.symm hne
      · rw [hsplit, hread]

theorem ofParts_trimmed (text : Text) : ofParts (trimmed text) = ofParts text := by
  have hread : ofParts (dotted (ofParts text)) = ofParts text :=
    ofParts_dotted_iff.mpr ⟨fun s => faithful_of_mem_ofParts, ofParts_ne_emptyKey text⟩
  rwa [dotted_ofParts] at hread

/-! ### Explicit paths -/

def value : Segment → Value
  | .key name => .key (.text name)
  | .index position => .index position

theorem same_value_iff {s t : Segment} : s.value.same t.value = true ↔ s = t := by
  cases s <;> cases t <;> simp [value, Value.same]

theorem sameAll_map_value_iff {p q : List Segment} :
    Value.sameAll (p.map value) (q.map value) = true ↔ p = q := by
  induction p generalizing q with
  | nil => cases q <;> simp [Value.sameAll]
  | cons s rest ih =>
    cases q with
    | nil => simp [Value.sameAll]
    | cons t others => simp [Value.sameAll, same_value_iff, ih]

end Segment

namespace ExplicitPath

open Segment

def ofSegments (path : List Segment) : Value :=
  .path (path.map Segment.value)

theorem same_ofSegments_iff {p q : List Segment} :
    (ofSegments p).same (ofSegments q) = true ↔ p = q := by
  rw [ofSegments, ofSegments, Value.same]
  exact sameAll_map_value_iff

theorem mapM_partText (path : List Segment) :
    (path.map Segment.value).mapM Value.partText = path.mapM Address.segmentText := by
  rw [List.mapM_map]
  congr 1
  funext s
  cases s <;> rfl

/-- An explicit path has its dotted form as text, unless a position has too many digits. -/
theorem asText_ofSegments_eq_ok_iff {path : List Segment} {text : Text} :
    (ofSegments path).asText = .ok text ↔
      (∀ n, Segment.index n ∈ path → Text.decimalLength n ≤ maxDigits) ∧ text = dotted path := by
  rw [ofSegments, Value.asText, mapM_partText]
  constructor
  · intro h
    obtain ⟨words, hwords, h⟩ := ok_of_bind h
    cases h
    obtain ⟨fits, rfl⟩ := Address.mapM_segmentText_eq_ok_iff.mp hwords
    exact ⟨fits, rfl⟩
  · rintro ⟨fits, rfl⟩
    rw [Address.mapM_segmentText_eq_ok_iff.mpr ⟨fits, rfl⟩]
    rfl

theorem ofText_of_ofDotted {text : Text} {path : List Segment}
    (h : Segment.ofDotted text = .ok path) :
    ofText (.text text) [] = .ok (path.map Segment.value) := by
  have hsegments : (Address.text text).segments [] = .ok path := h
  simp only [ofText, hsegments, bind, Except.bind, pure, Except.pure, Except.ok.injEq]
  apply List.map_congr_left
  intro s _
  cases s <;> rfl

theorem ofText_of_ofDotted_error {text : Text} {e : Error} (h : Segment.ofDotted text = .error e) :
    ofText (.text text) [] = .error e := by
  have hsegments : (Address.text text).segments [] = .error e := h
  simp only [ofText, hsegments, bind, Except.bind]

/-- Text that is short enough is read as a path whose dotted form is the text without superfluous
zeros, and that form is read as the same path; longer text is refused. A path whose dotted form is
short enough is read back from it exactly if no key has a point in it or consists of digits and the
path is not that of the empty key alone. -/
theorem dotted_text_inverse :
    (∀ text : Text,
      (text.length ≤ maxPathLength → ∃ path, Segment.ofDotted text = .ok path ∧
        ofText (.text text) [] = .ok (path.map Segment.value) ∧
        (ofSegments path).asText = .ok (Segment.trimmed text) ∧
        Segment.ofDotted (Segment.trimmed text) = .ok path) ∧
      (maxPathLength < text.length → ∃ e, Segment.ofDotted text = .error e ∧
        ofText (.text text) [] = .error e ∧
        e.category = .failure .limitExceeded)) ∧
    ∀ (path : List Segment) (text : Text), (ofSegments path).asText = .ok text →
      text.length ≤ maxPathLength →
      ∃ parts, ofText (.text text) [] = .ok parts ∧
        ((Value.path parts).same (ofSegments path) = true ↔
          (∀ s ∈ path, s.Faithful) ∧ path ≠ [.key ""]) := by
  constructor
  · intro text
    constructor
    · intro short
      have hread : Segment.ofDotted text = .ok (Segment.ofParts text) :=
        ofDotted_eq_ok_iff.mpr ⟨short, rfl⟩
      have htrimmed : (trimmed text).length ≤ maxPathLength :=
        Nat.le_trans (length_trimmed_le text) short
      refine ⟨Segment.ofParts text, hread, ofText_of_ofDotted hread, ?_, ?_⟩
      · rw [asText_ofSegments_eq_ok_iff, dotted_ofParts]
        refine ⟨fits_of_length_dotted_le ?_, rfl⟩
        rwa [dotted_ofParts]
      · exact ofDotted_eq_ok_iff.mpr ⟨htrimmed, (ofParts_trimmed text).symm⟩
    · intro long
      have hrefused : Segment.ofDotted text = .error (.pathTooLong text.length) := if_pos long
      exact ⟨_, hrefused, ofText_of_ofDotted_error hrefused, rfl⟩
  · intro path text htext short
    obtain ⟨-, rfl⟩ := asText_ofSegments_eq_ok_iff.mp htext
    refine ⟨_, ofText_of_ofDotted (ofDotted_eq_ok_iff.mpr ⟨short, rfl⟩), ?_⟩
    exact same_ofSegments_iff.trans ofParts_dotted_iff

/-- Zeros are taken from a position and kept in a key; a text of 257 characters is refused; a key
that looks like a position is not read back. -/
theorem dotted_text_inverse_zeros :
    let long := Text.ofList (List.replicate 257 (CodePoint.scalar 'a'))
    let path := [Segment.key "a", .key "0"]
    (∃ p, Segment.ofDotted "a.007..-00" = .ok p ∧ (ofSegments p).asText = .ok "a.7..-00") ∧
      (∃ e, ofText (.text long) [] = .error e ∧ e.category = .failure .limitExceeded) ∧
      (ofSegments path).asText = .ok "a.0" ∧
      ∃ parts, ofText (.text "a.0") [] = .ok parts ∧
      (Value.path parts).same (ofSegments path) = false := by
  intro long path
  have hlong : maxPathLength < long.length := by
    rw [Text.length_ofList, List.length_replicate]; decide
  have htext : (ofSegments path).asText = .ok "a.0" := rfl
  have htrimmed : Segment.trimmed "a.007..-00" = "a.7..-00" := by decide
  obtain ⟨p, hread, -, hwritten, -⟩ := (dotted_text_inverse.1 "a.007..-00").1 (by decide)
  obtain ⟨e, -, hrefused, hcategory⟩ := (dotted_text_inverse.1 long).2 hlong
  obtain ⟨parts, hparts, hsame⟩ := dotted_text_inverse.2 path "a.0" htext (by decide)
  refine ⟨⟨p, hread, htrimmed ▸ hwritten⟩, ⟨e, hrefused, hcategory⟩, htext, parts, hparts, ?_⟩
  rw [← Bool.not_eq_true, hsame]
  rintro ⟨faithful, -⟩
  have digits : ∀ c ∈ Text.toList "0", Text.isDigit c = true := by
    intro c hc
    cases List.mem_singleton.mp (show c ∈ [CodePoint.scalar '0'] from hc)
    rfl
  exact (faithful (.key "0") (by decide)).2 ⟨by decide, digits⟩

end ExplicitPath
end Grove
