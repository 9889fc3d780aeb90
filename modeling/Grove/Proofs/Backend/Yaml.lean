import Grove.Backend.Yaml
import Grove.Proofs.Backend.Basic
import Grove.Proofs.Workspace.Run
import Grove.Proofs.Yaml.RoundTrip

/-!
# The round trip through YAML

Whatever a node holds in a reached workspace is dumped and parsed again as it is, but for the signs
of zeros, unless a key takes too many characters, or a text or key is written so that another one is
read back. Whether one is depends on the text alone between single quotes, and on the indentation as
well between double quotes.
-/
namespace Grove

namespace Backend

section

variable (indent : Int) {t : Tree}

theorem parse_yaml_write_of_long (hlong : Yaml.shortKeys t = false) (u : Tree) :
    yaml.parse (Yaml.write indent t) ≠ .ok u := by
  have hload : yaml.load (Yaml.write indent t) = .error .yaml := by
    show (Yaml.read (Yaml.write indent t).toList).mapError yamlError = _
    rw [Yaml.read_write_of_long indent hlong]
    rfl
  exact parse_ne_ok hload

/-- With no key that takes too many characters, what is parsed is the tree of the outline. -/
theorem parse_yaml_write (hshort : Yaml.shortKeys t = true)
    (hdepth : t.depth ≤ Yaml.maxNesting) (u : Tree) :
    yaml.parse (Yaml.write indent t) = .ok u ↔
      (Document.ofValue (Yaml.outline (Yaml.indentStep indent) 0 .root t).value).toTree =
        .ok u := by
  obtain ⟨d, hread, hroot, htree⟩ := Yaml.read_write indent hshort hdepth
  have hload : yaml.load (Yaml.write indent t) = .ok d := by
    show (Yaml.read (Yaml.write indent t).toList).mapError yamlError = _
    rw [hread]
    rfl
  rw [parse_eq_ok_iff hload, build_of_ne_null hroot, htree]

/-- A tree within the limits, with containers not too deep, is parsed as it is from its YAML exactly
if no key takes too many characters and all texts and keys are kept. -/
theorem parse_yaml_write_iff (hfits : t.Fits) (hdepth : t.depth ≤ Yaml.maxNesting) :
    yaml.parse (Yaml.write indent t) = .ok t.plain ↔
      Yaml.shortKeys t = true ∧ Yaml.keepsTexts (Yaml.indentStep indent) 0 .root t = true := by
  have hkept := Yaml.convert_outline_iff (Document.sharedTree #[] 1 [])
    (Yaml.indentStep indent) 0 .root hfits
  constructor
  · intro hparse
    have hshort : Yaml.shortKeys t = true :=
      Bool.of_not_eq_false fun hlong => parse_yaml_write_of_long indent hlong _ hparse
    exact ⟨hshort, hkept.mp ((parse_yaml_write indent hshort hdepth _).mp hparse)⟩
  · rintro ⟨hshort, hkeeps⟩
    exact (parse_yaml_write indent hshort hdepth _).mpr (hkept.mpr hkeeps)

/-- Where no key takes too many characters, nothing is lost of a tree without next line characters
whose indentation leaves room on every line. -/
theorem parse_yaml_write_of_narrow (hfits : t.Fits) (hshort : Yaml.shortKeys t = true)
    (htexts : ∀ s ∈ Yaml.texts t, ↑ '\x85' ∉ s.toList)
    (hnarrow : (t.depth + 1) * Yaml.indentStep indent < Yaml.width) :
    yaml.parse (Yaml.write indent t) = .ok t.plain := by
  have hdepth : t.depth + 1 ≤ (t.depth + 1) * Yaml.indentStep indent :=
    Nat.le_mul_of_pos_right _ (Nat.lt_of_succ_lt (Yaml.one_lt_indentStep indent))
  have hnesting : Yaml.width ≤ Yaml.maxNesting := by decide
  have hkept : Yaml.keepsTexts (Yaml.indentStep indent) 0 .root t = true :=
    Yaml.keepsTexts_of_narrow _ 0 .root t htexts (by rwa [Nat.zero_add])
  exact (parse_yaml_write_iff indent hfits (by omega)).mpr ⟨hshort, hkept⟩

end

end Backend

namespace Workspace

/-- What any node holds in a reached workspace, with containers not too deep, is dumped to YAML with
any indentation. It is parsed again, with the same kinds, keys, elements, texts and truth values in
the same order and the same numbers but for the signs of zeros, exactly if no key takes too many
characters and no text or key is read back as another. -/
theorem yaml_round_trip {w : Workspace} (h : w.Reached) (id : NodeId) (config : StorageConfig)
    (hdepth : (w.store.tree id).depth ≤ Yaml.maxNesting) :
    ∃ text, Backend.yaml.dump config (w.store.tree id) = .ok text ∧
      (Backend.yaml.parse text = .ok (w.store.tree id).plain ↔
        Yaml.shortKeys (w.store.tree id) = true ∧
          Yaml.keepsTexts (Yaml.indentStep config.indent) 0 .root (w.store.tree id) = true) :=
  ⟨_, rfl, Backend.parse_yaml_write_iff config.indent (h.sound.fits.tree h.sound.forest id) hdepth⟩

/-- An empty key, a list in a list, a word in quotes, an escape, and a negative zero, which comes
back as zero. -/
theorem yaml_round_trip_nested :
    let d : Document :=
      .ofValue (.dict [(.text "", .list [.list [], .text "null", .float (.zero true)]),
      (.text "a: b", .text "c\td")])
    let w := (fresh .empty).after (.convert d)
    w.Reached ∧ (w.store.tree 0).depth ≤ Yaml.maxNesting ∧
      ∃ text, Backend.yaml.dump (.standard .empty) (w.store.tree 0) = .ok text ∧
      Backend.yaml.parse text =
        .ok (.level [("", .list [.list [], .string "null", .number (.zero false)]),
            ("a: b", .string "c\td")]) := by
  intro d w
  have reached : w.Reached := .step (.fresh .empty) _ trivial
  have shallow : (w.store.tree 0).depth ≤ Yaml.maxNesting := by decide
  obtain ⟨text, hdump, hparse⟩ := yaml_round_trip reached 0 (.standard .empty) shallow
  exact ⟨reached, shallow, text, hdump, hparse.mpr ⟨by decide, by decide⟩⟩

/-- A next line character in single quotes comes back as a space. -/
theorem yaml_round_trip_nextLine :
    let w := (fresh .empty).after (.convert (.ofValue (.text "a\x85b")))
    w.Reached ∧ (w.store.tree 0).depth ≤ Yaml.maxNesting ∧
      (w.store.tree 0).plain = .string "a\x85b" ∧
      ∃ text, Backend.yaml.dump (.standard .empty) (w.store.tree 0) = .ok text ∧
        Backend.yaml.parse text = .ok (.string "a b") := by
  intro w
  have reached : w.Reached := .step (.fresh .empty) _ trivial
  have shallow : (w.store.tree 0).depth ≤ Yaml.maxNesting := by decide
  exact ⟨reached, shallow, rfl, _, rfl, (Backend.parse_yaml_write _ rfl shallow _).mpr rfl⟩

end Workspace

end Grove
