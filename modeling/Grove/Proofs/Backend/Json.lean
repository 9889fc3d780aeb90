import Grove.Backend.Json
import Grove.Proofs.Backend.Basic
import Grove.Proofs.Json.Document
import Grove.Proofs.Workspace.Run

/-!
# The round trip through JSON

Whatever a node holds in a reached workspace is within the limits, so that it is dumped and parsed
again as it is, but for the signs of zeros, with any indentation.
-/
namespace Grove

namespace Backend

/-- A tree within the limits, with containers not too deep, is dumped to JSON and parsed again. -/
theorem parse_json_write (indent : Int) {t : Tree} (hfits : t.Fits)
    (hdepth : t.depth ≤ Json.maxNesting) :
    json.parse (Json.write indent t) = .ok t.plain := by
  have hload : json.load (Json.write indent t) = .ok (.ofValue (t.toValue true)) := by
    show ((Json.read (Json.write indent t).toList).map Document.ofValue).mapError jsonError = _
    rw [Json.read_write indent hfits hdepth]
    rfl
  exact (parse_eq_ok_iff hload).mpr (build_toValue hfits)

end Backend

namespace Workspace

/-- What any node holds in a reached workspace, with containers not too deep, is dumped to JSON with
any indentation and parsed again: the same kinds, keys, elements, texts and truth values in the same
order, and the same numbers but for the signs of zeros. -/
theorem json_round_trip {w : Workspace} (h : w.Reached) (id : NodeId) (config : StorageConfig)
    (hdepth : (w.store.tree id).depth ≤ Json.maxNesting) :
    ∃ text, Backend.json.dump config (w.store.tree id) = .ok text ∧
      Backend.json.parse text = .ok (w.store.tree id).plain :=
  ⟨_, rfl, Backend.parse_json_write config.indent (h.sound.fits.tree h.sound.forest id) hdepth⟩

/-- An empty key, a list in a list, and a negative zero, which comes back as zero. -/
theorem json_round_trip_nested :
    let d : Document := .ofValue (.dict [(.text "", .list [.list [], .float (.zero true)])])
    let w := (fresh .empty).after (.convert d)
    w.Reached ∧ (w.store.tree 0).depth ≤ Json.maxNesting ∧
      ∃ text, Backend.json.dump (.standard .empty) (w.store.tree 0) = .ok text ∧
        Backend.json.parse text = .ok (.level [("", .list [.list [], .number (.zero false)])]) := by
  intro d w
  have reached : w.Reached := .step (.fresh .empty) _ trivial
  have shallow : (w.store.tree 0).depth ≤ Json.maxNesting := by decide
  exact ⟨reached, shallow, json_round_trip reached 0 (.standard .empty) shallow⟩

end Workspace

end Grove
