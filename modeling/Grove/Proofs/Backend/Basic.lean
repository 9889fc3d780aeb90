import Grove.Backend.Basic
import Grove.Proofs.Tree.Plain

/-!
# What a backend parses

A text that a backend loads is parsed as the tree of its document, and a text that it does not load
is not parsed. The plain value of a tree within the limits is the document of that tree.
-/
namespace Grove

namespace Backend

variable {b : Backend} {text : Text} {d : Document} {t : Tree}

theorem build_of_ne_null (h : d.root ≠ .null) : build d = d.toTree := by
  unfold build
  split
  · next hnull => exact absurd hnull h
  · rfl

theorem build_toValue (h : t.Fits) : build (.ofValue (t.toValue true)) = .ok t.plain :=
  (build_of_ne_null (Tree.toValue_ne_null true t)).trans (Tree.toTree_toValue true h)

/-- The error that parsing makes of one that it meets. -/
def recast (b : Backend) (e : Error) : Error :=
  if e.category.isContentFault then .unsupported b.name e else e

theorem parse_of_error {e : Error} (h : (do build (← b.load text)) = .error e) :
    b.parse text = .error (b.recast e) := by
  rw [parse, h]
  exact (apply_ite Except.error _ _ _).symm

theorem parse_eq_ok_iff (hload : b.load text = .ok d) : b.parse text = .ok t ↔ build d = .ok t := by
  cases hbuild : build d with
  | ok u =>
    have hboth : (do build (← b.load text)) = .ok u := by
      rw [hload]
      exact hbuild
    rw [parse, hboth]
  | error e =>
    have hboth : (do build (← b.load text)) = .error e := by
      rw [hload]
      exact hbuild
    rw [parse_of_error hboth]
    exact iff_of_false nofun nofun

theorem parse_ne_ok {e : Error} (hload : b.load text = .error e) : b.parse text ≠ .ok t := by
  have hboth : (do build (← b.load text)) = .error e := by
    rw [hload]
    rfl
  rw [parse_of_error hboth]
  nofun

end Backend

end Grove
