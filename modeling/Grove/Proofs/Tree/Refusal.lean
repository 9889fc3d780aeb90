import Grove.Proofs.Result
import Grove.Store.Write

/-!
# What conversion refuses a value with

Every error of the conversion of plain values to trees is one of type or one of value, whatever the
value holds and however its containers are shared.
-/
namespace Grove

/-- An error of type or of value, a limit of the library being one of value. -/
def Error.IsRefusal (e : Error) : Prop :=
  e.category.isCaughtAs .type = true ∨ e.category.isCaughtAs .value = true

namespace Tree

theorem levelKey_refuses (k : Value) : FailsOnly Error.IsRefusal (levelKey k) := by
  intro e h
  unfold levelKey at h
  split at h
  · next fault _ =>
    cases h
    cases fault with
    | nameNotText => exact Or.inl rfl
    | tooManyDigits => exact Or.inr rfl
  · split at h
    · cases h
      exact Or.inr rfl
    · cases h

/-- A number out of range exceeds a limit. -/
theorem ofReal_fails (x : Except RangeFault Binary64) :
    FailsOnly (fun e => e.category = .failure .limitExceeded) (ofReal x) := by
  cases x with
  | ok x => exact failsOnly_ok _
  | error fault => exact failsOnly_error.mpr rfl

theorem ofReal_refuses (x : Except RangeFault Binary64) : FailsOnly Error.IsRefusal (ofReal x) :=
  (ofReal_fails x).imp fun e h => Or.inr (by rw [h]; rfl)

section

variable {follow : Container → Nat → Except Error Tree}

mutual

theorem convert_refuses (follows : ∀ kind id, FailsOnly Error.IsRefusal (follow kind id)) :
    (v : Value) → FailsOnly Error.IsRefusal (convert follow v)
  | .boolean _ | .text _ => failsOnly_ok _
  | .list items | .tuple items => (convertItems_refuses follows items).map Tree.list
  | .dict entries => (convertEntries_refuses follows [] entries).map Tree.level
  | .shared kind id => follows kind id
  | .int _ | .fraction .. => ofReal_refuses _
  | .float _ => failsOnly_ok _
  | .null | .decimal _ | .imaginary _ | .bytes _ | .date .. | .moment _ | .set | .object _ | .key _
  | .index _ | .path _ => failsOnly_error.mpr (Or.inl rfl)

theorem convertItems_refuses (follows : ∀ kind id, FailsOnly Error.IsRefusal (follow kind id)) :
    (vs : List Value) → FailsOnly Error.IsRefusal (convertItems follow vs)
  | [] => failsOnly_ok _
  | v :: vs => by
    have hrest := convertItems_refuses follows vs
    by_cases hnull : v = .null
    · subst hnull
      exact hrest
    · rw [convertItems]
      · exact (convert_refuses follows v).bind fun t _ => hrest.map (t :: ·)
      · exact hnull

theorem convertEntries_refuses (follows : ∀ kind id, FailsOnly Error.IsRefusal (follow kind id)) :
    (done : List (Text × Tree)) → (es : List (Value × Value)) →
      FailsOnly Error.IsRefusal (convertEntries follow done es)
  | _, [] => failsOnly_ok _
  | done, (k, v) :: es => by
    have hkey := levelKey_refuses k
    have hrest := fun done' => convertEntries_refuses follows done' es
    by_cases hnull : v = .null
    · subst hnull
      exact hkey.bind fun _ _ => hrest done
    · rw [convertEntries]
      · exact hkey.bind fun name _ => (convert_refuses follows v).bind fun t _ => hrest _
      · exact hnull

end

end

end Tree

namespace Document

theorem sharedTree_refuses (bodies : Array Value) (fuel : Nat) (active : List Nat)
    (kind : Container) (id : Nat) :
    FailsOnly Error.IsRefusal (sharedTree bodies fuel active kind id) := by
  induction fuel generalizing active kind id with
  | zero => exact failsOnly_error.mpr (Or.inr rfl)
  | succ fuel ih =>
    rw [sharedTree]
    split
    · exact failsOnly_error.mpr (Or.inr rfl)
    · split
      · exact Tree.convert_refuses (ih _) _
      · exact failsOnly_error.mpr (Or.inr rfl)

theorem toTree_refuses (d : Document) : FailsOnly Error.IsRefusal d.toTree :=
  Tree.convert_refuses (sharedTree_refuses _ _ _) d.root

end Document

end Grove
