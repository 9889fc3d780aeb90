import Mathlib.Logic.Relation
import Grove.Value.Basic

/-!
# What the containers of a document hold

A document is a finite graph: a container that stands in several places, or inside itself, is kept
once in the table and referred to from there. One value holds another if that is one of its items or
one of the values of its entries, and a cycle of holding always passes through the table.
-/
namespace Grove

namespace Value

def container? : Value → Option Container
  | .list _ => some .list
  | .tuple _ => some .tuple
  | .dict _ => some .dict
  | _ => none

def parts : Value → List Value
  | .list items | .tuple items => items
  | .dict entries => entries.map (·.2)
  | _ => []

def keys : Value → List Value
  | .dict entries => entries.map (·.1)
  | _ => []

theorem sizeOf_lt_of_mem_parts {v u : Value} (h : u ∈ v.parts) : sizeOf u < sizeOf v := by
  cases v with
  | list items | tuple items =>
    have hlt := List.sizeOf_lt_of_mem (show u ∈ items from h)
    simp only [list.sizeOf_spec, tuple.sizeOf_spec]
    omega
  | dict entries =>
    obtain ⟨⟨k, u⟩, hmem, rfl⟩ := List.mem_map.mp (show u ∈ entries.map (·.2) from h)
    have hlt := List.sizeOf_lt_of_mem hmem
    simp only [dict.sizeOf_spec, Prod.mk.sizeOf_spec] at hlt ⊢
    omega
  | _ => cases h

end Value

namespace Document

/-- The value itself, or what the table has for a reference. -/
def body (d : Document) : Value → Value
  | .shared _ id => d.bodies[id]?.getD .null
  | v => v

def parts (d : Document) (v : Value) : List Value :=
  (d.body v).parts

def keys (d : Document) (v : Value) : List Value :=
  (d.body v).keys

/-- One value holds another directly. -/
def Holds (d : Document) (v u : Value) : Prop :=
  u ∈ d.parts v

/-- A value of the document: the root, or held by a value of the document. -/
def Reaches (d : Document) (v : Value) : Prop :=
  Relation.ReflTransGen d.Holds d.root v

/-- Every reference in the document is to a container of its type. -/
def WellFormed (d : Document) : Prop :=
  ∀ kind id, d.Reaches (.shared kind id) →
    ∃ body, d.bodies[id]? = some body ∧ body.container? = some kind

variable {d : Document}

theorem Reaches.part {v u : Value} (hv : d.Reaches v) (h : u ∈ d.parts v) : d.Reaches u :=
  Relation.ReflTransGen.tail hv h

/-- A reference to a container is of one type throughout a document. -/
theorem WellFormed.kind_unique (wf : d.WellFormed) {kind kind' : Container} {id : Nat}
    (h : d.Reaches (.shared kind id)) (h' : d.Reaches (.shared kind' id)) : kind = kind' := by
  obtain ⟨body, hbody, hkind⟩ := wf kind id h
  obtain ⟨body', hbody', hkind'⟩ := wf kind' id h'
  rw [hbody] at hbody'
  cases hbody'
  rw [hkind] at hkind'
  exact Option.some.inj hkind'

/-- Holding leads through a reference, or to a smaller value. -/
theorem shared_or_smaller {v u : Value} (h : Relation.TransGen d.Holds v u) :
    (∃ kind id, Relation.ReflTransGen d.Holds v (.shared kind id) ∧
      Relation.TransGen d.Holds (.shared kind id) u) ∨ sizeOf u < sizeOf v := by
  have step : ∀ w u, d.Holds w u → (∃ kind id, w = .shared kind id) ∨ sizeOf u < sizeOf w := by
    intro w u hold
    cases w with
    | shared kind id => exact Or.inl ⟨kind, id, rfl⟩
    | _ => exact Or.inr (Value.sizeOf_lt_of_mem_parts hold)
  induction h with
  | single hold =>
    rcases step _ _ hold with ⟨kind, id, rfl⟩ | hlt
    · exact Or.inl ⟨kind, id, .refl, .single hold⟩
    · exact Or.inr hlt
  | tail hfirst hold ih =>
    rcases ih with ⟨kind, id, hto, hfrom⟩ | hlt
    · exact Or.inl ⟨kind, id, hto, hfrom.tail hold⟩
    · rcases step _ _ hold with ⟨kind, id, rfl⟩ | hlt'
      · exact Or.inl ⟨kind, id, hfirst.to_reflTransGen, .single hold⟩
      · exact Or.inr (Nat.lt_trans hlt' hlt)

/-- A value that holds itself through some chain does so through a container of the table that holds
itself. -/
theorem exists_shared_of_cycle {v : Value} (h : Relation.TransGen d.Holds v v) :
    ∃ kind id, Relation.ReflTransGen d.Holds v (.shared kind id) ∧
      Relation.TransGen d.Holds (.shared kind id) (.shared kind id) := by
  rcases shared_or_smaller h with ⟨kind, id, hto, hfrom⟩ | hlt
  · exact ⟨kind, id, hto, hfrom.trans_left hto⟩
  · exact absurd hlt (Nat.lt_irrefl _)

end Document

end Grove
