import Grove.Proofs.Document.Fault
import Grove.Proofs.Result

/-!
# Grounded values

Readers make documents piece by piece. A value is grounded if every reference in it is one of those
that the table is known to answer, and every key of a mapping has a text unless that has too many
digits. A document of grounded values is well-formed, and all its faults are of five forms.
-/
namespace Grove

namespace Value

/-- The value has a text unless it is a whole number of too many digits. -/
def Worded (k : Value) : Prop :=
  FailsOnly (fun fault => fault = .tooManyDigits) k.asText

/-- Every reference in a value is among `known`, and its keys have texts. -/
inductive Grounded (known : Container → Nat → Prop) : Value → Prop where
  | inPlace {v : Value} : (∀ kind id, v ≠ .shared kind id) → (∀ k ∈ v.keys, k.Worded) →
      (∀ u ∈ v.parts, Grounded known u) → Grounded known v
  | shared {kind : Container} {id : Nat} : known kind id → Grounded known (.shared kind id)

section

variable {known known' : Container → Nat → Prop}

theorem Grounded.mono {v : Value} (h : v.Grounded known)
    (more : ∀ kind id, known kind id → known' kind id) :
    v.Grounded known' := by
  induction h with
  | inPlace here keys _ ih => exact .inPlace here keys ih
  | shared hknown => exact .shared (more _ _ hknown)

theorem grounded_list {items : List Value} (h : ∀ v ∈ items, v.Grounded known) :
    (Value.list items).Grounded known :=
  .inPlace (by simp) (List.forall_mem_nil _) h

theorem grounded_tuple {items : List Value} (h : ∀ v ∈ items, v.Grounded known) :
    (Value.tuple items).Grounded known :=
  .inPlace (by simp) (List.forall_mem_nil _) h

theorem grounded_dict {entries : List (Value × Value)}
    (h : ∀ e ∈ entries, e.1.Worded ∧ e.2.Grounded known) :
    (Value.dict entries).Grounded known := by
  refine .inPlace (by simp) ?_ ?_
  · intro k hk
    obtain ⟨e, he, rfl⟩ := List.mem_map.mp hk
    exact (h e he).1
  · intro v hv
    obtain ⟨e, he, rfl⟩ := List.mem_map.mp hv
    exact (h e he).2

end

/-- A value of a simple type, as a scalar of a text stands for. -/
def IsSimple : Value → Prop
  | .null | .boolean _ | .int _ | .float _ | .text _ | .bytes _ | .date .. | .moment _ => True
  | _ => False

theorem IsSimple.grounded {v : Value} (h : v.IsSimple) (known : Container → Nat → Prop) :
    v.Grounded known := by
  cases v with
  | null | boolean | int | float | text | bytes | date | moment =>
    exact .inPlace (by simp) (List.forall_mem_nil _) (List.forall_mem_nil _)
  | _ => cases h

theorem IsSimple.worded {v : Value} (h : v.IsSimple) : v.Worded := by
  cases v with
  | int n =>
    show FailsOnly _ (intText n)
    unfold intText
    split
    · exact failsOnly_error.mpr rfl
    · exact failsOnly_ok _
  | null | boolean | float | text | bytes | date | moment => exact failsOnly_ok _
  | _ => cases h

end Value

namespace Document

variable {d : Document} {known : Container → Nat → Prop}

/-- All that a document holds is grounded in its table. -/
structure Grounded (d : Document) (known : Container → Nat → Prop) : Prop where
  root : d.root.Grounded known
  bodies : ∀ kind id, known kind id →
    ∃ body, d.bodies[id]? = some body ∧ body.container? = some kind ∧ body.Grounded known

namespace Grounded

variable (h : d.Grounded known)

include h

theorem of_reaches {v : Value} (hv : d.Reaches v) :
    v.Grounded known ∧ (∀ k ∈ d.keys v, k.Worded) ∧ ∀ u ∈ d.parts v, u.Grounded known := by
  have inside : ∀ {v : Value}, v.Grounded known →
      (∀ k ∈ d.keys v, k.Worded) ∧ ∀ u ∈ d.parts v, u.Grounded known := by
    intro v hv
    cases hv with
    | inPlace here keys parts =>
      have hbody : d.body v = v := by
        cases v with
        | shared kind id => exact absurd rfl (here kind id)
        | _ => rfl
      rw [Document.keys, Document.parts, hbody]
      exact ⟨keys, parts⟩
    | @shared kind id hknown =>
      obtain ⟨body, hbody, hkind, hgrounded⟩ := h.bodies kind id hknown
      have hstored : d.body (.shared kind id) = body := by
        rw [Document.body, hbody]
        rfl
      rw [Document.keys, Document.parts, hstored]
      cases hgrounded with
      | inPlace _ keys parts => exact ⟨keys, parts⟩
      | shared => cases hkind
  have grounded : v.Grounded known := by
    induction hv with
    | refl => exact h.root
    | tail _ hold ih => exact (inside ih).2 _ hold
  exact ⟨grounded, inside grounded⟩

theorem wellFormed : d.WellFormed := by
  intro kind id hv
  cases (h.of_reaches hv).1 with
  | inPlace here => exact absurd rfl (here kind id)
  | shared hknown =>
    obtain ⟨body, hbody, hkind, -⟩ := h.bodies kind id hknown
    exact ⟨body, hbody, hkind⟩

/-- The first fault is a number out of range, a key that is too long or has no text for its digits,
a value of a type that no tree has, or a container inside itself. -/
theorem firstFault_cases {e : Error} (hfirst : d.FirstFault e) :
    ((∃ fault, e = .numberRange fault) ∨ ∃ length, e = .keyTooLong length) ∨
      (∃ typeName, e = .inconvertible typeName) ∨ (∃ kind, e = .selfReferencing kind) ∨
      e = .text .tooManyDigits := by
  obtain ⟨p, hplace, -⟩ := hfirst
  obtain ⟨v, hv, hblames⟩ := hplace.exists_blames .refl id nofun
  generalize e.category = c at hblames
  cases hblames with
  | insideItself => exact Or.inr (Or.inr (Or.inl ⟨_, rfl⟩))
  | unsupported | emptyRoot => exact Or.inr (Or.inl ⟨_, rfl⟩)
  | outOfRange => exact Or.inl (Or.inl ⟨_, rfl⟩)
  | keyTooLong => exact Or.inl (Or.inr ⟨_, rfl⟩)
  | keyWithoutText hk htext =>
    obtain rfl := (h.of_reaches hv).2.1 _ hk _ htext
    exact Or.inr (Or.inr (Or.inr rfl))

end Grounded

end Document

end Grove
