import Mathlib.Data.List.Lex
import Grove.Proofs.Document.Containment
import Grove.Tree.Conversion

/-!
# Faults of a document

What can be wrong with a document and where, as a relation that knows nothing of the conversion. A
place is told by the steps that lead to it, and places are ordered as a reader meets them: what is
at a place comes before what is inside it, and an entry's key before its value. A document without
faults is one that holds only values of known kinds, numbers in range and keys that are short
enough, and no container inside itself.
-/
namespace Grove

namespace Value

/-- A value that some kind of tree stands for. -/
def Supported : Value → Prop
  | .boolean _ | .int _ | .float _ | .fraction .. | .text _ | .list _ | .tuple _ | .dict _ |
      .shared .. => True
  | _ => False

inductive KeyFault (k : Value) : Error → Prop where
  | tooLong {name : Text} : k.asText = .ok name → maxPathLength < name.length →
      KeyFault k (.keyTooLong name.length)
  | withoutText {fault : TextFault} : k.asText = .error fault → KeyFault k (.text fault)

theorem supported_of_real?_eq_some {v : Value} {x : Except RangeFault Binary64}
    (h : v.real? = some x) :
    v.Supported := by
  cases v with
  | int | float | fraction => trivial
  | _ => cases h

/-- A key has a fault unless it has a text that is short enough. -/
theorem exists_keyFault_iff {k : Value} :
    (∃ e, k.KeyFault e) ↔ ¬ ∃ name, k.asText = .ok name ∧ name.length ≤ maxPathLength := by
  constructor
  · rintro ⟨e, hlong, hlt⟩ ⟨name, hname, hle⟩
    · rw [hlong] at hname
      cases hname
      exact absurd hlt (Nat.not_lt.mpr hle)
    · next hfault =>
      rw [hfault] at hname
      cases hname
  · intro hnone
    cases htext : k.asText with
    | error fault => exact ⟨_, .withoutText htext⟩
    | ok name => exact ⟨_, .tooLong htext (Nat.lt_of_not_le fun hle => hnone ⟨name, htext, hle⟩)⟩

theorem KeyFault.unique {k : Value} {e e' : Error} (h : k.KeyFault e)
    (h' : k.KeyFault e') : e = e' := by
  cases h with
  | tooLong hname _ =>
    cases h' with
    | tooLong hname' _ => rw [hname] at hname'; cases hname'; rfl
    | withoutText hfault => rw [hname] at hfault; cases hfault
  | withoutText hfault =>
    cases h' with
    | tooLong hname _ => rw [hfault] at hname; cases hname
    | withoutText hfault' => rw [hfault] at hfault'; cases hfault'; rfl

end Value

namespace Document

/-- A step into a container: to one of its keys, or to one of its parts. -/
inductive Step where
  | key (i : Nat)
  | part (i : Nat)

def Step.rank : Step → Nat
  | .key i => 2 * i
  | .part i => 2 * i + 1

@[simp] theorem Step.rank_key (i : Nat) : (Step.key i).rank = 2 * i := rfl

@[simp] theorem Step.rank_part (i : Nat) : (Step.part i).rank = 2 * i + 1 := rfl

theorem Step.rank_injective : Function.Injective Step.rank := by
  intro s t h
  cases s with
  | key i =>
    cases t with
    | key j => rw [show i = j by simp only [rank_key] at h; omega]
    | part j => simp only [rank_key, rank_part] at h; omega
  | part i =>
    cases t with
    | key j => simp only [rank_key, rank_part] at h; omega
    | part j => rw [show i = j by simp only [rank_part] at h; omega]

instance : LinearOrder Step :=
  LinearOrder.lift' Step.rank Step.rank_injective

/-- A place in a document, by the steps from its root. Places are in document order. -/
abbrev Place : Type := List Step

inductive Fault (d : Document) : List Value → Value → Place → Error → Prop where
  | insideItself {above : List Value} {kind : Container} {id : Nat} : .shared kind id ∈ above →
      Fault d above (.shared kind id) [] (.selfReferencing kind)
  | unsupported {above : List Value} {v : Value} : ¬ v.Supported →
      Fault d above v [] (.inconvertible v.typeName)
  | outOfRange {above : List Value} {v : Value}
      {fault : RangeFault} : v.real? = some (.error fault) →
      Fault d above v [] (.numberRange fault)
  | key {above : List Value} {v k : Value} {i : Nat} {e : Error} : (d.keys v)[i]? = some k →
      k.KeyFault e → Fault d above v [.key i] e
  | part {above : List Value} {v u : Value} {i : Nat} {p : Place} {e : Error} :
      (d.parts v)[i]? = some u → u ≠ .null → Fault d (v :: above) u p e →
        Fault d above v (.part i :: p) e

/-- The error of a document's first fault. -/
def FirstFault (d : Document) (e : Error) : Prop :=
  ∃ p, d.Fault [] d.root p e ∧ ∀ q e', d.Fault [] d.root q e' → p ≤ q

variable {d : Document}

/-- At one place there is at most one fault. -/
theorem Fault.unique {above : List Value} {v : Value} {p : Place} {e e' : Error}
    (h : d.Fault above v p e) (h' : d.Fault above v p e') : e = e' := by
  induction h with
  | insideItself _ =>
    cases h' with
    | insideItself _ => rfl
    | unsupported hnot => exact absurd trivial hnot
    | outOfRange hreal => cases hreal
  | unsupported hnot =>
    cases h' with
    | insideItself _ => exact absurd trivial hnot
    | unsupported _ => rfl
    | outOfRange hreal => exact absurd (Value.supported_of_real?_eq_some hreal) hnot
  | outOfRange hreal =>
    cases h' with
    | insideItself _ => cases hreal
    | unsupported hnot => exact absurd (Value.supported_of_real?_eq_some hreal) hnot
    | outOfRange hreal' => rw [hreal] at hreal'; cases hreal'; rfl
  | key hk hfault =>
    cases h' with
    | key hk' hfault' => rw [hk] at hk'; cases hk'; exact hfault.unique hfault'
  | part hu _ _ ih =>
    cases h' with
    | part hu' _ hfault' => rw [hu] at hu'; cases hu'; exact ih hfault'

theorem FirstFault.unique {e e' : Error} (h : d.FirstFault e) (h' : d.FirstFault e') : e = e' := by
  obtain ⟨p, hp, hfirst⟩ := h
  obtain ⟨q, hq, hfirst'⟩ := h'
  obtain rfl := le_antisymm (hfirst q e' hq) (hfirst' p e hp)
  exact hp.unique hq

/-- What one value of a document is at fault for, with the category and the cause of the error. -/
inductive Blames (d : Document) (v : Value) : Category → Error → Prop where
  | insideItself {kind : Container} {id : Nat} : v = .shared kind id →
    Relation.TransGen d.Holds v v →
      Blames d v (.fault .value) (.selfReferencing kind)
  | unsupported : v ≠ .null → ¬ v.Supported → Blames d v (.fault .type) (.inconvertible v.typeName)
  | emptyRoot : v = .null → d.root = .null → Blames d v (.fault .type) (.inconvertible v.typeName)
  | outOfRange {fault : RangeFault} : v.real? = some (.error fault) →
      Blames d v (.failure .limitExceeded) (.numberRange fault)
  | keyTooLong {k : Value} {name : Text} : k ∈ d.keys v → k.asText = .ok name →
      maxPathLength < name.length → Blames d v (.failure .limitExceeded) (.keyTooLong name.length)
  | keyWithoutText {k : Value} {fault : TextFault} : k ∈ d.keys v → k.asText = .error fault →
      Blames d v (Error.text fault).category (.text fault)

/-- A fault is the fault of some value of the document. -/
theorem Fault.exists_blames {above : List Value} {v : Value} {p : Place} {e : Error}
    (h : d.Fault above v p e) (hv : d.Reaches v) (hnull : v = .null → d.root = .null)
    (habove : ∀ a ∈ above, Relation.TransGen d.Holds a v) :
    ∃ u, d.Reaches u ∧ d.Blames u e.category e := by
  induction h with
  | insideItself hmem => exact ⟨_, hv, .insideItself rfl (habove _ hmem)⟩
  | @unsupported _ v hnot =>
    by_cases hempty : v = .null
    · exact ⟨v, hv, .emptyRoot hempty (hnull hempty)⟩
    · exact ⟨v, hv, .unsupported hempty hnot⟩
  | outOfRange hreal => exact ⟨_, hv, .outOfRange hreal⟩
  | key hk hfault =>
    have hmem := List.mem_of_getElem? hk
    cases hfault with
    | tooLong hname hlt => exact ⟨_, hv, .keyTooLong hmem hname hlt⟩
    | withoutText hfault => exact ⟨_, hv, .keyWithoutText hmem hfault⟩
  | part hu hne _ ih =>
    have hold := List.mem_of_getElem? hu
    apply ih (hv.part hold) (fun hempty => absurd hempty hne)
    intro a ha
    rcases List.mem_cons.mp ha with rfl | ha
    · exact .single hold
    · exact (habove a ha).tail hold

structure Acceptable (d : Document) : Prop where
  root_ne_null : d.root ≠ .null
  acyclic : ∀ v, d.Reaches v → ¬ Relation.TransGen d.Holds v v
  supported : ∀ v, d.Reaches v → v = .null ∨ v.Supported
  keys : ∀ v, d.Reaches v → ∀ k ∈ d.keys v, ∃ name, k.asText = .ok name ∧
    name.length ≤ maxPathLength
  inRange : ∀ v, d.Reaches v → ∀ fault, v.real? ≠ some (.error fault)

/-- No value of an acceptable document is at fault. -/
theorem Acceptable.not_blames (acceptable : d.Acceptable) {v : Value} {c : Category} {e : Error}
    (hv : d.Reaches v) : ¬ d.Blames v c e := by
  intro h
  cases h with
  | insideItself _ hcycle => exact acceptable.acyclic v hv hcycle
  | unsupported hnull hnot => exact (acceptable.supported v hv).elim hnull hnot
  | emptyRoot _ hroot => exact acceptable.root_ne_null hroot
  | outOfRange hreal => exact acceptable.inRange v hv _ hreal
  | keyTooLong hk hname hlt =>
    exact Value.exists_keyFault_iff.mp ⟨_, .tooLong hname hlt⟩ (acceptable.keys v hv _ hk)
  | keyWithoutText hk hfault =>
    exact Value.exists_keyFault_iff.mp ⟨_, .withoutText hfault⟩ (acceptable.keys v hv _ hk)

/-- A way from the root of a document to a value: the containers that it leads through, the
innermost first, and its steps. -/
inductive Trail (d : Document) : List Value → Value → Place → Prop where
  | root : Trail d [] d.root []
  | part {above : List Value} {v u : Value} {p : Place} {i : Nat} : Trail d above v p →
      (d.parts v)[i]? = some u → u ≠ .null → Trail d (v :: above) u (p ++ [.part i])

/-- A fault at the end of a trail is a fault of the document. -/
theorem Trail.fault {above : List Value} {v : Value} {p q : Place} {e : Error}
    (trail : d.Trail above v p) (h : d.Fault above v q e) : d.Fault [] d.root (p ++ q) e := by
  induction trail generalizing q with
  | root => exact h
  | part _ hu hne ih =>
    rw [List.append_assoc]
    exact ih (.part hu hne h)

theorem holds_ne_null {v u : Value} (h : d.Holds v u) : v ≠ .null := by
  rintro rfl
  cases h

/-- Whatever a value at the end of a trail holds through some chain is at the end of a trail that
goes on from it. -/
theorem Trail.extend {above : List Value} {v u : Value} {p : Place} (trail : d.Trail above v p)
    (h : Relation.TransGen d.Holds v u) (hnull : u ≠ .null) :
    ∃ above' p', d.Trail above' u p' ∧ v ∈ above' := by
  induction h with
  | single hold =>
    obtain ⟨i, hi⟩ := List.mem_iff_getElem?.mp hold
    exact ⟨_, _, .part trail hi hnull, List.mem_cons_self⟩
  | tail _ hold ih =>
    obtain ⟨above', p', htrail, hmem⟩ := ih (holds_ne_null hold)
    obtain ⟨i, hi⟩ := List.mem_iff_getElem?.mp hold
    exact ⟨_, _, .part htrail hi hnull, List.mem_cons_of_mem _ hmem⟩

theorem Reaches.exists_trail {v : Value} (hv : d.Reaches v) (hnull : v ≠ .null) :
    ∃ above p, d.Trail above v p := by
  rcases Relation.reflTransGen_iff_eq_or_transGen.mp hv with rfl | hchain
  · exact ⟨_, _, .root⟩
  · obtain ⟨above, p, htrail, -⟩ := Trail.extend .root hchain hnull
    exact ⟨above, p, htrail⟩

/-- A value of a document without faults is without faults. -/
theorem not_fault_of_reaches (clean : ∀ p e, ¬ d.Fault [] d.root p e) {v : Value} (hv : d.Reaches v)
    (hnull : v ≠ .null) : ∃ above, ∀ q e, ¬ d.Fault above v q e := by
  obtain ⟨above, p, htrail⟩ := hv.exists_trail hnull
  exact ⟨above, fun q e h => clean _ e (htrail.fault h)⟩

/-- A document is acceptable just if it has no fault. -/
theorem acceptable_iff : d.Acceptable ↔ ∀ p e, ¬ d.Fault [] d.root p e := by
  constructor
  · intro acceptable p e h
    obtain ⟨v, hv, hblames⟩ := h.exists_blames .refl id nofun
    exact acceptable.not_blames hv hblames
  · intro clean
    constructor
    · intro hnull
      exact clean [] _ (.unsupported (by rw [hnull]; exact id))
    · intro v hv hcycle
      obtain ⟨kind, id, hto, hloop⟩ := exists_shared_of_cycle hcycle
      obtain ⟨above, p, htrail⟩ := Reaches.exists_trail (hv.trans hto) nofun
      obtain ⟨above', p', htrail', hmem⟩ := htrail.extend hloop nofun
      exact clean _ _ (htrail'.fault (.insideItself hmem))
    · intro v hv
      by_cases hnull : v = .null
      · exact Or.inl hnull
      · obtain ⟨above, hclean⟩ := not_fault_of_reaches clean hv hnull
        exact Or.inr (Classical.not_not.mp fun hnot => hclean _ _ (.unsupported hnot))
    · intro v hv k hk
      have hnull : v ≠ .null := by rintro rfl; cases hk
      obtain ⟨above, hclean⟩ := not_fault_of_reaches clean hv hnull
      obtain ⟨i, hi⟩ := List.mem_iff_getElem?.mp hk
      refine Classical.not_not.mp fun hnone => ?_
      obtain ⟨e, hfault⟩ := Value.exists_keyFault_iff.mpr hnone
      exact hclean _ _ (.key hi hfault)
    · intro v hv fault hreal
      have hnull : v ≠ .null := by rintro rfl; cases hreal
      obtain ⟨above, hclean⟩ := not_fault_of_reaches clean hv hnull
      exact hclean _ _ (.outOfRange hreal)

end Document

end Grove
