import Mathlib.Data.List.Perm.Subperm
import Grove.Proofs.Document.Fault
import Grove.Proofs.Result
import Grove.Proofs.Text.Digit

/-!
# Conversion tells the first fault

The conversion of a document gives a tree just if the document has no fault, and otherwise the error
of its first fault. The containers being entered never stand twice among the active ones, so the
fuel never runs out, and a container that merely occurs often is no fault.
-/
namespace Grove

namespace Document

/-- A result answers for faults: it is good if there are none, and the error of the first one
otherwise. -/
def Answers {α : Type} (F : Place → Error → Prop) : Except Error α → Prop
  | .ok _ => ∀ p e, ¬ F p e
  | .error e => ∃ p, F p e ∧ ∀ q e', F q e' → p ≤ q

section

variable {α β : Type} {F G H : Place → Error → Prop} {x : Except Error α}

theorem Answers.imp (h : Answers G x) (hiff : ∀ p e, F p e ↔ G p e) : Answers F x := by
  have heq : F = G := funext fun p => funext fun e => propext (hiff p e)
  exact heq ▸ h

/-- A fault of the value itself comes before all that is inside it. -/
theorem answers_error {e : Error} (h : F [] e) : Answers F (.error e : Except Error α) :=
  ⟨[], h, fun q _ _ => not_lt.mp (List.not_lt_nil q)⟩

theorem Answers.map (h : Answers F x) (f : α → β) : Answers F (x >>= fun a => .ok (f a)) := by
  cases x with
  | ok a => exact h
  | error e => exact h

/-- Two results one after the other answer for the faults of both, if those of the first come
first. -/
theorem Answers.bind {f : α → Except Error β} (hx : Answers G x) (hf : ∀ a, Answers H (f a))
    (horder : ∀ p e q e', G p e → H q e' → p ≤ q) :
    Answers (fun p e => G p e ∨ H p e) (x >>= f) := by
  cases x with
  | ok a => exact (hf a).imp fun p e => or_iff_right (hx p e)
  | error e =>
    obtain ⟨p, hp, hfirst⟩ := hx
    refine ⟨p, Or.inl hp, ?_⟩
    rintro q e' (hq | hq)
    · exact hfirst q e' hq
    · exact horder p e q e' hp hq

/-- What a step leads to answers for its own faults, each one step further away. -/
theorem Answers.under (h : Answers G x) (s : Step) :
    Answers (fun p e => ∃ q, p = s :: q ∧ G q e) x := by
  cases x with
  | ok a =>
    rintro _ e ⟨q, rfl, hq⟩
    exact h q e hq
  | error e =>
    obtain ⟨p, hp, hfirst⟩ := h
    refine ⟨s :: p, ⟨p, rfl, hp⟩, ?_⟩
    rintro _ e' ⟨q, rfl, hq⟩
    exact List.cons_le_cons s (hfirst q e' hq)

end

variable {d : Document} {above : List Value}

/-- The faults of keys in a row, where the first has the position `i`. -/
def KeyFaults (ks : List Value) (i : Nat) (p : Place) (e : Error) : Prop :=
  ∃ j k, ks[j]? = some k ∧ p = [.key (i + j)] ∧ k.KeyFault e

def PartFaults (d : Document) (above : List Value) (vs : List Value) (i : Nat)
    (p : Place) (e : Error) :
    Prop :=
  ∃ j u, vs[j]? = some u ∧ u ≠ .null ∧ ∃ q, p = .part (i + j) :: q ∧ d.Fault above u q e

def InnerFaults (d : Document) (above : List Value) (ks vs : List Value) (i : Nat)
    (p : Place) (e : Error) :
    Prop :=
  KeyFaults ks i p e ∨ d.PartFaults above vs i p e

theorem keyFaults_nil {i : Nat} {p : Place} {e : Error} : ¬ KeyFaults [] i p e := by
  rintro ⟨j, k, hk, -⟩
  cases hk

theorem partFaults_nil {i : Nat} {p : Place} {e : Error} : ¬ d.PartFaults above [] i p e := by
  rintro ⟨j, u, hu, -⟩
  cases hu

theorem innerFaults_nil {i : Nat} {p : Place} {e : Error} : ¬ d.InnerFaults above [] [] i p e :=
  not_or.mpr ⟨keyFaults_nil, partFaults_nil⟩

theorem keyFaults_cons {k : Value} {ks : List Value} {i : Nat} {p : Place} {e : Error} :
    KeyFaults (k :: ks) i p e ↔ (p = [.key i] ∧ k.KeyFault e) ∨ KeyFaults ks (i + 1) p e := by
  constructor
  · rintro ⟨_ | j, k', hk, rfl, hfault⟩
    · cases hk
      exact Or.inl ⟨rfl, hfault⟩
    · exact Or.inr ⟨j, k', hk, by rw [Nat.add_right_comm, Nat.add_assoc], hfault⟩
  · rintro (⟨rfl, hfault⟩ | ⟨j, k', hk, rfl, hfault⟩)
    · exact ⟨0, k, rfl, rfl, hfault⟩
    · exact ⟨j + 1, k', hk, by rw [Nat.add_right_comm, Nat.add_assoc], hfault⟩

theorem partFaults_cons {v : Value} {vs : List Value} {i : Nat} {p : Place} {e : Error} :
    d.PartFaults above (v :: vs) i p e ↔
      (v ≠ .null ∧ ∃ q, p = .part i :: q ∧ d.Fault above v q e) ∨
        d.PartFaults above vs (i + 1) p e := by
  constructor
  · rintro ⟨_ | j, u, hu, hne, q, rfl, hfault⟩
    · cases hu
      exact Or.inl ⟨hne, q, rfl, hfault⟩
    · exact Or.inr ⟨j, u, hu, hne, q, by rw [Nat.add_right_comm, Nat.add_assoc], hfault⟩
  · rintro (⟨hne, q, rfl, hfault⟩ | ⟨j, u, hu, hne, q, rfl, hfault⟩)
    · exact ⟨0, v, rfl, hne, q, rfl, hfault⟩
    · exact ⟨j + 1, u, hu, hne, q, by rw [Nat.add_right_comm, Nat.add_assoc], hfault⟩

/-- An entry comes before the rest of its mapping, and its key before its value. -/
theorem innerFaults_cons {k v : Value} {ks vs : List Value} {i : Nat} {p : Place} {e : Error} :
    d.InnerFaults above (k :: ks) (v :: vs) i p e ↔ (p = [.key i] ∧ k.KeyFault e) ∨
      (v ≠ .null ∧ ∃ q, p = .part i :: q ∧ d.Fault above v q e) ∨
      d.InnerFaults above ks vs (i + 1) p e := by
  rw [InnerFaults, keyFaults_cons, partFaults_cons, or_assoc, or_left_comm (b := _ ∧ _)]
  rfl

/-- An item comes before the rest of its sequence. -/
theorem innerFaults_item {v : Value} {vs : List Value} {i : Nat} {p : Place} {e : Error} :
    d.InnerFaults above [] (v :: vs) i p e ↔
      (v ≠ .null ∧ ∃ q, p = .part i :: q ∧ d.Fault above v q e) ∨
        d.InnerFaults above [] vs (i + 1) p e := by
  rw [InnerFaults, InnerFaults, partFaults_cons, or_iff_right keyFaults_nil,
    or_iff_right keyFaults_nil]

/-- A step of a lower rank comes first, whatever follows. -/
theorem cons_le_of_rank_lt {s t : Step} (h : s.rank < t.rank) (p q : Place) : s :: p ≤ t :: q :=
  le_of_lt (List.Lex.rel h)

/-- The faults inside a container from some position on come after what is before that position. -/
theorem InnerFaults.after {ks vs : List Value} {i : Nat} {q : Place} {e : Error}
    (h : d.InnerFaults above ks vs i q e) {s : Step} (hs : s.rank < 2 * i)
    (p : Place) : s :: p ≤ q := by
  rcases h with ⟨j, k, -, rfl, -⟩ | ⟨j, u, -, -, q, rfl, -⟩
  · apply cons_le_of_rank_lt
    rw [Step.rank_key]
    omega
  · apply cons_le_of_rank_lt
    rw [Step.rank_part]
    omega

/-- The faults of a container are those inside it, unless it is inside itself. -/
theorem fault_iff_inner (v : Value) (hsupported : v.Supported) (hreal : v.real? = none)
    (hnew : ∀ kind id, v = .shared kind id → v ∉ above) {p : Place} {e : Error} :
    d.Fault above v p e ↔ d.InnerFaults (v :: above) (d.keys v) (d.parts v) 0 p e := by
  constructor
  · intro h
    cases h with
    | insideItself hmem => exact absurd hmem (hnew _ _ rfl)
    | unsupported hnot => exact absurd hsupported hnot
    | outOfRange hrange => rw [hreal] at hrange; cases hrange
    | key hk hfault => exact Or.inl ⟨_, _, hk, by rw [Nat.zero_add], hfault⟩
    | part hu hne hfault => exact Or.inr ⟨_, _, hu, hne, _, by rw [Nat.zero_add], hfault⟩
  · rintro (⟨j, k, hk, rfl, hfault⟩ | ⟨j, u, hu, hne, q, rfl, hfault⟩)
    · rw [Nat.zero_add]
      exact .key hk hfault
    · rw [Nat.zero_add]
      exact .part hu hne hfault

/-- The ids of the containers of the table that a value is met inside of. -/
def Tracks (d : Document) (active : List Nat) (above : List Value) : Prop :=
  ∀ kind id, d.Reaches (.shared kind id) → (.shared kind id ∈ above ↔ id ∈ active)

theorem tracks_nil : d.Tracks [] [] :=
  fun _ _ _ => Iff.intro nofun nofun

theorem Tracks.inPlace {active : List Nat} (h : d.Tracks active above) {v : Value}
    (hv : ∀ kind id, v ≠ .shared kind id) : d.Tracks active (v :: above) := by
  intro kind id hr
  rw [List.mem_cons, or_iff_right (Ne.symm (hv kind id)), h kind id hr]

theorem Tracks.enter (wf : d.WellFormed) {active : List Nat} (h : d.Tracks active above)
    {kind : Container} {id : Nat} (hr : d.Reaches (.shared kind id)) :
    d.Tracks (id :: active) (.shared kind id :: above) := by
  intro kind' id' hr'
  rw [List.mem_cons, List.mem_cons, h kind' id' hr']
  refine or_congr_left ⟨fun heq => (Value.shared.inj heq).2, ?_⟩
  rintro rfl
  rw [wf.kind_unique hr' hr]

/-- What `follow` gives for a reference answers for its faults, while the `active` containers are
entered. -/
def Follows (d : Document) (active : List Nat)
    (follow : Container → Nat → Except Error Tree) : Prop :=
  ∀ kind id above, d.Reaches (.shared kind id) → d.Tracks active above →
    Answers (d.Fault above (.shared kind id)) (follow kind id)

theorem parts_of_real? {v : Value} {x : Except RangeFault Binary64} (h : v.real? = some x) :
    d.keys v = [] ∧ d.parts v = [] := by
  cases v with
  | int | float | fraction => exact ⟨rfl, rfl⟩
  | _ => cases h

theorem answers_levelKey (k : Value) (i : Nat) :
    Answers (fun p e => p = [.key i] ∧ k.KeyFault e) (Tree.levelKey k) := by
  rw [Tree.levelKey]
  cases htext : k.asText with
  | error fault =>
    exact ⟨[.key i], ⟨rfl, .withoutText htext⟩, fun q _ hq => le_of_eq hq.1.symm⟩
  | ok name =>
    dsimp only
    split
    · next hlt => exact ⟨[.key i], ⟨rfl, .tooLong htext hlt⟩, fun q _ hq => le_of_eq hq.1.symm⟩
    · next hle =>
      rintro p e ⟨-, hfault⟩
      exact Value.exists_keyFault_iff.mp ⟨e, hfault⟩ ⟨name, htext, Nat.le_of_not_lt hle⟩

theorem answers_ofReal {v : Value} {x : Except RangeFault Binary64} (h : v.real? = some x) :
    Answers (d.Fault above v) (Tree.ofReal x) := by
  cases x with
  | error fault => exact answers_error (.outOfRange h)
  | ok x =>
    obtain ⟨hkeys, hparts⟩ := parts_of_real? (d := d) h
    intro p e hfault
    cases hfault with
    | insideItself _ => cases h
    | unsupported hnot => exact hnot (Value.supported_of_real?_eq_some h)
    | outOfRange hrange => rw [h] at hrange; cases hrange
    | key hk _ => rw [hkeys] at hk; cases hk
    | part hu _ _ => rw [hparts] at hu; cases hu

section

variable {follow : Container → Nat → Except Error Tree} {active : List Nat}

mutual

/-- The conversion of a value answers for its faults if that of every reference does. -/
theorem answers_convert (follows : d.Follows active follow) (above : List Value) : (v : Value) →
    d.Reaches v → d.Tracks active above → Answers (d.Fault above v) (Tree.convert follow v)
  | .boolean b => by
    intro _ _ p e h
    exact innerFaults_nil ((fault_iff_inner (.boolean b) trivial rfl nofun).mp h)
  | .text s => by
    intro _ _ p e h
    exact innerFaults_nil ((fault_iff_inner (.text s) trivial rfl nofun).mp h)
  | .list items => by
    intro hv ht
    have hitems := answers_convertItems follows (.list items :: above) items 0
      (fun u hu => hv.part hu)
      (ht.inPlace nofun)
    exact (hitems.map Tree.list).imp fun p e => fault_iff_inner (.list items) trivial rfl nofun
  | .tuple items => by
    intro hv ht
    have hitems := answers_convertItems follows (.tuple items :: above) items 0
      (fun u hu => hv.part hu)
      (ht.inPlace nofun)
    exact (hitems.map Tree.list).imp fun p e => fault_iff_inner (.tuple items) trivial rfl nofun
  | .dict entries => by
    intro hv ht
    have hentries := answers_convertEntries follows (.dict entries :: above) entries 0 []
      (fun e he => hv.part (List.mem_map_of_mem he)) (ht.inPlace nofun)
    exact (hentries.map Tree.level).imp fun p e => fault_iff_inner (.dict entries) trivial rfl nofun
  | .shared kind id => fun hv ht => follows kind id above hv ht
  | .int _ | .fraction .. => fun _ _ => answers_ofReal rfl
  | .float x => fun _ _ => answers_ofReal (x := .ok x) rfl
  | .null | .decimal _ | .imaginary _ | .bytes _ | .date .. | .moment _ | .set | .object _ | .key _
  | .index _ | .path _ => fun _ _ => answers_error (.unsupported id)

theorem answers_convertItems (follows : d.Follows active follow) (above : List Value) :
    (vs : List Value) → (i : Nat) → (∀ u ∈ vs, d.Reaches u) → d.Tracks active above →
    Answers (d.InnerFaults above [] vs i) (Tree.convertItems follow vs)
  | [], _ => fun _ _ _ _ => innerFaults_nil
  | v :: vs, i => by
    intro hv ht
    have hrest := answers_convertItems follows above vs (i + 1)
      (fun u hu => hv u (List.mem_cons_of_mem _ hu)) ht
    by_cases hnull : v = .null
    · subst hnull
      exact hrest.imp fun p e => innerFaults_item.trans (or_iff_right fun h => h.1 rfl)
    · rw [Tree.convertItems]
      · have hpart := (answers_convert follows above v (hv v List.mem_cons_self) ht).under (.part i)
        refine (hpart.bind (fun t => hrest.map (t :: ·)) ?_).imp ?_
        · rintro _ e q e' ⟨p, rfl, -⟩ hq
          exact hq.after (Nat.lt_succ_self _) p
        · intro p e
          rw [innerFaults_item, and_iff_right hnull]
      · exact hnull

theorem answers_convertEntries (follows : d.Follows active follow) (above : List Value) :
    (es : List (Value × Value)) → (i : Nat) → (level : List (Text × Tree)) →
      (∀ e ∈ es, d.Reaches e.2) →
    d.Tracks active above →
    Answers (d.InnerFaults above (es.map (·.1)) (es.map (·.2)) i)
      (Tree.convertEntries follow level es)
  | [], _, _ => fun _ _ _ _ => innerFaults_nil
  | (k, v) :: es, i, level => by
    intro hv ht
    have hrest : ∀ level', _ := fun level' => answers_convertEntries follows above es (i + 1) level'
      (fun e he => hv e (List.mem_cons_of_mem _ he)) ht
    have hkey := answers_levelKey k i
    by_cases hnull : v = .null
    -- an empty value is left out, but only once its key was found to be short enough
    · subst hnull
      refine (hkey.bind (fun _ => hrest level) ?_).imp ?_
      · rintro _ e q e' ⟨rfl, -⟩ hq
        exact hq.after (by simp) []
      · intro p e
        exact innerFaults_cons.trans (or_congr_right (or_iff_right fun h => h.1 rfl))
    · rw [Tree.convertEntries]
      · have hpart := (answers_convert follows above v (hv _ List.mem_cons_self) ht).under (.part i)
        have hvalue : ∀ name, _ := fun name =>
          hpart.bind (fun t => hrest (Entries.put name t level)) (by
            rintro _ e q e' ⟨p, rfl, -⟩ hq
            exact hq.after (Nat.lt_succ_self _) p)
        refine (hkey.bind hvalue ?_).imp ?_
        · rintro _ e q e' ⟨rfl, -⟩ (⟨p, rfl, -⟩ | hq)
          · exact cons_le_of_rank_lt (by simp) [] p
          · exact hq.after (by simp) []
        · intro p e
          rw [List.map_cons, List.map_cons, innerFaults_cons, and_iff_right hnull]
      · exact hnull

end

/-- What the table has for a reference answers for the faults inside it, whatever it is met inside
of. -/
theorem answers_body (follows : d.Follows active follow) {body : Value} {kind : Container}
    (hkind : body.container? = some kind) (hparts : ∀ u ∈ body.parts, d.Reaches u)
    (ht : d.Tracks active above) :
    Answers (d.InnerFaults above body.keys body.parts 0) (Tree.convert follow body) := by
  cases body with
  | list items => exact (answers_convertItems follows above items 0 hparts ht).map Tree.list
  | tuple items => exact (answers_convertItems follows above items 0 hparts ht).map Tree.list
  | dict entries =>
    refine (answers_convertEntries follows above entries 0 [] ?_ ht).map Tree.level
    exact fun e he => hparts _ (List.mem_map_of_mem he)
  | _ => cases hkind

end

/-- The ids of containers that are being converted: each is in the table, and none is there
twice. -/
structure Entered (d : Document) (active : List Nat) : Prop where
  nodup : active.Nodup
  inTable : ∀ id ∈ active, id < d.bodies.size

theorem entered_nil : d.Entered [] :=
  ⟨List.nodup_nil, nofun⟩

theorem Entered.enter {active : List Nat} (h : d.Entered active) {id : Nat} (hnew : id ∉ active)
    {body : Value} (hbody : d.bodies[id]? = some body) : d.Entered (id :: active) := by
  obtain ⟨hlt, -⟩ := Array.getElem?_eq_some_iff.mp hbody
  exact ⟨List.nodup_cons.mpr ⟨hnew, h.nodup⟩, List.forall_mem_cons.mpr ⟨hlt, h.inTable⟩⟩

theorem Entered.length_le {active : List Nat} (h : d.Entered active) :
    active.length ≤ d.bodies.size := by
  have hsub : active ⊆ List.range d.bodies.size := fun id hid =>
    List.mem_range.mpr (h.inTable id hid)
  simpa using (h.nodup.subperm hsub).length_le

/-- With fuel for every container that is not yet entered, the tree of a reference answers for its
faults. -/
theorem answers_sharedTree (wf : d.WellFormed) {fuel : Nat} {active : List Nat}
    (hactive : d.Entered active) (hfuel : d.bodies.size < active.length + fuel) {above : List Value}
    {kind : Container} {id : Nat} (hv : d.Reaches (.shared kind id)) (ht : d.Tracks active above) :
    Answers (d.Fault above (.shared kind id)) (sharedTree d.bodies fuel active kind id) := by
  induction fuel generalizing active above kind id with
  | zero => exact absurd hactive.length_le (Nat.not_le.mpr hfuel)
  | succ fuel ih =>
    rw [sharedTree]
    by_cases hmem : id ∈ active
    · rw [if_pos (List.contains_iff_mem.mpr hmem)]
      exact answers_error (.insideItself ((ht kind id hv).mpr hmem))
    · rw [if_neg (mt List.contains_iff_mem.mp hmem)]
      obtain ⟨body, hbody, hkind⟩ := wf kind id hv
      have hstored : d.body (.shared kind id) = body := by rw [Document.body, hbody]; rfl
      have hnew : ∀ kind' id', Value.shared kind id = .shared kind' id' →
          Value.shared kind id ∉ above := by
        rintro _ _ - habove
        exact hmem ((ht kind id hv).mp habove)
      simp only [hbody]
      refine Answers.imp ?_ fun p e => fault_iff_inner (.shared kind id) trivial rfl hnew
      rw [Document.keys, Document.parts, hstored]
      refine answers_body ?_ hkind ?_ (ht.enter wf hv)
      · intro kind' id' above' hv' ht'
        exact ih (hactive.enter hmem hbody) (by rw [List.length_cons]; omega) hv' ht'
      · intro u hu
        exact hv.part (by rwa [Document.parts, hstored])

/-- Fuel beyond what the containers that are not yet entered need makes no difference. -/
theorem sharedTree_eq_of_fuel {fuel fuel' : Nat} {active : List Nat} (hactive : d.Entered active)
    (hfuel : d.bodies.size < active.length + fuel)
    (hfuel' : d.bodies.size < active.length + fuel') :
    sharedTree d.bodies fuel active = sharedTree d.bodies fuel' active := by
  induction fuel generalizing active fuel' with
  | zero => exact absurd hactive.length_le (Nat.not_le.mpr hfuel)
  | succ fuel ih =>
    cases fuel' with
    | zero => exact absurd hactive.length_le (Nat.not_le.mpr hfuel')
    | succ fuel' =>
      funext kind id
      rw [sharedTree, sharedTree]
      by_cases hmem : id ∈ active
      · rw [if_pos (List.contains_iff_mem.mpr hmem), if_pos (List.contains_iff_mem.mpr hmem)]
      · rw [if_neg (mt List.contains_iff_mem.mp hmem), if_neg (mt List.contains_iff_mem.mp hmem)]
        cases hbody : d.bodies[id]? with
        | none => rfl
        | some body =>
          have heq : sharedTree d.bodies fuel (id :: active) =
              sharedTree d.bodies fuel' (id :: active) :=
            ih (hactive.enter hmem hbody) (by rw [List.length_cons]; omega)
              (by rw [List.length_cons]; omega)
          simp only [heq]

theorem answers_toTree (wf : d.WellFormed) : Answers (d.Fault [] d.root) d.toTree := by
  refine answers_convert ?_ [] d.root .refl tracks_nil
  intro kind id above hv ht
  exact answers_sharedTree wf entered_nil (by simp) hv ht

/-- The conversion of a document fails with the error of its first fault. -/
theorem toTree_eq_error_iff (wf : d.WellFormed) {e : Error} :
    d.toTree = .error e ↔ d.FirstFault e := by
  have hanswers := answers_toTree wf
  cases hresult : d.toTree with
  | ok t =>
    rw [hresult] at hanswers
    exact Iff.intro nofun fun ⟨p, hp, _⟩ => absurd hp (hanswers p e)
  | error e' =>
    rw [hresult] at hanswers
    constructor
    · intro heq
      cases heq
      exact hanswers
    · intro hfirst
      rw [FirstFault.unique hfirst hanswers]

theorem exists_toTree_iff (wf : d.WellFormed) : (∃ t, d.toTree = .ok t) ↔ d.Acceptable := by
  rw [acceptable_iff]
  cases hresult : d.toTree with
  | ok t =>
    have hanswers := answers_toTree wf
    rw [hresult] at hanswers
    exact iff_of_true ⟨t, rfl⟩ hanswers
  | error e =>
    obtain ⟨p, hp, -⟩ := (toTree_eq_error_iff wf).mp hresult
    exact iff_of_false nofun fun hclean => hclean p e hp

/-- A document that is not acceptable has a first fault. -/
theorem exists_firstFault (wf : d.WellFormed) (h : ¬ d.Acceptable) : ∃ e, d.FirstFault e := by
  cases htree : d.toTree with
  | ok t => exact absurd ((exists_toTree_iff wf).mp ⟨t, htree⟩) h
  | error e => exact ⟨e, (toTree_eq_error_iff wf).mp htree⟩

/-- The conversion of a finite document ends by itself, with a tree just if the document is
acceptable and otherwise with the error of its first fault, which is the fault of some value in it.
A container is reported as self-referencing only if it holds itself. -/
theorem conversion_outcome (wf : d.WellFormed) :
    (∀ fuel, d.bodies.size < fuel → Tree.convert (sharedTree d.bodies fuel []) d.root = d.toTree) ∧
    ((∃ t, d.toTree = .ok t) ↔ d.Acceptable) ∧
    (∀ e, d.toTree = .error e ↔ d.FirstFault e) ∧
    (∀ e, d.toTree = .error e → ∃ v, d.Reaches v ∧ d.Blames v e.category e) := by
  refine ⟨?_, exists_toTree_iff wf, fun _ => toTree_eq_error_iff wf, ?_⟩
  · intro fuel hfuel
    rw [toTree, sharedTree_eq_of_fuel entered_nil (by simpa using hfuel)]
    simp
  · intro e he
    obtain ⟨p, hp, -⟩ := (toTree_eq_error_iff wf).mp he
    exact hp.exists_blames .refl id nofun

/-- A document is well-formed if its values are among some that refer to containers of the table
only. -/
theorem wellFormed_of_closed (vs : List Value) (hroot : d.root ∈ vs)
    (hparts : ∀ v ∈ vs, ∀ u ∈ d.parts v, u ∈ vs)
    (hshared : ∀ kind id, .shared kind id ∈ vs →
      ∃ body, d.bodies[id]? = some body ∧ body.container? = some kind) : d.WellFormed := by
  intro kind id hr
  apply hshared
  generalize Value.shared kind id = v at hr
  induction hr with
  | refl => exact hroot
  | tail _ hold ih => exact hparts _ ih _ hold

/-- A mapping that is the value of two entries, and a list that holds itself behind it. -/
def sharedAndCyclic : Document where
  bodies := #[.dict [(.text "gain", .int 2)], .list [.int 1, .shared .list 1]]
  root := .dict [(.text "a", .shared .dict 0), (.text "b", .shared .dict 0),
    (.text "items", .shared .list 1)]

theorem conversion_outcome_cyclic :
    sharedAndCyclic.WellFormed ∧ sharedAndCyclic.FirstFault (.selfReferencing .list) ∧
      ¬ sharedAndCyclic.Acceptable := by
  have wf : sharedAndCyclic.WellFormed := by
    apply wellFormed_of_closed [sharedAndCyclic.root, .shared .dict 0,
      .shared .list 1, .int 1, .int 2]
    · exact List.mem_cons_self
    · simp [Document.parts, Document.body, Value.parts, sharedAndCyclic]
    · intro kind id hmem
      have hcases : (kind = .dict ∧ id = 0) ∨ (kind = .list ∧ id = 1) := by
        simpa [sharedAndCyclic] using hmem
      rcases hcases with ⟨rfl, rfl⟩ | ⟨rfl, rfl⟩
      · exact ⟨_, rfl, rfl⟩
      · exact ⟨_, rfl, rfl⟩
  obtain ⟨-, hok, herror, -⟩ := conversion_outcome wf
  have hresult : sharedAndCyclic.toTree = .error (.selfReferencing .list) := by rfl
  refine ⟨wf, (herror _).mp hresult, ?_⟩
  rw [← hok, hresult]
  nofun

/-- A whole number of too many digits has no text, however long a key may be. -/
theorem asText_tooManyDigits {n : Nat} (h : 10 ^ maxDigits ≤ n) :
    (Value.int n).asText = .error .tooManyDigits := by
  have hdigits : maxDigits < Text.decimalLength n := (Text.lt_decimalLength_iff (by decide)).mpr h
  show intText n = _
  rw [intText, Int.natAbs_natCast, if_pos hdigits]

/-- The key 10 ^ 4300 is far longer than a key may be, and yet the error is not that of an exceeded
limit. -/
theorem conversion_hugeKey :
    (ofValue (.dict [(.int (10 ^ maxDigits : Nat), .int 1)])).toTree =
      .error (.text .tooManyDigits) ∧
      (Error.text .tooManyDigits).category ≠ .failure .limitExceeded := by
  have hkey : Tree.levelKey (.int (10 ^ maxDigits : Nat)) = .error (.text .tooManyDigits) := by
    rw [Tree.levelKey, asText_tooManyDigits (Nat.le_refl _)]
  refine ⟨?_, nofun⟩
  rw [toTree, ofValue]
  simp only [Tree.convert, Tree.convertEntries, hkey]
  rfl

end Document

end Grove
