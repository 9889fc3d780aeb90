import Grove.Json.Reader
import Grove.Proofs.Document.Grounding
import Grove.Proofs.Tree.Entries

/-!
# JSON is read into grounded values

A text of JSON has no references, and its keys are texts. Whatever has been read of the containers
that are still open stays grounded with every token.
-/
namespace Grove.Json

/-! ## Tokens -/

/-- A value that is a token by itself is of a simple type. -/
def Token.IsSimple (t : Token) : Prop :=
  ∀ v, t = .fixed v → v.IsSimple

theorem isSimple_readNumber {cs : List CodePoint} {read : Token × Nat}
    (h : readNumber cs = some read) :
    read.1.IsSimple := by
  unfold readNumber at h
  split at h
  extract_lets whole at h
  split at h
  · cases h
  · split at h
    · split at h
      · cases h
        exact nofun
      · cases h
        rintro v ⟨⟩
        trivial
    · cases h
      rintro v ⟨⟩
      trivial

theorem isSimple_of_mem_words {word : List CodePoint} {v : Value}
    (h : (word, v) ∈ words) : v.IsSimple := by
  simp only [words, List.mem_cons, List.not_mem_nil, or_false, Prod.mk.injEq] at h
  rcases h with ⟨-, rfl⟩ | ⟨-, rfl⟩ | ⟨-, rfl⟩ | ⟨-, rfl⟩ | ⟨-, rfl⟩ | ⟨-, rfl⟩ <;> trivial

theorem isSimple_readToken (p : Place) (c : CodePoint) (cs : List CodePoint) :
    (readToken p c cs).1.IsSimple := by
  intro v h
  unfold readToken at h
  iterate 6
    split at h
    · cases h
  split at h
  · split at h <;> cases h
  · split at h
    · next word w hfind =>
      cases h
      exact isSimple_of_mem_words (List.mem_of_find?_eq_some hfind)
    · split at h
      · next token n hnumber => exact isSimple_readNumber hnumber v h
      · cases h

theorem isSimple_of_mem_lexFrom {skip : Nat} {p : Place} {cs : List CodePoint} {l : Lexeme}
    (h : l ∈ lexFrom skip p cs) :
    l.token.IsSimple := by
  induction cs generalizing skip p with
  | nil =>
    rw [lexFrom, List.mem_singleton] at h
    rw [h]
    exact nofun
  | cons c cs ih =>
    cases skip with
    | succ skip => exact ih h
    | zero =>
      rw [lexFrom] at h
      split at h
      · exact ih h
      · rcases List.mem_cons.mp h with rfl | h
        · exact isSimple_readToken p c cs
        · exact ih h


/-! ## Reading -/

section

variable (known : Container → Nat → Prop)

def GroundedEntries (entries : List (Text × Value)) : Prop :=
  ∀ e ∈ entries, e.2.Grounded known

def Frame.Grounded : Frame → Prop
  | .items done => ∀ v ∈ done, v.Grounded known
  | .entries done _ => GroundedEntries known done

def Expected.Grounded : Expected → Prop
  | .firstKey done | .nextKey done | .colon done _ => GroundedEntries known done
  | .finish v => v.Grounded known
  | _ => True

structure Reading.Grounded (r : Reading) : Prop where
  stack : ∀ f ∈ r.stack, f.Grounded known
  expected : r.expected.Grounded known

end

variable {known : Container → Nat → Prop}

theorem GroundedEntries.put {entries : List (Text × Value)}
    (h : GroundedEntries known entries) (key : Text) {v : Value} (hv : v.Grounded known) :
    GroundedEntries known (Entries.put key v entries) := by
  intro e he
  rcases Entries.mem_of_mem_put he with rfl | hmem
  · exact hv
  · exact h e hmem

theorem GroundedEntries.object {entries : List (Text × Value)} (h : GroundedEntries known entries) :
    (object entries).Grounded known := by
  refine Value.grounded_dict fun e he => ?_
  obtain ⟨⟨k, v⟩, hmem, rfl⟩ := List.mem_map.mp he
  exact ⟨Value.IsSimple.worded (v := .text k) trivial, h _ hmem⟩

namespace Reading

theorem grounded_complete {stack : List Frame} (h : ∀ f ∈ stack, f.Grounded known) {v : Value}
    (hv : v.Grounded known) : (complete stack v).Grounded known := by
  cases stack with
  | nil => exact ⟨h, hv⟩
  | cons f rest =>
    obtain ⟨hf, hrest⟩ := List.forall_mem_cons.mp h
    cases f with
    | items done =>
      exact ⟨List.forall_mem_cons.mpr ⟨List.forall_mem_cons.mpr ⟨hv, hf⟩, hrest⟩, trivial⟩
    | entries done key =>
      exact ⟨List.forall_mem_cons.mpr ⟨GroundedEntries.put hf key hv, hrest⟩, trivial⟩

theorem isSimple_wholeValue {negative : Bool} {digits : List CodePoint} {v : Value}
    (h : wholeValue negative digits = .ok v) : v.IsSimple := by
  unfold wholeValue at h
  split at h
  · cases h
  · cases h
    trivial

theorem grounded_value {stack : List Frame} (h : ∀ f ∈ stack, f.Grounded known) {l : Lexeme}
    (hl : l.token.IsSimple) {r : Reading} (hr : Reading.value stack l = .ok r) :
    r.Grounded known := by
  unfold Reading.value at hr
  split at hr
  · split at hr
    · cases hr
    · cases hr
      exact ⟨List.forall_mem_cons.mpr ⟨List.forall_mem_nil _, h⟩, trivial⟩
  · split at hr
    · cases hr
    · cases hr
      exact ⟨h, List.forall_mem_nil _⟩
  · next s _ =>
    cases hr
    exact grounded_complete h (Value.IsSimple.grounded (v := .text s) trivial known)
  · obtain ⟨v, hv, hr⟩ := ok_of_bind hr
    cases hr
    exact grounded_complete h ((isSimple_wholeValue hv).grounded known)
  · next v htoken =>
    cases hr
    exact grounded_complete h ((hl v htoken).grounded known)
  · cases hr
  · cases hr

theorem grounded_key {stack : List Frame} (h : ∀ f ∈ stack, f.Grounded known)
    {done : List (Text × Value)} (hdone : GroundedEntries known done) {l : Lexeme} {r : Reading}
    (hr : Reading.key stack done l = .ok r) :
    r.Grounded known := by
  unfold Reading.key at hr
  split at hr
  · cases hr
    exact ⟨h, hdone⟩
  · cases hr
  · cases hr

/-- One token keeps what has been read grounded. -/
theorem Grounded.next {r r' : Reading} (h : r.Grounded known) {l : Lexeme} (hl : l.token.IsSimple)
    (hr : r.next l = .ok r') : r'.Grounded known := by
  obtain ⟨stack, expected⟩ := r
  obtain ⟨hstack, hexpected⟩ := h
  unfold Reading.next at hr
  dsimp only at hr hstack hexpected
  split at hr
  · exact grounded_value hstack hl hr
  · split at hr
    · cases hr
      exact grounded_complete (List.forall_mem_cons.mp hstack).2
        (Value.grounded_list (List.forall_mem_nil _))
    · exact grounded_value hstack hl hr
  · exact grounded_value hstack hl hr
  · cases hr
    exact grounded_complete hstack (GroundedEntries.object (List.forall_mem_nil _))
  · exact grounded_key hstack hexpected hr
  · exact grounded_key hstack hexpected hr
  · cases hr
    exact ⟨List.forall_mem_cons.mpr ⟨hexpected, hstack⟩, trivial⟩
  · cases hr
  · split at hr
    · cases hr
      exact ⟨hstack, trivial⟩
    · cases hr
      obtain ⟨hdone, hrest⟩ := List.forall_mem_cons.mp hstack
      exact grounded_complete hrest (Value.grounded_list fun v hv =>
        hdone v (List.mem_reverse.mp hv))
    · cases hr
      obtain ⟨hdone, hrest⟩ := List.forall_mem_cons.mp hstack
      exact ⟨hrest, hdone⟩
    · cases hr
      obtain ⟨hdone, hrest⟩ := List.forall_mem_cons.mp hstack
      exact grounded_complete hrest (GroundedEntries.object hdone)
    · cases hr
  · cases hr
    exact ⟨hstack, hexpected⟩
  · cases hr

/-- All tokens do. -/
theorem Grounded.run {r r' : Reading} (h : r.Grounded known) {ls : List Lexeme}
    (hls : ∀ l ∈ ls, l.token.IsSimple) (hr : r.run ls = .ok r') : r'.Grounded known := by
  induction ls generalizing r with
  | nil =>
    cases hr
    exact h
  | cons l ls ih =>
    obtain ⟨hl, hls⟩ := List.forall_mem_cons.mp hls
    obtain ⟨next, hnext, hr⟩ := ok_of_bind hr
    exact ih (h.next hl hnext) hls hr

end Reading

/-- What a text of JSON is read into is grounded, whatever references there are. -/
theorem grounded_read {cs : List CodePoint} {v : Value} (h : read cs = .ok v) :
    v.Grounded known := by
  unfold read at h
  split at h
  · cases h
  · obtain ⟨r, hr, h⟩ := ok_of_bind h
    have start : Reading.Grounded known ⟨[], .value⟩ := ⟨List.forall_mem_nil _, trivial⟩
    have done := start.run (fun _ => isSimple_of_mem_lexFrom) hr
    split at h
    · next result hresult =>
      cases h
      have hfinish := done.expected
      rwa [hresult] at hfinish
    · cases h

end Grove.Json
