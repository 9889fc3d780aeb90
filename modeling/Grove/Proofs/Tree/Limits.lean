import Grove.Proofs.Result
import Grove.Proofs.Tree.Entries
import Grove.Registry
import Grove.Store.Write

/-!
# Trees within the limits

A tree is within the limits if its texts and keys are not too long and no level tells a key twice.
Every tree that is made from plain values, from content or from a document is.
-/
namespace Grove

namespace Tree

mutual

/-- Texts and keys are short enough, and no level has a key twice. -/
def Fits : Tree → Prop
  | .number _ => True
  | .string s => s.length ≤ maxStringLength
  | .boolean _ => True
  | .list items => AllFit items
  | .level entries => (Entries.keys entries).Nodup ∧ EntriesFit entries

def AllFit : List Tree → Prop
  | [] => True
  | t :: ts => t.Fits ∧ AllFit ts

def EntriesFit : List (Text × Tree) → Prop
  | [] => True
  | (k, t) :: es => (k.length ≤ maxPathLength ∧ t.Fits) ∧ EntriesFit es

end

theorem allFit_iff {ts : List Tree} : AllFit ts ↔ ∀ t ∈ ts, t.Fits := by
  induction ts with
  | nil => simp [AllFit]
  | cons t ts ih => simp [AllFit, ih]

theorem entriesFit_iff {es : List (Text × Tree)} :
    EntriesFit es ↔ ∀ e ∈ es, e.1.length ≤ maxPathLength ∧ e.2.Fits := by
  induction es with
  | nil => simp [EntriesFit]
  | cons e es ih =>
    obtain ⟨k, t⟩ := e
    rw [EntriesFit, ih, List.forall_mem_cons]

theorem fits_emptyLevel : (Tree.level []).Fits :=
  ⟨List.nodup_nil, trivial⟩

theorem length_cutString (s : Text) : (cutString s).length ≤ maxStringLength := by
  rw [cutString, Text.length_ofList]
  exact List.length_take_le _ _

theorem fits_ofReal {x : Except RangeFault Binary64} {t : Tree}
    (h : ofReal x = .ok t) : t.Fits := by
  cases x with
  | error fault => cases h
  | ok x => cases h; trivial

theorem length_levelKey {key : Value} {name : Text} (h : levelKey key = .ok name) :
    name.length ≤ maxPathLength := by
  unfold levelKey at h
  split at h
  · cases h
  · split at h
    · cases h
    · next hlen => cases h; exact Nat.le_of_not_lt hlen

theorem entriesFit_put {es : List (Text × Tree)} {name : Text} {t : Tree} (hes : EntriesFit es)
    (hname : name.length ≤ maxPathLength) (ht : t.Fits) : EntriesFit (Entries.put name t es) := by
  rw [entriesFit_iff] at hes ⊢
  intro e he
  rcases Entries.mem_of_mem_put he with rfl | he
  · exact ⟨hname, ht⟩
  · exact hes e he

section

variable {follow : Container → Nat → Except Error Tree}

mutual

theorem fits_convert (sound : ∀ kind id t, follow kind id = .ok t → t.Fits)
    {t : Tree} : (v : Value) →
    convert follow v = .ok t → t.Fits
  | .boolean b => by intro h; cases h; trivial
  | .text s => by intro h; cases h; exact length_cutString s
  | .list items | .tuple items => by
    intro h
    obtain ⟨ts, hts, h⟩ := ok_of_bind h
    cases h
    exact allFit_convertItems sound items hts
  | .dict entries => by
    intro h
    obtain ⟨es, hes, h⟩ := ok_of_bind h
    cases h
    exact fits_convertEntries sound entries fits_emptyLevel hes
  | .shared kind id => by
    intro h
    exact sound kind id t h
  | .int _ | .fraction .. | .float _ => by
    intro h
    simp only [convert, Value.real?] at h
    exact fits_ofReal h
  | .null | .decimal _ | .imaginary _ | .bytes _ | .date .. | .moment _ | .set | .object _ | .key _
  | .index _ | .path _ => by
    intro h
    cases h

theorem allFit_convertItems (sound : ∀ kind id t, follow kind id = .ok t → t.Fits)
    {ts : List Tree} :
    (vs : List Value) → convertItems follow vs = .ok ts → AllFit ts
  | [] => by intro h; cases h; trivial
  | v :: vs => by
    intro h
    by_cases hv : v = .null
    · subst hv
      exact allFit_convertItems sound vs h
    · rw [convertItems] at h
      · obtain ⟨t, ht, h⟩ := ok_of_bind h
        obtain ⟨us, hus, h⟩ := ok_of_bind h
        cases h
        exact ⟨fits_convert sound v ht, allFit_convertItems sound vs hus⟩
      · exact hv

theorem fits_convertEntries (sound : ∀ kind id t, follow kind id = .ok t → t.Fits)
    {level es : List (Text × Tree)} : (vs : List (Value × Value)) →
    (Tree.level level).Fits → convertEntries follow level vs = .ok es → (Tree.level es).Fits
  | [] => by intro hlevel h; cases h; exact hlevel
  | (k, v) :: vs => by
    intro hlevel h
    by_cases hv : v = .null
    · subst hv
      obtain ⟨name, -, h⟩ := ok_of_bind h
      exact fits_convertEntries sound vs hlevel h
    · rw [convertEntries] at h
      · obtain ⟨name, hname, h⟩ := ok_of_bind h
        obtain ⟨t, ht, h⟩ := ok_of_bind h
        refine fits_convertEntries sound vs ⟨Entries.nodup_keys_put hlevel.1 t, ?_⟩ h
        exact entriesFit_put hlevel.2 (length_levelKey hname) (fits_convert sound v ht)
      · exact hv

end

end

theorem fits_ofNumber {v : Value} {t : Tree} (h : ofNumber v = .ok t) : t.Fits := by
  unfold ofNumber at h
  split at h
  · exact fits_ofReal h
  · cases h

theorem fits_ofString {v : Value} {t : Tree} (h : ofString v = .ok t) : t.Fits := by
  unfold ofString at h
  split at h
  · split at h
    · cases h
    · next hlen => cases h; exact Nat.le_of_not_lt hlen
  · cases h

theorem fits_ofBoolean {v : Value} {t : Tree} (h : ofBoolean v = .ok t) : t.Fits := by
  unfold ofBoolean at h
  split at h
  · cases h; trivial
  · cases h

end Tree

namespace Document

theorem fits_sharedTree (bodies : Array Value) (fuel : Nat) (active : List Nat) (kind : Container)
    (id : Nat) (t : Tree) (h : sharedTree bodies fuel active kind id = .ok t) : t.Fits := by
  induction fuel generalizing active kind id t with
  | zero => cases h
  | succ fuel ih =>
    rw [sharedTree] at h
    split at h
    · cases h
    · split at h
      · exact Tree.fits_convert (ih _) _ h
      · cases h

theorem fits_toTree {d : Document} {t : Tree} (h : d.toTree = .ok t) : t.Fits :=
  Tree.fits_convert (fits_sharedTree _ _ _) _ h

end Document

theorem Tree.fits_ofSetting {d : Document} {t : Tree} (h : ofSetting d = .ok t) : t.Fits := by
  unfold ofSetting at h
  split at h
  · cases h; trivial
  · exact fits_ofString h
  · split at h
    · exact fits_ofNumber h
    · exact Document.fits_toTree h

namespace Backend

/-- Whatever a format reads, what is built from it is within the limits. -/
theorem fits_parse {b : Backend} {text : Text} {t : Tree} (h : b.parse text = .ok t) : t.Fits := by
  unfold parse at h
  split at h
  · next u hu =>
    cases h
    obtain ⟨d, -, hd⟩ := ok_of_bind hu
    unfold build at hd
    split at hd
    · cases hd; exact Tree.fits_emptyLevel
    · exact Document.fits_toTree hd
  · split at h <;> cases h

theorem fits_parseStorage {b : Backend} {host : Host} {config : StorageConfig} {storage : Text}
    {t : Tree} (h : b.parseStorage host config storage = .ok t) : t.Fits := by
  obtain ⟨found, -, h⟩ := ok_of_bind h
  cases found with
  | none => obtain ⟨l, -, h⟩ := ok_of_bind h; cases h
  | some l =>
    obtain ⟨text, -, h⟩ := ok_of_bind h
    exact fits_parse h

end Backend

namespace Registry

variable {r : Registry} {t : Tree}

theorem ok_of_settle {result : Except Error Tree} (h : r.settle result = .ok (some t)) :
    result = .ok t := by
  unfold settle at h
  split at h
  · cases h; rfl
  · split at h <;> cases h

theorem fits_parseString {text : Text} {choice : BackendChoice}
    (h : r.parseString text choice = .ok t) :
    t.Fits := by
  unfold parseString at h
  split at h <;> obtain ⟨b, -, h⟩ := ok_of_bind h <;> exact Backend.fits_parse h

theorem fits_loadString {v : Value} {choice : BackendChoice}
    (h : r.loadString v choice = .ok (some t)) :
    t.Fits := by
  have h := ok_of_settle h
  split at h
  · exact fits_parseString h
  · cases h

theorem fits_loadStorage {host : Host} {config : StorageConfig} {storage : Text}
    {choice : BackendChoice}
    (h : r.loadStorage host config storage choice = .ok (some t)) : t.Fits := by
  have h := ok_of_settle h
  unfold parseStorage at h
  split at h
  · cases h
  · split at h <;> obtain ⟨b, -, h⟩ := ok_of_bind h <;> exact Backend.fits_parseStorage h

end Registry

end Grove
