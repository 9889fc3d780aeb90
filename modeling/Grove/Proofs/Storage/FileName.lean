import Mathlib.Data.List.Basic
import Grove.Storage.FileName

/-!
# Names as texts

The text of a name has the bytes of the name, whether or not these are UTF-8. So a name that is read
from a directory leads back to its entry, and its text has neither a slash nor a null character.
-/
namespace Grove

namespace Text

variable {escaped : Bool} {c : CodePoint} {cs : List CodePoint} {bytes : List UInt8} {i : Nat}

/-- The bytes of a code point are among the bytes of the text. -/
theorem subset_of_encodeUtf8From (h : encodeUtf8From escaped i cs = .ok bytes) (hc : c ∈ cs) :
    ∃ own, codePointBytes? escaped c = some own ∧ own ⊆ bytes := by
  induction cs generalizing i bytes with
  | nil => cases hc
  | cons d cs ih =>
    rw [encodeUtf8From] at h
    split at h
    · next own hown =>
      cases hrest : encodeUtf8From escaped (i + 1) cs with
      | error fault =>
        rw [hrest] at h
        cases h
      | ok rest =>
        rw [hrest] at h
        cases h
        rcases List.mem_cons.mp hc with rfl | hc
        · exact ⟨own, hown, List.subset_append_left own rest⟩
        · obtain ⟨own', hown', hsub⟩ := ih hrest hc
          exact ⟨own', hown', List.subset_append_of_subset_right own hsub⟩
    · cases h

/-- Only faults tell where in a text the code points stand. -/
theorem encodeUtf8From_of_eq_ok (h : encodeUtf8From escaped i cs = .ok bytes) (j : Nat) :
    encodeUtf8From escaped j cs = .ok bytes := by
  induction cs generalizing i j bytes with
  | nil => exact h
  | cons c cs ih =>
    rw [encodeUtf8From] at h ⊢
    split at h
    · cases hrest : encodeUtf8From escaped (i + 1) cs with
      | error fault =>
        rw [hrest] at h
        cases h
      | ok rest =>
        rw [hrest] at h
        rw [ih hrest]
        exact h
    · cases h

theorem encodeUtf8From_append {ds : List CodePoint} {more : List UInt8} {j : Nat}
    (hc : encodeUtf8From escaped i cs = .ok bytes) (hd : encodeUtf8From escaped j ds = .ok more) :
    encodeUtf8From escaped i (cs ++ ds) = .ok (bytes ++ more) := by
  induction cs generalizing i bytes with
  | nil =>
    cases hc
    exact encodeUtf8From_of_eq_ok hd i
  | cons c cs ih =>
    rw [List.cons_append, encodeUtf8From]
    rw [encodeUtf8From] at hc
    split at hc
    · cases hrest : encodeUtf8From escaped (i + 1) cs with
      | error fault =>
        rw [hrest] at hc
        cases hc
      | ok rest =>
        rw [hrest] at hc
        cases hc
        rw [ih hrest, List.append_assoc]
        rfl
    · cases hc

theorem fileBytes_eq_ok_iff {s : Text} :
    s.fileBytes = .ok bytes ↔ s.encodeUtf8 true = .ok bytes ∧ 0 ∉ bytes := by
  unfold fileBytes
  cases s.encodeUtf8 true with
  | error fault => simp
  | ok own =>
    by_cases hnull : 0 ∈ own
    · simp only [List.contains_iff_mem.mpr hnull, if_true, reduceCtorEq, Except.ok.injEq,
        false_iff, not_and]
      rintro rfl
      simpa using hnull
    · have hcontains : own.contains 0 = false := by simpa using hnull
      simp only [hcontains, Bool.false_eq_true, if_false, Except.ok.injEq, iff_self_and]
      rintro rfl
      exact hnull

theorem fileBytes_append {s t : Text} {more : List UInt8} (hs : s.fileBytes = .ok bytes)
    (ht : t.fileBytes = .ok more) : (s ++ t).fileBytes = .ok (bytes ++ more) := by
  rw [fileBytes_eq_ok_iff] at hs ht ⊢
  refine ⟨encodeUtf8From_append hs.1 ht.1, ?_⟩
  rw [List.mem_append, not_or]
  exact ⟨hs.2, ht.2⟩

end Text

namespace FileName

/-- A byte that is no character of its own stands as a surrogate for it. -/
theorem codePointBytes?_escape {b : UInt8} (h : 0x80 ≤ b.toNat) :
    Text.codePointBytes? true (escape b) = some [b] := by
  have hlt : b.toNat < 256 := b.toNat_lt
  have hrange : 0x480 ≤ 0x400 + b.toNat ∧ 0x400 + b.toNat < 0x500 := by omega
  simp [Text.codePointBytes?, escape, hrange]

theorem utf8EncodeChar_of_lt {b : UInt8} (h : b.toNat < 0x80) :
    String.utf8EncodeChar (Char.ofNat b.toNat) = [b] := by
  have hvalid : b.toNat.isValidChar := Or.inl (by omega)
  have hval : (Char.ofNat b.toNat).toNat = b.toNat := by
    rw [Char.ofNat, dif_pos hvalid]
    rfl
  rw [String.utf8EncodeChar_eq_singleton (Char.utf8Size_eq_one_iff.mpr ?small)]
  case small =>
    rw [UInt32.le_iff_toNat_le]
    exact Nat.le_trans (Nat.le_of_eq hval) (Nat.le_of_lt_succ h)
  congr 1
  apply UInt8.toNat_inj.mp
  show (Char.ofNat b.toNat).toNat % 256 = b.toNat
  rw [hval, Nat.mod_eq_of_lt b.toNat_lt]

/-- A byte that is not the first one of a character is not a character of its own. -/
theorem le_of_utf8DecodeChar?_eq_none {b : UInt8} {bytes : List UInt8}
    (h : (b :: bytes).toByteArray.utf8DecodeChar? 0 = none) : 0x80 ≤ b.toNat := by
  by_contra hsmall
  have hsplit : (b :: bytes).toByteArray =
      (String.utf8EncodeChar (Char.ofNat b.toNat)).toByteArray ++ bytes.toByteArray := by
    rw [utf8EncodeChar_of_lt (Nat.lt_of_not_le hsmall), ← List.toByteArray_append]
    rfl
  rw [hsplit, ByteArray.utf8DecodeChar?_utf8EncodeChar_append] at h
  cases h

/-- The bytes of a character that stands first. -/
theorem eq_append_of_utf8DecodeChar?_eq_some {c : Char} {bytes : List UInt8}
    (h : bytes.toByteArray.utf8DecodeChar? 0 = some c) :
    ∃ more, bytes = String.utf8EncodeChar c ++ more := by
  obtain ⟨more, hmore⟩ := ByteArray.exists_of_utf8DecodeChar?_eq_some h
  have hlist : more = more.data.toList.toByteArray :=
    ByteArray.ext (by simp [List.data_toByteArray])
  rw [hlist, ← List.toByteArray_append, List.toByteArray_inj] at hmore
  exact ⟨more.data.toList, hmore⟩

/-- What is read from bytes, written back, gives these bytes. -/
theorem encodeUtf8From_read (used i : Nat) (bytes : List UInt8) :
    Text.encodeUtf8From true i (read used bytes) = .ok (bytes.drop used) := by
  induction bytes generalizing used i with
  | nil => cases used <;> rfl
  | cons b bytes ih =>
    cases used with
    | succ used => exact ih used i
    | zero =>
      rw [read]
      split
      · next c hc =>
        obtain ⟨more, hmore⟩ := eq_append_of_utf8DecodeChar?_eq_some hc
        have hbehind : bytes.drop (c.utf8Size - 1) = more := by
          have hdrop := congrArg (List.drop c.utf8Size) hmore
          rw [← String.length_utf8EncodeChar, List.drop_left, String.length_utf8EncodeChar] at hdrop
          rw [← hdrop, ← Nat.succ_pred_eq_of_pos c.utf8Size_pos, List.drop_succ_cons]
          rfl
        rw [Text.encodeUtf8From, Text.codePointBytes?, ih, hbehind, List.drop_zero, hmore]
        rfl
      · next hnone =>
        rw [Text.encodeUtf8From, codePointBytes?_escape (le_of_utf8DecodeChar?_eq_none hnone), ih]
        rfl

variable (n : FileName)

theorem notMem_bytes {byte : UInt8} (h : byte = 0 ∨ byte = 0x2F) : byte ∉ n.bytes := by
  have hvalid := n.valid
  simp only [canName, Bool.and_eq_true, Bool.not_eq_true', List.contains_eq_mem,
    decide_eq_false_iff_not] at hvalid
  rcases h with rfl | rfl
  · exact hvalid.1.2
  · exact hvalid.1.1.2

theorem encodeUtf8_text : n.text.encodeUtf8 true = .ok n.bytes :=
  encodeUtf8From_read 0 0 n.bytes

/-- The text of a name leads back to the name. -/
theorem fileBytes_text : n.text.fileBytes = .ok n.bytes :=
  Text.fileBytes_eq_ok_iff.mpr ⟨n.encodeUtf8_text, n.notMem_bytes (Or.inl rfl)⟩

theorem ofBytes?_bytes : ofBytes? n.bytes = some n := by
  rw [ofBytes?, dif_pos n.valid]

theorem bytes_ne_nil : n.bytes ≠ [] := by
  intro hempty
  have hvalid := n.valid
  simp [canName, hempty] at hvalid

theorem slash_notMem_text : ↑ '/' ∉ n.text.toList := by
  intro h
  obtain ⟨own, hown, hsub⟩ := Text.subset_of_encodeUtf8From n.encodeUtf8_text h
  have hslash : own = [0x2F] := (Option.some.inj hown).symm
  exact n.notMem_bytes (Or.inr rfl) (hsub (hslash ▸ List.mem_singleton_self _))

end FileName

end Grove
