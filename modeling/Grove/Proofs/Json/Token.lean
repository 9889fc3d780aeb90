import Grove.Json.Writer
import Grove.Json.Token
import Grove.Proofs.Number.Numeral
import Grove.Proofs.Result

/-!
# Tokens of what was written

What the writer puts down for one character, one text or one number is cut into one token again,
whatever follows a text, and in front of a separator, a closing bracket or the end of the line after
a number.
-/
namespace Grove.Json

/-- The beginning `cs` of a text that goes on with `rest` is cut into the given tokens. -/
def Lexes (cs rest : List CodePoint) (tokens : List Token) : Prop :=
  ∀ p, ∃ ls q, lexFrom 0 p (cs ++ rest) = ls ++ lexFrom 0 q rest ∧ ls.map (·.token) = tokens

theorem Lexes.append {cs ds rest : List CodePoint} {ts us : List Token}
    (h : Lexes cs (ds ++ rest) ts) (h' : Lexes ds rest us) : Lexes (cs ++ ds) rest (ts ++ us) := by
  intro p
  obtain ⟨ls, q, hls, hts⟩ := h p
  obtain ⟨ms, r, hms, hus⟩ := h' q
  refine ⟨ls ++ ms, r, ?_, ?_⟩
  · rw [List.append_assoc, hls, hms, List.append_assoc]
  · rw [List.map_append, hts, hus]

theorem lexFrom_skip (cs rest : List CodePoint) (p : Place) :
    ∃ q, lexFrom cs.length p (cs ++ rest) = lexFrom 0 q rest := by
  induction cs generalizing p with
  | nil => exact ⟨p, rfl⟩
  | cons c cs ih => exact ih (p.after c)

theorem lexes_of_readToken {c : CodePoint} {cs rest : List CodePoint} {t : Token}
    (hspace : isSpace c = false) (h : ∀ p, readToken p c (cs ++ rest) = (t, cs.length)) :
    Lexes (c :: cs) rest [t] := by
  intro p
  obtain ⟨q, hq⟩ := lexFrom_skip cs rest (p.after c)
  refine ⟨[⟨t, p⟩], q, ?_, rfl⟩
  rw [List.cons_append, lexFrom, hspace, if_neg Bool.false_ne_true, h p]
  simp only [hq, List.singleton_append]

theorem lexes_spaces {cs : List CodePoint} (h : ∀ c ∈ cs, isSpace c = true)
    (rest : List CodePoint) :
    Lexes cs rest [] := by
  intro p
  induction cs generalizing p with
  | nil => exact ⟨[], p, rfl, rfl⟩
  | cons c cs ih =>
    obtain ⟨ls, q, hls, htokens⟩ := ih (fun b hb => h b (List.mem_cons_of_mem _ hb)) (p.after c)
    refine ⟨ls, q, ?_, htokens⟩
    rw [List.cons_append, lexFrom, if_pos (h c List.mem_cons_self), hls]

theorem lexes_mark {c : CodePoint} {t : Token} (hspace : isSpace c = false)
    (h : ∀ p cs, readToken p c cs = (t, 0)) (rest : List CodePoint) : Lexes [c] rest [t] :=
  lexes_of_readToken hspace fun p => h p rest

theorem lexes_openBrace (rest : List CodePoint) :
    Lexes [CodePoint.scalar '\x7b'] rest [.openBrace] :=
  lexes_mark (by decide) (fun _ _ => rfl) rest

theorem lexes_closeBrace (rest : List CodePoint) :
    Lexes [CodePoint.scalar '\x7d'] rest [.closeBrace] :=
  lexes_mark (by decide) (fun _ _ => rfl) rest

theorem lexes_openBracket (rest : List CodePoint) :
    Lexes [CodePoint.scalar '['] rest [.openBracket] :=
  lexes_mark (by decide) (fun _ _ => rfl) rest

theorem lexes_closeBracket (rest : List CodePoint) :
    Lexes [CodePoint.scalar ']'] rest [.closeBracket] :=
  lexes_mark (by decide) (fun _ _ => rfl) rest

theorem lexes_comma (rest : List CodePoint) : Lexes [CodePoint.scalar ','] rest [.comma] :=
  lexes_mark (by decide) (fun _ _ => rfl) rest

theorem lexes_colon (rest : List CodePoint) : Lexes [CodePoint.scalar ':', ' '] rest [.colon] :=
  (lexes_mark (by decide) (fun _ _ => rfl) _ : Lexes [CodePoint.scalar ':']
    ([CodePoint.scalar ' '] ++ rest) [.colon]).append
    (lexes_spaces (by simp [isSpace]) rest)

/-! ## Texts -/

theorem joinUnits_inl {n : Nat} (h : n < 0xD800) (units : List (Nat ⊕ CodePoint)) :
    joinUnits (.inl n :: units) = CodePoint.ofNat n :: joinUnits units := by
  have hhigh : isHighUnit n = false := by
    simp only [isHighUnit, Bool.and_eq_false_iff, decide_eq_false_iff_not]
    omega
  cases units with
  | nil => simp [joinUnits]
  | cons unit units => cases unit <;> simp [joinUnits, hhigh]

theorem paddedDigits_control : ∀ n < 32,
    Text.paddedDigits 16 4 n = [CodePoint.scalar '0', '0', (n / 16).digitChar, (n % 16).digitChar] ∧
      Text.hexValue? (n / 16).digitChar = some (n / 16) ∧
      Text.hexValue? (n % 16).digitChar = some (n % 16) := by
  decide

section

variable {start p : Place} {cs : List CodePoint} {units : List (Nat ⊕ CodePoint)} {n : Nat}

theorem readString_simple {b c : CodePoint} (hb : b ≠ 'u') (hc : simpleEscape? b = some c)
    (h : readString start .plain ((p.after '\\').after b) cs = .ok (units, n)) :
    readString start .plain p (↑ '\\' :: b :: cs) = .ok (.inr c :: units, n + 2) := by
  rw [readString, if_neg (by decide), if_pos rfl, readString, if_neg hb, hc]
  simp only [h]
  rfl

theorem readString_control (start p : Place) {c : CodePoint} (hc : c.toNat < 32) (hcs : cs ≠ []) :
    ∃ q, ∀ units n, readString start .plain q cs = .ok (units, n) →
      readString start .plain p (↑ '\\' :: ↑ 'u' :: Text.paddedDigits 16 4 c.toNat ++ cs) =
        .ok (.inl c.toNat :: units, n + 6) := by
  obtain ⟨hdigits, hhigh, hlow⟩ := paddedDigits_control c.toNat hc
  have hsum : c.toNat / 16 * 16 + c.toNat % 16 = c.toNat := Nat.div_add_mod' c.toNat 16
  have hzero : Text.hexValue? '0' = some 0 := by decide
  refine ⟨((((((p.after '\\').after 'u').after '0').after '0').after (c.toNat / 16).digitChar).after
    (c.toNat % 16).digitChar), fun units n h => ?_⟩
  rw [hdigits, List.cons_append, readString, if_neg (by decide), if_pos rfl,
    List.cons_append, readString, if_pos rfl]
  simp only [List.cons_append, List.nil_append, readString, hzero, hhigh, hlow,
    List.isEmpty_eq_false_iff.mpr hcs, Nat.zero_mul, Nat.zero_add, hsum, h]
  rfl

theorem readString_plain {c : CodePoint} (hquote : c ≠ '"') (hback : c ≠ '\\') (hc : ¬ c.toNat < 32)
    (h : readString start .plain (p.after c) cs = .ok (units, n)) :
    readString start .plain p (c :: cs) = .ok (.inr c :: units, n + 1) := by
  rw [readString, if_neg hquote, if_neg hback, if_neg hc, h]
  rfl

end

/-- A character is read back from what is written for it inside a text. -/
theorem readString_escapeChar (start p : Place) (c : CodePoint)
    {cs : List CodePoint} (hcs : cs ≠ []) :
    ∃ unit q, (∀ units, joinUnits (unit :: units) = c :: joinUnits units) ∧
      ∀ units n, readString start .plain q cs = .ok (units, n) →
        readString start .plain p (escapeChar c ++ cs) =
          .ok (unit :: units, n + (escapeChar c).length) := by
  have simple {b : CodePoint} (hb : b ≠ 'u') (hc : simpleEscape? b = some c)
      (hesc : escapeChar c = [CodePoint.scalar '\\', b]) :
      ∃ unit q, (∀ units, joinUnits (unit :: units) = c :: joinUnits units) ∧
        ∀ units n, readString start .plain q cs = .ok (units, n) →
          readString start .plain p (escapeChar c ++ cs) =
              .ok (unit :: units, n + (escapeChar c).length) := by
    refine ⟨.inr c, (p.after '\\').after b, fun _ => rfl, fun units n h => ?_⟩
    rw [hesc]
    exact readString_simple hb hc h
  by_cases hquote : c = '"'
  · subst hquote; exact simple (by decide) rfl rfl
  by_cases hback : c = '\\'
  · subst hback; exact simple (by decide) rfl rfl
  by_cases hline : c = '\n'
  · subst hline; exact simple (b := 'n') (by decide) rfl rfl
  by_cases hreturn : c = '\r'
  · subst hreturn; exact simple (b := 'r') (by decide) rfl rfl
  by_cases htab : c = '\t'
  · subst htab; exact simple (b := 't') (by decide) rfl rfl
  by_cases hbackspace : c = '\x08'
  · subst hbackspace; exact simple (b := 'b') (by decide) rfl rfl
  by_cases hfeed : c = '\x0c'
  · subst hfeed; exact simple (b := 'f') (by decide) rfl rfl
  by_cases hcontrol : c.toNat < 32
  · have hesc : escapeChar c = ↑ '\\' :: ↑ 'u' :: Text.paddedDigits 16 4 c.toNat := by
      simp only [escapeChar, if_neg hquote, if_neg hback, if_neg hline, if_neg hreturn, if_neg htab,
        if_neg hbackspace, if_neg hfeed, if_pos hcontrol]
    obtain ⟨q, hq⟩ := readString_control start p hcontrol hcs
    refine ⟨.inl c.toNat, q, fun units => ?_, fun units n h => ?_⟩
    · rw [joinUnits_inl (by omega), CodePoint.ofNat_toNat]
    · rw [hesc, hq units n h, (paddedDigits_control c.toNat hcontrol).1]
      rfl
  · have hesc : escapeChar c = [c] := by
      simp only [escapeChar, if_neg hquote, if_neg hback, if_neg hline, if_neg hreturn, if_neg htab,
        if_neg hbackspace, if_neg hfeed, if_neg hcontrol]
    refine ⟨.inr c, p.after c, fun _ => rfl, fun units n h => ?_⟩
    rw [hesc]
    exact readString_plain hquote hback hcontrol h

/-- A text is read back from its escaped form up to the closing quote. -/
theorem readString_flatMap (start p : Place) (cs rest : List CodePoint) :
    ∃ units, joinUnits units = cs ∧
      readString start .plain p (cs.flatMap escapeChar ++ ↑ '"' :: rest) =
        .ok (units, (cs.flatMap escapeChar).length + 1) := by
  induction cs generalizing p with
  | nil => exact ⟨[], rfl, by rw [List.flatMap_nil, List.nil_append, readString, if_pos rfl]; rfl⟩
  | cons c cs ih =>
    obtain ⟨unit, q, hunit, hstep⟩ :=
      readString_escapeChar start p c (show cs.flatMap escapeChar ++ ↑ '"' :: rest ≠ [] by simp)
    obtain ⟨units, hunits, hrest⟩ := ih q
    refine ⟨unit :: units, by rw [hunit, hunits], ?_⟩
    rw [List.flatMap_cons, List.append_assoc, hstep units _ hrest, List.length_append]
    congr 2
    omega

theorem lexes_stringChars (s : Text) (rest : List CodePoint) :
    Lexes (stringChars s) rest [.string s] := by
  refine lexes_of_readToken (by decide) fun p => ?_
  obtain ⟨units, hunits, hread⟩ := readString_flatMap p (p.after '"') s.toList rest
  show readToken p '"' (s.toList.flatMap escapeChar ++ [CodePoint.scalar '"'] ++ rest) =
    (.string s, (s.toList.flatMap escapeChar ++ [CodePoint.scalar '"']).length)
  rw [List.append_assoc, List.singleton_append]
  simp only [readToken, hread, hunits, Text.ofList_toList, List.length_append,
    List.length_singleton]
  rfl

end Grove.Json
