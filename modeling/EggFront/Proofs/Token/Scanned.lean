import EggFront.Proofs.Token.Spells

/-!
# The tokens a scan gives

Every token the scanner gives has a lexeme that reads back as the same token
(`Lexeme.WellFormed`): a name is a word that is no keyword, an integer
literal's number needs no clamping, and a string literal is closed with good
escapes. The printer relies on this when it writes a tree's names and
literals back as text.
-/

namespace EggFront

/-- What the scanner guarantees of a lexeme: a name is a word and no keyword, an
integer literal denotes at most `intLimit`, a string literal is closed. -/
def Lexeme.WellFormed : Lexeme → Prop
  | (.ident, x) => isWord x = true ∧ TokenKind.keyword? x = none
  | (.intLit, x) => digitsValue x.toList ≤ intLimit
  | (.stringLit, x) => IsLiteral x
  | _ => True

/-- A closed string literal's body reads the same again, whatever follows it. -/
theorem stringBody_reread (cs r : List Char) (h : (stringBody cs).closed = true) :
    stringBody ((stringBody cs).chars ++ r) =
      ⟨(stringBody cs).chars, r, true, (stringBody cs).bad⟩ := by
  fun_induction stringBody cs with
  | case1 | case2 | case4 | case5 => simp at h
  | case3 => simp [stringBody]
  | case6 c r' hc b ih =>
    simp only [b] at h ih ⊢
    simp [stringBody, ih h]
  | case7 c r' h₁ h₂ h₃ h₄ h₅ b ih =>
    -- the last case of the body: a character that is no escape
    have hc : c ≠ '\\' := by
      intro hc
      cases r' with
      | nil => exact h₃ hc rfl
      | cons d r' => exact h₅ d r' hc rfl
    simp only [b] at h ih ⊢
    simp [stringBody, hc, ih h]

/-- Leading zeros add nothing to a number. -/
theorem digitsValue_dropWhile_zero (ds : List Char) :
    digitsValue (ds.dropWhile (· = '0')) = digitsValue ds := by
  induction ds with
  | nil => rfl
  | cons d ds ih =>
    by_cases hd : d = '0'
    · subst hd
      rw [List.dropWhile_cons_of_pos (by simp), ih]
      rfl
    · rw [List.dropWhile_cons_of_neg (by simpa using hd)]

/-- A lexeme the scanner clamps denotes at most `intLimit`. -/
theorem digitsValue_clampDigits_le (ds : List Char) :
    digitsValue (clampDigits ds).1.toList ≤ intLimit := by
  simp only [clampDigits]
  split
  · decide
  · rename_i hle
    simp only [Bool.or_eq_true, decide_eq_true_eq, not_or, not_lt] at hle
    simpa using hle.2

/-- Every lexeme of a kind with no text of its own to check is well formed. -/
theorem Lexeme.wellFormed_of_kind {k : TokenKind} (x : String) (h₁ : k ≠ .ident) (h₂ : k ≠ .intLit)
    (h₃ : k ≠ .stringLit) : Lexeme.WellFormed (k, x) := by
  cases k <;> simp_all [Lexeme.WellFormed]

/-- A keyword's kind is none of the kinds that carry a text, nor the end marker's. -/
theorem keyword?_kind {x : String} {k : TokenKind} (h : TokenKind.keyword? x = some k) :
    k ≠ .ident ∧ k ≠ .intLit ∧ k ≠ .stringLit ∧ k ≠ .eof := by
  revert h
  unfold TokenKind.keyword?
  split <;> rintro ⟨⟩ <;> decide

/-- Nor is an operator's or a punctuation mark's. -/
theorem operatorPiece_kind {c : Char} {r : List Char} {l : Lexeme} (h : l ∈ (operatorPiece c r).token) :
    l.1 ≠ .ident ∧ l.1 ≠ .intLit ∧ l.1 ≠ .stringLit ∧ l.1 ≠ .eof := by
  have hsingle : ∀ {k}, TokenKind.single? c = some k →
      k ≠ .ident ∧ k ≠ .intLit ∧ k ≠ .stringLit ∧ k ≠ .eof := by
    intro k hk
    revert hk
    unfold TokenKind.single?
    split <;> rintro ⟨⟩ <;> decide
  have hpair : ∀ {d k}, TokenKind.pair? c d = some k →
      k ≠ .ident ∧ k ≠ .intLit ∧ k ≠ .stringLit ∧ k ≠ .eof := by
    intro d k hk
    revert hk
    unfold TokenKind.pair?
    split <;> rintro ⟨⟩ <;> decide
  unfold operatorPiece at h
  repeat' split at h
  all_goals simp only [Option.mem_def, Option.some.injEq, reduceCtorEq] at h
  all_goals
    subst h
    first | exact hsingle ‹_› | exact hpair ‹_›

/-- The token of a piece, if any, is well formed. -/
theorem piece_token_wellFormed (c : Char) (r : List Char) :
    ∀ l ∈ (piece c r).token, Lexeme.WellFormed l := by
  intro l hl
  unfold piece at hl
  split at hl
  · simp at hl
  split at hl
  · simp at hl
  split at hl
  · -- a string literal gives a token only when it is closed with good escapes
    unfold stringPiece at hl
    split at hl
    · rename_i hok
      simp only [Bool.and_eq_true, Bool.not_eq_true'] at hok
      simp only [Option.mem_def, Option.some.injEq] at hl
      subst hl
      exact ⟨(stringBody r).chars, by simp, fun r' => by rw [stringBody_reread r r' hok.1, hok.2]⟩
    · split at hl <;> simp at hl
  split at hl
  · simp only [Option.mem_def, Option.some.injEq] at hl
    subst hl
    exact digitsValue_clampDigits_le _
  split at hl
  · rename_i hw
    simp only [Option.mem_def, Option.some.injEq] at hl
    subst hl
    cases hk : TokenKind.keyword? (String.ofList (c :: List.takeWhile isWordChar r)) with
    | none =>
      refine ⟨?_, hk⟩
      simp only [isWord, String.toList_ofList, hw, Bool.true_and, List.all_takeWhile]
    | some k =>
      obtain ⟨h₁, h₂, h₃, -⟩ := keyword?_kind hk
      exact Lexeme.wellFormed_of_kind _ h₁ h₂ h₃
  · obtain ⟨h₁, h₂, h₃, -⟩ := operatorPiece_kind hl
    exact Lexeme.wellFormed_of_kind _ h₁ h₂ h₃

/-- No piece gives an end marker: the scanner puts its own after the last token. -/
theorem piece_token_unmarked (c : Char) (r : List Char) : ∀ l ∈ (piece c r).token, l.1 ≠ .eof := by
  intro l hl
  unfold piece at hl
  split at hl
  · simp at hl
  split at hl
  · simp at hl
  split at hl
  · unfold stringPiece at hl
    split at hl
    · simp only [Option.mem_def, Option.some.injEq] at hl
      simp [← hl]
    · split at hl <;> simp at hl
  split at hl
  · simp only [Option.mem_def, Option.some.injEq] at hl
    simp [← hl]
  split at hl
  · simp only [Option.mem_def, Option.some.injEq] at hl
    subst hl
    cases hk : TokenKind.keyword? (String.ofList (c :: List.takeWhile isWordChar r)) with
    | none => simp
    | some k => exact (keyword?_kind hk).2.2.2
  · exact (operatorPiece_kind hl).2.2.2

/-- Every token of a scan is well formed. -/
theorem scanFrom_wellFormed (file : String) (cs : List Char) (p : Position) :
    ∀ t ∈ (scanFrom file cs p).tokens, Lexeme.WellFormed t.lexeme := by
  fun_induction scanFrom file cs p with
  | case1 => simp
  | case2 p c r pc q s span ih =>
    intro t ht
    simp only [List.mem_append, Option.mem_toList] at ht
    rcases ht with ht | ht
    · obtain ⟨l, hl, rfl⟩ := Option.map_eq_some_iff.1 ht
      exact piece_token_wellFormed c r l hl
    · exact ih t ht

/-- No token of a scan is an end marker. -/
theorem scanFrom_unmarked (file : String) (cs : List Char) (p : Position) :
    ∀ t ∈ (scanFrom file cs p).tokens, t.kind ≠ .eof := by
  fun_induction scanFrom file cs p with
  | case1 => simp
  | case2 p c r pc q s span ih =>
    intro t ht
    simp only [List.mem_append, Option.mem_toList] at ht
    rcases ht with ht | ht
    · obtain ⟨l, hl, rfl⟩ := Option.map_eq_some_iff.1 ht
      exact piece_token_unmarked c r l hl
    · exact ih t ht

end EggFront
