import EggFront.Proofs.Grammar
import Mathlib

/-!
# What a text spells

The scanner cuts a text into pieces (`pieces`), each of which gives at most one
token and at most one issue; `textLexemes` and `textIssues` collect them. They
are what `scanFrom` answers, positions aside (`scanFrom_lexemes`,
`scanFrom_diagnostics_eq_nil`).

`Spells cs w f` says that the text `cs`, followed by anything that starts with
`f`, gives the tokens of the word `w` and no issue, and leaves what follows to
be scanned as if alone. It composes (`Spells.append`), so a text built by
concatenation spells the concatenation of the words of its parts, once each
token is known to stop before what follows it: a word before a character that
is no word character, digits before a non-digit, a closed string literal
before anything, an operator before a character it does not pair with.

A line feed is always a piece of its own: no piece reads across one
(`textLexemes_lf`). So what follows a line feed is scanned as if alone, which
is what lets a printer indent lines without changing their tokens.
-/

namespace EggFront

/-! ## Pieces of a text -/

/-- The pieces a text is cut into, from its first character on. -/
def pieces : List Char → List Piece
  | [] => []
  | c :: r => piece c r :: pieces (piece c r).rest
termination_by cs => cs.length
decreasing_by exact length_piece_rest c r

/-- The lexemes of the tokens a text gives. -/
def textLexemes (cs : List Char) : List Lexeme := (pieces cs).filterMap Piece.token

/-- The issues a text gives. -/
def textIssues (cs : List Char) : List ScanIssue := (pieces cs).filterMap Piece.issue

@[simp] theorem textLexemes_nil : textLexemes [] = [] := by
  simp [textLexemes, pieces]

@[simp] theorem textIssues_nil : textIssues [] = [] := by
  simp [textIssues, pieces]

theorem textLexemes_cons (c : Char) (r : List Char) :
    textLexemes (c :: r) = (piece c r).token.toList ++ textLexemes (piece c r).rest := by
  rw [textLexemes, pieces, List.filterMap_cons]
  cases (piece c r).token <;> rfl

theorem textIssues_cons (c : Char) (r : List Char) :
    textIssues (c :: r) = (piece c r).issue.toList ++ textIssues (piece c r).rest := by
  rw [textIssues, pieces, List.filterMap_cons]
  cases (piece c r).issue <;> rfl

/-- The tokens of a scan spell the lexemes of its text, wherever the text starts. -/
theorem scanFrom_lexemes (file : String) (cs : List Char) (p : Position) :
    lexemes (scanFrom file cs p).tokens = textLexemes cs := by
  fun_induction scanFrom file cs p with
  | case1 => simp
  | case2 p c r pc q s span ih =>
    rw [textLexemes_cons, ← ih]
    cases (piece c r).token <;> simp [pc, s]

/-- A scan reports nothing exactly when its text gives no issue. -/
theorem scanFrom_diagnostics_eq_nil (file : String) (cs : List Char) (p : Position) :
    (scanFrom file cs p).diagnostics = [] ↔ textIssues cs = [] := by
  fun_induction scanFrom file cs p with
  | case1 => simp
  | case2 p c r pc q s span ih =>
    rw [textIssues_cons]
    change (pc.issue.map _).toList ++ s.diagnostics = [] ↔ pc.issue.toList ++ textIssues pc.rest = []
    rw [List.append_eq_nil_iff, List.append_eq_nil_iff, ← ih]
    cases pc.issue <;> simp [s]

/-! ## Spelling a word -/

/-- The text `cs`, followed by any text that starts with `f`, gives the tokens of
`w` and no issue, and what follows it is scanned as if alone. -/
def Spells (cs : List Char) (w : List Lexeme) (f : Option Char) : Prop :=
  ∀ r, r.head? = f → textLexemes (cs ++ r) = w ++ textLexemes r ∧ textIssues (cs ++ r) = textIssues r

namespace Spells

variable {a b cs : List Char} {w w₁ w₂ : List Lexeme} {f : Option Char}

theorem nil : Spells [] [] f := fun _ _ => ⟨rfl, rfl⟩

/-- Two texts one after the other spell their words one after the other. -/
theorem append (ha : Spells a w₁ (b.head?.or f)) (hb : Spells b w₂ f) :
    Spells (a ++ b) (w₁ ++ w₂) f := by
  intro r hr
  obtain ⟨h₁, h₂⟩ := ha (b ++ r) (by rw [List.head?_append, hr])
  obtain ⟨h₃, h₄⟩ := hb r hr
  rw [List.append_assoc, h₁, h₃, h₂, h₄, List.append_assoc]
  exact ⟨rfl, rfl⟩

/-- A text that spells a word at the end of the text gives exactly its tokens. -/
theorem at_end (h : Spells cs w none) : textLexemes cs = w ∧ textIssues cs = [] := by
  simpa using h [] rfl

end Spells

/-- A piece that takes `xs` after `c` and gives the token `l` whenever the text
after it starts with `f` spells `[l]`. -/
theorem spells_piece {c : Char} {xs : List Char} {l : Lexeme} {f : Option Char}
    (h : ∀ r, r.head? = f → piece c (xs ++ r) = ⟨xs, r, some l, none⟩) :
    Spells (c :: xs) [l] f := by
  intro r hr
  rw [List.cons_append, textLexemes_cons, textIssues_cons, h r hr]
  exact ⟨rfl, rfl⟩

/-- A blank spells nothing. -/
theorem spells_blank {c : Char} {f : Option Char} (hc : isBlank c = true) : Spells [c] [] f := by
  intro r _
  have hp : piece c r = ⟨[], r, none, none⟩ := by simp [piece, hc]
  rw [List.singleton_append, textLexemes_cons, textIssues_cons, hp]
  exact ⟨rfl, rfl⟩

/-- Spaces spell nothing. -/
theorem spells_spaces (n : Nat) {f : Option Char} : Spells (List.replicate n ' ') [] f := by
  induction n with
  | zero => exact Spells.nil
  | succ n ih =>
    rw [List.replicate_succ, ← List.singleton_append]
    exact (spells_blank rfl).append ih

/-! ## Line feeds -/

section LineFeed

variable {p : Char → Bool}

theorem takeWhile_lf (hp : p '\n' = false) (a r : List Char) :
    (a ++ '\n' :: r).takeWhile p = a.takeWhile p := by
  induction a with
  | nil => simp [hp]
  | cons c a ih => by_cases hc : p c <;> simp [hc, ih]

theorem dropWhile_lf (hp : p '\n' = false) (a r : List Char) :
    (a ++ '\n' :: r).dropWhile p = a.dropWhile p ++ '\n' :: r := by
  induction a with
  | nil => simp [hp]
  | cons c a ih => by_cases hc : p c <;> simp [hc, ih]

/-- A string literal's body ends at a line feed at the latest, whatever follows it. -/
theorem stringBody_lf (a r : List Char) :
    ∃ m a' cl bd, a = m ++ a' ∧ stringBody (a ++ '\n' :: r) = ⟨m, a' ++ '\n' :: r, cl, bd⟩ ∧
      stringBody (a ++ ['\n']) = ⟨m, a' ++ ['\n'], cl, bd⟩ := by
  induction hn : a.length using Nat.strongRecOn generalizing a with
  | _ n ih =>
  match a with
  | [] => exact ⟨[], [], false, false, rfl, by simp [stringBody], by simp [stringBody]⟩
  | c :: a₀ =>
    by_cases h₁ : c = '\n'
    · subst h₁
      exact ⟨[], '\n' :: a₀, false, false, rfl, by simp [stringBody], by simp [stringBody]⟩
    by_cases h₂ : c = '"'
    · subst h₂
      exact ⟨['"'], a₀, true, false, rfl, by simp [stringBody], by simp [stringBody]⟩
    by_cases h₃ : c = '\\'
    · subst h₃
      match a₀ with
      | [] => exact ⟨['\\'], [], false, true, rfl, by simp [stringBody], by simp [stringBody]⟩
      | d :: a₁ =>
        by_cases hd : d = '\n'
        · subst hd
          exact ⟨['\\'], '\n' :: a₁, false, true, rfl, by simp [stringBody], by simp [stringBody]⟩
        obtain ⟨m, a', cl, bd, rfl, h, h'⟩ := ih a₁.length (by simp at hn; omega) a₁ rfl
        rw [List.append_assoc] at h h'
        refine ⟨'\\' :: d :: m, a', cl, bd || !isEscapable d, rfl, ?_, ?_⟩
        · simp [stringBody, h]
        · simp [stringBody, h']
    obtain ⟨m, a', cl, bd, rfl, h, h'⟩ := ih a₀.length (by simp at hn; omega) a₀ rfl
    rw [List.append_assoc] at h h'
    refine ⟨c :: m, a', cl, bd, rfl, ?_, ?_⟩
    · simp [stringBody, h₃, h]
    · simp [stringBody, h₃, h']

theorem pair?_lf (c : Char) : TokenKind.pair? c '\n' = none := by
  unfold TokenKind.pair?
  split <;> simp_all

/-- No piece reads across a line feed: it takes the same characters before it,
and gives the same token and issue, whatever follows. -/
theorem piece_lf (c : Char) (a r : List Char) :
    ∃ m a' t i, a = m ++ a' ∧ piece c (a ++ '\n' :: r) = ⟨m, a' ++ '\n' :: r, t, i⟩ ∧
      piece c (a ++ ['\n']) = ⟨m, a' ++ ['\n'], t, i⟩ := by
  have hhead : (a ++ '\n' :: r).head? = (a ++ ['\n']).head? := by cases a <;> rfl
  by_cases hb : isBlank c = true
  · exact ⟨[], a, none, none, rfl, by simp [piece, hb], by simp [piece, hb]⟩
  by_cases hcm : (c = '#' || (c = '/' && (a ++ ['\n']).head? == some '/')) = true
  · refine ⟨a.takeWhile (· != '\n'), a.dropWhile (· != '\n'), none, none,
      (List.takeWhile_append_dropWhile).symm, ?_, ?_⟩
    · simp only [piece, hb, hhead, hcm]
      simpa using ⟨takeWhile_lf (p := (· != '\n')) rfl a r, dropWhile_lf (p := (· != '\n')) rfl a r⟩
    · simp only [piece, hb, hcm]
      simpa using ⟨takeWhile_lf (p := (· != '\n')) rfl a [], dropWhile_lf (p := (· != '\n')) rfl a []⟩
  by_cases hq : c = '"'
  · subst hq
    obtain ⟨m, a', cl, bd, rfl, h, h'⟩ := stringBody_lf a r
    refine ⟨m, a', (stringPiece ⟨m, [], cl, bd⟩).token, (stringPiece ⟨m, [], cl, bd⟩).issue, rfl, ?_, ?_⟩
    · simp only [piece, hb]
      simp only [if_true, h]
      cases cl <;> cases bd <;> rfl
    · simp only [piece, hb]
      simp only [if_true, h']
      cases cl <;> cases bd <;> rfl
  by_cases hd : c.isDigit = true
  · refine ⟨a.takeWhile Char.isDigit, a.dropWhile Char.isDigit,
      some (.intLit, (clampDigits (c :: a.takeWhile Char.isDigit)).1),
      if (clampDigits (c :: a.takeWhile Char.isDigit)).2 then some .tooLarge else none,
      (List.takeWhile_append_dropWhile).symm, ?_, ?_⟩
    · simp only [piece, hb, hhead, hcm, hq, hd, Bool.false_eq_true, if_false, if_true, takeWhile_lf (p := Char.isDigit) rfl,
        dropWhile_lf (p := Char.isDigit) rfl]
    · simp only [piece, hb, hcm, hq, hd, Bool.false_eq_true, if_false, if_true, takeWhile_lf (p := Char.isDigit) rfl a [],
        dropWhile_lf (p := Char.isDigit) rfl a []]
  by_cases hw : isWordStart c = true
  · refine ⟨a.takeWhile isWordChar, a.dropWhile isWordChar,
      some ((TokenKind.keyword? (String.ofList (c :: a.takeWhile isWordChar))).getD .ident,
        String.ofList (c :: a.takeWhile isWordChar)), none,
      (List.takeWhile_append_dropWhile).symm, ?_, ?_⟩
    · simp only [piece, hb, hhead, hcm, hq, hd, hw, Bool.false_eq_true, if_false, if_true, takeWhile_lf (p := isWordChar) rfl,
        dropWhile_lf (p := isWordChar) rfl]
    · simp only [piece, hb, hcm, hq, hd, hw, Bool.false_eq_true, if_false, if_true, takeWhile_lf (p := isWordChar) rfl a [],
        dropWhile_lf (p := isWordChar) rfl a []]
  -- what is left is an operator, one character or two
  have hop : piece c (a ++ '\n' :: r) = operatorPiece c (a ++ '\n' :: r) := by
    simp only [piece, hb, hhead, hcm, hq, hd, hw, Bool.false_eq_true, if_false]
  have hop' : piece c (a ++ ['\n']) = operatorPiece c (a ++ ['\n']) := by
    simp only [piece, hb, hcm, hq, hd, hw, Bool.false_eq_true, if_false]
  rw [hop, hop']
  cases a with
  | nil =>
    refine ⟨[], [], (operatorPiece c []).token, (operatorPiece c []).issue, rfl, ?_, ?_⟩ <;>
      simp only [operatorPiece, List.nil_append, pair?_lf] <;>
      cases TokenKind.single? c <;> rfl
  | cons d a₀ =>
    cases hp : TokenKind.pair? c d with
    | some k =>
      exact ⟨[d], a₀, some (k, String.ofList [c, d]), none, rfl,
        by simp [operatorPiece, hp], by simp [operatorPiece, hp]⟩
    | none =>
      refine ⟨[], d :: a₀, (operatorPiece c []).token, (operatorPiece c []).issue, rfl, ?_, ?_⟩ <;>
        simp only [operatorPiece, List.cons_append, hp] <;>
        cases TokenKind.single? c <;> rfl

/-- A line feed cuts a text into two that are scanned apart. -/
theorem textLexemes_lf (a r : List Char) :
    textLexemes (a ++ '\n' :: r) = textLexemes (a ++ ['\n']) ++ textLexemes r ∧
      textIssues (a ++ '\n' :: r) = textIssues (a ++ ['\n']) ++ textIssues r := by
  induction hn : a.length using Nat.strongRecOn generalizing a with
  | _ n ih =>
  match a with
  | [] =>
    have hp : ∀ r, piece '\n' r = ⟨[], r, none, none⟩ := fun r => by simp [piece, isBlank]
    simp [textLexemes_cons, textIssues_cons, hp]
  | c :: a₀ =>
    -- the piece at c stops before the line feed; the rest is shorter
    obtain ⟨m, a', t, i, rfl, h, h'⟩ := piece_lf c a₀ r
    obtain ⟨ih₁, ih₂⟩ := ih a'.length (by simp at hn; omega) a' rfl
    rw [List.cons_append, List.cons_append, textLexemes_cons, textLexemes_cons, textIssues_cons,
      textIssues_cons, h, h']
    simp only [ih₁, ih₂, List.append_assoc, and_self]

end LineFeed

/-! ## Characters -/

section Chars

variable {c d : Char} {k : TokenKind}

theorem isWordChar_of_isWordStart (h : isWordStart c = true) : isWordChar c = true := by
  simp only [isWordStart, isWordChar, Char.isAlphanum, Bool.or_eq_true] at h ⊢
  rcases h with h | h <;> simp [h]

theorem isWordChar_of_isDigit (h : c.isDigit = true) : isWordChar c = true := by
  simp [isWordChar, Char.isAlphanum, h]

theorem isBlank_eq_false_of_isWordChar (h : isWordChar c = true) : isBlank c = false := by
  cases hb : isBlank c
  · rfl
  · simp only [isBlank, Bool.or_eq_true, decide_eq_true_eq] at hb
    rcases hb with ((rfl | rfl) | rfl) | rfl <;> simp_all [isWordChar]

theorem isDigit_eq_false_of_isWordStart (h : isWordStart c = true) : c.isDigit = false := by
  simp only [isWordStart, Char.isAlpha, Char.isUpper, Char.isLower, Bool.or_eq_true,
    Bool.and_eq_true, decide_eq_true_eq] at h
  simp only [Char.isDigit, Bool.and_eq_false_iff, decide_eq_false_iff_not]
  -- a letter lies above `9`
  rcases h with (⟨h₁, h₂⟩ | ⟨h₁, h₂⟩) | rfl
  · right; intro h₃; simp only [ge_iff_le, UInt32.le_iff_toNat_le] at *; simp at *; omega
  · right; intro h₃; simp only [ge_iff_le, UInt32.le_iff_toNat_le] at *; simp at *; omega
  · decide

/-- A character of a word is none of the characters that start another kind of piece. -/
theorem ne_of_isWordChar (h : isWordChar c = true) : c ≠ '#' ∧ c ≠ '/' ∧ c ≠ '"' := by
  refine ⟨?_, ?_, ?_⟩ <;> (rintro rfl; revert h; decide)

/-- The characters that are operators of one character start no other kind of piece. -/
theorem single?_facts (hk : TokenKind.single? c = some k) :
    isBlank c = false ∧ c ≠ '#' ∧ c ≠ '"' ∧ c.isDigit = false ∧ isWordStart c = false := by
  revert hk
  unfold TokenKind.single?
  split <;> simp [isBlank, isWordStart, Char.isDigit, Char.isAlpha, Char.isUpper, Char.isLower]

/-- So do the first characters of operators of two characters. -/
theorem pair?_facts (hk : TokenKind.pair? c d = some k) :
    isBlank c = false ∧ c ≠ '#' ∧ c ≠ '/' ∧ c ≠ '"' ∧ c.isDigit = false ∧ isWordStart c = false := by
  revert hk
  unfold TokenKind.pair?
  split <;> simp [isBlank, isWordStart, Char.isDigit, Char.isAlpha, Char.isUpper, Char.isLower]

end Chars

/-! ## Tokens that stop -/

/-- A run of characters that all pass `p`, before a character that fails it. -/
theorem takeWhile_append_of_all {p : Char → Bool} {xs r : List Char} (hxs : ∀ x ∈ xs, p x = true)
    (hr : ∀ d ∈ r.head?, p d = false) : (xs ++ r).takeWhile p = xs ∧ (xs ++ r).dropWhile p = r := by
  induction xs with
  | nil =>
    cases r with
    | nil => simp
    | cons d r => simp [hr d rfl]
  | cons x xs ih =>
    obtain ⟨h₁, h₂⟩ := ih (fun y hy => hxs y (List.mem_cons_of_mem _ hy))
    simp [hxs x List.mem_cons_self, h₁, h₂]

/-- Whether a text is a word: a letter or `_`, then letters, digits and `_`. -/
def isWord (x : String) : Bool :=
  match x.toList with
  | c :: cs => isWordStart c && cs.all isWordChar
  | [] => false

/-- A word stops before a character that is no word character; it is a keyword
or a name. -/
theorem spells_word {x : String} (hx : isWord x = true) {f : Option Char}
    (hf : ∀ d ∈ f, isWordChar d = false) :
    Spells x.toList [((TokenKind.keyword? x).getD .ident, x)] f := by
  unfold isWord at hx
  split at hx
  · rename_i c cs hcs
    simp only [Bool.and_eq_true, List.all_eq_true] at hx
    obtain ⟨hc, hcs'⟩ := hx
    have hx' : String.ofList (c :: cs) = x := by rw [← hcs, String.ofList_toList]
    obtain ⟨hh, hs, hq⟩ := ne_of_isWordChar (isWordChar_of_isWordStart hc)
    rw [hcs]
    apply spells_piece
    intro r hr
    obtain ⟨ht, hd⟩ := takeWhile_append_of_all hcs' (by rw [hr]; exact hf)
    simp [piece, isBlank_eq_false_of_isWordChar (isWordChar_of_isWordStart hc), hh, hs, hq,
      isDigit_eq_false_of_isWordStart hc, hc, ht, hd, hx']
  · cases hx

theorem digitsValue_toDigits (v : Nat) : digitsValue (Nat.toDigits 10 v) = v :=
  Nat.ofDigitChars_ten_toDigits

/-- The decimal digits of a positive number do not start with `0`. -/
theorem toDigits_head (v : Nat) (hv : 0 < v) : ∃ c cs, Nat.toDigits 10 v = c :: cs ∧ c ≠ '0' := by
  induction v using Nat.strongRecOn with
  | _ v ih =>
  rw [Nat.toDigits_eq_if (by decide)]
  split
  · rename_i hlt
    refine ⟨_, [], rfl, ?_⟩
    match v, hv, hlt with
    | 1, _, _ | 2, _, _ | 3, _, _ | 4, _, _ | 5, _, _ | 6, _, _ | 7, _, _ | 8, _, _ | 9, _, _ => decide
  · rename_i hge
    obtain ⟨c, cs, h, hc⟩ := ih (v / 10) (by omega) (by omega)
    exact ⟨c, cs ++ [Nat.digitChar (v % 10)], by rw [h]; rfl, hc⟩

/-- The numeral of a number has no leading zero: all its digits are significant. -/
theorem significantDigits_toDigits (v : Nat) : significantDigits (Nat.toDigits 10 v) = Nat.toDigits 10 v := by
  rcases Nat.eq_zero_or_pos v with rfl | hpos
  · rfl
  · obtain ⟨c, cs, h, hc⟩ := toDigits_head v hpos
    rw [significantDigits, h, List.dropWhile_cons_of_neg (by simpa using hc)]

theorem clampDigits_toDigits {v : Nat} (hv : v ≤ intLimit) :
    clampDigits (Nat.toDigits 10 v) = (toString v, false) := by
  -- a number up to the limit has at most as many digits as the limit
  have hlen : (Nat.toDigits 10 v).length ≤ (toString intLimit).length := by
    have h10 : (toString intLimit).length = 10 := by decide
    rw [h10, Nat.length_toDigits_le_iff (by decide) (by decide)]
    unfold intLimit at hv
    omega
  simp only [clampDigits, significantDigits_toDigits, digitsValue_toDigits]
  rw [if_neg (by simp only [Bool.or_eq_true, decide_eq_true_eq]; omega)]
  simp [Nat.repr_eq_ofList_toDigits]

/-- The decimal numeral of a number that needs no clamping stops before a
character that is no digit. -/
theorem spells_nat {v : Nat} (hv : v ≤ intLimit) {f : Option Char}
    (hf : ∀ d ∈ f, d.isDigit = false) :
    Spells (toString v).toList [(.intLit, toString v)] f := by
  have hds : (toString v).toList = Nat.toDigits 10 v := by
    rw [Nat.toString_eq_ofList_toDigits, String.toList_ofList]
  obtain ⟨c, cs, h⟩ := List.exists_cons_of_ne_nil (Nat.toDigits_ne_nil (b := 10) (n := v))
  have hdig : ∀ x ∈ Nat.toDigits 10 v, x.isDigit = true :=
    fun x hx => Nat.isDigit_of_mem_toDigits (by decide) (by decide) hx
  have hc : c.isDigit = true := hdig c (by rw [h]; exact List.mem_cons_self)
  have hcs : ∀ x ∈ cs, x.isDigit = true := fun x hx => hdig x (by rw [h]; exact List.mem_cons_of_mem _ hx)
  obtain ⟨hh, hs, hq⟩ := ne_of_isWordChar (isWordChar_of_isDigit hc)
  rw [hds, h]
  apply spells_piece
  intro r hr
  obtain ⟨ht, hd⟩ := takeWhile_append_of_all hcs (by rw [hr]; exact hf)
  have hclamp := clampDigits_toDigits hv
  rw [h] at hclamp
  simp [piece, isBlank_eq_false_of_isWordChar (isWordChar_of_isDigit hc), hh, hs, hq, hc, ht, hd,
    hclamp]

/-- The text of a string literal that reads as one whatever follows it: a quote,
then a body closed by a quote, with good escapes. -/
def IsLiteral (x : String) : Prop :=
  ∃ b, x.toList = '"' :: b ∧ ∀ r, stringBody (b ++ r) = ⟨b, r, true, false⟩

/-- A string literal stops by itself. -/
theorem spells_literal {x : String} (hx : IsLiteral x) {f : Option Char} :
    Spells x.toList [(.stringLit, x)] f := by
  obtain ⟨b, hb, hbody⟩ := hx
  have hx' : String.ofList ('"' :: b) = x := by rw [← hb, String.ofList_toList]
  rw [hb]
  apply spells_piece
  intro r _
  simp [piece, isBlank, hbody, stringPiece, hx']

/-- An operator of one character stops before a character it does not pair with
(and `/` before a second `/`, which would start a comment). -/
theorem spells_single {c : Char} {k : TokenKind} (hk : TokenKind.single? c = some k)
    {f : Option Char} (hf : ∀ d ∈ f, TokenKind.pair? c d = none ∧ (c = '/' → d ≠ '/')) :
    Spells [c] [(k, c.toString)] f := by
  obtain ⟨hb, hh, hq, hd, hw⟩ := single?_facts hk
  apply spells_piece
  intro r hr
  rw [List.nil_append]
  cases r with
  | nil => simp [piece, hb, hh, hq, hd, hw, operatorPiece, hk]
  | cons d r =>
    obtain ⟨hp, hsl⟩ := hf d (by rw [← hr]; rfl)
    simp [piece, hb, hh, hq, hd, hw, operatorPiece, hk, hp]
    exact hsl

/-- An operator of two characters stops by itself. -/
theorem spells_pair {c d : Char} {k : TokenKind} (hk : TokenKind.pair? c d = some k)
    {f : Option Char} : Spells [c, d] [(k, String.ofList [c, d])] f := by
  obtain ⟨hb, hh, hs, hq, hd, hw⟩ := pair?_facts hk
  apply spells_piece
  intro r _
  simp [piece, hb, hh, hs, hq, hd, hw, operatorPiece, hk]

end EggFront
