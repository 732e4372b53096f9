import EggFront.Proofs.Print.Indent
import EggFront.Proofs.Token.Scanned

/-!
# Printed expressions read back

The printer writes every assignment, prefix and binary expression in
parentheses, so the text of an expression is always a term of the grammar. The
scanner reads that text back as the word it was written from, whatever follows
it that is no word character, and the grammar derives from that word the very
tree that was printed (`ExpOf.prints`).

What the printer needs of a tree is what the scanner guarantees of its tokens
(`Lexeme.WellFormed`): names are words and no keywords, numbers need no
clamping, string literals are closed. A string literal must also have no line
break other than a line feed, since indenting cuts the text at every break
(see `EggFront.Proofs.Print.Indent`).

## Stages

* the characters that end a word and start a term (`EndsWord`, `opensTerm`);
* the texts of names, numbers, literals and operators;
* one lemma per kind of node, from its children's texts to its own
  (`PrintsTerm.unary`, `PrintsTerm.binary`, ...);
* structural recursion over a derivation, one node at a time.
-/

namespace EggFront

open Grammar

/-! ## Characters -/

/-- What may follow the text of a term: nothing, or a character that is no word
character. -/
def EndsWord (f : Option Char) : Prop := ∀ d ∈ f, isWordChar d = false

theorem endsWord_some {c : Char} (h : isWordChar c = false) : EndsWord (some c) := by
  intro d hd
  cases hd
  exact h

/-- What follows an item of a list in parentheses: the next item's comma, or the
closing parenthesis. -/
theorem endsWord_comma_or_rparen {cs : List Char} (h : ∀ c ∈ cs.head?, c = ',') :
    EndsWord (cs.head?.or (some ')')) := by
  cases cs with
  | nil => exact endsWord_some rfl
  | cons d ds =>
    rw [h d rfl]
    exact endsWord_some rfl

/-- Whether a character can start the text of a term. -/
def opensTerm (c : Char) : Bool := c = '(' || c = '"' || isWordChar c

section Chars

variable {c : Char}

theorem isLineBreak_eq_false_of_isWordChar (h : isWordChar c = true) : Text.isLineBreak c = false := by
  cases hb : Text.isLineBreak c
  · rfl
  · simp only [Text.isLineBreak, Bool.or_eq_true, decide_eq_true_eq] at hb
    rcases hb with ((((((((rfl | rfl) | rfl) | rfl) | rfl) | rfl) | rfl) | rfl) | rfl) | rfl <;>
      revert h <;> decide

/-- The punctuation marks that no second character extends. -/
theorem pair?_eq_none_of_punct {c : Char}
    (hc : c = '(' ∨ c = ')' ∨ c = '\x7b' ∨ c = '\x7d' ∨ c = ';' ∨ c = ',' ∨ c = '.') (d : Char) :
    TokenKind.pair? c d = none := by
  rcases hc with rfl | rfl | rfl | rfl | rfl | rfl | rfl <;>
    (unfold TokenKind.pair?; split <;> simp_all)

/-- A punctuation mark spells itself whatever follows it. -/
theorem spells_punct {c : Char} {k : TokenKind}
    (hc : c = '(' ∨ c = ')' ∨ c = '\x7b' ∨ c = '\x7d' ∨ c = ';' ∨ c = ',' ∨ c = '.')
    (hk : TokenKind.single? c = some k) {f : Option Char} : Spells [c] [(k, c.toString)] f :=
  spells_single hk fun d _ => ⟨pair?_eq_none_of_punct hc d, fun h => by
    subst h
    rcases hc with h | h | h | h | h | h | h <;> cases h⟩

/-- A prefix operator stops before the text of a term. -/
theorem spells_unOp (op : UnOp) (hc : opensTerm c = true) :
    Spells op.symbol.toList [(op.kind, op.symbol)] (some c) := by
  have hne : c ≠ '-' ∧ c ≠ '=' := by
    simp only [opensTerm, Bool.or_eq_true, decide_eq_true_eq] at hc
    rcases hc with (rfl | rfl) | hw
    · decide
    · decide
    · exact ⟨fun h => by subst h; revert hw; decide, fun h => by subst h; revert hw; decide⟩
  cases op with
  | not =>
    have hp : TokenKind.pair? '!' c = none := by
      unfold TokenKind.pair?
      split <;> simp_all
    exact spells_single (c := '!') rfl fun d hd => by
      cases hd
      exact ⟨hp, fun h => absurd h (by decide)⟩
  | neg =>
    have hp : TokenKind.pair? '-' c = none := by
      unfold TokenKind.pair?
      split <;> simp_all
    exact spells_single (c := '-') rfl fun d hd => by
      cases hd
      exact ⟨hp, fun h => absurd h (by decide)⟩

/-- A binary operator stops before a space. -/
theorem spells_binOp (op : BinOp) : Spells op.symbol.toList [(op.kind, op.symbol)] (some ' ') := by
  cases op
  case or => exact spells_pair (c := '|') (d := '|') rfl
  case and => exact spells_pair (c := '&') (d := '&') rfl
  case eq => exact spells_pair (c := '=') (d := '=') rfl
  case ne => exact spells_pair (c := '!') (d := '=') rfl
  case le => exact spells_pair (c := '<') (d := '=') rfl
  case ge => exact spells_pair (c := '>') (d := '=') rfl
  all_goals exact spells_single rfl fun d hd => by cases hd; decide

end Chars

/-! ## Leaves -/

/-- The lexemes the printer writes back as they were read: well formed, with
string literals that have no line break but line feeds. -/
def Lexeme.Reprintable (l : Lexeme) : Prop :=
  Lexeme.WellFormed l ∧ (l.1 = .stringLit → onlyLineFeeds l.2.toList = true)

/-- A name spells itself, stops before any character that is no word
character, and starts with a word character. -/
theorem spells_name {n : String} (hn : Lexeme.WellFormed (.ident, n)) :
    (∀ f, EndsWord f → Spells n.toList [(.ident, n)] f) ∧
      (∃ c cs, n.toList = c :: cs ∧ isWordStart c = true) ∧ onlyLineFeeds n.toList = true := by
  obtain ⟨hw, hk⟩ := hn
  refine ⟨fun f hf => by simpa [hk] using spells_word hw hf, ?_, ?_⟩
  · unfold isWord at hw
    split at hw
    · rename_i c cs h
      simp only [Bool.and_eq_true] at hw
      exact ⟨c, cs, h, hw.1⟩
    · cases hw
  · unfold isWord at hw
    split at hw
    · rename_i c cs h
      simp only [Bool.and_eq_true, List.all_eq_true] at hw
      simp only [onlyLineFeeds, h, List.all_eq_true, List.mem_cons, Bool.or_eq_true, decide_eq_true_eq,
        Bool.not_eq_eq_eq_not, Bool.not_true]
      rintro x (rfl | hx)
      · exact .inr (isLineBreak_eq_false_of_isWordChar (isWordChar_of_isWordStart hw.1))
      · exact .inr (isLineBreak_eq_false_of_isWordChar (hw.2 x hx))
    · cases hw

/-- The numeral of a number has only digits. -/
theorem isDigit_of_mem_toString {v : Nat} {c : Char} (hc : c ∈ (toString v).toList) :
    c.isDigit = true := by
  rw [Nat.toString_eq_ofList_toDigits, String.toList_ofList] at hc
  exact Nat.isDigit_of_mem_toDigits (by decide) (by decide) hc

theorem digitsValue_toString (v : Nat) : digitsValue (toString v).toList = v := by
  rw [Nat.toString_eq_ofList_toDigits, String.toList_ofList, digitsValue_toDigits]

@[simp] theorem onlyLineFeeds_nil : onlyLineFeeds [] = true := rfl

@[simp] theorem onlyLineFeeds_append (a b : List Char) :
    onlyLineFeeds (a ++ b) = (onlyLineFeeds a && onlyLineFeeds b) := List.all_append

@[simp] theorem onlyLineFeeds_cons (c : Char) (cs : List Char) :
    onlyLineFeeds (c :: cs) = ((c = '\n' || !Text.isLineBreak c) && onlyLineFeeds cs) := List.all_cons

theorem onlyLineFeeds_unOp (op : UnOp) : onlyLineFeeds op.symbol.toList = true := by
  cases op <;> decide

theorem onlyLineFeeds_binOp (op : BinOp) : onlyLineFeeds op.symbol.toList = true := by
  cases op <;> decide

/-! ## What a printed text gives -/

/-- The text of a location: a word that derives it, read back before anything
that is no word character; it starts with a word character and has no line
break. -/
structure PrintsLoc (text : List Char) (l : Loc) : Prop where
  spells : ∃ w, LocOf w l ∧ ∀ f, EndsWord f → Spells text w f
  head : ∃ c cs, text = c :: cs ∧ isWordStart c = true
  lf : onlyLineFeeds text = true

/-- The text of an expression: a word from which the grammar derives it as a
term, read back before anything that is no word character; it starts a term,
and its only line breaks are line feeds. -/
structure PrintsTerm (parens : Bool) (text : List Char) (e : Expr) : Prop where
  spells : ∃ w, TermOf parens w e ∧ ∀ f, EndsWord f → Spells text w f
  head : ∃ c cs, text = c :: cs ∧ opensTerm c = true
  lf : onlyLineFeeds text = true

/-- The text of a call's arguments, read back before the closing parenthesis. -/
structure PrintsArgs (parens : Bool) (text : List Char) (es : List Expr) : Prop where
  spells : ∃ w, ArgsOf parens w es ∧ Spells text w (some ')')
  lf : onlyLineFeeds text = true

/-- The text of the arguments after the first, each after a comma. -/
structure PrintsMoreArgs (parens : Bool) (text : List Char) (es : List Expr) : Prop where
  spells : ∃ w, MoreArgsOf parens w es ∧ Spells text w (some ')')
  head : ∀ c ∈ text.head?, c = ','
  lf : onlyLineFeeds text = true

variable {parens : Bool}

/-! ## Leaves -/

theorem printsLoc_var {n : String} {s : Span} (hn : Lexeme.WellFormed (.ident, n)) :
    PrintsLoc n.toList (.var ⟨n, s, none⟩) := by
  obtain ⟨hsp, hhead, hlf⟩ := spells_name hn
  exact ⟨⟨_, .var, hsp⟩, hhead, hlf⟩

theorem PrintsLoc.field {a n : String} {l : Loc} {s s' : Span} (h : PrintsLoc a.toList l)
    (hn : Lexeme.WellFormed (.ident, n)) :
    PrintsLoc (a ++ "." ++ n).toList (.field l ⟨n, s, none⟩ s' false none) := by
  obtain ⟨⟨w, hw, hsp⟩, ⟨c, cs, hc, hcs⟩, hlf⟩ := h
  obtain ⟨hsp', -, hlf'⟩ := spells_name hn
  simp only [String.toList_append, List.append_assoc]
  refine ⟨?_, ⟨c, _, by rw [hc, List.cons_append], hcs⟩, by simp [Text.isLineBreak, hlf, hlf']⟩
  exact ⟨_, hw.field, fun f hf =>
    (hsp _ (endsWord_some rfl)).append ((spells_punct (c := '.') (by decide) rfl).append (hsp' f hf))⟩

theorem PrintsLoc.term {a : List Char} {l : Loc} (h : PrintsLoc a l) : PrintsTerm parens a (.loc l) := by
  obtain ⟨⟨w, hw, hsp⟩, ⟨c, cs, hc, hcs⟩, hlf⟩ := h
  refine ⟨⟨w, .loc hw, hsp⟩, ⟨c, cs, hc, ?_⟩, hlf⟩
  simp [opensTerm, isWordChar_of_isWordStart hcs]

theorem printsTerm_int {v : Nat} {s : Span} (hv : v ≤ intLimit) :
    PrintsTerm parens (toString v).toList (.int v s) := by
  have hint : TermOf parens [(.intLit, toString v)] (.int v s) := by
    have h := @TermOf.intLit parens (toString v) s
    rwa [digitsValue_toString] at h
  refine ⟨⟨_, hint, fun f hf => spells_nat hv fun d hd => ?_⟩, ?_, ?_⟩
  · cases hdig : d.isDigit
    · rfl
    · have := hf d hd
      rw [isWordChar_of_isDigit hdig] at this
      cases this
  · obtain ⟨c, cs, h⟩ := List.exists_cons_of_ne_nil (by simp : (toString v).toList ≠ [])
    refine ⟨c, cs, h, ?_⟩
    have hc := isDigit_of_mem_toString (v := v) (c := c) (by rw [h]; exact List.mem_cons_self)
    simp [opensTerm, isWordChar_of_isDigit hc]
  · simp only [onlyLineFeeds, List.all_eq_true]
    intro c hc
    simp [isLineBreak_eq_false_of_isWordChar (isWordChar_of_isDigit (isDigit_of_mem_toString hc))]

theorem printsTerm_str {x : String} {s : Span} (hx : IsLiteral x) (hlf : onlyLineFeeds x.toList = true) :
    PrintsTerm parens x.toList (.str x s) := by
  have ⟨b, hb, _⟩ := hx
  exact ⟨⟨_, .strLit, fun _ _ => spells_literal hx⟩, ⟨'"', b, hb, rfl⟩, hlf⟩

theorem printsTerm_true {s : Span} : PrintsTerm parens "true".toList (.bool true s) :=
  ⟨⟨_, .trueLit, fun _ hf => spells_word rfl hf⟩, ⟨'t', _, rfl, rfl⟩, by decide⟩

theorem printsTerm_false {s : Span} : PrintsTerm parens "false".toList (.bool false s) :=
  ⟨⟨_, .falseLit, fun _ hf => spells_word rfl hf⟩, ⟨'f', _, rfl, rfl⟩, by decide⟩

/-! ## Nodes

Each node's text puts its children's texts between fixed pieces; its word puts
their words between the tokens of those pieces. -/

theorem BinOp.level_le (op : BinOp) : op.level ≤ 5 := by
  cases op <;> decide

/-- Two terms joined by an operator make an expression, at level 0 and so at
every level. -/
theorem ExpOf.of_terms {w₁ w₂ : List Lexeme} {l r : Expr} {op : BinOp} {x : String} {s : Span}
    (h₁ : TermOf parens w₁ l) (h₂ : TermOf parens w₂ r) :
    ExpOf parens 0 (w₁ ++ (op.kind, x) :: w₂) (.binary l op r s) := by
  have hle := op.level_le
  cases hc : op.isComparison
  · exact (ExpOf.binary hc ((ExpOf.term h₁).lower (by omega)) ((ExpOf.term h₂).lower (by omega))).lower
      (Nat.zero_le _)
  · exact (ExpOf.compare hc ((ExpOf.term h₁).lower (by decide)) ((ExpOf.term h₂).lower (by decide))).lower
      (Nat.zero_le _)

/-- ` = ` spells the assignment operator whatever follows. -/
theorem spells_assignOp {f : Option Char} : Spells " = ".toList [(.assign, "=")] f :=
  (spells_blank rfl).append ((spells_single (c := '=') rfl fun d hd => by cases hd; decide).append
    (spells_blank rfl))

/-- `, ` spells a comma whatever follows. -/
theorem spells_comma {f : Option Char} : Spells ", ".toList [(.comma, ",")] f :=
  (spells_punct (c := ',') (by decide) rfl).append (spells_blank rfl)

theorem PrintsTerm.unary {a : String} {e : Expr} {op : UnOp} {s : Span} (h : PrintsTerm parens a.toList e) :
    PrintsTerm parens ("(" ++ op.symbol ++ a ++ ")").toList (.unary op e s) := by
  obtain ⟨⟨w, hw, hsp⟩, ⟨c, cs, hc, hco⟩, hlf⟩ := h
  have hd : TermOf parens ((.lparen, "(") :: ((op.kind, op.symbol) :: w) ++ [(.rparen, ")")])
      (.unary op e s) :=
    .paren ((ExpOf.unary (ExpOf.term hw)).lower (Nat.zero_le 6))
  simp only [List.cons_append] at hd
  simp only [String.toList_append, List.append_assoc]
  refine ⟨?_, ⟨'(', _, rfl, rfl⟩, by simp [Text.isLineBreak, onlyLineFeeds_unOp, hlf]⟩
  rw [hc] at hsp ⊢
  exact ⟨_, hd, fun f hf => (spells_punct (c := '(') (by decide) rfl).append ((spells_unOp op hco).append
    ((hsp _ (endsWord_some rfl)).append (spells_punct (c := ')') (by decide) rfl)))⟩

theorem PrintsTerm.binary {a b : String} {l r : Expr} {op : BinOp} {s : Span}
    (ha : PrintsTerm parens a.toList l) (hb : PrintsTerm parens b.toList r) :
    PrintsTerm parens ("(" ++ a ++ " " ++ op.symbol ++ " " ++ b ++ ")").toList (.binary l op r s) := by
  obtain ⟨⟨wa, hwa, hspa⟩, -, hlfa⟩ := ha
  obtain ⟨⟨wb, hwb, hspb⟩, -, hlfb⟩ := hb
  have hd : TermOf parens ((.lparen, "(") :: (wa ++ (op.kind, op.symbol) :: wb) ++ [(.rparen, ")")])
      (.binary l op r s) :=
    .paren (ExpOf.of_terms hwa hwb)
  simp only [List.cons_append, List.append_assoc] at hd
  simp only [String.toList_append, List.append_assoc]
  refine ⟨⟨_, hd, fun f hf => ?_⟩, ⟨'(', _, rfl, rfl⟩,
    by simp [Text.isLineBreak, onlyLineFeeds_binOp, hlfa, hlfb]⟩
  exact (spells_punct (c := '(') (by decide) rfl).append ((hspa _ (endsWord_some rfl)).append
    ((spells_blank rfl).append ((spells_binOp op).append ((spells_blank rfl).append
      ((hspb _ (endsWord_some rfl)).append (spells_punct (c := ')') (by decide) rfl))))))

theorem PrintsTerm.assign {a b : String} {t : Loc} {v : Expr} {s : Span}
    (ha : PrintsLoc a.toList t) (hb : PrintsTerm parens b.toList v) :
    PrintsTerm parens ("(" ++ a ++ " = " ++ b ++ ")").toList (.assign t v s) := by
  obtain ⟨⟨wa, hwa, hspa⟩, -, hlfa⟩ := ha
  obtain ⟨⟨wb, hwb, hspb⟩, -, hlfb⟩ := hb
  have hd : TermOf parens ((.lparen, "(") :: (wa ++ (.assign, "=") :: wb) ++ [(.rparen, ")")])
      (.assign t v s) :=
    .paren (.assign (.loc hwa) ((ExpOf.term hwb).lower (Nat.zero_le 6)))
  simp only [List.cons_append, List.append_assoc] at hd
  simp only [String.toList_append, List.append_assoc]
  refine ⟨⟨_, hd, fun f hf => ?_⟩, ⟨'(', _, rfl, rfl⟩, by simp [Text.isLineBreak, hlfa, hlfb]⟩
  exact (spells_punct (c := '(') (by decide) rfl).append ((hspa _ (endsWord_some rfl)).append
    (spells_assignOp.append ((hspb _ (endsWord_some rfl)).append (spells_punct (c := ')') (by decide) rfl))))

theorem PrintsTerm.call {n a : String} {es : List Expr} {s s' : Span} (hn : Lexeme.WellFormed (.ident, n))
    (ha : PrintsArgs parens a.toList es) :
    PrintsTerm parens (n ++ "(" ++ a ++ ")").toList (.call ⟨n, s, none⟩ es s') := by
  obtain ⟨⟨wa, hwa, hspa⟩, hlfa⟩ := ha
  obtain ⟨hsp, ⟨c, cs, hc, hcs⟩, hlf⟩ := spells_name hn
  have hd : TermOf parens ((.ident, n) :: (.lparen, "(") :: wa ++ [(.rparen, ")")])
      (.call ⟨n, s, none⟩ es s') :=
    .call hwa
  simp only [List.cons_append] at hd
  simp only [String.toList_append, List.append_assoc]
  refine ⟨⟨_, hd, fun f hf => ?_⟩, ⟨c, _, by rw [hc, List.cons_append], ?_⟩,
    by simp [Text.isLineBreak, hlf, hlfa]⟩
  · exact (hsp _ (endsWord_some rfl)).append ((spells_punct (c := '(') (by decide) rfl).append
      (hspa.append (spells_punct (c := ')') (by decide) rfl)))
  · simp [opensTerm, isWordChar_of_isWordStart hcs]

theorem printsArgs_nil : PrintsArgs parens "".toList [] :=
  ⟨⟨_, .none, Spells.nil⟩, rfl⟩

theorem PrintsArgs.cons {a b : String} {e : Expr} {es : List Expr} (ha : PrintsTerm parens a.toList e)
    (hb : PrintsMoreArgs parens b.toList es) : PrintsArgs parens (a ++ b).toList (e :: es) := by
  obtain ⟨⟨wa, hwa, hspa⟩, -, hlfa⟩ := ha
  obtain ⟨⟨wb, hwb, hspb⟩, hhead, hlfb⟩ := hb
  simp only [String.toList_append]
  exact ⟨⟨_, .some ((ExpOf.term hwa).lower (Nat.zero_le 6)) hwb,
    (hspa _ (endsWord_comma_or_rparen hhead)).append hspb⟩,
    by simp [hlfa, hlfb]⟩

theorem printsMoreArgs_nil : PrintsMoreArgs parens "".toList [] :=
  ⟨⟨_, .nil, Spells.nil⟩, by simp, rfl⟩

theorem PrintsMoreArgs.cons {a b : String} {e : Expr} {es : List Expr} (ha : PrintsTerm parens a.toList e)
    (hb : PrintsMoreArgs parens b.toList es) : PrintsMoreArgs parens (", " ++ a ++ b).toList (e :: es) := by
  obtain ⟨⟨wa, hwa, hspa⟩, -, hlfa⟩ := ha
  obtain ⟨⟨wb, hwb, hspb⟩, hhead, hlfb⟩ := hb
  have hd : MoreArgsOf parens ((.comma, ",") :: wa ++ wb) (e :: es) :=
    .comma ((ExpOf.term hwa).lower (Nat.zero_le 6)) hwb
  simp only [List.cons_append] at hd
  simp only [String.toList_append, List.append_assoc]
  exact ⟨⟨_, hd, spells_comma.append ((hspa _ (endsWord_comma_or_rparen hhead)).append hspb)⟩, by simp,
    by simp [Text.isLineBreak, hlfa, hlfb]⟩

namespace PrintStyle

variable (st : PrintStyle)

@[simp] theorem use_none (n : String) (s : Span) : st.use ⟨n, s, none⟩ = n := rfl

theorem exprTexts_eq_map (es : List Expr) : st.exprTexts es = es.map st.exprText := by
  induction es with
  | nil => rfl
  | cons e es ih => simp [exprTexts, ih]

end PrintStyle

/-- Joining texts puts the separator before each text after the first. -/
theorem intercalate_cons_eq_join (sep x : String) (xs : List String) :
    sep.intercalate (x :: xs) = x ++ String.join (xs.map (sep ++ ·)) := by
  induction xs generalizing x with
  | nil => simp
  | cons y ys ih => simp [ih, String.append_assoc]

/-! ## Derivations

A derivation of the parsed word gives the tree, and its lexemes are what the
printer writes back; the printed text then spells a word of its own from which
the grammar derives the same tree. A target in parentheses is printed bare. -/

namespace Grammar

/-- The location of a target, without its parentheses, is derived from lexemes of the target. -/
theorem TargetOf.locOf {w : List Lexeme} {l : Loc} :
    TargetOf parens w l → ∃ w', LocOf w' l ∧ ∀ x ∈ w', x ∈ w
  | .loc h => ⟨_, h, fun _ hx => hx⟩
  | .paren _ h => by
    obtain ⟨w', h', hsub⟩ := h.locOf
    exact ⟨w', h', fun x hx => by simp [hsub x hx]⟩

variable (st : PrintStyle)

theorem LocOf.prints {w : List Lexeme} {l : Loc} (h : LocOf w l) (hw : ∀ x ∈ w, Lexeme.WellFormed x) :
    PrintsLoc (st.locText l).toList l := by
  induction h with
  | var => exact printsLoc_var (hw _ List.mem_cons_self)
  | field _ ih =>
    exact (ih fun x hx => hw x (by simp [hx])).field (hw _ (by simp))

mutual

/-- **The text of a derived expression reads back.** Whatever the level it was
derived at, the printer's text of an expression spells a word from which the
grammar derives the same tree as a term. -/
theorem ExpOf.prints {ℓ : Nat} {w : List Lexeme} {e : Expr} :
    ExpOf parens ℓ w e → (∀ l ∈ w, Lexeme.Reprintable l) → PrintsTerm parens (st.exprText e).toList e
  | .term h, hw => h.prints hw
  | .lift h _, hw => h.prints hw
  | .unary h, hw => by
    simp only [PrintStyle.exprText]
    exact (h.prints fun l hl => hw l (by simp [hl])).unary
  | .binary _ h₁ h₂, hw | .compare _ h₁ h₂, hw => by
    simp only [PrintStyle.exprText]
    exact (h₁.prints fun l hl => hw l (by simp [hl])).binary (h₂.prints fun l hl => hw l (by simp [hl]))
  | .assign ht hv, hw => by
    obtain ⟨w', hloc, hsub⟩ := ht.locOf
    simp only [PrintStyle.exprText]
    exact .assign (hloc.prints st fun l hl => (hw l (by simp [hsub l hl])).1)
      (hv.prints fun l hl => hw l (by simp [hl]))

theorem TermOf.prints {w : List Lexeme} {e : Expr} :
    TermOf parens w e → (∀ l ∈ w, Lexeme.Reprintable l) → PrintsTerm parens (st.exprText e).toList e
  | .intLit, hw => printsTerm_int (hw _ List.mem_cons_self).1
  | .strLit, hw => printsTerm_str (hw _ List.mem_cons_self).1 ((hw _ List.mem_cons_self).2 rfl)
  | .trueLit, _ => printsTerm_true
  | .falseLit, _ => printsTerm_false
  | .loc h, hw => (h.prints st fun l hl => (hw l hl).1).term
  | .paren h, hw => h.prints fun l hl => hw l (by simp [hl])
  | .call h, hw => by
    simp only [PrintStyle.exprText, PrintStyle.use_none]
    exact .call (hw _ List.mem_cons_self).1 (h.prints fun l hl => hw l (by simp [hl]))

theorem ArgsOf.prints {w : List Lexeme} {es : List Expr} :
    ArgsOf parens w es → (∀ l ∈ w, Lexeme.Reprintable l) →
      PrintsArgs parens (", ".intercalate (st.exprTexts es)).toList es
  | .none, _ => printsArgs_nil
  | .some he hm, hw => by
    rw [PrintStyle.exprTexts_eq_map, List.map_cons, intercalate_cons_eq_join, List.map_map]
    exact .cons (he.prints fun l hl => hw l (by simp [hl]))
      (hm.prints fun l hl => hw l (by simp [hl]))

theorem MoreArgsOf.prints {w : List Lexeme} {es : List Expr} :
    MoreArgsOf parens w es → (∀ l ∈ w, Lexeme.Reprintable l) →
      PrintsMoreArgs parens (String.join (es.map ((", " ++ ·) ∘ st.exprText))).toList es
  | .nil, _ => printsMoreArgs_nil
  | .comma he hm, hw => by
    simp only [List.map_cons, String.join_cons, Function.comp_apply]
    exact .cons (he.prints fun l hl => hw l (by simp [hl]))
      (hm.prints fun l hl => hw l (by simp [hl]))

end

end Grammar

end EggFront
