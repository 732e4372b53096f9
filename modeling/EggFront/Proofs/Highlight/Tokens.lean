import Mathlib
import EggFront.Proofs.Highlight.Runs

/-!
# Highlighting and scanning agree

A text that scans without a report is cut into clean segments (`scanFrom_cut`),
and the highlighter's runs fall along that cut: the runs over a comment are
comment runs, and the runs over a token are shaded as its kind says
(`TokenKind.shades`), with one exception. The highlighter takes a reserved word
only at a word boundary, and a digit is a word character to it, so a reserved
word right after a number, as in `1if`, which scanning reads as `1` then `if`, is
shaded as a name (`highlight_misses_keyword_after_digit`).

The proof walks the cut and the highlighter together. Blanks next to each other
make one text run (`highlightFrom_blanks`); every other segment makes runs of its
own (`Segment.highlight_step`), so the highlighter meets each comment and token
at its first character, with the boundary the character before it makes. That
character is a digit or no word character at all (`WordApart`), which is why only
the digit case goes wrong.
-/

namespace EggFront

/-! ## What the text of a token looks like -/

/-- The shades the highlighter may give the text of a token of kind `k`. -/
def TokenKind.shades : TokenKind → List Shade
  | .kwBool | .kwInt | .kwVoid => [.typeName]
  | .kwStruct => [.declaration]
  | .kwTrue | .kwFalse => [.constant]
  | .kwCin | .kwCout | .kwIf | .kwElse | .kwWhile | .kwRepeat | .kwReturn => [.keyword]
  | .ident => [.name, .function]
  | .intLit => [.number]
  | .stringLit => [.string, .escape]
  | .lcurly | .rcurly | .lparen | .rparen | .semicolon | .comma => [.punctuation]
  | .dot | .write | .read | .plusPlus | .minusMinus | .plus | .minus | .star | .slash | .bang
  | .andAnd | .orOr | .equal | .notEqual | .less | .greater | .lessEqual | .greaterEqual
  | .assign => [.operator]
  | .eof => []

/-- The kinds of the reserved words. -/
def TokenKind.isReserved : TokenKind → Bool
  | .kwBool | .kwInt | .kwVoid | .kwTrue | .kwFalse | .kwStruct | .kwCin | .kwCout
  | .kwIf | .kwElse | .kwWhile | .kwRepeat | .kwReturn => true
  | _ => false

/-- Whether a segment is a blank. -/
def Segment.isWhite : Segment → Bool
  | .blank _ => true
  | _ => false

/-- The shades the characters of a segment may have, `before` being the character
just before it: a comment's are comment runs and a token's are its kind's, except
that a reserved word right after a digit is shaded as a name. Blanks, which merge
with their neighbours, and what scanning rejects have none. -/
def Segment.shades : Segment → Option Char → Option (List Shade)
  | .comment _, _ => some [.comment]
  | .token k _ _, before =>
    some (if k.isReserved && before.any Char.isDigit then TokenKind.ident.shades else k.shades)
  | _, _ => none

/-- The runs `ls` keep the `n` characters from index `a` on to themselves: every run
that meets them lies within them and has a shade of `ok`. -/
def Lit.ShadedIn (ls : List Lit) (a n : Nat) (ok : List Shade) : Prop :=
  ∀ l ∈ ls, a < l.index + l.text.length → l.index < a + n →
    a ≤ l.index ∧ l.index + l.text.length ≤ a + n ∧ l.shade ∈ ok

/-- The boundary flag the highlighter carries after the character `prev`, if any. -/
def boundaryAfter (prev : Option Char) : Bool := prev.all fun d => !wordChar.contains d

/-- A word at the front of `cs` does not go on from `prev`: `prev` is a digit or no
word character. -/
def WordApart (prev : Option Char) (cs : List Char) : Prop :=
  ∀ c ∈ cs.head?, isWordStart c = true → ∀ d ∈ prev, d.isDigit = true ∨ wordChar.contains d = false

/-! ## Words, operators and punctuation -/

section Shades

variable {c d : Char} {k : TokenKind}

/-- The reserved words of the highlighter are those of scanning, with shades of their kinds. -/
theorem wordShade?_of_keyword? (w : String) :
    (TokenKind.keyword? w = none ∧ wordShade? w = none) ∨
      ∃ k s, TokenKind.keyword? w = some k ∧ wordShade? w = some s ∧ s ∈ k.shades ∧
        k.isReserved = true := by
  unfold TokenKind.keyword?
  split
  all_goals first
    | exact .inr ⟨_, _, rfl, rfl, by decide, rfl⟩
    | skip
  refine .inl ⟨rfl, ?_⟩
  unfold wordShade?
  split <;> simp_all

/-- A one-character operator or punctuation mark is shaded as its kind. -/
theorem single?_shades (h : TokenKind.single? c = some k) :
    k.isReserved = false ∧ singleShade c ∈ k.shades := by
  unfold TokenKind.single? at h
  split at h <;> cases h <;> simp [singleShade, TokenKind.shades, TokenKind.isReserved]

/-- Two-character operators are operators. -/
theorem pair?_shades (h : TokenKind.pair? c d = some k) :
    k.isReserved = false ∧ k.shades = [.operator] := by
  unfold TokenKind.pair? at h
  split at h <;> cases h <;> exact ⟨rfl, rfl⟩

/-- At the end of a word only the boundary before it decides whether it is reserved. -/
theorem nameShade_of_ends (b : Bool) (x : String) {rest : List Char}
    (hend : ∀ d ∈ rest.head?, wordChar.contains d = false) :
    nameShade b x rest = ((if b then wordShade? x else none).getD
      (if (rest.dropWhile isSpace).head? == some '(' then .function else .name)) := by
  unfold nameShade
  cases rest with
  | nil =>
    cases b
    · simp
    · simp only [Bool.and_true, ite_true]
      split <;> simp_all
  | cons d r =>
    cases b
    · simp
    · simp only [hend d rfl, Bool.not_false, Bool.and_true, ite_true]
      split <;> simp_all

/-- The shade of a whole word: its kind's when it is reserved and the boundary
holds, a name's otherwise. -/
theorem nameShade_mem (b : Bool) (x : String) {rest : List Char}
    (hend : ∀ d ∈ rest.head?, wordChar.contains d = false) :
    nameShade b x rest ∈
      (if ((TokenKind.keyword? x).getD .ident).isReserved && !b then TokenKind.ident.shades
      else ((TokenKind.keyword? x).getD .ident).shades) := by
  have hname : (if (rest.dropWhile isSpace).head? == some '(' then Shade.function else .name) ∈
      TokenKind.ident.shades := by
    split <;> simp [TokenKind.shades]
  rw [nameShade_of_ends b x hend]
  rcases wordShade?_of_keyword? x with ⟨hk, hs⟩ | ⟨k, s, hk, hs, hmem, hres⟩
  · rw [hk]
    cases b <;> simpa [hs, TokenKind.isReserved] using hname
  · rw [hk]
    cases b
    · simpa [hres] using hname
    · simpa [hs] using hmem

/-- Without a word before it, the boundary fails exactly after a digit. -/
theorem boundaryAfter_eq {prev : Option Char}
    (h : ∀ d ∈ prev, d.isDigit = true ∨ wordChar.contains d = false) :
    (!boundaryAfter prev) = prev.any Char.isDigit := by
  cases prev with
  | none => rfl
  | some d =>
    simp only [boundaryAfter, Option.all_some, Option.any_some, Bool.not_not]
    rcases h d rfl with hd | hd
    · rw [hd, wordChar_of_isDigit hd]
    · rw [hd]
      cases hdig : d.isDigit
      · rfl
      · rw [wordChar_of_isDigit hdig] at hd
        cases hd

/-- After characters none of which is a word character, the boundary holds. -/
theorem boundaryAfter_of_forall {cs : List Char} (h : ∀ d ∈ cs, wordChar.contains d = false) :
    boundaryAfter cs.getLast? = true := by
  cases hl : cs.getLast? with
  | none => rfl
  | some d => simp [boundaryAfter, h d (List.mem_of_getLast? hl)]

end Shades

/-! ## Clean segments -/

section Clean

variable {seg : Segment} {rest : List Char}

/-- A closed string literal ends in its quote. -/
theorem Quoted.getLast? {g : Bool} {body : List Char} (h : Quoted g body) :
    body.getLast? = some '"' := by
  induction h with
  | close => rfl
  | char _ _ _ _ ih => rw [List.getLast?_cons, ih]; rfl
  | escape _ _ ih => rw [List.getLast?_cons, List.getLast?_cons, ih]; rfl

/-- The first character of a clean segment is white space only for a blank, and a
word character to the highlighter only when it is one to scanning. -/
theorem Segment.Clean.head_facts (hc : seg.Clean) (hv : seg.Valid rest) :
    ∀ c ∈ seg.chars.head?, (isSpace c = true → seg.isWhite = true) ∧
      (wordChar.contains c = true → isWordChar c = true) := by
  intro c hc'
  -- a character of a word or a number is no white space
  have word : isWordChar c = true → (isSpace c = true → seg.isWhite = true) ∧
      (wordChar.contains c = true → isWordChar c = true) := fun hw =>
    ⟨fun hs => (by rw [isSpace_of_isWordChar hw] at hs; cases hs), fun _ => hw⟩
  cases seg with
  | blank b =>
    simp only [Segment.chars, List.head?_cons, Option.mem_def, Option.some.injEq] at hc'
    subst hc'
    exact ⟨fun _ => rfl, fun h => by rw [(isBlank_facts hv).2] at h; cases h⟩
  | comment cs =>
    obtain ⟨⟨body, rfl | rfl, -⟩, -⟩ := hv <;>
      simp only [Segment.chars, List.head?_cons, Option.mem_def, Option.some.injEq] at hc' <;>
      subst hc' <;> exact ⟨fun h => absurd h (by decide), fun h => absurd h (by decide +kernel)⟩
  | token k x cs =>
    simp only [Segment.chars] at hc' ⊢
    cases hv with
    | word hs _ _ =>
      simp only [List.head?_cons, Option.mem_def, Option.some.injEq] at hc'
      exact word (hc' ▸ isWordChar_of_isWordStart hs)
    | number _ hds _ => exact word (isWordChar_of_isDigit (hds c (List.mem_of_mem_head? hc')))
    | string _ =>
      simp only [List.head?_cons, Option.mem_def, Option.some.injEq] at hc'
      subst hc'
      exact ⟨fun h => absurd h (by decide), fun h => absurd h (by decide +kernel)⟩
    | pair hk =>
      simp only [List.head?_cons, Option.mem_def, Option.some.injEq] at hc'
      obtain ⟨hsp, -, -, -, -, -, -, hw, -⟩ := pair?_shade_facts hk
      subst hc'
      exact ⟨fun h => (by rw [hsp] at h; cases h), fun h => (by rw [hw] at h; cases h)⟩
    | single hk _ _ =>
      simp only [List.head?_cons, Option.mem_def, Option.some.injEq] at hc'
      obtain ⟨hsp, -, -, -, -, hw⟩ := single?_shade_facts hk
      subst hc'
      exact ⟨fun h => (by rw [hsp] at h; cases h), fun h => (by rw [hw] at h; cases h)⟩
  | illegal | badString => exact hc.elim

/-- A word that follows a clean segment does not go on from its last character. -/
theorem Segment.Clean.last_apart (hc : seg.Clean) (hv : seg.Valid rest) :
    WordApart seg.chars.getLast? rest := by
  intro c hc' hw d hd
  cases seg with
  | blank b =>
    simp only [Segment.chars, List.getLast?_singleton, Option.mem_def, Option.some.injEq] at hd
    exact .inr (hd ▸ (isBlank_facts hv).2)
  | comment cs =>
    -- a comment runs to the end of its line, and no word starts with a line feed
    obtain ⟨-, hend | hend⟩ := hv
    · rw [hend] at hc'
      cases hc'
    · rw [hend, Option.mem_def, Option.some.injEq] at hc'
      subst hc'
      exact absurd hw (by decide)
  | token k x cs =>
    cases hv with
    | word _ _ hr =>
      -- a word runs on as long as word characters do
      have := hr c hc'
      rw [isWordChar_of_isWordStart hw] at this
      cases this
    | number _ hds _ => exact .inl (hds d (List.mem_of_getLast? hd))
    | string hq =>
      simp only [Segment.chars, List.getLast?_cons, hq.getLast?, Option.getD_some, Option.mem_def,
        Option.some.injEq] at hd
      subst hd
      exact .inr (by decide +kernel)
    | pair hk =>
      simp only [Segment.chars, List.getLast?_cons, Option.getD_some, Option.mem_def,
        Option.some.injEq] at hd
      exact .inr (hd ▸ (pair?_shade_facts hk).2.2.2.2.2.2.2.2)
    | single hk _ _ =>
      simp only [Segment.chars, List.getLast?_singleton, Option.mem_def, Option.some.injEq] at hd
      exact .inr (hd ▸ (single?_shade_facts hk).2.2.2.2.2)
  | illegal | badString => exact hc.elim

/-- Every clean segment but a blank has shades. -/
theorem Segment.shades_of_clean (hc : seg.Clean) (hb : seg.isWhite = false) (before : Option Char) :
    ∃ ok, seg.shades before = some ok := by
  cases seg with
  | blank => cases hb
  | comment => exact ⟨_, rfl⟩
  | token => exact ⟨_, rfl⟩
  | illegal | badString => exact hc.elim

theorem Segment.isWhite_of_shades {before : Option Char} {ok : List Shade}
    (h : seg.shades before = some ok) : seg.isWhite = false := by
  cases seg <;> first | rfl | cases h

theorem Segment.blank_chars (hv : seg.Valid rest) (hb : seg.isWhite = true) :
    ∀ d ∈ seg.chars, isBlank d = true := by
  cases seg with
  | blank b => simpa [Segment.chars, Segment.Valid] using hv
  | _ => cases hb

end Clean

/-! ## Cuts -/

section Cut

variable {segs : List Segment}

theorem Segment.Cut.of_append {xs : List Segment} (h : Segment.Cut (xs ++ segs)) : Segment.Cut segs := by
  induction xs with
  | nil => exact h
  | cons x xs ih => exact ih h.2

theorem Segment.Cut.valid_of_mem (h : Segment.Cut segs) : ∀ x ∈ segs, ∃ rest, x.Valid rest := by
  induction segs with
  | nil => simp
  | cons x xs ih =>
    intro y hy
    rcases List.mem_cons.1 hy with rfl | hy
    · exact ⟨_, h.1⟩
    · exact ih h.2 y hy

/-- The first character of a clean cut is the first of its first segment. -/
theorem Segment.Cut.head_facts (h : Segment.Cut segs) (hc : ∀ x ∈ segs, x.Clean) :
    ∀ c ∈ (segs.flatMap Segment.chars).head?, (isSpace c = true → ∀ x ∈ segs.head?, x.isWhite = true) ∧
      (wordChar.contains c = true → isWordChar c = true) := by
  cases segs with
  | nil => simp
  | cons x xs =>
    intro c hc'
    rw [List.flatMap_cons, List.head?_append_of_ne_nil _ (Segment.chars_ne_nil h.1)] at hc'
    obtain ⟨hsp, hw⟩ := (hc x (by simp)).head_facts h.1 c hc'
    refine ⟨fun hs y hy => ?_, hw⟩
    simp only [List.head?_cons, Option.mem_def, Option.some.injEq] at hy
    exact hy ▸ hsp hs

/-- The characters of blank segments are blanks. -/
theorem Segment.Cut.blanks {xs : List Segment} (h : Segment.Cut (xs ++ segs))
    (hb : ∀ x ∈ xs, x.isWhite = true) : ∀ d ∈ xs.flatMap Segment.chars, isBlank d = true := by
  intro d hd
  obtain ⟨x, hx, hd⟩ := List.mem_flatMap.1 hd
  obtain ⟨rest, hv⟩ := h.valid_of_mem x (List.mem_append_left _ hx)
  exact Segment.blank_chars hv (hb x hx) d hd

/-- The character before a segment, past a nonempty stretch `xs`. -/
theorem getLast?_append_or {xs : List Char} (hxs : xs ≠ []) (ys : List Char) (p : Option Char) :
    (xs ++ ys).getLast?.or p = ys.getLast?.or xs.getLast? := by
  rw [List.getLast?_append, Option.or_assoc, List.getLast?_eq_some_getLast hxs, Option.some_or]

/-- Blanks in front of a segment that is no blank are all before it. -/
theorem Segment.blanks_before {bls rest pre post : List Segment} {seg : Segment}
    (h : bls ++ rest = pre ++ seg :: post) (hb : ∀ x ∈ bls, x.isWhite = true)
    (hs : seg.isWhite = false) : ∃ pre', pre = bls ++ pre' ∧ rest = pre' ++ seg :: post := by
  rcases List.append_eq_append_iff.1 h with ⟨a, hpre, hrest⟩ | ⟨c, hbls, hpost⟩
  · exact ⟨a, hpre, hrest⟩
  · cases c with
    | nil => exact ⟨[], by simpa using hbls.symm, by simpa using hpost.symm⟩
    | cons x c =>
      simp only [List.cons_append, List.cons.injEq] at hpost
      have := hb x (hbls ▸ List.mem_append_right _ (List.mem_cons_self ..))
      rw [← hpost.1, hs] at this
      cases this

end Cut

/-! ## The runs over a segment -/

/-- One run of a whole stretch of text. -/
theorem Lit.Tiles.single {cs : List Char} {s : Shade} {i : Nat} (h : cs ≠ []) :
    Lit.Tiles [⟨i, s, String.ofList cs⟩] i cs := by
  have h' : Lit.Tiles [⟨i, s, String.ofList cs⟩] i ((String.ofList cs).toList ++ []) :=
    .cons (by simpa using h) (.nil _)
  simpa using h'

/-- One run of the whole stretch `c :: more`, with the boundary its last character makes. -/
theorem highlightFrom_one_run {b : Bool} {c : Char} {more rest : List Char} {s : Shade} (i : Nat)
    (h : codeRun b c (more ++ rest) = ⟨s, more, rest, .code⟩) :
    highlightFrom .code b i (c :: more ++ rest) =
        [⟨i, s, String.ofList (c :: more)⟩] ++
          highlightFrom .code (boundaryAfter (c :: more).getLast?) (i + (c :: more).length) rest ∧
      Lit.Tiles [⟨i, s, String.ofList (c :: more)⟩] i (c :: more) := by
  refine ⟨?_, ?_⟩
  · rw [highlightFrom_code_run h, List.getLast?_cons]
    simp [boundaryAfter]
  · exact Lit.Tiles.single (List.cons_ne_nil c more)

/-- Blanks next to each other make one text run, after which the boundary holds. -/
theorem highlightFrom_blanks {bs rest : List Char} (hne : bs ≠ []) (hbs : ∀ d ∈ bs, isBlank d = true)
    (hr : ∀ d ∈ rest.head?, isSpace d = false) (b : Bool) (i : Nat) :
    ∃ R, highlightFrom .code b i (bs ++ rest) = R ++ highlightFrom .code true (i + bs.length) rest ∧
      Lit.Tiles R i bs := by
  obtain ⟨c, bs, rfl⟩ := List.exists_cons_of_ne_nil hne
  have hrun : codeRun b c (bs ++ rest) = ⟨.text, bs, rest, .code⟩ :=
    codeRun_blank (isBlank_facts (hbs c (by simp))).1
      (fun d hd => (isBlank_facts (hbs d (by simp [hd]))).1) hr
  obtain ⟨h, ht⟩ := highlightFrom_one_run i hrun
  rw [boundaryAfter_of_forall (fun d hd => (isBlank_facts (hbs d hd)).2)] at h
  exact ⟨_, h, ht⟩

/-- **One segment.** The runs over a comment or a token lie within it, shaded as it
may be, when the next character is a word character to the highlighter only if
it is one to scanning, and a word in it does not go on from the character before. -/
theorem Segment.highlight_step {seg : Segment} {rest : List Char} {prev : Option Char}
    {ok : List Shade} (hv : seg.Valid rest) (hok : seg.shades prev = some ok)
    (hnext : ∀ d ∈ rest.head?, wordChar.contains d = true → isWordChar d = true)
    (hprev : WordApart prev seg.chars) (i : Nat) :
    ∃ R, highlightFrom .code (boundaryAfter prev) i (seg.chars ++ rest) =
        R ++ highlightFrom .code (boundaryAfter seg.chars.getLast?) (i + seg.chars.length) rest ∧
      Lit.Tiles R i seg.chars ∧ ∀ l ∈ R, l.shade ∈ ok := by
  cases seg with
  | blank | illegal | badString => cases hok
  | comment cs =>
    simp only [Segment.shades, Option.some.injEq] at hok
    subst hok
    obtain ⟨⟨body, rfl | rfl, hbody⟩, hend⟩ := hv
    · obtain ⟨h, ht⟩ := highlightFrom_one_run i
        (codeRun_comment (b := boundaryAfter prev) (.inl rfl) hbody hend)
      exact ⟨_, h, ht, by simp⟩
    · have hrun : codeRun (boundaryAfter prev) '/' (('/' :: body) ++ rest) =
          ⟨.comment, '/' :: body, rest, .code⟩ :=
        codeRun_comment (.inr ⟨rfl, rfl⟩) (by simp [hbody]) hend
      obtain ⟨h, ht⟩ := highlightFrom_one_run i hrun
      exact ⟨_, h, ht, by simp⟩
  | token k x cs =>
    simp only [Segment.shades, Option.some.injEq] at hok
    subst hok
    simp only [Segment.chars] at hprev ⊢
    cases hv with
    | @word c w _ hs hw hr =>
      obtain ⟨h, ht⟩ := highlightFrom_one_run i (codeRun_word (b := boundaryAfter prev) hs hw hr)
      refine ⟨_, h, ht, ?_⟩
      -- the word ends where scanning ends it, so only the boundary before it matters
      have hend : ∀ d ∈ rest.head?, wordChar.contains d = false := fun d hd => by
        cases hwd : wordChar.contains d
        · rfl
        · have := hr d hd
          rw [hnext d hd hwd] at this
          cases this
      simp only [List.mem_singleton, forall_eq]
      rw [← boundaryAfter_eq (hprev c rfl hs)]
      exact nameShade_mem _ _ hend
    | number hne hds hr =>
      obtain ⟨d, ds, rfl⟩ := List.exists_cons_of_ne_nil hne
      have hrun : codeRun (boundaryAfter prev) d (ds ++ rest) = ⟨.number, ds, rest, .code⟩ :=
        codeRun_digits (hds d (by simp)) (fun x hx => hds x (by simp [hx])) hr
      obtain ⟨h, ht⟩ := highlightFrom_one_run i hrun
      exact ⟨_, h, ht, by simp [TokenKind.isReserved, TokenKind.shades]⟩
    | @string body _ hq =>
      -- the opening quote, then the literal up to its closing quote
      have hrun : codeRun (boundaryAfter prev) '"' ([] ++ (body ++ rest)) =
          ⟨.string, [], body ++ rest, .literal⟩ := codeRun_quote _
      have h := highlightFrom_code_run (i := i) hrun
      obtain ⟨R, hR, hRt, hRs⟩ := highlightFrom_quoted (body.length + 1) (Nat.lt_succ_self _) hq
        (!wordChar.contains ((['"'].getLast?).getD '"')) (i + ([].length + 1)) rest
      rw [hR] at h
      have hlast : boundaryAfter ('"' :: body).getLast? = true := by
        rw [List.getLast?_cons, hq.getLast?]
        decide +kernel
      refine ⟨⟨i, .string, String.ofList ['"']⟩ :: R, ?_, ?_, ?_⟩
      · rw [hlast]
        simpa [Nat.add_assoc, Nat.add_comm 1] using h
      · simpa using (Lit.Tiles.single (s := .string) (i := i) (List.cons_ne_nil '"' [])).append
          (by simpa using hRt)
      · intro l hl
        simp only [TokenKind.isReserved, Bool.false_and, Bool.false_eq_true, if_false,
          TokenKind.shades, List.mem_cons, List.not_mem_nil, or_false]
        rcases List.mem_cons.1 hl with rfl | hl
        · exact .inl rfl
        · exact hRs l hl
    | @pair c d _ _ hk =>
      obtain ⟨hres, hshades⟩ := pair?_shades hk
      have hrun : codeRun (boundaryAfter prev) c ([d] ++ rest) = ⟨.operator, [d], rest, .code⟩ :=
        codeRun_pair hk
      obtain ⟨h, ht⟩ := highlightFrom_one_run i hrun
      exact ⟨_, h, ht, by simp [hres, hshades]⟩
    | @single c _ _ hk hp hcom =>
      obtain ⟨hres, hshade⟩ := single?_shades hk
      have hrun : codeRun (boundaryAfter prev) c ([] ++ rest) = ⟨singleShade c, [], rest, .code⟩ :=
        codeRun_single hk hp hcom
      obtain ⟨h, ht⟩ := highlightFrom_one_run i hrun
      exact ⟨_, h, ht, by simp [hres, hshade]⟩

/-! ## The runs over a cut -/

theorem WordApart.of_append {prev : Option Char} {cs ds : List Char} (h : WordApart prev (cs ++ ds))
    (hcs : cs ≠ []) : WordApart prev cs := by
  intro c hc
  exact h c (by rwa [List.head?_append_of_ne_nil _ hcs])

/-- The first stretch of a clean cut: one comment or token, or blanks up to the
next segment. Its runs tile it, those over a comment or a token with its shades,
and the highlighter goes on after it with the boundary its last character makes. -/
theorem Segment.Cut.highlight_first {segs : List Segment} (hcut : Segment.Cut segs)
    (hclean : ∀ x ∈ segs, x.Clean) {prev : Option Char} (hprev : WordApart prev (segs.flatMap Segment.chars))
    (hne : segs ≠ []) (i : Nat) :
    ∃ g rest R₀, segs = g ++ rest ∧ g.flatMap Segment.chars ≠ [] ∧
      highlightFrom .code (boundaryAfter prev) i (segs.flatMap Segment.chars) =
        R₀ ++ highlightFrom .code (boundaryAfter (g.flatMap Segment.chars).getLast?)
          (i + (g.flatMap Segment.chars).length) (rest.flatMap Segment.chars) ∧
      Lit.Tiles R₀ i (g.flatMap Segment.chars) ∧
      WordApart (g.flatMap Segment.chars).getLast? (rest.flatMap Segment.chars) ∧
      ((∀ x ∈ g, x.isWhite = true) ∨
        ∃ x, g = [x] ∧ ∀ ok, x.shades prev = some ok → ∀ l ∈ R₀, l.shade ∈ ok) := by
  obtain ⟨x, xs, rfl⟩ := List.exists_cons_of_ne_nil hne
  have hxne := Segment.chars_ne_nil hcut.1
  cases hx : x.isWhite with
  | false =>
    -- a comment or a token: its own runs
    obtain ⟨ok₀, hok₀⟩ := Segment.shades_of_clean (hclean x (by simp)) hx prev
    have hnext := (hcut.2.head_facts fun y hy => hclean y (by simp [hy]))
    obtain ⟨R, hR, hRt, hRs⟩ := Segment.highlight_step hcut.1 hok₀ (fun d hd => (hnext d hd).2)
      (hprev.of_append hxne) i
    refine ⟨[x], xs, R, rfl, by simpa using hxne, by simpa using hR, by simpa using hRt,
      by simpa using (hclean x (by simp)).last_apart hcut.1, .inr ⟨x, rfl, fun ok hok => ?_⟩⟩
    rw [hok₀, Option.some.injEq] at hok
    exact hok ▸ hRs
  | true =>
    -- blanks up to the next segment: one text run
    have hsplit := (List.takeWhile_append_dropWhile (p := Segment.isWhite) (l := x :: xs)).symm
    set bls := (x :: xs).takeWhile Segment.isWhite
    set rest := (x :: xs).dropWhile Segment.isWhite
    have hwhite : ∀ y ∈ bls, y.isWhite = true := fun y hy => List.mem_takeWhile_imp hy
    have hbne : bls.flatMap Segment.chars ≠ [] := by
      simp only [bls, List.takeWhile_cons_of_pos hx, List.flatMap_cons]
      exact fun h => hxne (List.append_eq_nil_iff.1 h).1
    rw [hsplit] at hcut hclean
    have hrcut := Segment.Cut.of_append hcut
    have hblanks := hcut.blanks hwhite
    have hrest : ∀ d ∈ (rest.flatMap Segment.chars).head?, isSpace d = false := by
      intro d hd
      cases hsp : isSpace d
      · rfl
      · -- the first segment past the blanks is no blank
        obtain ⟨y, ys, hy⟩ : ∃ y ys, rest = y :: ys := by
          cases h : rest with
          | nil => rw [h] at hd; cases hd
          | cons y ys => exact ⟨y, ys, rfl⟩
        have hyw := ((hrcut.head_facts fun z hz => hclean z (List.mem_append_right _ hz)) d hd).1 hsp y
          (by simp [hy])
        have hnot : y.isWhite = false := by
          have h := List.head?_dropWhile_not Segment.isWhite (x :: xs)
          rw [show ((x :: xs).dropWhile Segment.isWhite).head? = some y by
            show rest.head? = some y
            rw [hy]; rfl] at h
          exact h
        rw [hyw] at hnot
        cases hnot
    obtain ⟨R, hR, hRt⟩ := highlightFrom_blanks hbne hblanks hrest (boundaryAfter prev) i
    have hlast := boundaryAfter_of_forall fun d hd => (isBlank_facts (hblanks d hd)).2
    refine ⟨bls, rest, R, hsplit, hbne, ?_, hRt, ?_, .inl hwhite⟩
    · rw [hlast, hsplit, List.flatMap_append]
      exact hR
    · intro c _ _ d hd
      exact .inr (isBlank_facts (hblanks d (List.mem_of_getLast? hd))).2

/-- Where a segment that is no blank stands against the first stretch of a cut:
past it, or that stretch itself. -/
theorem Segment.split_first {g rest pre post : List Segment} {seg : Segment}
    (h : g ++ rest = pre ++ seg :: post) (hs : seg.isWhite = false)
    (hg : (∀ x ∈ g, x.isWhite = true) ∨ ∃ x, g = [x]) :
    (∃ pre', pre = g ++ pre' ∧ rest = pre' ++ seg :: post) ∨ (pre = [] ∧ g = [seg] ∧ rest = post) := by
  rcases hg with hw | ⟨x, rfl⟩
  · exact .inl (Segment.blanks_before h hw hs)
  · cases pre with
    | nil =>
      simp only [List.singleton_append, List.nil_append, List.cons.injEq] at h
      exact .inr ⟨rfl, by rw [h.1], h.2⟩
    | cons y pre =>
      simp only [List.cons_append, List.cons.injEq] at h
      exact .inl ⟨pre, by rw [h.1]; rfl, h.2⟩

/-- Runs of a first stretch `g`, in front of runs that tile what follows it. -/
theorem Lit.Tiles.prepend {R₀ A R B : List Lit} {i : Nat} {g pre cs post : List Char}
    (h₀ : Lit.Tiles R₀ i g) (hA : Lit.Tiles A (i + g.length) pre)
    (hR : Lit.Tiles R (i + g.length + pre.length) cs)
    (hB : Lit.Tiles B (i + g.length + pre.length + cs.length) post) :
    Lit.Tiles (R₀ ++ A) i (g ++ pre) ∧ Lit.Tiles R (i + (g ++ pre).length) cs ∧
      Lit.Tiles B (i + (g ++ pre).length + cs.length) post :=
  ⟨h₀.append hA, by simpa [Nat.add_assoc] using hR, by simpa [Nat.add_assoc] using hB⟩

/-- **The runs over a cut.** Over a clean cut read in plain code after `prev`, the
runs before a comment or a token tile what comes before it, those over it tile it
with its shades, and those after it tile the rest. By induction on the cut, one
first stretch (`Segment.Cut.highlight_first`) at a time. -/
theorem Segment.highlight_cut (n : Nat) : ∀ (segs : List Segment), segs.length < n →
    Segment.Cut segs → (∀ x ∈ segs, x.Clean) →
    ∀ (prev : Option Char), WordApart prev (segs.flatMap Segment.chars) →
    ∀ (i : Nat) (pre : List Segment) (seg : Segment) (post : List Segment) (ok : List Shade),
      segs = pre ++ seg :: post → seg.shades ((pre.flatMap Segment.chars).getLast?.or prev) = some ok →
      ∃ A R B, highlightFrom .code (boundaryAfter prev) i (segs.flatMap Segment.chars) = A ++ R ++ B ∧
        Lit.Tiles A i (pre.flatMap Segment.chars) ∧
        Lit.Tiles R (i + (pre.flatMap Segment.chars).length) seg.chars ∧ (∀ l ∈ R, l.shade ∈ ok) ∧
        Lit.Tiles B (i + (pre.flatMap Segment.chars).length + seg.chars.length)
          (post.flatMap Segment.chars) := by
  induction n with
  | zero => intro segs h; exact absurd h (Nat.not_lt_zero _)
  | succ n ih =>
    intro segs hlen hcut hclean prev hprev i pre seg post ok hsegs hok
    obtain ⟨g, rest, R₀, rfl, hne, hrun, hR₀, hapart, hshape⟩ :=
      hcut.highlight_first hclean hprev (by simp [hsegs]) i
    have hs := Segment.isWhite_of_shades hok
    rcases Segment.split_first hsegs hs (hshape.imp_right fun ⟨x, hx, _⟩ => ⟨x, hx⟩) with
      ⟨pre', rfl, rfl⟩ | ⟨rfl, rfl, rfl⟩
    · -- the segment lies past the first stretch: the induction hypothesis, from its end
      have hbefore : ((g ++ pre').flatMap Segment.chars).getLast?.or prev =
          (pre'.flatMap Segment.chars).getLast?.or (g.flatMap Segment.chars).getLast? := by
        rw [List.flatMap_append]
        exact getLast?_append_or hne _ _
      have hg : g.length ≠ 0 := fun h => hne (by simp [List.length_eq_zero_iff.1 h])
      have hlen' : (pre' ++ seg :: post).length < n := by
        simp only [List.length_append, List.length_cons] at hlen ⊢
        omega
      obtain ⟨A, R, B, h, hA, hR, hRs, hB⟩ := ih _ hlen' (Segment.Cut.of_append hcut)
        (fun x hx => hclean x (List.mem_append_right _ hx)) _ hapart
        (i + (g.flatMap Segment.chars).length) pre' seg post ok rfl (hbefore ▸ hok)
      obtain ⟨hA', hR', hB'⟩ := Lit.Tiles.prepend hR₀ hA hR hB
      refine ⟨R₀ ++ A, R, B, ?_, by simpa using hA', by simpa using hR', hRs, by simpa using hB'⟩
      rw [hrun, h]
      simp
    · -- the segment is the first stretch
      obtain hw | ⟨x, hx, hRs⟩ := hshape
      · rw [hw seg (by simp)] at hs
        cases hs
      · rw [List.singleton_inj] at hx
        subst hx
        refine ⟨[], R₀, _, by simpa using hrun, .nil _, by simpa using hR₀,
          hRs ok (by simpa using hok), highlightFrom_tiles _ _ _ _⟩

/-- Runs that tile what comes before a stretch, the stretch and what comes after it
keep the stretch to the runs over it. -/
theorem Lit.shadedIn_of_tiles {A R B : List Lit} {i : Nat} {pre cs post : List Char} {ok : List Shade}
    (hA : Lit.Tiles A i pre) (hR : Lit.Tiles R (i + pre.length) cs) (hRs : ∀ l ∈ R, l.shade ∈ ok)
    (hB : Lit.Tiles B (i + pre.length + cs.length) post) :
    Lit.ShadedIn (A ++ R ++ B) (i + pre.length) cs.length ok := by
  intro l hl hlo hhi
  rcases List.mem_append.1 hl with hl | hl
  · rcases List.mem_append.1 hl with hl | hl
    · -- a run before the stretch ends where it starts
      have := (hA.bounds l hl).2
      omega
    · obtain ⟨h₁, h₂⟩ := hR.bounds l hl
      exact ⟨h₁, h₂, hRs l hl⟩
  · -- a run after the stretch starts where it ends
    have := (hB.bounds l hl).1
    omega

/-- **Highlighting agrees with scanning.** When a text scans without a report, the
highlighter's runs cut it, and over the cut the scan reads, the runs that meet a
comment or a token lie within it and are shaded as it may be: comment runs for a
comment; for a token its kind's shades, but a name's for a reserved word right
after a digit. -/
theorem highlight_shades_tokens (file s : String) (hs : (scan file s).diagnostics = []) :
    Lit.Tiles (highlight s) 0 s.toList ∧
      ∃ segs : List Segment, Segment.Cut segs ∧ segs.flatMap Segment.chars = s.toList ∧
        Segment.tokensFrom file Position.first segs = (scan file s).tokens ∧
        ∀ pre seg post, segs = pre ++ seg :: post →
          ∀ ok ∈ seg.shades (pre.flatMap Segment.chars).getLast?,
            Lit.ShadedIn (highlight s) (pre.flatMap Segment.chars).length seg.chars.length ok := by
  obtain ⟨segs, hcut, hchars, htoks, hclean⟩ := scanFrom_cut file s.toList Position.first
  refine ⟨highlight_tiles s, segs, hcut, hchars, htoks, fun pre seg post hsegs ok hok => ?_⟩
  obtain ⟨A, R, B, h, hA, hR, hRs, hB⟩ := Segment.highlight_cut (segs.length + 1) segs
    (Nat.lt_succ_self _) hcut (hclean hs) none (by simp [WordApart]) 0 pre seg post ok hsegs
    (by simpa using hok)
  have hruns : highlight s = A ++ R ++ B := by
    rw [highlight, ← hchars]
    exact h
  rw [hruns]
  simpa using Lit.shadedIn_of_tiles hA hR hRs hB

theorem highlight_shades_tokens_declaration :
    (scan "main.egg" "int x; // x").diagnostics = [] ∧
      Lit.Tiles (highlight "int x; // x") 0 "int x; // x".toList ∧
      ∃ segs : List Segment, Segment.Cut segs ∧ segs.flatMap Segment.chars = "int x; // x".toList ∧
        Segment.tokensFrom "main.egg" Position.first segs = (scan "main.egg" "int x; // x").tokens ∧
        ∀ pre seg post, segs = pre ++ seg :: post →
          ∀ ok ∈ seg.shades (pre.flatMap Segment.chars).getLast?,
            Lit.ShadedIn (highlight "int x; // x") (pre.flatMap Segment.chars).length
              seg.chars.length ok :=
  have hs : (scan "main.egg" "int x; // x").diagnostics = [] := by decide +kernel
  ⟨hs, highlight_shades_tokens "main.egg" "int x; // x" hs⟩

/-- Scanning reads `1if` as a number then the keyword `if`, but the highlighter,
for which a digit is a word character, sees no word boundary before `if` and
shades it as a name. -/
theorem highlight_misses_keyword_after_digit :
    (scan "main.egg" "1if").diagnostics = [] ∧
      (scan "main.egg" "1if").tokens.map Token.kind = [.intLit, .kwIf] ∧
      (highlight "1if").map (fun l => (l.index, l.shade, l.text)) =
        [(0, .number, "1"), (1, .name, "if")] := by
  decide +kernel

end EggFront
