import Mathlib
import EggFront.Highlight
import EggFront.Proofs.Token.Segments

/-!
# The runs of the highlighter

`highlight` cuts a text into runs, one after another from index 0, with nothing
left over and none empty (`highlightFrom_tiles`).

The rest of this module says what the highlighter makes, in plain code, of each
kind of stretch that scanning reads as one piece: blanks, however many, are one
text run; a comment, a run of digits, a word or an operator is one run of its
own; a closed string literal is its opening quote, its body in string and escape
runs, and its closing quote, after which the highlighter is back in plain code.
Each lemma reads the highlighter over `cs ++ rest` as the runs of `cs`, then the
highlighter over `rest`, so the lemmas chain along a text.

What the highlighter makes of a word hangs on the characters around it: a
reserved word is shaded as such only with no word character on either side
(`nameShade`).
-/

namespace EggFront

/-! ## Runs that cut a text -/

/-- The runs `ls` cut the characters `cs` from index `i` on: each starts where the
one before it ends and holds at least one character, and together they spell `cs`. -/
inductive Lit.Tiles : List Lit → Nat → List Char → Prop
  | nil (i : Nat) : Lit.Tiles [] i []
  | cons {l : Lit} {ls : List Lit} {cs : List Char} : l.text.toList ≠ [] →
      Lit.Tiles ls (l.index + l.text.length) cs → Lit.Tiles (l :: ls) l.index (l.text.toList ++ cs)

namespace Lit.Tiles

variable {ls ls' : List Lit} {i : Nat} {cs cs' : List Char}

/-- Runs that cut one text, then runs that cut the next, cut both. -/
theorem append (h : Lit.Tiles ls i cs) (h' : Lit.Tiles ls' (i + cs.length) cs') :
    Lit.Tiles (ls ++ ls') i (cs ++ cs') := by
  induction h with
  | nil => simpa using h'
  | @cons l ls cs hne _ ih =>
    rw [List.cons_append, List.append_assoc]
    refine .cons hne (ih ?_)
    simpa [String.length_toList, Nat.add_assoc] using h'

/-- Each run of a cut lies within the stretch it cuts. -/
theorem bounds (h : Lit.Tiles ls i cs) :
    ∀ l ∈ ls, i ≤ l.index ∧ l.index + l.text.length ≤ i + cs.length := by
  induction h with
  | nil => simp
  | @cons l ls cs _ _ ih =>
    intro x hx
    simp only [List.length_append, String.length_toList] at ih ⊢
    rcases List.mem_cons.1 hx with rfl | hx
    · omega
    · have := ih x hx
      omega

end Lit.Tiles

/-- One run at the front of `c :: r`, then the runs of what it leaves, from the
index after it and with the boundary its last character makes. -/
theorem highlightFrom_cons (m : Mode) (b : Bool) (i : Nat) (c : Char) (r : List Char) :
    highlightFrom m b i (c :: r) =
      ⟨i, (nextRun m b c r).shade, String.ofList (c :: (nextRun m b c r).more)⟩ ::
        highlightFrom (nextRun m b c r).mode
          (!wordChar.contains (((c :: (nextRun m b c r).more).getLast?).getD c))
          (i + (c :: (nextRun m b c r).more).length) (nextRun m b c r).rest := by
  rw [highlightFrom]

/-- **The runs cut the text.** Highlighting from index `i` cuts the text, from `i`
on, into runs. -/
theorem highlightFrom_tiles (m : Mode) (b : Bool) (i : Nat) (cs : List Char) :
    Lit.Tiles (highlightFrom m b i cs) i cs := by
  fun_induction highlightFrom m b i cs with
  | case1 => exact .nil _
  | case2 m b i c r run taken last ih =>
    rw [← nextRun_more_append m b c r]
    have h := Lit.Tiles.cons (l := ⟨i, run.shade, String.ofList taken⟩) (by simp [taken])
      (by simpa [taken, Nat.add_comm] using ih)
    simpa [taken, run] using h

theorem highlight_tiles (text : String) : Lit.Tiles (highlight text) 0 text.toList :=
  highlightFrom_tiles .code true 0 text.toList

/-! ## One run at a time -/

/-- A run of plain code that takes `more` after `c` and leaves `rest`. -/
theorem highlightFrom_code_run {b : Bool} {i : Nat} {c : Char} {more rest : List Char} {s : Shade}
    {m : Mode} (h : codeRun b c (more ++ rest) = ⟨s, more, rest, m⟩) :
    highlightFrom .code b i (c :: more ++ rest) =
      ⟨i, s, String.ofList (c :: more)⟩ ::
        highlightFrom m (!wordChar.contains (((c :: more).getLast?).getD c)) (i + (more.length + 1)) rest := by
  rw [List.cons_append, highlightFrom_cons]
  simp [nextRun, h]

/-- The same inside a string literal. -/
theorem highlightFrom_literal_run {b : Bool} {i : Nat} {c : Char} {more rest : List Char} {s : Shade}
    {m : Mode} (h : literalRun c (more ++ rest) = ⟨s, more, rest, m⟩) :
    highlightFrom .literal b i (c :: more ++ rest) =
      ⟨i, s, String.ofList (c :: more)⟩ ::
        highlightFrom m (!wordChar.contains (((c :: more).getLast?).getD c)) (i + (more.length + 1)) rest := by
  rw [List.cons_append, highlightFrom_cons]
  simp [nextRun, h]

/-! ## Characters -/

section Chars

variable {c d : Char} {k : TokenKind}

/-- Highlighting and scanning agree on the characters of a name. -/
theorem isNameChar_eq : isNameChar = isWordChar := rfl

/-- A letter, a digit or `_` is no white space. -/
theorem isSpace_of_isWordChar (h : isWordChar c = true) : isSpace c = false := by
  simp only [isWordChar, Char.isAlphanum, Char.isAlpha, Char.isUpper, Char.isLower, Char.isDigit,
    Bool.or_eq_true, Bool.and_eq_true, decide_eq_true_eq, ge_iff_le, UInt32.le_iff_toNat_le] at h
  unfold isSpace
  simp only [List.contains_eq_mem, decide_eq_false_iff_not, List.mem_cons, List.not_mem_nil, or_false]
  rcases h with h | rfl
  · simp at h
    omega
  · decide

/-- A digit is a word character for the highlighter. -/
theorem wordChar_of_isDigit (h : c.isDigit = true) : wordChar.contains c = true := by
  have h' := Char.isDigit_iff_toNat.1 h
  simp only [Char.reduceToNat] at h'
  obtain ⟨h₁, h₂⟩ := h'
  rw [← Char.ofNat_toNat c]
  interval_cases c.toNat <;> decide +kernel

/-- The blanks between tokens are white space and no word characters. -/
theorem isBlank_facts (h : isBlank c = true) : isSpace c = true ∧ wordChar.contains c = false := by
  simp only [isBlank, Bool.or_eq_true, decide_eq_true_eq] at h
  rcases h with ((rfl | rfl) | rfl) | rfl <;> exact ⟨by decide, by decide +kernel⟩

/-- An operator of two characters: its first character starts no other run, both
are no word characters, and the highlighter pairs them. -/
theorem pair?_shade_facts (hk : TokenKind.pair? c d = some k) :
    isSpace c = false ∧ c ≠ '#' ∧ c ≠ '/' ∧ c ≠ '"' ∧ c.isDigit = false ∧ (c.isAlpha || c = '_') = false ∧
      isPairOperator c d = true ∧ wordChar.contains c = false ∧ wordChar.contains d = false := by
  unfold TokenKind.pair? at hk
  split at hk <;> cases hk <;> exact ⟨by decide, by decide, by decide, by decide, by decide,
    by decide, by decide, by decide +kernel, by decide +kernel⟩

/-- An operator of one character starts no other run and is no word character. -/
theorem single?_shade_facts (hk : TokenKind.single? c = some k) :
    isSpace c = false ∧ c ≠ '#' ∧ c ≠ '"' ∧ c.isDigit = false ∧ (c.isAlpha || c = '_') = false ∧
      wordChar.contains c = false := by
  unfold TokenKind.single? at hk
  split at hk <;> cases hk <;> exact ⟨by decide, by decide, by decide, by decide, by decide,
    by decide +kernel⟩

/-- The highlighter pairs only the operators of two characters. -/
theorem pair?_of_isPairOperator (h : isPairOperator c d = true) : TokenKind.pair? c d ≠ none := by
  unfold isPairOperator at h
  split at h <;> simp_all [TokenKind.pair?]

end Chars

/-! ## Plain code -/

section Code

variable {b : Bool} {c : Char} {rest : List Char}

/-- White space runs as far as it goes. -/
theorem codeRun_blank {bs : List Char} (hc : isSpace c = true) (hbs : ∀ d ∈ bs, isSpace d = true)
    (hr : ∀ d ∈ rest.head?, isSpace d = false) :
    codeRun b c (bs ++ rest) = ⟨.text, bs, rest, .code⟩ := by
  obtain ⟨h₁, h₂⟩ := takeWhile_append_of_all hbs hr
  simp [codeRun, hc, h₁, h₂]

/-- A comment runs to the end of its line. -/
theorem codeRun_comment {body : List Char} (hc : c = '#' ∨ (c = '/' ∧ body.head? = some '/'))
    (hbody : '\n' ∉ body) (hr : AtLineEnd rest) :
    codeRun b c (body ++ rest) = ⟨.comment, body, rest, .code⟩ := by
  have hlf : ∀ x ∈ body, (x != '\n') = true := fun x hx => by
    simp only [bne_iff_ne, ne_eq]
    rintro rfl
    exact hbody hx
  have hend : ∀ d ∈ rest.head?, (d != '\n') = false := by
    intro d hd
    rcases hr with h | h
    · rw [h] at hd
      cases hd
    · rw [h, Option.mem_def, Option.some.injEq] at hd
      simp [← hd]
  obtain ⟨h₁, h₂⟩ := takeWhile_append_of_all hlf hend
  have hsp : isSpace c = false := by rcases hc with rfl | ⟨rfl, -⟩ <;> decide
  have hstart : (c = '#' || (c = '/' && (body ++ rest).head? == some '/')) = true := by
    rcases hc with rfl | ⟨rfl, hb⟩
    · rfl
    · cases body with
      | nil => simp at hb
      | cons x body => simp_all
  simp only [codeRun, hsp, hstart, h₁, h₂]
  simp

/-- A quote opens a string literal. -/
theorem codeRun_quote (r : List Char) : codeRun b '"' r = ⟨.string, [], r, .literal⟩ := by
  simp [codeRun, isSpace]

/-- Digits run as far as they go. -/
theorem codeRun_digits {ds : List Char} (hc : c.isDigit = true) (hds : ∀ d ∈ ds, d.isDigit = true)
    (hr : ∀ d ∈ rest.head?, d.isDigit = false) :
    codeRun b c (ds ++ rest) = ⟨.number, ds, rest, .code⟩ := by
  obtain ⟨h₁, h₂⟩ := takeWhile_append_of_all hds hr
  obtain ⟨hh, hs, hq⟩ := ne_of_isWordChar (isWordChar_of_isDigit hc)
  simp [codeRun, isSpace_of_isWordChar (isWordChar_of_isDigit hc), hh, hs, hq, hc, h₁, h₂]

/-- A word runs as far as it goes, and is shaded as `nameShade` says. -/
theorem codeRun_word {w : List Char} (hc : isWordStart c = true) (hw : ∀ d ∈ w, isWordChar d = true)
    (hr : ∀ d ∈ rest.head?, isWordChar d = false) :
    codeRun b c (w ++ rest) = ⟨nameShade b (String.ofList (c :: w)) rest, w, rest, .code⟩ := by
  obtain ⟨h₁, h₂⟩ := takeWhile_append_of_all hw hr
  obtain ⟨hh, hs, hq⟩ := ne_of_isWordChar (isWordChar_of_isWordStart hc)
  have hstart : (c.isAlpha || c = '_') = true := hc
  simp [codeRun, nameRun, isSpace_of_isWordChar (isWordChar_of_isWordStart hc), hh, hs, hq,
    isDigit_eq_false_of_isWordStart hc, hstart, isNameChar_eq, h₁, h₂]

/-- An operator of two characters is one run. -/
theorem codeRun_pair {d : Char} {k : TokenKind} (hk : TokenKind.pair? c d = some k) :
    codeRun b c (d :: rest) = ⟨.operator, [d], rest, .code⟩ := by
  obtain ⟨hsp, hh, hs, hq, hd, hw, hp, -⟩ := pair?_shade_facts hk
  simp [codeRun, hsp, hh, hs, hq, hd, hw, hp]

/-- An operator of one character is one run, when the next character does not
pair with it and, after a slash, starts no comment. -/
theorem codeRun_single {k : TokenKind} (hk : TokenKind.single? c = some k)
    (hp : ∀ d ∈ rest.head?, TokenKind.pair? c d = none) (hcom : ¬ (c = '/' ∧ rest.head? = some '/')) :
    codeRun b c rest = ⟨singleShade c, [], rest, .code⟩ := by
  obtain ⟨hsp, hh, hq, hd, hw, -⟩ := single?_shade_facts hk
  have hstart : (c = '#' || (c = '/' && rest.head? == some '/')) = false := by
    simp only [Bool.or_eq_false_iff, decide_eq_false_iff_not, Bool.and_eq_false_iff, beq_eq_false_iff_ne]
    refine ⟨hh, ?_⟩
    by_cases hc : c = '/'
    · exact .inr fun h => hcom ⟨hc, h⟩
    · exact .inl hc
  cases rest with
  | nil => simp [codeRun, hsp, hh, hq, hd, hw]
  | cons d r =>
    have hnp : isPairOperator c d = false := by
      cases h : isPairOperator c d
      · rfl
      · exact absurd (hp d rfl) (pair?_of_isPairOperator h)
    by_cases hc : c = '/'
    · have hdne : d ≠ '/' := fun h => hcom ⟨hc, by simp [h]⟩
      subst hc
      simp [codeRun, hsp, hdne, hnp]
    · simp [codeRun, hsp, hh, hc, hq, hd, hw, hnp]

end Code

/-! ## String literals -/

section Literal

variable {r : List Char}

theorem literalRun_close (r : List Char) : literalRun '"' r = ⟨.string, [], r, .code⟩ := by
  simp [literalRun]

theorem literalRun_escape {d : Char} (hd : isEscapable d = true) :
    literalRun '\\' (d :: r) = ⟨.escape, [d], r, .literal⟩ := by
  have hc : "nt'\"?\\".contains d = true := by
    simpa [String.contains, isEscapable, Bool.or_assoc] using hd
  simp [literalRun, hc]

theorem literalRun_plain {c : Char} (hc : isPlainInLiteral c = true) :
    literalRun c r = ⟨.string, r.takeWhile isPlainInLiteral, r.dropWhile isPlainInLiteral, .literal⟩ := by
  simp only [isPlainInLiteral, Bool.and_eq_true, bne_iff_ne, ne_eq] at hc
  obtain ⟨⟨h₁, h₂⟩, h₃⟩ := hc
  unfold literalRun
  split <;> simp_all

/-- The rest of a literal that a quote closes, read on: a run of plain characters
stops inside it, whatever follows. -/
theorem Quoted.plain_append {g : Bool} {body : List Char} (h : Quoted g body) (rest : List Char) :
    (body ++ rest).takeWhile isPlainInLiteral = body.takeWhile isPlainInLiteral ∧
      (body ++ rest).dropWhile isPlainInLiteral = body.dropWhile isPlainInLiteral ++ rest := by
  induction h with
  | close => simp [isPlainInLiteral]
  | @char g c r h₁ h₂ h₃ _ ih =>
    have hp : isPlainInLiteral c = true := by simp [isPlainInLiteral, h₁, h₂, h₃]
    simp [List.takeWhile_cons_of_pos hp, List.dropWhile_cons_of_pos hp, ih.1, ih.2]
  | escape => simp [isPlainInLiteral]

/-- What follows a run of plain characters in such a literal is the rest of one. -/
theorem Quoted.dropWhile_plain {g : Bool} {body : List Char} (h : Quoted g body) :
    Quoted g (body.dropWhile isPlainInLiteral) := by
  induction h with
  | close => simpa [isPlainInLiteral] using Quoted.close
  | @char g c r h₁ h₂ h₃ _ ih =>
    have hp : isPlainInLiteral c = true := by simp [isPlainInLiteral, h₁, h₂, h₃]
    simpa [List.dropWhile_cons_of_pos hp] using ih
  | escape h₁ hq => simpa [isPlainInLiteral] using Quoted.escape h₁ hq

/-- The three ways the rest of a literal with good escapes goes on. -/
theorem Quoted.good_cases {g : Bool} {body : List Char} (h : Quoted g body) (hg : g = true) :
    body = ['"'] ∨ (∃ c r, isPlainInLiteral c = true ∧ Quoted true r ∧ body = c :: r) ∨
      (∃ d r, isEscapable d = true ∧ Quoted true r ∧ body = '\\' :: d :: r) := by
  cases h with
  | close => exact .inl rfl
  | char h₁ h₂ h₃ hq =>
    subst hg
    exact .inr (.inl ⟨_, _, by simp [isPlainInLiteral, h₁, h₂, h₃], hq, rfl⟩)
  | @escape g' d r _ hq =>
    have hge : g' = true ∧ isEscapable d = true := by simpa using hg
    obtain ⟨rfl, hd⟩ := hge
    exact .inr (.inr ⟨d, r, hd, hq, rfl⟩)

/-- **The body of a literal.** Inside a string literal, the rest of it up to its
closing quote is string and escape runs, after which the highlighter is back in
plain code, at a boundary. -/
theorem highlightFrom_quoted (n : Nat) : ∀ {body : List Char}, body.length < n → Quoted true body →
    ∀ (b : Bool) (i : Nat) (rest : List Char), ∃ R,
      highlightFrom .literal b i (body ++ rest) = R ++ highlightFrom .code true (i + body.length) rest ∧
        Lit.Tiles R i body ∧ ∀ l ∈ R, l.shade = .string ∨ l.shade = .escape := by
  induction n with
  | zero => intro body hn; omega
  | succ n ih =>
    intro body hn hq b i rest
    rcases hq.good_cases rfl with rfl | ⟨c, r, hc, hr, rfl⟩ | ⟨d, r, hd, hr, rfl⟩
    · -- the closing quote
      refine ⟨[⟨i, .string, "\""⟩], ?_, ?_, by simp⟩
      · have hclose : literalRun '"' ([] ++ rest) = ⟨.string, [], rest, .code⟩ := literalRun_close rest
        rw [highlightFrom_literal_run hclose]
        have : wordChar.contains '"' = false := by decide +kernel
        simp [this]
      · simpa using Lit.Tiles.cons (l := ⟨i, .string, "\""⟩) (by simp) (.nil _)
    · -- a run of plain characters, as long as it goes
      obtain ⟨ht, hd⟩ := hr.plain_append rest
      have hr' := (List.takeWhile_append_dropWhile (p := isPlainInLiteral) (l := r)).symm
      have hl := congrArg List.length hr'
      simp only [List.length_append] at hl
      have hlen : (r.dropWhile isPlainInLiteral).length < n := by
        simp only [List.length_cons] at hn
        omega
      obtain ⟨R, hR, htiles, hshade⟩ := ih hlen hr.dropWhile_plain
        (!wordChar.contains (((c :: r.takeWhile isPlainInLiteral).getLast?).getD c))
        (i + ((r.takeWhile isPlainInLiteral).length + 1)) rest
      have hidx : i + ((r.takeWhile isPlainInLiteral).length + 1) + (r.dropWhile isPlainInLiteral).length =
          i + (c :: r).length := by
        simp only [List.length_cons]
        omega
      rw [hidx] at hR
      have hrun : literalRun c (r.takeWhile isPlainInLiteral ++ (r.dropWhile isPlainInLiteral ++ rest)) =
          ⟨.string, r.takeWhile isPlainInLiteral, r.dropWhile isPlainInLiteral ++ rest, .literal⟩ := by
        rw [literalRun_plain hc, ← List.append_assoc, List.takeWhile_append_dropWhile, ht, hd]
      refine ⟨⟨i, .string, String.ofList (c :: r.takeWhile isPlainInLiteral)⟩ :: R, ?_, ?_, ?_⟩
      · have hsplit : c :: r ++ rest =
            c :: r.takeWhile isPlainInLiteral ++ (r.dropWhile isPlainInLiteral ++ rest) := by
          simp only [List.cons_append, ← List.append_assoc, List.takeWhile_append_dropWhile]
        rw [hsplit, highlightFrom_literal_run hrun, hR, List.cons_append]
      · have h := Lit.Tiles.cons (l := ⟨i, .string, String.ofList (c :: r.takeWhile isPlainInLiteral)⟩)
          (by simp) (by simpa [Nat.add_comm, Nat.add_left_comm, Nat.add_assoc] using htiles)
        simpa [List.takeWhile_append_dropWhile] using h
      · intro l hl
        rcases List.mem_cons.1 hl with rfl | hl
        · exact .inl rfl
        · exact hshade l hl
    · -- a known escape
      have hlen : r.length < n := by simp only [List.length_cons] at hn; omega
      obtain ⟨R, hR, htiles, hshade⟩ := ih hlen hr
        (!wordChar.contains ((['\\', d].getLast?).getD '\\')) (i + (1 + 1)) rest
      have hidx : i + (1 + 1) + r.length = i + ('\\' :: d :: r).length := by
        simp only [List.length_cons]
        omega
      rw [hidx] at hR
      refine ⟨⟨i, .escape, String.ofList ['\\', d]⟩ :: R, ?_, ?_, ?_⟩
      · have hesc : literalRun '\\' ([d] ++ (r ++ rest)) = ⟨.escape, [d], r ++ rest, .literal⟩ :=
          literalRun_escape hd
        have h := highlightFrom_literal_run (b := b) (i := i) hesc
        rw [show '\\' :: d :: r ++ rest = '\\' :: [d] ++ (r ++ rest) by simp, h]
        simp only [List.length_singleton, List.cons_append]
        rw [hR]
      · have hlen2 : (String.ofList ['\\', d]).length = 1 + 1 := by rw [String.length_ofList]; rfl
        have h := Lit.Tiles.cons (l := ⟨i, .escape, String.ofList ['\\', d]⟩) (by simp)
          (by rw [hlen2]; exact htiles)
        simpa using h
      · intro l hl
        rcases List.mem_cons.1 hl with rfl | hl
        · exact .inr rfl
        · exact hshade l hl

end Literal

end EggFront
