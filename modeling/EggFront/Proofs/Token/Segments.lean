import EggFront.Proofs.Token.Scanned

/-!
# How scanning cuts a text

A scan reads a text as a sequence of *segments*, one after another, with nothing
left over and nothing read twice: a blank, a comment, a token, an illegal
character, or a string literal that is bad or not closed. Each kind has its own
rule here, said without the scanner and together with what may follow it
(`Segment.Valid`): a word or a number runs as far as it can, a comment runs up to
the line feed, a string literal up to its closing quote or the end of its line,
and an operator of two characters is taken whenever its two characters come next.

`scanFrom_segments` says that the tokens of a scan are the token segments of such
a cut, each with the span of its characters. The facts read off lines and columns
follow from it: each token lies on one line and its columns spell its text, the
digits of an integer literal its number (`Token.SpelledIn`); the tokens come in
order, each ending before the next starts (`Token.Before`); and what follows a
token could not have made it longer (`Token.RunsOut`). All three are
`scan_cuts_text`.

Lines and columns are those of `Position`: a line feed starts a new line, and
every other code point, a tab or a carriage return too, takes one column.
-/

namespace EggFront

/-! ## Lexical rules -/

/-- What follows a comment, or a string literal that no quote closes: the end of
the line or of the text. -/
def AtLineEnd (rest : List Char) : Prop := rest.head? = none ∨ rest.head? = some '\n'

/-- The rest of a string literal after its opening quote, up to and including its
closing quote. The flag says whether every escape is one that egg knows. -/
inductive Quoted : Bool → List Char → Prop
  | close : Quoted true ['"']
  | char {g : Bool} {c : Char} {r : List Char} : c ≠ '"' → c ≠ '\\' → c ≠ '\n' →
      Quoted g r → Quoted g (c :: r)
  | escape {g : Bool} {c : Char} {r : List Char} : c ≠ '\n' → Quoted g r →
      Quoted (g && isEscapable c) ('\\' :: c :: r)

/-- The rest of a string literal that no quote closes before its line ends; it may
end in a backslash. -/
inductive Unclosed : List Char → Prop
  | stop : Unclosed []
  | backslash : Unclosed ['\\']
  | char {c : Char} {r : List Char} : c ≠ '"' → c ≠ '\\' → c ≠ '\n' → Unclosed r → Unclosed (c :: r)
  | escape {c : Char} {r : List Char} : c ≠ '\n' → Unclosed r → Unclosed ('\\' :: c :: r)

/-- The characters `cs`, followed by the text `rest`, make a token of kind `k`
with text `x`. -/
inductive TokenCut : TokenKind → String → List Char → List Char → Prop
  /-- A word, as long as it runs; a reserved word is its keyword. -/
  | word {c : Char} {w rest : List Char} : isWordStart c = true → (∀ d ∈ w, isWordChar d = true) →
      (∀ d ∈ rest.head?, isWordChar d = false) →
      TokenCut ((TokenKind.keyword? (String.ofList (c :: w))).getD .ident) (String.ofList (c :: w))
        (c :: w) rest
  /-- A run of digits, as long as it runs; its text is its clamped number. -/
  | number {ds rest : List Char} : ds ≠ [] → (∀ d ∈ ds, d.isDigit = true) →
      (∀ d ∈ rest.head?, d.isDigit = false) → TokenCut .intLit (clampDigits ds).1 ds rest
  /-- A closed string literal with good escapes, quotes included. -/
  | string {body rest : List Char} : Quoted true body →
      TokenCut .stringLit (String.ofList ('"' :: body)) ('"' :: body) rest
  /-- An operator of two characters. -/
  | pair {c d : Char} {k : TokenKind} {rest : List Char} : TokenKind.pair? c d = some k →
      TokenCut k (String.ofList [c, d]) [c, d] rest
  /-- An operator of one character, when the next character neither makes one of
  two with it nor, after a slash, starts a comment. -/
  | single {c : Char} {k : TokenKind} {rest : List Char} : TokenKind.single? c = some k →
      (∀ d ∈ rest.head?, TokenKind.pair? c d = none) → ¬ (c = '/' ∧ rest.head? = some '/') →
      TokenCut k (String.ofList [c]) [c] rest

/-- A character that starts no blank, comment, literal, word or operator. -/
def StartsNothing (c : Char) (rest : List Char) : Prop :=
  isBlank c = false ∧ c ≠ '#' ∧ c ≠ '"' ∧ c.isDigit = false ∧ isWordStart c = false ∧
    TokenKind.single? c = none ∧ ∀ d ∈ rest.head?, TokenKind.pair? c d = none

/-! ## Segments -/

/-- A stretch of a text as scanning reads it. -/
inductive Segment where
  /-- A space, tab, carriage return or line feed. -/
  | blank (c : Char)
  /-- `#` or `//` and the rest of the line. -/
  | comment (cs : List Char)
  /-- The characters of a token, with its kind and text. -/
  | token (kind : TokenKind) (text : String) (cs : List Char)
  /-- A character that starts nothing. -/
  | illegal (c : Char)
  /-- A string literal with a bad escape, or that no quote closes. -/
  | badString (cs : List Char)

namespace Segment

/-- The characters of a segment. -/
def chars : Segment → List Char
  | blank c => [c]
  | comment cs => cs
  | token _ _ cs => cs
  | illegal c => [c]
  | badString cs => cs

/-- The kind and text of a token segment. -/
def lexeme : Segment → Option Lexeme
  | token k x _ => some (k, x)
  | _ => none

/-- A segment stands before the text `rest` as its rule says. -/
def Valid : Segment → List Char → Prop
  | blank c, _ => isBlank c = true
  | comment cs, rest =>
    (∃ body, (cs = '#' :: body ∨ cs = '/' :: '/' :: body) ∧ '\n' ∉ body) ∧ AtLineEnd rest
  | token k x cs, rest => TokenCut k x cs rest
  | illegal c, rest => StartsNothing c rest
  | badString cs, rest =>
    ∃ body, cs = '"' :: body ∧ (Quoted false body ∨ (Unclosed body ∧ AtLineEnd rest))

/-- Segments one after another, each valid before the text of those after it. -/
def Cut : List Segment → Prop
  | [] => True
  | seg :: segs => seg.Valid (segs.flatMap chars) ∧ Cut segs

@[simp] theorem cut_nil : Cut [] := trivial

@[simp] theorem cut_cons {seg : Segment} {segs : List Segment} :
    Cut (seg :: segs) ↔ seg.Valid (segs.flatMap chars) ∧ Cut segs := Iff.rfl

/-- A segment scanning accepts without a report: neither an illegal character nor
a bad string literal. -/
def Clean : Segment → Prop
  | illegal _ | badString _ => False
  | _ => True

end Segment

/-- The span of the characters `cs`, on one line from `p`. -/
def Span.ofChars (file : String) (p : Position) (cs : List Char) : Span :=
  ⟨file, p.line, p.col, p.line, p.col + cs.length - 1⟩

/-- The tokens of segments read from `p` on, each with the span of its characters. -/
def Segment.tokensFrom (file : String) : Position → List Segment → List Token
  | _, [] => []
  | p, seg :: segs =>
    (seg.lexeme.map fun l => (⟨l.1, l.2, Span.ofChars file p seg.chars⟩ : Token)).toList ++
      tokensFrom file (p.skip seg.chars) segs

/-! ## Lines and columns -/

/-- The code point at line `l`, column `k` of the text `cs`, read from `p` on. -/
def codePointFrom : List Char → Position → Int → Int → Option Char
  | [], _, _, _ => none
  | c :: cs, p, l, k =>
    if (p.line : Int) = l ∧ (p.col : Int) = k then some c else codePointFrom cs (p.next c) l k

/-- The code point of a text at line `l`, column `k`. -/
def Text.codePointAt (cs : List Char) (l k : Int) : Option Char := codePointFrom cs Position.first l k

/-- A token lies on one line, and the code points of its columns spell its text;
those of an integer literal are digits whose clamped number is its text. -/
def Token.SpelledIn (cs : List Char) (t : Token) : Prop :=
  t.span.startLine = t.span.endLine ∧
    ∃ run : List Char, t.span.endCol + 1 - t.span.startCol = run.length ∧
      (∀ i < run.length, Text.codePointAt cs t.span.startLine (t.span.startCol + i) = run[i]?) ∧
      (t.kind = .intLit → run ≠ [] ∧ (∀ d ∈ run, d.isDigit = true) ∧ (clampDigits run).1 = t.text) ∧
      (t.kind ≠ .intLit → run = t.text.toList)

/-- `t` ends before `u` starts. -/
def Token.Before (t u : Token) : Prop :=
  t.span.endLine < u.span.startLine ∨ (t.span.endLine = u.span.startLine ∧ t.span.endCol < u.span.startCol)

/-- What follows a token could not have made it longer: a word is followed by no
word character, an integer literal by no digit, and an operator of one character
by no character that makes one of two with it. -/
def Token.RunsOut (cs : List Char) (t : Token) : Prop :=
  ∀ d, Text.codePointAt cs t.span.endLine (t.span.endCol + 1) = some d →
    (∀ c ∈ t.text.toList.head?, isWordStart c = true → isWordChar d = false) ∧
    (t.kind = .intLit → d.isDigit = false) ∧
    (∀ c, t.text.toList = [c] → TokenKind.single? c = some t.kind → TokenKind.pair? c d = none)

/-! ## Scanning reads segments -/


theorem stringBody_cut (cs : List Char) :
    ((stringBody cs).closed = true → Quoted (!(stringBody cs).bad) (stringBody cs).chars) ∧
    ((stringBody cs).closed = false → Unclosed (stringBody cs).chars ∧ AtLineEnd (stringBody cs).rest) := by
  fun_induction stringBody cs with
  | case1 => exact ⟨by simp, fun _ => ⟨.stop, .inl rfl⟩⟩
  | case2 r => exact ⟨by simp, fun _ => ⟨.stop, .inr rfl⟩⟩
  | case3 r => exact ⟨fun _ => .close, by simp⟩
  | case4 => exact ⟨by simp, fun _ => ⟨.backslash, .inl rfl⟩⟩
  | case5 r => exact ⟨by simp, fun _ => ⟨.backslash, .inr rfl⟩⟩
  | case6 c r hc b ih =>
    obtain ⟨ihq, ihu⟩ := ih
    refine ⟨fun h => ?_, fun h => ?_⟩
    · have hq := Quoted.escape hc (ihq h)
      simpa [b, Bool.not_or] using hq
    · obtain ⟨hu, hl⟩ := ihu h
      exact ⟨.escape hc hu, hl⟩
  | case7 c r h₁ h₂ h₃ h₄ h₅ b ih =>
    -- the last case of the body: a character that is no escape
    have hc : c ≠ '\\' := by
      intro hc
      cases r with
      | nil => exact h₃ hc rfl
      | cons d r => exact h₅ d r hc rfl
    obtain ⟨ihq, ihu⟩ := ih
    refine ⟨fun h => .char h₂ hc h₁ (ihq h), fun h => ?_⟩
    obtain ⟨hu, hl⟩ := ihu h
    exact ⟨.char h₂ hc h₁ hu, hl⟩

/-- After the characters a run takes, the next one, if any, fails its test. -/
theorem mem_head?_dropWhile {q : Char → Bool} (r : List Char) : ∀ d ∈ (r.dropWhile q).head?, q d = false := by
  intro d hd
  have h := List.head?_dropWhile_not q r
  rw [Option.mem_def.1 hd] at h
  exact h

theorem atLineEnd_dropWhile (r : List Char) : AtLineEnd (r.dropWhile (· != '\n')) := by
  cases h : (r.dropWhile (· != '\n')).head? with
  | none => exact .inl h
  | some d =>
    have hd := mem_head?_dropWhile r d h
    simp only [bne_eq_false_iff_eq] at hd
    exact .inr (by rw [h, hd])

theorem not_mem_takeWhile_lf (r : List Char) : '\n' ∉ r.takeWhile (· != '\n') := by
  intro h
  simpa using List.mem_takeWhile_imp h

/-- A string literal's piece is a token when it is closed with good escapes, and a
bad string otherwise. -/
theorem stringPiece_segment (r : List Char) :
    ∃ seg : Segment, seg.chars = '"' :: (stringPiece (stringBody r)).more ∧
      seg.Valid (stringPiece (stringBody r)).rest ∧ seg.lexeme = (stringPiece (stringBody r)).token := by
  obtain ⟨hq, hu⟩ := stringBody_cut r
  unfold stringPiece
  split
  · rename_i hok
    simp only [Bool.and_eq_true, Bool.not_eq_true'] at hok
    have h := hq hok.1
    rw [hok.2] at h
    exact ⟨.token .stringLit _ ('"' :: (stringBody r).chars), rfl, .string h, rfl⟩
  split
  · rename_i hok hc
    have hbad : (stringBody r).bad = true := by simpa [hc] using hok
    have h := hq hc
    rw [hbad] at h
    exact ⟨.badString ('"' :: (stringBody r).chars), rfl, ⟨_, rfl, .inl h⟩, rfl⟩
  · rename_i hok hc
    obtain ⟨hu, hl⟩ := hu (by simpa using hc)
    exact ⟨.badString ('"' :: (stringBody r).chars), rfl, ⟨_, rfl, .inr ⟨hu, hl⟩⟩, rfl⟩

/-- The operator, or the illegal character, at the front of `c :: r`. -/
theorem operatorPiece_segment {c : Char} {r : List Char}
    (hc : isBlank c = false ∧ c ≠ '#' ∧ c ≠ '"' ∧ c.isDigit = false ∧ isWordStart c = false)
    (hcom : ¬ (c = '/' ∧ r.head? = some '/')) :
    ∃ seg : Segment, seg.chars = c :: (operatorPiece c r).more ∧ seg.Valid (operatorPiece c r).rest ∧
      seg.lexeme = (operatorPiece c r).token := by
  obtain ⟨hb, hh, hq, hd, hw⟩ := hc
  -- one character: an operator when it is one, an illegal character otherwise
  have single : (∀ d ∈ r.head?, TokenKind.pair? c d = none) →
      (operatorPiece c r).more = [] → (operatorPiece c r).rest = r →
      (operatorPiece c r).token = (TokenKind.single? c).map (fun k => (k, c.toString)) →
      ∃ seg : Segment, seg.chars = c :: (operatorPiece c r).more ∧ seg.Valid (operatorPiece c r).rest ∧
        seg.lexeme = (operatorPiece c r).token := by
    intro hp hm hr ht
    rw [hm, hr, ht]
    cases hs : TokenKind.single? c with
    | some k => exact ⟨.token k (String.ofList [c]) [c], rfl, .single hs hp hcom, rfl⟩
    | none => exact ⟨.illegal c, rfl, ⟨hb, hh, hq, hd, hw, hs, hp⟩, rfl⟩
  cases r with
  | nil =>
    apply single (by simp) <;> simp only [operatorPiece] <;> split <;> simp_all
  | cons d r =>
    cases hp : TokenKind.pair? c d with
    | some k =>
      have hop : operatorPiece c (d :: r) = ⟨[d], r, some (k, String.ofList [c, d]), none⟩ := by
        simp only [operatorPiece, hp]
      rw [hop]
      exact ⟨.token k (String.ofList [c, d]) [c, d], rfl, .pair hp, rfl⟩
    | none =>
      apply single (by simpa using hp) <;> simp only [operatorPiece, hp] <;> split <;> simp_all

/-- The piece at the front of `c :: r` reads one segment. -/
theorem piece_segment (c : Char) (r : List Char) :
    ∃ seg : Segment, seg.chars = c :: (piece c r).more ∧ seg.Valid (piece c r).rest ∧
      seg.lexeme = (piece c r).token := by
  unfold piece
  split
  · rename_i hb
    exact ⟨.blank c, rfl, hb, rfl⟩
  rename_i hb
  split
  · rename_i hcom
    -- `#`, or a slash before a slash, and the rest of the line
    refine ⟨.comment (c :: r.takeWhile (· != '\n')), rfl, ⟨?_, atLineEnd_dropWhile r⟩, rfl⟩
    simp only [Bool.or_eq_true, decide_eq_true_eq, Bool.and_eq_true, beq_iff_eq] at hcom
    rcases hcom with rfl | ⟨rfl, hr⟩
    · exact ⟨_, .inl rfl, not_mem_takeWhile_lf r⟩
    · obtain ⟨r', rfl⟩ : ∃ r', r = '/' :: r' := by
        cases r with
        | nil => simp at hr
        | cons d r' => simp only [List.head?_cons, Option.some.injEq] at hr; exact ⟨r', by rw [hr]⟩
      refine ⟨r'.takeWhile (· != '\n'), .inr ?_, not_mem_takeWhile_lf r'⟩
      simp
  rename_i hcom
  split
  · rename_i hq
    subst hq
    exact stringPiece_segment r
  rename_i hq
  split
  · rename_i hd
    refine ⟨.token .intLit (clampDigits (c :: r.takeWhile Char.isDigit)).1 (c :: r.takeWhile Char.isDigit),
      rfl, .number (by simp) ?_ (mem_head?_dropWhile r), rfl⟩
    intro d hd'
    rcases List.mem_cons.1 hd' with rfl | hd'
    · exact hd
    · exact List.mem_takeWhile_imp hd'
  rename_i hd
  split
  · rename_i hw
    refine ⟨.token _ (String.ofList (c :: r.takeWhile isWordChar)) (c :: r.takeWhile isWordChar), rfl,
      .word hw (fun d hd' => List.mem_takeWhile_imp hd') (mem_head?_dropWhile r), rfl⟩
  rename_i hw
  simp only [Bool.or_eq_true, decide_eq_true_eq, Bool.and_eq_true, beq_iff_eq, not_or, not_and] at hcom
  exact operatorPiece_segment ⟨by simpa using hb, hcom.1, hq, by simpa using hd, by simpa using hw⟩
    (fun h => hcom.2 h.1 h.2)

theorem Quoted.no_lf {g : Bool} {body : List Char} (h : Quoted g body) : ∀ d ∈ body, d ≠ '\n' := by
  induction h with
  | close => simp
  | char h₁ h₂ h₃ _ ih =>
    intro d hd
    rcases List.mem_cons.1 hd with rfl | hd
    · exact h₃
    · exact ih d hd
  | escape h₁ _ ih =>
    intro d hd
    simp only [List.mem_cons] at hd
    rcases hd with rfl | rfl | hd
    · decide
    · exact h₁
    · exact ih d hd

theorem ne_lf_of_isBlank {c : Char} (h : isBlank c = false) : c ≠ '\n' := by
  rintro rfl
  exact absurd h (by decide)

/-- A token lies on one line. -/
theorem TokenCut.no_lf {k : TokenKind} {x : String} {cs rest : List Char} (h : TokenCut k x cs rest) :
    ∀ d ∈ cs, d ≠ '\n' := by
  cases h with
  | word hc hw _ =>
    intro d hd
    rcases List.mem_cons.1 hd with rfl | hd
    · exact ne_lf_of_isBlank (isBlank_eq_false_of_isWordChar (isWordChar_of_isWordStart hc))
    · exact ne_lf_of_isBlank (isBlank_eq_false_of_isWordChar (hw d hd))
  | number _ hds _ => exact fun d hd => ne_lf_of_isBlank (isBlank_eq_false_of_isWordChar (isWordChar_of_isDigit (hds d hd)))
  | string hq =>
    intro d hd
    rcases List.mem_cons.1 hd with rfl | hd
    · decide
    · exact hq.no_lf d hd
  | pair hp =>
    intro d hd
    simp only [List.mem_cons, List.not_mem_nil, or_false] at hd
    rcases hd with rfl | rfl
    · exact ne_lf_of_isBlank (pair?_facts hp).1
    · rintro rfl
      rw [pair?_lf] at hp
      cases hp
  | single hs _ _ =>
    intro d hd
    rw [List.mem_singleton.1 hd]
    exact ne_lf_of_isBlank (single?_facts hs).1

/-- The scanner's span of a token is the span of its characters. -/
theorem scanSpan_eq_ofChars (file : String) (p : Position) {cs : List Char} (hne : cs ≠ [])
    (hlf : ∀ d ∈ cs, d ≠ '\n') :
    (⟨file, p.line, p.col, (p.skip cs).line, (max p.col ((p.skip cs).col - 1) : Nat)⟩ : Span) =
      Span.ofChars file p cs := by
  have hn : 0 < cs.length := List.length_pos_iff.2 hne
  rw [Position.skip_of_no_newline p cs hlf]
  simp only [Span.ofChars, Span.mk.injEq, true_and]
  omega

/-- A string literal with no token reports an issue. -/
theorem stringPiece_reports (b : StringBody) :
    (stringPiece b).token = none → (stringPiece b).issue ≠ none := by
  unfold stringPiece
  repeat' split
  all_goals simp

/-- An operator piece with no token reports an issue. -/
theorem operatorPiece_reports (c : Char) (r : List Char) :
    (operatorPiece c r).token = none → (operatorPiece c r).issue ≠ none := by
  unfold operatorPiece
  repeat' split
  all_goals simp_all

/-- A piece with neither a token nor an issue is a blank or a comment. -/
theorem piece_quiet {c : Char} {r : List Char} :
    (piece c r).token = none → (piece c r).issue = none →
      isBlank c = true ∨ c = '#' ∨ (c = '/' ∧ r.head? = some '/') := by
  unfold piece
  split
  · exact fun _ _ => .inl ‹_›
  split
  · rename_i hcom
    simp only [Bool.or_eq_true, decide_eq_true_eq, Bool.and_eq_true, beq_iff_eq] at hcom
    exact fun _ _ => .inr hcom
  -- every other piece makes a token or reports an issue
  split
  · exact fun ht hi => absurd hi (stringPiece_reports _ ht)
  split
  · simp
  split
  · simp
  · exact fun ht hi => absurd hi (operatorPiece_reports c r ht)

/-- The segment of a piece that reports nothing is clean. -/
theorem piece_segment_clean {c : Char} {r : List Char} {seg : Segment}
    (hsc : seg.chars = c :: (piece c r).more) (hsv : seg.Valid (piece c r).rest)
    (hsl : seg.lexeme = (piece c r).token) (hi : (piece c r).issue = none) : seg.Clean := by
  cases seg with
  | illegal c' =>
    obtain ⟨hb, hh, -, -, -, hs, -⟩ := hsv
    simp only [Segment.chars, List.cons.injEq] at hsc
    rw [hsc.1] at hb hh hs
    rcases piece_quiet hsl.symm hi with h | h | ⟨rfl, -⟩
    · simp [hb] at h
    · exact hh h
    · simp [TokenKind.single?] at hs
  | badString cs =>
    obtain ⟨body, rfl, -⟩ := hsv
    simp only [Segment.chars, List.cons.injEq] at hsc
    rcases piece_quiet hsl.symm hi with h | h | ⟨h, -⟩ <;> rw [← hsc.1] at h <;> exact absurd h (by decide)
  | _ => trivial

/-- **Scanning cuts the text.** The tokens of a scan from `p` are those of a cut
of the text into valid segments, and when the scan reports nothing every segment
is clean. -/
theorem scanFrom_cut (file : String) (cs : List Char) (p : Position) :
    ∃ segs : List Segment, Segment.Cut segs ∧ segs.flatMap Segment.chars = cs ∧
      Segment.tokensFrom file p segs = (scanFrom file cs p).tokens ∧
      ((scanFrom file cs p).diagnostics = [] → ∀ seg ∈ segs, seg.Clean) := by
  fun_induction scanFrom file cs p with
  | case1 p => exact ⟨[], trivial, rfl, rfl, by simp⟩
  | case2 p c r pc q s span ih =>
    obtain ⟨segs, hcut, hchars, htoks, hclean⟩ := ih
    obtain ⟨seg, hsc, hsv, hsl⟩ := piece_segment c r
    refine ⟨seg :: segs, ⟨by rw [hchars]; exact hsv, hcut⟩, ?_, ?_, ?_⟩
    · simp [hsc, hchars, pc, piece_more_append]
    rotate_left
    · intro hd
      rw [List.append_eq_nil_iff] at hd
      intro x hx
      rcases List.mem_cons.1 hx with rfl | hx
      · exact piece_segment_clean hsc hsv hsl (by simpa [pc] using hd.1)
      · exact hclean hd.2 x hx
    simp only [Segment.tokensFrom, hsc]
    rw [show p.skip (c :: (piece c r).more) = q from rfl, htoks]
    congr 1
    -- a token segment's span is the span of its characters
    cases seg with
    | token k x cs' =>
      simp only [Segment.chars] at hsc
      have hlf : ∀ d ∈ c :: (piece c r).more, d ≠ '\n' := hsc ▸ TokenCut.no_lf hsv
      simp only [Segment.lexeme] at hsl
      simp only [Segment.lexeme, Option.map_some, ← hsl, pc]
      rw [← scanSpan_eq_ofChars file p (List.cons_ne_nil _ _) hlf]
    | _ => simp only [Segment.lexeme] at hsl; simp [Segment.lexeme, pc, ← hsl]

theorem scanFrom_segments (file : String) (cs : List Char) (p : Position) :
    ∃ segs : List Segment, Segment.Cut segs ∧ segs.flatMap Segment.chars = cs ∧
      Segment.tokensFrom file p segs = (scanFrom file cs p).tokens := by
  obtain ⟨segs, hcut, hchars, htoks, -⟩ := scanFrom_cut file cs p
  exact ⟨segs, hcut, hchars, htoks⟩

theorem TokenCut.ne_nil {k : TokenKind} {x : String} {cs rest : List Char} (h : TokenCut k x cs rest) :
    cs ≠ [] := by
  cases h with
  | number hne _ _ => exact hne
  | _ => simp

/-- Every segment holds at least one character. -/
theorem Segment.chars_ne_nil {seg : Segment} {rest : List Char} (h : seg.Valid rest) : seg.chars ≠ [] := by
  cases seg with
  | blank | illegal => simp [Segment.chars]
  | comment cs =>
    obtain ⟨⟨body, hcs | hcs, -⟩, -⟩ := h <;> simp [Segment.chars, hcs]
  | token k x cs => exact TokenCut.ne_nil h
  | badString cs =>
    obtain ⟨body, hcs, -⟩ := h
    simp [Segment.chars, hcs]

/-! ## Places in a text -/

/-- Reading a character moves forward. -/
theorem Position.next_after (p : Position) (c : Char) :
    p.line < (p.next c).line ∨ (p.line = (p.next c).line ∧ p.col < (p.next c).col) := by
  unfold Position.next
  split <;> simp

/-- Reading a text never moves back. -/
theorem Position.le_skip (p : Position) (cs : List Char) :
    p.line < (p.skip cs).line ∨ (p.line = (p.skip cs).line ∧ p.col ≤ (p.skip cs).col) := by
  induction cs generalizing p with
  | nil => simp
  | cons c cs ih =>
    have h₁ := p.next_after c
    have h₂ := ih (p.next c)
    rw [Position.skip_cons]
    omega

/-- What a text holds at a place that reading a first part has not passed yet is
what the rest holds there. -/
theorem codePointFrom_append (pre rest : List Char) (p : Position) {l k : Int}
    (h : ((p.skip pre).line : Int) < l ∨ (((p.skip pre).line : Int) = l ∧ ((p.skip pre).col : Int) ≤ k)) :
    codePointFrom (pre ++ rest) p l k = codePointFrom rest (p.skip pre) l k := by
  induction pre generalizing p with
  | nil => rfl
  | cons c pre ih =>
    rw [Position.skip_cons] at h
    have h₁ := p.next_after c
    have h₂ := (p.next c).le_skip pre
    have hne : ¬ ((p.line : Int) = l ∧ (p.col : Int) = k) := by omega
    rw [List.cons_append, codePointFrom, if_neg hne, ih _ h, Position.skip_cons]

/-- Characters with no line feed stand one per column. -/
theorem codePointFrom_line {mid : List Char} (hmid : ∀ d ∈ mid, d ≠ '\n') (post : List Char)
    (p : Position) : ∀ i < mid.length, codePointFrom (mid ++ post) p p.line (p.col + i) = mid[i]? := by
  induction mid generalizing p with
  | nil => simp
  | cons c mid ih =>
    intro i hi
    have hc : c ≠ '\n' := hmid c List.mem_cons_self
    cases i with
    | zero => simp [codePointFrom]
    | succ j =>
      have hnext : p.next c = ⟨p.line, p.col + 1⟩ := by simp [Position.next, hc]
      have := ih (fun d hd => hmid d (List.mem_cons_of_mem _ hd)) (p.next c) j
        (by simp only [List.length_cons] at hi; omega)
      rw [hnext] at this
      have hcol : (p.col : Int) + ((j + 1 : Nat) : Int) = ((p.col + 1 : Nat) : Int) + (j : Int) := by
        simp only [Nat.cast_add, Nat.cast_one]
        omega
      rw [List.cons_append, codePointFrom, if_neg (by omega), hnext, hcol]
      simpa using this

/-- Right after characters with no line feed stands what follows them. -/
theorem codePointFrom_after {mid : List Char} (hmid : ∀ d ∈ mid, d ≠ '\n') (post : List Char)
    (p : Position) : codePointFrom (mid ++ post) p p.line (p.col + mid.length) = post.head? := by
  have hq := Position.skip_of_no_newline p mid hmid
  rw [codePointFrom_append mid post p (by rw [hq]; simp), hq]
  cases post with
  | nil => rfl
  | cons d post => simp [codePointFrom]

/-! ## Tokens at their places -/

/-- Every token of the segments stands at its characters, which the text holds
between what comes before and what follows. -/
theorem mem_tokensFrom (file : String) : ∀ {segs : List Segment} {p : Position}, Segment.Cut segs →
    ∀ t ∈ Segment.tokensFrom file p segs, ∃ pre cs post,
      segs.flatMap Segment.chars = pre ++ cs ++ post ∧ TokenCut t.kind t.text cs post ∧
        t.span = Span.ofChars file (p.skip pre) cs
  | [], _, _, t, ht => by simp [Segment.tokensFrom] at ht
  | seg :: segs, p, hcut, t, ht => by
    obtain ⟨hv, hcut⟩ := hcut
    simp only [Segment.tokensFrom, List.mem_append] at ht
    rcases ht with ht | ht
    · -- the first segment is the token
      cases seg with
      | token k x cs =>
        simp only [Segment.lexeme, Option.map_some, Option.toList_some, List.mem_singleton] at ht
        subst ht
        exact ⟨[], cs, segs.flatMap Segment.chars, by simp [Segment.chars], hv, by simp [Segment.chars]⟩
      | _ => simp [Segment.lexeme] at ht
    · obtain ⟨pre, cs, post, h₁, h₂, h₃⟩ := mem_tokensFrom file hcut t ht
      exact ⟨seg.chars ++ pre, cs, post, by simp [h₁], h₂, by rw [h₃, Position.skip_append]⟩

theorem single?_ne_intLit {c : Char} {k : TokenKind} (h : TokenKind.single? c = some k) : k ≠ .intLit := by
  revert h
  unfold TokenKind.single?
  split <;> rintro ⟨⟩ <;> decide

theorem pair?_ne_intLit {c d : Char} {k : TokenKind} (h : TokenKind.pair? c d = some k) : k ≠ .intLit := by
  revert h
  unfold TokenKind.pair?
  split <;> rintro ⟨⟩ <;> decide

/-- Only a run of digits makes an integer literal. -/
theorem TokenCut.of_intLit {k : TokenKind} {x : String} {cs rest : List Char} (h : TokenCut k x cs rest)
    (hk : k = .intLit) : x = (clampDigits cs).1 ∧ (∀ d ∈ cs, d.isDigit = true) ∧ ∀ d ∈ rest.head?, d.isDigit = false := by
  cases h with
  | word hc _ _ =>
    exfalso
    cases hkw : TokenKind.keyword? _ with
    | none => rw [hkw] at hk; cases hk
    | some k' => rw [hkw] at hk; exact (keyword?_kind hkw).2.1 hk
  | number _ hds hnext => exact ⟨rfl, hds, hnext⟩
  | string => cases hk
  | pair hp => exact absurd hk (pair?_ne_intLit hp)
  | single hs _ _ => exact absurd hk (single?_ne_intLit hs)

/-- Every other token's text is its characters. -/
theorem TokenCut.text_eq {k : TokenKind} {x : String} {cs rest : List Char} (h : TokenCut k x cs rest)
    (hk : k ≠ .intLit) : cs = x.toList := by
  cases h with
  | number => exact absurd rfl hk
  | _ => simp

/-- The significant digits of a run of digits are digits. -/
theorem significantDigits_isDigit {ds : List Char} (hds : ∀ d ∈ ds, d.isDigit = true) :
    ∀ c ∈ significantDigits ds, c.isDigit = true := by
  rcases significantDigits_cases ds with ⟨-, h⟩ | ⟨-, h⟩ <;> rw [h]
  · simp
  · exact fun c hc => hds c ((List.dropWhile_suffix _).subset hc)

/-- The clamped number of a run of digits is written in digits. -/
theorem clampDigits_isDigit {ds : List Char} (hds : ∀ d ∈ ds, d.isDigit = true) :
    ∀ c ∈ (clampDigits ds).1.toList, c.isDigit = true := by
  simp only [clampDigits]
  split
  · have h : ((toString intLimit).toList.all Char.isDigit) = true := by decide
    exact List.all_eq_true.1 h
  · simpa using significantDigits_isDigit hds

/-- A token's columns spell its text, wherever the text around it stands. -/
theorem spelledIn_of_cut (file : String) {pre cs post : List Char} {k : TokenKind} {x : String}
    (hcut : TokenCut k x cs post) :
    Token.SpelledIn (pre ++ cs ++ post) ⟨k, x, Span.ofChars file (Position.first.skip pre) cs⟩ := by
  have hlf := hcut.no_lf
  have hn : 0 < cs.length := List.length_pos_iff.2 hcut.ne_nil
  refine ⟨rfl, cs, by simp only [Span.ofChars]; omega, fun i hi => ?_, fun hk => ?_, fun hk => hcut.text_eq hk⟩
  · simp only [Span.ofChars, Text.codePointAt]
    rw [List.append_assoc, codePointFrom_append pre _ _ (by omega)]
    exact codePointFrom_line hlf post _ i hi
  · obtain ⟨hx, hds, -⟩ := hcut.of_intLit hk
    exact ⟨hcut.ne_nil, hds, hx.symm⟩

/-- What follows a token could not have made it longer, wherever the text around it stands. -/
theorem runsOut_of_cut (file : String) {pre cs post : List Char} {k : TokenKind} {x : String}
    (hcut : TokenCut k x cs post) :
    Token.RunsOut (pre ++ cs ++ post) ⟨k, x, Span.ofChars file (Position.first.skip pre) cs⟩ := by
  have hn : 0 < cs.length := List.length_pos_iff.2 hcut.ne_nil
  intro d hd
  -- the column after the token holds the first character after it
  have hafter : Text.codePointAt (pre ++ cs ++ post) (Position.first.skip pre).line
      ((Position.first.skip pre).col + cs.length) = post.head? := by
    simp only [Text.codePointAt]
    rw [List.append_assoc, codePointFrom_append pre _ _ (by omega)]
    exact codePointFrom_after hcut.no_lf post _
  have hcol : ((Position.first.skip pre).col : Int) + cs.length - 1 + 1 =
      (Position.first.skip pre).col + cs.length := by omega
  simp only [Span.ofChars] at hd
  rw [hcol, hafter] at hd
  refine ⟨?_, fun hk => (hcut.of_intLit hk).2.2 d hd, ?_⟩
  · intro c hc hw
    cases hcut with
    | word _ _ hnext => exact hnext d hd
    | number _ hds _ =>
      have := clampDigits_isDigit hds c (List.mem_of_mem_head? hc)
      rw [isDigit_eq_false_of_isWordStart hw] at this
      cases this
    | string =>
      simp only [String.toList_ofList, List.head?_cons, Option.mem_def, Option.some.injEq] at hc
      subst hc
      exact absurd hw (by decide)
    | pair hp =>
      simp only [String.toList_ofList, List.head?_cons, Option.mem_def, Option.some.injEq] at hc
      subst hc
      rw [(pair?_facts hp).2.2.2.2.2] at hw
      cases hw
    | single hs _ _ =>
      simp only [String.toList_ofList, List.head?_cons, Option.mem_def, Option.some.injEq] at hc
      subst hc
      rw [(single?_facts hs).2.2.2.2] at hw
      cases hw
  · intro c hc hs
    cases hcut with
    | word hw _ _ =>
      simp only [String.toList_ofList, List.cons.injEq] at hc
      rw [hc.1, (single?_facts hs).2.2.2.2] at hw
      cases hw
    | number _ hds _ =>
      have := clampDigits_isDigit hds c (by simp [hc])
      rw [(single?_facts hs).2.2.2.1] at this
      cases this
    | string =>
      simp only [String.toList_ofList, List.cons.injEq] at hc
      exact absurd hc.1.symm (single?_facts hs).2.2.1
    | pair => simp at hc
    | single _ hnext _ =>
      simp only [String.toList_ofList, List.cons.injEq, and_true] at hc
      subst hc
      exact hnext d hd

/-! ## Tokens in order -/

/-- Every token read from `p` on starts at or after `p`. -/
theorem tokensFrom_from (file : String) {segs : List Segment} {p : Position} (hcut : Segment.Cut segs) :
    ∀ t ∈ Segment.tokensFrom file p segs, (p.line : Int) < t.span.startLine ∨
      ((p.line : Int) = t.span.startLine ∧ (p.col : Int) ≤ t.span.startCol) := by
  intro t ht
  obtain ⟨pre, cs, post, -, -, hsp⟩ := mem_tokensFrom file hcut t ht
  have := p.le_skip pre
  rw [hsp]
  simp only [Span.ofChars]
  omega

/-- The tokens of a cut come in order, each ending before the next starts. -/
theorem tokensFrom_chain (file : String) : ∀ {segs : List Segment} {p : Position}, Segment.Cut segs →
    (Segment.tokensFrom file p segs).IsChain Token.Before
  | [], _, _ => List.IsChain.nil
  | seg :: segs, p, ⟨hv, hcut⟩ => by
    have ih := tokensFrom_chain file (p := p.skip seg.chars) hcut
    cases seg with
    | token k x cs =>
      -- a token lies on one line, so what follows it starts past its last column
      have hq : p.skip cs = ⟨p.line, p.col + cs.length⟩ := Position.skip_of_no_newline p cs hv.no_lf
      have hn : 0 < cs.length := List.length_pos_iff.2 hv.ne_nil
      simp only [Segment.tokensFrom, Segment.lexeme, Option.map_some, Option.toList_some,
        List.singleton_append, List.isChain_cons]
      refine ⟨fun u hu => ?_, ih⟩
      have hu := tokensFrom_from file hcut u (List.mem_of_mem_head? hu)
      simp only [Segment.chars, hq] at hu
      simp only [Token.Before, Span.ofChars, Segment.chars]
      omega
    | _ => simpa [Segment.tokensFrom, Segment.lexeme] using ih

/-- **How a scan cuts a text.** The text is cut into segments, each as its
lexical rule says, and the tokens of the scan are the token segments with the
spans of their characters. So each token lies on one line and its columns spell
it, what follows it could not have made it longer, and the tokens come in order. -/
theorem scan_cuts_text (file s : String) :
    (∃ segs : List Segment, Segment.Cut segs ∧ segs.flatMap Segment.chars = s.toList ∧
      Segment.tokensFrom file Position.first segs = (scan file s).tokens) ∧
    (∀ t ∈ (scan file s).tokens, t.SpelledIn s.toList ∧ t.RunsOut s.toList) ∧
    (scan file s).tokens.IsChain Token.Before := by
  obtain ⟨segs, hcut, hchars, htoks⟩ := scanFrom_segments file s.toList Position.first
  refine ⟨⟨segs, hcut, hchars, htoks⟩, fun t ht => ?_, ?_⟩
  · rw [scan, ← htoks] at ht
    obtain ⟨pre, cs, post, htext, hc, hsp⟩ := mem_tokensFrom file hcut t ht
    obtain ⟨k, x, sp⟩ := t
    dsimp only at hc hsp
    subst hsp
    rw [← hchars, htext]
    exact ⟨spelledIn_of_cut file hc, runsOut_of_cut file hc⟩
  · rw [scan, ← htoks]
    exact tokensFrom_chain file hcut

end EggFront
