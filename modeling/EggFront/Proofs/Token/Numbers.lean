import EggFront.Proofs.Token.Segments
import EggFront.Proofs.Print.Terms
import EggFront.Proofs.Parse.Steps

/-!
# Integer literals

A run of digits is scanned as the number it denotes, clamped to `intLimit`
(`2147483647`). Its lexeme is the decimal numeral of the clamped number, with no
leading zero; the scan warns at the run's first digit exactly when the number is
above the limit; and the parser reads the lexeme back to the clamped number
(`scan_clamps_int_literals`).

The scanner decides in two steps: a run of more significant digits than the
limit has is clamped at once, a shorter one when its number is above the limit.
The first step is only a shortcut. Eleven significant digits denote at least
`10 ^ 10`, which is above the limit (`clamped_of_long`), so what the scanner
makes of a run depends on its number alone (`clampDigits_eq`).

Which warnings a scan gives is said through the characters each token covers
(`Text.spanChars`): one warning per integer literal whose characters denote more
than the limit, at its first digit, in the order of the tokens
(`scanFrom_warnings`).
-/

namespace EggFront

/-! ## Decimal numerals -/

section Digits

variable {c : Char} {ds : List Char}

theorem digitsValue_append (a b : List Char) :
    digitsValue (a ++ b) = digitsValue a * 10 ^ b.length + digitsValue b := by
  show Nat.ofDigitChars 10 (a ++ b) 0 = Nat.ofDigitChars 10 a 0 * 10 ^ b.length + Nat.ofDigitChars 10 b 0
  rw [Nat.ofDigitChars_append, Nat.ofDigitChars_eq_ofDigitChars_zero, Nat.mul_comm]

theorem digitsValue_singleton (c : Char) : digitsValue [c] = c.toNat - '0'.toNat := by
  simp [digitsValue]

theorem digitsValue_cons (c : Char) (ds : List Char) :
    digitsValue (c :: ds) = (c.toNat - '0'.toNat) * 10 ^ ds.length + digitsValue ds := by
  rw [← List.singleton_append, digitsValue_append, digitsValue_singleton]

theorem digitsValue_concat (ds : List Char) (c : Char) :
    digitsValue (ds ++ [c]) = 10 * digitsValue ds + (c.toNat - '0'.toNat) := by
  rw [digitsValue_append, digitsValue_singleton, List.length_singleton, Nat.pow_one, Nat.mul_comm]

/-- A digit stands for a number below ten. -/
theorem digit_lt_ten (hc : c.isDigit = true) : c.toNat - '0'.toNat < 10 := by
  have h := Char.isDigit_iff_toNat.1 hc
  simp only [Char.reduceToNat] at h ⊢
  omega

/-- Only `0` stands for zero. -/
theorem digit_pos (hc : c.isDigit = true) (h0 : c ≠ '0') : 0 < c.toNat - '0'.toNat := by
  have h := Char.isDigit_iff_toNat.1 hc
  have hne : c.toNat ≠ '0'.toNat := fun h' => h0 (Char.toNat_inj.1 h')
  simp only [Char.reduceToNat] at h hne ⊢
  omega

/-- A digit is the digit character of the number it stands for. -/
theorem digitChar_digit (hc : c.isDigit = true) : (c.toNat - '0'.toNat).digitChar = c := by
  have h := Char.isDigit_iff_toNat.1 hc
  apply Char.toNat_inj.1
  rw [Nat.toNat_digitChar_of_lt_ten (digit_lt_ten hc)]
  simp only [Char.reduceToNat] at h ⊢
  omega

/-- A run of digits that does not start with `0` denotes at least `10 ^ n`, for
the `n` digits after its first. -/
theorem pow_le_digitsValue (hds : ∀ d ∈ c :: ds, d.isDigit = true) (h0 : c ≠ '0') :
    10 ^ ds.length ≤ digitsValue (c :: ds) := by
  have hc := digit_pos (hds c List.mem_cons_self) h0
  have hle : 10 ^ ds.length ≤ (c.toNat - '0'.toNat) * 10 ^ ds.length := Nat.le_mul_of_pos_left _ hc
  rw [digitsValue_cons]
  omega

/-- Digits that do not start with `0` are the numeral of the number they denote. -/
theorem toDigits_digitsValue_of_head (hds : ∀ d ∈ c :: ds, d.isDigit = true) (h0 : c ≠ '0') :
    Nat.toDigits 10 (digitsValue (c :: ds)) = c :: ds := by
  induction ds using List.reverseRecOn with
  | nil =>
    have hc := hds c List.mem_cons_self
    rw [digitsValue_singleton, Nat.toDigits_of_lt_base (digit_lt_ten hc), digitChar_digit hc]
  | append_singleton ds d ih =>
    have hpre : ∀ e ∈ c :: ds, e.isDigit = true := fun e he =>
      hds e (by rw [← List.cons_append]; exact List.mem_append_left _ he)
    have hd : d.isDigit = true := hds d (by simp)
    -- the numeral of `10 * n + d` is the numeral of `n`, then `d`
    have hpos : 0 < digitsValue (c :: ds) :=
      Nat.lt_of_lt_of_le (Nat.pow_pos (by decide)) (pow_le_digitsValue hpre h0)
    rw [← List.cons_append, digitsValue_concat,
      ← Nat.toDigits_append_toDigits (by decide) hpos (digit_lt_ten hd), ih hpre,
      Nat.toDigits_of_lt_base (digit_lt_ten hd), digitChar_digit hd]

/-- Leading zeros add nothing, and a run of zeros denotes zero. -/
theorem digitsValue_significantDigits (ds : List Char) :
    digitsValue (significantDigits ds) = digitsValue ds := by
  rcases significantDigits_cases ds with ⟨h, hs⟩ | ⟨-, hs⟩ <;>
    rw [hs, ← digitsValue_dropWhile_zero ds]
  rw [h]
  rfl

/-- The significant digits of a run start with a digit other than `0`, unless
they are `0`. -/
theorem significantDigits_head (ds : List Char) :
    significantDigits ds = ['0'] ∨ ∃ c cs, significantDigits ds = c :: cs ∧ c ≠ '0' := by
  rcases significantDigits_cases ds with ⟨-, hs⟩ | ⟨hne, hs⟩
  · exact .inl hs
  · obtain ⟨c, cs, hcs⟩ := List.exists_cons_of_ne_nil hne
    refine .inr ⟨c, cs, hs.trans hcs, fun hc => ?_⟩
    have h := List.head?_dropWhile_not (· = '0') ds
    rw [hcs] at h
    simp [hc] at h

/-- A run of digits without its leading zeros is the numeral of its number. -/
theorem toDigits_digitsValue (hds : ∀ d ∈ ds, d.isDigit = true) :
    Nat.toDigits 10 (digitsValue ds) = significantDigits ds := by
  rw [← digitsValue_significantDigits]
  rcases significantDigits_head ds with h | ⟨c, cs, h, h0⟩ <;> rw [h]
  · rfl
  · exact toDigits_digitsValue_of_head (by rw [← h]; exact significantDigits_isDigit hds) h0

end Digits

/-! ## Clamping -/

section Clamp

variable {ds : List Char}

/-- `2147483647` has ten digits. -/
theorem length_toString_intLimit : (toString intLimit).length = 10 := by decide

/-- **The length shortcut clamps nothing it should not.** A run with more
significant digits than the limit has denotes more than the limit. -/
theorem clamped_of_long (hds : ∀ d ∈ ds, d.isDigit = true)
    (h : (toString intLimit).length < (significantDigits ds).length) : intLimit < digitsValue ds := by
  rw [length_toString_intLimit] at h
  rw [← digitsValue_significantDigits]
  rcases significantDigits_head ds with hs | ⟨c, cs, hs, h0⟩ <;> rw [hs] at h ⊢
  · simp at h
  · have hle := pow_le_digitsValue (by rw [← hs]; exact significantDigits_isDigit hds) h0
    have hpow : 10 ^ 10 ≤ 10 ^ cs.length :=
      Nat.pow_le_pow_right (by decide) (by simp only [List.length_cons] at h; omega)
    have hL : intLimit < 10 ^ 10 := by decide
    exact Nat.lt_of_lt_of_le hL (hpow.trans hle)

/-- **Clamping depends on the number alone.** The lexeme of a run of digits is
the numeral of its number, or of `intLimit` when the number is above it, and the
run is clamped exactly then. -/
theorem clampDigits_eq (hds : ∀ d ∈ ds, d.isDigit = true) :
    clampDigits ds = (toString (min (digitsValue ds) intLimit), decide (intLimit < digitsValue ds)) := by
  simp only [clampDigits, digitsValue_significantDigits]
  by_cases hN : intLimit < digitsValue ds
  · rw [if_pos (by simp [hN]), Nat.min_eq_right (Nat.le_of_lt hN), decide_eq_true hN]
  · have hshort : ¬ (toString intLimit).length < (significantDigits ds).length :=
      fun h => hN (clamped_of_long hds h)
    rw [if_neg (by simp only [Bool.or_eq_true, decide_eq_true_eq]; exact not_or.2 ⟨hshort, hN⟩),
      Nat.min_eq_left (Nat.le_of_not_lt hN), decide_eq_false hN, Nat.toString_eq_ofList_toDigits,
      toDigits_digitsValue hds]

example : clampDigits "0002147483647".toList = ("2147483647", false) := by decide
example : clampDigits "2147483648".toList = ("2147483647", true) := by decide

/-- The lexeme of a run of digits reads back as its clamped number. -/
theorem digitsValue_clampDigits (hds : ∀ d ∈ ds, d.isDigit = true) :
    digitsValue (clampDigits ds).1.toList = min (digitsValue ds) intLimit := by
  rw [clampDigits_eq hds, digitsValue_toString]

end Clamp

/-! ## The characters a token covers -/

/-- The `n` code points of a text on line `l`, from column `k` on. -/
def Text.codePointsFrom (cs : List Char) (l k : Int) : Nat → List Char
  | 0 => []
  | n + 1 => (Text.codePointAt cs l k).toList ++ Text.codePointsFrom cs l (k + 1) n

/-- The code points of a text on the columns of a span, read on its first line. -/
def Text.spanChars (cs : List Char) (sp : Span) : List Char :=
  Text.codePointsFrom cs sp.startLine sp.startCol (sp.endCol + 1 - sp.startCol).toNat

/-- Code points that stand one per column are read back. -/
theorem codePointsFrom_eq {cs m : List Char} {l k : Int}
    (h : ∀ i < m.length, Text.codePointAt cs l (k + i) = m[i]?) :
    Text.codePointsFrom cs l k m.length = m := by
  induction m generalizing k with
  | nil => rfl
  | cons d m ih =>
    have h0 : Text.codePointAt cs l k = some d := by simpa using h 0 (by simp)
    have hrest : ∀ i < m.length, Text.codePointAt cs l (k + 1 + i) = m[i]? := by
      intro i hi
      have h' := h (i + 1) (by simp only [List.length_cons]; omega)
      rw [show k + ((i + 1 : Nat) : Int) = k + 1 + i by omega] at h'
      simpa using h'
    rw [List.length_cons, Text.codePointsFrom, h0, ih hrest]
    rfl

/-- A span of characters with no line feed covers those characters, wherever
the text around them stands. -/
theorem spanChars_ofChars (file : String) {pre mid : List Char} (post : List Char)
    (hmid : ∀ d ∈ mid, d ≠ '\n') :
    Text.spanChars (pre ++ mid ++ post) (Span.ofChars file (Position.first.skip pre) mid) = mid := by
  have hlen : ((Position.first.skip pre).col + mid.length - 1 + 1 - (Position.first.skip pre).col :
      Int).toNat = mid.length := by omega
  simp only [Text.spanChars, Span.ofChars]
  rw [hlen]
  apply codePointsFrom_eq
  intro i hi
  simp only [Text.codePointAt]
  rw [List.append_assoc, codePointFrom_append pre _ _ (by omega)]
  exact codePointFrom_line hmid post _ i hi

/-! ## Scanning runs of digits -/

/-- A digit starts a run of digits, which the scanner reads as far as it goes and
clamps. -/
theorem piece_of_isDigit {c : Char} (r : List Char) (hc : c.isDigit = true) :
    piece c r = ⟨r.takeWhile Char.isDigit, r.dropWhile Char.isDigit,
      some (.intLit, (clampDigits (c :: r.takeWhile Char.isDigit)).1),
      if (clampDigits (c :: r.takeWhile Char.isDigit)).2 then some .tooLarge else none⟩ := by
  obtain ⟨hh, hs, hq⟩ := ne_of_isWordChar (isWordChar_of_isDigit hc)
  simp [piece, isBlank_eq_false_of_isWordChar (isWordChar_of_isDigit hc), hh, hs, hq, hc]

/-- Any other character gives no integer literal, and no warning. -/
theorem piece_of_not_isDigit {c : Char} (r : List Char) (hc : c.isDigit = false) :
    (∀ l ∈ (piece c r).token, l.1 ≠ .intLit) ∧ ∀ i ∈ (piece c r).issue, i.severity = .error := by
  unfold piece
  split
  · simp
  split
  · simp
  split
  · -- a string literal gives a string token, or an error
    unfold stringPiece
    repeat' split
    all_goals simp [ScanIssue.severity]
  split
  · rename_i hd
    rw [hc] at hd
    cases hd
  split
  · -- a word gives a name or a keyword
    refine ⟨fun l hl => ?_, by simp⟩
    simp only [Option.mem_def, Option.some.injEq] at hl
    subst hl
    cases hk : TokenKind.keyword? (String.ofList (c :: r.takeWhile isWordChar)) with
    | none => simp
    | some k => simpa using (keyword?_kind hk).2.1
  · refine ⟨fun l hl => (operatorPiece_kind hl).2.1, ?_⟩
    unfold operatorPiece
    repeat' split
    all_goals simp [ScanIssue.severity]

/-- **The warnings of a scan.** A scan warns once per integer literal whose
characters denote more than `intLimit`, at its first digit, in the order of the
tokens; it gives no other warning. -/
theorem scanFrom_warnings (file : String) (cs : List Char) (p : Position) (pre : List Char)
    (hp : p = Position.first.skip pre) :
    (scanFrom file cs p).diagnostics.filter (·.severity == .warning) =
      ((scanFrom file cs p).tokens.filter fun t =>
          t.kind == .intLit && decide (intLimit < digitsValue (Text.spanChars (pre ++ cs) t.span))).map
        fun t => ScanIssue.tooLarge.toDiagnostic file ⟨t.span.startLine.toNat, t.span.startCol.toNat⟩ := by
  fun_induction scanFrom file cs p generalizing pre with
  | case1 => rfl
  | case2 p c r pc q s span ih =>
    -- what follows the piece is scanned from where it ends, after the text read so far
    have hq : q = Position.first.skip (pre ++ c :: pc.more) := by rw [Position.skip_append, ← hp]
    have htext : pre ++ c :: pc.more ++ pc.rest = pre ++ c :: r := by
      simp only [List.append_assoc, List.cons_append, pc, piece_more_append]
    have ih' := ih (pre ++ c :: pc.more) hq
    rw [htext] at ih'
    simp only [List.filter_append, List.map_append]
    refine congrArg₂ (· ++ ·) ?_ ih'
    cases hc : c.isDigit with
    | true =>
      -- a run of digits: its token, and a warning when it is clamped
      have hdig : ∀ d ∈ c :: r.takeWhile Char.isDigit, d.isDigit = true := by
        intro d hd
        rcases List.mem_cons.1 hd with rfl | hd
        · exact hc
        · exact List.mem_takeWhile_imp hd
      have hlf : ∀ d ∈ c :: r.takeWhile Char.isDigit, d ≠ '\n' := fun d hd =>
        ne_lf_of_isBlank (isBlank_eq_false_of_isWordChar (isWordChar_of_isDigit (hdig d hd)))
      have hpc : pc = _ := piece_of_isDigit r hc
      have hspan : span = Span.ofChars file p (c :: r.takeWhile Char.isDigit) := by
        rw [← scanSpan_eq_ofChars file p (List.cons_ne_nil _ _) hlf]
        simp only [span, q, hpc]
      have hcover : Text.spanChars (pre ++ c :: r) span = c :: r.takeWhile Char.isDigit := by
        have h := @spanChars_ofChars file pre _ (r.dropWhile Char.isDigit) hlf
        rwa [List.append_assoc, List.cons_append, List.takeWhile_append_dropWhile, ← hp, ← hspan] at h
      rw [hspan] at hcover
      rw [hpc, clampDigits_eq hdig, hspan]
      by_cases hN : intLimit < digitsValue (c :: r.takeWhile Char.isDigit)
      · simp only [Option.map_some, Option.toList_some, List.filter_cons, List.filter_nil, hcover]
        simp [hN, Span.ofChars, ScanIssue.toDiagnostic, ScanIssue.severity, Diagnostic.atSpan]
      · simp only [Option.map_some, Option.toList_some, List.filter_cons, List.filter_nil, hcover]
        simp [hN]
    | false =>
      -- anything else: no integer literal, and at most an error
      obtain ⟨htok, hiss⟩ := piece_of_not_isDigit r hc
      have hl : (pc.issue.map fun i => i.toDiagnostic file p).toList.filter
          (·.severity == .warning) = [] := by
        cases h : pc.issue with
        | none => rfl
        | some i => simp [ScanIssue.toDiagnostic, Diagnostic.atSpan, hiss i h]
      have hr : ((pc.token.map fun t => (⟨t.1, t.2, span⟩ : Token)).toList.filter fun t =>
          t.kind == .intLit && decide (intLimit < digitsValue (Text.spanChars (pre ++ c :: r) t.span))) = [] := by
        cases h : pc.token with
        | none => rfl
        | some l => simp [htok l h]
      rw [hl, hr]
      rfl

/-! ## Runs of digits in a text -/

/-- Reading a text that is not empty moves forward. -/
theorem Position.lt_skip (p : Position) {m : List Char} (hm : m ≠ []) :
    p.line < (p.skip m).line ∨ (p.line = (p.skip m).line ∧ p.col < (p.skip m).col) := by
  obtain ⟨c, m, rfl⟩ := List.exists_cons_of_ne_nil hm
  have h₁ := p.next_after c
  have h₂ := (p.next c).le_skip m
  rw [Position.skip_cons]
  omega

theorem Position.skip_ne_self (p : Position) {m : List Char} (hm : m ≠ []) : p.skip m ≠ p := by
  intro h
  have hlt := p.lt_skip hm
  rw [h] at hlt
  omega

/-- Two first parts of one text that end at the same place are the same. -/
theorem prefix_eq_of_skip_eq {pre pre' a b : List Char} (h : pre ++ a = pre' ++ b)
    (hp : Position.first.skip pre = Position.first.skip pre') : pre = pre' := by
  rcases List.append_eq_append_iff.1 h with ⟨m, rfl, -⟩ | ⟨m, rfl, -⟩ <;>
    rw [Position.skip_append] at hp <;> by_cases hm : m = []
  · simp [hm]
  · exact absurd hp.symm (Position.skip_ne_self _ hm)
  · simp [hm]
  · exact absurd hp (Position.skip_ne_self _ hm)

/-- Two runs of digits that start at one place, each as long as it can be, are
the same. -/
theorem digits_eq_of_append_eq {run run' post post' : List Char} (h : run ++ post = run' ++ post')
    (hr : ∀ d ∈ run, d.isDigit = true) (hr' : ∀ d ∈ run', d.isDigit = true)
    (hp : ∀ d ∈ post.head?, d.isDigit = false) (hp' : ∀ d ∈ post'.head?, d.isDigit = false) :
    run = run' := by
  rcases List.append_eq_append_iff.1 h with ⟨m, rfl, hpost⟩ | ⟨m, rfl, hpost⟩
  · cases m with
    | nil => simp
    | cons d m =>
      have hd := hp d (by simp [hpost])
      rw [hr' d (by simp)] at hd
      cases hd
  · cases m with
    | nil => simp
    | cons d m =>
      have hd := hp' d (by simp [hpost])
      rw [hr d (by simp)] at hd
      cases hd

/-- A scan issue is reported where it was found. -/
theorem ScanIssue.toDiagnostic_inj {i : ScanIssue} {file : String} {p p' : Position}
    (h : i.toDiagnostic file p = i.toDiagnostic file p') : p = p' := by
  simp only [ScanIssue.toDiagnostic, Diagnostic.atSpan, Span.point, Diagnostic.mk.injEq,
    List.cons.injEq, Label.mk.injEq, Span.mk.injEq, Nat.cast_inj, true_and, and_true] at h
  cases p
  cases p'
  simp_all

/-- Every integer literal of a scan covers a run of digits of the text, as long
as it can be, and its text is that run clamped. -/
theorem scan_intLit_run {file s : String} {t : Token} (ht : t ∈ (scan file s).tokens)
    (hk : t.kind = .intLit) :
    ∃ pre run post, s.toList = pre ++ run ++ post ∧
      t.span = Span.ofChars file (Position.first.skip pre) run ∧
      run ≠ [] ∧ (∀ d ∈ run, d.isDigit = true) ∧ (∀ d ∈ post.head?, d.isDigit = false) ∧
      t.text = (clampDigits run).1 := by
  obtain ⟨segs, hcut, hchars, htoks⟩ := scanFrom_segments file s.toList Position.first
  rw [scan, ← htoks] at ht
  obtain ⟨pre, run, post, htext, hc, hsp⟩ := mem_tokensFrom file hcut t ht
  obtain ⟨hx, hds, hpost⟩ := hc.of_intLit hk
  exact ⟨pre, run, post, hchars ▸ htext, hsp, hc.ne_nil, hds, hpost, hx⟩

/-- **A scan warns at a run of digits exactly when it clamps it.** -/
theorem scan_warns_iff {file s : String} {t : Token} (ht : t ∈ (scan file s).tokens)
    (hk : t.kind = .intLit) {pre run post : List Char} (htext : s.toList = pre ++ run ++ post)
    (hsp : t.span = Span.ofChars file (Position.first.skip pre) run) (hds : ∀ d ∈ run, d.isDigit = true)
    (hpost : ∀ d ∈ post.head?, d.isDigit = false) :
    ScanIssue.tooLarge.toDiagnostic file (Position.first.skip pre) ∈ (scan file s).diagnostics ↔
      intLimit < digitsValue run := by
  have hwarn := scanFrom_warnings file s.toList Position.first [] rfl
  rw [List.nil_append] at hwarn
  -- the characters each literal covers are its run, so a warning names its run
  have hcover : ∀ {u : Token} {pre' run' post' : List Char}, s.toList = pre' ++ run' ++ post' →
      u.span = Span.ofChars file (Position.first.skip pre') run' → (∀ d ∈ run', d.isDigit = true) →
      Text.spanChars s.toList u.span = run' := by
    intro u pre' run' post' htext' hsp' hds'
    rw [htext', hsp']
    exact spanChars_ofChars file post'
      fun d hd => ne_lf_of_isBlank (isBlank_eq_false_of_isWordChar (isWordChar_of_isDigit (hds' d hd)))
  have hpos : ∀ {u : Token} {pre' run' : List Char},
      u.span = Span.ofChars file (Position.first.skip pre') run' →
      (⟨u.span.startLine.toNat, u.span.startCol.toNat⟩ : Position) = Position.first.skip pre' := by
    intro u pre' run' hsp'
    simp [hsp', Span.ofChars]
  constructor
  · intro hmem
    have hmem' : ScanIssue.tooLarge.toDiagnostic file (Position.first.skip pre) ∈
        (scan file s).diagnostics.filter (·.severity == .warning) :=
      List.mem_filter.2 ⟨hmem, rfl⟩
    rw [scan, hwarn] at hmem'
    obtain ⟨u, hu, hwu⟩ := List.mem_map.1 hmem'
    obtain ⟨hu, hcond⟩ := List.mem_filter.1 hu
    simp only [Bool.and_eq_true, beq_iff_eq, decide_eq_true_eq] at hcond
    obtain ⟨pre', run', post', htext', hsp', -, hds', hpost', -⟩ := scan_intLit_run hu hcond.1
    -- the warning is at `u`'s first digit, so `u` starts where `t` does and covers its run
    rw [hpos hsp'] at hwu
    have hsame : pre ++ (run ++ post) = pre' ++ (run' ++ post') := by
      rw [← List.append_assoc, ← List.append_assoc, ← htext, ← htext']
    have hpre : pre = pre' := prefix_eq_of_skip_eq hsame (ScanIssue.toDiagnostic_inj hwu).symm
    subst hpre
    have hrun : run = run' :=
      digits_eq_of_append_eq (List.append_cancel_left hsame) hds hds' hpost hpost'
    rw [hrun, ← hcover htext' hsp' hds']
    exact hcond.2
  · intro hN
    have hmem : ScanIssue.tooLarge.toDiagnostic file (Position.first.skip pre) ∈
        (scan file s).diagnostics.filter (·.severity == .warning) := by
      rw [scan, hwarn, ← hpos hsp]
      refine List.mem_map_of_mem (List.mem_filter.2 ⟨ht, ?_⟩)
      simp only [Bool.and_eq_true, beq_iff_eq, decide_eq_true_eq]
      exact ⟨hk, by rw [hcover htext hsp hds]; exact hN⟩
    exact (List.mem_filter.1 hmem).1

/-- **Integer literals are clamped exactly.** Every integer literal of a scan
covers a run of digits of the text, as long as it can be. Its text is the
decimal numeral, without leading zeros, of the run's number clamped to
`intLimit`; the parser reads it back to that clamped number; the scan warns at
the run's first digit exactly when the number is above the limit; and the
scanner's shortcut, clamping a run of more significant digits than the limit
has, agrees with comparing the numbers. -/
theorem scan_clamps_int_literals (file s : String) :
    ∀ t ∈ (scan file s).tokens, t.kind = .intLit →
      ∃ pre run post, s.toList = pre ++ run ++ post ∧
        t.span = Span.ofChars file (Position.first.skip pre) run ∧
        run ≠ [] ∧ (∀ d ∈ run, d.isDigit = true) ∧ (∀ d ∈ post.head?, d.isDigit = false) ∧
        ((toString intLimit).length < (significantDigits run).length → intLimit < digitsValue run) ∧
        t.text = toString (min (digitsValue run) intLimit) ∧
        (∀ eof rest, parsePrefix eof (t :: rest) =
          (Reading.ok (.int (min (digitsValue run) intLimit) t.span) rest).after t) ∧
        (ScanIssue.tooLarge.toDiagnostic file (Position.first.skip pre) ∈ (scan file s).diagnostics ↔
          intLimit < digitsValue run) := by
  intro t ht hk
  obtain ⟨pre, run, post, htext, hsp, hne, hds, hpost, hx⟩ := scan_intLit_run ht hk
  refine ⟨pre, run, post, htext, hsp, hne, hds, hpost, clamped_of_long hds, ?_, fun eof rest => ?_,
    scan_warns_iff ht hk htext hsp hds hpost⟩
  · rw [hx, clampDigits_eq hds]
  · rw [parsePrefix_intLit hk, hx, digitsValue_clampDigits hds]

/-- Thirteen digits, two of them leading zeros, clamped with a warning at the first zero. -/
theorem scan_clamps_thirteen_digits :
    (⟨.intLit, "2147483647", ⟨"main.egg", 1, 5, 1, 17⟩⟩ : Token) ∈
        (scan "main.egg" "x = 0099999999999;").tokens ∧
      (⟨.intLit, "2147483647", ⟨"main.egg", 1, 5, 1, 17⟩⟩ : Token).kind = .intLit ∧
      ∃ pre run post, "x = 0099999999999;".toList = pre ++ run ++ post ∧
        (⟨"main.egg", 1, 5, 1, 17⟩ : Span) = Span.ofChars "main.egg" (Position.first.skip pre) run ∧
        run ≠ [] ∧ (∀ d ∈ run, d.isDigit = true) ∧ (∀ d ∈ post.head?, d.isDigit = false) ∧
        ((toString intLimit).length < (significantDigits run).length → intLimit < digitsValue run) ∧
        "2147483647" = toString (min (digitsValue run) intLimit) ∧
        (∀ eof rest, parsePrefix eof (⟨.intLit, "2147483647", ⟨"main.egg", 1, 5, 1, 17⟩⟩ :: rest) =
          (Reading.ok (.int (min (digitsValue run) intLimit) ⟨"main.egg", 1, 5, 1, 17⟩) rest).after
            ⟨.intLit, "2147483647", ⟨"main.egg", 1, 5, 1, 17⟩⟩) ∧
        (ScanIssue.tooLarge.toDiagnostic "main.egg" (Position.first.skip pre) ∈
            (scan "main.egg" "x = 0099999999999;").diagnostics ↔ intLimit < digitsValue run) := by
  have hmem : (⟨.intLit, "2147483647", ⟨"main.egg", 1, 5, 1, 17⟩⟩ : Token) ∈
      (scan "main.egg" "x = 0099999999999;").tokens := by
    decide +kernel
  exact ⟨hmem, rfl, scan_clamps_int_literals "main.egg" "x = 0099999999999;" _ hmem rfl⟩

end EggFront
