import Mathlib
import EggFront.Proofs.Parse.Nesting
import EggFront.Proofs.Parse.Names
import EggFront.Proofs.Token.Segments

/-!
# The parser's spans nest

Every program the parser reads from a scanned text nests (`Program.parse_nests`).

Scanning gives tokens in order (`Token.InOrder`): each token runs forward and
ends before the next one starts, and the last one before the end marker. A
reader answers from the front of its tokens, so what it reads lies between
where its tokens start and where the tokens it leaves start (`startOf`). The
proof follows the readers once more, as the proofs about names do, with one
notion: a reading *spans* `P` when every clean reading of tokens in order
answers what `P` says of it between those two places (`Reading.Spans`). For a
node, `P` says that its span lies there and that it nests; for a list, that
the spans lie there in a row (`Span.Row`). Spans compose along `andThen`,
`map` and `after` as readings do.

A node's span is made from the span of a token or of a child where it starts,
and of a token or of a child where it ends; its children are read in between,
one after another, so they lie in a row within it (`Span.holds_of_row`).
-/

namespace EggFront

/-! ## Stretches between places -/

namespace Span

/-- The place just past a span's last character. -/
def after (s : Span) : Lex (Int × Int) := toLex (s.endLine, s.endCol + 1)

/-- Lines are counted in whole columns: a place comes before the one just past
a span exactly when it comes no later than the span's last character. -/
theorem lt_after_iff {x : Lex (Int × Int)} {s : Span} : x < s.after ↔ x ≤ s.last := by
  rw [after, last, Prod.Lex.lt_iff, Prod.Lex.le_iff]
  simp only [ofLex_toLex]
  omega

/-- The span runs forward from `lo` on, and ends before `hi`. -/
def Inside (s : Span) (lo hi : Lex (Int × Int)) : Prop := lo ≤ s.first ∧ s.first ≤ s.last ∧ s.last < hi

/-- The spans `ss` lie in a row between `lo` and `hi`: each runs forward
within them, and ends before the next one starts. -/
def Row (ss : List Span) (lo hi : Lex (Int × Int)) : Prop :=
  lo ≤ hi ∧ (∀ s ∈ ss, s.Inside lo hi) ∧ ss.Pairwise Precedes

variable {s : Span} {ss ss' : List Span} {lo mid hi lo' hi' : Lex (Int × Int)}

theorem Inside.lt (h : s.Inside lo hi) : lo < hi :=
  lt_of_le_of_lt h.1 (lt_of_le_of_lt h.2.1 h.2.2)

theorem Inside.mono (h : s.Inside lo hi) (hlo : lo' ≤ lo) (hhi : hi ≤ hi') : s.Inside lo' hi' :=
  ⟨le_trans hlo h.1, h.2.1, lt_of_lt_of_le h.2.2 hhi⟩

theorem row_nil (h : lo ≤ hi) : Row [] lo hi := ⟨h, by simp, List.Pairwise.nil⟩

theorem Row.mono (h : Row ss lo hi) (hlo : lo' ≤ lo) (hhi : hi ≤ hi') : Row ss lo' hi' :=
  ⟨le_trans hlo (le_trans h.1 hhi), fun s hs => (h.2.1 s hs).mono hlo hhi, h.2.2⟩

/-- A row, then another after it, make one row. -/
theorem Row.append (h : Row ss lo mid) (h' : Row ss' mid hi) : Row (ss ++ ss') lo hi := by
  obtain ⟨hlm, hin, hp⟩ := h
  obtain ⟨hmh, hin', hp'⟩ := h'
  refine ⟨le_trans hlm hmh, ?_, List.pairwise_append.2 ⟨hp, hp', ?_⟩⟩
  · intro x hx
    rcases List.mem_append.1 hx with hx | hx
    · exact (hin x hx).mono le_rfl hmh
    · exact (hin' x hx).mono hlm le_rfl
  · intro x hx y hy
    exact lt_of_lt_of_le (hin x hx).2.2 (hin' y hy).1

theorem Inside.row (h : s.Inside lo hi) : Row [s] lo hi :=
  ⟨le_of_lt h.lt, by simpa using h, List.pairwise_singleton _ _⟩

theorem Row.cons (h : s.Inside lo mid) (h' : Row ss mid hi) : Row (s :: ss) lo hi :=
  h.row.append h'

theorem Inside.start (h : s.Inside lo hi) : s.Inside s.first hi := ⟨le_rfl, h.2⟩

theorem Inside.stop (h : s.Inside lo hi) : s.Inside lo s.after := ⟨h.1, h.2.1, lt_after_iff.2 le_rfl⟩

/-- A stretch from the start of `a` to the end of `b`, read after it. -/
theorem Inside.through {a b : Span} (ha : a.Inside lo mid) (hb : b.Inside mid' hi) (hm : mid ≤ mid') :
    (a.through b).Inside lo hi := by
  have hab : a.first < b.last :=
    calc a.first ≤ a.last := ha.2.1
      _ < mid := ha.2.2
      _ ≤ mid' := hm
      _ ≤ b.first := hb.1
      _ ≤ b.last := hb.2.1
  exact ⟨ha.1, le_of_lt hab, hb.2.2⟩

@[simp] theorem holds_nil : s.Holds [] ↔ s.first ≤ s.last := by
  simp [Holds]

theorem Inside.first_lt (h : s.Inside lo hi) : s.first < hi := lt_of_le_of_lt h.2.1 h.2.2

theorem Inside.first_le_after (h : s.Inside lo hi) : s.first ≤ s.after := (lt_after_iff.2 h.2.1).le

theorem Inside.le_after (h : s.Inside lo hi) : lo ≤ s.after := le_trans h.1 h.first_le_after

/-- A span that runs forward holds the spans that lie in a row from where it
starts to just past where it ends. -/
theorem holds_of_row (hs : s.first ≤ s.last) (h : Row ss s.first s.after) : s.Holds ss :=
  ⟨hs, fun c hc => ⟨(h.2.1 c hc).1, lt_after_iff.1 (h.2.1 c hc).2.2⟩, h.2.2⟩

variable {a b : Span} {cs : List Span}

/-- Spans in a row after `a` and before `b` lie in a row from where `a` starts
to just past where `b` ends. -/
theorem Row.between (h : Row cs mid mid') (ha : a.Inside lo mid) (hb : b.Inside mid' hi) :
    Row cs a.first b.after :=
  h.mono ha.first_lt.le hb.le_after

/-- A node from `a` to `b`, read after it, lies where they do, and holds the
spans in a row within it. -/
theorem Inside.spans (ha : a.Inside lo mid) (hb : b.Inside mid' hi) (hm : mid ≤ mid')
    (h : Row cs a.first b.after) : (a.through b).Inside lo hi ∧ (a.through b).Holds cs :=
  ⟨ha.through hb hm, holds_of_row (ha.through hb hm).2.1 h⟩

end Span

/-! ## Tokens in order -/

/-- Where the tokens `ts` start: at the first one, or at the end marker. -/
def startOf (eof : Token) (ts : List Token) : Lex (Int × Int) := (current eof ts).span.first

@[simp] theorem startOf_cons (eof t : Token) (ts : List Token) : startOf eof (t :: ts) = t.span.first :=
  rfl

@[simp] theorem startOf_nil (eof : Token) : startOf eof [] = eof.span.first := rfl

/-- The tokens run forward, each ending before the next one starts, and the last
one before the end marker `eof`, which runs forward too. -/
def Token.InOrder (eof : Token) : List Token → Prop
  | [] => eof.span.first ≤ eof.span.last
  | t :: ts => t.span.first ≤ t.span.last ∧ t.span.last < startOf eof ts ∧ Token.InOrder eof ts

namespace Token.InOrder

variable {eof t : Token} {ts s : List Token}

theorem tail (h : InOrder eof (t :: ts)) : InOrder eof ts := h.2.2

/-- The first token lies before the others. -/
theorem head (h : InOrder eof (t :: ts)) : t.span.Inside t.span.first (startOf eof ts) :=
  ⟨le_rfl, h.1, h.2.1⟩

/-- Where tokens start, the end marker runs forward and starts no earlier. -/
theorem startOf_le_eof (h : InOrder eof ts) :
    startOf eof ts ≤ eof.span.first ∧ eof.span.first ≤ eof.span.last := by
  induction ts with
  | nil => exact ⟨le_rfl, h⟩
  | cons t ts ih =>
    obtain ⟨h₁, h₂, h₃⟩ := h
    obtain ⟨h₄, h₅⟩ := ih h₃
    exact ⟨le_trans h₁ (le_of_lt (lt_of_lt_of_le h₂ h₄)), h₅⟩

/-- Tokens that end tokens in order are in order, and start no earlier. -/
theorem suffix (h : InOrder eof ts) (hs : s <:+ ts) : InOrder eof s ∧ startOf eof ts ≤ startOf eof s := by
  obtain ⟨c, rfl⟩ := hs
  induction c with
  | nil => exact ⟨h, le_rfl⟩
  | cons t c ih =>
    obtain ⟨h₁, h₂, h₃⟩ := h
    obtain ⟨hs, hle⟩ := ih h₃
    exact ⟨hs, le_trans h₁ (le_of_lt (lt_of_lt_of_le h₂ hle))⟩

end Token.InOrder

/-! ## Scanned tokens are in order -/

/-- **Scanning gives tokens in order.** The tokens of a scan from `p` come in
order before its end marker, from `p` on. -/
theorem scanFrom_inOrder (file : String) (cs : List Char) (p : Position) :
    Token.InOrder (scanFrom file cs p).eof (scanFrom file cs p).tokens ∧
      toLex ((p.line : Int), (p.col : Int)) ≤ startOf (scanFrom file cs p).eof (scanFrom file cs p).tokens := by
  fun_induction scanFrom file cs p with
  | case1 p =>
    simp only [Token.InOrder, startOf_nil, Span.first, Span.last, Span.point]
    exact ⟨le_rfl, le_rfl⟩
  | case2 p c r pc q s span ih =>
    obtain ⟨hord, hstart⟩ := ih
    have hle : p.line < q.line ∨ (p.line = q.line ∧ p.col ≤ q.col) := p.le_skip (c :: pc.more)
    obtain ⟨seg, hsc, hsv, hsl⟩ := piece_segment c r
    cases htok : pc.token with
    | none =>
      simp only [Option.map_none, Option.toList_none, List.nil_append]
      refine ⟨hord, le_trans ?_ hstart⟩
      rw [Prod.Lex.toLex_le_toLex]
      omega
    | some l =>
      -- the token lies on one line, and what follows it starts past its last column
      cases seg with
      | token k x cs' =>
        simp only [Segment.chars] at hsc
        have hlf : ∀ d ∈ c :: pc.more, d ≠ '\n' := hsc ▸ TokenCut.no_lf hsv
        have hq : q = ⟨p.line, p.col + (c :: pc.more).length⟩ := Position.skip_of_no_newline p _ hlf
        have hql : q.line = p.line ∧ q.col = p.col + pc.more.length + 1 := by
          rw [hq]
          simp only [List.length_cons, true_and]
          omega
        simp only [Option.map_some, Option.toList_some, List.singleton_append, Token.InOrder,
          startOf_cons, Span.first, Span.last, span]
        refine ⟨⟨?_, lt_of_lt_of_le ?_ hstart, hord⟩, le_rfl⟩
        · rw [Prod.Lex.toLex_le_toLex]
          omega
        · rw [Prod.Lex.toLex_lt_toLex]
          omega
      | _ => exact absurd (hsl.trans htok) (by simp [Segment.lexeme])

/-! ## Readings that span -/

namespace Reading

variable {eof : Token} {ts : List Token} {α β : Type}
  {P : β → Lex (Int × Int) → Lex (Int × Int) → Prop}

/-- Every clean reading of `r`, of tokens in order, answers what `P` says of it
between where its tokens start and where the tokens it leaves start. -/
def Spans (r : Reading ts α) (eof : Token) (P : α → Lex (Int × Int) → Lex (Int × Int) → Prop) : Prop :=
  Token.InOrder eof ts → ∀ a rest, r.Yields a rest → P a (startOf eof ts) (startOf eof rest)

theorem spans_ok {b : β} (h : P b (startOf eof ts) (startOf eof ts)) : (Reading.ok b ts).Spans eof P := by
  intro _ a rest hy
  obtain ⟨rfl, rfl⟩ := ok_yields.1 hy
  exact h

theorem spans_fail (e : SyntaxError) : (Reading.fail e ts : Reading ts β).Spans eof P :=
  fun _ _ _ hy => absurd hy fail_yields

theorem Spans.mono {r : Reading ts β} {Q : β → Lex (Int × Int) → Lex (Int × Int) → Prop}
    (h : r.Spans eof Q) (hQ : ∀ b hi, Q b (startOf eof ts) hi → P b (startOf eof ts) hi) :
    r.Spans eof P :=
  fun hord b rest hy => hQ _ _ (h hord b rest hy)

/-- A reading after the token `t` starts at `t`, which runs forward and ends
before the reading's own tokens start. -/
theorem Spans.after {r : Reading ts β} {t : Token}
    (h : t.span.Inside t.span.first (startOf eof ts) → r.Spans eof fun b _ hi => P b t.span.first hi) :
    (r.after t).Spans eof P :=
  fun hord b rest hy => h hord.head hord.tail b rest hy

theorem Spans.note {r : Reading ts β} (es : List SyntaxError) (h : r.Spans eof P) : (r.note es).Spans eof P :=
  fun hord b rest hy => h hord b rest ((note_yields es r).1 hy).2

theorem Spans.map {r : Reading ts α} {Q : α → Lex (Int × Int) → Lex (Int × Int) → Prop} {f : α → β}
    (h : r.Spans eof Q) (hf : ∀ a hi, Q a (startOf eof ts) hi → P (f a) (startOf eof ts) hi) :
    (r.map f).Spans eof P := by
  intro hord b rest hy
  obtain ⟨a, ha, rfl⟩ := (map_yields f r).1 hy
  exact hf _ _ (h hord a rest ha)

/-- A reading and the one after it: what the first answers lies between where
the tokens start and where the second starts, which is where the first left,
no earlier. -/
theorem Spans.andThen {r : Reading ts α} {Q : α → Lex (Int × Int) → Lex (Int × Int) → Prop}
    {k : (a : α) → (s : List Token) → s <:+ ts → Reading s β} (h : r.Spans eof Q)
    (hk : ∀ a s hs, r.Yields a s → Q a (startOf eof ts) (startOf eof s) →
      startOf eof ts ≤ startOf eof s → (k a s hs).Spans eof fun b _ hi => P b (startOf eof ts) hi) :
    (r.andThen k).Spans eof P := by
  intro hord b rest hy
  obtain ⟨a, s, hs, ha, hkb⟩ := hy.of_andThen
  obtain ⟨hord', hle⟩ := hord.suffix hs
  exact hk a s hs ha (h hord a s ha) hle hord' b rest hkb

end Reading

open Reading

/-! ## Single tokens -/

section Tokens

variable {eof : Token} {ts : List Token}

/-- A token read lies between where the tokens start and where the rest starts. -/
theorem expect_spans (heof : eof.kind = .eof) {k : TokenKind} (hk : k ≠ .eof) :
    (expect eof k ts).Spans eof fun t lo hi => t.span.Inside lo hi := by
  intro hord t rest hy
  obtain ⟨rfl, -⟩ := expect_yields heof hy hk
  exact hord.head

theorem expectIdent_spans (heof : eof.kind = .eof) :
    (expectIdent eof ts).Spans eof fun n lo hi => n.span.Inside lo hi ∧ n.Nests := by
  intro hord n rest hy
  obtain ⟨t, rfl, -, rfl⟩ := expectIdent_yields heof hy
  exact ⟨hord.head, Span.holds_nil.2 hord.head.2.1⟩

end Tokens

/-! ## Expressions -/

section Expressions

variable {eof t : Token}

/-- The fields after a location read from `lo` on make a location from `lo` on. -/
theorem locRest_spans (heof : eof.kind = .eof) (base : Loc) (ts : List Token) {lo : Lex (Int × Int)}
    (hb : base.span.Inside lo (startOf eof ts)) (hn : base.Nests) :
    (locRest eof base ts).Spans eof fun l _ hi => l.span.Inside lo hi ∧ l.Nests := by
  fun_induction locRest eof base ts with
  | case1 base t r hdot ih =>
    refine .after fun ht => .andThen (expectIdent_spans heof) fun n s hs _ hn' _ => ih n s hs ?_ ?_
    · exact hb.through hn'.1 (le_of_lt ht.lt)
    · -- the base and the name lie in a row within the field's span
      have hrow : Span.Row [base.span, n.span] base.span.first n.span.after :=
        (hb.start.mono le_rfl (le_of_lt ht.lt)).row.append hn'.1.stop.row
      exact ⟨Span.holds_of_row (hb.through hn'.1 (le_of_lt ht.lt)).2.1 hrow, hn, hn'.2⟩
  | case2 => exact spans_ok ⟨hb, hn⟩
  | case3 => exact spans_ok ⟨hb, hn⟩

/-- A clean reading of an expression, with any power, lies where it was read, and nests. -/
def ExprSpans (eof : Token) (ts : List Token) : Prop :=
  ∀ m, (parseExpr eof m ts).Spans eof fun e lo hi => e.span.Inside lo hi ∧ e.Nests

def PrefixSpans (eof : Token) (ts : List Token) : Prop :=
  (parsePrefix eof ts).Spans eof fun e lo hi => e.span.Inside lo hi ∧ e.Nests

/-- The loop from `left`, which was read from `lo` on, builds an expression from
`lo` on. -/
def LoopSpans (eof : Token) (ts : List Token) : Prop :=
  ∀ m left flag lo, left.span.Inside lo (startOf eof ts) → left.Nests →
    (infixLoop eof m left flag ts).Spans eof fun e _ hi => e.span.Inside lo hi ∧ e.Nests

/-- A call's arguments lie in a row before its closing `)`. -/
def ArgsSpans (eof : Token) (ts : List Token) : Prop :=
  (parseArgs eof ts).Spans eof fun ac lo hi =>
    Span.Row (ac.1.map Expr.span) lo ac.2.span.first ∧ ac.2.span.Inside lo hi ∧ ∀ e ∈ ac.1, e.Nests

/-- Further arguments lie in a row after those of `acc`, which were read from
`lo` on. -/
def MoreArgsSpans (eof : Token) (ts : List Token) : Prop :=
  ∀ acc lo, Span.Row (acc.map Expr.span) lo (startOf eof ts) → (∀ e ∈ acc, e.Nests) →
    (argsRest eof acc ts).Spans eof fun ac _ hi =>
      Span.Row (ac.1.map Expr.span) lo ac.2.span.first ∧ ac.2.span.Inside lo hi ∧ ∀ e ∈ ac.1, e.Nests

/-- The closing `)` after arguments in a row. -/
theorem close_spans (heof : eof.kind = .eof) {ts : List Token} {acc : List Expr} {lo : Lex (Int × Int)}
    (hacc : Span.Row (acc.map Expr.span) lo (startOf eof ts)) (hn : ∀ e ∈ acc, e.Nests) :
    ((expect eof .rparen ts).map fun c => (acc, c)).Spans eof fun ac _ hi =>
      Span.Row (ac.1.map Expr.span) lo ac.2.span.first ∧ ac.2.span.Inside lo hi ∧ ∀ e ∈ ac.1, e.Nests :=
  .map (expect_spans heof (by decide)) fun _ _ hc =>
    ⟨hacc.mono le_rfl hc.1, hc.mono hacc.1 le_rfl, hn⟩

theorem argsRest_span_step (heof : eof.kind = .eof) {ts : List Token}
    (hexp : ∀ r : List Token, r.length < ts.length → ExprSpans eof r)
    (hmore : ∀ r : List Token, r.length < ts.length → MoreArgsSpans eof r) :
    MoreArgsSpans eof ts := by
  intro acc lo hacc hn
  cases ts with
  | nil =>
    rw [argsRest_nil]
    exact close_spans heof hacc hn
  | cons t r =>
    by_cases hk : t.kind = .comma
    · rw [argsRest_comma hk]
      refine .after fun ht => .andThen (hexp r (by simp) 0) fun a s hs _ ha _ => ?_
      refine hmore s (by have := hs.length_le; simp only [List.length_cons]; omega) (acc ++ [a]) lo ?_ ?_
      · rw [List.map_append]
        exact (hacc.mono le_rfl (le_of_lt ht.lt)).append ha.1.row
      · intro e he
        rcases List.mem_append.1 he with he | he
        · exact hn e he
        · rw [List.mem_singleton.1 he]
          exact ha.2
    · rw [argsRest_close hk]
      exact close_spans heof hacc hn

/-- An operator's two operands lie in a row within the span that joins them. -/
theorem Span.holds_operands {a b : Span} {lo mid mid' hi : Lex (Int × Int)} (ha : a.Inside lo mid)
    (hb : b.Inside mid' hi) (hm : mid ≤ mid') : (a.through b).Holds [a, b] :=
  Span.holds_of_row (ha.through hb hm).2.1 ((ha.start.mono le_rfl hm).row.append hb.stop.row)

theorem infixLoop_span_step {ts : List Token}
    (hexp : ∀ r : List Token, r.length < ts.length → ExprSpans eof r)
    (hloop : ∀ r : List Token, r.length < ts.length → LoopSpans eof r) :
    LoopSpans eof ts := by
  intro m left flag lo hl hn
  cases ts with
  | nil =>
    rw [infixLoop_nil]
    exact spans_ok ⟨hl, hn⟩
  | cons t r =>
    rcases hop : Infix.ofKind? t.kind with _ | op
    · rw [infixLoop_none hop]
      exact spans_ok ⟨hl, hn⟩
    by_cases hlt : op.leftPower < m
    · rw [infixLoop_weak hop hlt]
      exact spans_ok ⟨hl, hn⟩
    have hshort {s : List Token} (hs : s <:+ r) : s.length < (t :: r).length := by
      have := hs.length_le
      simp only [List.length_cons]
      omega
    -- the operator lies between the operands, so the joined span runs forward
    cases op with
    | assign =>
      rw [infixLoop_assign hop hlt]
      refine .after fun ht => .andThen (hexp r (by simp) _) fun right s hs _ hr _ => ?_
      cases hloc : left.asLoc? with
      | none => exact spans_fail _
      | some target =>
        have hleft := Expr.eq_loc_of_asLoc hloc
        subst hleft
        refine hloop s (hshort hs) m _ false lo (hl.through hr.1 (le_of_lt ht.lt)) ⟨?_, hn, hr.2⟩
        exact Span.holds_operands hl hr.1 (le_of_lt ht.lt)
    | binary b =>
      by_cases hc : b.isComparison = true ∧ flag = true
      · obtain ⟨hc, rfl⟩ := hc
        rw [infixLoop_chained hop hlt hc]
        exact spans_fail _
      rw [infixLoop_binary hop hlt hc]
      refine .after fun ht => .andThen (hexp r (by simp) _) fun right s hs _ hr _ => ?_
      exact hloop s (hshort hs) m _ b.isComparison lo (hl.through hr.1 (le_of_lt ht.lt))
        ⟨Span.holds_operands hl hr.1 (le_of_lt ht.lt), hn, hr.2⟩

/-- A literal is its token. -/
theorem literal_spans {ts : List Token} {e : Expr} (he : e.span = t.span) (hn : e.Nests ↔ t.span.first ≤ t.span.last) :
    ((Reading.ok e ts).after t).Spans eof fun e lo hi => e.span.Inside lo hi ∧ e.Nests :=
  .after fun ht => spans_ok ⟨he ▸ ht, hn.2 ht.2.1⟩

theorem parsePrefix_span_step (heof : eof.kind = .eof) {ts : List Token}
    (hexp : ∀ r : List Token, r.length < ts.length → ExprSpans eof r)
    (hargs : ∀ r : List Token, r.length < ts.length → ArgsSpans eof r) :
    PrefixSpans eof ts := by
  unfold PrefixSpans
  fun_cases parsePrefix eof ts with
  | case1 =>
    rw [parsePrefix.eq_def]
    exact spans_fail _
  | case2 t r op hop =>
    rw [parsePrefix_unary hop]
    refine .after fun ht => .map (hexp r (by simp) _) fun e _ he => ⟨ht.through he.1 le_rfl, ?_, he.2⟩
    exact Span.holds_of_row (ht.through he.1 le_rfl).2.1 (he.1.stop.mono ht.lt.le le_rfl).row
  | case3 t r _ hk =>
    rw [parsePrefix_intLit hk]
    exact literal_spans rfl Span.holds_nil
  | case4 t r _ hk =>
    rw [parsePrefix_stringLit hk]
    exact literal_spans rfl Span.holds_nil
  | case5 t r _ hk =>
    rw [parsePrefix_true hk]
    exact literal_spans rfl Span.holds_nil
  | case6 t r _ hk =>
    rw [parsePrefix_false hk]
    exact literal_spans rfl Span.holds_nil
  | case7 t r _ hk =>
    -- the parentheses are left out of the span
    rw [parsePrefix_paren hk]
    exact .after fun ht => .andThen (hexp r (by simp) 0) fun e s _ _ he _ =>
      .map (expect_spans heof (by decide)) fun _ _ hc => ⟨he.1.mono ht.lt.le hc.lt.le, he.2⟩
  | case8 t _ hk u r hu =>
    rw [parsePrefix_call hk hu]
    refine .after fun ht => .after fun hu' => .map (hargs r (by simp only [List.length_cons]; omega)) ?_
    intro ac _ hac
    obtain ⟨hrow, hc, hn⟩ := hac
    have hcall : (t.span.through ac.2.span).Inside t.span.first _ := ht.through hc (le_of_lt hu'.lt)
    refine ⟨hcall, Span.holds_of_row hcall.2.1 ?_, Span.holds_nil.2 ht.2.1, by simpa using hn⟩
    -- the callee, then the arguments, which end before the closing parenthesis
    exact ht.row.append (hrow.mono (le_of_lt hu'.lt) (Span.lt_after_iff.2 hc.2.1).le)
  | case9 t _ hk u r hu =>
    rw [parsePrefix_loc hk hu]
    exact .after fun ht => .map (locRest_spans heof (.var t.ident) (u :: r) ht (Span.holds_nil.2 ht.2.1))
      fun _ _ hl => hl
  | case10 t _ hk =>
    rw [parsePrefix_var hk]
    exact literal_spans rfl Span.holds_nil
  | case11 t r hop =>
    rw [parsePrefix.eq_def]
    simp only [hop]
    exact spans_fail _

theorem parseExpr_span_step (heof : eof.kind = .eof) {ts : List Token} (hpre : PrefixSpans eof ts)
    (hloop : ∀ r : List Token, r.length < ts.length → LoopSpans eof r) :
    ExprSpans eof ts := by
  intro m
  rw [parseExpr]
  -- the operand read first leaves fewer tokens for the loop
  exact .andThen hpre fun left s _ hy hl _ => hloop s (parsePrefix_rest_lt heof hy) m left false _ hl.1 hl.2

theorem parseArgs_span_step (heof : eof.kind = .eof) {ts : List Token} (hexp : ExprSpans eof ts)
    (hmore : ∀ r : List Token, r.length < ts.length → MoreArgsSpans eof r) :
    ArgsSpans eof ts := by
  by_cases hk : (current eof ts).kind = .rparen
  · rw [ArgsSpans, parseArgs_close hk]
    exact .map (expect_spans heof (by decide)) fun _ _ hc =>
      ⟨Span.row_nil hc.1, hc, fun _ h => absurd h List.not_mem_nil⟩
  · rw [ArgsSpans, parseArgs_some hk]
    exact .andThen (hexp 0) fun a s _ hy ha _ =>
      hmore s (parseExpr_rest_lt heof hy) [a] _ ha.1.row (by simpa using ha.2)

/-- The expression readers place what they read, for every list of tokens, by
induction on its length, as in `expr_readers_trace`. -/
theorem expr_readers_span (heof : eof.kind = .eof) (ts : List Token) :
    ExprSpans eof ts ∧ LoopSpans eof ts ∧ ArgsSpans eof ts ∧ MoreArgsSpans eof ts := by
  suffices ∀ n (ts : List Token), ts.length = n →
      ExprSpans eof ts ∧ LoopSpans eof ts ∧ ArgsSpans eof ts ∧ MoreArgsSpans eof ts from
    this _ ts rfl
  intro n
  induction n using Nat.strongRecOn with
  | ind n ih =>
    intro ts hn
    subst hn
    have hexp r (hr : r.length < ts.length) := (ih _ hr r rfl).1
    have hloop r (hr : r.length < ts.length) := (ih _ hr r rfl).2.1
    have hargs r (hr : r.length < ts.length) := (ih _ hr r rfl).2.2.1
    have hmore r (hr : r.length < ts.length) := (ih _ hr r rfl).2.2.2
    have hexpr := parseExpr_span_step heof (parsePrefix_span_step heof hexp hargs) hloop
    exact ⟨hexpr, infixLoop_span_step hexp hloop, parseArgs_span_step heof hexpr hmore,
      argsRest_span_step heof hexp hmore⟩

theorem parseExpr_spans (heof : eof.kind = .eof) (m : Nat) (ts : List Token) :
    (parseExpr eof m ts).Spans eof fun e lo hi => e.span.Inside lo hi ∧ e.Nests :=
  (expr_readers_span heof ts).1 m

theorem parseArgs_spans (heof : eof.kind = .eof) (ts : List Token) : ArgsSpans eof ts :=
  (expr_readers_span heof ts).2.2.1

end Expressions

/-! ## Declarations and statements -/

section Statements

variable {eof t : Token}

theorem baseType_span {ty : TypeExpr} (h : baseType? t = some ty) :
    ty.span = t.span ∧ (ty.Nests ↔ t.span.first ≤ t.span.last) := by
  unfold baseType? at h
  split at h <;> simp only [Option.some.injEq, reduceCtorEq] at h <;> subst h <;>
    exact ⟨rfl, Span.holds_nil⟩

theorem DeclStart.span_eq {st : DeclStart} (h : declStart? t = some st) : st.span = t.span := by
  rcases declStart_eq h with ⟨-, rfl⟩ | ⟨ty, hty, rfl⟩
  · rfl
  · exact (baseType_span hty).1

/-- A variable declaration after its first token `t` runs from `t` to its `;`,
and nests. -/
theorem parseVarDecl_spans (heof : eof.kind = .eof) {st : DeclStart} (hst : declStart? t = some st)
    {r : List Token} (ht : t.span.Inside t.span.first (startOf eof r)) :
    (parseVarDecl eof st r).Spans eof fun d _ hi => d.span.Inside t.span.first hi ∧ d.Nests := by
  -- after the type, both forms read a name and a semicolon
  have hname (ty : TypeExpr) (s : List Token) (hty : ty.span.Inside t.span.first (startOf eof s))
      (ht' : t.span.Inside t.span.first (startOf eof s)) (hn : ty.Nests) :
      ((expectIdent eof s).andThen fun n s' _ => (expect eof .semicolon s').map fun semi =>
        (⟨ty, n, st.span.through semi.span⟩ : VarDecl)).Spans eof
        fun d _ hi => d.span.Inside t.span.first hi ∧ d.Nests := by
    rw [DeclStart.span_eq hst]
    refine .andThen (expectIdent_spans heof) fun n s' _ _ hn' _ =>
      .map (expect_spans heof (by decide)) fun semi _ hsemi => ?_
    obtain ⟨hd, hh⟩ := ht'.spans hsemi hn'.1.lt.le
      (hty.row.append (hn'.1.row.mono le_rfl hsemi.le_after))
    exact ⟨hd, hh, hn, hn'.2⟩
  -- the type lies before the rest, from `t` on
  have htyped (typed : Reading r TypeExpr)
      (h : typed.Spans eof fun ty _ hi => ty.span.Inside t.span.first hi ∧ t.span.Inside t.span.first hi ∧
        ty.Nests) :
      (typed.andThen fun ty s _ => (expectIdent eof s).andThen fun n s' _ =>
        (expect eof .semicolon s').map fun semi => (⟨ty, n, st.span.through semi.span⟩ : VarDecl)).Spans eof
        fun d _ hi => d.span.Inside t.span.first hi ∧ d.Nests :=
    .andThen h fun ty s _ _ h _ => hname ty s h.1 h.2.1 h.2.2
  rcases declStart_eq hst with ⟨-, rfl⟩ | ⟨ty, hty, rfl⟩
  · -- `struct T x;`: the type runs from `struct` to `T`
    refine htyped _ (.map (expectIdent_spans heof) fun n _ hn => ?_)
    obtain ⟨hd, hh⟩ := ht.spans hn.1 le_rfl (hn.1.stop.row.mono ht.first_lt.le le_rfl)
    exact ⟨hd, ht.mono le_rfl hn.1.lt.le, hh, hn.2⟩
  · obtain ⟨hs, hn⟩ := baseType_span hty
    exact htyped _ (spans_ok ⟨hs ▸ ht, ht, hn.2 ht.2.1⟩)

/-- The declarations of a block, after those of `acc` read from `lo` on, lie in
a row from `lo` on. -/
theorem blockDecls_spans (heof : eof.kind = .eof) (acc : List VarDecl) (ts : List Token)
    {lo : Lex (Int × Int)} (hacc : Span.Row (acc.map VarDecl.span) lo (startOf eof ts))
    (hn : ∀ d ∈ acc, d.Nests) :
    (blockDecls eof acc ts).Spans eof fun ds _ hi => Span.Row (ds.map VarDecl.span) lo hi ∧ ∀ d ∈ ds, d.Nests := by
  fun_induction blockDecls eof acc ts with
  | case1 acc t r st hst d s es hs hpv ih =>
    -- the declaration was read cleanly, and the loop went on after its tokens
    intro hord ds rest hy
    rw [after_yields, note_yields, widen_yields] at hy
    obtain ⟨rfl, hy⟩ := hy
    have hd : (parseVarDecl eof st r).Yields d s := by rw [hpv]; exact ⟨rfl, rfl, rfl⟩
    obtain ⟨hdi, hdn⟩ := parseVarDecl_spans heof hst hord.head hord.tail d s hd
    refine ih ?_ ?_ (hord.tail.suffix hs).1 ds rest hy
    · rw [List.map_append]
      exact hacc.append hdi.row
    · intro e he
      rcases List.mem_append.1 he with he | he
      · exact hn e he
      · rw [List.mem_singleton.1 he]
        exact hdn
  | case2 =>
    -- a broken declaration leaves its error behind
    intro _ ds rest hy
    simp at hy
  | case3 | case4 => exact spans_ok ⟨hacc, hn⟩

theorem parseLoc_spans (heof : eof.kind = .eof) (ts : List Token) :
    (parseLoc eof ts).Spans eof fun l lo hi => l.span.Inside lo hi ∧ l.Nests :=
  .andThen (expectIdent_spans heof) fun n s _ _ hn _ => locRest_spans heof (.var n) s hn.1 hn.2

/-- The parentheses are left out of a condition's span. -/
theorem parseCondition_spans (heof : eof.kind = .eof) (ts : List Token) :
    (parseCondition eof ts).Spans eof fun c lo hi => c.span.Inside lo hi ∧ c.Nests :=
  .andThen (expect_spans heof (by decide)) fun _ s _ _ hl _ =>
    .andThen (parseExpr_spans heof 0 s) fun _ _ _ _ hc _ =>
      .map (expect_spans heof (by decide)) fun _ _ hr => ⟨hc.1.mono hl.lt.le hr.lt.le, hc.2⟩

/-- `t` then the location `target` from `t` on, then `;`. -/
theorem target_spans (heof : eof.kind = .eof) {s : List Token} {target : Loc} {mid : Lex (Int × Int)}
    {f : Token → Stmt} (ht : t.span.Inside t.span.first mid) (htg : target.span.Inside t.span.first mid)
    (hmid : mid ≤ startOf eof s) (hn : target.Nests)
    (hf : ∀ semi : Token, f semi = .increment target (t.span.through semi.span) ∨
      f semi = .decrement target (t.span.through semi.span)) :
    ((expect eof .semicolon s).map f).Spans eof fun st _ hi => st.span.Inside t.span.first hi ∧ st.Nests :=
  .map (expect_spans heof (by decide)) fun semi _ hsemi => by
    obtain ⟨hd, hh⟩ := ht.spans hsemi hmid (htg.row.mono le_rfl (le_trans hmid hsemi.le_after))
    rcases hf semi with h | h <;> rw [h] <;> exact ⟨hd, hh, hn⟩

/-- A statement that starts with a location runs from its first token `t` to its `;`. -/
theorem afterLocation_spans (heof : eof.kind = .eof) {r : List Token}
    (ht : t.span.Inside t.span.first (startOf eof r)) :
    (identStatement.afterLocation eof t r).Spans eof fun st _ hi => st.span.Inside t.span.first hi ∧ st.Nests := by
  unfold identStatement.afterLocation
  refine .andThen (locRest_spans heof (.var t.ident) r ht (Span.holds_nil.2 ht.2.1)) fun target s _ _ htg hrs => ?_
  -- the token after the location says what is done to it
  cases s with
  | nil => exact spans_fail _
  | cons v s =>
    have ht' := ht.mono le_rfl hrs
    simp only
    split
    · exact .after fun hv => target_spans heof ht' htg.1 hv.lt.le htg.2 fun _ => .inl rfl
    · exact .after fun hv => target_spans heof ht' htg.1 hv.lt.le htg.2 fun _ => .inr rfl
    · -- an assignment: its own span runs from the target through the value
      refine .after fun hv => .andThen (parseExpr_spans heof 0 s) fun value s' _ _ hval _ =>
        .map (expect_spans heof (by decide)) fun semi _ hsemi => ?_
      have hmid := hv.lt.le
      obtain ⟨ha, hah⟩ := ht'.spans hval.1 hmid ((htg.1.row.mono le_rfl hmid).append hval.1.stop.row)
      obtain ⟨hd, hh⟩ := ht'.spans hsemi (le_trans hmid hval.1.lt.le) (ha.row.mono le_rfl hsemi.le_after)
      exact ⟨hd, hh, hah, htg.2, hval.2⟩
    · exact spans_fail _

/-- A statement that starts with a name runs from that name to its `;`. -/
theorem identStatement_spans (heof : eof.kind = .eof) {r : List Token}
    (ht : t.span.Inside t.span.first (startOf eof r)) :
    (identStatement eof t r).Spans eof fun st _ hi => st.span.Inside t.span.first hi ∧ st.Nests := by
  unfold identStatement
  cases r with
  | nil => exact afterLocation_spans heof ht
  | cons u r =>
    simp only
    split
    · -- a call: its own span runs from the callee through the closing parenthesis
      refine .after fun hu => .andThen (parseArgs_spans heof r) fun ac s _ _ hac _ => ?_
      cases ac with
      | mk args close =>
        obtain ⟨hrow, hc, hn⟩ := hac
        refine .map (expect_spans heof (by decide)) fun semi _ hsemi => ?_
        obtain ⟨hcs, hcsh⟩ := ht.spans hc hu.lt.le (Span.Row.cons ht (hrow.mono hu.lt.le hc.first_le_after))
        obtain ⟨hd, hh⟩ := ht.spans hsemi (le_trans hu.lt.le hc.lt.le) (hcs.row.mono le_rfl hsemi.le_after)
        exact ⟨hd, hh, hcsh, Span.holds_nil.2 ht.2.1, by simpa using hn⟩
    · exact afterLocation_spans heof ht

/-- A clean reading of a statement after its first token `t` runs from `t`, and nests. -/
def StatementSpans (eof : Token) (ts : List Token) : Prop :=
  ∀ t r rd, ts = t :: r → parseStatement eof t r = .ok rd → t.span.Inside t.span.first (startOf eof r) →
    rd.Spans eof fun st _ hi => st.span.Inside t.span.first hi ∧ st.Nests

/-- The statements of a block, after those of `acc` read from `lo` on, lie in a
row from `lo` on. -/
def StmtsSpans (eof : Token) (ts : List Token) : Prop :=
  ∀ acc lo, Span.Row (acc.map Stmt.span) lo (startOf eof ts) → (∀ st ∈ acc, st.Nests) →
    (stmtLoop eof acc ts).Spans eof fun ss _ hi => Span.Row (ss.map Stmt.span) lo hi ∧ ∀ st ∈ ss, st.Nests

/-- A block lies where it was read, from its `{` to its `}`, with its
declarations and statements in a row between them. -/
def BlockSpans (eof : Token) (ts : List Token) : Prop :=
  (parseBlock eof ts).Spans eof fun b lo hi => b.opening.span.Inside lo hi ∧
    Span.Row (blockSpans b.decls b.stmts) b.opening.span.first b.closing.span.first ∧
    b.closing.span.Inside lo hi ∧ (∀ d ∈ b.decls, d.Nests) ∧ ∀ st ∈ b.stmts, st.Nests

/-- A condition, then a block: the statement from `t` to the block's `}` holds
the condition and the block's declarations and statements. -/
theorem Span.holds_condition_block {c : Span} {b : Block} {lo mid hi : Lex (Int × Int)}
    (ht : t.span.Inside t.span.first lo) (hc : c.Inside lo mid)
    (hb : b.opening.span.Inside mid hi ∧
      Span.Row (blockSpans b.decls b.stmts) b.opening.span.first b.closing.span.first ∧
      b.closing.span.Inside mid hi) :
    (t.span.through b.closing.span).Inside t.span.first hi ∧
      (t.span.through b.closing.span).Holds (c :: blockSpans b.decls b.stmts) :=
  ht.spans hb.2.2 hc.lt.le
    (Span.Row.cons (hc.mono ht.first_lt.le le_rfl) (hb.2.1.mono hb.1.1 hb.2.2.first_le_after))

theorem parseStatement_span_step (heof : eof.kind = .eof) {ts : List Token}
    (hblock : ∀ s : List Token, s.length < ts.length → BlockSpans eof s) :
    StatementSpans eof ts := by
  intro t r rd hts hrd ht
  subst hts
  have hblock' {s : List Token} (hs : s <:+ r) : BlockSpans eof s :=
    hblock s (by have := hs.length_le; simp only [List.length_cons]; omega)
  rw [parseStatement.eq_def] at hrd
  split at hrd
  · -- cin >> location ;
    cases hrd
    refine .andThen (expect_spans heof (by decide)) fun _ s _ _ hrd _ =>
      .andThen (parseLoc_spans heof s) fun target s' _ _ htg _ =>
        .map (expect_spans heof (by decide)) fun semi _ hsemi => ?_
    have ht' := ht.mono le_rfl hrd.lt.le
    obtain ⟨hd, hh⟩ := ht'.spans hsemi htg.1.lt.le (htg.1.row.between ht' hsemi)
    exact ⟨hd, hh, htg.2⟩
  · -- cout << expression ;
    cases hrd
    refine .andThen (expect_spans heof (by decide)) fun _ s _ _ hwr _ =>
      .andThen (parseExpr_spans heof 0 s) fun value s' _ _ hv _ =>
        .map (expect_spans heof (by decide)) fun semi _ hsemi => ?_
    have ht' := ht.mono le_rfl hwr.lt.le
    obtain ⟨hd, hh⟩ := ht'.spans hsemi hv.1.lt.le (hv.1.row.between ht' hsemi)
    exact ⟨hd, hh, hv.2⟩
  · -- if, with or without else
    cases hrd
    refine .andThen (parseCondition_spans heof r) fun c s hs _ hc _ =>
      .andThen (hblock' hs) fun b s' hs' _ hb _ => ?_
    have hthen := Span.holds_condition_block ht hc.1 ⟨hb.1, hb.2.1, hb.2.2.1⟩
    cases s' with
    | nil => exact spans_ok ⟨hthen.1, hthen.2, hc.2, hb.2.2.2.1, by simpa using hb.2.2.2.2⟩
    | cons u s'' =>
      simp only
      split
      · -- the else block comes after the then block's `}` and the `else`
        refine .after fun hu => .map (hblock' ((List.suffix_cons u s'').trans (hs'.trans hs))) fun b' _ hb' => ?_
        have hmid : startOf eof s ≤ startOf eof s'' := (hb.2.2.1.lt.trans hu.lt).le
        obtain ⟨hd, hh⟩ := ht.spans hb'.2.2.1 (le_trans hc.1.lt.le hmid)
          ((Span.Row.cons (hc.1.mono ht.first_lt.le le_rfl)
            (hb.2.1.mono hb.1.1 (hb.2.2.1.first_lt.trans hu.lt).le)).append
            (hb'.2.1.mono hb'.1.1 hb'.2.2.1.first_le_after))
        exact ⟨hd, hh, hc.2, hb.2.2.2.1, by simpa using hb.2.2.2.2, hb'.2.2.2.1, by simpa using hb'.2.2.2.2⟩
      · exact spans_ok ⟨hthen.1, hthen.2, hc.2, hb.2.2.2.1, by simpa using hb.2.2.2.2⟩
  · -- while
    cases hrd
    refine .andThen (parseCondition_spans heof r) fun c s hs _ hc _ => .map (hblock' hs) fun b _ hb => ?_
    have h := Span.holds_condition_block ht hc.1 ⟨hb.1, hb.2.1, hb.2.2.1⟩
    exact ⟨h.1, h.2, hc.2, hb.2.2.2.1, by simpa using hb.2.2.2.2⟩
  · -- repeat
    cases hrd
    refine .andThen (parseCondition_spans heof r) fun c s hs _ hc _ => .map (hblock' hs) fun b _ hb => ?_
    have h := Span.holds_condition_block ht hc.1 ⟨hb.1, hb.2.1, hb.2.2.1⟩
    exact ⟨h.1, h.2, hc.2, hb.2.2.2.1, by simpa using hb.2.2.2.2⟩
  · -- return, with or without a value
    cases hrd
    split
    · exact .map (expect_spans heof (by decide)) fun semi _ hsemi =>
        ht.spans hsemi le_rfl (Span.row_nil (le_trans ht.first_lt.le hsemi.le_after))
    · refine .andThen (parseExpr_spans heof 0 r) fun value s _ _ hv _ =>
        .map (expect_spans heof (by decide)) fun semi _ hsemi => ?_
      obtain ⟨hd, hh⟩ := ht.spans hsemi hv.1.lt.le (hv.1.row.between ht hsemi)
      exact ⟨hd, hh, hv.2⟩
  · -- a statement that starts with a name
    cases hrd
    exact identStatement_spans heof ht
  · -- no statement starts with any other token
    split at hrd <;> cases hrd

/-- One more item after a row of them, read after the row. -/
theorem Span.row_append_nests {γ : Type} {span : γ → Span} {nests : γ → Prop} {acc : List γ} {x : γ}
    {lo mid hi : Lex (Int × Int)} (hacc : Span.Row (acc.map span) lo mid) (hn : ∀ y ∈ acc, nests y)
    (hx : (span x).Inside mid hi) (hxn : nests x) :
    Span.Row ((acc ++ [x]).map span) lo hi ∧ ∀ y ∈ acc ++ [x], nests y := by
  refine ⟨by rw [List.map_append]; exact hacc.append hx.row, fun y hy => ?_⟩
  rcases List.mem_append.1 hy with hy | hy
  · exact hn y hy
  · rw [List.mem_singleton.1 hy]
    exact hxn

theorem stmtLoop_span_step {ts : List Token} (hstmt : StatementSpans eof ts)
    (hloop : ∀ s : List Token, s.length < ts.length → StmtsSpans eof s) :
    StmtsSpans eof ts := by
  intro acc lo hacc hn
  cases ts with
  | nil =>
    rw [stmtLoop]
    exact spans_ok ⟨hacc, hn⟩
  | cons t r =>
    intro hord ss rest hy
    rw [stmtLoop] at hy
    split at hy
    · obtain ⟨rfl, rfl⟩ := ok_yields.1 hy
      exact ⟨hacc, hn⟩
    split at hy
    · -- no statement starts with the token: its error stays
      simp at hy
    · rename_i st s es hs hps
      simp only [after_yields, note_yields, widen_yields] at hy
      obtain ⟨rfl, hy⟩ := hy
      obtain ⟨hsi, hsn⟩ := hstmt t r _ rfl hps hord.head hord.tail st s ⟨rfl, rfl, rfl⟩
      obtain ⟨hacc', hn'⟩ := Span.row_append_nests hacc hn hsi hsn
      exact hloop s (by have := hs.length_le; simp only [List.length_cons]; omega) (acc ++ [st]) lo hacc' hn'
        (hord.tail.suffix hs).1 ss rest hy
    · -- a broken statement leaves its error behind
      simp at hy

theorem parseBlock_span_step (heof : eof.kind = .eof) {ts : List Token}
    (hloop : ∀ s : List Token, s.length < ts.length → StmtsSpans eof s) :
    BlockSpans eof ts := by
  cases ts with
  | nil =>
    rw [BlockSpans, parseBlock]
    exact spans_fail _
  | cons t r =>
    rw [BlockSpans, parseBlock]
    split
    · refine .after fun ht => .andThen (blockDecls_spans heof [] r (Span.row_nil le_rfl) (by simp))
        fun ds s hs _ hds _ => ?_
      have hss := hloop s (by have := hs.length_le; simp only [List.length_cons]; omega) [] (startOf eof s)
        (Span.row_nil le_rfl) (by simp)
      refine .andThen hss fun ss s' _ _ hss hle => .map (expect_spans heof (by decide)) fun close _ hc => ?_
      exact ⟨ht.mono le_rfl (le_trans hds.1.1 (le_trans hle hc.lt.le)),
        (hds.1.append hss.1).mono ht.first_lt.le hc.1, hc.mono (ht.first_lt.le.trans (hds.1.1.trans hle)) le_rfl,
        hds.2, hss.2⟩
    · exact spans_fail _

/-- The statement readers place what they read, for every list of tokens, by
induction on its length, as in `stmt_readers_trace`. -/
theorem stmt_readers_span (heof : eof.kind = .eof) (ts : List Token) :
    StatementSpans eof ts ∧ StmtsSpans eof ts ∧ BlockSpans eof ts := by
  suffices ∀ n (ts : List Token), ts.length = n →
      StatementSpans eof ts ∧ StmtsSpans eof ts ∧ BlockSpans eof ts from this _ ts rfl
  intro n
  induction n using Nat.strongRecOn with
  | ind n ih =>
    intro ts hn
    subst hn
    have hblock s (hs : s.length < ts.length) := (ih _ hs s rfl).2.2
    have hloop s (hs : s.length < ts.length) := (ih _ hs s rfl).2.1
    have hstmt := parseStatement_span_step heof hblock
    exact ⟨hstmt, stmtLoop_span_step hstmt hloop, parseBlock_span_step heof hloop⟩

theorem parseBlock_spans (heof : eof.kind = .eof) (ts : List Token) : BlockSpans eof ts :=
  (stmt_readers_span heof ts).2.2

end Statements

/-! ## Declarations and programs -/

section Programs

variable {eof t : Token}

theorem parseType_spans (ts : List Token) :
    (parseType eof ts).Spans eof fun ty lo hi => ty.span.Inside lo hi ∧ ty.Nests := by
  cases ts with
  | nil =>
    rw [parseType]
    exact spans_fail _
  | cons t r =>
    rw [parseType]
    split
    · rename_i ty hty
      obtain ⟨hs, hn⟩ := baseType_span hty
      exact .after fun ht => spans_ok ⟨hs ▸ ht, hn.2 ht.2.1⟩
    · exact spans_fail _

theorem parseParam_spans (heof : eof.kind = .eof) (ts : List Token) :
    (parseParam eof ts).Spans eof fun p lo hi => p.span.Inside lo hi ∧ p.Nests :=
  .andThen (parseType_spans ts) fun _ _ _ _ hty _ => .map (expectIdent_spans heof) fun _ _ hn => by
    obtain ⟨hd, hh⟩ := hty.1.spans hn.1 le_rfl (hty.1.start.row.append hn.1.stop.row)
    exact ⟨hd, hh, hty.2, hn.2⟩

/-- The parameters after those of `acc`, read from `lo` on, lie in a row from `lo` on. -/
theorem paramsRest_spans (heof : eof.kind = .eof) (acc : List Param) (ts : List Token)
    {lo : Lex (Int × Int)} (hacc : Span.Row (acc.map Param.span) lo (startOf eof ts))
    (hn : ∀ p ∈ acc, p.Nests) :
    (paramsRest eof acc ts).Spans eof fun ps _ hi => Span.Row (ps.map Param.span) lo hi ∧ ∀ p ∈ ps, p.Nests := by
  fun_induction paramsRest eof acc ts with
  | case1 acc t r hk ih =>
    refine .after fun ht => .andThen (parseParam_spans heof r) fun p s hs _ hp _ => ?_
    obtain ⟨hacc', hn'⟩ := Span.row_append_nests (hacc.mono le_rfl ht.lt.le) hn hp.1 hp.2
    exact ih p s hs hacc' hn'
  | case2 | case3 => exact .map (expect_spans heof (by decide)) fun _ _ hc => ⟨hacc.mono le_rfl hc.lt.le, hn⟩

theorem parseParams_spans (heof : eof.kind = .eof) (ts : List Token) :
    (parseParams eof ts).Spans eof fun ps lo hi => Span.Row (ps.map Param.span) lo hi ∧ ∀ p ∈ ps, p.Nests := by
  refine .andThen (expect_spans heof (by decide)) fun _ s _ _ hl _ => ?_
  split
  · exact .map (expect_spans heof (by decide)) fun _ _ hc =>
      ⟨Span.row_nil (hl.lt.trans hc.lt).le, fun _ h => absurd h List.not_mem_nil⟩
  · exact .andThen (parseParam_spans heof s) fun p s' _ _ hp _ =>
      paramsRest_spans heof [p] s' (hp.1.mono hl.lt.le le_rfl).row (by simpa using hp.2)

/-- A block's span, from `{` to `}`, holds its declarations and statements. -/
theorem Block.span_holds {b : Block} {lo hi : Lex (Int × Int)} (ho : b.opening.span.Inside lo hi)
    (hrow : Span.Row (blockSpans b.decls b.stmts) b.opening.span.first b.closing.span.first)
    (hc : b.closing.span.Inside lo hi) :
    b.span.Inside lo hi ∧ b.span.Holds (blockSpans b.decls b.stmts) :=
  ⟨⟨ho.1, le_trans hrow.1 hc.2.1, hc.2.2⟩,
    Span.holds_of_row (le_trans hrow.1 hc.2.1) (hrow.mono le_rfl hc.first_le_after)⟩

/-- A function after its result type `t` runs from `t` to its body's `}`, and nests. -/
theorem parseFnDecl_spans (heof : eof.kind = .eof) {ty : TypeExpr} (hty : baseType? t = some ty)
    {r : List Token} (ht : t.span.Inside t.span.first (startOf eof r)) :
    (parseFnDecl eof ty r).Spans eof fun f _ hi => f.span.Inside t.span.first hi ∧ f.Nests := by
  obtain ⟨hs, htn⟩ := baseType_span hty
  refine .andThen (expectIdent_spans heof) fun name s _ _ hn _ =>
    .andThen (parseParams_spans heof s) fun params s' _ _ hps _ =>
      .map (parseBlock_spans heof s') fun b _ hb => ?_
  obtain ⟨hbody, hbh⟩ := Block.span_holds hb.1 hb.2.1 hb.2.2.1
  -- the result type, the name, the parameters and the body, in a row
  have hrow : Span.Row (ty.span :: name.span :: params.map Param.span ++ [b.span]) ty.span.first b.span.after := by
    rw [hs]
    exact (Span.Row.cons ht (Span.Row.cons hn.1 hps.1)).append hbody.stop.row
  have ht' : ty.span.Inside t.span.first (startOf eof r) := by
    rw [hs]
    exact ht
  obtain ⟨hd, hh⟩ := ht'.spans hbody (hn.1.lt.le.trans hps.1.1) hrow
  exact ⟨hd, hh, hbh, htn.2 ht.2.1, hn.2, hps.2, hb.2.2.2.1, by simpa using hb.2.2.2.2⟩

/-- The fields after those of `acc`, read from `lo` on, lie in a row from `lo` on. -/
theorem fieldLoop_spans (heof : eof.kind = .eof) (acc : List VarDecl) (ts : List Token)
    {lo : Lex (Int × Int)} (hacc : Span.Row (acc.map VarDecl.span) lo (startOf eof ts))
    (hn : ∀ d ∈ acc, d.Nests) :
    (fieldLoop eof acc ts).Spans eof fun ds _ hi => Span.Row (ds.map VarDecl.span) lo hi ∧ ∀ d ∈ ds, d.Nests := by
  fun_induction fieldLoop eof acc ts with
  | case1 acc t r st hst ih =>
    refine .after fun ht => .andThen (parseVarDecl_spans heof hst ht) fun d s hs _ hd _ => ?_
    obtain ⟨hacc', hn'⟩ := Span.row_append_nests hacc hn hd.1 hd.2
    exact ih d s hs hacc' hn'
  | case2 | case3 => exact spans_ok ⟨hacc, hn⟩

/-- A struct after its `struct` keyword `kw` runs from `kw` to its `;`, and nests. -/
theorem parseStructDecl_spans (heof : eof.kind = .eof) {r : List Token}
    (ht : t.span.Inside t.span.first (startOf eof r)) :
    (parseStructDecl eof t r).Spans eof fun d _ hi => d.span.Inside t.span.first hi ∧ d.Nests := by
  refine .andThen (expectIdent_spans heof) fun name s _ _ hn _ =>
    .andThen (expect_spans heof (by decide)) fun _ s' _ _ hl _ => ?_
  -- a report of an empty struct is noted and reading goes on
  refine .note _ (.andThen (fieldLoop_spans heof [] s' (Span.row_nil le_rfl) (by simp)) fun fields s'' _ _ hf _ =>
    .andThen (expect_spans heof (by decide)) fun _ s3 _ _ hr _ =>
      .map (expect_spans heof (by decide)) fun semi _ hsemi => ?_)
  obtain ⟨hd, hh⟩ := ht.spans hsemi (hn.1.lt.le.trans (hl.lt.le.trans (hf.1.1.trans hr.lt.le)))
    (Span.Row.cons (hn.1.mono ht.first_lt.le le_rfl)
      (hf.1.mono hl.lt.le (hr.lt.le.trans hsemi.le_after)))
  exact ⟨hd, hh, hn.2, hf.2⟩

/-- A declaration after its first token `t` runs from `t`, and nests. -/
theorem parseDecl_spans (heof : eof.kind = .eof) {r : List Token} {rd : Reading r Decl}
    (hrd : parseDecl eof t r = .ok rd) (ht : t.span.Inside t.span.first (startOf eof r)) :
    rd.Spans eof fun d _ hi => d.span.Inside t.span.first hi ∧ d.Nests := by
  unfold parseDecl at hrd
  split at hrd
  · rename_i hk
    split at hrd
    · cases hrd
      exact .map (parseStructDecl_spans heof ht) fun _ _ h => h
    · cases hrd
      exact .map (parseVarDecl_spans heof (t := t) (by simp [declStart?, hk]) ht) fun _ _ h => h
  · rename_i hk
    split at hrd
    · rename_i ty hty
      split at hrd
      · cases hrd
        exact .map (parseFnDecl_spans heof hty ht) fun _ _ h => h
      · cases hrd
        exact .map (parseVarDecl_spans heof (t := t) (by simp [declStart?, hk, hty]) ht) fun _ _ h => h
    · cases hrd

/-- A run of the declaration loop that ends with no error read declarations
that lie in a row after those of `acc`, up to the end marker. -/
theorem declLoop_spans (heof : eof.kind = .eof) {acc ds : List Decl} {errs : List SyntaxError}
    {ts : List Token} (h : declLoop eof acc errs ts = (ds, [])) (hord : Token.InOrder eof ts)
    {lo : Lex (Int × Int)} (hacc : Span.Row (acc.map Decl.span) lo (startOf eof ts)) (hn : ∀ d ∈ acc, d.Nests) :
    Span.Row (ds.map Decl.span) lo eof.span.first ∧ ∀ d ∈ ds, d.Nests := by
  fun_induction declLoop eof acc errs ts with
  | case1 acc errs =>
    simp only [Prod.mk.injEq] at h
    obtain ⟨rfl, -⟩ := h
    exact ⟨hacc, hn⟩
  | case2 acc errs t r _ e _ ih =>
    -- an error once recorded is never dropped
    have hnil := (declLoop_sound heof h).1
    simp at hnil
  | case3 acc errs t r _ d s es hs hpd ih =>
    obtain ⟨-, rfl⟩ := List.append_eq_nil_iff.1 (declLoop_sound heof h).1
    obtain ⟨hdi, hdn⟩ := parseDecl_spans heof hpd hord.head hord.tail d s ⟨rfl, rfl, rfl⟩
    obtain ⟨hacc', hn'⟩ := Span.row_append_nests hacc hn hdi hdn
    exact ih h (hord.tail.suffix hs).1 hacc' hn'
  | case4 acc errs t r _ e s es hs hpd ih =>
    have hnil := (declLoop_sound heof h).1
    simp at hnil

/-- A program parsed from tokens in order, from line 1, column 1 on, with no end
marker among them, nests. -/
theorem Program.nests_of_parse (heof : eof.kind = .eof) {ts : List Token} {p : Program}
    (hts : ∀ t ∈ ts, t.kind ≠ .eof) (h : Program.parse ts eof = .ok p) (hord : Token.InOrder eof ts)
    (hstart : toLex ((1 : Int), (1 : Int)) ≤ startOf eof ts) : p.Nests := by
  rw [Program.parse_of_unmarked hts] at h
  unfold Program.parseBefore at h
  split at h
  · rename_i ds hloop
    cases h
    obtain ⟨hrow, hn⟩ := declLoop_spans heof hloop hord (Span.row_nil le_rfl) (by simp)
    obtain ⟨hle, heof'⟩ := hord.startOf_le_eof
    -- the program runs from the first place to the end marker
    have hfirst : toLex ((1 : Int), (1 : Int)) ≤ eof.span.last := hstart.trans (hle.trans heof')
    refine ⟨Span.holds_of_row hfirst (hrow.mono hstart ?_), hn⟩
    exact le_trans heof' (Span.lt_after_iff.2 le_rfl).le
  · cases h

end Programs

/-- **Parsed spans nest.** Every program the parser reads from the tokens of a
text nests: each node's span runs forward, holds the spans of its children, and
these come one after another, in the order of the node's fields, each ending
before the next starts. So the outline entry of each declaration has its
name's range within its own range, and a struct's entry holds its fields'
entries within its range, each with its name's range within its own. -/
theorem Program.parse_nests {file text : String} {p : Program}
    (h : Program.parse (scan file text).tokens (scan file text).eof = .ok p) :
    p.Nests ∧ ∀ d ∈ p.decls, (Document.declOutline d).Nests := by
  obtain ⟨hord, hstart⟩ := scanFrom_inOrder file text.toList Position.first
  -- the tokens start at line 1, column 1 or later
  have hfirst : toLex ((1 : Int), (1 : Int)) ≤ startOf (scan file text).eof (scan file text).tokens :=
    hstart
  have hnests : p.Nests := Program.nests_of_parse (scanFrom_eof_kind _ _ _) (scanFrom_unmarked _ _ _) h hord hfirst
  exact ⟨hnests, fun d hd => Decl.outline_nests (hnests.2 d hd)⟩

theorem parse_nests_struct_function :
    ∃ p, Program.parse (scan "main.egg"
        "struct P \x7b int x; \x7d; int g(int a) \x7b struct P q; q.x = a; if (a < 1) \x7b return g(q.x, -a); \x7d else \x7b cout << (a); \x7d \x7d").tokens
        (scan "main.egg"
        "struct P \x7b int x; \x7d; int g(int a) \x7b struct P q; q.x = a; if (a < 1) \x7b return g(q.x, -a); \x7d else \x7b cout << (a); \x7d \x7d").eof = .ok p ∧
      p.Nests ∧ ∀ d ∈ p.decls, (Document.declOutline d).Nests := by
  have hok : (Program.parse (scan "main.egg"
      "struct P \x7b int x; \x7d; int g(int a) \x7b struct P q; q.x = a; if (a < 1) \x7b return g(q.x, -a); \x7d else \x7b cout << (a); \x7d \x7d").tokens
      (scan "main.egg"
      "struct P \x7b int x; \x7d; int g(int a) \x7b struct P q; q.x = a; if (a < 1) \x7b return g(q.x, -a); \x7d else \x7b cout << (a); \x7d \x7d").eof).isOk = true := by
    decide +kernel
  cases hp : Program.parse (scan "main.egg"
      "struct P \x7b int x; \x7d; int g(int a) \x7b struct P q; q.x = a; if (a < 1) \x7b return g(q.x, -a); \x7d else \x7b cout << (a); \x7d \x7d").tokens
      (scan "main.egg"
      "struct P \x7b int x; \x7d; int g(int a) \x7b struct P q; q.x = a; if (a < 1) \x7b return g(q.x, -a); \x7d else \x7b cout << (a); \x7d \x7d").eof with
  | error e =>
    rw [hp] at hok
    cases hok
  | ok p => exact ⟨p, rfl, Program.parse_nests hp⟩

end EggFront
