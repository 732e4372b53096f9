import Mathlib
import EggFront.Proofs.Diagnostic.Order
import EggFront.Proofs.Parse.Flat

/-!
# The parser reports in source order

A reading reports the errors it recovered from, then the one that stopped it, if
any (`Reading.reports`). Over tokens in order, every reader reports in order of
place, from where its tokens start to where the tokens it leaves start
(`Reading.ReportsFrom`), so the errors of a whole program come in source order
(`Program.parse_errors_ordered`).

The bound at the rest is what carries recovery: after an error the parser skips
ahead (`skipItem`), and what it reports next stands at or after the tokens it
skipped to. The bound below is a parameter, because an error may stand before the
tokens a reading starts at: an assignment to what is no location is reported at
its `=`, once the right side is read. The expression readers have their bounds
from `Reading.Flat`: they recover from nothing, and their one error stands at a
token they read or at the one they stopped at.
-/

namespace EggFront

@[simp] theorem SyntaxError.place_toDiagnostic (e : SyntaxError) :
    e.toDiagnostic.place = e.token.span.first := rfl

/-- Tokens in order: one of the first tokens `c` starts where they start or later,
and before the rest does. -/
theorem Token.InOrder.mem_prefix {eof : Token} {rest : List Token} :
    ∀ {c : List Token}, Token.InOrder eof (c ++ rest) → ∀ t ∈ c,
      startOf eof (c ++ rest) ≤ t.span.first ∧ t.span.first < startOf eof rest
  | [], _, t, ht => absurd ht List.not_mem_nil
  | u :: c, h, t, ht => by
    have hu := h.head.first_lt
    have hle := (h.tail.suffix (List.suffix_append c rest)).2
    rcases List.mem_cons.1 ht with rfl | ht
    · exact ⟨le_rfl, lt_of_lt_of_le hu hle⟩
    · obtain ⟨h₁, h₂⟩ := Token.InOrder.mem_prefix h.tail t ht
      exact ⟨hu.le.trans h₁, h₂⟩

namespace Reading

variable {eof : Token} {ts : List Token} {α β : Type} {lo mid : Lex (Int × Int)}

/-- The errors a reading reports, in order: those it recovered from, then the one
that stopped it, if any. -/
def reports (r : Reading ts α) : List SyntaxError :=
  r.errors ++ (match r.result with
    | .ok _ => []
    | .error e => [e])

/-- Over tokens in order, the reading reports in order from `lo` on, up to where
the tokens it leaves start. -/
def ReportsFrom (eof : Token) (lo : Lex (Int × Int)) (r : Reading ts α) : Prop :=
  Token.InOrder eof ts →
    Diagnostic.Ordered (r.reports.map SyntaxError.toDiagnostic) lo (startOf eof r.rest)

theorem reports_ok_of {r : Reading ts α} {a : α} (h : r.result = .ok a) : r.reports = r.errors := by
  simp [reports, h]

theorem reports_error_of {r : Reading ts α} {e : SyntaxError} (h : r.result = .error e) :
    r.reports = r.errors ++ [e] := by
  simp [reports, h]

@[simp] theorem reports_map (r : Reading ts α) (f : α → β) : (r.map f).reports = r.reports := by
  cases h : r.result <;> simp [reports, Reading.map, h, Except.map]

theorem reportsFrom_ok {a : α} (h : lo ≤ startOf eof ts) : (Reading.ok a ts).ReportsFrom eof lo :=
  fun _ => by simpa [reports, Reading.ok] using Diagnostic.Ordered.nil h

theorem reportsFrom_fail {e : SyntaxError} (h₁ : lo ≤ e.token.span.first)
    (h₂ : e.token.span.first ≤ startOf eof ts) : (Reading.fail e ts : Reading ts α).ReportsFrom eof lo :=
  fun _ => by simpa [reports, Reading.fail] using Diagnostic.Ordered.single (d := e.toDiagnostic) h₁ h₂

/-- An error at the token the reading stopped at. -/
theorem reportsFrom_fail_current {e : SyntaxError} (he : e.token = current eof ts) :
    (Reading.fail e ts : Reading ts α).ReportsFrom eof (startOf eof ts) :=
  reportsFrom_fail (by rw [he]; rfl) (by rw [he]; rfl)

theorem ReportsFrom.after {r : Reading ts α} {t : Token} (h : r.ReportsFrom eof lo) :
    (r.after t).ReportsFrom eof lo :=
  fun hord => h hord.tail

/-- A reading from where the tokens after `t` start, seen from `t`. -/
theorem ReportsFrom.after_start {r : Reading ts α} {t : Token} (h : r.ReportsFrom eof (startOf eof ts)) :
    (r.after t).ReportsFrom eof (startOf eof (t :: ts)) :=
  fun hord => (h hord.tail).mono hord.head.first_lt.le le_rfl

theorem ReportsFrom.map {r : Reading ts α} {f : α → β} (h : r.ReportsFrom eof lo) :
    (r.map f).ReportsFrom eof lo := by
  intro hord
  rw [reports_map]
  exact h hord

theorem ReportsFrom.widen {s : List Token} {r : Reading s α} (h : r.ReportsFrom eof lo)
    (hs : s <:+ ts) : (r.widen hs).ReportsFrom eof lo :=
  fun hord => h (hord.suffix hs).1

/-- A reading of tokens that end `ts`, seen from `ts`, reports from where `ts`
starts. -/
theorem ReportsFrom.widen_start {s : List Token} {r : Reading s α} (h : r.ReportsFrom eof (startOf eof s))
    (hs : s <:+ ts) : (r.widen hs).ReportsFrom eof (startOf eof ts) :=
  fun hord => (h (hord.suffix hs).1).mono (hord.suffix hs).2 le_rfl

/-- Errors recovered from before a reading, up to where it starts reporting. -/
theorem ReportsFrom.note {r : Reading ts α} {es : List SyntaxError}
    (hes : Token.InOrder eof ts → Diagnostic.Ordered (es.map SyntaxError.toDiagnostic) lo mid)
    (h : r.ReportsFrom eof mid) : (r.note es).ReportsFrom eof lo := by
  intro hord
  have hrep : (r.note es).reports = es ++ r.reports := List.append_assoc _ _ _
  rw [hrep, List.map_append]
  exact (hes hord).append (h hord)

/-- A reading that goes on from where a clean one stopped. -/
theorem reportsFrom_continue {a : α} {s : List Token} {es : List SyntaxError} {h : s <:+ ts}
    (hr : (⟨.ok a, s, es, h⟩ : Reading ts α).ReportsFrom eof lo) {k : Reading s β}
    (hk : k.ReportsFrom eof (startOf eof s)) : ((k.widen h).note es).ReportsFrom eof lo :=
  ReportsFrom.note (fun hord => by simpa [reports] using hr hord) (hk.widen h)

/-- A reading broken off, then one from further on, where recovery skipped to. -/
theorem reportsFrom_recover {e : SyntaxError} {s s' : List Token} {es : List SyntaxError} {h : s <:+ ts}
    (hr : (⟨.error e, s, es, h⟩ : Reading ts α).ReportsFrom eof lo) {k : Reading s' β}
    (hk : k.ReportsFrom eof (startOf eof s')) (hs : s' <:+ s) :
    ((k.widen (hs.trans h)).note (es ++ [e])).ReportsFrom eof lo := by
  refine ReportsFrom.note (fun hord => by simpa [reports] using hr hord) fun hord => ?_
  have hmid := (hord.suffix h).1.suffix hs
  exact (hk hmid.1).mono hmid.2 le_rfl

/-- What a reading reports, then what the reading after it does from where it left. -/
theorem ReportsFrom.andThen {r : Reading ts α} {k : (a : α) → (s : List Token) → s <:+ ts → Reading s β}
    (h : r.ReportsFrom eof lo) (hk : ∀ a s hs, (k a s hs).ReportsFrom eof (startOf eof s)) :
    (r.andThen k).ReportsFrom eof lo := by
  obtain ⟨res, s, es, hsuf⟩ := r
  cases res with
  | error e =>
    rw [andThen_mk_error]
    exact h
  | ok a =>
    rw [andThen_mk_ok]
    exact reportsFrom_continue h (hk a s hsuf)

/-- A flat reading reports at most its one error, at a token it read or at the
one it stopped at. -/
theorem Flat.reportsFrom {r : Reading ts α} (h : r.Flat eof []) : r.ReportsFrom eof (startOf eof ts) := by
  intro hord
  obtain ⟨he, c, hts, -, herr⟩ := h
  have hle : startOf eof ts ≤ startOf eof r.rest := (hord.suffix r.suffix).2
  cases hres : r.result with
  | ok a =>
    rw [reports_ok_of hres, he]
    exact Diagnostic.Ordered.nil hle
  | error e =>
    rw [reports_error_of hres, he, List.nil_append]
    have hat : startOf eof ts ≤ e.token.span.first ∧ e.token.span.first ≤ startOf eof r.rest := by
      rcases herr e hres with h | h | h
      · exact absurd h List.not_mem_nil
      · have hm := Token.InOrder.mem_prefix (hts ▸ hord) e.token h
        have hstart : startOf eof ts = startOf eof (c ++ r.rest) := congrArg (startOf eof) hts
        exact ⟨(le_of_eq hstart).trans hm.1, hm.2.le⟩
      · rw [h]
        exact ⟨hle, le_rfl⟩
    exact Diagnostic.Ordered.single (d := e.toDiagnostic) hat.1 hat.2

end Reading

open Reading

/-! ## Readers -/

section Readers

variable {eof : Token}

theorem expect_reportsFrom (k : TokenKind) (ts : List Token) :
    (expect eof k ts).ReportsFrom eof (startOf eof ts) := by
  cases ts with
  | nil =>
    rw [expect]
    split
    · exact reportsFrom_ok le_rfl
    · exact reportsFrom_fail_current rfl
  | cons u r =>
    rw [expect]
    split
    · exact fun hord => by simpa [reports] using Diagnostic.Ordered.nil hord.head.first_lt.le
    · exact reportsFrom_fail_current rfl

theorem expectIdent_reportsFrom (ts : List Token) :
    (expectIdent eof ts).ReportsFrom eof (startOf eof ts) :=
  (expect_reportsFrom .ident ts).map

theorem parseVarDecl_reportsFrom (st : DeclStart) (r : List Token) :
    (parseVarDecl eof st r).ReportsFrom eof (startOf eof r) := by
  refine .andThen ?_ fun _ s _ => .andThen (expectIdent_reportsFrom s) fun _ s' _ =>
    (expect_reportsFrom .semicolon s').map
  cases st with
  | base ty => exact reportsFrom_ok le_rfl
  | struct kw => exact (expectIdent_reportsFrom r).map

/-- The declarations of a block report in order, each broken one before those
read after skipping past it. -/
theorem blockDecls_reportsFrom (acc : List VarDecl) (ts : List Token) :
    (blockDecls eof acc ts).ReportsFrom eof (startOf eof ts) := by
  fun_induction blockDecls eof acc ts with
  | case1 acc t r st hst d s es hs hpv ih =>
    have hv : (parseVarDecl eof st r).ReportsFrom eof (startOf eof r) := parseVarDecl_reportsFrom st r
    rw [hpv] at hv
    exact (reportsFrom_continue hv ih).after_start
  | case2 acc t r st hst e s es hs hpv ih =>
    have hv : (parseVarDecl eof st r).ReportsFrom eof (startOf eof r) := parseVarDecl_reportsFrom st r
    rw [hpv] at hv
    exact (reportsFrom_recover hv ih (skipItem_suffix false 0 s)).after_start
  | case3 | case4 => exact reportsFrom_ok le_rfl

theorem identStatement_reportsFrom (heof : eof.kind = .eof) (t : Token) (r : List Token) :
    (identStatement eof t r).ReportsFrom eof (startOf eof r) := by
  -- what is done to a location, once it is read
  have hloc (r : List Token) :
      (identStatement.afterLocation eof t r).ReportsFrom eof (startOf eof r) := by
    unfold identStatement.afterLocation
    refine .andThen (locRest_flat _ _ []).reportsFrom fun _ s _ => ?_
    cases s with
    | nil => exact reportsFrom_fail_current rfl
    | cons v s' =>
      simp only
      split
      · exact (expect_reportsFrom .semicolon s').map.after_start
      · exact (expect_reportsFrom .semicolon s').map.after_start
      · exact ReportsFrom.after_start (.andThen (parseExpr_flat heof 0 [] s').reportsFrom fun _ s'' _ =>
          (expect_reportsFrom .semicolon s'').map)
      · exact reportsFrom_fail_current rfl
  unfold identStatement
  split
  · split
    · refine ReportsFrom.after_start (.andThen (parseArgs_flat heof [] _).reportsFrom fun a s _ => ?_)
      obtain ⟨args, close⟩ := a
      exact (expect_reportsFrom .semicolon s).map
    · exact hloc _
  · exact hloc _

/-- A clean reading of a statement after its first token reports from the
tokens after it on. -/
def StatementReports (eof : Token) (ts : List Token) : Prop :=
  ∀ t r rd, ts = t :: r → parseStatement eof t r = .ok rd → rd.ReportsFrom eof (startOf eof r)

def StmtsReports (eof : Token) (ts : List Token) : Prop :=
  ∀ acc, (stmtLoop eof acc ts).ReportsFrom eof (startOf eof ts)

def BlockReports (eof : Token) (ts : List Token) : Prop :=
  (parseBlock eof ts).ReportsFrom eof (startOf eof ts)

theorem parseStatement_reports_step (heof : eof.kind = .eof) {ts : List Token}
    (hblock : ∀ s : List Token, s.length < ts.length → BlockReports eof s) :
    StatementReports eof ts := by
  intro t r rd hts hrd
  subst hts
  have hblock' {s : List Token} (hs : s <:+ r) : BlockReports eof s :=
    hblock s (by have := hs.length_le; simp only [List.length_cons]; omega)
  rw [parseStatement.eq_def] at hrd
  split at hrd
  · -- cin >> location ;
    cases hrd
    exact .andThen (expect_reportsFrom _ _) fun _ s _ => .andThen (parseLoc_flat [] s).reportsFrom
      fun _ s' _ => (expect_reportsFrom _ _).map
  · -- cout << expression ;
    cases hrd
    exact .andThen (expect_reportsFrom _ _) fun _ s _ => .andThen (parseExpr_flat heof 0 [] s).reportsFrom
      fun _ s' _ => (expect_reportsFrom _ _).map
  · -- if, with or without else
    cases hrd
    refine .andThen (parseCondition_flat heof [] r).reportsFrom fun _ s hs =>
      .andThen (hblock' hs) fun _ s' hs' => ?_
    cases s' with
    | nil => exact reportsFrom_ok le_rfl
    | cons u s'' =>
      simp only
      split
      · exact (ReportsFrom.map (hblock' ((List.suffix_cons u s'').trans (hs'.trans hs)))).after_start
      · exact reportsFrom_ok le_rfl
  · -- while
    cases hrd
    exact .andThen (parseCondition_flat heof [] r).reportsFrom fun _ s hs => ReportsFrom.map (hblock' hs)
  · -- repeat
    cases hrd
    exact .andThen (parseCondition_flat heof [] r).reportsFrom fun _ s hs => ReportsFrom.map (hblock' hs)
  · -- return, with or without a value
    cases hrd
    split
    · exact (expect_reportsFrom _ _).map
    · exact .andThen (parseExpr_flat heof 0 [] r).reportsFrom fun _ s _ => (expect_reportsFrom _ _).map
  · cases hrd
    exact identStatement_reportsFrom heof t r
  · split at hrd <;> cases hrd

theorem stmtLoop_reports_step {ts : List Token} (hstmt : StatementReports eof ts)
    (hloop : ∀ s : List Token, s.length < ts.length → StmtsReports eof s) :
    StmtsReports eof ts := by
  intro acc
  cases ts with
  | nil =>
    rw [stmtLoop]
    exact reportsFrom_ok le_rfl
  | cons t r =>
    have hloop' {s : List Token} (hs : s <:+ r) : StmtsReports eof s :=
      hloop s (by have := hs.length_le; simp only [List.length_cons]; omega)
    rw [stmtLoop]
    split
    · exact reportsFrom_ok le_rfl
    · rename_i hk
      have hskip : skipItem false 0 (t :: r) <:+ r := skipItem_cons_suffix false t r (.inr hk)
      split
      · -- no statement starts with `t`: the error stands at `t`, before what is read after skipping
        rename_i e hps
        have he := parseStatement_error_token hps
        intro hord
        refine ReportsFrom.after (ReportsFrom.note (fun _ => Diagnostic.Ordered.single (d := e.toDiagnostic) ?_ ?_)
          ((hloop' hskip acc).widen_start hskip)) hord
        · rw [SyntaxError.place_toDiagnostic, he]
          rfl
        · rw [SyntaxError.place_toDiagnostic, he]
          exact hord.head.first_lt.le
      · rename_i st s es hs hps
        exact (reportsFrom_continue (hstmt t r _ rfl hps) (hloop' hs (acc ++ [st]))).after_start
      · rename_i e s es hs hps
        have hskip' := skipItem_suffix false 0 s
        exact (reportsFrom_recover (hstmt t r _ rfl hps) (hloop' (hskip'.trans hs) acc) hskip').after_start

theorem parseBlock_reports_step {ts : List Token}
    (hloop : ∀ s : List Token, s.length < ts.length → StmtsReports eof s) : BlockReports eof ts := by
  cases ts with
  | nil =>
    rw [BlockReports, parseBlock]
    exact reportsFrom_fail_current rfl
  | cons t r =>
    rw [BlockReports, parseBlock]
    split
    · refine ReportsFrom.after_start (.andThen (blockDecls_reportsFrom [] r) fun _ s hs =>
        .andThen (hloop s ?_ []) fun _ s' _ => (expect_reportsFrom .rcurly s').map)
      have := hs.length_le
      simp only [List.length_cons]
      omega
    · exact reportsFrom_fail_current rfl

/-- The statement readers report in order, for every list of tokens, by
induction on its length, as in `stmt_readers_span`. -/
theorem stmt_readers_report (heof : eof.kind = .eof) (ts : List Token) :
    StatementReports eof ts ∧ StmtsReports eof ts ∧ BlockReports eof ts := by
  suffices ∀ n (ts : List Token), ts.length = n →
      StatementReports eof ts ∧ StmtsReports eof ts ∧ BlockReports eof ts from this _ ts rfl
  intro n
  induction n using Nat.strongRecOn with
  | ind n ih =>
    intro ts hn
    subst hn
    have hblock s (hs : s.length < ts.length) := (ih _ hs s rfl).2.2
    have hloop s (hs : s.length < ts.length) := (ih _ hs s rfl).2.1
    have hstmt := parseStatement_reports_step heof hblock
    exact ⟨hstmt, stmtLoop_reports_step hstmt hloop, parseBlock_reports_step hloop⟩

theorem parseBlock_reportsFrom (heof : eof.kind = .eof) (ts : List Token) :
    (parseBlock eof ts).ReportsFrom eof (startOf eof ts) :=
  (stmt_readers_report heof ts).2.2

end Readers

/-! ## Declarations and programs -/

section Programs

variable {eof : Token}

theorem fieldLoop_reportsFrom (acc : List VarDecl) (ts : List Token) :
    (fieldLoop eof acc ts).ReportsFrom eof (startOf eof ts) := by
  fun_induction fieldLoop eof acc ts with
  | case1 acc t r st hst ih =>
    exact ReportsFrom.after_start (.andThen (parseVarDecl_reportsFrom st r) fun d s hs => ih d s hs)
  | case2 | case3 => exact reportsFrom_ok le_rfl

theorem parseFnDecl_reportsFrom (heof : eof.kind = .eof) (result : TypeExpr) (r : List Token) :
    (parseFnDecl eof result r).ReportsFrom eof (startOf eof r) :=
  .andThen (expectIdent_reportsFrom r) fun _ s _ => .andThen (parseParams_flat [] s).reportsFrom
    fun _ s' _ => ReportsFrom.map (parseBlock_reportsFrom heof s')

/-- A struct with no field is reported at the token after its `{`, before its
fields are read. -/
theorem parseStructDecl_reportsFrom (kw : Token) (r : List Token) :
    (parseStructDecl eof kw r).ReportsFrom eof (startOf eof r) := by
  refine .andThen (expectIdent_reportsFrom r) fun _ s _ =>
    .andThen (expect_reportsFrom .lcurly s) fun _ s' _ => ?_
  refine ReportsFrom.note (fun _ => ?_) (.andThen (fieldLoop_reportsFrom [] s') fun _ s'' _ =>
    .andThen (expect_reportsFrom .rcurly s'') fun _ s3 _ => (expect_reportsFrom .semicolon s3).map)
  split
  · exact Diagnostic.Ordered.nil le_rfl
  · exact Diagnostic.Ordered.single le_rfl le_rfl

theorem parseDecl_reportsFrom (heof : eof.kind = .eof) {t : Token} {r : List Token} {rd : Reading r Decl}
    (h : parseDecl eof t r = .ok rd) : rd.ReportsFrom eof (startOf eof r) := by
  unfold parseDecl at h
  split at h
  · split at h
    · cases h
      exact ReportsFrom.map (parseStructDecl_reportsFrom t r)
    · cases h
      exact ReportsFrom.map (parseVarDecl_reportsFrom _ r)
  · split at h
    · split at h
      · cases h
        exact ReportsFrom.map (parseFnDecl_reportsFrom heof _ r)
      · cases h
        exact ReportsFrom.map (parseVarDecl_reportsFrom _ r)
    · cases h

/-- The errors of the declaration loop, after those of `errs`, come in order up
to the end marker. -/
theorem declLoop_reports (heof : eof.kind = .eof) (acc : List Decl) (errs : List SyntaxError)
    (ts : List Token) {lo : Lex (Int × Int)} (hord : Token.InOrder eof ts)
    (herrs : Diagnostic.Ordered (errs.map SyntaxError.toDiagnostic) lo (startOf eof ts)) :
    Diagnostic.Ordered ((declLoop eof acc errs ts).2.map SyntaxError.toDiagnostic) lo eof.span.first := by
  fun_induction declLoop eof acc errs ts with
  | case1 acc errs => exact herrs
  | case2 acc errs t r _ e hpd ih =>
    -- no declaration starts with `t`: the error stands at `t`, before where skipping stops
    have hnext := hord.tail.suffix (skipItem_cons_suffix true t r (.inl rfl))
    have he := parseDecl_error_token hpd
    refine ih hnext.1 ?_
    rw [List.map_append]
    refine herrs.append (Diagnostic.Ordered.single (d := e.toDiagnostic) ?_ ?_)
    · rw [SyntaxError.place_toDiagnostic, he]
      rfl
    · rw [SyntaxError.place_toDiagnostic, he]
      exact hord.head.first_lt.le.trans hnext.2
  | case3 acc errs t r _ d s es hs hpd ih =>
    have hd : Diagnostic.Ordered (es.map SyntaxError.toDiagnostic) (startOf eof r) (startOf eof s) := by
      simpa [reports] using parseDecl_reportsFrom heof hpd hord.tail
    refine ih (hord.tail.suffix hs).1 ?_
    rw [List.map_append]
    exact herrs.append (hd.mono hord.head.first_lt.le le_rfl)
  | case4 acc errs t r _ e s es hs hpd ih =>
    have hd : Diagnostic.Ordered ((es ++ [e]).map SyntaxError.toDiagnostic) (startOf eof r) (startOf eof s) := by
      simpa [reports] using parseDecl_reportsFrom heof hpd hord.tail
    have hnext := (hord.tail.suffix hs).1.suffix (skipItem_suffix true 0 s)
    refine ih hnext.1 ?_
    rw [List.append_assoc, List.map_append]
    exact herrs.append (hd.mono hord.head.first_lt.le hnext.2)

/-- **The parser reports in order.** Over tokens in order, with no end marker
among them, the syntax errors of a rejected program come in order of place. -/
theorem Program.parse_errors_ordered (heof : eof.kind = .eof) {ts : List Token} {errs : List SyntaxError}
    (hts : ∀ t ∈ ts, t.kind ≠ .eof) (hord : Token.InOrder eof ts) (h : Program.parse ts eof = .error errs) :
    (errs.map SyntaxError.toDiagnostic).Pairwise (fun a b => a.place ≤ b.place) := by
  have hall := declLoop_reports heof [] [] ts hord (Diagnostic.Ordered.nil le_rfl)
  rw [Program.parse_of_unmarked hts] at h
  unfold Program.parseBefore at h
  split at h
  · cases h
  · rename_i ds errs' _ hloop
    rw [hloop] at hall
    cases h
    exact hall.2.2

end Programs

end EggFront
