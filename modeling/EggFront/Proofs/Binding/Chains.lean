import Mathlib
import EggFront.Proofs.Binding.Accesses
import EggFront.Proofs.Parse.Spans

/-!
# Field-access chains report once

A chain of field accesses `r.f₁.f₂…fₙ` resolves without cascading errors
(`Program.resolve_chains`). For every access of a program read from a text, a
chain or a name alone:

* failure goes outward along the chain: a link whose prefix errored is errored;
* exactly one access issue (`E302`, `E305` or `E306`) is reported within the
  chain's span if the chain errored, and none if it did not;
* each link that did not fail has its field bound to the symbol its prefix's
  struct type holds for it, and records that symbol's struct type when the
  symbol is a struct variable.

The first and last facts, and that each access's reports are its own, come
from `Program.resolve_accesses`. The count is where the source comes in. A
diagnostic is reported where its first label starts (`Diagnostic.place`), and
an access reports at its own names. The accesses of a program that nests lie
apart (`Loc.ApartIn`): each holds its names within its span, and each ends
before the next starts. So the reports of an access lie within its span, and
those of every other access outside it. Resolution writes no span, so the
resolved program's accesses lie where the parsed program's do.
-/

namespace EggFront

/-! ## Where a diagnostic is reported -/

/-- Where a diagnostic is reported: the start of its first label, by line, then column. -/
def Diagnostic.place (d : Diagnostic) : Lex (Int × Int) := toLex (d.line, d.col)

/-- The diagnostic is reported within the span `s`. -/
def Diagnostic.ReportedIn (d : Diagnostic) (s : Span) : Prop := s.first ≤ d.place ∧ d.place ≤ s.last

instance (d : Diagnostic) (s : Span) : Decidable (d.ReportedIn s) :=
  inferInstanceAs (Decidable (_ ∧ _))

@[simp] theorem NameIssue.place_toDiagnostic (i : NameIssue) (sp : Span) :
    (i.toDiagnostic sp).place = sp.first := rfl

/-! ## Accesses that lie apart -/

namespace Span

theorem Within.refl (s : Span) : s.Within s := ⟨le_rfl, le_rfl⟩

theorem Within.trans {a b c : Span} (h : a.Within b) (h' : b.Within c) : a.Within c :=
  ⟨h'.1.trans h.1, h.2.trans h'.2⟩

/-- Spans within two spans one after the other come one after the other. -/
theorem Precedes.of_within {a b a' b' : Span} (h : a.Precedes b) (ha : a'.Within a) (hb : b'.Within b) :
    a'.Precedes b' :=
  lt_of_le_of_lt ha.2 (lt_of_lt_of_le h hb.1)

end Span

/-- An access is placed: its span runs forward and holds each of its names, each
of which runs forward. -/
def Loc.Placed (l : Loc) : Prop :=
  l.span.first ≤ l.span.last ∧ ∀ i ∈ l.names, i.span.Within l.span ∧ i.span.first ≤ i.span.last

/-- Accesses that lie apart within the span `s`, in source order: each is placed
within `s`, and each ends before the next starts. -/
def Loc.ApartIn (s : Span) (ls : List Loc) : Prop :=
  (∀ l ∈ ls, l.Placed ∧ l.span.Within s) ∧ ls.Pairwise fun a b => a.span.Precedes b.span

section Apart

variable {s a b : Span} {l : Loc} {ls ls' : List Loc} {α : Type} {xs : List α} {f : α → Span}
  {g : α → List Loc}

theorem Loc.ApartIn.nil (s : Span) : Loc.ApartIn s [] := ⟨by simp, .nil⟩

theorem Loc.ApartIn.mono (h : Loc.ApartIn a ls) (hab : a.Within b) : Loc.ApartIn b ls :=
  ⟨fun l hl => ⟨(h.1 l hl).1, (h.1 l hl).2.trans hab⟩, h.2⟩

/-- A location that nests is placed. -/
theorem Loc.Nests.placed : ∀ {l : Loc}, l.Nests → l.Placed
  | .var n, h => ⟨h.1, by simpa [Loc.names] using ⟨Span.Within.refl _, h.1⟩⟩
  | .field b n sp _ _, ⟨hs, hb, hn⟩ => by
    refine ⟨hs.1, fun i hi => ?_⟩
    simp only [Loc.names, List.mem_append, List.mem_singleton] at hi
    rcases hi with hi | rfl
    · obtain ⟨hw, hle⟩ := (Loc.Nests.placed hb).2 i hi
      exact ⟨hw.trans (hs.2.1 _ (by simp)), hle⟩
    · exact ⟨hs.2.1 _ (by simp), hn.1⟩

theorem Loc.Nests.apartIn (h : l.Nests) : Loc.ApartIn l.span [l] :=
  ⟨by simpa using ⟨h.placed, Span.Within.refl _⟩, List.pairwise_singleton _ _⟩

/-- **A child, then what follows it.** Accesses apart within `a`, then accesses
apart within `s` that all start after `a` ends, lie apart within `s` when `a` does. -/
theorem Loc.ApartIn.cons_after (ha : Loc.ApartIn a ls) (hb : Loc.ApartIn s ls') (has : a.Within s)
    (hafter : ∀ l ∈ ls', a.Precedes l.span) : Loc.ApartIn s (ls ++ ls') := by
  refine ⟨fun l hl => ?_, List.pairwise_append.2 ⟨ha.2, hb.2, fun x hx y hy => ?_⟩⟩
  · rcases List.mem_append.1 hl with hl | hl
    · exact ⟨(ha.1 l hl).1, (ha.1 l hl).2.trans has⟩
    · exact hb.1 l hl
  · exact (hafter y hy).of_within (ha.1 x hx).2 (Span.Within.refl _)

/-- The accesses of children that all start after `a` ends start after it. -/
theorem Loc.precedes_flatMap (hp : ∀ x ∈ xs, a.Precedes (f x))
    (hx : ∀ x ∈ xs, Loc.ApartIn (f x) (g x)) : ∀ l ∈ xs.flatMap g, a.Precedes l.span := by
  intro l hl
  obtain ⟨x, hmem, hl⟩ := List.mem_flatMap.1 hl
  exact (hp x hmem).of_within (Span.Within.refl _) ((hx x hmem).1 l hl).2

/-- **Children in a row.** The accesses of children one after another within `s`,
each child's lying apart within its span, lie apart within `s`. -/
theorem Loc.apartIn_flatMap (hp : (xs.map f).Pairwise Span.Precedes) (hw : ∀ x ∈ xs, (f x).Within s)
    (hx : ∀ x ∈ xs, Loc.ApartIn (f x) (g x)) : Loc.ApartIn s (xs.flatMap g) := by
  induction xs with
  | nil => exact .nil s
  | cons x xs ih =>
    simp only [List.map_cons, List.pairwise_cons, List.forall_mem_map] at hp
    simp only [List.mem_cons, forall_eq_or_imp] at hw hx
    rw [List.flatMap_cons]
    exact hx.1.cons_after (ih hp.2 hw.2 hx.2) hw.1 (Loc.precedes_flatMap hp.1 hx.2)

/-- Two children, one after the other. -/
theorem Loc.ApartIn.append (ha : Loc.ApartIn a ls) (hb : Loc.ApartIn b ls') (hab : a.Precedes b)
    (has : a.Within s) (hbs : b.Within s) : Loc.ApartIn s (ls ++ ls') :=
  ha.cons_after (hb.mono hbs) has fun l hl => hab.of_within (Span.Within.refl _) (hb.1 l hl).2

/-- A first child, then a row of children. -/
theorem Loc.ApartIn.cons_row (ha : Loc.ApartIn a ls) (hp : (a :: xs.map f).Pairwise Span.Precedes)
    (hw : ∀ y ∈ a :: xs.map f, y.Within s) (hx : ∀ x ∈ xs, Loc.ApartIn (f x) (g x)) :
    Loc.ApartIn s (ls ++ xs.flatMap g) := by
  simp only [List.pairwise_cons, List.forall_mem_map] at hp
  simp only [List.mem_cons, forall_eq_or_imp, List.forall_mem_map] at hw
  exact ha.cons_after (Loc.apartIn_flatMap hp.2 hw.2 hx) hw.1 (Loc.precedes_flatMap hp.1 hx)

end Apart

/-! ## The accesses of a program that nests -/

theorem Expr.accessesOf_eq (es : List Expr) : Expr.accessesOf es = es.flatMap Expr.accesses := by
  induction es with
  | nil => rfl
  | cons e es ih => simp [Expr.accessesOf, ih]

theorem Stmt.accessesOf_eq (ss : List Stmt) : Stmt.accessesOf ss = ss.flatMap Stmt.accesses := by
  induction ss with
  | nil => rfl
  | cons st ss ih => simp [Stmt.accessesOf, ih]

/-- A call's callee, then its arguments. -/
theorem Loc.apartIn_call {s : Span} {c : Ident} {args : List Expr}
    (hs : s.Holds (c.span :: args.map Expr.span)) (hc : c.Nests)
    (hargs : ∀ e ∈ args, Loc.ApartIn e.span e.accesses) :
    Loc.ApartIn s (.var c :: Expr.accessesOf args) := by
  rw [Expr.accessesOf_eq]
  exact (Loc.Nests.apartIn (l := .var c) hc).cons_row hs.2.2 hs.2.1 hargs

/-- A condition, then the statements of the blocks that follow it; the blocks'
declarations have no accesses. -/
theorem Loc.apartIn_condition {s : Span} {c : Expr} {ss : List Stmt}
    (hp : (c.span :: ss.map Stmt.span).Pairwise Span.Precedes)
    (hw : ∀ x ∈ c.span :: ss.map Stmt.span, x.Within s)
    (hc : Loc.ApartIn c.span c.accesses) (hss : ∀ st ∈ ss, Loc.ApartIn st.span st.accesses) :
    Loc.ApartIn s (c.accesses ++ Stmt.accessesOf ss) := by
  rw [Stmt.accessesOf_eq]
  exact hc.cons_row hp hw hss

mutual

/-- The accesses of an expression that nests lie apart within its span. -/
theorem Expr.apartIn : ∀ {e : Expr}, e.Nests → Loc.ApartIn e.span e.accesses
  | .int .., _ | .str .., _ | .bool .., _ => .nil _
  | .loc _, h => Loc.Nests.apartIn h
  | .assign t v _, ⟨hs, ht, hv⟩ =>
    (Loc.Nests.apartIn ht).append (Expr.apartIn hv) (List.pairwise_pair.1 hs.2.2) (hs.2.1 _ (by simp))
      (hs.2.1 _ (by simp))
  | .call _ args _, ⟨hs, hc, hargs⟩ => Loc.apartIn_call hs hc (Expr.apartIn_all hargs)
  | .unary _ e _, ⟨hs, he⟩ => (Expr.apartIn he).mono (hs.2.1 _ (by simp))
  | .binary l _ r _, ⟨hs, hl, hr⟩ =>
    (Expr.apartIn hl).append (Expr.apartIn hr) (List.pairwise_pair.1 hs.2.2) (hs.2.1 _ (by simp))
      (hs.2.1 _ (by simp))

theorem Expr.apartIn_all : ∀ {es : List Expr}, Expr.AllNest es → ∀ e ∈ es, Loc.ApartIn e.span e.accesses
  | [], _ => by simp
  | _ :: _, ⟨he, hes⟩ => by
    simp only [List.mem_cons, forall_eq_or_imp]
    exact ⟨Expr.apartIn he, Expr.apartIn_all hes⟩

end

mutual

/-- The accesses of a statement that nests lie apart within its span. -/
theorem Stmt.apartIn : ∀ {st : Stmt}, st.Nests → Loc.ApartIn st.span st.accesses
  | .assign t v _ _, ⟨hs, ha, ht, hv⟩ =>
    ((Loc.Nests.apartIn ht).append (Expr.apartIn hv) (List.pairwise_pair.1 ha.2.2) (ha.2.1 _ (by simp))
      (ha.2.1 _ (by simp))).mono (hs.2.1 _ (by simp))
  | .increment _ _, ⟨hs, ht⟩ | .decrement _ _, ⟨hs, ht⟩ | .read _ _, ⟨hs, ht⟩ =>
    (Loc.Nests.apartIn ht).mono (hs.2.1 _ (by simp))
  | .write _ _, ⟨hs, hv⟩ | .ret (some _) _, ⟨hs, hv⟩ => (Expr.apartIn hv).mono (hs.2.1 _ (by simp))
  | .ret none _, _ => .nil _
  | .ifThen c ds ss _, ⟨hs, hc, _, hss⟩ | .whileLoop c ds ss _, ⟨hs, hc, _, hss⟩
  | .repeatLoop c ds ss _, ⟨hs, hc, _, hss⟩ =>
    -- the declarations' spans lie between, with no access
    Loc.apartIn_condition (hs.2.2.sublist ((List.sublist_append_right _ _).cons_cons _))
      (fun x hx => hs.2.1 x (((List.sublist_append_right _ _).cons_cons _).subset hx)) (Expr.apartIn hc)
      (Stmt.apartIn_all hss)
  | .ifThenElse c ds ss eds ess _, ⟨hs, hc, _, hss, _, hess⟩ => by
    have hsub : (c.span :: (ss ++ ess).map Stmt.span).Sublist
        (c.span :: (blockSpans ds ss ++ blockSpans eds ess)) := by
      rw [List.map_append]
      exact ((List.sublist_append_right _ _).append (List.sublist_append_right _ _)).cons_cons _
    have h := Loc.apartIn_condition (hs.2.2.sublist hsub) (fun x hx => hs.2.1 x (hsub.subset hx))
      (Expr.apartIn hc) (by
        simp only [List.mem_append]
        rintro st (hst | hst)
        · exact Stmt.apartIn_all hss st hst
        · exact Stmt.apartIn_all hess st hst)
    simpa [Stmt.accessesOf_eq, Stmt.accesses, Stmt.span] using h
  | .call _ args a _, ⟨hs, ha, hc, hargs⟩ =>
    (Loc.apartIn_call ha hc (Expr.apartIn_all hargs)).mono (hs.2.1 _ (by simp))

theorem Stmt.apartIn_all : ∀ {ss : List Stmt}, Stmt.AllNest ss → ∀ st ∈ ss, Loc.ApartIn st.span st.accesses
  | [], _ => by simp
  | _ :: _, ⟨hs, hss⟩ => by
    simp only [List.mem_cons, forall_eq_or_imp]
    exact ⟨Stmt.apartIn hs, Stmt.apartIn_all hss⟩

end

/-- The accesses of a declaration that nests lie apart within its span: a
function's lie in its body. -/
theorem Decl.apartIn {d : Decl} (h : d.Nests) : Loc.ApartIn d.span d.accesses := by
  cases d with
  | var => exact .nil _
  | struct => exact .nil _
  | fn f =>
    obtain ⟨hs, hb, -, -, -, -, hbody⟩ := h
    -- the body's statements come after its declarations
    have hsub : (f.body.map Stmt.span).Sublist (blockSpans f.decls f.body) :=
      List.sublist_append_right _ _
    have hrow : Loc.ApartIn f.bodySpan (Stmt.accessesOf f.body) := by
      rw [Stmt.accessesOf_eq]
      exact Loc.apartIn_flatMap (hb.2.2.sublist hsub)
        (fun st hst => hb.2.1 _ (hsub.subset (List.mem_map_of_mem hst))) (Stmt.apartIn_all hbody)
    exact hrow.mono (hs.2.1 _ (by simp))

/-- **The accesses of a program that nests lie apart**, each holding its names. -/
theorem Program.apartIn {p : Program} (h : p.Nests) : Loc.ApartIn p.span p.accesses :=
  Loc.apartIn_flatMap h.1.2.2 (fun _ hd => h.1.2.1 _ (List.mem_map_of_mem hd))
    fun d hd => Decl.apartIn (h.2 d hd)

/-! ## Resolution writes no span

The resolved program strips back to the parsed one, and stripping keeps every
span and every access, so what holds of the parsed program's accesses' places
holds of the resolved program's. -/

section Strip

variable {s : Span} {l : Loc} {ls : List Loc}

@[simp] theorem Ident.span_strip (i : Ident) : i.strip.span = i.span := rfl

@[simp] theorem Loc.span_strip : ∀ l : Loc, l.strip.span = l.span
  | .var _ | .field .. => rfl

theorem Loc.names_strip : ∀ l : Loc, l.strip.names = l.names.map Ident.strip
  | .var _ => rfl
  | .field b .. => by simp [Loc.strip, Loc.names, Loc.names_strip b]

theorem Loc.Placed.of_strip (h : l.strip.Placed) : l.Placed := by
  refine ⟨by simpa using h.1, fun i hi => ?_⟩
  simpa using h.2 i.strip (by rw [Loc.names_strip]; exact List.mem_map_of_mem hi)

theorem Loc.ApartIn.of_strip (h : Loc.ApartIn s (ls.map Loc.strip)) : Loc.ApartIn s ls := by
  obtain ⟨hp, hpw⟩ := h
  refine ⟨fun l hl => ?_, by simpa [List.pairwise_map] using hpw⟩
  obtain ⟨hpl, hw⟩ := hp _ (List.mem_map_of_mem hl)
  exact ⟨hpl.of_strip, by simpa using hw⟩

end Strip

mutual

theorem Expr.accesses_strip : ∀ e : Expr, e.strip.accesses = e.accesses.map Loc.strip
  | .int .. | .str .. | .bool .. | .loc _ => rfl
  | .assign _ v _ => by simp [Expr.strip, Expr.accesses, Expr.accesses_strip v]
  | .call _ args _ => by simp [Expr.strip, Expr.accesses, Expr.accessesOf_strip args, Loc.strip]
  | .unary _ e _ => by simp [Expr.strip, Expr.accesses, Expr.accesses_strip e]
  | .binary l _ r _ => by simp [Expr.strip, Expr.accesses, Expr.accesses_strip l, Expr.accesses_strip r]

theorem Expr.accessesOf_strip :
    ∀ es : List Expr, Expr.accessesOf (Expr.stripAll es) = (Expr.accessesOf es).map Loc.strip
  | [] => rfl
  | e :: es => by simp [Expr.stripAll, Expr.accessesOf, Expr.accesses_strip e, Expr.accessesOf_strip es]

end

mutual

theorem Stmt.accesses_strip : ∀ st : Stmt, st.strip.accesses = st.accesses.map Loc.strip
  | .increment .. | .decrement .. | .read .. | .ret none _ => rfl
  | .assign _ v _ _ => by simp [Stmt.strip, Stmt.accesses, Expr.accesses_strip v]
  | .write v _ | .ret (some v) _ => by simp [Stmt.strip, Stmt.accesses, Expr.accesses_strip v]
  | .ifThen c _ ss _ | .whileLoop c _ ss _ | .repeatLoop c _ ss _ => by
    simp [Stmt.strip, Stmt.accesses, Expr.accesses_strip c, Stmt.accessesOf_strip ss]
  | .ifThenElse c _ ss _ ess _ => by
    simp [Stmt.strip, Stmt.accesses, Expr.accesses_strip c, Stmt.accessesOf_strip ss,
      Stmt.accessesOf_strip ess]
  | .call _ args _ _ => by simp [Stmt.strip, Stmt.accesses, Expr.accessesOf_strip args, Loc.strip]

theorem Stmt.accessesOf_strip :
    ∀ ss : List Stmt, Stmt.accessesOf (Stmt.stripAll ss) = (Stmt.accessesOf ss).map Loc.strip
  | [] => rfl
  | st :: ss => by simp [Stmt.stripAll, Stmt.accessesOf, Stmt.accesses_strip st, Stmt.accessesOf_strip ss]

end

theorem Decl.accesses_strip : ∀ d : Decl, d.strip.accesses = d.accesses.map Loc.strip
  | .var _ | .struct _ => rfl
  | .fn f => Stmt.accessesOf_strip f.body

theorem Program.accesses_strip (p : Program) : p.strip.accesses = p.accesses.map Loc.strip := by
  simp only [Program.strip, Program.accesses, List.flatMap_map, List.map_flatMap, Decl.accesses_strip]

/-! ## Counting the reports within an access -/

section Count

variable {s a b : Span} {l : Loc} {ls : List Loc} {d : Diagnostic} {ds : List Diagnostic}
  {parts : List (List Diagnostic)}

theorem Diagnostic.ReportedIn.not_of_precedes (h : d.ReportedIn a) (hab : a.Precedes b) :
    ¬ d.ReportedIn b :=
  fun h' => absurd (h.2.trans_lt hab) (not_lt.2 h'.1)

theorem Diagnostic.ReportedIn.not_of_follows (h : d.ReportedIn a) (hba : b.Precedes a) :
    ¬ d.ReportedIn b :=
  fun h' => absurd (h'.2.trans_lt hba) (not_lt.2 h.1)

/-- An access reports within its span: at the start of one of its names. -/
theorem Loc.Reports.reportedIn (hr : l.Reports ds) (hp : l.Placed) (hd : d ∈ ds) :
    d.ReportedIn l.span := by
  obtain ⟨i, hi, issue, -, rfl⟩ := hr.2 d hd
  obtain ⟨hw, hle⟩ := hp.2 i hi
  simp only [Diagnostic.ReportedIn, NameIssue.place_toDiagnostic]
  exact ⟨hw.1, hle.trans hw.2⟩

/-- Each report of placed accesses lies within one of them. -/
theorem Loc.reportedIn_of_forall₂ (hr : List.Forall₂ Loc.Reports ls parts) (hp : ∀ l ∈ ls, l.Placed)
    (hd : d ∈ parts.flatten) : ∃ l ∈ ls, d.ReportedIn l.span := by
  induction hr with
  | nil => simp at hd
  | cons h0 _ ih =>
    rw [List.flatten_cons, List.mem_append] at hd
    rcases hd with hd | hd
    · exact ⟨_, List.mem_cons_self, h0.reportedIn (hp _ List.mem_cons_self) hd⟩
    · obtain ⟨l, hl, h⟩ := ih (fun l hl => hp l (List.mem_cons_of_mem _ hl)) hd
      exact ⟨l, List.mem_cons_of_mem _ hl, h⟩

/-- **One report per errored access.** Of the reports of accesses that lie apart,
those within an access's span are its own: one if it errored, none if not. -/
theorem Loc.countP_reportedIn (hr : List.Forall₂ Loc.Reports ls parts) (ha : Loc.ApartIn s ls)
    (hl : l ∈ ls) :
    parts.flatten.countP (fun d => decide (d.ReportedIn l.span)) = if l.errored then 1 else 0 := by
  induction hr with
  | nil => simp at hl
  | @cons l0 p0 ls ps h0 hrest ih =>
    obtain ⟨hpl, hpw⟩ := ha
    rw [List.pairwise_cons] at hpw
    have hplaced : ∀ l ∈ ls, l.Placed := fun l hl => (hpl l (List.mem_cons_of_mem _ hl)).1
    rw [List.flatten_cons, List.countP_append]
    rcases List.mem_cons.1 hl with rfl | hl
    · -- its own reports lie within its span, every later access's after it
      have hown : p0.countP (fun d => decide (d.ReportedIn l.span)) = p0.length :=
        List.countP_eq_length.2 fun d hd =>
          decide_eq_true (h0.reportedIn (hpl _ List.mem_cons_self).1 hd)
      have hlater : ps.flatten.countP (fun d => decide (d.ReportedIn l.span)) = 0 := by
        refine List.countP_eq_zero.2 fun d hd => ?_
        obtain ⟨l', hl', hd'⟩ := Loc.reportedIn_of_forall₂ hrest hplaced hd
        simpa using hd'.not_of_follows (hpw.1 l' hl')
      rw [hown, hlater, h0.1, add_zero]
    · -- the first access's reports lie before this one
      have hfirst : p0.countP (fun d => decide (d.ReportedIn l.span)) = 0 := by
        refine List.countP_eq_zero.2 fun d hd => ?_
        simpa using (h0.reportedIn (hpl _ List.mem_cons_self).1 hd).not_of_precedes (hpw.1 l hl)
      rw [hfirst, zero_add, ih ⟨fun l hl => hpl l (List.mem_cons_of_mem _ hl), hpw.2⟩ hl]

end Count

/-! ## Chains of a program read from a text -/

/-- **Field-access chains report once.** Resolving a program read from a text
succeeds, and every access of the resolved program, a chain `r.f₁…fₙ` or a name
alone, fails outward (a link whose prefix errored is errored), has exactly one
access issue reported within its span if it errored and none if it did not, and
has each link that did not fail bound to its field of the prefix's struct type. -/
theorem Program.resolve_chains {file text : String} {p : Program}
    (h : Program.parse (scan file text).tokens (scan file text).eof = .ok p) :
    ∃ r, p.resolve = .ok r ∧ ∀ l ∈ r.program.accesses, l.FailsOutward ∧
      (r.diagnostics.filter (·.isAccess)).countP (fun d => decide (d.ReportedIn l.span)) =
        (if l.errored then 1 else 0) ∧ l.FieldsBound r.symbols := by
  have heof := scanFrom_eof_kind file text.toList Position.first
  have hp : p.Fresh := Program.parse_fresh heof h
  obtain ⟨hord, hstart⟩ := scanFrom_inOrder file text.toList Position.first
  have hnests : p.Nests := Program.nests_of_parse heof (scanFrom_unmarked _ _ _) h hord hstart
  obtain ⟨r, hr, hbound, parts, hparts, hds⟩ := Program.resolve_accesses hp
  obtain ⟨r', hr', hstrip, -⟩ := Program.resolve_scoped hp
  obtain rfl : r' = r := Except.ok.inj (hr'.symm.trans hr)
  -- the resolved accesses lie where the parsed ones do
  have hapart : Loc.ApartIn p.span r'.program.accesses := by
    refine Loc.ApartIn.of_strip ?_
    rw [← Program.accesses_strip, hstrip]
    exact Program.apartIn hnests
  refine ⟨r', hr, fun l hl => ⟨(hbound l hl).1, ?_, (hbound l hl).2⟩⟩
  rw [hds]
  exact Loc.countP_reportedIn hparts hapart hl

theorem resolve_chains_nested :
    ∃ p, Program.parse (scan "main.egg"
        "struct A \x7b int v; \x7d; struct B \x7b struct A a; \x7d; void f() \x7b struct B b; b.a.v = 1; b.z.v = 2; \x7d").tokens
        (scan "main.egg"
        "struct A \x7b int v; \x7d; struct B \x7b struct A a; \x7d; void f() \x7b struct B b; b.a.v = 1; b.z.v = 2; \x7d").eof = .ok p ∧
      ∃ r, p.resolve = .ok r ∧ ∀ l ∈ r.program.accesses, l.FailsOutward ∧
        (r.diagnostics.filter (·.isAccess)).countP (fun d => decide (d.ReportedIn l.span)) =
          (if l.errored then 1 else 0) ∧ l.FieldsBound r.symbols := by
  have hok : (Program.parse (scan "main.egg"
      "struct A \x7b int v; \x7d; struct B \x7b struct A a; \x7d; void f() \x7b struct B b; b.a.v = 1; b.z.v = 2; \x7d").tokens
      (scan "main.egg"
      "struct A \x7b int v; \x7d; struct B \x7b struct A a; \x7d; void f() \x7b struct B b; b.a.v = 1; b.z.v = 2; \x7d").eof).isOk = true := by
    decide +kernel
  cases hp : Program.parse (scan "main.egg"
      "struct A \x7b int v; \x7d; struct B \x7b struct A a; \x7d; void f() \x7b struct B b; b.a.v = 1; b.z.v = 2; \x7d").tokens
      (scan "main.egg"
      "struct A \x7b int v; \x7d; struct B \x7b struct A a; \x7d; void f() \x7b struct B b; b.a.v = 1; b.z.v = 2; \x7d").eof with
  | error e =>
    rw [hp] at hok
    cases hok
  | ok p => exact ⟨p, rfl, Program.resolve_chains hp⟩

end EggFront
