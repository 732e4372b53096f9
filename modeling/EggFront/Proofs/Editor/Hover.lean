import Mathlib
import EggFront.Editor
import EggFront.Proofs.Token.Numbers
import EggFront.Proofs.Parse.Names
import EggFront.Proofs.Binding.Lexical
import EggFront.Proofs.Binding.Chains

/-!
# Hovering finds at most one name

The editor answers a hover at a 0-based place with the first bound name of the
document whose span covers the place (`Document.hover`). A span covers the
columns of its name and the one right after it, so two names could both cover a
place only if nothing stood between them. That never happens: the names of an
analysed document are the identifier tokens of its text, in order
(`Document.names_spans`), and an identifier runs as long as word characters do,
so the next identifier starts at least one character after it ends
(`tokensFrom_idents_apart`). So at most one name covers any place, and hovering
shows that name's symbol whatever the order in which the names are searched
(`Document.hover_unambiguous`).
-/

namespace EggFront

/-- The span `a` ends before `b` starts, with at least one column between them
when they share a line. -/
def Span.Apart (a b : Span) : Prop :=
  a.endLine < b.startLine ∨ (a.endLine = b.startLine ∧ a.endCol + 1 < b.startCol)

/-- No place is covered by two spans that stand apart. -/
theorem Span.Apart.not_both_covers {a b : Span} (h : a.Apart b) (line ch : Int) :
    ¬ (Document.Span.covers a line ch = true ∧ Document.Span.covers b line ch = true) := by
  rintro ⟨ha, hb⟩
  simp only [Document.Span.covers, Bool.and_eq_true, beq_iff_eq, decide_eq_true_eq] at ha hb
  unfold Span.Apart at h
  omega

/-! ## Identifiers in the text -/

theorem single?_ne_ident {c : Char} {k : TokenKind} (h : TokenKind.single? c = some k) : k ≠ .ident := by
  revert h
  unfold TokenKind.single?
  split <;> rintro ⟨⟩ <;> decide

theorem pair?_ne_ident {c d : Char} {k : TokenKind} (h : TokenKind.pair? c d = some k) : k ≠ .ident := by
  revert h
  unfold TokenKind.pair?
  split <;> rintro ⟨⟩ <;> decide

/-- Only a word makes an identifier, and no word character follows it. -/
theorem TokenCut.of_ident {k : TokenKind} {x : String} {cs rest : List Char} (h : TokenCut k x cs rest)
    (hk : k = .ident) :
    ∃ c w, cs = c :: w ∧ isWordStart c = true ∧ ∀ d ∈ rest.head?, isWordChar d = false := by
  cases h with
  | word hc _ hnext => exact ⟨_, _, rfl, hc, hnext⟩
  | number => cases hk
  | string => cases hk
  | pair hp => exact absurd hk (pair?_ne_ident hp)
  | single hs _ _ => exact absurd hk (single?_ne_ident hs)

/-- An identifier read from `p` on starts past `p`, or at `p` when the text
starts with a word. -/
theorem tokensFrom_ident_at_start (file : String) {segs : List Segment} {p : Position}
    (hcut : Segment.Cut segs) :
    ∀ u ∈ Segment.tokensFrom file p segs, u.kind = .ident →
      ((p.line : Int) < u.span.startLine ∨ ((p.line : Int) = u.span.startLine ∧ (p.col : Int) < u.span.startCol)) ∨
        ∃ c ∈ (segs.flatMap Segment.chars).head?, isWordStart c = true := by
  intro u hu hk
  cases segs with
  | nil => simp [Segment.tokensFrom] at hu
  | cons seg segs =>
    obtain ⟨hv, hcut⟩ := hcut
    simp only [Segment.tokensFrom, List.mem_append] at hu
    rcases hu with hu | hu
    · -- the first segment is the identifier, which starts with a word
      right
      cases seg with
      | token k x cs =>
        simp only [Segment.lexeme, Option.map_some, Option.toList_some, List.mem_singleton] at hu
        subst hu
        obtain ⟨c, w, rfl, hc, -⟩ := TokenCut.of_ident hv hk
        exact ⟨c, by simp [Segment.chars], hc⟩
      | _ => simp [Segment.lexeme] at hu
    · -- a later one starts at or after the end of the first segment, which holds a character
      left
      have hlt := p.lt_skip (Segment.chars_ne_nil hv)
      have hfrom := tokensFrom_from file hcut u hu
      omega

/-- **Identifiers stand apart.** Of the tokens of a cut, each identifier ends
before every later one starts, with at least one column between them on a line. -/
theorem tokensFrom_idents_apart (file : String) : ∀ {segs : List Segment} {p : Position}, Segment.Cut segs →
    ((Segment.tokensFrom file p segs).filter (·.kind = .ident)).Pairwise (fun t u => t.span.Apart u.span)
  | [], _, _ => List.Pairwise.nil
  | seg :: segs, p, ⟨hv, hcut⟩ => by
    have ih := tokensFrom_idents_apart file (p := p.skip seg.chars) hcut
    cases seg with
    | token k x cs =>
      simp only [Segment.tokensFrom, Segment.lexeme, Option.map_some, Option.toList_some,
        List.singleton_append, List.filter_cons]
      split
      · rename_i hk
        simp only [decide_eq_true_eq] at hk
        refine List.pairwise_cons.2 ⟨fun u hu => ?_, ih⟩
        obtain ⟨hu, hku⟩ := List.mem_filter.1 hu
        obtain ⟨c, w, rfl, -, hnext⟩ := TokenCut.of_ident hv hk
        -- the character after the identifier is no word character, so no identifier starts there
        rcases tokensFrom_ident_at_start file hcut u hu (by simpa using hku) with hlt | ⟨d, hd, hws⟩
        · have hq := Position.skip_of_no_newline p (c :: w) hv.no_lf
          simp only [Segment.chars, hq] at hlt
          simp only [Span.Apart, Span.ofChars, Segment.chars]
          omega
        · have hw := isWordChar_of_isWordStart hws
          rw [hnext d hd] at hw
          cases hw
      · exact ih
    | _ => simpa [Segment.tokensFrom, Segment.lexeme] using ih

/-! ## Resolving keeps the spans of names -/

/-- Stripping the symbols from each entry of a list keeps the spans of their names. -/
theorem spans_flatMap_strip {α : Type} {strip : α → α} {names : α → List Ident}
    (h : ∀ a, (names (strip a)).map Ident.span = (names a).map Ident.span) (l : List α) :
    ((l.map strip).flatMap names).map Ident.span = (l.flatMap names).map Ident.span := by
  simp only [List.flatMap_map, List.map_flatMap, h]

theorem TypeExpr.spans_names_strip : ∀ ty : TypeExpr, ty.strip.names.map Ident.span = ty.names.map Ident.span
  | .int _ | .bool _ | .void _ | .struct .. => rfl

theorem Loc.spans_names_strip (l : Loc) : l.strip.names.map Ident.span = l.names.map Ident.span := by
  simp [Loc.names_strip, Function.comp_def]

mutual

theorem Expr.spans_names_strip : ∀ e : Expr, e.strip.names.map Ident.span = e.names.map Ident.span
  | .int .. | .str .. | .bool .. => rfl
  | .loc l => by simp only [Expr.strip, Expr.names, Loc.spans_names_strip]
  | .assign t v _ => by
    simp only [Expr.strip, Expr.names, List.map_append, Loc.spans_names_strip, Expr.spans_names_strip v]
  | .call c args _ => by
    simp only [Expr.strip, Expr.names, List.map_cons, Ident.span_strip, Expr.spans_namesOf_strip args]
  | .unary _ e _ => by simp only [Expr.strip, Expr.names, Expr.spans_names_strip e]
  | .binary l _ r _ => by
    simp only [Expr.strip, Expr.names, List.map_append, Expr.spans_names_strip l, Expr.spans_names_strip r]

theorem Expr.spans_namesOf_strip :
    ∀ es : List Expr, (Expr.namesOf (Expr.stripAll es)).map Ident.span = (Expr.namesOf es).map Ident.span
  | [] => rfl
  | e :: es => by
    simp only [Expr.stripAll, Expr.namesOf, List.map_append, Expr.spans_names_strip e, Expr.spans_namesOf_strip es]

end

theorem VarDecl.spans_names_strip (d : VarDecl) : d.strip.names.map Ident.span = d.names.map Ident.span := by
  simp only [VarDecl.strip, VarDecl.names, List.map_append, TypeExpr.spans_names_strip, List.map_cons,
    Ident.span_strip]

mutual

theorem Stmt.spans_names_strip : ∀ st : Stmt, st.strip.names.map Ident.span = st.names.map Ident.span
  | .assign t v _ _ => by
    simp only [Stmt.strip, Stmt.names, List.map_append, Loc.spans_names_strip, Expr.spans_names_strip]
  | .increment t _ | .decrement t _ | .read t _ => by simp only [Stmt.strip, Stmt.names, Loc.spans_names_strip]
  | .write v _ => by simp only [Stmt.strip, Stmt.names, Expr.spans_names_strip]
  | .ifThen c ds ss _ | .whileLoop c ds ss _ | .repeatLoop c ds ss _ => by
    simp only [Stmt.strip, Stmt.names, List.map_append, Expr.spans_names_strip,
      spans_flatMap_strip VarDecl.spans_names_strip, Stmt.spans_namesOf_strip ss]
  | .ifThenElse c ds ss eds ess _ => by
    simp only [Stmt.strip, Stmt.names, List.map_append, Expr.spans_names_strip,
      spans_flatMap_strip VarDecl.spans_names_strip, Stmt.spans_namesOf_strip ss, Stmt.spans_namesOf_strip ess]
  | .call c args _ _ => by
    simp only [Stmt.strip, Stmt.names, List.map_cons, Ident.span_strip, Expr.spans_namesOf_strip]
  | .ret (some v) _ => by simp only [Stmt.strip, Option.map_some, Stmt.names, Expr.spans_names_strip]
  | .ret none _ => rfl

theorem Stmt.spans_namesOf_strip :
    ∀ ss : List Stmt, (Stmt.namesOf (Stmt.stripAll ss)).map Ident.span = (Stmt.namesOf ss).map Ident.span
  | [] => rfl
  | st :: ss => by
    simp only [Stmt.stripAll, Stmt.namesOf, List.map_append, Stmt.spans_names_strip st, Stmt.spans_namesOf_strip ss]

end

theorem Decl.spans_names_strip : ∀ d : Decl, d.strip.names.map Ident.span = d.names.map Ident.span
  | .var d => VarDecl.spans_names_strip d
  | .fn f => by
    have hp : ∀ p : Param, p.strip.names.map Ident.span = p.names.map Ident.span := fun p => by
      simp [Param.strip, Param.names]
    simp only [Decl.strip, Decl.names, FnDecl.strip, FnDecl.names, List.map_append, List.map_cons,
      Ident.span_strip, spans_flatMap_strip hp, spans_flatMap_strip VarDecl.spans_names_strip,
      Stmt.spans_namesOf_strip]
  | .struct d => by
    simp only [Decl.strip, Decl.names, StructDecl.strip, StructDecl.names, List.map_cons, Ident.span_strip,
      spans_flatMap_strip VarDecl.spans_names_strip]

/-- Resolution writes symbols into a program's names, never their spans. -/
theorem Program.spans_names_strip (p : Program) : p.strip.names.map Ident.span = p.names.map Ident.span := by
  simp only [Program.strip, Program.names, spans_flatMap_strip Decl.spans_names_strip]

/-! ## Searching a list where at most one entry passes -/

section Search

variable {α β : Type} {p : α → Bool}

/-- In a list where no two entries both pass a test, one entry passes it at most. -/
theorem length_filter_le_one :
    ∀ {l : List α}, l.Pairwise (fun a b => ¬ (p a = true ∧ p b = true)) → (l.filter p).length ≤ 1
  | [], _ => by simp
  | a :: l, h => by
    obtain ⟨ha, hl⟩ := List.pairwise_cons.1 h
    by_cases hpa : p a = true
    · have hnone : l.filter p = [] := List.filter_eq_nil_iff.2 fun b hb hpb => ha b hb ⟨hpa, hpb⟩
      simp [hpa, hnone]
    · simpa [List.filter_cons, hpa] using length_filter_le_one hl

/-- There, the first entry that passes the test and gives something gives what the
entry that passes it gives. -/
theorem findSome?_ite_eq_find?_bind {l : List α} (h : (l.filter p).length ≤ 1) (f : α → Option β) :
    l.findSome? (fun a => if p a then f a else none) = (l.find? p).bind f := by
  rw [← List.head?_filterMap, ← List.filterMap_filter, ← List.head?_filter]
  generalize l.filter p = m at h
  rcases m with _ | ⟨a, _ | ⟨b, m⟩⟩
  · rfl
  · cases hfa : f a <;> simp [hfa]
  · simp at h

/-- There, the entries that pass the test do not depend on the order of the list. -/
theorem filter_eq_of_perm {l l' : List α} (hl : l'.Perm l) (h : (l.filter p).length ≤ 1) :
    l'.filter p = l.filter p := by
  have hperm := hl.filter p
  generalize l.filter p = m at hperm h
  rcases m with _ | ⟨a, _ | ⟨b, m⟩⟩
  · exact hperm.eq_nil
  · exact List.perm_singleton.1 hperm
  · simp at h

end Search

/-! ## Hovering -/

namespace Document

/-- **The names of an analysed document stand apart.** Each name ends before every
later one starts, with at least one column between them on a line. -/
theorem names_apart (uri source : String) :
    (analyze uri source).names.Pairwise fun i j => i.span.Apart j.span := by
  have hidents : ((scan uri source).tokens.filter (·.kind = .ident)).Pairwise
      (fun t u => t.span.Apart u.span) := by
    obtain ⟨segs, hcut, -, htoks⟩ := scanFrom_segments uri source.toList Position.first
    rw [scan, ← htoks]
    exact tokensFrom_idents_apart uri hcut
  -- the names of a program read from the tokens are the identifier tokens
  have hread : ∀ {p : Program}, Program.parse (scan uri source).tokens (scan uri source).eof = .ok p →
      p.names.Pairwise fun i j => i.span.Apart j.span := by
    intro p hp
    rw [Program.parse_names (scanFrom_eof_kind _ _ _) (scanFrom_unmarked _ _ _) hp, Token.namesOf, List.pairwise_map]
    exact hidents
  cases hs : (scan uri source).hasError with
  | true => simp [analyze, readReports, hs, names]
  | false =>
    cases hp : Program.parse (scan uri source).tokens (scan uri source).eof with
    | error errs => simp [analyze, readReports, hs, hp, names, Except.mapError]
    | ok p =>
      cases hr : p.resolve with
      | error f =>
        have hnames : (analyze uri source).names = p.names := by
          simp [analyze, readReports, hs, hp, hr, names, Except.mapError]
        rw [hnames]
        exact hread hp
      | ok r =>
        -- the resolved program strips back to the one read, and stripping keeps spans
        obtain ⟨r', hr', hstrip, -⟩ := Program.resolve_scoped (Program.parse_fresh (scanFrom_eof_kind _ _ _) hp)
        rw [hr] at hr'
        cases hr'
        have hnames : (analyze uri source).names = r.program.names := by
          simp [analyze, readReports, hs, hp, hr, names, Except.mapError]
        have hspans : r.program.names.map Ident.span = p.names.map Ident.span := by
          rw [← hstrip, Program.spans_names_strip]
        have h := (List.pairwise_map (R := Span.Apart) (f := Ident.span)).2 (hread hp)
        rw [← hspans] at h
        rw [hnames]
        exact List.pairwise_map.1 h

/-- At most one name of an analysed document covers a place. -/
theorem names_covering_le_one (uri source : String) (line ch : Int) :
    ((analyze uri source).names.filter fun i => Span.covers i.span line ch).length ≤ 1 :=
  length_filter_le_one ((names_apart uri source).imp fun h => h.not_both_covers line ch)

/-- **Hovering is unambiguous.** In an analysed document, at most one name covers
any 0-based place; hovering there shows that name's description when it has one
and nothing otherwise; and searching the names in any order gives the same answer. -/
theorem hover_unambiguous (uri source : String) (line ch : Int) :
    ((analyze uri source).names.filter fun i => Span.covers i.span line ch).length ≤ 1 ∧
      (analyze uri source).hover line ch =
        ((analyze uri source).names.find? fun i => Span.covers i.span line ch).bind
          (analyze uri source).describe ∧
      ∀ l : List Ident, l.Perm (analyze uri source).names →
        l.findSome? (fun i => if Span.covers i.span line ch then (analyze uri source).describe i else none) =
          (analyze uri source).hover line ch := by
  have hone := names_covering_le_one uri source line ch
  refine ⟨hone, findSome?_ite_eq_find?_bind hone _, fun l hl => ?_⟩
  -- both searches read the one list of names that cover the place
  rw [hover, ← List.head?_filterMap, ← List.head?_filterMap, ← List.filterMap_filter, ← List.filterMap_filter,
    filter_eq_of_perm hl hone]

end Document

end EggFront
