import Mathlib
import EggFront.Proofs.Parse.Flat
import EggFront.Proofs.Parse.CompleteProgram

/-!
# Recovery is local

The parser recovers from a syntax error by skipping the broken item. This module
says what that gives on a program of the grammar some of whose *simple items*,
declarations of variables and statements without braces, are broken: replaced
by flat token sequences (`FlatItem`) that are no item of the grammar at their
place. Parsing fails with exactly one syntax error per broken item, in order,
each an `E200` at a token of its own item (`Program.parse_locates_broken`).

## Where a broken item sits

The place of an item is the parser's: a block reads its declarations first and
its statements after them. A broken item that starts with a type or `struct`,
and that only declarations and such items precede in its block, is read among
the declarations, whatever stood there before; so `Broken.Block` puts such an
item among the declarations (`DeclHole`), and asks that its first statement
start no declaration. An `if` without `else` reads an `else` after it, so a
broken item that starts with `else` after one is read as its failed `else`
branch (`Broken.Statement.elseHole`), with the same single error.

## The proof

Such a program holds no end marker (`Broken.Program.unmarked`), so the parser
reads all of it. Each recovering loop is a sequence of turns (`Parse.Progress`). A turn on a
broken item skips it (`Parse.Flat`); a turn on an item of the grammar reads it
cleanly (the completeness lemmas); a turn on a compound statement whose blocks
hold broken items reads it and recovers from their errors, by recursion on the
derivation. What a turn leaves and the errors it found are all the loops need
(`Turn.Locates`).
-/

namespace EggFront

open Grammar

/-! ## What a reading answers -/

namespace Reading

variable {ts : List Token} {α β : Type}

/-- `r` answered `res` and stopped before `rest`, recovering on the way from the
errors `es`. -/
def Answers (r : Reading ts α) (res : Except SyntaxError α) (rest : List Token)
    (es : List SyntaxError) : Prop :=
  r.result = res ∧ r.rest = rest ∧ r.errors = es

variable {res : Except SyntaxError α} {rest : List Token} {es : List SyntaxError}

theorem Yields.answers {r : Reading ts α} {a : α} (h : r.Yields a rest) : r.Answers (.ok a) rest [] := h

theorem Answers.widen {ts' : List Token} {r : Reading ts' α} (h : r.Answers res rest es)
    (hs : ts' <:+ ts) : (r.widen hs).Answers res rest es := h

theorem Answers.after {r : Reading ts α} {t : Token} (h : r.Answers res rest es) :
    (r.after t).Answers res rest es := h

theorem Answers.note {r : Reading ts α} (es₀ : List SyntaxError) (h : r.Answers res rest es) :
    (r.note es₀).Answers res rest (es₀ ++ es) :=
  ⟨h.1, h.2.1, by simp [Reading.note, h.2.2]⟩

theorem Answers.map {r : Reading ts α} {a : α} (f : α → β) (h : r.Answers (.ok a) rest es) :
    (r.map f).Answers (.ok (f a)) rest es :=
  ⟨by simp [Reading.map, h.1, Except.map], h.2.1, h.2.2⟩

theorem answers_fail (e : SyntaxError) : (Reading.fail e ts : Reading ts α).Answers (.error e) ts [] :=
  ⟨rfl, rfl, rfl⟩

/-- A reading that read `a`, then one from where it stopped: the second's answer,
and the errors of both. -/
theorem Answers.andThen {r : Reading ts α} {k : (a : α) → (s : List Token) → s <:+ ts → Reading s β}
    {a : α} {s : List Token} {res' : Except SyntaxError β} {es' : List SyntaxError}
    (hr : r.Answers (.ok a) s es) (hk : ∀ h, (k a s h).Answers res' rest es') :
    (r.andThen k).Answers res' rest (es ++ es') := by
  obtain ⟨res₀, s', es₀, hsuf⟩ := r
  obtain ⟨h₁, h₂, h₃⟩ := hr
  simp only at h₁ h₂ h₃
  subst h₁ h₂ h₃
  rw [andThen_mk_ok]
  exact ((hk hsuf).widen hsuf).note _

end Reading

open Reading

/-! ## Errors located in items -/

/-- The errors `errs` are one per item of `items`, in order, each at a token of
its item. -/
def Located (errs : List SyntaxError) (items : List (List Token)) : Prop :=
  List.Forall₂ (fun e item => e.token ∈ item) errs items

theorem Located.append {es es' : List SyntaxError} {hs hs' : List (List Token)} (h : Located es hs)
    (h' : Located es' hs') : Located (es ++ es') (hs ++ hs') :=
  List.rel_append h h'

/-- The turn goes on with `rest`, and found errors located in the broken items `hs`. -/
def Turn.Locates {r : List Token} {α : Type} (u : Turn r α) (rest : List Token)
    (hs : List (List Token)) : Prop :=
  u.rest = rest ∧ Located u.errors hs

section Turns

variable {α : Type} {r rest : List Token} {reading : Except SyntaxError (Reading r α)} {top : Bool}
  {skip : List Token} {hskip : skip <:+ r} {es : List SyntaxError} {hs : List (List Token)}

theorem Turn.Skips.locates {u : Turn r α} {item : List Token} (h : u.Skips item rest) :
    u.Locates rest [item] := by
  obtain ⟨-, hrest, e, he, hmem⟩ := h
  exact ⟨hrest, he ▸ .cons hmem .nil⟩

/-- A turn whose item is read goes on where the reading stopped, with its errors. -/
theorem Turn.ofReading_ok {rd : Reading r α} {a : α} (hrd : reading = .ok rd)
    (h : rd.Answers (.ok a) rest es) (hes : Located es hs) :
    (Turn.ofReading reading top skip hskip).Locates rest hs := by
  subst hrd
  obtain ⟨res, s, es', hs'⟩ := rd
  obtain ⟨h₁, h₂, h₃⟩ := h
  simp only at h₁ h₂ h₃
  subst h₁ h₂ h₃
  exact ⟨rfl, hes⟩

/-- A turn whose item fails within a flat item goes on after it, with one more error. -/
theorem Turn.ofReading_error {rd : Reading r α} {e : SyntaxError} {s : List Token}
    (hrd : reading = .ok rd) (h : rd.Answers (.error e) s es) (hflat : FlatBefore rest s)
    (hes : Located (es ++ [e]) hs) : (Turn.ofReading reading top skip hskip).Locates rest hs := by
  subst hrd
  obtain ⟨res, s', es', hs'⟩ := rd
  obtain ⟨h₁, h₂, h₃⟩ := h
  simp only at h₁ h₂ h₃
  subst h₁ h₂ h₃
  exact ⟨hflat.skipItem top, hes⟩

end Turns

/-! ## The loops, turn by turn -/

section Loops

variable {eof t : Token} {r rest' rest : List Token} {hs₁ hs₂ : List (List Token)}

theorem blockDecls_step {st : DeclStart} (hst : declStart? t = some st)
    (hturn : (varDeclTurn eof st r).Locates rest' hs₁)
    (hloop : ∀ acc, ∃ ds es, Located es hs₂ ∧ (blockDecls eof acc rest').Answers (.ok ds) rest es)
    (acc : List VarDecl) :
    ∃ ds es, Located es (hs₁ ++ hs₂) ∧ (blockDecls eof acc (t :: r)).Answers (.ok ds) rest es := by
  obtain ⟨hrest, hloc⟩ := hturn
  obtain ⟨ds, es, hes, hrun⟩ := hloop (acc ++ (varDeclTurn eof st r).read.toList)
  rw [← hrest] at hrun
  refine ⟨ds, _, hloc.append hes, ?_⟩
  rw [blockDecls_cons acc hst]
  exact ((hrun.widen _).note _).after

theorem stmtLoop_step (hk : t.kind ≠ .rcurly) (hturn : (stmtTurn eof t r hk).Locates rest' hs₁)
    (hloop : ∀ acc, ∃ ss es, Located es hs₂ ∧ (stmtLoop eof acc rest').Answers (.ok ss) rest es)
    (acc : List Stmt) :
    ∃ ss es, Located es (hs₁ ++ hs₂) ∧ (stmtLoop eof acc (t :: r)).Answers (.ok ss) rest es := by
  obtain ⟨hrest, hloc⟩ := hturn
  obtain ⟨ss, es, hes, hrun⟩ := hloop (acc ++ (stmtTurn eof t r hk).read.toList)
  rw [← hrest] at hrun
  refine ⟨ss, _, hloc.append hes, ?_⟩
  rw [stmtLoop_cons acc hk]
  exact ((hrun.widen _).note _).after

theorem declLoop_step (hturn : (declTurn eof t r).Locates rest' hs₁)
    (hloop : ∀ acc errs, ∃ ds es, Located es hs₂ ∧ declLoop eof acc errs rest' = (ds, errs ++ es))
    (acc : List Decl) (errs : List SyntaxError) :
    ∃ ds es, Located es (hs₁ ++ hs₂) ∧ declLoop eof acc errs (t :: r) = (ds, errs ++ es) := by
  obtain ⟨hrest, hloc⟩ := hturn
  obtain ⟨ds, es, hes, hrun⟩ :=
    hloop (acc ++ (declTurn eof t r).read.toList) (errs ++ (declTurn eof t r).errors)
  refine ⟨ds, _, hloc.append hes, ?_⟩
  rw [declLoop_cons, hrest, hrun, List.append_assoc]

end Loops

/-! ## Programs with broken items -/

/-- A flat item that starts as a declaration of a block but is none. -/
def DeclHole (c : List Token) : Prop :=
  FlatItem c ∧ (∀ u ∈ c.head?, (declStart? u).isSome) ∧ ∀ d, ¬VarDeclOf (lexemes c) d

/-- A flat item that is no statement. -/
def StmtHole (c : List Token) : Prop := FlatItem c ∧ ∀ st, ¬StmtOf true (lexemes c) st

/-- A flat item that is no top-level declaration. -/
def TopHole (c : List Token) : Prop := FlatItem c ∧ ∀ d, ¬DeclOf true (lexemes c) d

namespace Broken

/-- The declarations of a block, some of them broken: their tokens, and the broken
items among them, in order. -/
inductive Decls : List Token → List (List Token) → Prop
  | nil : Decls [] []
  | decl {c c' : List Token} {d : VarDecl} {hs : List (List Token)} :
      VarDeclOf (lexemes c) d → Decls c' hs → Decls (c ++ c') hs
  | hole {h c' : List Token} {hs : List (List Token)} :
      DeclHole h → Decls c' hs → Decls (h ++ c') (h :: hs)

mutual

/-- A statement of a block with broken items, and its broken items: a statement of
the grammar, a broken one, a compound statement whose blocks hold broken items, or
an `if` without `else` that reads a broken item starting with `else` after it.
The `Prop` holds of an `if` without `else`, which an `else` after it would continue. -/
inductive Statement : Prop → List Token → List (List Token) → Prop
  | stmt {c : List Token} {st : Stmt} : StmtOf true (lexemes c) st → Statement st.OpensElse c []
  | hole {h : List Token} : StmtHole h → Statement False h [h]
  | ifThen {kw lp rp : Token} {w b : List Token} {e : Expr} {hs : List (List Token)} :
      kw.kind = .kwIf → lp.kind = .lparen → ExpOf true 0 (lexemes w) e → rp.kind = .rparen →
      Block b hs → Statement True (kw :: lp :: w ++ rp :: b) hs
  | ifThenElse {kw lp rp el : Token} {w b b' : List Token} {e : Expr} {hs hs' : List (List Token)} :
      kw.kind = .kwIf → lp.kind = .lparen → ExpOf true 0 (lexemes w) e → rp.kind = .rparen →
      Block b hs → el.kind = .kwElse → Block b' hs' →
      Statement False (kw :: lp :: w ++ rp :: b ++ el :: b') (hs ++ hs')
  | loop {kw lp rp : Token} {w b : List Token} {e : Expr} {hs : List (List Token)} :
      (kw.kind = .kwWhile ∨ kw.kind = .kwRepeat) → lp.kind = .lparen → ExpOf true 0 (lexemes w) e →
      rp.kind = .rparen → Block b hs → Statement False (kw :: lp :: w ++ rp :: b) hs
  | elseHole {kw lp rp : Token} {w b h : List Token} {e : Expr} {hs : List (List Token)} :
      kw.kind = .kwIf → lp.kind = .lparen → ExpOf true 0 (lexemes w) e → rp.kind = .rparen →
      Block b hs → StmtHole h → (∀ u ∈ h.head?, u.kind = .kwElse) →
      Statement False (kw :: lp :: w ++ rp :: b ++ h) (hs ++ [h])

/-- The statements of a block with broken items. -/
inductive Statements : List Token → List (List Token) → Prop
  | nil : Statements [] []
  | cons {opens : Prop} {c c' : List Token} {hs hs' : List (List Token)} :
      Statement opens c hs → (opens → EndsIf c') → Statements c' hs' → Statements (c ++ c') (hs ++ hs')

/-- A block with broken items: its declarations, then its statements, the first of
which starts no declaration. -/
inductive Block : List Token → List (List Token) → Prop
  | mk {lc rc : Token} {cd cs : List Token} {hs hs' : List (List Token)} :
      lc.kind = .lcurly → Decls cd hs → Statements cs hs' → EndsDecls cs → rc.kind = .rcurly →
      Block (lc :: cd ++ cs ++ [rc]) (hs ++ hs')

end

/-- A top-level declaration with broken items: one of the grammar, a broken one, or
a function whose body holds broken items. -/
inductive Decl : List Token → List (List Token) → Prop
  | decl {c : List Token} {d : EggFront.Decl} : DeclOf true (lexemes c) d → Decl c []
  | hole {h : List Token} : TopHole h → Decl h [h]
  | fn {ty n lp rp : Token} {w b : List Token} {ps : List Param} {hs : List (List Token)} :
      (baseType? ty).isSome → n.kind = .ident → lp.kind = .lparen → ParamsOf (lexemes w) ps →
      rp.kind = .rparen → Block b hs → Decl (ty :: n :: lp :: w ++ rp :: b) hs

/-- A program of the grammar some of whose simple items are broken: its tokens,
and the broken items, in order. -/
inductive Program : List Token → List (List Token) → Prop
  | nil : Program [] []
  | cons {c c' : List Token} {hs hs' : List (List Token)} :
      Decl c hs → Program c' hs' → Program (c ++ c') (hs ++ hs')

/-- A program of one declaration. -/
theorem Program.of_decl {c : List Token} {hs : List (List Token)} (h : Decl c hs) : Program c hs := by
  simpa using Program.cons h .nil

/-! A program with broken items holds no end marker: its items are of the grammar
or flat. -/

theorem Decls.unmarked {c : List Token} {hs : List (List Token)} : Decls c hs → Unmarked (lexemes c)
  | .nil => unmarked_nil
  | .decl h h' => by simp [h.unmarked, h'.unmarked]
  | .hole h h' => by simp [h.1.unmarked, h'.unmarked]

mutual

theorem Statement.unmarked {opens : Prop} {c : List Token} {hs : List (List Token)} :
    Statement opens c hs → Unmarked (lexemes c)
  | .stmt h => h.unmarked
  | .hole h => h.1.unmarked
  | .ifThen hkw hlp he hrp hb => by simp [hkw, hlp, hrp, he.unmarked, hb.unmarked]
  | .ifThenElse hkw hlp he hrp hb hel hb' => by
    simp [hkw, hlp, hrp, hel, he.unmarked, hb.unmarked, hb'.unmarked]
  | .loop hkw hlp he hrp hb => by
    rcases hkw with hkw | hkw <;> simp [hkw, hlp, hrp, he.unmarked, hb.unmarked]
  | .elseHole hkw hlp he hrp hb hh _ => by simp [hkw, hlp, hrp, he.unmarked, hb.unmarked, hh.1.unmarked]

theorem Statements.unmarked {c : List Token} {hs : List (List Token)} :
    Statements c hs → Unmarked (lexemes c)
  | .nil => unmarked_nil
  | .cons h _ h' => by simp [h.unmarked, h'.unmarked]

theorem Block.unmarked {c : List Token} {hs : List (List Token)} : Block c hs → Unmarked (lexemes c)
  | .mk hlc hd hss _ hrc => by simp [hlc, hrc, hd.unmarked, hss.unmarked]

end

theorem Decl.unmarked {c : List Token} {hs : List (List Token)} : Decl c hs → Unmarked (lexemes c)
  | .decl h => h.unmarked
  | .hole h => h.1.unmarked
  | .fn hty hn hlp hps hrp hb => by
    obtain ⟨b, hb'⟩ := Option.isSome_iff_exists.1 hty
    simp [(baseType_plain hb').2.2.2, hn, hlp, hrp, hps.unmarked, hb.unmarked]

theorem Program.unmarked {c : List Token} {hs : List (List Token)} : Program c hs → Unmarked (lexemes c)
  | .nil => unmarked_nil
  | .cons h h' => by simp [h.unmarked, h'.unmarked]

end Broken

/-! ## Reading programs with broken items -/

section Reading

variable {eof : Token}

theorem EndsIf.append {c rest : List Token} (h : EndsIf c) (hrest : ∀ u ∈ rest.head?, u.kind = .rcurly) :
    EndsIf (c ++ rest) := by
  intro u hu
  cases c with
  | nil =>
    rw [hrest u hu]
    decide
  | cons v c => exact h u (by simpa using hu)

theorem EndsDecls.append_rcurly {cs : List Token} {rc : Token} (rest : List Token) (h : EndsDecls cs)
    (hrc : rc.kind = .rcurly) : EndsDecls (cs ++ rc :: rest) := by
  intro u hu
  cases cs with
  | nil =>
    simp only [List.nil_append, List.head?_cons, Option.mem_def, Option.some.injEq] at hu
    subst hu
    simp [declStart?, baseType?, hrc]
  | cons v cs => exact h u (by simpa using hu)

theorem Grammar.StmtOf.startsStatement_first {t : Token} {c : List Token} {st : Stmt}
    (h : StmtOf true (lexemes (t :: c)) st) : startsStatement t.kind = true := by
  obtain ⟨x, w', hw, hx⟩ := h.head
  simp only [lexemes_cons, List.cons.injEq] at hw
  rw [← hw.1] at hx
  exact hx

theorem Grammar.StmtOf.first_ne_rcurly {t : Token} {c : List Token} {st : Stmt}
    (h : StmtOf true (lexemes (t :: c)) st) : t.kind ≠ .rcurly := by
  intro hk
  have hs := h.startsStatement_first
  rw [hk] at hs
  exact absurd hs (by decide)

/-- The statement reader on `while` and `repeat`: a condition, then a block. -/
theorem parseStatement_loop (eof : Token) {kw : Token} (r : List Token)
    (hk : kw.kind = .kwWhile ∨ kw.kind = .kwRepeat) :
    ∃ f : Expr → Block → Stmt, parseStatement eof kw r =
      .ok ((parseCondition eof r).andThen fun c s _ => (parseBlock eof s).map (f c)) := by
  rw [parseStatement.eq_def]
  rcases hk with hk | hk <;> simp only [hk]
  · exact ⟨fun c b => .whileLoop c b.decls b.stmts (kw.span.through b.closing.span), rfl⟩
  · exact ⟨fun c b => .repeatLoop c b.decls b.stmts (kw.span.through b.closing.span), rfl⟩

theorem Broken.Decls.loop (heof : eof.kind = .eof) {c : List Token} {hs : List (List Token)}
    (h : Broken.Decls c hs) {rest : List Token} (hrest : EndsDecls rest) (acc : List VarDecl) :
    ∃ ds es, Located es hs ∧ (blockDecls eof acc (c ++ rest)).Answers (.ok ds) rest es := by
  induction h generalizing acc with
  | nil =>
    refine ⟨acc, [], .nil, ?_⟩
    rw [List.nil_append, blockDecls_stop hrest]
    exact ⟨rfl, rfl, rfl⟩
  | decl hd _ ih =>
    obtain ⟨t, c₁, st, rfl, hst, d', -, hy⟩ := hd.complete rfl
    rw [List.append_assoc, List.cons_append]
    exact blockDecls_step hst (Turn.ofReading_ok rfl (hy eof _).answers .nil) ih acc
  | hole hh _ ih =>
    obtain ⟨hitem, hstart, hno⟩ := hh
    obtain ⟨t, r₀, rfl⟩ := List.exists_cons_of_ne_nil hitem.ne_nil
    obtain ⟨st, hst⟩ := Option.isSome_iff_exists.1 (hstart t rfl)
    rw [List.append_assoc, List.cons_append]
    exact blockDecls_step hst (varDeclTurn_skips heof hst hitem hno).locates ih acc

mutual

/-- A statement with broken items is one turn of the statement loop, which goes on
after it with errors located in its broken items. -/
theorem Broken.Statement.turn (heof : eof.kind = .eof) {opens : Prop} {c : List Token}
    {hs : List (List Token)} :
    Broken.Statement opens c hs → ∃ t c₀, c = t :: c₀ ∧ ∃ hk : t.kind ≠ .rcurly,
      ∀ rest, (opens → EndsIf rest) → (stmtTurn eof t (c₀ ++ rest) hk).Locates rest hs
  | .stmt hst => by
    obtain ⟨t, c₀, rfl, st', -, hy⟩ := hst.complete rfl
    refine ⟨t, c₀, rfl, hst.first_ne_rcurly, fun rest hend => ?_⟩
    obtain ⟨rd, hrd, hyrd⟩ := hy eof rest hend
    exact Turn.ofReading_ok hrd hyrd.answers .nil
  | .hole hh => by
    obtain ⟨hitem, hno⟩ := hh
    obtain ⟨t, r₀, rfl⟩ := List.exists_cons_of_ne_nil hitem.ne_nil
    exact ⟨t, r₀, rfl, hitem.head_ne_rcurly, fun rest _ => (stmtTurn_skips heof _ hitem hno).locates⟩
  | @Broken.Statement.ifThen kw lp rp w b _ _ hkw hlp hcond hrp hb => by
    obtain ⟨e', -, hcy⟩ := hcond.parseCondition_complete rfl
    refine ⟨kw, lp :: w ++ rp :: b, rfl, by rw [hkw]; decide, fun rest hend => ?_⟩
    obtain ⟨blk, es, hes, hbr⟩ := hb.read heof rest
    unfold stmtTurn
    rw [parseStatement.eq_def]
    simp only [hkw]
    apply Turn.ofReading_ok rfl
    · rw [show lp :: w ++ rp :: b ++ rest = lp :: w ++ rp :: (b ++ rest) by simp]
      apply (hcy eof lp rp _ hlp hrp).answers.andThen
      intro _
      apply hbr.andThen
      intro _
      -- no `else` follows, so the statement ends with its block
      cases rest with
      | nil => exact ⟨rfl, rfl, rfl⟩
      | cons u r =>
        simp only [if_neg (hend trivial u rfl)]
        exact ⟨rfl, rfl, rfl⟩
    · simpa using hes
  | @Broken.Statement.ifThenElse kw lp rp el w b b' _ _ _ hkw hlp hcond hrp hb hel hb' => by
    obtain ⟨e', -, hcy⟩ := hcond.parseCondition_complete rfl
    refine ⟨kw, lp :: w ++ rp :: b ++ el :: b', rfl, by rw [hkw]; decide, fun rest _ => ?_⟩
    obtain ⟨blk, es, hes, hbr⟩ := hb.read heof (el :: (b' ++ rest))
    obtain ⟨blk', es', hes', hbr'⟩ := hb'.read heof rest
    unfold stmtTurn
    rw [parseStatement.eq_def]
    simp only [hkw]
    apply Turn.ofReading_ok rfl
    · rw [show lp :: w ++ rp :: b ++ el :: b' ++ rest = lp :: w ++ rp :: (b ++ el :: (b' ++ rest))
        by simp]
      apply (hcy eof lp rp _ hlp hrp).answers.andThen
      intro _
      apply hbr.andThen
      intro _
      simp only [hel, if_true]
      exact (hbr'.map _).after
    · simpa using hes.append hes'
  | @Broken.Statement.loop kw lp rp w b _ _ hkw hlp hcond hrp hb => by
    obtain ⟨e', -, hcy⟩ := hcond.parseCondition_complete rfl
    have hk : kw.kind ≠ .rcurly := by rcases hkw with h | h <;> rw [h] <;> decide
    refine ⟨kw, lp :: w ++ rp :: b, rfl, hk, fun rest _ => ?_⟩
    obtain ⟨blk, es, hes, hbr⟩ := hb.read heof rest
    obtain ⟨f, hf⟩ := parseStatement_loop eof (lp :: w ++ rp :: b ++ rest) hkw
    apply Turn.ofReading_ok hf
    · rw [show lp :: w ++ rp :: b ++ rest = lp :: w ++ rp :: (b ++ rest) by simp]
      exact (hcy eof lp rp _ hlp hrp).answers.andThen fun _ => hbr.map _
    · simpa using hes
  | @Broken.Statement.elseHole kw lp rp w b h _ _ hkw hlp hcond hrp hb hh hhead => by
    obtain ⟨e', -, hcy⟩ := hcond.parseCondition_complete rfl
    refine ⟨kw, lp :: w ++ rp :: b ++ h, rfl, by rw [hkw]; decide, fun rest _ => ?_⟩
    obtain ⟨hitem, -⟩ := hh
    obtain ⟨el, h', rfl⟩ := List.exists_cons_of_ne_nil hitem.ne_nil
    have hel : el.kind = .kwElse := hhead el rfl
    -- after `else`, a block cannot open on what is left of the broken item
    have hh' : FlatItem h' := by
      rcases hitem.cons_cases with ⟨-, hh'⟩ | ⟨hs, -⟩
      · exact hh'
      · rw [hel] at hs
        cases hs
    obtain ⟨blk, es, hes, hbr⟩ := hb.read heof (el :: (h' ++ rest))
    unfold stmtTurn
    rw [parseStatement.eq_def]
    simp only [hkw]
    apply Turn.ofReading_error rfl
    · rw [show lp :: w ++ rp :: b ++ el :: h' ++ rest = lp :: w ++ rp :: (b ++ el :: (h' ++ rest))
        by simp]
      apply (hcy eof lp rp _ hlp hrp).answers.andThen
      intro _
      apply hbr.andThen
      intro _
      simp only [hel, if_true, parseBlock_flatBefore ⟨h', hh', rfl⟩, fail_map]
      exact (answers_fail _).after
    · exact ⟨h', hh', rfl⟩
    · simpa using hes.append (.cons (List.mem_cons_of_mem el hh'.current_mem) .nil)

/-- The statements of a block with broken items, before its `}`, are read by the
statement loop, with errors located in their broken items. -/
theorem Broken.Statements.loop (heof : eof.kind = .eof) {c : List Token} {hs : List (List Token)} :
    Broken.Statements c hs → ∀ rest : List Token, (∀ u ∈ rest.head?, u.kind = .rcurly) →
      ∀ acc, ∃ ss es, Located es hs ∧ (stmtLoop eof acc (c ++ rest)).Answers (.ok ss) rest es
  | .nil, rest, hrest, acc => by
    refine ⟨acc, [], .nil, ?_⟩
    rw [List.nil_append, stmtLoop_stop hrest]
    exact ⟨rfl, rfl, rfl⟩
  | .cons hst hend hc', rest, hrest, acc => by
    obtain ⟨t, c₀, rfl, hk, hturn⟩ := hst.turn heof
    rw [List.append_assoc, List.cons_append]
    exact stmtLoop_step hk (hturn _ fun ho => (hend ho).append hrest) (hc'.loop heof rest hrest) acc

/-- A block with broken items is read as a block, with errors located in its broken items. -/
theorem Broken.Block.read (heof : eof.kind = .eof) {c : List Token} {hs : List (List Token)} :
    Broken.Block c hs → ∀ rest, ∃ blk es, Located es hs ∧
      (parseBlock eof (c ++ rest)).Answers (.ok blk) rest es
  | @Broken.Block.mk lc rc cd cs _ _ hlc hd hss hends hrc, rest => by
    obtain ⟨ds, es₁, hes₁, hdr⟩ := hd.loop heof (hends.append_rcurly rest hrc) []
    obtain ⟨ss, es₂, hes₂, hsr⟩ := hss.loop heof (rc :: rest) (by simp [hrc]) []
    rw [show lc :: cd ++ cs ++ [rc] ++ rest = lc :: (cd ++ (cs ++ rc :: rest)) by simp, parseBlock,
      if_pos hlc]
    exact ⟨_, _, by simpa using hes₁.append hes₂,
      (hdr.andThen fun _ => hsr.andThen fun _ => (expect_yields_of rest hrc).answers.map _).after⟩

end

/-- A top-level declaration with broken items is one turn of the top-level loop. -/
theorem Broken.Decl.turn (heof : eof.kind = .eof) {c : List Token} {hs : List (List Token)}
    (h : Broken.Decl c hs) :
    ∃ t c₀, c = t :: c₀ ∧ ∀ rest, (declTurn eof t (c₀ ++ rest)).Locates rest hs := by
  cases h with
  | decl hd =>
    obtain ⟨t, c₀, rfl, d', -, hy⟩ := hd.complete rfl
    refine ⟨t, c₀, rfl, fun rest => ?_⟩
    obtain ⟨rd, hrd, hyrd⟩ := hy eof rest
    exact Turn.ofReading_ok hrd hyrd.answers .nil
  | hole hh =>
    obtain ⟨hitem, hno⟩ := hh
    obtain ⟨t, r₀, rfl⟩ := List.exists_cons_of_ne_nil hitem.ne_nil
    exact ⟨t, r₀, rfl, fun rest => (declTurn_skips heof hitem hno).locates⟩
  | @fn ty n lp rp w b _ _ hty hn hlp hps hrp hb =>
    obtain ⟨tyE, htyE⟩ := Option.isSome_iff_exists.1 hty
    obtain ⟨ps', -, hpy⟩ := hps.complete rfl
    refine ⟨ty, n :: lp :: w ++ rp :: b, rfl, fun rest => ?_⟩
    obtain ⟨blk, es, hes, hbr⟩ := hb.read heof rest
    have hns : ty.kind ≠ .kwStruct := by
      intro hs
      simp [baseType?, hs] at htyE
    have hrd : parseDecl eof ty (n :: lp :: w ++ rp :: b ++ rest) =
        .ok ((parseFnDecl eof tyE (n :: lp :: w ++ rp :: b ++ rest)).map .fn) := by
      unfold parseDecl
      simp [hns, htyE, ahead, hlp]
    apply Turn.ofReading_ok hrd
    · rw [show n :: lp :: w ++ rp :: b ++ rest = n :: (lp :: w ++ rp :: (b ++ rest)) by simp]
      unfold parseFnDecl
      exact ((expectIdent_yields_of _ hn).answers.andThen fun _ =>
        (hpy eof _ lp rp hlp hrp).answers.andThen fun _ => hbr.map _).map _
    · simpa using hes

/-- The top-level loop on a program with broken items reports errors located in them. -/
theorem Broken.Program.loop (heof : eof.kind = .eof) {c : List Token} {hs : List (List Token)}
    (h : Broken.Program c hs) (acc : List EggFront.Decl) (errs : List SyntaxError) :
    ∃ ds es, Located es hs ∧ declLoop eof acc errs c = (ds, errs ++ es) := by
  induction h generalizing acc errs with
  | nil => exact ⟨acc, [], .nil, by rw [declLoop, List.append_nil]⟩
  | cons hd _ ih =>
    obtain ⟨t, c₀, rfl, hturn⟩ := hd.turn heof
    rw [List.cons_append]
    exact declLoop_step (hturn _) ih acc errs

/-- **Recovery is local.** Parsing a program of the grammar some of whose simple
items are broken fails with one syntax error per broken item, in their order,
each an `E200` reported at a token of its own item; with no broken item it
succeeds. -/
theorem Program.parse_locates_broken (heof : eof.kind = .eof) {ts : List Token}
    {items : List (List Token)} (h : Broken.Program ts items) :
    (items = [] → ∃ p, Program.parse ts eof = .ok p) ∧
      (items ≠ [] → ∃ errs, Program.parse ts eof = .error errs ∧
        List.Forall₂ (fun e item => e.toDiagnostic.code = "E200" ∧ e.token ∈ item) errs items) := by
  obtain ⟨ds, es, hes, hrun⟩ := h.loop heof [] []
  rw [Program.parse_of_unmarked (unmarked_lexemes.1 h.unmarked)]
  unfold Program.parseBefore
  rw [hrun, List.nil_append]
  constructor
  · rintro rfl
    rw [List.forall₂_nil_right_iff.1 hes]
    exact ⟨_, rfl⟩
  · intro hne
    cases es with
    | nil => exact absurd (List.forall₂_nil_left_iff.1 hes) hne
    | cons e es => exact ⟨_, rfl, hes.imp fun e item hm => ⟨rfl, hm⟩⟩

/-- `int f() { x = 1; ) ; }` holds one broken statement, `) ;`: parsing reports one
error, at that `)`. -/
theorem parse_locates_broken_statement :
    Broken.Program (scan "main.egg" "int f() \x7b x = 1; ) ; \x7d").tokens
        [((scan "main.egg" "int f() \x7b x = 1; ) ; \x7d").tokens.drop 9).take 2] ∧
      ∃ errs, Program.parse (scan "main.egg" "int f() \x7b x = 1; ) ; \x7d").tokens
          (scan "main.egg" "int f() \x7b x = 1; ) ; \x7d").eof = .error errs ∧
        List.Forall₂ (fun e item => e.toDiagnostic.code = "E200" ∧ e.token ∈ item) errs
          [((scan "main.egg" "int f() \x7b x = 1; ) ; \x7d").tokens.drop 9).take 2] := by
  have hts : (scan "main.egg" "int f() \x7b x = 1; ) ; \x7d").tokens =
      [⟨.kwInt, "int", ⟨"main.egg", 1, 1, 1, 3⟩⟩, ⟨.ident, "f", ⟨"main.egg", 1, 5, 1, 5⟩⟩,
        ⟨.lparen, "(", ⟨"main.egg", 1, 6, 1, 6⟩⟩, ⟨.rparen, ")", ⟨"main.egg", 1, 7, 1, 7⟩⟩,
        ⟨.lcurly, "\x7b", ⟨"main.egg", 1, 9, 1, 9⟩⟩, ⟨.ident, "x", ⟨"main.egg", 1, 11, 1, 11⟩⟩,
        ⟨.assign, "=", ⟨"main.egg", 1, 13, 1, 13⟩⟩, ⟨.intLit, "1", ⟨"main.egg", 1, 15, 1, 15⟩⟩,
        ⟨.semicolon, ";", ⟨"main.egg", 1, 16, 1, 16⟩⟩, ⟨.rparen, ")", ⟨"main.egg", 1, 18, 1, 18⟩⟩,
        ⟨.semicolon, ";", ⟨"main.egg", 1, 20, 1, 20⟩⟩, ⟨.rcurly, "\x7d", ⟨"main.egg", 1, 22, 1, 22⟩⟩] := by
    decide +kernel
  have heof : (scan "main.egg" "int f() \x7b x = 1; ) ; \x7d").eof.kind = .eof := by decide +kernel
  rw [hts]
  -- the statement `x = 1 ;`, then the broken one, `) ;`
  have hassign : StmtOf true (lexemes [⟨.ident, "x", ⟨"main.egg", 1, 11, 1, 11⟩⟩,
      ⟨.assign, "=", ⟨"main.egg", 1, 13, 1, 13⟩⟩, ⟨.intLit, "1", ⟨"main.egg", 1, 15, 1, 15⟩⟩,
      ⟨.semicolon, ";", ⟨"main.egg", 1, 16, 1, 16⟩⟩])
      (.assign (.var ⟨"x", default, none⟩) (.int (digitsValue "1".toList) default) default default) :=
    StmtOf.assign .var ((ExpOf.term .intLit).lower (by decide))
  have hhole : StmtHole [⟨.rparen, ")", ⟨"main.egg", 1, 18, 1, 18⟩⟩,
      ⟨.semicolon, ";", ⟨"main.egg", 1, 20, 1, 20⟩⟩] := by
    exact ⟨⟨[_], _, rfl, by simp [TokenKind.Plain], rfl⟩, fun st h => absurd h.startsStatement_first (by decide)⟩
  refine (fun hp => ⟨hp, (Program.parse_locates_broken heof hp).2 (by simp)⟩) ?_
  exact .of_decl (@Broken.Decl.fn _ _ _ _ [] _ _ _ (by decide) (by rfl) (by rfl) .none (by rfl)
    (.mk (by rfl) .nil (.cons (.stmt hassign) False.elim (.cons (.hole hhole) False.elim .nil))
      (by simp [EndsDecls, declStart?, baseType?]) (by rfl)))

/-- A statement of a block replaced by `int y;`, a flat item that is no statement,
right after the block's declarations, is read as one of them: parsing the result
succeeds. -/
theorem parse_reads_statement_hole_as_declaration :
    (Program.parse (scan "main.egg" "int f() \x7b x = 1; \x7d").tokens
      (scan "main.egg" "int f() \x7b x = 1; \x7d").eof).isOk = true ∧
    (∀ st, ¬StmtOf true (lexemes (scan "main.egg" "int y;").tokens) st) ∧
    (Program.parse (scan "main.egg" "int f() \x7b int y; \x7d").tokens
      (scan "main.egg" "int f() \x7b int y; \x7d").eof).isOk = true := by
  refine ⟨by decide +kernel, fun st h => ?_, by decide +kernel⟩
  have hw : lexemes (scan "main.egg" "int y;").tokens =
      [(.kwInt, "int"), (.ident, "y"), (.semicolon, ";")] := by
    decide +kernel
  obtain ⟨x, w', hx, hs⟩ := h.head
  rw [hw, List.cons.injEq] at hx
  rw [← hx.1] at hs
  exact absurd hs (by decide)

end Reading

end EggFront
