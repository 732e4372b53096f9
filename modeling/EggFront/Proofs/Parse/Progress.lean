import Mathlib
import EggFront.Syntax.Parse

/-!
# Parsing ends

The parser reads a program with three loops that recover from errors: the
top-level loop over declarations, and, in a block, the loop over its
declarations and the loop over its statements. A broken item is skipped up to
its end (`skipItem`). Each loop is a sequence of *turns* (`Turn`): a turn reads
one item after the token it starts on, or skips the broken one, and goes on
with tokens that come after that first token. So every turn consumes a token,
and after as many turns as there are tokens each loop has left
(`Program.parse_ends`).

This is where recovery could loop: a statement that fails at once reads
nothing, and skipping inside a block stops, without consuming it, at a `}` that
closes the block. The statement loop never turns on a `}`, so the skip after a
statement that failed at once consumes at least that statement's first token.

The readers' recursion through one another (an expression inside an
expression, a block inside a statement inside a block) is by well-founded
recursion on four times the number of tokens plus a rank below four, so every
chain of nested readings is no longer than that; each reader answers with a
suffix of its tokens (`Reading.suffix`).
-/

namespace EggFront

/-! ## Turns -/

/-- One turn of a loop over the tokens `r` that follow the turn's first token:
what it read cleanly, if anything, the errors it found, and the tokens it goes on
with, which lie within `r`. -/
structure Turn (r : List Token) (α : Type) where
  read : Option α
  errors : List SyntaxError
  rest : List Token
  suffix : rest <:+ r

/-- The turn of a loop that reads an item with `reading`, and skips the rest of
a broken one; `skip` is what is left after an item that failed at once. -/
def Turn.ofReading {α : Type} {r : List Token} (reading : Except SyntaxError (Reading r α))
    (top : Bool) (skip : List Token) (hskip : skip <:+ r) : Turn r α :=
  match reading with
  | .error e => ⟨none, [e], skip, hskip⟩
  | .ok ⟨.ok a, s, es, h⟩ => ⟨some a, es, s, h⟩
  | .ok ⟨.error e, s, es, h⟩ => ⟨none, es ++ [e], skipItem top 0 s, (skipItem_suffix top 0 s).trans h⟩

/-- At the top level, skipping a broken item consumes at least its first token. -/
theorem skipItem_top_suffix (t : Token) (r : List Token) : skipItem true 0 (t :: r) <:+ r :=
  skipItem_cons_suffix true t r (.inl rfl)

/-- One turn of the top-level loop, on a declaration that starts with `t`. -/
def declTurn (eof t : Token) (r : List Token) : Turn r Decl :=
  .ofReading (parseDecl eof t r) true (skipItem true 0 (t :: r)) (skipItem_top_suffix t r)

/-- One turn of a block's statement loop, on a statement that starts with `t`,
which is not the `}` that closes the block. -/
def stmtTurn (eof t : Token) (r : List Token) (hk : t.kind ≠ .rcurly) : Turn r Stmt :=
  .ofReading (parseStatement eof t r) false (skipItem false 0 (t :: r))
    (skipItem_cons_suffix false t r (.inr hk))

/-- One turn of a block's declaration loop, on a declaration that starts as `st`. -/
def varDeclTurn (eof : Token) (st : DeclStart) (r : List Token) : Turn r VarDecl :=
  .ofReading (.ok (parseVarDecl eof st r)) false r (List.suffix_refl r)

/-! ## The loops are their turns -/

section Loops

variable {eof t : Token} {r : List Token}

/-- The top-level loop takes a turn, and goes on from where it left. -/
theorem declLoop_cons (acc : List Decl) (errs : List SyntaxError) :
    declLoop eof acc errs (t :: r) =
      declLoop eof (acc ++ (declTurn eof t r).read.toList) (errs ++ (declTurn eof t r).errors)
        (declTurn eof t r).rest := by
  rw [declLoop]
  split
  all_goals
    rename_i heq
    simp [declTurn, heq, Turn.ofReading, List.append_assoc]

/-- The statement loop, on a token other than `}`, takes a turn, and goes on
from where it left. -/
theorem stmtLoop_cons (acc : List Stmt) (hk : t.kind ≠ .rcurly) :
    stmtLoop eof acc (t :: r) =
      (((stmtLoop eof (acc ++ (stmtTurn eof t r hk).read.toList) (stmtTurn eof t r hk).rest).widen
        (stmtTurn eof t r hk).suffix).note (stmtTurn eof t r hk).errors).after t := by
  rw [stmtLoop, dif_neg hk]
  unfold stmtTurn
  split
  all_goals
    rename_i heq
    rw [heq]
    simp only [Turn.ofReading, Option.toList_some, Option.toList_none, List.append_nil]

/-- The declaration loop of a block, on a token that starts a declaration,
takes a turn, and goes on from where it left. -/
theorem blockDecls_cons (acc : List VarDecl) {st : DeclStart} (hst : declStart? t = some st) :
    blockDecls eof acc (t :: r) =
      (((blockDecls eof (acc ++ (varDeclTurn eof st r).read.toList) (varDeclTurn eof st r).rest).widen
        (varDeclTurn eof st r).suffix).note (varDeclTurn eof st r).errors).after t := by
  rw [blockDecls]
  simp only [hst]
  unfold varDeclTurn
  split
  all_goals
    rename_i heq
    rw [heq]
    simp only [Turn.ofReading, Option.toList_some, Option.toList_none, List.append_nil]

end Loops

/-! ## The tokens after each turn -/

/-- The tokens the top-level loop goes on with after one turn. -/
def declRest (eof : Token) : List Token → List Token
  | [] => []
  | t :: r => (declTurn eof t r).rest

/-- The tokens a block's statement loop goes on with after one turn; at its `}`,
or at the end, it has left. -/
def stmtRest (eof : Token) : List Token → List Token
  | [] => []
  | t :: r => if hk : t.kind = .rcurly then t :: r else (stmtTurn eof t r hk).rest

/-- The tokens a block's declaration loop goes on with after one turn; at a token
that starts no declaration, or at the end, it has left. -/
def declsRest (eof : Token) : List Token → List Token
  | [] => []
  | t :: r =>
    match declStart? t with
    | some st => (varDeclTurn eof st r).rest
    | none => t :: r

/-- A loop whose turns, while it has not left, each consume a token, has left
after as many turns as there are tokens: it leaves at the end, and where it has
left it stays. -/
theorem leaves_iterate {next : List Token → List Token} {leaves : List Token → Prop}
    (hnil : leaves []) (hstay : ∀ ts, leaves ts → next ts = ts)
    (hmove : ∀ t r, ¬leaves (t :: r) → (next (t :: r)).length ≤ r.length) :
    ∀ n ts, ts.length ≤ n → leaves (next^[n] ts) := by
  intro n
  induction n with
  | zero =>
    intro ts hts
    rw [List.length_eq_zero_iff.1 (Nat.le_zero.1 hts)]
    exact hnil
  | succ n ih =>
    intro ts hts
    by_cases hl : leaves ts
    · -- a loop that has left takes no more turns
      rw [Function.iterate_fixed (hstay ts hl)]
      exact hl
    · have hne : ts ≠ [] := by
        rintro rfl
        exact hl hnil
      obtain ⟨t, r, rfl⟩ := List.exists_cons_of_ne_nil hne
      rw [Function.iterate_succ_apply]
      exact ih _ (Nat.le_trans (hmove t r hl) (Nat.le_of_succ_le_succ hts))

theorem declRest_iterate (eof : Token) (ts : List Token) : (declRest eof)^[ts.length] ts = [] :=
  @leaves_iterate _ (· = []) rfl (fun _ h => by subst h; rfl)
    (fun t r _ => (declTurn eof t r).suffix.length_le) ts.length ts (Nat.le_refl _)

theorem stmtRest_iterate (eof : Token) (ts : List Token) :
    ∀ t ∈ ((stmtRest eof)^[ts.length] ts).head?, t.kind = .rcurly := by
  refine @leaves_iterate _ (fun ts => ∀ t ∈ ts.head?, t.kind = .rcurly) (by simp) ?_ ?_
    ts.length ts (Nat.le_refl _)
  · intro ts hl
    cases ts with
    | nil => rfl
    | cons t r => simp [stmtRest, hl t rfl]
  · intro t r hl
    have hk : t.kind ≠ .rcurly := fun hk => hl fun u hu => by cases hu; exact hk
    simpa [stmtRest, hk] using (stmtTurn eof t r hk).suffix.length_le

theorem declsRest_iterate (eof : Token) (ts : List Token) :
    ∀ t ∈ ((declsRest eof)^[ts.length] ts).head?, declStart? t = none := by
  refine @leaves_iterate _ (fun ts => ∀ t ∈ ts.head?, declStart? t = none) (by simp) ?_ ?_
    ts.length ts (Nat.le_refl _)
  · intro ts hl
    cases ts with
    | nil => rfl
    | cons t r => simp [declsRest, hl t rfl]
  · intro t r hl
    cases hst : declStart? t with
    | none => exact absurd (fun u hu => by cases hu; exact hst) hl
    | some st => simpa [declsRest, hst] using (varDeclTurn eof st r).suffix.length_le

/-! ## Parsing ends -/

/-- Reading the tokens before an end answers a program, or the errors it found, of
which there is one at least. -/
theorem Program.parseBefore_ok_or_errors (ts : List Token) (eof : Token) :
    (∃ p, Program.parseBefore ts eof = .ok p) ∨
      ∃ errs, errs ≠ [] ∧ Program.parseBefore ts eof = .error errs := by
  unfold Program.parseBefore
  split
  · exact .inl ⟨_, rfl⟩
  · next errs herrs _ => exact .inr ⟨errs, herrs, rfl⟩

/-- So does parsing, which reads the tokens up to the end. -/
theorem Program.parse_ok_or_errors (eof : Token) (ts : List Token) :
    (∃ p, Program.parse ts eof = .ok p) ∨ ∃ errs, errs ≠ [] ∧ Program.parse ts eof = .error errs := by
  obtain ⟨ts', e, heq, -, -⟩ := Program.parse_eq_parseBefore ts eof
  rw [heq]
  exact Program.parseBefore_ok_or_errors ts' e

/-- **Parsing ends, and each of its loops ends within one turn per token.** On
any tokens, parsing answers a program or at least one error. The top-level loop
is a sequence of turns, each reading or skipping one declaration and going on
with tokens after the one it started on, so after as many turns as there are
tokens none are left. The same holds in a block: its declaration loop and its
statement loop are sequences of turns that each consume a token, and after as
many turns as there are tokens each has left, at a token that starts no
declaration, at a `}`, or at the end. -/
theorem Program.parse_ends (eof : Token) (ts : List Token) :
    ((∃ p, Program.parse ts eof = .ok p) ∨ ∃ errs, errs ≠ [] ∧ Program.parse ts eof = .error errs) ∧
    (∀ t r acc errs, declLoop eof acc errs (t :: r) =
      declLoop eof (acc ++ (declTurn eof t r).read.toList) (errs ++ (declTurn eof t r).errors)
        (declTurn eof t r).rest) ∧
    (declRest eof)^[ts.length] ts = [] ∧
    (∀ t r acc (hk : t.kind ≠ .rcurly), stmtLoop eof acc (t :: r) =
      (((stmtLoop eof (acc ++ (stmtTurn eof t r hk).read.toList) (stmtTurn eof t r hk).rest).widen
        (stmtTurn eof t r hk).suffix).note (stmtTurn eof t r hk).errors).after t) ∧
    (∀ t ∈ ((stmtRest eof)^[ts.length] ts).head?, t.kind = .rcurly) ∧
    (∀ t r acc st, declStart? t = some st → blockDecls eof acc (t :: r) =
      (((blockDecls eof (acc ++ (varDeclTurn eof st r).read.toList) (varDeclTurn eof st r).rest).widen
        (varDeclTurn eof st r).suffix).note (varDeclTurn eof st r).errors).after t) ∧
    (∀ t ∈ ((declsRest eof)^[ts.length] ts).head?, declStart? t = none) :=
  ⟨Program.parse_ok_or_errors eof ts, fun _ _ acc errs => declLoop_cons acc errs,
    declRest_iterate eof ts, fun _ _ acc hk => stmtLoop_cons acc hk, stmtRest_iterate eof ts,
    fun _ _ acc _ hst => blockDecls_cons acc hst, declsRest_iterate eof ts⟩

end EggFront
