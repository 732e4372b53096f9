import EggFront.Diagnostic
import EggFront.Token
import EggFront.Text.Quoted
import EggFront.Syntax

/-!
# Readings: the parser's view of the tokens

A reading function takes the tokens of a program, without the end marker, and
reads a phrase from their front. It answers with a `Reading`: the phrase or the
syntax error that stopped it, the tokens it leaves, and the errors it recovered
from on the way. The tokens left are a suffix of those it was given, by proof,
so loops over readings terminate by the number of tokens.

Past the last token the parser sees the end marker, and reading never moves
past it.

This module also holds the syntax errors, the one-token readings, and
`skipItem`, which skips the rest of a broken item when parsing recovers.
-/

namespace EggFront

/-- A syntax error, reported at the token where it was found. -/
inductive SyntaxError where
  | expected (want : TokenKind) (got : Token)
  | expectedType (got : Token)
  | atTopLevel (got : Token)
  | inStatement (got : Token)
  | inExpression (got : Token)
  | afterLocation (got : Token)
  | declAfterStatement (at_ : Token)
  | chainedComparison (op : Token)
  | assignTarget (op : Token)
  | emptyStruct (name : String) (at_ : Token)
deriving Repr

namespace SyntaxError

/-- `KIND ('lexeme')`: how a report names the token it found. -/
def describe (t : Token) : String :=
  t.kind.name ++ " (" ++ Text.quote t.text ++ ")"

def message : SyntaxError → String
  | expected k t => "expected " ++ k.name ++ ", got " ++ describe t
  | expectedType t => "expected a type, got " ++ describe t
  | atTopLevel t => "unexpected token at top level: " ++ describe t
  | inStatement t => "unexpected token in statement: " ++ describe t
  | inExpression t => "unexpected token in expression: " ++ describe t
  | afterLocation t => "expected '=', '++' or '--' after location, got " ++ describe t
  | declAfterStatement _ => "declarations must come before statements in a block"
  | chainedComparison _ => "comparison operators cannot be chained"
  | assignTarget _ => "invalid assignment target"
  | emptyStruct n _ => "struct '" ++ n ++ "' must declare at least one field"

/-- The token an error is reported at. -/
def token : SyntaxError → Token
  | expected _ t | expectedType t | atTopLevel t | inStatement t | inExpression t
  | afterLocation t | declAfterStatement t | chainedComparison t | assignTarget t
  | emptyStruct _ t => t

def toDiagnostic (e : SyntaxError) : Diagnostic :=
  Diagnostic.atSpan .error "E200" e.message e.token.span

end SyntaxError

/-! ## Readings -/

/-- What reading a phrase from the front of the tokens `ts` gives: the phrase or
the error that stopped it, the tokens left, and the errors recovered from on the
way, in order. -/
structure Reading (ts : List Token) (α : Type) where
  result : Except SyntaxError α
  rest : List Token
  errors : List SyntaxError
  suffix : rest <:+ ts

namespace Reading

variable {ts : List Token} {α β : Type}

def ok (a : α) (ts : List Token) : Reading ts α := ⟨.ok a, ts, [], List.suffix_refl ts⟩

def fail (e : SyntaxError) (ts : List Token) : Reading ts α :=
  ⟨.error e, ts, [], List.suffix_refl ts⟩

/-- The same reading, seen from tokens that the ones it started on end. -/
def widen {s : List Token} (r : Reading s α) (h : s <:+ ts) : Reading ts α :=
  ⟨r.result, r.rest, r.errors, r.suffix.trans h⟩

/-- The same reading, seen from one token earlier. -/
def after (t : Token) (r : Reading ts α) : Reading (t :: ts) α :=
  r.widen (List.suffix_cons t ts)

/-- Errors recovered from before the reading. -/
def note (es : List SyntaxError) (r : Reading ts α) : Reading ts α :=
  { r with errors := es ++ r.errors }

/-- Reads on from where `r` stopped, if it succeeded. -/
def andThen (r : Reading ts α)
    (k : (a : α) → (s : List Token) → s <:+ ts → Reading s β) : Reading ts β :=
  match r with
  | ⟨.ok a, s, es, h⟩ => ((k a s h).widen h).note es
  | ⟨.error e, s, es, h⟩ => ⟨.error e, s, es, h⟩

def map (f : α → β) (r : Reading ts α) : Reading ts β :=
  ⟨r.result.map f, r.rest, r.errors, r.suffix⟩

end Reading

/-! ## Tokens -/

/-- The token being looked at: the first, or the end marker. -/
def current (eof : Token) (ts : List Token) : Token := ts.headD eof

/-- The token `k` places ahead, or the end marker. -/
def ahead (eof : Token) (ts : List Token) (k : Nat) : Token := ts[k]?.getD eof

/-- Reads one token of kind `k`. -/
def expect (eof : Token) (k : TokenKind) : (ts : List Token) → Reading ts Token
  | t :: r =>
    if t.kind = k then ⟨.ok t, r, [], List.suffix_cons t r⟩
    else .fail (.expected k t) (t :: r)
  | [] => if eof.kind = k then .ok eof [] else .fail (.expected k eof) []

/-- Reads a name. -/
def expectIdent (eof : Token) (ts : List Token) : Reading ts Ident :=
  (expect eof .ident ts).map fun t => { name := t.text, span := t.span }

/-- The base type a token spells, if any. -/
def baseType? (t : Token) : Option TypeExpr :=
  match t.kind with
  | .kwInt => some (.int t.span)
  | .kwBool => some (.bool t.span)
  | .kwVoid => some (.void t.span)
  | _ => none

/-- Reads `int`, `bool` or `void`. -/
def parseType (eof : Token) : (ts : List Token) → Reading ts TypeExpr
  | t :: r =>
    match baseType? t with
    | some ty => (Reading.ok ty r).after t
    | none => .fail (.expectedType t) (t :: r)
  | [] => .fail (.expectedType eof) []

/-- How a declaration of a variable starts: a base type, or the `struct` keyword. -/
inductive DeclStart where
  | base (ty : TypeExpr)
  | struct (kw : Token)

/-- The start of a variable declaration that a token makes, if any. -/
def declStart? (t : Token) : Option DeclStart :=
  if t.kind = .kwStruct then some (.struct t) else (baseType? t).map .base

/-- Skips the rest of a broken item, `depth` braces deep: up to and including
the next `;` outside braces, or up to a `}` that closes the enclosing block
(consumed at the top level only, where there is no block). At the top level a
`}` that closes the item's own braces also ends it, with a `;` after it. -/
def skipItem (top : Bool) : Nat → List Token → List Token
  | _, [] => []
  | d, t :: r =>
    match t.kind with
    | .lcurly => skipItem top (d + 1) r
    | .rcurly =>
      if d = 0 then (if top then r else t :: r)
      else if d = 1 && top then
        match r with
        | u :: r' => if u.kind = .semicolon then r' else u :: r'
        | [] => []
      else skipItem top (d - 1) r
    | .semicolon => if d = 0 then r else skipItem top d r
    | _ => skipItem top d r

theorem skipItem_suffix (top : Bool) (d : Nat) (ts : List Token) :
    skipItem top d ts <:+ ts := by
  induction ts generalizing d with
  | nil => exact List.suffix_refl _
  | cons t r ih =>
    have h1 : r <:+ t :: r := List.suffix_cons t r
    unfold skipItem
    repeat' split
    all_goals first
      | exact List.suffix_refl _
      | exact List.nil_suffix _
      | exact h1
      | exact (ih _).trans h1
      | exact (List.suffix_cons _ _).trans h1

/-- Skipping from a token that is not `}`, or at the top level, consumes it. -/
theorem skipItem_cons_suffix (top : Bool) (t : Token) (r : List Token)
    (h : top = true ∨ t.kind ≠ .rcurly) : skipItem top 0 (t :: r) <:+ r := by
  unfold skipItem
  split
  · exact skipItem_suffix _ _ _
  · rename_i hk
    simp only [↓reduceIte]
    cases top with
    | true => exact List.suffix_refl _
    | false => simp_all
  · simp
  · exact skipItem_suffix _ _ _


end EggFront
