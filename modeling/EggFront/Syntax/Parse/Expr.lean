import EggFront.Syntax.Reading
import EggFront.Token.Scan

/-!
# Parsing expressions

Expressions are read by binding powers. An operand comes first (a literal, a
location, a call, a parenthesised expression, or `!` or `-` and its operand);
then, while the next token is an operator that binds at least as strongly as the
caller asks, the operator and its right operand are read and joined to the left.

| operators | left power | right power |
|---|---|---|
| `=` | 1 | 1 |
| `\|\|` | 3 | 4 |
| `&&` | 5 | 6 |
| `== != < > <= >=` | 7 | 8 |
| `+ -` | 11 | 12 |
| `* /` | 13 | 14 |
| prefix `! -` | | 15 |

So `=` groups to the right and every other operator to the left. Two
comparisons in one chain are an error, at the second one; an assignment whose
left side is not a location is an error at `=`, found once the right side is read.

## Termination

The measure is four times the number of tokens plus a rank below four: a
function calls one of higher rank only on strictly fewer tokens. A measure in
one number, rather than a pair, lets the kernel run the parser on a fixed input.
-/

namespace EggFront

/-- How an operator token joins two expressions. -/
inductive Infix where
  | assign
  | binary (op : BinOp)

namespace Infix

def ofKind? : TokenKind → Option Infix
  | .assign => some assign
  | .orOr => some (binary .or) | .andAnd => some (binary .and)
  | .equal => some (binary .eq) | .notEqual => some (binary .ne)
  | .less => some (binary .lt) | .greater => some (binary .gt)
  | .lessEqual => some (binary .le) | .greaterEqual => some (binary .ge)
  | .plus => some (binary .add) | .minus => some (binary .sub)
  | .star => some (binary .mul) | .slash => some (binary .div)
  | _ => none

/-- How strongly the operator binds its left operand. -/
def leftPower : Infix → Nat
  | assign => 1
  | binary .or => 3
  | binary .and => 5
  | binary .add | binary .sub => 11
  | binary .mul | binary .div => 13
  | binary _ => 7

/-- How strongly the operator binds its right operand: one more than on the left,
so that operators of one level group to the left, except `=`, which groups to the
right. -/
def rightPower : Infix → Nat
  | assign => 1
  | op => op.leftPower + 1

def isComparison : Infix → Bool
  | binary op => op.isComparison
  | assign => false

end Infix

/-- How strongly a prefix `!` or `-` binds its operand. -/
def prefixPower : Nat := 15

/-- The unary operator a token spells, if any. -/
def unOp? : TokenKind → Option UnOp
  | .bang => some .not
  | .minus => some .neg
  | _ => none

/-- The name a token spells, not yet resolved. -/
def Token.ident (t : Token) : Ident := { name := t.text, span := t.span }

/-- Reads `.field.field…` after the location `base`. -/
def locRest (eof : Token) (base : Loc) : (ts : List Token) → Reading ts Loc
  | t :: r =>
    if t.kind = .dot then
      ((expectIdent eof r).andThen fun n s _ =>
        (locRest eof (.field base n (base.span.through n.span) false none) s)).after t
    else .ok base (t :: r)
  | [] => .ok base []
termination_by ts => ts.length
decreasing_by grind [List.IsSuffix.length_le]

/-- Reads a location: a name, then `.field` any number of times. -/
def parseLoc (eof : Token) (ts : List Token) : Reading ts Loc :=
  (expectIdent eof ts).andThen fun n s _ => locRest eof (.var n) s

mutual

/-- Reads an expression whose operators bind at least as strongly as `minPower`. -/
def parseExpr (eof : Token) (minPower : Nat) (ts : List Token) : Reading ts Expr :=
  (parsePrefix eof ts).andThen fun left s _ => infixLoop eof minPower left false s
termination_by 4 * ts.length + 2
decreasing_by all_goals grind [List.IsSuffix.length_le]

/-- Reads an operand: a literal, a location, a call, a parenthesised expression,
or a prefix operator and its operand. -/
def parsePrefix (eof : Token) (ts : List Token) : Reading ts Expr :=
  match ts with
  | [] => .fail (.inExpression eof) []
  | t :: r =>
    match unOp? t.kind with
    | some op =>
      ((parseExpr eof prefixPower r).map fun e => .unary op e (t.span.through e.span)).after t
    | none =>
      match t.kind with
      | .intLit => (Reading.ok (.int (digitsValue t.text.toList) t.span) r).after t
      | .stringLit => (Reading.ok (.str t.text t.span) r).after t
      | .kwTrue => (Reading.ok (.bool true t.span) r).after t
      | .kwFalse => (Reading.ok (.bool false t.span) r).after t
      | .lparen =>
        ((parseExpr eof 0 r).andThen fun e s _ => (expect eof .rparen s).map fun _ => e).after t
      | .ident =>
        match r with
        | u :: r' =>
          if u.kind = .lparen then
            (((parseArgs eof r').map fun (args, close) =>
              .call t.ident args (t.span.through close.span)).after u).after t
          else ((locRest eof (.var t.ident) (u :: r')).map .loc).after t
        | [] => (Reading.ok (.loc (.var t.ident)) []).after t
      | _ => .fail (.inExpression t) (t :: r)
termination_by 4 * ts.length + 1
decreasing_by all_goals grind [List.IsSuffix.length_le]

/-- Reads the operators after `left` and their right operands, while they bind
at least as strongly as `minPower`; `afterComparison` says whether `left` ends
in a comparison. -/
def infixLoop (eof : Token) (minPower : Nat) (left : Expr) (afterComparison : Bool)
    (ts : List Token) : Reading ts Expr :=
  match ts with
  | [] => .ok left []
  | t :: r =>
    match Infix.ofKind? t.kind with
    | none => .ok left (t :: r)
    | some op =>
      if op.leftPower < minPower then .ok left (t :: r)
      else if op.isComparison && afterComparison then .fail (.chainedComparison t) (t :: r)
      else
        ((parseExpr eof op.rightPower r).andThen fun right s _ =>
          let span := left.span.through right.span
          match op with
          | .assign =>
            match left.asLoc? with
            | some target => infixLoop eof minPower (.assign target right span) false s
            | none => .fail (.assignTarget t) s
          | .binary b => infixLoop eof minPower (.binary left b right span) b.isComparison s
          ).after t
termination_by 4 * ts.length + 1
decreasing_by all_goals grind [List.IsSuffix.length_le]

/-- Reads the arguments of a call after its `(`, and the closing `)`. -/
def parseArgs (eof : Token) (ts : List Token) : Reading ts (List Expr × Token) :=
  if (current eof ts).kind = .rparen then (expect eof .rparen ts).map fun c => ([], c)
  else (parseExpr eof 0 ts).andThen fun a s _ => argsRest eof [a] s
termination_by 4 * ts.length + 3
decreasing_by all_goals grind [List.IsSuffix.length_le]

/-- Reads `, argument` while a comma follows, then the closing `)`. -/
def argsRest (eof : Token) (acc : List Expr) (ts : List Token) :
    Reading ts (List Expr × Token) :=
  match ts with
  | t :: r =>
    if t.kind = .comma then
      ((parseExpr eof 0 r).andThen fun a s _ => argsRest eof (acc ++ [a]) s).after t
    else (expect eof .rparen (t :: r)).map fun c => (acc, c)
  | [] => (expect eof .rparen []).map fun c => (acc, c)
termination_by 4 * ts.length + 0
decreasing_by all_goals grind [List.IsSuffix.length_le]

end

end EggFront
