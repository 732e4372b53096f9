import EggFront.Syntax.Parse.Expr

/-!
# Parsing programs

`Program.parse` reads the tokens of a program into its syntax tree: declarations
and statements by recursive descent, expressions as in `Parse.Expr`.

## Recovery

A syntax error stops the item being read, and parsing goes on after it: at the
top level, and for each declaration and statement of a block, the tokens up to
the end of the broken item are skipped (`skipItem`). The fields of a struct have
no recovery of their own. Every error is kept, and a program with any error is
rejected with all of them. A struct without fields is reported without stopping.

## The end

A program ends at its first token of kind `eof`: each loop stops there, and no
reader reads a token of that kind. `Program.parse` hands the readers the tokens
before it, with that token as the end marker, so they need no test of their own
and what follows the end is never read (`Program.parse_append_marker`).

## Termination

No fuel. A statement or declaration is read after its first token, so it either
consumes that token or fails at once without reading; in the second case
`skipItem` consumes it. Either way each turn of a loop consumes a token, which
the types show: the statement's reading is of the tokens after its first one.
-/

namespace EggFront

/-- The parts of a block `{ declarations statements }`. -/
structure Block where
  decls : List VarDecl
  stmts : List Stmt
  opening : Token
  closing : Token

/-- From the opening to the closing brace. -/
def Block.span (b : Block) : Span := b.opening.span.through b.closing.span

/-- Where a declaration that starts this way starts. -/
def DeclStart.span : DeclStart → Span
  | .base ty => ty.span
  | .struct kw => kw.span

/-- Reads a variable declaration after its first token: `struct T x;` or `int x;`. -/
def parseVarDecl (eof : Token) (st : DeclStart) (r : List Token) : Reading r VarDecl :=
  let typed : Reading r TypeExpr :=
    match st with
    | .base ty => .ok ty r
    | .struct kw => (expectIdent eof r).map fun n => .struct n (kw.span.through n.span)
  typed.andThen fun ty s _ =>
    (expectIdent eof s).andThen fun n s' _ =>
      (expect eof .semicolon s').map fun semi => ⟨ty, n, st.span.through semi.span⟩

/-- Reads the declarations at the start of a block, recovering from each broken one. -/
def blockDecls (eof : Token) (acc : List VarDecl) (ts : List Token) :
    Reading ts (List VarDecl) :=
  match ts with
  | t :: r =>
    match declStart? t with
    | some st =>
      match parseVarDecl eof st r with
      | ⟨.ok d, s, es, h⟩ => (((blockDecls eof (acc ++ [d]) s).widen h).note es).after t
      | ⟨.error e, s, es, h⟩ =>
        (((blockDecls eof acc (skipItem false 0 s)).widen
          ((skipItem_suffix false 0 s).trans h)).note (es ++ [e])).after t
    | none => .ok acc (t :: r)
  | [] => .ok acc []
termination_by ts.length
decreasing_by all_goals grind [List.IsSuffix.length_le, skipItem_suffix]

/-- Reads `( expression )`, the condition of `if`, `while` and `repeat`. -/
def parseCondition (eof : Token) (ts : List Token) : Reading ts Expr :=
  (expect eof .lparen ts).andThen fun _ s _ =>
    (parseExpr eof 0 s).andThen fun c s' _ =>
      (expect eof .rparen s').map fun _ => c

/-- Reads a statement that starts with the name `t`: a call, an assignment, or
`++` or `--` on a location. -/
def identStatement (eof : Token) (t : Token) (r : List Token) : Reading r Stmt :=
  match r with
  | u :: r' =>
    if u.kind = .lparen then
      ((parseArgs eof r').andThen fun (args, close) s _ =>
        (expect eof .semicolon s).map fun semi =>
          .call t.ident args (t.span.through close.span) (t.span.through semi.span)).after u
    else afterLocation (u :: r')
  | [] => afterLocation []
where
  /-- Reads the rest of the location and what is done to it. -/
  afterLocation (r : List Token) : Reading r Stmt :=
    (locRest eof (.var t.ident) r).andThen fun target s _ =>
      match s with
      | v :: s' =>
        match v.kind with
        | .plusPlus =>
          ((expect eof .semicolon s').map fun semi =>
            .increment target (t.span.through semi.span)).after v
        | .minusMinus =>
          ((expect eof .semicolon s').map fun semi =>
            .decrement target (t.span.through semi.span)).after v
        | .assign =>
          ((parseExpr eof 0 s').andThen fun value s'' _ =>
            (expect eof .semicolon s'').map fun semi =>
              .assign target value (t.span.through value.span) (t.span.through semi.span)).after v
        | _ => .fail (.afterLocation v) (v :: s')
      | [] => .fail (.afterLocation eof) []

mutual

/-- Reads a block: `{`, declarations, statements, `}`. -/
def parseBlock (eof : Token) (ts : List Token) : Reading ts Block :=
  match ts with
  | t :: r =>
    if t.kind = .lcurly then
      ((blockDecls eof [] r).andThen fun decls s _ =>
        (stmtLoop eof [] s).andThen fun stmts s' _ =>
          (expect eof .rcurly s').map fun close => ⟨decls, stmts, t, close⟩).after t
    else .fail (.expected .lcurly t) (t :: r)
  | [] => .fail (.expected .lcurly eof) []
termination_by 4 * ts.length + 2
decreasing_by all_goals grind [List.IsSuffix.length_le]

/-- Reads the statements of a block up to its `}` or the end, recovering from
each broken one. -/
def stmtLoop (eof : Token) (acc : List Stmt) (ts : List Token) : Reading ts (List Stmt) :=
  match ts with
  | [] => .ok acc []
  | t :: r =>
    if hk : t.kind = .rcurly then .ok acc (t :: r)
    else
      have hskip : skipItem false 0 (t :: r) <:+ r := skipItem_cons_suffix false t r (.inr hk)
      match parseStatement eof t r with
      | .error e =>
        (((stmtLoop eof acc (skipItem false 0 (t :: r))).widen hskip).note [e]).after t
      | .ok ⟨.ok st, s, es, h⟩ => (((stmtLoop eof (acc ++ [st]) s).widen h).note es).after t
      | .ok ⟨.error e, s, es, h⟩ =>
        (((stmtLoop eof acc (skipItem false 0 s)).widen
          ((skipItem_suffix false 0 s).trans h)).note (es ++ [e])).after t
termination_by 4 * ts.length + 1
decreasing_by all_goals grind [List.IsSuffix.length_le, skipItem_suffix]

/-- Reads a statement after its first token `t`. It fails at once, reading
nothing, when `t` starts no statement. -/
def parseStatement (eof : Token) (t : Token) (r : List Token) :
    Except SyntaxError (Reading r Stmt) :=
  match t.kind with
  | .kwCin => .ok <|
    (expect eof .read r).andThen fun _ s _ =>
      (parseLoc eof s).andThen fun target s' _ =>
        (expect eof .semicolon s').map fun semi => .read target (t.span.through semi.span)
  | .kwCout => .ok <|
    (expect eof .write r).andThen fun _ s _ =>
      (parseExpr eof 0 s).andThen fun value s' _ =>
        (expect eof .semicolon s').map fun semi => .write value (t.span.through semi.span)
  | .kwIf => .ok <|
    (parseCondition eof r).andThen fun c s _ =>
      (parseBlock eof s).andThen fun b s' _ =>
        match s' with
        | u :: s'' =>
          if u.kind = .kwElse then
            ((parseBlock eof s'').map fun b' =>
              .ifThenElse c b.decls b.stmts b'.decls b'.stmts
                (t.span.through b'.closing.span)).after u
          else .ok (.ifThen c b.decls b.stmts (t.span.through b.closing.span)) (u :: s'')
        | [] => .ok (.ifThen c b.decls b.stmts (t.span.through b.closing.span)) []
  | .kwWhile => .ok <|
    (parseCondition eof r).andThen fun c s _ =>
      (parseBlock eof s).map fun b => .whileLoop c b.decls b.stmts (t.span.through b.closing.span)
  | .kwRepeat => .ok <|
    (parseCondition eof r).andThen fun c s _ =>
      (parseBlock eof s).map fun b => .repeatLoop c b.decls b.stmts (t.span.through b.closing.span)
  | .kwReturn => .ok <|
    if (current eof r).kind = .semicolon then
      (expect eof .semicolon r).map fun semi => .ret none (t.span.through semi.span)
    else
      (parseExpr eof 0 r).andThen fun value s _ =>
        (expect eof .semicolon s).map fun semi => .ret (some value) (t.span.through semi.span)
  | .ident => .ok (identStatement eof t r)
  | k => if k.startsDecl then .error (.declAfterStatement t) else .error (.inStatement t)
termination_by 4 * r.length + 4
decreasing_by all_goals grind [List.IsSuffix.length_le]

end

/-- Reads one parameter: a type and a name. -/
def parseParam (eof : Token) (ts : List Token) : Reading ts Param :=
  (parseType eof ts).andThen fun ty s _ =>
    (expectIdent eof s).map fun n => ⟨ty, n, ty.span.through n.span⟩

/-- Reads `, parameter` while a comma follows, then the closing `)`. -/
def paramsRest (eof : Token) (acc : List Param) (ts : List Token) : Reading ts (List Param) :=
  match ts with
  | t :: r =>
    if t.kind = .comma then
      ((parseParam eof r).andThen fun p s _ => paramsRest eof (acc ++ [p]) s).after t
    else (expect eof .rparen (t :: r)).map fun _ => acc
  | [] => (expect eof .rparen []).map fun _ => acc
termination_by ts.length
decreasing_by all_goals grind [List.IsSuffix.length_le]

/-- Reads a parameter list `( T a, T b )`, possibly empty. -/
def parseParams (eof : Token) (ts : List Token) : Reading ts (List Param) :=
  (expect eof .lparen ts).andThen fun _ s _ =>
    if (current eof s).kind = .rparen then (expect eof .rparen s).map fun _ => []
    else (parseParam eof s).andThen fun p s' _ => paramsRest eof [p] s'

/-- Reads a function after its result type: name, parameters, body. -/
def parseFnDecl (eof : Token) (result : TypeExpr) (r : List Token) : Reading r FnDecl :=
  (expectIdent eof r).andThen fun name s _ =>
    (parseParams eof s).andThen fun params s' _ =>
      (parseBlock eof s').map fun b =>
        ⟨result, name, params, b.decls, b.stmts, b.span, result.span.through b.span⟩

/-- Reads the fields of a struct, with no recovery. -/
def fieldLoop (eof : Token) (acc : List VarDecl) (ts : List Token) :
    Reading ts (List VarDecl) :=
  match ts with
  | t :: r =>
    match declStart? t with
    | some st => ((parseVarDecl eof st r).andThen fun d s _ => fieldLoop eof (acc ++ [d]) s).after t
    | none => .ok acc (t :: r)
  | [] => .ok acc []
termination_by ts.length
decreasing_by all_goals grind [List.IsSuffix.length_le]

/-- Reads a struct type after `struct`: name, `{`, fields, `}`, `;`. A struct
without fields is reported and read on. -/
def parseStructDecl (eof : Token) (kw : Token) (r : List Token) : Reading r StructDecl :=
  (expectIdent eof r).andThen fun name s _ =>
    (expect eof .lcurly s).andThen fun _ s' _ =>
      let next := current eof s'
      let empty := if (declStart? next).isSome then [] else [SyntaxError.emptyStruct name.name next]
      ((fieldLoop eof [] s').andThen fun fields s'' _ =>
        (expect eof .rcurly s'').andThen fun _ s3 _ =>
          (expect eof .semicolon s3).map fun semi =>
            ⟨name, fields, kw.span.through semi.span⟩).note empty

/-- Reads a top-level declaration after its first token `t`. It fails at once,
reading nothing, when `t` starts no declaration. -/
def parseDecl (eof : Token) (t : Token) (r : List Token) : Except SyntaxError (Reading r Decl) :=
  if t.kind = .kwStruct then
    if (ahead eof r 1).kind = .lcurly then .ok ((parseStructDecl eof t r).map .struct)
    else .ok ((parseVarDecl eof (.struct t) r).map .var)
  else
    match baseType? t with
    | some ty =>
      if (ahead eof r 1).kind = .lparen then .ok ((parseFnDecl eof ty r).map .fn)
      else .ok ((parseVarDecl eof (.base ty) r).map .var)
    | none => .error (.atTopLevel t)

/-- Reads top-level declarations to the end, recovering from each broken one;
answers the declarations read and every error, in order. -/
def declLoop (eof : Token) (acc : List Decl) (errs : List SyntaxError) (ts : List Token) :
    List Decl × List SyntaxError :=
  match ts with
  | [] => (acc, errs)
  | t :: r =>
    have _hskip : skipItem true 0 (t :: r) <:+ r := skipItem_cons_suffix true t r (.inl rfl)
    match parseDecl eof t r with
    | .error e => declLoop eof acc (errs ++ [e]) (skipItem true 0 (t :: r))
    | .ok ⟨.ok d, s, es, _⟩ => declLoop eof (acc ++ [d]) (errs ++ es) s
    | .ok ⟨.error e, s, es, _⟩ => declLoop eof acc (errs ++ es ++ [e]) (skipItem true 0 s)
termination_by ts.length
decreasing_by all_goals grind [List.IsSuffix.length_le, skipItem_suffix]

/-- Parses the tokens `ts` that stand before the end marker `eof`. The program's
span runs from the first position to the end marker. -/
def Program.parseBefore (ts : List Token) (eof : Token) : Except (List SyntaxError) Program :=
  match declLoop eof [] [] ts with
  | (decls, []) => .ok ⟨decls, ⟨eof.span.file, 1, 1, eof.span.endLine, eof.span.endCol⟩⟩
  | (_, errs) => .error errs

/-- Parses the tokens of a program, which the end marker `eof` follows, up to the
end: the first token of kind `eof`, or the marker when there is none. -/
def Program.parse (tokens : List Token) (eof : Token) : Except (List SyntaxError) Program :=
  Program.parseBefore (tokens.takeWhile (·.kind != .eof)) ((tokens.find? (·.kind == .eof)).getD eof)

section End

variable {pre post tokens : List Token} {e eof : Token}

/-- Tokens with no end marker among them are read to the marker after them. -/
theorem Program.parse_of_unmarked (h : ∀ t ∈ tokens, t.kind ≠ .eof) :
    Program.parse tokens eof = Program.parseBefore tokens eof := by
  have htake : tokens.takeWhile (·.kind != .eof) = tokens := by
    rw [← List.append_nil tokens, List.takeWhile_append_of_pos (by simpa using h)]
    rfl
  have hfind : tokens.find? (·.kind == .eof) = none := List.find?_eq_none.2 (by simpa using h)
  rw [Program.parse, htake, hfind]
  rfl

/-- **Nothing after the end is read.** A program ends at its first token of kind
`eof`, which stands in for the end marker: the tokens after it are never read. -/
theorem Program.parse_append_marker (hpre : ∀ t ∈ pre, t.kind ≠ .eof) (he : e.kind = .eof) :
    Program.parse (pre ++ e :: post) eof = Program.parse pre e := by
  have htake : (pre ++ e :: post).takeWhile (·.kind != .eof) = pre := by
    rw [List.takeWhile_append_of_pos (by simpa using hpre), List.takeWhile_cons_of_neg (by simp [he]),
      List.append_nil]
  have hfind : (pre ++ e :: post).find? (·.kind == .eof) = some e := by
    rw [List.find?_append, List.find?_eq_none.2 (by simpa using hpre), List.find?_cons_of_pos (by simp [he])]
    rfl
  rw [Program.parse_of_unmarked hpre, Program.parse, htake, hfind]
  rfl

/-- What the parser reads of any tokens: some tokens with no end marker among them,
up to an end that is of kind `eof` when the marker given is. -/
theorem Program.parse_eq_parseBefore (tokens : List Token) (eof : Token) :
    ∃ ts e, Program.parse tokens eof = Program.parseBefore ts e ∧ (∀ t ∈ ts, t.kind ≠ .eof) ∧
      (eof.kind = .eof → e.kind = .eof) := by
  cases hfind : tokens.find? (·.kind == .eof) with
  | none =>
    have h : ∀ t ∈ tokens, t.kind ≠ .eof := by simpa using List.find?_eq_none.1 hfind
    exact ⟨tokens, eof, Program.parse_of_unmarked h, h, id⟩
  | some e =>
    obtain ⟨he, pre, post, rfl, hpre⟩ := List.find?_eq_some_iff_append.1 hfind
    have hpre' : ∀ t ∈ pre, t.kind ≠ .eof := by simpa using hpre
    have he' : e.kind = .eof := by simpa using he
    exact ⟨pre, e, by rw [Program.parse_append_marker hpre' he', Program.parse_of_unmarked hpre'],
      hpre', fun _ => he'⟩

end End

/-- Scans and parses the source text of `file`. Answers the scan, whose
diagnostics are the scanner's, and the program, or the rejection of the stage
that stopped: scanning, with all its diagnostics, when it found an error, and
otherwise parsing, with its syntax errors. -/
def Program.ofSource (file text : String) : Scan × Except Rejection Program :=
  let s := scan file text
  (s, match s.accept with
    | .error r => .error r
    | .ok s => (Program.parse s.tokens s.eof).mapError fun errs =>
        ⟨errs.map SyntaxError.toDiagnostic⟩)

end EggFront
