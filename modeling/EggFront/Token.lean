import EggFront.Source.Span

/-!
# Tokens

The kinds of egg tokens, their spelling in reports, and the fixed tables that
turn words and operator characters into kinds.

A token keeps its lexeme: an integer literal's normalised digits, a string
literal's text with its quotes and escapes, the spelling of a word or operator.
-/

namespace EggFront

/-- What a token is. -/
inductive TokenKind where
  | kwBool | kwInt | kwVoid
  | kwTrue | kwFalse | kwStruct | kwCin | kwCout
  | kwIf | kwElse | kwWhile | kwRepeat | kwReturn
  | intLit | stringLit | ident
  | lcurly | rcurly | lparen | rparen | semicolon | comma | dot
  | write | read
  | plusPlus | minusMinus | plus | minus | star | slash | bang
  | andAnd | orOr | equal | notEqual | less | greater | lessEqual | greaterEqual
  | assign
  | eof
deriving DecidableEq, Repr, Inhabited

namespace TokenKind

/-- The name of a kind in reports, such as `IDENTIFIER` or `PLUS_PLUS`. -/
def name : TokenKind → String
  | kwBool => "BOOL" | kwInt => "INT" | kwVoid => "VOID"
  | kwTrue => "TRUE" | kwFalse => "FALSE" | kwStruct => "STRUCT"
  | kwCin => "CIN" | kwCout => "COUT" | kwIf => "IF" | kwElse => "ELSE"
  | kwWhile => "WHILE" | kwRepeat => "REPEAT" | kwReturn => "RETURN"
  | intLit => "INT_LIT" | stringLit => "STRING_LIT" | ident => "IDENTIFIER"
  | lcurly => "LCURLY" | rcurly => "RCURLY" | lparen => "LPAREN" | rparen => "RPAREN"
  | semicolon => "SEMICOLON" | comma => "COMMA" | dot => "DOT"
  | write => "WRITE" | read => "READ"
  | plusPlus => "PLUS_PLUS" | minusMinus => "MINUS_MINUS"
  | plus => "PLUS" | minus => "MINUS" | star => "STAR" | slash => "SLASH" | bang => "BANG"
  | andAnd => "AND" | orOr => "OR" | equal => "EQUAL" | notEqual => "NOT_EQUAL"
  | less => "LESS" | greater => "GREATER"
  | lessEqual => "LESS_EQUAL" | greaterEqual => "GREATER_EQUAL"
  | assign => "ASSIGN"
  | eof => "EOF"

/-- The reserved words of egg. -/
def keyword? : String → Option TokenKind
  | "bool" => some kwBool | "int" => some kwInt | "void" => some kwVoid
  | "true" => some kwTrue | "false" => some kwFalse | "struct" => some kwStruct
  | "cin" => some kwCin | "cout" => some kwCout
  | "if" => some kwIf | "else" => some kwElse
  | "while" => some kwWhile | "repeat" => some kwRepeat | "return" => some kwReturn
  | _ => none

/-- Operators of two characters; they win over their one-character prefixes. -/
def pair? : Char → Char → Option TokenKind
  | '<', '<' => some write | '>', '>' => some read
  | '+', '+' => some plusPlus | '-', '-' => some minusMinus
  | '&', '&' => some andAnd | '|', '|' => some orOr
  | '=', '=' => some equal | '!', '=' => some notEqual
  | '<', '=' => some lessEqual | '>', '=' => some greaterEqual
  | _, _ => none

/-- Operators and punctuation of one character. -/
def single? : Char → Option TokenKind
  | '{' => some lcurly | '}' => some rcurly | '(' => some lparen | ')' => some rparen
  | ';' => some semicolon | ',' => some comma | '.' => some dot
  | '+' => some plus | '-' => some minus | '*' => some star | '/' => some slash
  | '!' => some bang | '<' => some less | '>' => some greater | '=' => some assign
  | _ => none

/-- The kinds that start a variable declaration: the three base types and `struct`. -/
def startsDecl : TokenKind → Bool
  | kwInt | kwBool | kwVoid | kwStruct => true
  | _ => false

/-- The base types `int`, `bool` and `void`. -/
def isBaseType : TokenKind → Bool
  | kwInt | kwBool | kwVoid => true
  | _ => false

end TokenKind

/-- A token: its kind, its lexeme and where it stands. -/
structure Token where
  kind : TokenKind
  text : String
  span : Span
deriving DecidableEq, Repr, Inhabited

end EggFront
