import EggFront.Config
import EggFront.Binding.Resolve
import EggFront.Check
import EggFront.Workspace

/-!
# The console of a command

A command writes to two streams, its output and its errors, and ends with an
exit code: 0 when it succeeds, 1 when what it checked failed, 2 when its command
line was wrong. It may also stop short on an error nobody catches (`Crash`),
with exit code 1 and whatever it wrote before.

The streams are not a terminal, so colour is taken out of everything written:
each escape sequence `ESC [ params letter`, its parameters being digits, `;` and
`?`, is dropped (`withoutColor`).
-/

namespace EggFront.Cli

/-- An error that stops a command short, uncaught. -/
inductive Crash where
  /-- The configuration file could not be used. -/
  | config (e : ConfigError)
  /-- The system refused a path, shown as `shown`. -/
  | path (fault : PathFault) (shown : String)
  /-- The indentation setting is not a whole number, and a line needed it. -/
  | badIndent (kind : String)
  /-- The indentation setting cannot lay out an indented line. -/
  | indent (e : IndentError)
  /-- An integer too long to write in decimal was to be shown. -/
  | longInteger
  /-- Resolving names failed in itself. -/
  | fault (f : Fault)

/-- What a crash says. -/
def Crash.message : Crash → String
  | .config e => e.message
  | .path f p => f.message p
  | .badIndent k => "can't multiply sequence by non-int of type " ++ Text.quote k
  | .indent e => e.message
  | .longInteger => Toml.longIntMessage
  | .fault f => f.message

/-- How a command ends before its last step. -/
inductive Stop where
  | exit (code : Nat)
  | crash (c : Crash)

/-- What a command has written so far. -/
structure Console where
  out : String := ""
  err : String := ""

/-- A command running on a file system `m`. -/
abbrev Run (m : Type → Type) := ExceptT Stop (StateT Console m)

/-- How a command ended: its exit code, what it wrote, and the crash that
stopped it, if one did. -/
structure Outcome where
  code : Nat
  out : String
  err : String
  crash : Option Crash

/-- An outcome with its streams read back as text, where `\r\n` is one line
break `\n`. -/
def Outcome.asText (o : Outcome) : Outcome :=
  { o with out := o.out.replace "\r\n" "\n", err := o.err.replace "\r\n" "\n" }

/-- A parameter of an escape sequence: a digit, `;` or `?`. -/
def isEscapeParam (c : Char) : Bool := c.isDigit || c == ';' || c == '?'

/-- The characters with every colour escape sequence taken out. -/
def withoutColor (cs : List Char) : List Char :=
  match cs with
  | '\x1b' :: '[' :: r =>
    match _h : r.dropWhile isEscapeParam with
    | c :: rest =>
      if c.isAlpha then withoutColor rest else '\x1b' :: withoutColor ('[' :: r)
    | [] => '\x1b' :: withoutColor ('[' :: r)
  | c :: r => c :: withoutColor r
  | [] => []
termination_by cs.length
decreasing_by
  all_goals simp only [List.length_cons]
  all_goals try omega
  have := (@List.dropWhile_suffix _ r isEscapeParam).length_le
  rw [_h] at this
  simp only [List.length_cons] at this
  omega

example : withoutColor "\x1b[1;31merror\x1b[0m: x".toList = "error: x".toList := by decide +kernel

variable {m : Type → Type} [Monad m]

/-- Writes text to the output. -/
def write (text : String) : Run m Unit :=
  modify fun c => { c with out := c.out ++ String.ofList (withoutColor text.toList) }

/-- Writes a line to the output. -/
def echo (text : String) : Run m Unit := write (text ++ "\n")

/-- Writes text to the errors. -/
def writeErr (text : String) : Run m Unit :=
  modify fun c => { c with err := c.err ++ String.ofList (withoutColor text.toList) }

/-- Writes a line to the errors. -/
def echoErr (text : String) : Run m Unit := writeErr (text ++ "\n")

/-- Ends the command with an exit code. -/
def exit {α : Type} (code : Nat) : Run m α := throw (.exit code)

/-- Stops the command short with an uncaught error. -/
def crash {α : Type} (c : Crash) : Run m α := throw (.crash c)

/-- Runs a command to its end. -/
def Run.outcome (r : Run m Unit) : m Outcome := do
  let (result, console) ← (r.run).run {}
  let (code, crashed) := match result with
    | .ok () => (0, none)
    | .error (.exit code) => (code, none)
    | .error (.crash c) => (1, some c)
  return ⟨code, console.out, console.err, crashed⟩

end EggFront.Cli
