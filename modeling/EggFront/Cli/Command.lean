import EggFront.Text.Quoted
import EggFront.Text.Similar

/-!
# Commands and their arguments

A command of the `egg` tool has options and positional arguments. This module
describes them (`Command`), reads a command line against such a description
(`Command.read`), and writes the texts a user sees about a command: its usage
line, its help page, and the report of a usage error.

## Reading a command line

Words are read from left to right. `--` ends the options; a word that starts
with `-` and is longer than `-` is an option; any other word is positional, and
for a command that takes a subcommand it also ends the options, so that the
rest belongs to the subcommand.

* A long option is written `--name` or `--name=value`; one that takes a value
  takes the word after it when no `=` gives one, whatever that word is.
* A short option is `-o`; its value may follow in the same word (`-ofile`) or
  be the next word, and several flags may share one word.
* An unknown long option is reported with the known ones that look like it
  (`Text.closeMatches`); an unknown short option alone. Either is reported
  after the command's usage line.
* A known option used wrongly, a flag given a value or an option that takes
  a value given none, is reported alone (`Misuse.alone`).

Positional words go to the command's arguments in order; those beyond them are
extra, which a command refuses and a group passes on to its subcommand. The
settings given are listed with the options in the order they appear, then the
arguments.

## Help pages

A help page is the usage line, the command's description indented by two
spaces, and its options (and for a group, its commands) as two aligned columns;
every text here fits on one line of 78 columns.
-/

namespace EggFront.Cli

/-- An option of a command. A flag is on when given by one of `names` and off
when given by one of `offNames`; an option with a value takes one word. -/
structure OptionSpec where
  setting : String
  names : List String
  offNames : List String := []
  takesValue : Bool := false
  metavar : String := ""
  help : String
  /-- Handled before everything else, as help and version are. -/
  eager : Bool := false
deriving Repr

/-- A positional argument of a command. -/
structure ArgumentSpec where
  setting : String
  metavar : String
  required : Bool
deriving Repr

/-- A command: the words that call it, its description, its options (in the
order they are declared) and its arguments. A group takes a subcommand. -/
structure Command where
  path : String
  help : String
  options : List OptionSpec
  arguments : List ArgumentSpec := []
  /-- The subcommands, with the first sentence of their descriptions. -/
  subcommands : List (String × String) := []
deriving Repr

/-- What a setting was given as. -/
inductive Given where
  | flag (on : Bool)
  | value (v : String)
deriving Repr, DecidableEq

/-- What a command line gives a command: its settings in the order they were
given, and the positional words beyond its arguments. -/
structure Reading where
  given : List (String × Given) := []
  extra : List String := []
deriving Repr

/-- The metavariable of an argument as usage shows it: in brackets when optional. -/
def ArgumentSpec.shown (a : ArgumentSpec) : String :=
  if a.required then a.metavar else "[" ++ a.metavar ++ "]"

/-- The options' left column: `-o, --output FILE`, `--annotate / --no-annotate`. -/
def OptionSpec.term (o : OptionSpec) : String :=
  let on := ", ".intercalate o.names ++ (if o.takesValue then " " ++ o.metavar else "")
  if o.offNames.isEmpty then on else on ++ " / " ++ ", ".intercalate o.offNames

namespace Command

/-- Whether a command takes a subcommand. -/
def isGroup (c : Command) : Bool := !c.subcommands.isEmpty

/-- `Usage: egg check [OPTIONS] [PATH]`. -/
def usage (c : Command) : String :=
  let pieces := ["[OPTIONS]"] ++ c.arguments.map ArgumentSpec.shown ++
    (if c.isGroup then ["COMMAND [ARGS]..."] else [])
  "Usage: " ++ c.path ++ " " ++ " ".intercalate pieces

/-- Two columns, the second starting two spaces after the widest first one
(at most 30 columns wide), the whole indented by two spaces. -/
def columns (rows : List (String × String)) : List String :=
  let width := min 30 ((rows.map (·.1.length)).foldl max 0) + 2
  rows.map fun (a, b) =>
    if a.length + 2 ≤ width then "  " ++ a ++ String.ofList (List.replicate (width - a.length) ' ') ++ b
    else "  " ++ a ++ "\n" ++ String.ofList (List.replicate (width + 2) ' ') ++ b

/-- The help page of a command, without a final line break. -/
def helpPage (c : Command) : String :=
  let options := ["", "Options:"] ++ columns (c.options.map fun o => (o.term, o.help))
  let commands := if c.isGroup then ["", "Commands:"] ++ columns c.subcommands else []
  "\n".intercalate ([c.usage, "", "  " ++ c.help] ++ options ++ commands)

/-- The report of a usage error: the usage line, where to find help, and the error. -/
def usageError (c : Command) (message : String) : String :=
  c.usage ++ "\nTry '" ++ c.path ++ " --help' for help.\n\nError: " ++ message ++ "\n"

end Command

/-- Why a command line cannot be read. -/
inductive Misuse where
  /-- Reported after the command's usage line. -/
  | withUsage (message : String)
  /-- Reported on its own: a known option used wrongly. -/
  | alone (message : String)

/-- The report of a misuse of a command. -/
def Misuse.report (c : Command) : Misuse → String
  | .withUsage m => c.usageError m
  | .alone m => "Error: " ++ m ++ "\n"

/-- What follows the report of an unknown name: the one known name that looks
like it, or all of them in order. -/
def suggestion (close : List String) : String :=
  match close.mergeSort (· ≤ ·) with
  | [] => ""
  | [one] => " Did you mean " ++ Text.quote one ++ "?"
  | more => " (Did you mean one of: " ++ ", ".intercalate (more.map Text.quote) ++ "?)"

namespace Command

/-! ## Reading the words -/

/-- The long names of a command's options, `--output` and the like. -/
def longNames (c : Command) : List String :=
  (c.options.flatMap fun o => o.names ++ o.offNames).filter (·.startsWith "--")

/-- The option a name calls, and whether it turns the option on. -/
def find? (c : Command) (name : String) : Option (OptionSpec × Bool) :=
  match c.options.find? (·.names.contains name) with
  | some o => some (o, true)
  | none => (c.options.find? (·.offNames.contains name)).map (·, false)

/-- The report of an unknown option, with the known long options that look like it. -/
def noSuchOption (c : Command) (name : String) (suggest : Bool) : Misuse :=
  .withUsage ("No such option " ++ Text.quote name ++ "." ++
    suggestion (if suggest then Text.closeMatches name c.longNames else []))

/-- Settles one option: what it gives, and how many of the words after it its
value uses up (none or one). -/
def takeOption (name : String) (o : OptionSpec) (on : Bool) (inline : Option String)
    (rest : List String) : Except Misuse ((String × Given) × Nat) :=
  if o.takesValue then
    match inline, rest with
    | some v, _ => .ok ((o.setting, .value v), 0)
    | none, v :: _ => .ok ((o.setting, .value v), 1)
    | none, [] => .error (.alone ("Option " ++ Text.quote name ++ " requires an argument."))
  else
    match inline with
    | some _ => .error (.alone ("Option " ++ Text.quote name ++ " does not take a value."))
    | none => .ok ((o.setting, .flag on), 0)

/-- Reads a word of short options, `-abc` or `-ovalue`, after its dash. -/
def shortOptions (c : Command) (acc : List (String × Given)) :
    List Char → List String → Except Misuse (List (String × Given) × Nat)
  | [], _ => .ok (acc, 0)
  | ch :: more, rest =>
    let name := "-" ++ ch.toString
    match c.find? name with
    | none => .error (c.noSuchOption name false)
    | some (o, on) =>
      if o.takesValue then
        let inline := if more.isEmpty then none else some (String.ofList more)
        (takeOption name o on inline rest).map fun (g, used) => (acc ++ [g], used)
      else shortOptions c (acc ++ [(o.setting, .flag on)]) more rest

/-- Reads one word that is an option: what it gives, and how many of the words
after it it uses up. -/
def optionWord (c : Command) (word : String) (rest : List String) :
    Except Misuse (List (String × Given) × Nat) :=
  let (name, inline) := match word.splitOn "=" with
    | n :: v :: vs => (n, some ("=".intercalate (v :: vs)))
    | _ => (word, none)
  match (if name.startsWith "--" then c.find? name else none) with
  | some (o, on) => (takeOption name o on inline rest).map fun (g, used) => ([g], used)
  | none =>
    if word.startsWith "--" then .error (c.noSuchOption name true)
    else c.shortOptions [] (word.toList.drop 1) rest

/-- Reads the options, stopping at `--`, or at the first positional word of a
group; the positional words read, and the words left. -/
def readOptions (c : Command) (given : List (String × Given)) (positional : List String) :
    List String → Except Misuse (List (String × Given) × List String × List String)
  | [] => .ok (given, positional, [])
  | w :: ws =>
    if w == "--" then .ok (given, positional, ws)
    else if w.startsWith "-" && w.length > 1 then
      match c.optionWord w ws with
      | .error e => .error e
      | .ok (gs, used) => readOptions c (given ++ gs) positional (ws.drop used)
    else if c.isGroup then .ok (given, positional, w :: ws)
    else readOptions c given (positional ++ [w]) ws
termination_by ws => ws.length
decreasing_by
  all_goals simp only [List.length_drop, List.length_cons]
  all_goals omega

/-- Reads a command line: the settings given, in the order given, options
first, then arguments; and the positional words beyond the arguments. -/
def read (c : Command) (words : List String) : Except Misuse Reading := do
  let (given, positional, rest) ← c.readOptions [] [] words
  let positional := positional ++ rest
  let args := (c.arguments.zip positional).map fun (a, w) => (a.setting, Given.value w)
  pure ⟨given ++ args, positional.drop c.arguments.length⟩

/-- The settings in the order they are handled: eager options first, then the
others; within each, those given in the order first given (arguments after
options), then the rest in the order declared. -/
def handlingOrder (c : Command) (r : Reading) : List String :=
  let invoked := (r.given.map (·.1) ++ c.arguments.map (·.setting)).eraseDups
  let eager := (c.options.filter (·.eager)).map (·.setting)
  let declared := c.arguments.map (·.setting) ++ c.options.map (·.setting)
  -- a setting never given sorts after every given one
  let rank (s : String) : Nat × Nat := (if eager.contains s then 0 else 1, invoked.idxOf s)
  declared.mergeSort fun a b =>
    (rank a).1 < (rank b).1 || ((rank a).1 == (rank b).1 && (rank a).2 ≤ (rank b).2)

end Command

/-- The last value a setting was given, if any. -/
def Reading.last? (r : Reading) (setting : String) : Option Given :=
  (r.given.filter (·.1 == setting)).getLast?.map (·.2)

end EggFront.Cli
