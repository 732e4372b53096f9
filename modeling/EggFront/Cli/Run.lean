import EggFront.Check
import EggFront.Config
import EggFront.Diagnostic.Render
import EggFront.Workspace
import EggFront.Cli.Command
import EggFront.Cli.Console

/-!
# The `egg` command line

`egg check [PATH]` checks one file, or every `.egg` file of a project;
`egg unparse FILE` prints a file back with its names resolved; `egg new NAME`
creates a project; `egg --version` names the version.

## Projects

A project is a directory with an `egg.toml`. The configuration of a path is the
first `egg.toml` found in its directory (the path itself, for a directory) or
in one of the directories above; without one, every setting keeps its default.
Checking a directory needs a configuration; its files are the `.egg` files
below the project's `src` directory (or below the project's own directory when
it has no `src`), in the order of their paths, part by part, named by their
absolute paths.

## Checking

Every diagnostic of a file is reported on the error stream, as a rendered
report; a file fails when it has an error, or any diagnostic at all when
`warnings_as_errors` holds. A failure ends the command with exit code 1, after
every file was checked.

## Printing back

`unparse` refuses a file that fails its check, reporting why. Otherwise it
prints the resolved program with the configured indentation, annotated as
`--annotate`/`--no-annotate` say or else as configured, to the output or to the
file `-o` names. With `--color` the text is highlighted for a terminal, which
after the colour is taken out leaves it without its leading and trailing line
breaks and with one final line break.
-/

namespace EggFront.Cli

open Toml

/-! ## The commands -/

/-- `--help`, which every command has. -/
def helpOption : OptionSpec :=
  { setting := "help", names := ["--help"], help := "Show this message and exit.", eager := true }

/-- `--version`, which only the tool itself has. -/
def versionOption : OptionSpec :=
  { setting := "version", names := ["--version"], help := "Show the version and exit.", eager := true }

/-- The tool itself, which takes a subcommand. -/
def egg : Command where
  path := "egg"
  help := "Name analysis front end for the egg language."
  options := [versionOption, helpOption]
  subcommands := [("check", "Check a .egg file or an egg project for name errors."),
    ("lsp", "Start the egg language server."), ("new", "Create a new egg project."),
    ("unparse", "Analyze a .egg file and print it back with resolved names.")]

/-- `egg check [PATH]`, the path being `.` when none is given. -/
def checkCommand : Command where
  path := "egg check"
  help := "Check a .egg file or an egg project for name errors."
  options := [helpOption]
  arguments := [{ setting := "path", metavar := "PATH", required := false }]

/-- `egg unparse FILE`, with an output file, annotation and colour. -/
def unparseCommand : Command where
  path := "egg unparse"
  help := "Analyze a .egg file and print it back with resolved names."
  options := [
    { setting := "output", names := ["-o", "--output"], takesValue := true, metavar := "FILE",
      help := "Write to this file instead of stdout." },
    { setting := "annotate", names := ["--annotate"], offNames := ["--no-annotate"],
      help := "Show the resolved symbol after each name." },
    { setting := "color", names := ["--color"], help := "Syntax-highlight output on stdout." },
    helpOption]
  arguments := [{ setting := "file", metavar := "FILE", required := true }]

/-- `egg new NAME`. -/
def newCommand : Command where
  path := "egg new"
  help := "Create a new egg project."
  options := [helpOption]
  arguments := [{ setting := "name", metavar := "NAME", required := true }]

/-- `egg lsp`. -/
def lspCommand : Command where
  path := "egg lsp"
  help := "Start the egg language server."
  options := [helpOption]

/-- The version the tool reports. -/
def version : String := "0.1.0"

/-! ## Files of a project -/

/-- The files a new project starts with: its configuration, a first program,
and notes. -/
def scaffold (name : String) : List (List String × String) :=
  [(["egg.toml"], "[package]\nname = \"" ++ name ++ "\"\nversion = \"0.1.0\"\n\n[analysis]\n" ++
      "warnings_as_errors = false\n\n[unparse]\nindent = 4\nannotate = true\n"),
   (["src", "main.egg"], "struct Point \x7b\n    int x;\n    int y;\n\x7d;\n\nint square(int n) \x7b\n" ++
      "    return n * n;\n\x7d\n\nvoid main() \x7b\n    struct Point p;\n    p.x = 3;\n" ++
      "    p.y = square(p.x);\n    cout << p.y;\n\x7d\n"),
   ([".gitignore"], "__pycache__/\n*.out\n"),
   (["README.md"], "# " ++ name ++ "\n\nAn egg project.\n\n## Check\n\n" ++
      "```bash\negg check\n```\n\n## Show resolved names\n\n```bash\negg unparse src/main.egg\n```\n")]

/-- Orders paths part by part. -/
def partsLe : List String → List String → Bool
  | [], _ => true
  | _ :: _, [] => false
  | a :: as, b :: bs => a < b || (a == b && partsLe as bs)

/-- A text with its line breaks made uniform: each `\r\n`, then each `\r`
left, becomes `\n`. -/
def uniformBreaks (text : String) : String := (text.replace "\r\n" "\n").replace "\r" "\n"

/-- The text that highlighting leaves once its colour is taken out: line breaks
made uniform, none at either end, and one at the end. -/
def highlighted (text : String) : String :=
  let cs := uniformBreaks text
  let inner := ((cs.toList.dropWhile (· == '\n')).reverse.dropWhile (· == '\n')).reverse
  String.ofList inner ++ "\n"

/-! ## Running -/

variable {m : Type → Type} [Monad m] [FileSystem m]

/-- What stands at a location. -/
def kindOf (p : Location) : Run m (Option EntryKind) := monadLift (FileSystem.kind? p : m _)

/-- The text of a file. -/
def readFile (p : Location) : Run m String := monadLift (FileSystem.read p : m _)

/-- The text of a source file, its line breaks made uniform. -/
def readSource (p : Location) : Run m String := do return uniformBreaks (← readFile p)

/-- Writes a file. -/
def writeFile (p : Location) (text : String) : Run m Unit := monadLift (FileSystem.write p text : m _)

/-- What a path names, if anything. -/
def locatePath (path : String) : Run m (Option (Location × EntryKind)) := do
  if path.contains '\x00' then crash (.path .nul path)
  monadLift (locate path : m _)

/-- The location a path names, reading `/` as the root. -/
def placeOf (path : String) : Run m Location := do
  return Location.ofPath (← monadLift (FileSystem.levelsAbove : m Nat)) path



/-- Reports a usage error of a command and ends with exit code 2. -/
def usageFail {α : Type} (c : Command) (message : String) : Run m α := do
  writeErr (c.usageError message)
  exit 2

/-- Reports a command line that cannot be read and ends with exit code 2. -/
def misuse {α : Type} (c : Command) (e : Misuse) : Run m α := do
  writeErr (e.report c)
  exit 2

/-- The value a setting was given, if any. -/
def Reading.value? (r : Reading) (s : String) : Option String :=
  match r.last? s with
  | some (.value v) => some v
  | _ => none

/-- Whether a flag was given, on or off. -/
def Reading.flag? (r : Reading) (s : String) : Option Bool :=
  match r.last? s with
  | some (.flag b) => some b
  | _ => none

/-- Reads the command line of a command, shows its help page if asked, and
refuses extra words; the checks of its settings run in their order between. -/
def settle (c : Command) (words : List String) (checkSetting : Reading → String → Run m Unit) :
    Run m Reading := do
  let r ← match c.read words with
    | .ok r => pure r
    | .error e => misuse c e
  for s in c.handlingOrder r do
    if s == "help" then
      if r.flag? "help" == some true then
        write (c.helpPage ++ "\n")
        exit 0
    else checkSetting r s
  match r.extra with
  | [] => pure r
  | [w] => usageFail c ("Got unexpected extra argument (" ++ w ++ ")")
  | ws => usageFail c ("Got unexpected extra arguments (" ++ " ".intercalate ws ++ ")")

/-- The configuration file that governs a place, if there is one. -/
def findConfig (start : Location) : Run m (Option Location) := do
  let dir := if (← kindOf start) == some .file then start.parent else start
  let top ← monadLift (FileSystem.levelsAbove : m Nat)
  let rec walk : Nat → Location → Run m (Option Location)
    | 0, _ => pure none
    | fuel + 1, here => do
      let candidate := here.child "egg.toml"
      if (← kindOf candidate).isSome then return some candidate
      else if here.parts.isEmpty && here.up ≥ top then return none
      else walk fuel here.parent
  walk (dir.parts.length + top + 1) dir

/-- The settings a configuration file gives. -/
def loadConfig (cwd : String) (p : Location) : Run m Config := do
  if (← kindOf p) == some .directory then crash (.path .isDirectory (p.absolute cwd))
  match Config.ofToml (← readFile p) with
  | .ok c => pure c
  | .error e => crash (.config e)

/-- The settings that govern a place. -/
def configNear (cwd : String) (p : Location) : Run m Config := do
  match ← findConfig p with
  | some file => loadConfig cwd file
  | none => pure {}

/-- The text of a setting where a message shows it; an integer in it too long
to write in decimal stops the command. -/
def shown (v : Value) : Run m String :=
  if v.hasLongInt then crash .longInteger else pure v.text

/-- Checks files, reporting their diagnostics; whether all of them passed. -/
def checkFiles (files : List (String × Location)) (config : Config) : Run m Bool := do
  let mut book : SourceBook := {}
  let mut ok := true
  for (name, place) in files do
    if (← kindOf place) == some .directory then crash (.path .isDirectory name)
    let source ← readSource place
    book := book.register name source
    let checked ← match check name source with
      | .ok c => pure c
      | .error f => crash (.fault f)
    let renderer : Renderer := { color := true, sources := book }
    for d in checked.diagnostics do
      echoErr (renderer.render d)
    if checked.failed config.warningsAsErrors.truthy then ok := false
  return ok

/-- `egg check [PATH]`. -/
def runCheck (cwd : String) (words : List String) : Run m Unit := do
  let c := checkCommand
  let r ← settle c words fun r s => do
    if s == "path" then
      let path := (r.value? "path").getD "."
      if (← locatePath path).isNone then
        usageFail c ("Invalid value for '[PATH]': Path " ++ Text.quote path ++ " does not exist.")
  let path := (r.value? "path").getD "."
  let target ← placeOf path
  if (← kindOf target) == some .file then
    let config ← configNear cwd target
    if ← checkFiles [(showPath path, target)] config then
      echo ("checked " ++ showPath path ++ " - no errors")
    else exit 1
  else
    match ← findConfig target with
    | none =>
      echoErr "error: no egg.toml found"
      exit 1
    | some file =>
      let config ← loadConfig cwd file
      echo ("checking " ++ (← shown config.name) ++ "...")
      let project := file.parent
      let src := project.child "src"
      let root := if (← kindOf src) == some .directory then src else project
      let below ← monadLift (FileSystem.below root : m (List Location))
      let files := (below.filter (·.name.endsWith ".egg")).mergeSort fun a b => partsLe a.parts b.parts
      if files.isEmpty then
        echoErr "warning: no .egg files found"
      else
        if ← checkFiles (files.map fun f => (f.absolute cwd, f)) config then
          echo ("checked " ++ (← shown config.name) ++ " - no errors")
        else exit 1

/-- The indentation a setting asks for, where lines are indented. -/
def indentOf (setting : Value) (used : Bool) : Run m Nat :=
  match setting with
  | .int n =>
    if used then
      match indentWidth n with
      | .ok w => pure w
      | .error e => crash (.indent e)
    else pure n.toNat
  | .bool b => pure (if b then 1 else 0)
  | v => if used then crash (.badIndent v.kindName) else pure 0

/-- `egg unparse FILE`. -/
def runUnparse (cwd : String) (words : List String) : Run m Unit := do
  let c := unparseCommand
  let r ← settle c words fun r s => do
    if s == "file" then
      match r.value? "file" with
      | none => usageFail c "Missing argument 'FILE'."
      | some path =>
        match ← locatePath path with
        | none => usageFail c ("Invalid value for 'FILE': File " ++ Text.quote path ++ " does not exist.")
        | some (_, .directory) =>
          usageFail c ("Invalid value for 'FILE': File " ++ Text.quote path ++ " is a directory.")
        | some _ => pure ()
    else if s == "output" then
      if let some path := r.value? "output" then
        if let some (_, .directory) ← locatePath path then
          usageFail c ("Invalid value for '-o' / '--output': File " ++ Text.quote path ++
            " is a directory.")
  let path := (r.value? "file").getD ""
  let place ← placeOf path
  let config ← configNear cwd place
  let source ← readSource place
  let name := showPath path
  let checked ← match check name source with
    | .ok c => pure c
    | .error f => crash (.fault f)
  let failed := checked.failed config.warningsAsErrors.truthy
  match checked.resolved, failed with
  | some res, false =>
    let annotate := (r.flag? "annotate").getD config.annotate.truthy
    let indent ← indentOf config.indent res.program.usesIndent
    let text := res.program.print (res.style annotate indent)
    match r.value? "output" with
    | some out =>
      let route := Route.ofPath out
      match ← monadLift (route.openFile route.text : m _) with
      | .ok target =>
        writeFile target text
        echo ("wrote " ++ out)
      | .error f => crash (.path f route.text)
    | none => write (if r.flag? "color" == some true then highlighted text else text)
  | _, _ =>
    let renderer : Renderer := { color := true, sources := SourceBook.register {} name source }
    for d in checked.diagnostics do
      echoErr (renderer.render d)
    exit 1

/-- `egg new NAME`. -/
def runNew (cwd : String) (words : List String) : Run m Unit := do
  let c := newCommand
  let r ← settle c words fun r s => do
    if s == "name" && (r.value? "name").isNone then usageFail c "Missing argument 'NAME'."
  let name := (r.value? "name").getD ""
  if name.contains '\x00' then crash (.path .nul name)
  let dir := Route.ofPath name
  let shown (r : Route) : String := r.absolute cwd
  if let .ok (some _) ← monadLift (dir.lookup (shown dir) : m _) then
    echoErr ("error: Directory '" ++ name ++ "' already exists")
    exit 1
  match ← monadLift ((dir.child "src").makeAll shown false : m _) with
  | .ok () => pure ()
  | .error (.exists, at_) =>
    echoErr ("error: " ++ PathFault.exists.message (shown at_))
    exit 1
  | .error (f, at_) => crash (.path f (shown at_))
  for (parts, text) in scaffold name do
    let file := { dir with parts := dir.parts ++ parts }
    match ← monadLift (file.openFile (shown file) : m _) with
    | .ok place => writeFile place text
    | .error f => crash (.path f (shown file))
  echo ("created project '" ++ name ++ "' at " ++ shown dir)

/-- `egg lsp`: the language server talks over its own streams, not these. -/
def runLsp (words : List String) : Run m Unit := do
  let _ ← settle lspCommand words fun _ _ => pure ()

/-- Reads the tool's own options, answers `--version` and `--help`, and gives
the words from the command name on. -/
def toolWords (words : List String) : Run m (List String) := do
  let r ← match egg.read words with
    | .ok r => pure r
    | .error e => misuse egg e
  for s in egg.handlingOrder r do
    if s == "version" && r.flag? "version" == some true then
      echo ("egg, version " ++ version)
      exit 0
    if s == "help" && r.flag? "help" == some true then
      write (egg.helpPage ++ "\n")
      exit 0
  return r.extra

/-- Runs `egg` with the words of a command line, in the working directory named
`cwd`. A command name that is no command and starts with `-` (which only `--`
lets through) is read once more, with the words after it, as the tool's own
options, before it is reported. -/
def run (cwd : String) (words : List String) : Run m Unit := do
  if words.isEmpty then
    writeErr (egg.helpPage ++ "\n")
    exit 2
  match ← toolWords words with
  | [] => usageFail egg "Missing command."
  | name :: rest =>
    match name with
    | "check" => runCheck cwd rest
    | "unparse" => runUnparse cwd rest
    | "new" => runNew cwd rest
    | "lsp" => runLsp rest
    | _ =>
      if name.startsWith "-" then
        let _ ← toolWords (name :: rest)
      usageFail egg ("No such command " ++ Text.quote name ++ "." ++
        suggestion (Text.closeMatches name (egg.subcommands.map (·.1))))

end EggFront.Cli
