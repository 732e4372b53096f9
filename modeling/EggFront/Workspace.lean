import EggFront.Text.Quoted

/-!
# Workspaces

The command line reads and writes files through `FileSystem`, so that the same
commands run on a real disk and on a `Workspace`: a value that lists files by
their paths below the working directory and their texts, with every directory
that holds a file. Nothing lies above the working directory of a workspace
except the directories that hold it, and they hold nothing a command looks for.

A path a user types is found one part at a time, as an operating system does:
`.` and an empty part (from `a//b` or a trailing `/`) need a directory where
they stand, `..` needs a directory and moves to its parent, and a name moves
into it. A path that starts with `/` starts at the root, the topmost directory
above the working directory, whose `..` is itself. A path is shown with its `.`
and empty parts dropped.

The system refuses some paths before it finds anything: one that holds the
character NUL, one longer than `maxPathBytes` bytes, and one whose walk reaches
a name longer than `maxNameBytes` bytes. Opening, making and looking up a path
walk its parts from where it starts (`Route`) and fail at the first thing in
the way (`PathFault`); making a directory with those it lies in retries from
the top as `mkdir -p` does (`Route.makeAll`).
-/

namespace EggFront

/-- A location in the file system, seen from the working directory: `up` levels
above it, then down through `parts`. -/
structure Location where
  up : Nat := 0
  parts : List String := []
deriving DecidableEq, Repr, Inhabited

/-- What stands at a location. -/
inductive EntryKind where
  | file
  | directory
deriving DecidableEq, Repr

namespace Location

/-- The location of an entry of a directory. -/
def child (p : Location) (name : String) : Location := { p with parts := p.parts ++ [name] }

/-- The directory a location lies in. -/
def parent (p : Location) : Location :=
  if p.parts.isEmpty then { p with up := p.up + 1 } else { p with parts := p.parts.dropLast }

/-- The last part of a location's path. -/
def name (p : Location) : String := p.parts.getLast?.getD ""

/-- The root, `top` levels above the working directory. -/
def root (top : Nat) : Location := { up := top }

/-- The directory a location lies in, where the root lies in itself. -/
def parentWithin (top : Nat) (p : Location) : Location :=
  if p.parts.isEmpty && top ≤ p.up then p else p.parent

/-- The location a path names, read part by part with `..` moving up, from the
root `top` levels up when the path starts with `/`. -/
def ofPath (top : Nat) (path : String) : Location :=
  (path.splitOn "/").foldl (fun p part =>
    if part == "" || part == "." then p
    else if part == ".." then p.parentWithin top
    else p.child part) (if path.startsWith "/" then root top else {})

/-- The absolute name of a location, given that of the working directory. -/
def absolute (cwd : String) (p : Location) : String :=
  let base := "/".intercalate ((cwd.splitOn "/").take ((cwd.splitOn "/").length - p.up))
  "/".intercalate (base :: p.parts)

end Location

/-- A path as it is shown: without its `.` and empty parts, `.` when nothing is left. -/
def showPath (path : String) : String :=
  let parts := (path.splitOn "/").filter fun s => s != "" && s != "."
  let lead := if path.startsWith "/" then "/" else ""
  if parts.isEmpty then (if lead.isEmpty then "." else lead) else lead ++ "/".intercalate parts

/-- What a command needs of a file system. -/
class FileSystem (m : Type → Type) where
  /-- What stands at a location, if anything. -/
  kind? : Location → m (Option EntryKind)
  /-- The text of a file. -/
  read : Location → m String
  /-- Writes a file in a directory that exists. -/
  write : Location → String → m Unit
  /-- Creates a directory in a directory that exists. -/
  makeDir : Location → m Unit
  /-- Every location below a directory, at any depth. -/
  below : Location → m (List Location)
  /-- How many directories lie above the working directory. -/
  levelsAbove : m Nat

/-- The most bytes, in UTF-8, that one name in a path may have. -/
def maxNameBytes : Nat := 255

/-- The most bytes, in UTF-8, that a whole path given to the system may have. -/
def maxPathBytes : Nat := 4095

/-- Whether a name is too long for the system. -/
def nameTooLong (name : String) : Bool := maxNameBytes < name.utf8ByteSize

/-- Whether a whole path is too long for the system. -/
def pathTooLong (path : String) : Bool := maxPathBytes < path.utf8ByteSize

/-- What a path names, found part by part, if anything is there. -/
def locate {m : Type → Type} [Monad m] [FileSystem m] (path : String) :
    m (Option (Location × EntryKind)) := do
  if path.isEmpty || pathTooLong path then return none
  let top ← FileSystem.levelsAbove
  let mut here : Location := if path.startsWith "/" then Location.root top else {}
  for part in path.splitOn "/" do
    if part == "" || part == "." || part == ".." then
      if (← FileSystem.kind? here) != some .directory then return none
      if part == ".." then here := here.parentWithin top
    else here := here.child part
  return (← FileSystem.kind? here).map (here, ·)

/-! ## What the system refuses -/

/-- Why the system refuses to look up, open or make a location. -/
inductive PathFault where
  /-- The path holds the character NUL. -/
  | nul
  /-- The path, or a name the walk reached, is too long. -/
  | nameTooLong
  /-- A directory on the way does not exist. -/
  | notFound
  /-- A file stands where the walk needs a directory. -/
  | notADirectory
  /-- A directory stands where a file is needed. -/
  | isDirectory
  /-- Something already stands where a directory is to be made. -/
  | exists
deriving DecidableEq, Repr

/-- What a refusal says about the path `shown`. -/
def PathFault.message (shown : String) : PathFault → String
  | .nul => "embedded null byte"
  | .nameTooLong => "[Errno 36] File name too long: " ++ Text.quote shown
  | .notFound => "[Errno 2] No such file or directory: " ++ Text.quote shown
  | .notADirectory => "[Errno 20] Not a directory: " ++ Text.quote shown
  | .isDirectory => "[Errno 21] Is a directory: " ++ Text.quote shown
  | .exists => "[Errno 17] File exists: " ++ Text.quote shown

/-! ## Routes

A command that opens or makes a path hands the system the path with its `.`
and empty parts dropped, and the system walks what is left: `..` is a part like
any other, which moves up from the directory the walk has reached, so that
`x/../y` needs a directory `x`. -/

/-- A path as the system walks it: from the root or from the working
directory, through its parts in order, none of them `.` or empty. -/
structure Route where
  fromRoot : Bool := false
  parts : List String := []
deriving DecidableEq, Repr

namespace Route

/-- The route of a path: its `.` and empty parts dropped. -/
def ofPath (path : String) : Route :=
  { fromRoot := path.startsWith "/", parts := (path.splitOn "/").filter fun s => s != "" && s != "." }

/-- The route to an entry named below a route. -/
def child (r : Route) (name : String) : Route := { r with parts := r.parts ++ [name] }

/-- The route without its last part; a route without parts is its own. -/
def parent (r : Route) : Route := { r with parts := r.parts.dropLast }

/-- The text of a route: `.` for the working directory. -/
def text (r : Route) : String :=
  if r.fromRoot then "/" ++ "/".intercalate r.parts
  else if r.parts.isEmpty then "." else "/".intercalate r.parts

/-- The text of a route from the root, given that of the working directory. -/
def absolute (cwd : String) (r : Route) : String :=
  if r.fromRoot then r.text else "/".intercalate (cwd :: r.parts)

end Route

section Walks

variable {m : Type → Type} [Monad m] [FileSystem m]

/-- Walks parts from an entry that is there: each part is looked up in a
directory; `..` moves up, the root staying where it is; a name must be short
enough and must be there. The entry the walk ends at. -/
def walkParts (top : Nat) : Location → List String → m (Except PathFault Location)
  | here, [] => return .ok here
  | here, part :: rest => do
    if (← FileSystem.kind? here) != some .directory then return .error .notADirectory
    if part == ".." then walkParts top (here.parentWithin top) rest
    else if nameTooLong part then return .error .nameTooLong
    else
      let next := here.child part
      if (← FileSystem.kind? next).isNone then return .error .notFound
      walkParts top next rest

namespace Route

/-- Where a route starts. -/
def start (r : Route) : m Location := do
  if r.fromRoot then return Location.root (← FileSystem.levelsAbove) else return {}

/-- What a route's last part is looked up in: the directory its other parts
lead to, the system having been handed the route as the text `shown`. -/
def container (shown : String) (r : Route) : m (Except PathFault Location) := do
  if pathTooLong shown then return .error .nameTooLong
  let top ← FileSystem.levelsAbove
  match ← walkParts top (← r.start) r.parts.dropLast with
  | .error e => return .error e
  | .ok here =>
    if (← FileSystem.kind? here) != some .directory then return .error .notADirectory
    return .ok here

/-- What stands at the end of a route, if anything. -/
def lookup (shown : String) (r : Route) : m (Except PathFault (Option (Location × EntryKind))) := do
  let top ← FileSystem.levelsAbove
  match r.parts.getLast? with
  | none =>
    let here ← r.start
    return .ok ((← FileSystem.kind? here).map (here, ·))
  | some last =>
    match ← r.container shown with
    | .error e => return .error e
    | .ok dir =>
      let target := if last == ".." then dir.parentWithin top else dir.child last
      if last != ".." && nameTooLong last then return .error .nameTooLong
      return .ok ((← FileSystem.kind? target).map (target, ·))

/-- Whether a directory stands at the end of a route. -/
def isDirectory (shown : String) (r : Route) : m Bool := do
  match ← r.lookup shown with
  | .ok (some (_, .directory)) => return true
  | _ => return false

/-- Where writing a file at the end of a route writes: no directory may stand
there. -/
def openFile (shown : String) (r : Route) : m (Except PathFault Location) := do
  match r.parts.getLast? with
  | none => return (if pathTooLong shown then .error .nameTooLong else .error .isDirectory)
  | some last =>
    match ← r.container shown with
    | .error e => return .error e
    | .ok dir =>
      if last == ".." then return .error .isDirectory
      if nameTooLong last then return .error .nameTooLong
      let target := dir.child last
      if (← FileSystem.kind? target) == some .directory then return .error .isDirectory
      return .ok target

/-- Makes the directory at the end of a route, where nothing stands yet. -/
def makeDir (shown : String) (r : Route) : m (Except PathFault Unit) := do
  match r.parts.getLast? with
  | none => return (if pathTooLong shown then .error .nameTooLong else .error .exists)
  | some last =>
    match ← r.container shown with
    | .error e => return .error e
    | .ok dir =>
      if last == ".." then return .error .exists
      if nameTooLong last then return .error .nameTooLong
      let target := dir.child last
      if (← FileSystem.kind? target).isSome then return .error .exists
      FileSystem.makeDir target
      return .ok ()

/-- Makes a directory, and those it lies in as far as they are missing, the
way `mkdir -p` goes about it: when the directory cannot be made because a
directory above it is missing, the route one part shorter is made first, where
a directory already there is no fault, and the directory is made once more.
With `existOk` a directory already at the end is no fault either. A fault comes
with the route it arose at; `shown` gives the text each route is handed over as. -/
def makeAll (shown : Route → String) (r : Route) (existOk : Bool) :
    m (Except (PathFault × Route) Unit) := do
  let settle (e : PathFault) : m (Except (PathFault × Route) Unit) := do
    if existOk && (← r.isDirectory (shown r)) then return .ok () else return .error (e, r)
  match ← r.makeDir (shown r) with
  | .ok () => return .ok ()
  | .error .notFound =>
    if _h : r.parts = [] then return .error (.notFound, r)
    else
      match ← makeAll shown r.parent true with
      | .error e => return .error e
      | .ok () =>
        match ← r.makeDir (shown r) with
        | .ok () => return .ok ()
        | .error .notFound => return .error (.notFound, r)
        | .error e => settle e
  | .error e => settle e
termination_by r.parts.length
decreasing_by
  simp only [Route.parent, List.length_dropLast]
  have := List.length_pos_iff.mpr _h
  omega

end Route

end Walks

/-! ## Workspaces -/

/-- Files by their paths below the working directory, and their texts, with
the directories made besides those that hold a file. The working directory
lies `above` levels below the root, as a temporary directory such as
`/tmp/work` does. -/
structure Workspace where
  files : List (List String × String) := []
  dirs : List Location := []
  above : Nat := 2
deriving Inhabited

namespace Workspace

/-- Whether a directory was made at or below a location. -/
def madeBelow (w : Workspace) (p : Location) : Bool :=
  w.dirs.any fun d => d.up == p.up && p.parts.isPrefixOf d.parts

/-- What stands at a location: a file, or a directory when it was made or
files lie below it. -/
def kind? (w : Workspace) (p : Location) : Option EntryKind :=
  if p.parts.isEmpty then some .directory
  else if p.up > 0 then (if w.madeBelow p then some .directory else none)
  else if w.files.any (·.1 == p.parts) then some .file
  else if w.files.any (fun f => p.parts.isPrefixOf f.1) || w.madeBelow p then some .directory
  else none

/-- The text of the file at a location, empty when there is none. -/
def read (w : Workspace) (p : Location) : String :=
  ((w.files.find? (·.1 == p.parts)).map (·.2)).getD ""

/-- Writes a file, in place if it exists, after the others if not. Above the
working directory nothing is kept. -/
def write (w : Workspace) (p : Location) (text : String) : Workspace :=
  if p.up > 0 then w
  else if w.files.any (·.1 == p.parts) then
    { w with files := w.files.map fun f => if f.1 == p.parts then (f.1, text) else f }
  else { w with files := w.files ++ [(p.parts, text)] }

/-- Every location strictly below a directory: the files and the directories they lie in. -/
def below (w : Workspace) (p : Location) : List Location :=
  if p.up > 0 then []
  else
    let held := w.files.map (·.1) ++ (w.dirs.filter (·.up == 0)).map (·.parts)
    let paths := held.filter fun path => p.parts.isPrefixOf path && p.parts.length < path.length
    let all := paths.flatMap fun path =>
      ((List.range (path.length - p.parts.length)).map fun i => path.take (p.parts.length + i + 1))
    all.eraseDups.map fun parts => { parts }

end Workspace

/-- Commands run on a workspace change it as they write. -/
instance : FileSystem (StateM Workspace) where
  kind? p := return (← get).kind? p
  read p := return (← get).read p
  write p text := modify (·.write p text)
  makeDir p := modify fun w => { w with dirs := w.dirs ++ [p] }
  below p := return (← get).below p
  levelsAbove := return (← get).above

end EggFront
