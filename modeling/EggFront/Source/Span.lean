/-!
# Source positions and spans

A position is a 1-based line and column in a source text. Columns count code
points, so a tab, a carriage return or an emoji each take one column, and only a
line feed starts a new line.

A span names a stretch of one file by the line and column of its first character
and of its last one (for an empty stretch, both are the same point). Its numbers
are integers: the front end only makes positive ones, but a report may be asked
to point anywhere.
-/

namespace EggFront

/-- A place in a source text, 1-based. -/
structure Position where
  line : Nat
  col : Nat
deriving DecidableEq, Repr, Inhabited

namespace Position

/-- The place of the first character of a text. -/
def first : Position := ⟨1, 1⟩

/-- The place after reading one more character: a line feed moves to the start
of the next line, every other character one column to the right. -/
def next (p : Position) (c : Char) : Position :=
  if c = '\n' then ⟨p.line + 1, 1⟩ else ⟨p.line, p.col + 1⟩

/-- The place after reading a whole text. -/
def skip (p : Position) (cs : List Char) : Position :=
  cs.foldl next p

@[simp] theorem skip_nil (p : Position) : p.skip [] = p := rfl

@[simp] theorem skip_cons (p : Position) (c : Char) (cs : List Char) :
    p.skip (c :: cs) = (p.next c).skip cs := rfl

theorem skip_append (p : Position) (a b : List Char) :
    p.skip (a ++ b) = (p.skip a).skip b := by
  simp [skip, List.foldl_append]

/-- Reading characters that are not line feeds stays on the line and moves one
column per character. -/
theorem skip_of_no_newline (p : Position) (cs : List Char) (h : ∀ c ∈ cs, c ≠ '\n') :
    p.skip cs = ⟨p.line, p.col + cs.length⟩ := by
  induction cs generalizing p with
  | nil => rfl
  | cons c cs ih =>
    have hc : c ≠ '\n' := h c (List.mem_cons_self ..)
    rw [skip_cons, ih _ (fun d hd => h d (List.mem_cons_of_mem _ hd))]
    simp [next, hc]
    omega

/-- Source order: earlier line first, then earlier column. -/
def le (a b : Position) : Prop :=
  a.line < b.line ∨ (a.line = b.line ∧ a.col ≤ b.col)

instance (a b : Position) : Decidable (le a b) := by
  unfold le; exact inferInstance

end Position

/-- A stretch of one source file, from its first to its last character. -/
structure Span where
  file : String
  startLine : Int
  startCol : Int
  endLine : Int
  endCol : Int
deriving DecidableEq, Repr, Inhabited

namespace Span

/-- The empty stretch at one position. -/
def point (file : String) (p : Position) : Span :=
  ⟨file, p.line, p.col, p.line, p.col⟩

/-- The stretch from the start of `a` to the end of `b`, in the file of `a`. -/
def through (a b : Span) : Span :=
  ⟨a.file, a.startLine, a.startCol, b.endLine, b.endCol⟩

/-- `file:line:col` of the first character, as locations are written in reports. -/
def location (s : Span) : String :=
  s.file ++ ":" ++ toString s.startLine ++ ":" ++ toString s.startCol

/-- Whether the stretch starts and ends on one line. -/
def oneLine (s : Span) : Bool := s.startLine == s.endLine

end Span

end EggFront
