import Mathlib
import EggFront.Diagnostic.Render

/-!
# Where an excerpt's carets stand

A report quotes the line a label starts on under a numbered gutter and, for a
label on one line, draws a row of carets under it (`Renderer.excerpt`). This
module says exactly what the two rows hold, character by character.

* The quoted line is the line of the registered text as `Text.lines` cuts it.
  When the only line breaks of the text are line feeds, it is the line the
  scanner numbers the same way (`Text.lines_getElem?_of_feedsOnly`): a scanned
  text starts a line at each line feed and nowhere else.
* In the numbered row, `  1234 | ` comes before the line, so the line's column
  `c` stands at output column `8 + c` (counted from 0).
* In the caret row, `      | ` is one character shorter, so the caret for
  column `c` stands at output column `7 + c`: every caret stands one column to
  the left of the character it marks (`Renderer.excerpt_rows`).
-/

namespace EggFront

/-! ## Lines -/

namespace Text

/-- A text whose only line breaks are line feeds. -/
def FeedsOnly (cs : List Char) : Prop := ∀ c ∈ cs, isLineBreak c = true → c = '\n'

theorem FeedsOnly.of_cons {c : Char} {cs : List Char} (h : FeedsOnly (c :: cs)) : FeedsOnly cs :=
  fun d hd => h d (List.mem_cons_of_mem c hd)

-- `linesFrom` is unfolded by `eq_def`: its equations split the overlapping patterns, slowly
theorem linesFrom_nil (line : List Char) : linesFrom [] line = if line.isEmpty then [] else [line.reverse] := by
  rw [linesFrom.eq_def]

theorem linesFrom_cons {c : Char} (hc : c ≠ '\r') (r line : List Char) :
    linesFrom (c :: r) line =
      if isLineBreak c then line.reverse :: linesFrom r [] else linesFrom r (c :: line) := by
  rw [linesFrom.eq_def]
  split
  · rename_i heq
    cases heq
  · rename_i heq
    exact absurd (List.cons.inj heq).1 hc
  · rename_i heq
    obtain ⟨rfl, rfl⟩ := List.cons.inj heq
    rfl

/-- Where line feeds are the only breaks, the lines are the text cut at its line
feeds, but for an empty last one. -/
theorem linesFrom_prefix_splitOn : ∀ {cs : List Char}, FeedsOnly cs → ∀ line : List Char,
    linesFrom cs line <+: List.splitOnPPrepend (· == '\n') cs line
  | [], _, line => by
    rw [linesFrom_nil, List.splitOnPPrepend_nil]
    split
    · exact List.nil_prefix
    · exact List.prefix_refl _
  | c :: r, h, line => by
    have hc : c ≠ '\r' := fun hc => absurd (h c List.mem_cons_self (by rw [hc]; decide)) (by rw [hc]; decide)
    rw [linesFrom_cons hc, List.splitOnPPrepend_cons_eq_if]
    by_cases hlf : c = '\n'
    · subst hlf
      simp only [show isLineBreak '\n' = true from rfl, if_true, beq_self_eq_true]
      exact List.prefix_cons_inj _ |>.2 (linesFrom_prefix_splitOn h.of_cons [])
    · have hbr : isLineBreak c = false := Bool.eq_false_iff.2 fun hb => hlf (h c List.mem_cons_self hb)
      simp only [hbr, Bool.false_eq_true, if_false, beq_iff_eq, hlf]
      exact linesFrom_prefix_splitOn h.of_cons (c :: line)

/-- **Reports count lines as the scanner does** when line feeds are the only
breaks: each line that `Text.lines` has is the text's line between line feeds
with that number. -/
theorem lines_getElem?_of_feedsOnly {s : String} (h : FeedsOnly s.toList) {n : Nat}
    (hn : n < (lines s).length) :
    ((lines s)[n]?).map String.toList = (s.toList.splitOn '\n')[n]? := by
  obtain ⟨t, ht⟩ := linesFrom_prefix_splitOn h []
  simp only [lines, List.length_map] at hn
  simp only [lines, List.getElem?_map, Option.map_map, Function.comp_def, String.toList_ofList, Option.map_id']
  rw [List.splitOn, List.splitOnP, ← ht, List.getElem?_append_left hn]

end Text

/-! ## The book of sources -/

namespace SourceBook

/-- A registered text is the one its file name finds. -/
theorem line?_register (b : SourceBook) (file text : String) (n : Int) :
    (b.register file text).line? file n = if 1 ≤ n then (Text.lines text)[(n - 1).toNat]? else none := by
  simp [register, line?]

end SourceBook

/-! ## Rows of an excerpt -/

namespace Renderer

/-- A line number below 10000 fills the gutter's four columns. -/
theorem gutterNumber_length {n : Int} (h0 : 0 ≤ n) (h : n < 10000) : (gutterNumber n).toList.length = 4 := by
  have hrepr : (toString n).length ≤ 4 := by
    rw [Int.toString_eq_repr, Int.repr_eq_if, if_pos h0, Nat.length_repr_le_iff (by decide)]
    omega
  simp only [gutterNumber, spaces, String.toList_append, String.toList_ofList, List.length_append,
    List.length_replicate, String.length_toList]
  omega

/-- A caret row: the frame, the blank columns before the carets, then the carets. -/
theorem getElem?_carets_eq_caret {pre : List Char} (hpre : '^' ∉ pre) (k w i : Nat) :
    (pre ++ List.replicate k ' ' ++ List.replicate w '^')[i]? = some '^' ↔
      pre.length + k ≤ i ∧ i < pre.length + k + w := by
  rcases Nat.lt_or_ge i pre.length with hi | hi
  · rw [List.append_assoc, List.getElem?_append_left hi]
    constructor
    · intro h
      exact absurd (List.mem_of_getElem? h) hpre
    · omega
  rw [List.append_assoc, List.getElem?_append_right hi]
  rcases Nat.lt_or_ge (i - pre.length) k with hk | hk
  · rw [List.getElem?_append_left (by simpa using hk), List.getElem?_replicate]
    simp only [if_pos hk, Option.some.injEq]
    constructor
    · intro h
      cases h
    · omega
  · rw [List.getElem?_append_right (by simpa using hk), List.getElem?_replicate]
    simp only [List.length_replicate]
    split <;> simp <;> omega

/-- The gutter is four columns wide, or as wide as the line number when it has
more digits: `f'{n:>4}'` pads and never cuts. -/
theorem gutterNumber_length_eq (n : Int) : (gutterNumber n).length = max 4 (toString n).length := by
  simp only [gutterNumber, spaces, String.length_append, String.length_ofList, List.length_replicate]
  omega

/-- In a numbered row, the quoted line follows the gutter, `g` columns wide, and
five columns of frame, so its column `c` stands at output column `g + 4 + c`. -/
theorem numberedRow_getElem? (n : Int) (line : String) {c : Nat} (hc : 1 ≤ c) :
    ("  " ++ (gutterNumber n ++ " |") ++ " " ++ line).toList[(gutterNumber n).length + 4 + c]? =
      line.toList[c - 1]? := by
  have hpre : ("  " ++ (gutterNumber n ++ " |") ++ " ").toList.length = (gutterNumber n).length + 5 := by
    simp
    rw [String.length_toList]
  rw [String.toList_append (s := "  " ++ (gutterNumber n ++ " |") ++ " "),
    List.getElem?_append_right (by omega), hpre,
    show (gutterNumber n).length + 4 + c - ((gutterNumber n).length + 5) = c - 1 by omega]

/-- In a caret row, the carets follow the eight columns `      | ` and the blanks
before the first column `s`, so the caret for column `c` stands at output
column `7 + c`. -/
theorem caretRow_getElem?_eq_caret {s w : Int} (hs : 1 ≤ s) (hw : 1 ≤ w) (i : Nat) :
    ("  " ++ "    |" ++ " " ++ spaces (s - 1) ++ String.ofList (List.replicate w.toNat '^')).toList[i]? =
        some '^' ↔ ∃ c : Int, s ≤ c ∧ c < s + w ∧ (i : Int) + 1 = 8 + c := by
  have hrow : ("  " ++ "    |" ++ " " ++ spaces (s - 1) ++ String.ofList (List.replicate w.toNat '^')).toList =
      ("  " ++ "    |" ++ " ").toList ++ List.replicate (s - 1).toNat ' ' ++ List.replicate w.toNat '^' := by
    simp only [spaces, String.toList_append, String.toList_ofList]
  have hframe : ("  " ++ "    |" ++ " ").toList.length = 8 := by simp
  rw [hrow, getElem?_carets_eq_caret (by simp), hframe]
  constructor
  · rintro ⟨h₁, h₂⟩
    exact ⟨(i : Int) - 7, by omega, by omega, by omega⟩
  · rintro ⟨c, h₁, h₂, h₃⟩
    omega

/-- The arrow and the empty frame row that open every excerpt. -/
theorem frame_rows : "  " ++ "-->" ++ " " = "  --> " ∧ "  " ++ "    |" = "      |" := by simp

/-- Without colour, a label on one line whose line the book holds gets the
location, the frame, the numbered row and the caret row. -/
theorem excerpt_of_line {r : Renderer} (hcolor : r.color = false) (sev : Severity) {l : Label} {line : String}
    (hone : l.span.startLine = l.span.endLine)
    (hbook : r.sources.line? l.span.file l.span.startLine = some line) :
    r.excerpt sev l =
      ("  --> " ++ l.span.location) :: "      |" ::
        ("  " ++ (gutterNumber l.span.startLine ++ " |") ++ " " ++ line) ::
        ("  " ++ "    |" ++ " " ++ spaces (l.span.startCol - 1) ++
          String.ofList (List.replicate (max 1 (min l.span.endCol line.length - l.span.startCol + 1)).toNat '^')) ::
        (if l.message.isEmpty then [] else ["  " ++ "    |" ++ "   " ++ l.message]) := by
  have hsame : (l.span.startLine == l.span.endLine) = true := by simp [hone]
  simp only [excerpt, paint, hcolor, Bool.false_eq_true, if_false, hbook, hsame, if_true,
    frame_rows.1, frame_rows.2, List.cons_append, List.nil_append]

/-- Without colour, a label whose line the book does not hold gets no quoted row.
So a report at the end of a text that ends with a line break quotes nothing:
`Text.lines` has no empty line after the last break. -/
theorem excerpt_of_no_line {r : Renderer} (hcolor : r.color = false) (sev : Severity) {l : Label}
    (hbook : r.sources.line? l.span.file l.span.startLine = none) :
    r.excerpt sev l =
      ("  --> " ++ l.span.location) :: "      |" ::
        (if l.message.isEmpty then [] else ["  " ++ "    |" ++ "   " ++ l.message]) := by
  simp only [excerpt, paint, hcolor, Bool.false_eq_true, if_false, hbook, frame_rows.1, frame_rows.2,
    List.cons_append, List.nil_append]

/-- **Where the carets stand, for any line number.** Take the report of a label
on one line, with the text of its file registered, a first column of at least 1
and a line number that the text has. Its excerpt gives the location, the frame,
the numbered row and the caret row. The numbered row quotes the text's line
(the scanner's line of that number when only line feeds break lines), with the
line's column `c` at output column `g + 4 + c`, where `g` is the gutter's width:
four columns, or the line number's digits when it has more
(`gutterNumber_length_eq`). The caret row keeps a frame of four columns whatever
the gutter: it has a caret at output column `i` exactly when `i + 1 = 8 + c` for
a column `c` from the label's first column to its last one, cut at the end of the
line. So each caret stands `g - 3` columns left of the character it marks: one
below line 10000, two from there to line 99999, and so on. -/
theorem excerpt_rows_gutter (b : SourceBook) (file text : String) (sev : Severity) (l : Label)
    (hfile : l.span.file = file) (hone : l.span.startLine = l.span.endLine)
    (hn : 1 ≤ l.span.startLine) (hlines : l.span.startLine ≤ (Text.lines text).length)
    (hcol : 1 ≤ l.span.startCol) :
    ∃ line lineRow caretRow rest,
      ({ color := false, sources := b.register file text } : Renderer).excerpt sev l =
        ("  --> " ++ l.span.location) :: "      |" :: lineRow :: caretRow :: rest ∧
      (Text.lines text)[(l.span.startLine - 1).toNat]? = some line ∧
      (Text.FeedsOnly text.toList →
        (text.toList.splitOn '\n')[(l.span.startLine - 1).toNat]? = some line.toList) ∧
      (∀ c : Nat, 1 ≤ c →
        lineRow.toList[(gutterNumber l.span.startLine).length + 4 + c]? = line.toList[c - 1]?) ∧
      (∀ i : Nat, caretRow.toList[i]? = some '^' ↔
        ∃ c : Int, l.span.startCol ≤ c ∧ c ≤ max l.span.startCol (min l.span.endCol line.length) ∧
          (i : Int) + 1 = 8 + c) := by
  obtain ⟨line, hline⟩ : ∃ line, (Text.lines text)[(l.span.startLine - 1).toNat]? = some line :=
    ⟨_, List.getElem?_eq_getElem (by omega)⟩
  have hbook : (b.register file text).line? l.span.file l.span.startLine = some line := by
    rw [hfile, SourceBook.line?_register, if_pos hn, hline]
  refine ⟨line, _, _, _, excerpt_of_line rfl sev hone hbook, hline, fun h => ?_,
    fun c hc => numberedRow_getElem? _ line hc, fun i => ?_⟩
  · have hget := Text.lines_getElem?_of_feedsOnly h (n := (l.span.startLine - 1).toNat) (by omega)
    rw [hline] at hget
    exact hget.symm
  · -- the carets run from the first column for as many columns as the row is wide
    rw [caretRow_getElem?_eq_caret hcol (by omega)]
    constructor
    · rintro ⟨c, h₁, h₂, h₃⟩
      exact ⟨c, h₁, by omega, h₃⟩
    · rintro ⟨c, h₁, h₂, h₃⟩
      exact ⟨c, h₁, by omega, h₃⟩

/-- **Where the carets stand.** Take the report of a label on one line, with the
text of its file registered, a first column of at least 1 and a line number
that the text has and that fits the gutter. Its excerpt gives the location, the
frame, the numbered row and the caret row. The numbered row quotes the text's
line (the scanner's line of that number when only line feeds break lines),
with the line's column `c` at output column `8 + c`. The caret row has a caret
at output column `i` exactly when `i + 1 = 8 + c` for a column `c` from the
label's first column to its last one, cut at the end of the line: each caret
stands one column left of the character it marks. -/
theorem excerpt_rows (b : SourceBook) (file text : String) (sev : Severity) (l : Label)
    (hfile : l.span.file = file) (hone : l.span.startLine = l.span.endLine)
    (hn : 1 ≤ l.span.startLine) (hlines : l.span.startLine ≤ (Text.lines text).length)
    (hgutter : l.span.startLine < 10000) (hcol : 1 ≤ l.span.startCol) :
    ∃ line lineRow caretRow rest,
      ({ color := false, sources := b.register file text } : Renderer).excerpt sev l =
        ("  --> " ++ l.span.location) :: "      |" :: lineRow :: caretRow :: rest ∧
      (Text.lines text)[(l.span.startLine - 1).toNat]? = some line ∧
      (Text.FeedsOnly text.toList →
        (text.toList.splitOn '\n')[(l.span.startLine - 1).toNat]? = some line.toList) ∧
      (∀ c : Nat, 1 ≤ c → lineRow.toList[8 + c]? = line.toList[c - 1]?) ∧
      (∀ i : Nat, caretRow.toList[i]? = some '^' ↔
        ∃ c : Int, l.span.startCol ≤ c ∧ c ≤ max l.span.startCol (min l.span.endCol line.length) ∧
          (i : Int) + 1 = 8 + c) := by
  obtain ⟨line, lineRow, caretRow, rest, hex, hline, hsplit, hrow, hcaret⟩ :=
    excerpt_rows_gutter b file text sev l hfile hone hn hlines hcol
  -- below line 10000 the gutter is four columns wide
  have hwidth : (gutterNumber l.span.startLine).length = 4 := by
    rw [← String.length_toList, gutterNumber_length (by omega) hgutter]
  refine ⟨line, lineRow, caretRow, rest, hex, hline, hsplit, fun c hc => ?_, hcaret⟩
  rw [← hrow c hc, hwidth]

/-- A name declared twice, reported on the second line of its text: that line
is there to quote, and the excerpt's rows are as `excerpt_rows` says. -/
theorem excerpt_rows_redeclared :
    (2 : Int) ≤ (Text.lines "int x;\nint x;").length ∧
    ∃ line lineRow caretRow rest,
      ({ color := false, sources := SourceBook.register {} "<input>" "int x;\nint x;" } : Renderer).excerpt
          .error ⟨⟨"<input>", 2, 5, 2, 5⟩, ""⟩ =
        ("  --> " ++ Span.location ⟨"<input>", 2, 5, 2, 5⟩) :: "      |" :: lineRow :: caretRow :: rest ∧
      (Text.lines "int x;\nint x;")[((2 : Int) - 1).toNat]? = some line ∧
      (Text.FeedsOnly "int x;\nint x;".toList →
        ("int x;\nint x;".toList.splitOn '\n')[((2 : Int) - 1).toNat]? = some line.toList) ∧
      (∀ c : Nat, 1 ≤ c → lineRow.toList[8 + c]? = line.toList[c - 1]?) ∧
      (∀ i : Nat, caretRow.toList[i]? = some '^' ↔
        ∃ c : Int, (5 : Int) ≤ c ∧ c ≤ max 5 (min 5 (line.length : Int)) ∧ (i : Int) + 1 = 8 + c) :=
  ⟨by decide, excerpt_rows {} "<input>" "int x;\nint x;" .error ⟨⟨"<input>", 2, 5, 2, 5⟩, ""⟩ rfl rfl
    (by decide) (by decide) (by decide) (by decide)⟩

end Renderer

end EggFront
