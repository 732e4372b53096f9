import EggFront.Proofs.Token.Spells
import EggFront.Syntax.Print

/-!
# Indenting keeps the tokens

`PrintStyle.indented` cuts a text into lines (`Text.lines`) and puts spaces
before each line that is not empty. A line feed ends every piece the scanner
takes (`textLexemes_lf`) and spaces give no token, so a text whose only line
breaks are line feeds, and that does not end with one, scans to the same
tokens and issues indented as it does bare, whatever follows it.

A text with another line break, such as a carriage return inside a string
literal, is cut there too, and indenting it writes spaces into the literal.
-/

namespace EggFront

/-! ## Texts that scan alike -/

/-- Two texts that give the same tokens and issues in front of any text. -/
def ScansAs (a b : List Char) : Prop :=
  ∀ r, textLexemes (a ++ r) = textLexemes (b ++ r) ∧ textIssues (a ++ r) = textIssues (b ++ r)

namespace ScansAs

variable {a a' b b' : List Char}

theorem refl (a : List Char) : ScansAs a a := fun _ => ⟨rfl, rfl⟩

/-- A text that scans as one that spells a word spells it too. -/
theorem spells (h : ScansAs a b) {w : List Lexeme} {f : Option Char} (hb : Spells b w f) :
    Spells a w f := by
  intro r hr
  rw [(h r).1, (h r).2]
  exact hb r hr

/-- Spaces in front of a text change nothing. -/
theorem spaces (n : Nat) (a : List Char) : ScansAs (List.replicate n ' ' ++ a) a := by
  intro r
  rw [List.append_assoc]
  simpa using spells_spaces n (f := (a ++ r).head?) (a ++ r) rfl

/-- The texts on either side of a line feed are scanned apart, so each can be
replaced by one that scans alike. -/
theorem lf (ha : ScansAs a a') (hb : ScansAs b b') : ScansAs (a ++ '\n' :: b) (a' ++ '\n' :: b') := by
  intro r
  obtain ⟨h₁, h₂⟩ := textLexemes_lf a (b ++ r)
  obtain ⟨h₃, h₄⟩ := textLexemes_lf a' (b' ++ r)
  rw [List.append_assoc, List.append_assoc, List.cons_append, List.cons_append, h₁, h₂, h₃, h₄,
    (ha _).1, (ha _).2, (hb r).1, (hb r).2]
  exact ⟨rfl, rfl⟩

end ScansAs

/-! ## Lines -/

/-- Whether the only line breaks of a text are line feeds. -/
def onlyLineFeeds (cs : List Char) : Bool := cs.all fun c => c = '\n' || !Text.isLineBreak c

/-- A line as `indented` writes it: spaces before it, unless it is empty. -/
def padLine (n : Nat) (l : List Char) : List Char := if l = [] then [] else List.replicate n ' ' ++ l

theorem scansAs_padLine (n : Nat) (l : List Char) : ScansAs (padLine n l) l := by
  unfold padLine
  split
  · rename_i h
    rw [h]
    exact ScansAs.refl []
  · exact ScansAs.spaces n l

theorem indented_toList (st : PrintStyle) (s : String) :
    (st.indented s).toList = ['\n'].intercalate ((Text.linesFrom s.toList []).map (padLine st.indent)) := by
  simp only [PrintStyle.indented, Text.lines, String.toList_intercalate, List.map_map]
  congr 1
  apply List.map_congr_left
  intro l _
  by_cases hl : l = [] <;> simp [padLine, hl]

theorem linesFrom_ne_nil {cs acc : List Char} (h : cs ≠ [] ∨ acc ≠ []) : Text.linesFrom cs acc ≠ [] := by
  fun_induction Text.linesFrom cs acc with
  | case1 line hl => simp_all
  | case2 | case3 | case4 => simp
  | case5 c r line _ _ ih => exact ih (.inr (List.cons_ne_nil c line))

theorem getLast?_ne_of_cons {c d : Char} {r : List Char} (h : (c :: r).getLast? ≠ some d) :
    r.getLast? ≠ some d := by
  cases r with
  | nil => simp
  | cons x r => simpa [List.getLast?_cons_cons] using h

/-- The lines of a text, padded and joined again, scan as the text itself. -/
theorem linesFrom_scansAs (n : Nat) (cs acc : List Char) (h₁ : onlyLineFeeds cs = true)
    (h₂ : cs.getLast? ≠ some '\n') :
    ScansAs (['\n'].intercalate ((Text.linesFrom cs acc).map (padLine n))) (acc.reverse ++ cs) := by
  fun_induction Text.linesFrom cs acc with
  | case1 line hl =>
    simp only [List.isEmpty_iff] at hl
    subst hl
    exact ScansAs.refl []
  | case2 line _ =>
    simpa using scansAs_padLine n line.reverse
  | case3 r line _ =>
    -- a carriage return is a line break other than a line feed
    simp [onlyLineFeeds, Text.isLineBreak] at h₁
  | case4 c r line _ hc ih =>
    have hlf : c = '\n' := by
      simp only [onlyLineFeeds, List.all_cons, Bool.and_eq_true, Bool.or_eq_true, decide_eq_true_eq,
        hc, Bool.not_true, Bool.false_eq_true, or_false] at h₁
      exact h₁.1
    subst hlf
    -- the line feed is not the last character, so lines follow it
    have hr : r ≠ [] := by
      rintro rfl
      exact h₂ rfl
    have hrest : (Text.linesFrom r []).map (padLine n) ≠ [] := by
      simpa using linesFrom_ne_nil (.inl hr)
    rw [List.map_cons, List.intercalate_cons_of_ne_nil hrest]
    simp only [List.append_assoc, List.singleton_append, List.nil_append, List.reverse_nil] at ih ⊢
    refine (scansAs_padLine n line.reverse).lf (ih ?_ (getLast?_ne_of_cons h₂))
    simp only [onlyLineFeeds, List.all_cons, Bool.and_eq_true] at h₁
    exact h₁.2
  | case5 c r line _ _ ih =>
    simp only [onlyLineFeeds, List.all_cons, Bool.and_eq_true] at h₁
    simpa using ih h₁.2 (getLast?_ne_of_cons h₂)

/-! ## Indenting -/

theorem all_intercalate_lf {p : Char → Bool} (hp : p '\n' = true) (xs : List (List Char)) :
    (['\n'].intercalate xs).all p = xs.all (·.all p) := by
  induction xs with
  | nil => rfl
  | cons x xs ih =>
    cases xs with
    | nil => simp
    | cons y ys =>
      rw [List.intercalate_cons_cons]
      simp [ih, hp]

/-- Every line holds characters of the text or of the line begun before it. -/
theorem linesFrom_all {p : Char → Bool} {cs acc : List Char} (hcs : cs.all p = true)
    (hacc : acc.all p = true) : ∀ l ∈ Text.linesFrom cs acc, l.all p = true := by
  fun_induction Text.linesFrom cs acc with
  | case1 => simp
  | case2 line _ => simpa using hacc
  | case3 r line ih =>
    simp only [List.all_cons, Bool.and_eq_true] at hcs
    intro l hl
    rcases List.mem_cons.1 hl with rfl | hl
    · simpa using hacc
    · exact ih hcs.2.2 rfl l hl
  | case4 c r line _ _ ih =>
    simp only [List.all_cons, Bool.and_eq_true] at hcs
    intro l hl
    rcases List.mem_cons.1 hl with rfl | hl
    · simpa using hacc
    · exact ih hcs.2 rfl l hl
  | case5 c r line _ _ ih =>
    simp only [List.all_cons, Bool.and_eq_true] at hcs
    exact ih hcs.2 (by simp [hcs.1, hacc])

namespace PrintStyle

variable (st : PrintStyle) {s : String}

/-- Indenting a text whose only line breaks are line feeds, and that does not end
with one, keeps its tokens and issues. -/
theorem indented_scansAs (h₁ : onlyLineFeeds s.toList = true) (h₂ : s.toList.getLast? ≠ some '\n') :
    ScansAs (st.indented s).toList s.toList := by
  rw [indented_toList]
  simpa using linesFrom_scansAs st.indent s.toList [] h₁ h₂

/-- Indenting adds only spaces and line feeds. -/
theorem onlyLineFeeds_indented (h : onlyLineFeeds s.toList = true) :
    onlyLineFeeds (st.indented s).toList = true := by
  rw [indented_toList, onlyLineFeeds, all_intercalate_lf (by rfl), List.all_eq_true]
  intro l' hl'
  obtain ⟨l, hl, rfl⟩ := List.mem_map.1 hl'
  have hall := linesFrom_all h (List.all_nil) l hl
  unfold padLine
  split
  · rfl
  · simp only [List.all_append, hall, Bool.and_true]
    simp [List.all_replicate, Text.isLineBreak]

end PrintStyle

end EggFront
