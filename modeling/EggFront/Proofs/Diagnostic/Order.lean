import Mathlib
import EggFront.Proofs.Binding.Chains
import EggFront.Proofs.Token.Numbers

/-!
# Reports in source order

A diagnostic stands at the place where its first label starts
(`Diagnostic.place`), by line and then by column. Every stage of the front end
reports in source order: the scanner at places that strictly increase, the parser
and name resolution at places that never go back.

This module holds what the three proofs share, diagnostics in order between two
places (`Diagnostic.Ordered`), with the rules that join such runs of reports, and
the scanner's order: each piece of the text reports at most one issue, at the place
where the piece starts, and the next piece starts strictly later
(`scanFrom_diagnostics_ordered`).
-/

namespace EggFront

/-! ## Diagnostics in order -/

/-- The diagnostics `ds` come in order of place, each from `lo` to `hi`. -/
def Diagnostic.Ordered (ds : List Diagnostic) (lo hi : Lex (Int × Int)) : Prop :=
  lo ≤ hi ∧ (∀ d ∈ ds, lo ≤ d.place ∧ d.place ≤ hi) ∧ ds.Pairwise (fun a b => a.place ≤ b.place)

namespace Diagnostic.Ordered

variable {ds ds' : List Diagnostic} {lo mid hi lo' hi' : Lex (Int × Int)}

theorem nil (h : lo ≤ hi) : Ordered [] lo hi := ⟨h, by simp, .nil⟩

theorem single {d : Diagnostic} (h₁ : lo ≤ d.place) (h₂ : d.place ≤ hi) : Ordered [d] lo hi :=
  ⟨h₁.trans h₂, by simp [h₁, h₂], List.pairwise_singleton _ _⟩

theorem mono (h : Ordered ds lo hi) (hlo : lo' ≤ lo) (hhi : hi ≤ hi') : Ordered ds lo' hi' :=
  ⟨hlo.trans (h.1.trans hhi), fun d hd => ⟨hlo.trans (h.2.1 d hd).1, (h.2.1 d hd).2.trans hhi⟩, h.2.2⟩

/-- Reports up to a place, then reports from it on, are in order. -/
theorem append (h : Ordered ds lo mid) (h' : Ordered ds' mid hi) : Ordered (ds ++ ds') lo hi := by
  refine ⟨h.1.trans h'.1, fun d hd => ?_, List.pairwise_append.2 ⟨h.2.2, h'.2.2, fun a ha b hb => ?_⟩⟩
  · rcases List.mem_append.1 hd with hd | hd
    · exact ⟨(h.2.1 d hd).1, (h.2.1 d hd).2.trans h'.1⟩
    · exact ⟨h.1.trans (h'.2.1 d hd).1, (h'.2.1 d hd).2⟩
  · exact (h.2.1 a ha).2.trans (h'.2.1 b hb).1

end Diagnostic.Ordered

/-! ## Scanning -/

/-- The place of a position of the text. -/
def Position.place (p : Position) : Lex (Int × Int) := toLex ((p.line : Int), (p.col : Int))

@[simp] theorem ScanIssue.place_toDiagnostic (i : ScanIssue) (file : String) (p : Position) :
    (i.toDiagnostic file p).place = p.place := rfl

/-- A piece of text that is not empty ends at a later place. -/
theorem Position.place_lt_skip (p : Position) {m : List Char} (hm : m ≠ []) :
    p.place < (p.skip m).place := by
  have h := p.lt_skip hm
  simp only [Position.place, Prod.Lex.toLex_lt_toLex]
  omega

/-- Scanning from `p` reports at places from `p` on, each strictly after the one
before: by induction on the pieces, each reporting at its own start. -/
theorem scanFrom_diagnostics_ordered (file : String) (cs : List Char) (p : Position) :
    (∀ d ∈ (scanFrom file cs p).diagnostics, p.place ≤ d.place) ∧
      (scanFrom file cs p).diagnostics.Pairwise (fun a b => a.place < b.place) := by
  fun_induction scanFrom file cs p with
  | case1 p => simp
  | case2 p c r pc q s span ih =>
    obtain ⟨hge, hsorted⟩ := ih
    have hlt : p.place < q.place := p.place_lt_skip (List.cons_ne_nil c pc.more)
    -- the piece's own issue, if any, stands at `p`
    have hown : ∀ d ∈ (pc.issue.map fun i => i.toDiagnostic file p).toList, d.place = p.place := by
      intro d hd
      simp only [Option.mem_toList, Option.map_eq_some_iff] at hd
      obtain ⟨i, -, rfl⟩ := hd
      rfl
    refine ⟨fun d hd => ?_, List.pairwise_append.2 ⟨?_, hsorted, fun a ha b hb => ?_⟩⟩
    · rcases List.mem_append.1 hd with hd | hd
      · exact (hown d hd).ge
      · exact hlt.le.trans (hge d hd)
    · cases pc.issue <;> simp
    · rw [hown a ha]
      exact lt_of_lt_of_le hlt (hge b hb)

/-- **The scanner reports in order.** The diagnostics of a scan come at strictly
increasing places. -/
theorem scan_diagnostics_ordered (file s : String) :
    (scan file s).diagnostics.Pairwise (fun a b => a.place < b.place) :=
  (scanFrom_diagnostics_ordered file s.toList Position.first).2

end EggFront
