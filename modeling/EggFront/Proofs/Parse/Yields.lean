import EggFront.Proofs.Grammar

/-!
# Clean readings and binding powers

Both directions of "the parser accepts its grammar" are told in terms of one
notion: a reading `r` *yields* `a` before `rest` when it read `a`, stopped with
`rest` left, and recovered from no error on the way (`Reading.Yields`). A parse
of a whole program succeeds exactly when every reading along the way is clean,
so the recovering branches of the loops never take part.

The second half relates the parser's binding powers to the levels of the
grammar (`Grammar.ExpOf`): reading with power `m` reads expressions of level
`powerLevel m`, an operator read at that power builds an expression of its own
`Infix.level`, and its right operand is read at the power of level
`Infix.rightLevel`. `leftLevel_le_level` is the one fact about the table that
makes the loop correct: the operator after a right operand can always take what
was built so far as its left operand, unless it is a second comparison.
-/

namespace EggFront

namespace Reading

variable {ts : List Token} {α β : Type}

/-- The reading read `a` and stopped before `rest`, with no error on the way. -/
def Yields (r : Reading ts α) (a : α) (rest : List Token) : Prop :=
  r.result = .ok a ∧ r.rest = rest ∧ r.errors = []

@[simp] theorem ok_yields {a b : α} {rest : List Token} :
    (Reading.ok a ts).Yields b rest ↔ a = b ∧ ts = rest := by
  simp [Yields, Reading.ok]

@[simp] theorem fail_yields {e : SyntaxError} {a : α} {rest : List Token} :
    ¬(Reading.fail e ts : Reading ts α).Yields a rest := by
  simp [Yields, Reading.fail]

@[simp] theorem widen_yields {s : List Token} (r : Reading s α) (h : s <:+ ts) {a : α}
    {rest : List Token} : (r.widen h).Yields a rest ↔ r.Yields a rest := Iff.rfl

@[simp] theorem after_yields (t : Token) (r : Reading ts α) {a : α} {rest : List Token} :
    (r.after t).Yields a rest ↔ r.Yields a rest := Iff.rfl

@[simp] theorem note_yields (es : List SyntaxError) (r : Reading ts α) {a : α}
    {rest : List Token} : (r.note es).Yields a rest ↔ es = [] ∧ r.Yields a rest := by
  simp only [Yields, note, List.append_eq_nil_iff]
  constructor
  · rintro ⟨h1, h2, h3, h4⟩
    exact ⟨h3, h1, h2, h4⟩
  · rintro ⟨h3, h1, h2, h4⟩
    exact ⟨h1, h2, h3, h4⟩

@[simp] theorem map_yields (f : α → β) (r : Reading ts α) {b : β} {rest : List Token} :
    (r.map f).Yields b rest ↔ ∃ a, r.Yields a rest ∧ f a = b := by
  obtain ⟨res, s, es, h⟩ := r
  cases res with
  | error e => simp [Yields, map, Except.map]
  | ok a =>
    simp only [Yields, map, Except.map, Except.ok.injEq]
    constructor
    · rintro ⟨rfl, rfl, rfl⟩
      exact ⟨a, ⟨rfl, rfl, rfl⟩, rfl⟩
    · rintro ⟨a', ⟨rfl, rfl, rfl⟩, rfl⟩
      exact ⟨rfl, rfl, rfl⟩

/-- A reading followed by another is clean when the first is, and the second is
from where the first stopped. -/
theorem andThen_yields (r : Reading ts α)
    (k : (a : α) → (s : List Token) → s <:+ ts → Reading s β) {b : β} {rest : List Token} :
    (r.andThen k).Yields b rest ↔ ∃ a, r.Yields a r.rest ∧ (k a r.rest r.suffix).Yields b rest := by
  obtain ⟨res, s, es, h⟩ := r
  cases res with
  | error e => simp [andThen, Yields]
  | ok a =>
    simp only [andThen, note_yields, widen_yields]
    constructor
    · rintro ⟨rfl, hk⟩
      exact ⟨a, ⟨rfl, rfl, rfl⟩, hk⟩
    · rintro ⟨a', ⟨h1, -, rfl⟩, hk⟩
      cases h1
      exact ⟨rfl, hk⟩

/-- The two readings of a clean `andThen`, with where the first stopped as a
variable, so that a continuation that looks at it can be taken apart. -/
theorem Yields.of_andThen {r : Reading ts α}
    {k : (a : α) → (s : List Token) → s <:+ ts → Reading s β} {b : β} {rest : List Token}
    (h : (r.andThen k).Yields b rest) :
    ∃ a s, ∃ hs : s <:+ ts, r.Yields a s ∧ (k a s hs).Yields b rest := by
  obtain ⟨a, ha, hk⟩ := (andThen_yields r k).1 h
  exact ⟨a, r.rest, r.suffix, ha, hk⟩

@[simp] theorem ok_andThen_yields (a : α)
    (k : (a : α) → (s : List Token) → s <:+ ts → Reading s β) {b : β} {rest : List Token} :
    ((Reading.ok a ts).andThen k).Yields b rest ↔ (k a ts (List.suffix_refl ts)).Yields b rest := by
  simp only [Reading.ok, andThen, note_yields, widen_yields, true_and]

theorem andThen_yields_of {r : Reading ts α}
    {k : (a : α) → (s : List Token) → s <:+ ts → Reading s β} {a : α} {s : List Token}
    {b : β} {rest : List Token} (hr : r.Yields a s) (hk : ∀ h, (k a s h).Yields b rest) :
    (r.andThen k).Yields b rest := by
  obtain ⟨res, s', es, h⟩ := r
  obtain ⟨h1, h2, h3⟩ := hr
  simp only at h1 h2 h3
  subst h1 h2 h3
  exact (andThen_yields _ _).2 ⟨a, ⟨rfl, rfl, rfl⟩, hk h⟩

/-- What a clean reading leaves is a suffix of what it started on. -/
theorem Yields.suffix {r : Reading ts α} {a : α} {s : List Token} (h : r.Yields a s) : s <:+ ts :=
  h.2.1 ▸ r.suffix

/-! ## Readings that go on as others -/

/-- `r` goes on as `r'` does: whatever `r'` reads cleanly, `r` reads cleanly
too, stopping at the same place. -/
def Continues {ts' : List Token} (r : Reading ts α) (r' : Reading ts' α) : Prop :=
  ∀ a rest, r'.Yields a rest → r.Yields a rest

theorem Continues.refl (r : Reading ts α) : r.Continues r := fun _ _ h => h

theorem Continues.trans {ts' ts'' : List Token} {r : Reading ts α} {r' : Reading ts' α}
    {r'' : Reading ts'' α} (h₁ : r.Continues r') (h₂ : r'.Continues r'') : r.Continues r'' :=
  fun a rest h => h₁ a rest (h₂ a rest h)

@[simp] theorem after_continues {ts' : List Token} (t : Token) (r : Reading ts α)
    (r' : Reading ts' α) : (r.after t).Continues r' ↔ r.Continues r' := Iff.rfl

/-- Once the first reading of an `andThen` has read `a` cleanly, the whole goes on
as the second does from where the first stopped. -/
theorem Yields.andThen_continues {k : (a : α) → (s : List Token) → s <:+ ts → Reading s β}
    {r : Reading ts α} {a : α} {s : List Token} (h : r.Yields a s) (hs : s <:+ ts) :
    (r.andThen k).Continues (k a s hs) :=
  fun _ _ hk => andThen_yields_of h fun _ => hk

end Reading

/-! ## Single tokens -/

section Tokens

variable {eof : Token}

theorem expect_yields {k : TokenKind} {ts rest : List Token} {t : Token} (heof : eof.kind = .eof)
    (h : (expect eof k ts).Yields t rest) (hk : k ≠ .eof) :
    ts = t :: rest ∧ t.kind = k := by
  cases ts with
  | nil =>
    simp only [expect, heof, Ne.symm hk, if_false] at h
    exact absurd h Reading.fail_yields
  | cons u r =>
    simp only [expect] at h
    split at h
    · obtain ⟨h1, h2, -⟩ := h
      simp only [Except.ok.injEq] at h1 h2
      subst h1 h2
      exact ⟨rfl, by assumption⟩
    · exact absurd h Reading.fail_yields

theorem expect_yields_of {k : TokenKind} {t : Token} (rest : List Token) (h : t.kind = k) :
    (expect eof k (t :: rest)).Yields t rest := by
  simp [expect, h, Reading.Yields]

theorem expectIdent_yields {ts rest : List Token} {n : Ident} (heof : eof.kind = .eof)
    (h : (expectIdent eof ts).Yields n rest) :
    ∃ t, ts = t :: rest ∧ t.kind = .ident ∧ n = ⟨t.text, t.span, none⟩ := by
  obtain ⟨t, ht, rfl⟩ := (Reading.map_yields _ _).1 h
  obtain ⟨rfl, hk⟩ := expect_yields heof ht (by decide)
  exact ⟨t, rfl, hk, rfl⟩

/-- The token an item ends with, and the item built from it. -/
theorem expect_map_yields_of {β : Type} {k : TokenKind} {t : Token} {f : Token → β}
    (rest : List Token) (h : t.kind = k) : ((expect eof k (t :: rest)).map f).Yields (f t) rest :=
  (Reading.map_yields _ _).2 ⟨t, expect_yields_of rest h, rfl⟩

theorem expectIdent_yields_of {t : Token} (rest : List Token) (h : t.kind = .ident) :
    (expectIdent eof (t :: rest)).Yields ⟨t.text, t.span, none⟩ rest :=
  expect_map_yields_of rest h

end Tokens

/-! ## Binding powers and levels -/

/-- The level of the expressions that reading with power `m` accepts: the
loosest level all of whose operators bind at least that strongly. -/
def powerLevel (m : Nat) : Nat :=
  if m ≤ 1 then 0 else if m ≤ 3 then 1 else if m ≤ 5 then 2 else if m ≤ 7 then 3
  else if m ≤ 11 then 4 else if m ≤ 13 then 5 else 6

theorem powerLevel_mono {m m' : Nat} (h : m ≤ m') : powerLevel m ≤ powerLevel m' := by
  unfold powerLevel
  repeat' split
  all_goals omega

theorem powerLevel_le_six (m : Nat) : powerLevel m ≤ 6 := by
  unfold powerLevel
  repeat' split
  all_goals omega

@[simp] theorem powerLevel_zero : powerLevel 0 = 0 := rfl

@[simp] theorem powerLevel_prefix : powerLevel prefixPower = 6 := rfl

namespace Infix

/-- The level of the expression an operator builds. -/
def level : Infix → Nat
  | assign => 0
  | binary op => op.level

/-- The level its left operand must have: comparisons do not group, so theirs is
one above their own. -/
def leftLevel : Infix → Nat
  | assign => 0
  | binary op => if op.isComparison then 4 else op.level

/-- The level of its right operand. -/
def rightLevel : Infix → Nat
  | assign => 0
  | binary op => op.level + 1

theorem powerLevel_leftPower (op : Infix) : powerLevel op.leftPower = op.level := by
  rcases op with _ | b
  · rfl
  · cases b <;> rfl

theorem powerLevel_rightPower (op : Infix) : powerLevel op.rightPower = op.rightLevel := by
  rcases op with _ | b
  · rfl
  · cases b <;> rfl

/-- Each operator's power is the strongest of its level, so a level bound on the
operator is a power bound. -/
theorem le_leftPower {m : Nat} (op : Infix) (h : powerLevel m ≤ op.level) : m ≤ op.leftPower := by
  have hnext : powerLevel (op.leftPower + 1) = op.level + 1 := by
    rcases op with _ | b
    · rfl
    · cases b <;> rfl
  apply Nat.le_of_not_lt
  intro hlt
  have := powerLevel_mono (show op.leftPower + 1 ≤ m by omega)
  omega

theorem leftLevel_le_six (op : Infix) : op.leftLevel ≤ 6 := by
  rcases op with _ | b
  · decide
  · cases b <;> decide

/-- The operator that follows a right operand, read with the right operand's
power, can take the expression just built as its left operand, unless both are
comparisons. -/
theorem leftLevel_le_level (op q : Infix) (h : q.leftPower < op.rightPower)
    (hc : ¬(q.isComparison = true ∧ op.isComparison = true)) : q.leftLevel ≤ op.level := by
  rcases op with _ | b <;> rcases q with _ | c
  · simp [leftPower, rightPower] at h
  · cases c <;> simp [leftPower, rightPower] at h
  · exact Nat.zero_le _
  · cases b <;> cases c <;> revert h hc <;> decide

theorem isComparison_eq_level (b : BinOp) : b.isComparison = decide (b.level = 3) := by
  cases b <;> rfl

theorem ofKind_eq_binary {k : TokenKind} {b : BinOp} (h : ofKind? k = some (binary b)) :
    k = b.kind := by
  cases k <;> simp [ofKind?] at h <;> subst h <;> rfl

theorem ofKind_eq_assign {k : TokenKind} (h : ofKind? k = some assign) : k = .assign := by
  cases k <;> simp [ofKind?] at h
  rfl

@[simp] theorem ofKind_kind (b : BinOp) : ofKind? b.kind = some (binary b) := by
  cases b <;> rfl

end Infix

theorem unOp_eq {k : TokenKind} {op : UnOp} (h : unOp? k = some op) : k = op.kind := by
  cases k <;> simp [unOp?] at h <;> subst h <;> rfl

@[simp] theorem unOp_kind (op : UnOp) : unOp? op.kind = some op := by
  cases op <;> rfl

/-- Reading with power `m` stops before `ts`: no operator at its front binds that
strongly. -/
def Stops (m : Nat) (ts : List Token) : Prop :=
  ∀ t ∈ ts.head?, ∀ op, Infix.ofKind? t.kind = some op → op.leftPower < m

theorem Stops.mono {m m' : Nat} {ts : List Token} (h : Stops m ts) (hm : m ≤ m') : Stops m' ts :=
  fun t ht op hop => Nat.lt_of_lt_of_le (h t ht op hop) hm

@[simp] theorem stops_nil (m : Nat) : Stops m [] := by
  simp [Stops]

end EggFront
