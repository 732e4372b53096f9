import Mathlib
import EggFront.Proofs.Parse.Names
import EggFront.Proofs.Parse.Progress

/-!
# Readings within one flat item

Recovery skips a broken item up to its `;` (`skipItem`), and finds that `;` only
if the reading of the item stopped before it. This module shows that it does on
every *flat* item (`FlatItem`): plain tokens, neither `;`, a brace nor an end
marker, then the item's `;`, the shape of a simple declaration or statement.

The argument has two halves.

* The readers below items (names, types, locations, expressions, conditions,
  parameters) read plain tokens only, recover from nothing, and fail at a token
  they read or at the one they stopped at (`Reading.Flat`). One lemma per
  combinator, and the length induction of the soundness proofs for the
  expression readers.
* An item's reader is such readings followed by a `;` or by a block. On a flat
  item, or what is left of one (`FlatBefore`), it therefore reads the item
  exactly, or fails within it and leaves tokens still inside it
  (`Reading.EndsBefore`), from which `skipItem` finds the item's `;`.

So a turn of each recovering loop on a flat item that is no item of the grammar
at its place reads nothing, reports one error within the item and goes on after
it (`Turn.Skips`): the soundness of the readers rules out a clean reading.
-/

namespace EggFront

open Grammar

/-! ## Flat items -/

/-- Neither `;`, a brace nor an end marker: a token within a program that skipping a
broken item passes over. -/
def TokenKind.Plain (k : TokenKind) : Prop := k ≠ .semicolon ∧ k ≠ .lcurly ∧ k ≠ .rcurly ∧ k ≠ .eof

instance : DecidablePred TokenKind.Plain := fun _ => instDecidableAnd

/-- The tokens of a flat item: plain tokens, then the item's `;`. -/
def FlatItem (c : List Token) : Prop :=
  ∃ p semi, c = p ++ [semi] ∧ (∀ t ∈ p, t.kind.Plain) ∧ semi.kind = .semicolon

/-- A flat item holds no end marker. -/
theorem FlatItem.unmarked {c : List Token} (h : FlatItem c) : Unmarked (lexemes c) := by
  obtain ⟨p, semi, rfl, hp, hsemi⟩ := h
  refine unmarked_lexemes.2 fun t ht => ?_
  rcases List.mem_append.1 ht with ht | ht
  · exact (hp t ht).2.2.2
  · rw [List.mem_singleton.1 ht, hsemi]
    decide

/-- A flat item, or what is left of one, then `rest`. -/
def FlatBefore (rest ts : List Token) : Prop := ∃ c, FlatItem c ∧ ts = c ++ rest

section Flat

variable {eof t : Token} {c rest ts : List Token}

theorem FlatItem.cons_cases (h : FlatItem (t :: c)) :
    (t.kind.Plain ∧ FlatItem c) ∨ (t.kind = .semicolon ∧ c = []) := by
  obtain ⟨p, semi, hc, hp, hsemi⟩ := h
  cases p with
  | nil =>
    obtain ⟨rfl, rfl⟩ := List.cons.inj hc
    exact .inr ⟨hsemi, rfl⟩
  | cons u p =>
    obtain ⟨rfl, rfl⟩ := List.cons.inj hc
    exact .inl ⟨hp t (by simp), p, semi, rfl, fun x hx => hp x (by simp [hx]), hsemi⟩

/-- The token a reading of a flat item looks at first is one of the item's. -/
theorem FlatItem.current_mem (h : FlatItem c) : current eof (c ++ rest) ∈ c := by
  obtain ⟨p, semi, rfl, -, -⟩ := h
  cases p <;> simp [current]

theorem FlatItem.ne_nil (h : FlatItem c) : c ≠ [] := by
  obtain ⟨p, semi, rfl, -, -⟩ := h
  simp

theorem FlatItem.head_ne_rcurly (h : FlatItem (t :: c)) : t.kind ≠ .rcurly := by
  rcases h.cons_cases with ⟨ht, -⟩ | ⟨ht, -⟩
  · exact ht.2.2.1
  · rw [ht]
    decide

theorem FlatBefore.ne_nil (h : FlatBefore rest ts) : ts ≠ [] := by
  obtain ⟨c, ⟨p, semi, rfl, -, -⟩, rfl⟩ := h
  simp

theorem FlatBefore.cons_cases {u : Token} (h : FlatBefore rest (u :: ts)) :
    (u.kind.Plain ∧ FlatBefore rest ts) ∨ (u.kind = .semicolon ∧ ts = rest) := by
  obtain ⟨c, hc, hts⟩ := h
  cases c with
  | nil =>
    obtain ⟨p, semi, hp, -, -⟩ := hc
    simp at hp
  | cons v c =>
    obtain ⟨rfl, rfl⟩ := List.cons.inj hts
    rcases hc.cons_cases with ⟨hu, hc⟩ | ⟨hu, rfl⟩
    · exact .inl ⟨hu, c, hc, rfl⟩
    · exact .inr ⟨hu, rfl⟩

theorem FlatBefore.tail {u : Token} (h : FlatBefore rest (u :: ts)) (hu : u.kind.Plain) :
    FlatBefore rest ts := by
  rcases h.cons_cases with ⟨-, h⟩ | ⟨hs, -⟩
  · exact h
  · exact absurd hs hu.1

/-- Plain tokens read from a flat item leave what is left of it. -/
theorem FlatBefore.drop_plain (h : FlatBefore rest (c ++ ts)) (hc : ∀ t ∈ c, t.kind.Plain) :
    FlatBefore rest ts := by
  induction c with
  | nil => exact h
  | cons u c ih => exact ih (h.tail (hc u (by simp))) fun x hx => hc x (by simp [hx])

theorem FlatBefore.head_ne_lcurly {u : Token} (h : FlatBefore rest (u :: ts)) :
    u.kind ≠ .lcurly := by
  rcases h.cons_cases with ⟨hu, -⟩ | ⟨hu, -⟩
  · exact hu.2.1
  · rw [hu]
    decide

/-- Skipping a broken item from within a flat one stops right after its `;`. -/
theorem FlatBefore.skipItem (h : FlatBefore rest ts) (top : Bool) : skipItem top 0 ts = rest := by
  obtain ⟨c, ⟨p, semi, rfl, hp, hsemi⟩, rfl⟩ := h
  induction p with
  | nil => simp [EggFront.skipItem, hsemi]
  | cons u p ih =>
    obtain ⟨hu₁, hu₂, hu₃, -⟩ := hp u (by simp)
    rw [List.cons_append, List.cons_append]
    unfold EggFront.skipItem
    split
    · contradiction
    · contradiction
    · contradiction
    · simpa using ih fun x hx => hp x (by simp [hx])

end Flat

/-! ## Readings of plain tokens -/

namespace Reading

variable {ts : List Token} {α β : Type} {eof : Token} {pre : List Token}

@[simp] theorem fail_andThen (e : SyntaxError) (k : (a : α) → (s : List Token) → s <:+ ts → Reading s β) :
    (Reading.fail e ts : Reading ts α).andThen k = .fail e ts := rfl

@[simp] theorem fail_map (e : SyntaxError) (f : α → β) :
    (Reading.fail e ts : Reading ts α).map f = .fail e ts := rfl

theorem andThen_mk_error (e : SyntaxError) (s : List Token) (es : List SyntaxError) (h : s <:+ ts)
    (k : (a : α) → (s : List Token) → s <:+ ts → Reading s β) :
    (⟨.error e, s, es, h⟩ : Reading ts α).andThen k = ⟨.error e, s, es, h⟩ := rfl

theorem andThen_mk_ok (a : α) (s : List Token) (es : List SyntaxError) (h : s <:+ ts)
    (k : (a : α) → (s : List Token) → s <:+ ts → Reading s β) :
    (⟨.ok a, s, es, h⟩ : Reading ts α).andThen k = ((k a s h).widen h).note es := rfl

/-- `r` read plain tokens only and recovered from nothing; if it failed, it failed
at a token it read, at the one it stopped at, or at one of `pre`, read before it. -/
def Flat (eof : Token) (pre : List Token) (r : Reading ts α) : Prop :=
  r.errors = [] ∧ ∃ c, ts = c ++ r.rest ∧ (∀ t ∈ c, t.kind.Plain) ∧
    ∀ e, r.result = .error e → e.token ∈ pre ∨ e.token ∈ c ∨ e.token = current eof r.rest

theorem flat_ok (a : α) : (Reading.ok a ts).Flat eof pre :=
  ⟨rfl, [], rfl, by simp, by simp [Reading.ok]⟩

theorem flat_fail {e : SyntaxError} (he : e.token ∈ pre ∨ e.token = current eof ts) :
    (Reading.fail e ts : Reading ts α).Flat eof pre := by
  refine ⟨rfl, [], rfl, by simp, fun e' h => ?_⟩
  simp only [Reading.fail, Except.error.injEq] at h
  subst h
  simpa [Reading.fail] using he

theorem Flat.after {r : Reading ts α} {t : Token} (ht : t.kind.Plain) (h : r.Flat eof (t :: pre)) :
    (r.after t).Flat eof pre := by
  obtain ⟨he, c, hts, hc, herr⟩ := h
  refine ⟨he, t :: c, congrArg (t :: ·) hts, by simpa [ht] using hc, fun e hr => ?_⟩
  rcases herr e hr with h | h | h
  · rcases List.mem_cons.1 h with h | h
    · exact .inr (.inl (h ▸ List.mem_cons_self))
    · exact .inl h
  · exact .inr (.inl (List.mem_cons_of_mem t h))
  · exact .inr (.inr h)

theorem Flat.map {r : Reading ts α} {f : α → β} (h : r.Flat eof pre) : (r.map f).Flat eof pre := by
  obtain ⟨he, c, hts, hc, herr⟩ := h
  refine ⟨he, c, hts, hc, fun e hr => herr e ?_⟩
  cases hres : r.result with
  | ok a => simp [Reading.map, hres, Except.map] at hr
  | error e' =>
    simp only [Reading.map, hres, Except.map, Except.error.injEq] at hr
    rw [hr]

/-- What a reading and the one after it read, one after the other. -/
theorem Flat.andThen {r : Reading ts α} {k : (a : α) → (s : List Token) → s <:+ ts → Reading s β}
    (h : r.Flat eof pre) (hk : ∀ a s hs, r.Yields a s → (k a s hs).Flat eof pre) :
    (r.andThen k).Flat eof pre := by
  obtain ⟨res, s, es, hsuf⟩ := r
  obtain ⟨he, c, hts, hc, herr⟩ := h
  simp only at he hts herr
  subst he
  cases res with
  | error e =>
    rw [andThen_mk_error]
    refine ⟨rfl, c, hts, hc, fun e' h => herr e' ?_⟩
    simp only [Except.error.injEq] at h ⊢
    exact h
  | ok a =>
    rw [andThen_mk_ok]
    obtain ⟨he', c', hs, hc', herr'⟩ := hk a s hsuf ⟨rfl, rfl, rfl⟩
    refine ⟨by simpa [note, widen] using he', c ++ c', ?_, ?_, fun e hr => ?_⟩
    · exact hts.trans ((congrArg (c ++ ·) hs).trans (List.append_assoc c c' _).symm)
    · intro x hx
      rcases List.mem_append.1 hx with hx | hx
      · exact hc x hx
      · exact hc' x hx
    · rcases herr' e hr with h | h | h
      · exact .inl h
      · exact .inr (.inl (List.mem_append_right c h))
      · exact .inr (.inr h)

/-- `r`, on a flat item or what is left of one before `rest`, read up to `rest`
exactly, or failed at a token of the item and left tokens still in it; either way
it recovered from nothing. -/
def EndsBefore (rest : List Token) (r : Reading ts α) : Prop :=
  r.errors = [] ∧ (∀ a, r.result = .ok a → r.rest = rest) ∧
    ∀ e, r.result = .error e → (∃ c, ts = c ++ rest ∧ e.token ∈ c) ∧ FlatBefore rest r.rest

variable {rest : List Token}

theorem EndsBefore.after {r : Reading ts α} {t : Token} (h : r.EndsBefore rest) :
    (r.after t).EndsBefore rest := by
  obtain ⟨he, hok, herr⟩ := h
  refine ⟨he, hok, fun e hr => ?_⟩
  obtain ⟨⟨c, hts, hmem⟩, hflat⟩ := herr e hr
  exact ⟨⟨t :: c, congrArg (t :: ·) hts, List.mem_cons_of_mem t hmem⟩, hflat⟩

theorem EndsBefore.map {r : Reading ts α} {f : α → β} (h : r.EndsBefore rest) :
    (r.map f).EndsBefore rest := by
  obtain ⟨he, hok, herr⟩ := h
  cases hres : r.result with
  | ok a =>
    refine ⟨he, fun _ _ => hok a hres, fun e hr => ?_⟩
    simp [Reading.map, hres, Except.map] at hr
  | error e =>
    refine ⟨he, fun b hb => ?_, fun e' hr => ?_⟩
    · simp [Reading.map, hres, Except.map] at hb
    · simp only [Reading.map, hres, Except.map, Except.error.injEq] at hr
      subst hr
      exact herr e hres

theorem endsBefore_fail (eof : Token) {e : SyntaxError} (hts : FlatBefore rest ts) (he : e.token = current eof ts) :
    (Reading.fail e ts : Reading ts α).EndsBefore rest := by
  refine ⟨rfl, fun a ha => by simp [Reading.fail] at ha, fun e' he' => ?_⟩
  simp only [Reading.fail, Except.error.injEq] at he'
  subst he'
  obtain ⟨c, hc, rfl⟩ := hts
  exact ⟨⟨c, rfl, he ▸ hc.current_mem⟩, ⟨c, hc, rfl⟩⟩

/-- A reading of plain tokens, then one that ends before `rest`, ends before
`rest`: the first cannot pass the item's `;`. -/
theorem Flat.andThen_endsBefore {r : Reading ts α}
    {k : (a : α) → (s : List Token) → s <:+ ts → Reading s β} (h : r.Flat eof [])
    (hts : FlatBefore rest ts) (hk : ∀ a s hs, r.Yields a s → FlatBefore rest s → (k a s hs).EndsBefore rest) :
    (r.andThen k).EndsBefore rest := by
  obtain ⟨res, s, es, hsuf⟩ := r
  obtain ⟨he, c, hc, hplain, herr⟩ := h
  simp only at he hc herr
  subst he hc
  have hs : FlatBefore rest s := hts.drop_plain hplain
  cases res with
  | ok a =>
    rw [andThen_mk_ok]
    obtain ⟨he', hok, hfail⟩ := hk a s hsuf ⟨rfl, rfl, rfl⟩ hs
    refine ⟨by simpa [note, widen] using he', hok, fun e he => ?_⟩
    obtain ⟨⟨c', hc', hmem⟩, htail⟩ := hfail e he
    exact ⟨⟨c ++ c', by rw [hc', List.append_assoc], List.mem_append_right c hmem⟩, htail⟩
  | error e =>
    rw [andThen_mk_error]
    refine ⟨rfl, fun a ha => by simp at ha, fun e' he' => ?_⟩
    simp only [Except.error.injEq] at he'
    subst he'
    obtain ⟨c₁, hitem, rfl⟩ := hs
    refine ⟨⟨c ++ c₁, by rw [List.append_assoc], ?_⟩, ⟨c₁, hitem, rfl⟩⟩
    rcases herr e rfl with h | h | h
    · simp at h
    · exact List.mem_append_left c₁ h
    · exact List.mem_append_right c (h ▸ hitem.current_mem)

end Reading

open Reading

/-! ## The readers below items -/

section Readers

variable {eof t : Token} {pre : List Token}

theorem expect_flat {k : TokenKind} (hk : k.Plain) (pre ts : List Token) :
    (expect eof k ts).Flat eof pre := by
  cases ts with
  | nil =>
    rw [expect]
    split
    · exact flat_ok _
    · exact flat_fail (.inr rfl)
  | cons u r =>
    rw [expect]
    split
    · rename_i hu
      exact ⟨rfl, [u], rfl, by simpa [hu] using hk, by simp⟩
    · exact flat_fail (.inr rfl)

theorem expectIdent_flat (pre ts : List Token) : (expectIdent eof ts).Flat eof pre :=
  (expect_flat (by decide) pre ts).map

theorem baseType_plain {ty : TypeExpr} (h : baseType? t = some ty) : t.kind.Plain := by
  unfold baseType? at h
  split at h <;> first | (rename_i hk; rw [hk]; decide) | cases h

theorem declStart_plain {st : DeclStart} (h : declStart? t = some st) : t.kind.Plain := by
  rcases declStart_eq h with ⟨hk, -⟩ | ⟨ty, hty, -⟩
  · rw [hk]
    decide
  · exact baseType_plain hty

theorem Infix.plain {op : Infix} (h : Infix.ofKind? t.kind = some op) : t.kind.Plain := by
  refine ⟨?_, ?_, ?_, ?_⟩ <;> intro hk <;> simp [hk, Infix.ofKind?] at h

theorem unOp_plain {op : UnOp} (h : unOp? t.kind = some op) : t.kind.Plain := by
  refine ⟨?_, ?_, ?_, ?_⟩ <;> intro hk <;> simp [hk, unOp?] at h

theorem parseType_flat (pre ts : List Token) : (parseType eof ts).Flat eof pre := by
  cases ts with
  | nil => exact flat_fail (.inr rfl)
  | cons u r =>
    rw [parseType]
    split
    · rename_i ty hty
      exact .after (baseType_plain hty) (flat_ok _)
    · exact flat_fail (.inr rfl)

theorem locRest_flat (base : Loc) (ts pre : List Token) : (locRest eof base ts).Flat eof pre := by
  fun_induction locRest eof base ts generalizing pre with
  | case1 base u r hdot ih =>
    exact .after (by rw [hdot]; decide) (.andThen (expectIdent_flat _ _) fun n s hs _ => ih n s hs _)
  | case2 => exact flat_ok _
  | case3 => exact flat_ok _

theorem parseLoc_flat (pre ts : List Token) : (parseLoc eof ts).Flat eof pre :=
  .andThen (expectIdent_flat _ _) fun _ _ _ _ => locRest_flat _ _ _

/-- A reading of an expression, with any power, reads plain tokens. -/
def ExprFlat (eof : Token) (ts : List Token) : Prop := ∀ m pre, (parseExpr eof m ts).Flat eof pre

def PrefixFlat (eof : Token) (ts : List Token) : Prop := ∀ pre, (parsePrefix eof ts).Flat eof pre

def LoopFlat (eof : Token) (ts : List Token) : Prop :=
  ∀ m left flag pre, (infixLoop eof m left flag ts).Flat eof pre

def ArgsFlat (eof : Token) (ts : List Token) : Prop := ∀ pre, (parseArgs eof ts).Flat eof pre

def MoreArgsFlat (eof : Token) (ts : List Token) : Prop :=
  ∀ acc pre, (argsRest eof acc ts).Flat eof pre

theorem argsRest_flat_step {ts : List Token}
    (hexp : ∀ r : List Token, r.length < ts.length → ExprFlat eof r)
    (hmore : ∀ r : List Token, r.length < ts.length → MoreArgsFlat eof r) :
    MoreArgsFlat eof ts := by
  intro acc pre
  cases ts with
  | nil =>
    rw [argsRest_nil]
    exact (expect_flat (by decide) _ _).map
  | cons u r =>
    by_cases hk : u.kind = .comma
    · rw [argsRest_comma hk]
      refine .after (by rw [hk]; decide) (.andThen (hexp r (by simp) 0 _) fun a s hs _ => ?_)
      exact hmore s (by have := hs.length_le; simp only [List.length_cons]; omega) _ _
    · rw [argsRest_close hk]
      exact (expect_flat (by decide) _ _).map

theorem infixLoop_flat_step {ts : List Token}
    (hexp : ∀ r : List Token, r.length < ts.length → ExprFlat eof r)
    (hloop : ∀ r : List Token, r.length < ts.length → LoopFlat eof r) :
    LoopFlat eof ts := by
  intro m left flag pre
  cases ts with
  | nil =>
    rw [infixLoop_nil]
    exact flat_ok _
  | cons u r =>
    rcases hop : Infix.ofKind? u.kind with _ | op
    · rw [infixLoop_none hop]
      exact flat_ok _
    by_cases hlt : op.leftPower < m
    · rw [infixLoop_weak hop hlt]
      exact flat_ok _
    have hshort {s : List Token} (hs : s <:+ r) : s.length < (u :: r).length := by
      have := hs.length_le
      simp only [List.length_cons]
      omega
    cases op with
    | assign =>
      rw [infixLoop_assign hop hlt]
      refine .after (Infix.plain hop) (.andThen (hexp r (by simp) _ _) fun right s hs _ => ?_)
      cases left.asLoc? with
      | none =>
        -- the error is at the `=` read before the right operand
        exact flat_fail (.inl (by simp [SyntaxError.token]))
      | some target => exact hloop s (hshort hs) _ _ _ _
    | binary b =>
      by_cases hc : b.isComparison = true ∧ flag = true
      · obtain ⟨hc, rfl⟩ := hc
        rw [infixLoop_chained hop hlt hc]
        exact flat_fail (.inr rfl)
      rw [infixLoop_binary hop hlt hc]
      exact .after (Infix.plain hop) (.andThen (hexp r (by simp) _ _) fun right s hs _ =>
        hloop s (hshort hs) _ _ _ _)

theorem parsePrefix_flat_step {ts : List Token}
    (hexp : ∀ r : List Token, r.length < ts.length → ExprFlat eof r)
    (hargs : ∀ r : List Token, r.length < ts.length → ArgsFlat eof r) :
    PrefixFlat eof ts := by
  intro pre
  fun_cases parsePrefix eof ts with
  | case1 =>
    rw [parsePrefix.eq_def]
    exact flat_fail (.inr rfl)
  | case2 u r op hop =>
    rw [parsePrefix_unary hop]
    exact .after (unOp_plain hop) (hexp r (by simp) _ _).map
  | case3 u r _ hk =>
    rw [parsePrefix_intLit hk]
    exact .after (by rw [hk]; decide) (flat_ok _)
  | case4 u r _ hk =>
    rw [parsePrefix_stringLit hk]
    exact .after (by rw [hk]; decide) (flat_ok _)
  | case5 u r _ hk =>
    rw [parsePrefix_true hk]
    exact .after (by rw [hk]; decide) (flat_ok _)
  | case6 u r _ hk =>
    rw [parsePrefix_false hk]
    exact .after (by rw [hk]; decide) (flat_ok _)
  | case7 u r _ hk =>
    rw [parsePrefix_paren hk]
    exact .after (by rw [hk]; decide) (.andThen (hexp r (by simp) 0 _) fun _ _ _ _ =>
      (expect_flat (by decide) _ _).map)
  | case8 u _ hk v r hv =>
    rw [parsePrefix_call hk hv]
    exact .after (by rw [hk]; decide) (.after (by rw [hv]; decide)
      (hargs r (by simp only [List.length_cons]; omega) _).map)
  | case9 u _ hk v r hv =>
    rw [parsePrefix_loc hk hv]
    exact .after (by rw [hk]; decide) (locRest_flat _ _ _).map
  | case10 u _ hk =>
    rw [parsePrefix_var hk]
    exact .after (by rw [hk]; decide) (flat_ok _)
  | case11 u r hop =>
    rw [parsePrefix.eq_def]
    simp only [hop]
    exact flat_fail (.inr rfl)

theorem parseExpr_flat_step (heof : eof.kind = .eof) {ts : List Token} (hpre : PrefixFlat eof ts)
    (hloop : ∀ r : List Token, r.length < ts.length → LoopFlat eof r) : ExprFlat eof ts := by
  intro m pre
  rw [parseExpr]
  exact .andThen (hpre pre) fun left s _ hy => hloop s (parsePrefix_rest_lt heof hy) _ _ _ _

theorem parseArgs_flat_step (heof : eof.kind = .eof) {ts : List Token} (hexp : ExprFlat eof ts)
    (hmore : ∀ r : List Token, r.length < ts.length → MoreArgsFlat eof r) : ArgsFlat eof ts := by
  intro pre
  by_cases hk : (current eof ts).kind = .rparen
  · rw [parseArgs_close hk]
    exact (expect_flat (by decide) _ _).map
  · rw [parseArgs_some hk]
    exact .andThen (hexp 0 pre) fun a s _ hy => hmore s (parseExpr_rest_lt heof hy) _ _

/-- The expression readers read plain tokens, for every list of tokens, by
induction on its length, as in `expr_readers_sound`. -/
theorem expr_readers_flat (heof : eof.kind = .eof) (ts : List Token) :
    ExprFlat eof ts ∧ LoopFlat eof ts ∧ ArgsFlat eof ts ∧ MoreArgsFlat eof ts := by
  suffices ∀ n (ts : List Token), ts.length = n →
      ExprFlat eof ts ∧ LoopFlat eof ts ∧ ArgsFlat eof ts ∧ MoreArgsFlat eof ts from
    this _ ts rfl
  intro n
  induction n using Nat.strongRecOn with
  | ind n ih =>
    intro ts hn
    subst hn
    have hexp r (hr : r.length < ts.length) := (ih _ hr r rfl).1
    have hloop r (hr : r.length < ts.length) := (ih _ hr r rfl).2.1
    have hargs r (hr : r.length < ts.length) := (ih _ hr r rfl).2.2.1
    have hmore r (hr : r.length < ts.length) := (ih _ hr r rfl).2.2.2
    have hexpr := parseExpr_flat_step heof (parsePrefix_flat_step hexp hargs) hloop
    exact ⟨hexpr, infixLoop_flat_step hexp hloop, parseArgs_flat_step heof hexpr hmore,
      argsRest_flat_step hexp hmore⟩

theorem parseExpr_flat (heof : eof.kind = .eof) (m : Nat) (pre ts : List Token) :
    (parseExpr eof m ts).Flat eof pre :=
  (expr_readers_flat heof ts).1 m pre

theorem parseArgs_flat (heof : eof.kind = .eof) (pre ts : List Token) :
    (parseArgs eof ts).Flat eof pre :=
  (expr_readers_flat heof ts).2.2.1 pre

theorem parseCondition_flat (heof : eof.kind = .eof) (pre ts : List Token) :
    (parseCondition eof ts).Flat eof pre :=
  .andThen (expect_flat (by decide) _ _) fun _ _ _ _ =>
    .andThen (parseExpr_flat heof 0 _ _) fun _ _ _ _ => (expect_flat (by decide) _ _).map

theorem parseParam_flat (pre ts : List Token) : (parseParam eof ts).Flat eof pre :=
  .andThen (parseType_flat _ _) fun _ _ _ _ => (expectIdent_flat _ _).map

theorem paramsRest_flat (acc : List Param) (pre ts : List Token) :
    (paramsRest eof acc ts).Flat eof pre := by
  fun_induction paramsRest eof acc ts generalizing pre with
  | case1 acc u r hk ih =>
    exact .after (by rw [hk]; decide) (.andThen (parseParam_flat _ _) fun p s hs _ => ih p s hs _)
  | case2 => exact (expect_flat (by decide) _ _).map
  | case3 => exact (expect_flat (by decide) _ _).map

theorem parseParams_flat (pre ts : List Token) : (parseParams eof ts).Flat eof pre := by
  refine .andThen (expect_flat (by decide) _ _) fun _ s _ _ => ?_
  split
  · exact (expect_flat (by decide) _ _).map
  · exact .andThen (parseParam_flat _ _) fun _ _ _ _ => paramsRest_flat _ _ _

end Readers

/-! ## Items on flat tokens -/

section Items

variable {eof t : Token} {r rest : List Token}

theorem expect_semicolon_endsBefore {ts : List Token} (h : FlatBefore rest ts) :
    (expect eof .semicolon ts).EndsBefore rest := by
  obtain ⟨c, ⟨p, semi, rfl, hp, hsemi⟩, rfl⟩ := h
  cases p with
  | nil =>
    simp only [List.nil_append, List.cons_append]
    rw [expect]
    rw [if_pos hsemi]
    exact ⟨rfl, fun _ _ => rfl, fun e he => by cases he⟩
  | cons u p =>
    simp only [List.cons_append]
    rw [expect]
    rw [if_neg (hp u (by simp)).1]
    exact endsBefore_fail eof ⟨u :: p ++ [semi], ⟨u :: p, semi, rfl, hp, hsemi⟩, by simp⟩ rfl

/-- A block cannot open on a flat item. -/
theorem parseBlock_flatBefore {s : List Token} (h : FlatBefore rest s) :
    parseBlock eof s = .fail (.expected .lcurly (current eof s)) s := by
  obtain ⟨u, s', rfl⟩ := List.exists_cons_of_ne_nil h.ne_nil
  rw [parseBlock, if_neg h.head_ne_lcurly]
  rfl

theorem parseBlock_endsBefore {s : List Token} (h : FlatBefore rest s) : (parseBlock eof s).EndsBefore rest := by
  rw [parseBlock_flatBefore h]
  exact endsBefore_fail eof h rfl

theorem expect_lcurly_flatBefore {s : List Token} (h : FlatBefore rest s) :
    expect eof .lcurly s = .fail (.expected .lcurly (current eof s)) s := by
  obtain ⟨u, s', rfl⟩ := List.exists_cons_of_ne_nil h.ne_nil
  rw [expect]
  rw [if_neg h.head_ne_lcurly]
  rfl

theorem parseVarDecl_endsBefore {st : DeclStart} (h : FlatBefore rest r) :
    (parseVarDecl eof st r).EndsBefore rest := by
  -- after the type, whichever way it is read, come the name and the semicolon
  have hk : ∀ (ty : TypeExpr) s, FlatBefore rest s →
      ((expectIdent eof s).andThen fun n s' _ =>
        (expect eof .semicolon s').map fun semi => (⟨ty, n, st.span.through semi.span⟩ : VarDecl)).EndsBefore
        rest :=
    fun _ _ hs => Flat.andThen_endsBefore (expectIdent_flat _ _) hs fun _ _ _ _ hs' =>
      (expect_semicolon_endsBefore hs').map
  unfold parseVarDecl
  cases st with
  | base ty =>
    dsimp only
    exact Flat.andThen_endsBefore (flat_ok ty : (Reading.ok ty r).Flat eof []) h fun _ _ _ _ hs => hk _ _ hs
  | struct kw =>
    dsimp only
    exact Flat.andThen_endsBefore (expectIdent_flat _ _).map h fun _ _ _ _ hs => hk _ _ hs

theorem afterLocation_endsBefore (heof : eof.kind = .eof) (h : FlatBefore rest r) :
    (identStatement.afterLocation eof t r).EndsBefore rest := by
  unfold identStatement.afterLocation
  refine Flat.andThen_endsBefore (locRest_flat _ _ _) h fun target s _ _ hs => ?_
  obtain ⟨v, s', rfl⟩ := List.exists_cons_of_ne_nil hs.ne_nil
  simp only
  split
  · rename_i hv
    exact (expect_semicolon_endsBefore (hs.tail (by rw [hv]; decide))).map.after
  · rename_i hv
    exact (expect_semicolon_endsBefore (hs.tail (by rw [hv]; decide))).map.after
  · rename_i hv
    exact (Flat.andThen_endsBefore (parseExpr_flat heof _ _ _) (hs.tail (by rw [hv]; decide))
      fun _ _ _ _ hs'' => (expect_semicolon_endsBefore hs'').map).after
  · exact endsBefore_fail eof hs rfl

theorem identStatement_endsBefore (heof : eof.kind = .eof) (h : FlatBefore rest r) :
    (identStatement eof t r).EndsBefore rest := by
  obtain ⟨u, r', rfl⟩ := List.exists_cons_of_ne_nil h.ne_nil
  rw [identStatement]
  split
  · rename_i hu
    exact (Flat.andThen_endsBefore (parseArgs_flat heof _ _) (h.tail (by rw [hu]; decide))
      fun _ _ _ _ hs => (expect_semicolon_endsBefore hs).map).after
  · exact afterLocation_endsBefore heof h

/-- A statement's reading on a flat item ends before what follows the item. -/
theorem parseStatement_endsBefore (heof : eof.kind = .eof) {rd : Reading r Stmt}
    (h : FlatBefore rest r) (hrd : parseStatement eof t r = .ok rd) : rd.EndsBefore rest := by
  rw [parseStatement.eq_def] at hrd
  split at hrd
  · -- cin >> location ;
    cases hrd
    exact Flat.andThen_endsBefore (expect_flat (by decide) _ _) h fun _ _ _ _ hs =>
      Flat.andThen_endsBefore (parseLoc_flat _ _) hs fun _ _ _ _ hs' =>
        (expect_semicolon_endsBefore hs').map
  · -- cout << expression ;
    cases hrd
    exact Flat.andThen_endsBefore (expect_flat (by decide) _ _) h fun _ _ _ _ hs =>
      Flat.andThen_endsBefore (parseExpr_flat heof _ _ _) hs fun _ _ _ _ hs' =>
        (expect_semicolon_endsBefore hs').map
  · -- if: its block cannot open
    cases hrd
    refine Flat.andThen_endsBefore (parseCondition_flat heof _ _) h fun _ s _ _ hs => ?_
    rw [parseBlock_flatBefore hs, fail_andThen]
    exact endsBefore_fail eof hs rfl
  · -- while
    cases hrd
    exact Flat.andThen_endsBefore (parseCondition_flat heof _ _) h fun _ _ _ _ hs =>
      (parseBlock_endsBefore hs).map
  · -- repeat
    cases hrd
    exact Flat.andThen_endsBefore (parseCondition_flat heof _ _) h fun _ _ _ _ hs =>
      (parseBlock_endsBefore hs).map
  · -- return, with or without a value
    cases hrd
    split
    · exact (expect_semicolon_endsBefore h).map
    · exact Flat.andThen_endsBefore (parseExpr_flat heof _ _ _) h fun _ _ _ _ hs =>
        (expect_semicolon_endsBefore hs).map
  · -- a statement that starts with a name
    cases hrd
    exact identStatement_endsBefore heof h
  · split at hrd <;> cases hrd

theorem parseStructDecl_endsBefore {kw : Token} (h : FlatBefore rest r) :
    (parseStructDecl eof kw r).EndsBefore rest := by
  unfold parseStructDecl
  refine Flat.andThen_endsBefore (expectIdent_flat _ _) h fun _ s _ _ hs => ?_
  rw [expect_lcurly_flatBefore hs, fail_andThen]
  exact endsBefore_fail eof hs rfl

theorem parseFnDecl_endsBefore {ty : TypeExpr} (h : FlatBefore rest r) :
    (parseFnDecl eof ty r).EndsBefore rest := by
  unfold parseFnDecl
  refine Flat.andThen_endsBefore (expectIdent_flat _ _) h fun _ s _ _ hs => ?_
  exact Flat.andThen_endsBefore (parseParams_flat _ _) hs fun _ _ _ _ hs' => (parseBlock_endsBefore hs').map

/-- A top-level declaration's reading on a flat item ends before what follows the item. -/
theorem parseDecl_endsBefore {rd : Reading r Decl} (h : FlatBefore rest r)
    (hrd : parseDecl eof t r = .ok rd) : rd.EndsBefore rest := by
  unfold parseDecl at hrd
  split at hrd
  · split at hrd
    · cases hrd
      exact (parseStructDecl_endsBefore h).map
    · cases hrd
      exact (parseVarDecl_endsBefore h).map
  · split at hrd
    · split at hrd
      · cases hrd
        exact (parseFnDecl_endsBefore h).map
      · cases hrd
        exact (parseVarDecl_endsBefore h).map
    · cases hrd

/-! ## Items that fail at once -/

theorem parseStatement_error_token {e : SyntaxError} (h : parseStatement eof t r = .error e) :
    e.token = t := by
  rw [parseStatement.eq_def] at h
  split at h
  all_goals first
    | cases h
    | (split at h <;> (cases h; rfl))

theorem parseStatement_semicolon (ht : t.kind = .semicolon) :
    parseStatement eof t r = .error (.inStatement t) := by
  rw [parseStatement.eq_def]
  simp [ht, TokenKind.startsDecl]

theorem parseDecl_error_token {e : SyntaxError} (h : parseDecl eof t r = .error e) : e.token = t := by
  unfold parseDecl at h
  split at h
  · split at h <;> cases h
  · split at h
    · split at h <;> cases h
    · cases h
      rfl

theorem parseDecl_semicolon (ht : t.kind = .semicolon) :
    parseDecl eof t r = .error (.atTopLevel t) := by
  unfold parseDecl
  simp [ht, baseType?]

end Items

/-! ## Turns on broken flat items -/

/-- The turn skipped the broken item `item`: it read nothing, found one error, within
the item, and goes on with `rest`, what follows the item. -/
def Turn.Skips {r : List Token} {α : Type} (u : Turn r α) (item rest : List Token) : Prop :=
  u.read = none ∧ u.rest = rest ∧ ∃ e, u.errors = [e] ∧ e.token ∈ item

/-- A turn on a broken flat item skips it: the item's reader fails at once at its
first token, and skipping goes past the item, or its reading ends before what
follows the item and does not read it cleanly. -/
theorem Turn.ofReading_skips {α : Type} {t : Token} {r₀ rest : List Token}
    {reading : Except SyntaxError (Reading (r₀ ++ rest) α)} {top : Bool} {skip : List Token}
    {hskip : skip <:+ r₀ ++ rest}
    (herr : ∀ e, reading = .error e → e.token = t ∧ skip = rest)
    (hok : ∀ rd, reading = .ok rd → rd.EndsBefore rest ∧ ∀ a, ¬rd.Yields a rest) :
    (Turn.ofReading reading top skip hskip).Skips (t :: r₀) rest := by
  rcases reading with e | ⟨res, s, es, hs⟩
  · obtain ⟨ht, rfl⟩ := herr e rfl
    exact ⟨rfl, rfl, e, rfl, ht ▸ List.mem_cons_self⟩
  · obtain ⟨⟨hes, hok', herr'⟩, hno⟩ := hok _ rfl
    simp only at hes hok' herr'
    subst hes
    cases res with
    | ok a => exact absurd ⟨rfl, hok' a rfl, rfl⟩ (hno a)
    | error e =>
      obtain ⟨⟨c, hc, hmem⟩, hflat⟩ := herr' e rfl
      obtain rfl := List.append_cancel_right hc
      exact ⟨rfl, hflat.skipItem top, e, rfl, List.mem_cons_of_mem t hmem⟩

section Holes

variable {eof t : Token} {r₀ rest : List Token}

/-- A flat item that starts a declaration of a block but is none is skipped. -/
theorem varDeclTurn_skips (heof : eof.kind = .eof) {st : DeclStart} (hst : declStart? t = some st)
    (hitem : FlatItem (t :: r₀)) (hno : ∀ d, ¬VarDeclOf (lexemes (t :: r₀)) d) :
    (varDeclTurn eof st (r₀ ++ rest)).Skips (t :: r₀) rest := by
  have hr₀ : FlatItem r₀ := by
    rcases hitem.cons_cases with ⟨-, h⟩ | ⟨ht, -⟩
    · exact h
    · exact absurd ht (declStart_plain hst).1
  refine Turn.ofReading_skips (fun e he => by cases he) fun rd hrd => ?_
  cases hrd
  refine ⟨parseVarDecl_endsBefore ⟨r₀, hr₀, rfl⟩, fun d hd => ?_⟩
  obtain ⟨c, hc, hw⟩ := parseVarDecl_sound heof hst hd
  obtain rfl := List.append_cancel_right hc
  exact hno d hw

/-- A flat item that is no statement is skipped by the statement loop. -/
theorem stmtTurn_skips (heof : eof.kind = .eof) (hk : t.kind ≠ .rcurly) (hitem : FlatItem (t :: r₀))
    (hno : ∀ st, ¬StmtOf true (lexemes (t :: r₀)) st) :
    (stmtTurn eof t (r₀ ++ rest) hk).Skips (t :: r₀) rest := by
  refine Turn.ofReading_skips (fun e he => ⟨parseStatement_error_token he,
    FlatBefore.skipItem ⟨t :: r₀, hitem, rfl⟩ false⟩) fun rd hrd => ?_
  rcases hitem.cons_cases with ⟨-, hr₀⟩ | ⟨ht, rfl⟩
  · refine ⟨parseStatement_endsBefore heof ⟨r₀, hr₀, rfl⟩ hrd, fun st hy => ?_⟩
    obtain ⟨c, hc, hw⟩ := (stmt_readers_sound heof (t :: (r₀ ++ rest))).1 t _ rd st rest rfl hrd hy
    obtain rfl := List.append_cancel_right hc
    exact hno st hw
  · rw [parseStatement_semicolon ht] at hrd
    cases hrd

/-- A flat item that is no top-level declaration is skipped by the top-level loop. -/
theorem declTurn_skips (heof : eof.kind = .eof) (hitem : FlatItem (t :: r₀))
    (hno : ∀ d, ¬DeclOf true (lexemes (t :: r₀)) d) :
    (declTurn eof t (r₀ ++ rest)).Skips (t :: r₀) rest := by
  refine Turn.ofReading_skips (fun e he => ⟨parseDecl_error_token he,
    FlatBefore.skipItem ⟨t :: r₀, hitem, rfl⟩ true⟩) fun rd hrd => ?_
  rcases hitem.cons_cases with ⟨-, hr₀⟩ | ⟨ht, rfl⟩
  · refine ⟨parseDecl_endsBefore ⟨r₀, hr₀, rfl⟩ hrd, fun d hy => ?_⟩
    obtain ⟨c, hc, hw⟩ := parseDecl_sound heof hrd hy
    obtain rfl := List.append_cancel_right hc
    exact hno d hw
  · rw [parseDecl_semicolon ht] at hrd
    cases hrd

end Holes

end EggFront
