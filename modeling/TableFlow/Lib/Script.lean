/-
  Scripts: statements that a database executes one after the other, and how much of a script that
  fails is left behind.

  1. **As one transaction** (`transaction`) — a statement that fails takes the others with it.
  2. **Autocommitted** (`autocommit`) — every statement commits on its own, so the ones before the
     failure stay.  A script that is cut off before its `k`-th statement is `autocommit` of the
     first `k`.

  Both stop at the first error.  Where there is none they end in the same state
  (`autocommit_eq_iff`), and a property that every statement keeps is kept by both
  (`transaction_keeps`, `autocommit_keeps`).
-/
import Mathlib.Tactic.Common

namespace TableFlow.Lib

section Script

variable {σ δ ε : Type} (exec : δ → σ → Except ε σ)

/-- All statements or none. -/
def transaction : List δ → σ → Except ε σ
  | [], s => .ok s
  | d :: ds, s =>
    match exec d s with
    | .ok s' => transaction ds s'
    | .error e => .error e

/-- The statements up to the first that fails, and its error. -/
def autocommit : List δ → σ → σ × Option ε
  | [], s => (s, none)
  | d :: ds, s =>
    match exec d s with
    | .ok s' => autocommit ds s'
    | .error e => (s, some e)

variable {exec}

theorem transaction_ok {d : δ} {s s' : σ} (h : exec d s = .ok s') (ds : List δ) :
    transaction exec (d :: ds) s = transaction exec ds s' := by
  rw [transaction, h]

/-- A transaction that commits has executed its first statement, and then the others. -/
theorem transaction_cons {d : δ} {ds : List δ} {s t : σ} :
    transaction exec (d :: ds) s = .ok t ↔
      ∃ s', exec d s = .ok s' ∧ transaction exec ds s' = .ok t := by
  rw [transaction]
  cases exec d s <;> simp

theorem autocommit_ok {d : δ} {s s' : σ} (h : exec d s = .ok s') (ds : List δ) :
    autocommit exec (d :: ds) s = autocommit exec ds s' := by
  rw [autocommit, h]

/-- A statement that fails is the end. -/
theorem autocommit_error {d : δ} {s : σ} {e : ε} (h : exec d s = .error e) (ds : List δ) :
    autocommit exec (d :: ds) s = (s, some e) := by
  rw [autocommit, h]

/-- A script in two parts, if the first part has no error. -/
theorem autocommit_append {ds : List δ} : ∀ {s t : σ}, autocommit exec ds s = (t, none) →
    ∀ ds', autocommit exec (ds ++ ds') s = autocommit exec ds' t := by
  induction ds with
  | nil =>
    intro s t h ds'
    obtain ⟨rfl, -⟩ := Prod.mk.inj h
    rfl
  | cons d ds ih =>
    intro s t h ds'
    rw [List.cons_append]
    cases hd : exec d s with
    | ok s' =>
      rw [autocommit_ok hd] at h ⊢
      exact ih h ds'
    | error e =>
      rw [autocommit_error hd] at h
      exact absurd (Prod.mk.inj h).2 (Option.some_ne_none e)

/-- After an error in its first part nothing of the second is executed. -/
theorem autocommit_append_error {ds : List δ} : ∀ {s t : σ} {e : ε},
    autocommit exec ds s = (t, some e) → ∀ ds', autocommit exec (ds ++ ds') s = (t, some e) := by
  induction ds with
  | nil =>
    intro s t e h
    exact absurd (Prod.mk.inj h).2.symm (Option.some_ne_none e)
  | cons d ds ih =>
    intro s t e h ds'
    rw [List.cons_append]
    cases hd : exec d s with
    | ok s' =>
      rw [autocommit_ok hd] at h ⊢
      exact ih h ds'
    | error e' =>
      rw [autocommit_error hd] at h ⊢
      exact h

/-- **Without an error the two ways to run a script end the same.** -/
theorem autocommit_eq_iff {ds : List δ} : ∀ {s t : σ},
    autocommit exec ds s = (t, none) ↔ transaction exec ds s = .ok t := by
  induction ds with
  | nil =>
    intro s t
    simp [autocommit, transaction]
  | cons d ds ih =>
    intro s t
    cases hd : exec d s with
    | ok s' =>
      rw [autocommit_ok hd, transaction_ok hd]
      exact ih
    | error e => simp [autocommit, transaction, hd]

/-- **What every statement keeps, the transaction keeps.** -/
theorem transaction_keeps {I : σ → Prop} {ds : List δ} : ∀ {s t : σ},
    (∀ d ∈ ds, ∀ s s', I s → exec d s = .ok s' → I s') → I s →
    transaction exec ds s = .ok t → I t := by
  induction ds with
  | nil =>
    intro s t _ hs h
    exact Except.ok.inj h ▸ hs
  | cons d ds ih =>
    intro s t hkeep hs h
    obtain ⟨s', hd, h⟩ := transaction_cons.mp h
    exact ih (fun d' hd' => hkeep d' (List.mem_cons_of_mem _ hd'))
      (hkeep d (List.mem_cons_self ..) s s' hs hd) h

/-- **What every statement keeps, the script keeps**, wherever it fails. -/
theorem autocommit_keeps {I : σ → Prop} {ds : List δ} : ∀ {s : σ},
    (∀ d ∈ ds, ∀ s s', I s → exec d s = .ok s' → I s') → I s → I (autocommit exec ds s).1 := by
  induction ds with
  | nil =>
    intro s _ hs
    exact hs
  | cons d ds ih =>
    intro s hkeep hs
    cases hd : exec d s with
    | ok s' =>
      rw [autocommit_ok hd]
      exact ih (fun d' hd' => hkeep d' (List.mem_cons_of_mem _ hd'))
        (hkeep d (List.mem_cons_self ..) s s' hs hd)
    | error e =>
      rw [autocommit_error hd]
      exact hs

end Script

end TableFlow.Lib
