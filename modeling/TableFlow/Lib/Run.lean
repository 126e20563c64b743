/-
  Labelled machines, their runs and their invariants.

  A `Machine` is a partial step function: `step s l` is the state after the label `l`, and `none`
  when `l` cannot happen in `s`.  Two readings of "every run" are used by its clients:

  1. **Reachability** (`Reach C s₀`): the states a run from `s₀` can be in when every step of the
     run meets the condition `C` (a predicate on the state BEFORE the step and on its label).
     `Reach.invariant` is the induction every safety argument goes through.

  2. **Runs as lists of labels** (`AllSteps`, `AllStates`): for one given list of labels, "every
     step meets `C`" and "every state passed through satisfies `P`".  `allStates_iff_allSteps`
     says when the two are the same statement: `C` is then the EXACT condition for `P` to hold all
     along the run, not only a sufficient one.
-/
import Mathlib.Data.List.Nodup
import Mathlib.Tactic.Common

namespace TableFlow.Lib

/-- A machine with states `σ` and labels `α`. -/
structure Machine (σ α : Type) where
  /-- The state after a label, `none` when the label cannot happen. -/
  step : σ → α → Option σ

namespace Machine

variable {σ α : Type} (M : Machine σ α)

/-! ## Runs -/

/-- The state at the end of a list of labels, `none` if one of them cannot happen. -/
def run : σ → List α → Option σ
  | s, [] => some s
  | s, l :: ls => (M.step s l).bind fun s' => run s' ls

@[simp] theorem run_nil (s : σ) : M.run s [] = some s := rfl

theorem run_cons {s s' : σ} {l : α} {ls : List α} (h : M.step s l = some s') :
    M.run s (l :: ls) = M.run s' ls := by
  show (M.step s l).bind (fun s' => M.run s' ls) = M.run s' ls
  rw [h]; rfl

theorem run_append (ls ls' : List α) : ∀ s : σ,
    M.run s (ls ++ ls') = (M.run s ls).bind fun s' => M.run s' ls' := by
  induction ls with
  | nil => intro s; rfl
  | cons l ls ih =>
    intro s
    show (M.step s l).bind (fun s' => M.run s' (ls ++ ls'))
        = ((M.step s l).bind fun s' => M.run s' ls).bind fun s' => M.run s' ls'
    rw [Option.bind_assoc]
    congr 1
    funext s'
    exact ih s'

/-- A value read off the end of a run. -/
theorem run_eval {β : Type} (f : σ → β) {s s' : σ} {ls : List α} {b : β}
    (h : M.run s ls = some s') (hf : (M.run s ls).map f = some b) : f s' = b := by
  rw [h] at hf
  exact Option.some.inj hf

/-! ## Reachability under a condition on the steps -/

/-- `Reach C s₀ s`: some run leads from `s₀` to `s`, and every step of it meets `C`. -/
inductive Reach (C : σ → α → Prop) (s₀ : σ) : σ → Prop
  | refl : Reach C s₀ s₀
  | tail {s s' : σ} {l : α} : Reach C s₀ s → C s l → M.step s l = some s' → Reach C s₀ s'

namespace Reach

variable {M} {C D : σ → α → Prop} {s₀ s s' : σ}

/-- **The invariant rule**: what holds at the start and is kept by every step that meets the
    condition holds in every state reached. -/
theorem invariant {I : σ → Prop} (h : M.Reach C s₀ s) (h0 : I s₀)
    (hstep : ∀ s l s', I s → C s l → M.step s l = some s' → I s') : I s := by
  induction h with
  | refl => exact h0
  | tail _ hC hst ih => exact hstep _ _ _ ih hC hst

/-- The invariant rule with the run so far at hand: the step may use earlier invariants. -/
theorem invariant' {I : σ → Prop} (h : M.Reach C s₀ s) (h0 : I s₀)
    (hstep : ∀ s l s', M.Reach C s₀ s → I s → C s l → M.step s l = some s' → I s') : I s := by
  induction h with
  | refl => exact h0
  | tail hr hC hst ih => exact hstep _ _ _ hr ih hC hst

theorem mono (hCD : ∀ s l, C s l → D s l) (h : M.Reach C s₀ s) : M.Reach D s₀ s := by
  induction h with
  | refl => exact .refl
  | tail _ hC hst ih => exact .tail ih (hCD _ _ hC) hst

theorem trans {s₁ : σ} (h : M.Reach C s₀ s₁) (h' : M.Reach C s₁ s) : M.Reach C s₀ s := by
  induction h' with
  | refl => exact h
  | tail _ hC hst ih => exact .tail ih hC hst

/-- A list of labels that runs through is a run under any condition its labels always meet. -/
theorem of_labels {ls : List α} : ∀ {s : σ}, (∀ l ∈ ls, ∀ s, C s l) → M.run s ls = some s' →
    M.Reach C s s' := by
  induction ls with
  | nil =>
    intro s _ h
    obtain rfl : s = s' := Option.some.inj h
    exact .refl
  | cons l ls ih =>
    intro s hC h
    obtain ⟨s₁, hs₁, h'⟩ := Option.bind_eq_some_iff.mp h
    exact trans (.tail .refl (hC l (List.mem_cons_self ..) s) hs₁)
      (ih (fun l' hl' => hC l' (List.mem_cons_of_mem _ hl')) h')

/-- A list of labels that runs through is a run, when no condition is asked of the steps. -/
theorem of_run {ls : List α} (h : M.run s₀ ls = some s) : M.Reach (fun _ _ => True) s₀ s :=
  of_labels (fun _ _ _ => trivial) h

end Reach

/-! ## The steps and the states of one given run -/

/-- Every step of the run `ls` from `s` meets `C`. -/
def AllSteps (C : σ → α → Prop) : σ → List α → Prop
  | _, [] => True
  | s, l :: ls => ∀ s', M.step s l = some s' → C s l ∧ AllSteps C s' ls

/-- Every state the run `ls` from `s` passes through satisfies `P`, `s` included. -/
def AllStates (P : σ → Prop) : σ → List α → Prop
  | s, [] => P s
  | s, l :: ls => P s ∧ ∀ s', M.step s l = some s' → AllStates P s' ls

variable {M}

/-- A condition that can be computed is checked by following the run. -/
instance AllSteps.decidable {C : σ → α → Prop} [∀ s l, Decidable (C s l)] :
    ∀ (s : σ) (ls : List α), Decidable (M.AllSteps C s ls)
  | _, [] => inferInstanceAs (Decidable True)
  | s, l :: ls =>
    match h : M.step s l with
    | none => .isTrue fun s' hs' => absurd (h.symm.trans hs') (by simp)
    | some s₁ =>
      have := AllSteps.decidable (C := C) s₁ ls
      decidable_of_iff (C s l ∧ M.AllSteps C s₁ ls)
        ⟨fun hall s' hs' => by rw [← Option.some.inj (h.symm.trans hs')]; exact hall,
          fun hall => hall s₁ h⟩

theorem AllSteps.mono {C D : σ → α → Prop} (hCD : ∀ s l, C s l → D s l) {ls : List α} :
    ∀ {s : σ}, M.AllSteps C s ls → M.AllSteps D s ls := by
  induction ls with
  | nil => exact fun _ => trivial
  | cons l ls ih =>
    intro s h s' hst
    exact ⟨hCD s l (h s' hst).1, ih (h s' hst).2⟩

/-- An invariant of the steps with labels in `A` makes them meet what follows from it. -/
theorem AllSteps.of_invariant {C : σ → α → Prop} {I : σ → Prop} {A : α → Prop} {ls : List α}
    (hC : ∀ s l, I s → A l → C s l)
    (hI : ∀ s l s', I s → A l → M.step s l = some s' → I s') :
    (∀ l ∈ ls, A l) → ∀ s, I s → M.AllSteps C s ls := by
  induction ls with
  | nil => exact fun _ _ _ => trivial
  | cons l ls ih =>
    intro hA s hs s' hst
    have hl : A l := hA l (List.mem_cons_self ..)
    exact ⟨hC s l hs hl, ih (fun l' hl' => hA l' (List.mem_cons_of_mem _ hl')) s'
      (hI s l s' hs hl hst)⟩

/-- Labels that always meet the condition make steps that meet it. -/
theorem AllSteps.of_labels {C : σ → α → Prop} {ls : List α} (h : ∀ l ∈ ls, ∀ s, C s l) (s : σ) :
    M.AllSteps C s ls :=
  AllSteps.of_invariant (I := fun _ => True) (fun s _ _ hl => hl s) (fun _ _ _ _ _ _ => trivial) h
    s trivial

/-- A run whose steps meet the condition reaches its end under it. -/
theorem AllSteps.reach {C : σ → α → Prop} {ls : List α} : ∀ {s s' : σ}, M.AllSteps C s ls →
    M.run s ls = some s' → M.Reach C s s' := by
  induction ls with
  | nil =>
    intro s s' _ hrun
    obtain rfl := Option.some.inj hrun
    exact .refl
  | cons l ls ih =>
    intro s s' hall hrun
    obtain ⟨s₁, hs₁, hrun⟩ := Option.bind_eq_some_iff.mp hrun
    exact .trans (.tail .refl (hall s₁ hs₁).1 hs₁) (ih (hall s₁ hs₁).2 hrun)

/-- The state a run starts in is one of its states. -/
theorem AllStates.head {P : σ → Prop} {s : σ} {ls : List α} (h : M.AllStates P s ls) : P s := by
  cases ls with
  | nil => exact h
  | cons l ls => exact h.1

/-- The state a run ends in is one of its states. -/
theorem AllStates.last {P : σ → Prop} {ls : List α} : ∀ {s s' : σ}, M.AllStates P s ls →
    M.run s ls = some s' → P s' := by
  induction ls with
  | nil =>
    intro s s' h hrun
    rw [← Option.some.inj hrun]
    exact h
  | cons l ls ih =>
    intro s s' h hrun
    obtain ⟨s₁, hs₁, hrun⟩ := Option.bind_eq_some_iff.mp hrun
    exact ih (h.2 s₁ hs₁) hrun

theorem AllStates.mono {P Q : σ → Prop} (hPQ : ∀ s, P s → Q s) {ls : List α} :
    ∀ {s : σ}, M.AllStates P s ls → M.AllStates Q s ls := by
  induction ls with
  | nil => exact fun h => hPQ _ h
  | cons l ls ih => exact fun h => ⟨hPQ _ h.1, fun s' hst => ih (h.2 s' hst)⟩

/-- What the steps that meet `C` keep holds all along a run whose steps meet it. -/
theorem AllSteps.allStates {A : α → Prop} {C : σ → α → Prop} {I : σ → Prop}
    (hkeep : ∀ s l s', A l → I s → C s l → M.step s l = some s' → I s') :
    ∀ {ls : List α} {s : σ}, (∀ l ∈ ls, A l) → I s → M.AllSteps C s ls → M.AllStates I s ls := by
  intro ls
  induction ls with
  | nil => exact fun _ hI _ => hI
  | cons l ls ih =>
    intro s hA hI hall
    refine ⟨hI, fun s' hst => ?_⟩
    obtain ⟨hC, hrest⟩ := hall s' hst
    exact ih (fun l' hl' => hA l' (List.mem_cons_of_mem _ hl'))
      (hkeep s l s' (hA l (List.mem_cons_self ..)) hI hC hst) hrest

/-- **Damage that stays.**  A step that does not meet `C` leads to a state with `B`, and no step
    takes `B` away: then every step of a run that ends without `B` has met `C`. -/
theorem allSteps_of_not {A : α → Prop} {C : σ → α → Prop} {J B : σ → Prop}
    (hJ : ∀ s l s', A l → J s → M.step s l = some s' → J s')
    (hbreak : ∀ s l s', A l → J s → ¬ C s l → M.step s l = some s' → B s')
    (hstay : ∀ s l s', A l → J s → B s → M.step s l = some s' → B s') :
    ∀ {ls : List α} {s t : σ}, (∀ l ∈ ls, A l) → J s → M.run s ls = some t → ¬ B t →
      ¬ B s ∧ M.AllSteps C s ls := by
  intro ls
  induction ls with
  | nil =>
    intro s t _ _ hrun hB
    obtain rfl := Option.some.inj hrun
    exact ⟨hB, trivial⟩
  | cons l ls ih =>
    intro s t hA hs hrun hB
    have hl := hA l (List.mem_cons_self ..)
    obtain ⟨s₁, hs₁, hrun⟩ := Option.bind_eq_some_iff.mp hrun
    obtain ⟨hB₁, hrest⟩ := ih (fun l' hl' => hA l' (List.mem_cons_of_mem _ hl'))
      (hJ s l s₁ hl hs hs₁) hrun hB
    refine ⟨fun hBs => hB₁ (hstay s l s₁ hl hs hBs hs₁), fun s' hst => ?_⟩
    obtain rfl := Option.some.inj (hs₁.symm.trans hst)
    exact ⟨by_contra fun hC => hB₁ (hbreak s l s₁ hl hs hC hs₁), hrest⟩

/-- **The exact condition.**  If `P` (with an auxiliary invariant `J`) survives every step that
    meets `C`, and is lost by every step that does not, then along any run of labels in `A` "always
    `P`" and "every step meets `C`" say the same thing. -/
theorem allStates_iff_allSteps {A : α → Prop} {C : σ → α → Prop} {P J : σ → Prop}
    (hkeep : ∀ s l s', A l → J s → P s → C s l → M.step s l = some s' → J s' ∧ P s')
    (hlose : ∀ s l s', A l → J s → P s → ¬ C s l → M.step s l = some s' → ¬ P s') :
    ∀ (ls : List α) (s : σ), (∀ l ∈ ls, A l) → J s → P s →
      (M.AllStates P s ls ↔ M.AllSteps C s ls) := by
  intro ls s hA hJ hP
  constructor
  · induction ls generalizing s with
    | nil => exact fun _ => trivial
    | cons l ls ih =>
      rintro ⟨-, hrest⟩ s' hst
      have hl : A l := hA l (List.mem_cons_self ..)
      have hC : C s l := by
        by_contra hC
        exact hlose s l s' hl hJ hP hC hst (hrest s' hst).head
      obtain ⟨hJ', hP'⟩ := hkeep s l s' hl hJ hP hC hst
      exact ⟨hC, ih s' (fun l' hl' => hA l' (List.mem_cons_of_mem _ hl')) hJ' hP' (hrest s' hst)⟩
  · intro hall
    have hboth : M.AllStates (fun s => J s ∧ P s) s ls :=
      AllSteps.allStates (fun s l s' hl hs hC hst => hkeep s l s' hl hs.1 hs.2 hC hst) hA ⟨hJ, hP⟩
        hall
    exact hboth.mono fun _ h => h.2

end Machine

/-! ## Numbered tasks

A state that serves many tasks has them in a list, each under its number: a new one is put at the
end, and one that moves is replaced by what it has become. -/

section Slots

variable {α : Type} {xs : List α} {x y : α} {i j : Nat}

/-- A list of rows stays without repeats when a row with a new key is added. -/
theorem nodup_map_concat {ρ κ : Type} {f : ρ → κ} {rows : List ρ} {r : ρ}
    (h : (rows.map f).Nodup) (hr : ∀ x ∈ rows, f x ≠ f r) : ((rows ++ [r]).map f).Nodup := by
  rw [List.map_append, List.map_singleton, ← List.concat_eq_append]
  refine List.Nodup.concat (fun hmem => ?_) h
  obtain ⟨x, hx, heq⟩ := List.mem_map.mp hmem
  exact hr x hx heq

/-- The tasks there are keep their numbers. -/
theorem slot_append (h : xs[i]? = some y) (zs : List α) : (xs ++ zs)[i]? = some y := by
  rw [List.getElem?_append_left (List.getElem?_eq_some_iff.mp h).1]
  exact h

/-- A task after one has arrived: an old one, or the new one. -/
theorem slot_of_concat (h : (xs ++ [x])[i]? = some y) :
    xs[i]? = some y ∨ i = xs.length ∧ y = x := by
  by_cases hi : i < xs.length
  · rw [List.getElem?_append_left hi] at h
    exact Or.inl h
  · have hlt := (List.getElem?_eq_some_iff.mp h).1
    rw [List.length_append, List.length_singleton] at hlt
    rw [List.getElem?_append_right (Nat.le_of_not_lt hi)] at h
    exact Or.inr ⟨by omega, List.mem_singleton.mp (List.mem_of_getElem? h)⟩

/-- A task after one has moved: the one that moved, or an old one. -/
theorem slot_of_set (h : (xs.set i x)[j]? = some y) :
    j = i ∧ y = x ∨ j ≠ i ∧ xs[j]? = some y := by
  by_cases hj : j = i
  · subst hj
    have hlt := (List.getElem?_eq_some_iff.mp h).1
    rw [List.length_set] at hlt
    rw [List.getElem?_set_self hlt] at h
    exact Or.inl ⟨rfl, (Option.some.inj h).symm⟩
  · rw [List.getElem?_set_ne fun h => hj h.symm] at h
    exact Or.inr ⟨hj, h⟩

end Slots

end TableFlow.Lib
