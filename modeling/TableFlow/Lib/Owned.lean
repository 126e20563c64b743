/-
  Tables whose rows have owners, seen by one owner.

  Two tables AGREE for `c` (`Agree`) when both hold the same rows of `c`, and the same keys with the
  same owners.  The rows of the others may differ in every other column.  The tables are ALIGNED
  (`Aligned`) when the rows of `c` are in the same order, too.

  1. Tables that agree can be aligned: however the rows of one are come upon, those of the other may
     be come upon likewise (`Agree.align`, `Agree.align_children` for a second table whose rows refer
     to rows of the first).
  2. A lookup by key finds things that are ALIKE (`Aligned.find`): nothing in both, the same row of
     `c` in both, or somebody else's row in both.
  3. The rows of a second table that refer to a row of `c` are the same (`Aligned.children`), if the
     rows of the second table that refer to any row of `c` are.
-/
import Mathlib.Data.List.Nodup
import Mathlib.Tactic.Common

namespace TableFlow.Lib

/-- The primary key and the owner of a row. -/
structure Ownership (ρ κ ω : Type) where
  key : ρ → κ
  owner : ρ → ω

namespace Ownership

variable {ρ κ ω τ : Type} [BEq κ] [LawfulBEq κ] [BEq ω] [LawfulBEq ω] (O : Ownership ρ κ ω)

/-- The rows of `c`. -/
def own (c : ω) (rows : List ρ) : List ρ := rows.filter fun r => O.owner r == c

/-- The row with the key `k`. -/
def find (rows : List ρ) (k : κ) : Option ρ := rows.find? fun r => O.key r == k

/-- The row with this key is one of `c`. -/
def owns (c : ω) (rows : List ρ) (k : κ) : Bool := rows.any fun r => O.key r == k && O.owner r == c

/-- The rows of a second table that refer to a row of `c`. -/
def ownChildren (parent : τ → κ) (c : ω) (rows : List ρ) (children : List τ) : List τ :=
  children.filter fun x => O.owns c rows (parent x)

/-- What `c` may know of a table is the same for both. -/
structure Agree (c : ω) (rows rows' : List ρ) : Prop where
  own : (O.own c rows).Perm (O.own c rows')
  owners : ∀ k u, (∃ r ∈ rows, O.key r = k ∧ O.owner r = u) ↔
    ∃ r ∈ rows', O.key r = k ∧ O.owner r = u

/-- The tables agree, and the rows of `c` are come upon in the same order. -/
structure Aligned (c : ω) (rows rows' : List ρ) : Prop where
  own : O.own c rows = O.own c rows'
  owners : ∀ k u, (∃ r ∈ rows, O.key r = k ∧ O.owner r = u) ↔
    ∃ r ∈ rows', O.key r = k ∧ O.owner r = u

/-- What was found is the same for all that `c` may know. -/
inductive Alike (c : ω) : Option ρ → Option ρ → Prop
  | missing : Alike c none none
  | own {r : ρ} : O.owner r = c → Alike c (some r) (some r)
  | foreign {r r' : ρ} : O.owner r ≠ c → O.owner r' ≠ c → Alike c (some r) (some r')

variable {O} {c : ω} {rows rows' : List ρ}

omit [BEq κ] [LawfulBEq κ] in
theorem mem_own {r : ρ} : r ∈ O.own c rows ↔ r ∈ rows ∧ O.owner r = c := by
  simp [own]

omit [BEq ω] [LawfulBEq ω] in
theorem find_some {k : κ} {r : ρ} (h : O.find rows k = some r) : r ∈ rows ∧ O.key r = k :=
  ⟨List.mem_of_find?_eq_some h, by simpa using List.find?_some h⟩

omit [BEq ω] [LawfulBEq ω] in
/-- With distinct keys, a row is found under its own key. -/
theorem find_mem (hkeys : (rows.map O.key).Nodup) {r : ρ} (hr : r ∈ rows) :
    O.find rows (O.key r) = some r := by
  obtain ⟨r', hr'⟩ : ∃ r', O.find rows (O.key r) = some r' :=
    Option.isSome_iff_exists.mp (List.find?_isSome.mpr ⟨r, hr, beq_self_eq_true _⟩)
  obtain ⟨hmem, hk⟩ := find_some hr'
  rw [hr', List.inj_on_of_nodup_map hkeys hmem hr hk]

/-! ## Alignment -/

/-- Any order of some of the rows is the order in which they are come upon in some order of all. -/
theorem exists_perm_filter_eq {q : τ → Bool} {l l' l₁ : List τ}
    (h : (l.filter q).Perm (l'.filter q)) (h₁ : l₁.Perm l) :
    ∃ l₁' : List τ, l₁'.Perm l' ∧ l₁'.filter q = l₁.filter q := by
  refine ⟨l₁.filter q ++ l'.filter fun x => !q x, ?_, ?_⟩
  · have hq : (l₁.filter q).Perm (l'.filter q) := (h₁.filter q).trans h
    exact (hq.append_right _).trans (List.filter_append_perm q l')
  · have hnone : (l'.filter fun x => !q x).filter q = [] := by
      rw [List.filter_filter, List.filter_eq_nil_iff]
      intro x _
      cases q x <;> decide
    rw [List.filter_append, List.filter_filter, hnone, List.append_nil]
    exact List.filter_congr fun x _ => Bool.and_self _

omit [BEq κ] [LawfulBEq κ] [BEq ω] [LawfulBEq ω] in
/-- Rows in another order have the same keys and owners. -/
theorem owners_perm (h : rows.Perm rows') (k : κ) (u : ω) :
    (∃ r ∈ rows, O.key r = k ∧ O.owner r = u) ↔ ∃ r ∈ rows', O.key r = k ∧ O.owner r = u :=
  exists_congr fun _ => and_congr_left fun _ => h.mem_iff

omit [BEq κ] [LawfulBEq κ] [LawfulBEq ω] in
/-- **However the rows of one table are come upon, those of the other may be likewise.** -/
theorem Agree.align (h : O.Agree c rows rows') {rows₁ : List ρ} (h₁ : rows₁.Perm rows) :
    ∃ rows₁' : List ρ, rows₁'.Perm rows' ∧ O.Aligned c rows₁ rows₁' := by
  obtain ⟨rows₁', hperm, hown⟩ := exists_perm_filter_eq h.own h₁
  refine ⟨rows₁', hperm, hown.symm, fun k u => ?_⟩
  rw [owners_perm h₁, h.owners, owners_perm hperm]

/-- Tables with the same keys and owners have the same keys of `c`. -/
theorem owns_congr (h : ∀ k u, (∃ r ∈ rows, O.key r = k ∧ O.owner r = u) ↔
    ∃ r ∈ rows', O.key r = k ∧ O.owner r = u) : O.owns c rows = O.owns c rows' := by
  funext k
  unfold owns
  rw [Bool.eq_iff_iff, List.any_eq_true, List.any_eq_true]
  simpa using h k c

/-- **The rows that refer to rows of `c`, likewise.** -/
theorem Agree.align_children (h : O.Agree c rows rows') {parent : τ → κ} {children children' : List τ}
    (hch : (O.ownChildren parent c rows children).Perm (O.ownChildren parent c rows' children'))
    {rows₁ rows₁' : List ρ} (h₁ : rows₁.Perm rows) (h₁' : rows₁'.Perm rows')
    {children₁ : List τ} (hch₁ : children₁.Perm children) :
    ∃ children₁' : List τ, children₁'.Perm children' ∧
      O.ownChildren parent c rows₁ children₁ = O.ownChildren parent c rows₁' children₁' := by
  have howns : O.owns c rows = O.owns c rows' := owns_congr h.owners
  have howns₁ : O.owns c rows₁ = O.owns c rows := owns_congr (owners_perm h₁)
  have howns₁' : O.owns c rows₁' = O.owns c rows' := owns_congr (owners_perm h₁')
  unfold ownChildren at hch ⊢
  rw [howns₁', howns₁, howns]
  rw [howns] at hch
  obtain ⟨children₁', hperm, heq⟩ := exists_perm_filter_eq hch hch₁
  exact ⟨children₁', hperm, heq.symm⟩

/-! ## Aligned tables -/

omit [BEq κ] [LawfulBEq κ] in
/-- `c`'s rows are in both tables. -/
theorem Aligned.mem (h : O.Aligned c rows rows') {r : ρ} (hr : r ∈ rows) (hc : O.owner r = c) :
    r ∈ rows' := by
  have hown : r ∈ O.own c rows := mem_own.mpr ⟨hr, hc⟩
  rw [h.own] at hown
  exact (mem_own.mp hown).1

/-- **A lookup finds what is alike.** -/
theorem Aligned.find (h : O.Aligned c rows rows') (hkeys : (rows.map O.key).Nodup)
    (hkeys' : (rows'.map O.key).Nodup) (k : κ) : O.Alike c (O.find rows k) (O.find rows' k) := by
  cases hf : O.find rows k with
  | none =>
    cases hf' : O.find rows' k with
    | none => exact .missing
    | some r' =>
      -- its key has an owner in one table, so it has one in the other
      obtain ⟨hr', hk'⟩ := find_some hf'
      obtain ⟨r, hr, hk, -⟩ := (h.owners k _).mpr ⟨r', hr', hk', rfl⟩
      rw [← hk, find_mem hkeys hr] at hf
      exact absurd hf (by simp)
  | some r =>
    obtain ⟨hr, rfl⟩ := find_some hf
    by_cases hc : O.owner r = c
    · rw [find_mem hkeys' (h.mem hr hc)]
      exact .own hc
    · obtain ⟨r', hr', hk', ho'⟩ := (h.owners _ _).mp ⟨r, hr, rfl, rfl⟩
      rw [← hk', find_mem hkeys' hr']
      exact .foreign hc (by rw [ho']; exact hc)

/-- What refers to one row of `c` is among what refers to any. -/
theorem filter_ownChildren {parent : τ → κ} {children : List τ} {r : ρ} (hr : r ∈ rows)
    (hc : O.owner r = c) :
    (O.ownChildren parent c rows children).filter (fun x => parent x == O.key r)
      = children.filter fun x => parent x == O.key r := by
  unfold ownChildren owns
  rw [List.filter_filter]
  refine List.filter_congr fun x _ => ?_
  cases hx : parent x == O.key r with
  | false => rfl
  | true =>
    rw [Bool.true_and]
    refine List.any_eq_true.mpr ⟨r, hr, ?_⟩
    rw [eq_of_beq hx, hc]
    simp

/-- **Rows that refer to a row of `c` are the same**, if those that refer to any are. -/
theorem Aligned.children (h : O.Aligned c rows rows') {parent : τ → κ} {children children' : List τ}
    (hch : O.ownChildren parent c rows children = O.ownChildren parent c rows' children') {r : ρ}
    (hr : r ∈ rows) (hc : O.owner r = c) :
    (children.filter fun x => parent x == O.key r)
      = children'.filter fun x => parent x == O.key r := by
  rw [← filter_ownChildren hr hc, hch, filter_ownChildren (h.mem hr hc) hc]

end Ownership

end TableFlow.Lib
