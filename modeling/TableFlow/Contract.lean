/-
  Revision 0004: what is left of an attempt, and what is lost by one that completes.

  1. **Rerunning** (`rerun_completes_iff`) — an attempt that is aborted between an ADD CONSTRAINT and
     its DROP CONSTRAINT leaves the constraint, and every later attempt fails at adding it again.
     Attempts that are aborted anywhere else leave nothing in the way.
  2. **Dropping** (`contract_keeps_names_iff`) — the upgrade counts the rows without first name, not
     those whose names differ.  What it drops can be rebuilt exactly where the new columns hold the
     words of `guest_name`, without superfluous blanks.
-/
import TableFlow.Alembic

namespace TableFlow.Alembic

open Lib

/-! ## One column made NOT NULL -/

section Steps

variable {db : Db} {c : Column}

/-- **All four statements**: the column is NOT NULL and the check is gone again. -/
theorem notNullStepsOf_done (hcheck : db.checks = []) (hcol : (db.schema.column c).isSome = true)
    (hnull : db.hasNull c = false) :
    autocommit exec (Db.notNullStepsOf c) db = (db.required c, none) := by
  have hadd : exec (.addCheck c) db = .ok { db with checks := [⟨c, false⟩] } := by
    have hfree : db.hasCheck c = false := by unfold Db.hasCheck; rw [hcheck]; rfl
    have h := exec_ok_iff.mpr (Executed.addCheck hfree hcol)
    rwa [hcheck] at h
  have hvalidate : exec (.validateCheck c) { db with checks := [⟨c, false⟩] }
      = .ok { db with checks := [⟨c, true⟩] } := by
    have h : Executed { db with checks := [⟨c, false⟩] } (.validateCheck c) _ :=
      .validateCheck (by simp [Db.hasCheck]) hnull
    simpa using exec_ok_iff.mpr h
  have hset : exec (.setNotNull c) { db with checks := [⟨c, true⟩] }
      = .ok { db.required c with checks := [⟨c, true⟩] } :=
    exec_ok_iff.mpr (.setNotNull hcol hnull)
  have hdrop : exec (.dropCheck c) { db.required c with checks := [⟨c, true⟩] }
      = .ok (db.required c) := by
    have h : Executed { db.required c with checks := [⟨c, true⟩] } (.dropCheck c) _ :=
      .dropCheck (by simp [Db.hasCheck])
    simpa [Db.required, hcheck] using exec_ok_iff.mpr h
  unfold Db.notNullStepsOf
  rw [autocommit_ok hadd, autocommit_ok hvalidate, autocommit_ok hset, autocommit_ok hdrop]
  rfl

/-- **Fewer than four of them**: the check stays. -/
theorem notNullStepsOf_take (hcheck : db.hasCheck c = false)
    (hcol : (db.schema.column c).isSome = true) {k : Nat} (h0 : k ≠ 0) (h4 : k < 4) :
    (autocommit exec ((Db.notNullStepsOf c).take k) db).1.hasCheck c = true := by
  obtain ⟨j, rfl⟩ := Nat.exists_eq_succ_of_ne_zero h0
  have hadd := exec_ok_iff.mpr (Executed.addCheck hcheck hcol)
  unfold Db.notNullStepsOf
  rw [List.take_succ_cons, autocommit_ok hadd]
  refine autocommit_keeps (I := fun t : Db => t.hasCheck c = true) (fun d hd s t hs ht => ?_)
    (by simp [Db.hasCheck])
  have hmem : d = .validateCheck c ∨ d = .setNotNull c := by
    simpa using List.take_subset_take_left _ (show j ≤ 2 by omega) hd
  rcases hmem with rfl | rfl
  · cases exec_ok_iff.mp ht with
    | validateCheck _ _ =>
      obtain ⟨k, hk, hkc⟩ := List.any_eq_true.mp hs
      refine List.any_eq_true.mpr ⟨_, List.mem_map_of_mem hk, ?_⟩
      split <;> exact hkc
  · cases exec_ok_iff.mp ht with
    | setNotNull _ _ => exact hs

/-- **A check that is left behind cannot be added again.** -/
theorem notNullStepsOf_stuck (h : db.hasCheck c = true) :
    autocommit exec (Db.notNullStepsOf c) db = (db, some (.duplicateConstraint c)) := by
  have hadd : exec (.addCheck c) db = .error (.duplicateConstraint c) := if_pos h
  exact autocommit_error hadd _

/-- So nothing happens any more. -/
theorem notNullStepsOf_stuck_take (h : db.hasCheck c = true) (k : Nat) :
    (autocommit exec ((Db.notNullStepsOf c).take k) db).1 = db := by
  cases k with
  | zero => rfl
  | succ k =>
    have hadd : exec (.addCheck c) db = .error (.duplicateConstraint c) := if_pos h
    unfold Db.notNullStepsOf
    rw [List.take_succ_cons, autocommit_error hadd]

end Steps

/-! ## Attempts -/

/-- Revision 0003 before the first attempt at 0004, with any content. -/
def Db.relaxed (rows : List Reservation) (clock : Nat) : Db :=
  ⟨.r0003, Revision.r0003.schema, [], true, rows, clock⟩

/-- An attempt that is aborted at its statement `k` has no check constraint in the table then. -/
def BetweenChecks (k : Nat) : Prop := k = 0 ∨ k = 4 ∨ 8 ≤ k

/-- Nothing is in the way of 0004. -/
structure Ready (rows : List Reservation) (db : Db) : Prop where
  filled : ∀ r ∈ rows, r.firstName ≠ none ∧ r.lastName ≠ none
  rows : db.rows = rows
  checks : db.checks = []
  columns : ∀ c, (db.schema.column c).isSome = true
  index : db.backfillIndex = true

/-- A check constraint has been left behind. -/
def Stuck (db : Db) : Prop := db.hasCheck .firstName = true ∨ db.hasCheck .lastName = true

section Attempts

variable {rows : List Reservation} {db : Db}

theorem Ready.hasNull (h : Ready rows db) {c : Column} (hc : c ≠ .guestName) :
    db.hasNull c = false := by
  refine List.any_eq_false.mpr fun r hr => ?_
  rw [h.rows] at hr
  obtain ⟨hf, hl⟩ := h.filled r hr
  cases c with
  | guestName => exact absurd rfl hc
  | firstName => simpa [Reservation.get] using hf
  | lastName => simpa [Reservation.get] using hl

theorem Ready.unmigrated (h : Ready rows db) : db.unmigrated = 0 := by
  refine List.countP_eq_zero.mpr fun r hr => ?_
  rw [h.rows] at hr
  simpa using (h.filled r hr).1

/-- Making a column NOT NULL keeps the way free. -/
theorem Ready.required (h : Ready rows db) (c : Column) : Ready rows (db.required c) where
  filled := h.filled
  rows := h.rows
  checks := h.checks
  columns := by
    intro c'
    show ((setColumn db.schema c (some ⟨false⟩)).column c').isSome = true
    rw [column_setColumn]
    split
    · rfl
    · exact h.columns c'
  index := h.index

theorem Ready.steps (h : Ready rows db) {c : Column} (hc : c ≠ .guestName) :
    autocommit exec (Db.notNullStepsOf c) db = (db.required c, none) :=
  notNullStepsOf_done h.checks (h.columns c) (h.hasNull hc)

theorem Ready.hasCheck (h : Ready rows db) (c : Column) : db.hasCheck c = false := by
  unfold Db.hasCheck
  rw [h.checks]
  rfl

/-- All eight statements. -/
theorem Ready.allSteps (h : Ready rows db) :
    autocommit exec Db.notNullSteps db
      = ((db.required .firstName).required .lastName, none) := by
  unfold Db.notNullSteps
  rw [autocommit_append (h.steps (c := .firstName) nofun)]
  exact (h.required .firstName).steps (c := .lastName) nofun

/-- The first `k` statements are some of those for `first_name`, or all of them and some of those
    for `last_name`. -/
theorem notNullSteps_take (k : Nat) :
    Db.notNullSteps.take k
      = if k < 4 then (Db.notNullStepsOf .firstName).take k
        else Db.notNullStepsOf .firstName ++ (Db.notNullStepsOf .lastName).take (k - 4) := by
  unfold Db.notNullSteps
  rw [List.take_append]
  have hlen : (Db.notNullStepsOf .firstName).length = 4 := rfl
  rw [hlen]
  split
  · next hk => rw [Nat.sub_eq_zero_of_le (Nat.le_of_lt hk), List.take_zero, List.append_nil]
  · next hk => rw [List.take_of_length_le (Nat.le_of_not_lt hk)]

/-- **An attempt aborted between the checks leaves the way free.** -/
theorem Ready.abort (h : Ready rows db) {k : Nat} (hk : BetweenChecks k) :
    Ready rows (db.abort0004 k) := by
  unfold Db.abort0004
  rw [if_neg (not_not.mpr h.unmigrated)]
  rcases hk with rfl | rfl | hk
  · exact h
  · rw [notNullSteps_take, if_neg (by omega), Nat.sub_self, List.take_zero, List.append_nil,
      h.steps (c := .firstName) nofun]
    exact h.required .firstName
  · rw [List.take_of_length_le (show Db.notNullSteps.length ≤ k from hk), h.allSteps]
    exact (h.required .firstName).required .lastName

/-- **Any other aborted attempt leaves a check behind.** -/
theorem Ready.abort_stuck (h : Ready rows db) {k : Nat} (hk : ¬ BetweenChecks k) :
    Stuck (db.abort0004 k) := by
  obtain ⟨h0, h4, h8⟩ : k ≠ 0 ∧ k ≠ 4 ∧ ¬ 8 ≤ k := by simpa [BetweenChecks] using hk
  unfold Db.abort0004
  rw [if_neg (not_not.mpr h.unmigrated), notNullSteps_take]
  split
  · next hlt => exact Or.inl (notNullStepsOf_take (h.hasCheck _) (h.columns _) h0 hlt)
  · next hge =>
    rw [autocommit_append (h.steps (c := .firstName) nofun)]
    have h' := h.required .firstName
    exact Or.inr (notNullStepsOf_take (h'.hasCheck _) (h'.columns _) (by omega) (by omega))

/-- The statements for `first_name` do not touch the check on `last_name`. -/
theorem firstName_keeps_check (h : db.hasCheck .lastName = true) (k : Nat) :
    (autocommit exec ((Db.notNullStepsOf .firstName).take k) db).1.hasCheck .lastName = true := by
  refine autocommit_keeps (I := fun t : Db => t.hasCheck .lastName = true) (fun d hd s t hs ht => ?_) h
  obtain ⟨x, hx, hxc⟩ := List.any_eq_true.mp hs
  have hmem := List.mem_of_mem_take hd
  simp only [Db.notNullStepsOf, List.mem_cons, List.not_mem_nil, or_false] at hmem
  rcases hmem with rfl | rfl | rfl | rfl
  · cases exec_ok_iff.mp ht with
    | addCheck _ _ => exact List.any_eq_true.mpr ⟨x, List.mem_append_left _ hx, hxc⟩
  · cases exec_ok_iff.mp ht with
    | validateCheck _ _ =>
      refine List.any_eq_true.mpr ⟨_, List.mem_map_of_mem hx, ?_⟩
      split <;> exact hxc
  · cases exec_ok_iff.mp ht with
    | setNotNull _ _ => exact hs
  · cases exec_ok_iff.mp ht with
    | dropCheck _ =>
      refine List.any_eq_true.mpr ⟨x, List.mem_filter.mpr ⟨hx, ?_⟩, hxc⟩
      rw [eq_of_beq hxc]
      decide

/-- **A check that is left behind stays.** -/
theorem Stuck.abort (h : Stuck db) (k : Nat) : Stuck (db.abort0004 k) := by
  unfold Db.abort0004
  split
  · exact h
  · rw [notNullSteps_take]
    rcases h with h | h
    · left
      split
      · rw [notNullStepsOf_stuck_take h]
        exact h
      · rw [autocommit_append_error (notNullStepsOf_stuck h)]
        exact h
    · right
      have hfirst := firstName_keeps_check h
      split
      · exact hfirst k
      · have hall := hfirst 4
        rw [show (Db.notNullStepsOf .firstName).take 4 = Db.notNullStepsOf .firstName from rfl]
          at hall
        cases hrun : autocommit exec (Db.notNullStepsOf .firstName) db with
        | mk t e =>
          rw [hrun] at hall
          cases e with
          | none =>
            rw [autocommit_append hrun, notNullStepsOf_stuck_take hall]
            exact hall
          | some e =>
            rw [autocommit_append_error hrun]
            exact hall

/-- **With a check left behind the upgrade fails.** -/
theorem Stuck.fails (h : Stuck db) : db.upgrade0004.2 ≠ none := by
  have hsteps : ∃ t e, autocommit exec Db.notNullSteps db = (t, some e) := by
    rcases h with h | h
    · exact ⟨db, _, autocommit_append_error (notNullStepsOf_stuck h) _⟩
    · have hall : (autocommit exec (Db.notNullStepsOf .firstName) db).1.hasCheck .lastName = true :=
        firstName_keeps_check h 4
      unfold Db.notNullSteps
      cases hrun : autocommit exec (Db.notNullStepsOf .firstName) db with
      | mk t e =>
        rw [hrun] at hall
        cases e with
        | none => exact ⟨t, _, (autocommit_append hrun _).trans (notNullStepsOf_stuck hall)⟩
        | some e => exact ⟨t, e, autocommit_append_error hrun _⟩
  obtain ⟨t, e, hsteps⟩ := hsteps
  unfold Db.upgrade0004
  split
  · exact Option.some_ne_none _
  · rw [hsteps]
    exact Option.some_ne_none _

end Attempts

/-! ### Every sequence of attempts -/

/-- 0004 has gone through: the new columns are NOT NULL, `guest_name` and the check constraints are
    gone, and the rows are what they were but for that column. -/
structure Contracted (rows : List Reservation) (t : Db) : Prop where
  version : t.version = .r0004
  schema : t.schema = ⟨none, some ⟨false⟩, some ⟨false⟩⟩
  checks : t.checks = []
  rows : t.rows = rows.map (clear · .guestName)

/-- **With nothing in the way the upgrade completes.** -/
theorem Ready.upgrade_index {rows : List Reservation} {db : Db} (h : Ready rows db) :
    ∃ t, db.upgrade0004 = (t, none) ∧ Contracted rows t ∧ t.backfillIndex = false ∧
      t.clock = db.clock := by
  let t := (db.required .firstName).required .lastName
  have ht : Ready rows t := (h.required .firstName).required .lastName
  have hindex := exec_ok_iff.mpr (Executed.dropIndex ht.index)
  have hdropped : Executed { t with backfillIndex := false } (.dropColumn .guestName) _ :=
    .dropColumn (ht.columns .guestName)
  have hcolumn := exec_ok_iff.mpr hdropped
  let t' : Db := ⟨.r0004, setColumn t.schema .guestName none, [], false,
    rows.map (clear · .guestName), t.clock⟩
  have hmigrate : t.migrate [.dropIndex, .dropColumn .guestName] .r0004 = .ok t' := by
    unfold Db.migrate
    rw [transaction_ok hindex, transaction_ok hcolumn]
    simp [transaction, Except.map, ht.checks, ht.rows, t']
  refine ⟨t', ?_, ⟨rfl, rfl, rfl, rfl⟩, rfl, rfl⟩
  unfold Db.upgrade0004
  rw [if_neg (not_not.mpr h.unmigrated), h.allSteps]
  dsimp only
  rw [hmigrate]

theorem Ready.upgrade {rows : List Reservation} {db : Db} (h : Ready rows db) :
    ∃ t, db.upgrade0004 = (t, none) ∧ Contracted rows t := by
  obtain ⟨t, ht, hcontracted, -⟩ := h.upgrade_index
  exact ⟨t, ht, hcontracted⟩

theorem ready_relaxed {rows : List Reservation} (clock : Nat)
    (h : ∀ r ∈ rows, r.firstName ≠ none ∧ r.lastName ≠ none) : Ready rows (.relaxed rows clock) where
  filled := h
  rows := rfl
  checks := rfl
  columns := fun c => by cases c <;> rfl
  index := rfl

/-- **0004 can be rerun exactly after attempts that were aborted between the checks.** -/
theorem rerun_completes_iff (rows : List Reservation) (clock : Nat) (ks : List Nat)
    (h : ∀ r ∈ rows, r.firstName ≠ none ∧ r.lastName ≠ none) :
    (∃ t, (ks.foldl Db.abort0004 (.relaxed rows clock)).upgrade0004 = (t, none) ∧
      Contracted rows t) ↔ ∀ k ∈ ks, BetweenChecks k := by
  have stuck : ∀ (ks : List Nat) (db : Db), Stuck db → Stuck (ks.foldl Db.abort0004 db) := by
    intro ks
    induction ks with
    | nil => exact fun _ h => h
    | cons k ks ih => exact fun db h => ih _ (h.abort k)
  -- along the attempts either nothing is in the way yet, or some check is and will stay
  have run : ∀ (ks : List Nat) (db : Db), Ready rows db →
      ((∃ t, (ks.foldl Db.abort0004 db).upgrade0004 = (t, none) ∧ Contracted rows t) ↔
        ∀ k ∈ ks, BetweenChecks k) := by
    intro ks
    induction ks with
    | nil => exact fun db h => ⟨fun _ _ hk => absurd hk List.not_mem_nil, fun _ => h.upgrade⟩
    | cons k ks ih =>
      intro db h
      rw [List.forall_mem_cons]
      by_cases hk : BetweenChecks k
      · rw [and_iff_right hk]
        exact ih _ (h.abort hk)
      · refine iff_of_false ?_ fun hall => hk hall.1
        rintro ⟨t, ht, -⟩
        exact (stuck ks _ (h.abort_stuck hk)).fails (by rw [List.foldl_cons] at ht; rw [ht])
  exact run ks _ (ready_relaxed clock h)

/-- The table with one booking of `dual_write`. -/
def bookedRows : List Reservation := [newReservation .dualWrite customer lunchForTwo]

theorem bookedRows_filled : ∀ r ∈ bookedRows, r.firstName ≠ none ∧ r.lastName ≠ none := by
  intro r hr
  obtain rfl := List.mem_singleton.mp hr
  exact ⟨Option.some_ne_none _, Option.some_ne_none _⟩

/-- Two lock timeouts between the checks, and one in the last transaction. -/
theorem lucky_reruns_complete :
    ∃ t, ([0, 4, 9].foldl Db.abort0004 (.relaxed bookedRows 2)).upgrade0004 = (t, none) ∧
      Contracted bookedRows t := by
  refine (rerun_completes_iff bookedRows 2 [0, 4, 9] bookedRows_filled).mpr fun k hk => ?_
  simp only [List.mem_cons, List.not_mem_nil, or_false] at hk
  rcases hk with rfl | rfl | rfl
  · exact Or.inl rfl
  · exact Or.inr (Or.inl rfl)
  · exact Or.inr (Or.inr (by decide))

/-- **A lock timeout of the first VALIDATE is the end**: the constraint exists already. -/
theorem rerun_fails : ¬ ∀ (rows : List Reservation) (clock : Nat) (ks : List Nat),
    (∀ r ∈ rows, r.firstName ≠ none ∧ r.lastName ≠ none) →
    ∃ t, (ks.foldl Db.abort0004 (.relaxed rows clock)).upgrade0004 = (t, none) ∧
      Contracted rows t := by
  intro h
  obtain ⟨t, ht, -⟩ := h bookedRows 2 [1] bookedRows_filled
  have hready := ready_relaxed 2 bookedRows_filled
  exact (hready.abort_stuck (k := 1) (by unfold BetweenChecks; omega)).fails (by
    rw [List.foldl_cons, List.foldl_nil] at ht
    rw [ht])

/-! ## What is dropped -/

section Dropped

variable {db t : Db}

theorem notNullSteps_rows {s : Db} (h : autocommit exec Db.notNullSteps db = (s, none)) :
    s.rows = db.rows := by
  refine transaction_keeps (I := fun s : Db => s.rows = db.rows) (fun d hd s t hs ht => ?_) rfl
    (autocommit_eq_iff.mp h)
  simp only [Db.notNullSteps, Db.notNullStepsOf, List.cons_append, List.nil_append, List.mem_cons,
    List.not_mem_nil, or_false] at hd
  rcases hd with rfl | rfl | rfl | rfl | rfl | rfl | rfl | rfl <;>
    cases exec_ok_iff.mp ht <;> exact hs

/-- **An upgrade that completes** has found every first name, and leaves the rows without their
    `guest_name`. -/
theorem upgrade0004_done (h : db.upgrade0004 = (t, none)) :
    (∀ r ∈ db.rows, r.firstName ≠ none) ∧ t.rows = db.rows.map (clear · .guestName) := by
  unfold Db.upgrade0004 at h
  split at h
  · exact absurd (Prod.mk.inj h).2 (Option.some_ne_none _)
  · next hcount =>
    split at h
    · exact absurd (Prod.mk.inj h).2 (Option.some_ne_none _)
    · next s hs =>
      split at h
      · next t' ht' =>
        obtain ⟨rfl, -⟩ := Prod.mk.inj h
        refine ⟨fun r hr => by simpa using List.countP_eq_zero.mp (not_not.mp hcount) r hr, ?_⟩
        unfold Db.migrate at ht'
        cases hrun : transaction exec [.dropIndex, .dropColumn .guestName] s with
        | error e =>
          rw [hrun] at ht'
          exact absurd ht' (by simp [Except.map])
        | ok u =>
          rw [hrun] at ht'
          obtain rfl := Except.ok.inj ht'
          rw [← notNullSteps_rows hs]
          obtain ⟨s', hindex, hrun⟩ := transaction_cons.mp hrun
          obtain ⟨u', hcolumn, hrun⟩ := transaction_cons.mp hrun
          obtain rfl := Except.ok.inj hrun
          -- neither statement writes a row; `guest_name` is what the second one takes away
          cases exec_ok_iff.mp hindex
          cases exec_ok_iff.mp hcolumn
          rfl
      · exact absurd (Prod.mk.inj h).2 (Option.some_ne_none _)

/-- Every name that is dropped, in its normal form, can be rebuilt from its row. -/
def KeepsNames (normal : Text → Text) (db t : Db) : Prop :=
  ∀ r ∈ db.rows, ∀ n, r.guestName = some n →
    clear r .guestName ∈ t.rows ∧ rebuilt r.firstName r.lastName = normal n

/-- The new columns hold the words of the name, in order, and no superfluous blanks. -/
structure Intact (r : Reservation) (n : Text) : Prop where
  words : partWords r.firstName ++ partWords r.lastName = words isSpace n
  tidy : normaliseName (rebuilt r.firstName r.lastName) = rebuilt r.firstName r.lastName

theorem rebuilt_eq_iff {r : Reservation} {n : Text} :
    rebuilt r.firstName r.lastName = normaliseName n ↔ Intact r n := by
  have hnormal : normaliseName (normaliseName n) = normaliseName n :=
    (normaliseName_eq_iff _ _).mpr (words_normalise isSpace_space n)
  constructor
  · intro h
    refine ⟨?_, by rw [h, hnormal]⟩
    rw [← words_rebuilt, ← normaliseName_eq_iff, h, hnormal]
  · rintro ⟨hwords, htidy⟩
    rw [← htidy, normaliseName_eq_iff, words_rebuilt, hwords]

/-- **What an upgrade that completes has kept**: the names that are intact in the new columns; and
    in the eyes of SQL, those that the guard of `new_only` does not count. -/
theorem contract_keeps_names_iff (sql : SqlSpace) (h : db.upgrade0004 = (t, none)) :
    (KeepsNames normaliseName db t ↔ ∀ r ∈ db.rows, ∀ n, r.guestName = some n → Intact r n) ∧
    (KeepsNames (legacy sql) db t ↔ ∀ r ∈ db.rows, nameMismatch sql r = false) := by
  obtain ⟨hfilled, hrows⟩ := upgrade0004_done h
  have hmem : ∀ r ∈ db.rows, clear r .guestName ∈ t.rows := by
    rw [hrows]
    exact fun r hr => List.mem_map_of_mem hr
  constructor
  · refine forall₂_congr fun r hr => forall₂_congr fun n _ => ?_
    rw [and_iff_right (hmem r hr), rebuilt_eq_iff]
  · refine forall₂_congr fun r hr => ?_
    obtain ⟨f, hf⟩ := Option.ne_none_iff_exists'.mp (hfilled r hr)
    unfold nameMismatch
    rw [hf]
    cases hg : r.guestName with
    | none => exact ⟨fun _ => rfl, fun _ n hn => absurd hn (by simp)⟩
    | some g => simp [hmem r hr]

end Dropped

/-- The name of a booking in `dual_write` survives. -/
theorem annLee_kept : ∃ t, (Db.relaxed bookedRows 2).upgrade0004 = (t, none) ∧
    KeepsNames normaliseName (.relaxed bookedRows 2) t := by
  obtain ⟨t, ht, -⟩ := (ready_relaxed 2 bookedRows_filled).upgrade
  refine ⟨t, ht, (contract_keeps_names_iff .cLocale ht).1.mpr fun r hr n hn => ?_⟩
  obtain rfl := List.mem_singleton.mp hr
  obtain rfl := Option.some.inj hn
  exact ⟨by decide, by decide⟩

/-- That booking after a rename in `legacy`, which leaves the new columns alone. -/
def renamedRows : List Reservation :=
  [writeName .legacy (newReservation .dualWrite customer lunchForTwo) Deployment.bobRay]

/-- **The new name is dropped, and the old one is left.** -/
theorem contract_loses_rename : ¬ ∀ (rows : List Reservation) (clock : Nat) (t : Db),
    (Db.relaxed rows clock).upgrade0004 = (t, none) →
    KeepsNames normaliseName (.relaxed rows clock) t := by
  intro h
  have hfilled : ∀ r ∈ renamedRows, r.firstName ≠ none ∧ r.lastName ≠ none := by
    intro r hr
    obtain rfl := List.mem_singleton.mp hr
    exact ⟨Option.some_ne_none _, Option.some_ne_none _⟩
  obtain ⟨t, ht, -⟩ := (ready_relaxed 2 hfilled).upgrade
  obtain ⟨-, hkept⟩ := h renamedRows 2 t ht _ (List.mem_singleton.mpr rfl) Deployment.bobRay rfl
  exact absurd hkept (by decide)

end TableFlow.Alembic
