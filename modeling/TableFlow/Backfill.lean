/-
  The backfill script, when nothing else runs: `run_pass` and `run_backfill`.

  1. **A batch** selects the next rows without a first name, in the order of their ids, and fills
     them; `FILL` asks for the missing first name again.
  2. **A pass** goes from batch to batch until one selects nothing.  Every batch gets past the last
     id it has selected, so a pass ends (`runPass_isSome`): more batches than rows are never needed.
  3. **A run** is at most five passes.

  What a run does to a row is `Filled`: nothing, or it splits the old column of a row that has no
  first name yet (`runBackfill_filled`).
-/
import TableFlow.World

namespace TableFlow

open Lib

/-! ## The script -/

/-- The table the script works on; its clock numbers the row versions. -/
structure Table where
  rows : List Reservation
  clock : Nat

/-- `SELECT id, guest_name .. WHERE id > last_id AND first_name IS NULL ORDER BY id LIMIT n`. -/
def selectBatch (rows : List Reservation) (lastId : Int) (batchSize : Nat) : List Reservation :=
  ((rows.filter fun r => decide (lastId < r.id) && r.firstName.isNone).insertionSort
    fun a b => a.id ≤ b.id).take batchSize

/-- `FILL` with one set of parameters. -/
def Table.fillRow (t : Table) (x : Nat × Text × Text) : Table where
  rows := t.rows.map fun r => if r.id = x.1 ∧ r.firstName = none then fill r x.2 t.clock else r
  clock := t.clock + 1

/-- The rows one set of parameters matches. -/
def Table.matched (t : Table) (x : Nat × Text × Text) : Nat :=
  t.rows.countP fun r => r.id == x.1 && r.firstName.isNone

/-- `session.execute(FILL, params)`, with its row count. -/
def Table.fillAll : Table → List (Nat × Text × Text) → Table × Nat
  | t, [] => (t, 0)
  | t, x :: xs => ((t.fillRow x).fillAll xs).map id (t.matched x + ·)

/-- `run_pass` after `filled` rows; `none` when the batches of `fuel` are used up. -/
def runPass (batchSize : Nat) : Nat → Table → Int → Nat → Option (Table × Nat)
  | 0, _, _, _ => none
  | fuel + 1, t, lastId, filled =>
    let rows := selectBatch t.rows lastId batchSize
    match rows.getLast? with
    | none => some (t, filled)
    | some last =>
      let (t', n) := t.fillAll (rows.map fillParams)
      runPass batchSize fuel t' last.id (filled + n)

/-- `awaiting`. -/
def awaiting (rows : List Reservation) : Nat := rows.countP (·.firstName.isNone)

/-- `MAX_PASSES`. -/
def maxPasses : Nat := 5

/-- The passes of `run_backfill` that are left. -/
def runPasses (batchSize : Nat) : Nat → Table → Int → Nat → Option (Table × Nat)
  | 0, t, _, total => some (t, total)
  | n + 1, t, startAfter, total =>
    (runPass batchSize (t.rows.length + 1) t startAfter 0).bind fun (t', filled) =>
      if awaiting t'.rows = 0 ∨ filled = 0 then some (t', total + filled)
      else runPasses batchSize n t' 0 (total + filled)

/-- `run_backfill`. -/
def runBackfill (t : Table) (startAfter : Int) (batchSize : Nat) : Option (Table × Nat) :=
  runPasses batchSize maxPasses t startAfter 0

/-! ## What it does to a row -/

/-- The row is left alone, or it had no first name and its old column is split. -/
def Filled (r r' : Reservation) : Prop :=
  r' = r ∨ (r.firstName = none ∧ ∃ v, r' = fill r (splitGuestName (r.guestName.getD [])) v)

theorem Filled.trans {a b c : Reservation} (hab : Filled a b) (hbc : Filled b c) : Filled a c := by
  rcases hab with rfl | ⟨hn, v, rfl⟩
  · exact hbc
  · rcases hbc with rfl | ⟨hn', -⟩
    · exact Or.inr ⟨hn, v, rfl⟩
    · exact absurd hn' (by simp [fill])

/-- The tables before and after, row by row. -/
abbrev AllFilled (rows rows' : List Reservation) : Prop := List.Forall₂ Filled rows rows'

theorem AllFilled.refl (rows : List Reservation) : AllFilled rows rows :=
  List.forall₂_same.mpr fun _ _ => Or.inl rfl

theorem AllFilled.trans : ∀ {as bs cs : List Reservation}, AllFilled as bs → AllFilled bs cs →
    AllFilled as cs
  | [], _, _, .nil, .nil => .nil
  | _ :: _, _, _, .cons hab has, .cons hbc hbs => .cons (hab.trans hbc) (AllFilled.trans has hbs)

theorem AllFilled.mem {rows rows' : List Reservation} (h : AllFilled rows rows')
    {r' : Reservation} (hr' : r' ∈ rows') : ∃ r ∈ rows, Filled r r' := by
  induction h with
  | nil => exact absurd hr' List.not_mem_nil
  | cons hab _ ih =>
    rcases List.mem_cons.mp hr' with rfl | hr'
    · exact ⟨_, List.mem_cons_self .., hab⟩
    · obtain ⟨r, hr, hf⟩ := ih hr'
      exact ⟨r, List.mem_cons_of_mem _ hr, hf⟩

theorem AllFilled.ids {rows rows' : List Reservation} (h : AllFilled rows rows') :
    rows'.map Reservation.id = rows.map Reservation.id := by
  induction h with
  | nil => rfl
  | cons hab _ ih =>
    rw [List.map_cons, List.map_cons, ih]
    rcases hab with rfl | ⟨-, v, rfl⟩ <;> rfl

/-! ## A batch -/

/-- The parameters are those of the rows they will be matched with. -/
def ParamsOk (rows : List Reservation) (xs : List (Nat × Text × Text)) : Prop :=
  ∀ x ∈ xs, ∀ r ∈ rows, r.id = x.1 → r.firstName = none →
    x.2 = splitGuestName (r.guestName.getD [])

theorem ParamsOk.mono {rows rows' : List Reservation} {xs : List (Nat × Text × Text)}
    (h : ParamsOk rows xs) (hf : AllFilled rows rows') : ParamsOk rows' xs := by
  intro x hx r' hr' hid hn
  obtain ⟨r, hr, rfl | ⟨-, v, rfl⟩⟩ := hf.mem hr'
  · exact h x hx r' hr hid hn
  · exact absurd hn (by simp [fill])

theorem fillRow_filled {t : Table} {x : Nat × Text × Text} (h : ParamsOk t.rows [x]) :
    AllFilled t.rows (t.fillRow x).rows := by
  refine List.forall₂_map_right_iff.mpr (List.forall₂_same.mpr fun r hr => ?_)
  split
  · next hx =>
    refine Or.inr ⟨hx.2, t.clock, ?_⟩
    rw [h x (List.mem_singleton.mpr rfl) r hr hx.1 hx.2]
  · exact Or.inl rfl

theorem fillAll_filled {xs : List (Nat × Text × Text)} : ∀ {t : Table}, ParamsOk t.rows xs →
    AllFilled t.rows (t.fillAll xs).1.rows := by
  induction xs with
  | nil => intro t _; exact AllFilled.refl _
  | cons x xs ih =>
    intro t h
    have hx : AllFilled t.rows (t.fillRow x).rows := by
      refine fillRow_filled fun y hy => ?_
      rw [List.mem_singleton.mp hy]
      exact h x (List.mem_cons_self ..)
    have hxs : ParamsOk (t.fillRow x).rows xs :=
      ParamsOk.mono (fun y hy => h y (List.mem_cons_of_mem _ hy)) hx
    exact hx.trans (ih hxs)

theorem mem_selectBatch {rows : List Reservation} {lastId : Int} {size : Nat} {r : Reservation}
    (h : r ∈ selectBatch rows lastId size) : r ∈ rows ∧ lastId < r.id ∧ r.firstName = none := by
  have h' := (List.mem_insertionSort _).mp (List.mem_of_mem_take h)
  obtain ⟨hr, hp⟩ := List.mem_filter.mp h'
  simp only [Bool.and_eq_true, decide_eq_true_eq, Option.isNone_iff_eq_none] at hp
  exact ⟨hr, hp⟩

/-- Ids are unique, so a batch's parameters meet the rows they were made of. -/
theorem paramsOk_batch {rows : List Reservation} (hnd : (rows.map Reservation.id).Nodup)
    (lastId : Int) (size : Nat) : ParamsOk rows ((selectBatch rows lastId size).map fillParams) := by
  intro x hx r hr hid _
  obtain ⟨r', hr', rfl⟩ := List.mem_map.mp hx
  obtain rfl := List.inj_on_of_nodup_map hnd hr (mem_selectBatch hr').1 hid
  rfl

/-! ## A pass ends -/

/-- The rows a pass has still to fill. -/
def left (rows : List Reservation) (lastId : Int) : Nat :=
  rows.countP fun r => decide (lastId < r.id) && r.firstName.isNone

theorem AllFilled.left_le {rows rows' : List Reservation} (h : AllFilled rows rows')
    (lastId : Int) : left rows' lastId ≤ left rows lastId := by
  induction h with
  | nil => exact Nat.le_refl _
  | cons hab _ ih =>
    unfold left at ih ⊢
    rw [List.countP_cons, List.countP_cons]
    rcases hab with rfl | ⟨-, v, rfl⟩
    · exact Nat.add_le_add_right ih _
    · refine Nat.le_trans (Nat.le_of_eq ?_) (Nat.le_trans ih (Nat.le_add_right _ _))
      simp [fill]

/-- A batch gets past the last row it selects. -/
theorem left_lt {rows : List Reservation} {lastId : Int} {r : Reservation} (hr : r ∈ rows)
    (hid : lastId < r.id) (hn : r.firstName = none) : left rows r.id < left rows lastId := by
  unfold left
  obtain ⟨as, bs, rfl⟩ := List.append_of_mem hr
  have mono : ∀ l : List Reservation,
      (l.countP fun x => decide ((r.id : Int) < x.id) && x.firstName.isNone)
        ≤ l.countP fun x => decide (lastId < x.id) && x.firstName.isNone := by
    intro l
    refine List.countP_mono_left fun x _ hx => ?_
    obtain ⟨hx, hxn⟩ := Bool.and_eq_true_iff.mp hx
    have := of_decide_eq_true hx
    rw [hxn, decide_eq_true (by omega)]
    rfl
  have has := mono as
  have hbs := mono bs
  rw [List.countP_append, List.countP_append, List.countP_cons, List.countP_cons]
  simp only [hn, hid, lt_irrefl, decide_false, decide_true, Bool.false_and, Option.isNone_none,
    Bool.and_self, if_true]
  simp only [Bool.false_eq_true, if_false]
  omega

theorem left_le_length (rows : List Reservation) (lastId : Int) : left rows lastId ≤ rows.length :=
  List.countP_le_length

/-- **A pass fills**, and it ends when it may take more batches than there are rows to fill. -/
theorem runPass_spec (size : Nat) : ∀ {fuel : Nat} {t : Table} (lastId : Int) (filled : Nat),
    (t.rows.map Reservation.id).Nodup → left t.rows lastId < fuel →
    ∃ t' n, runPass size fuel t lastId filled = some (t', n) ∧ AllFilled t.rows t'.rows := by
  intro fuel
  induction fuel with
  | zero => intro t lastId filled _ h; exact absurd h (Nat.not_lt_zero _)
  | succ fuel ih =>
    intro t lastId filled hnd hlt
    unfold runPass
    dsimp only
    cases hlast : (selectBatch t.rows lastId size).getLast? with
    | none => exact ⟨t, filled, rfl, AllFilled.refl _⟩
    | some last =>
      obtain ⟨hmem, hid, hn⟩ := mem_selectBatch (List.mem_of_getLast? hlast)
      have hf := fillAll_filled (paramsOk_batch hnd lastId size)
      have hnd' : ((t.fillAll ((selectBatch t.rows lastId size).map fillParams)).1.rows.map
          Reservation.id).Nodup := by
        rw [hf.ids]
        exact hnd
      have hlt' := hf.left_le last.id
      have hdrop := left_lt hmem hid hn
      obtain ⟨t', n, hrun, hf'⟩ := ih last.id
        (filled + (t.fillAll ((selectBatch t.rows lastId size).map fillParams)).2) hnd' (by omega)
      exact ⟨t', n, hrun, hf.trans hf'⟩

theorem runPasses_spec (size : Nat) : ∀ (n : Nat) {t : Table} (startAfter : Int) (total : Nat),
    (t.rows.map Reservation.id).Nodup →
    ∃ t' m, runPasses size n t startAfter total = some (t', m) ∧ AllFilled t.rows t'.rows := by
  intro n
  induction n with
  | zero => intro t _ total _; exact ⟨t, total, rfl, AllFilled.refl _⟩
  | succ n ih =>
    intro t startAfter total hnd
    obtain ⟨t₁, filled, hrun, hf⟩ := runPass_spec size startAfter 0 hnd
      (Nat.lt_succ_of_le (left_le_length t.rows startAfter))
    unfold runPasses
    rw [hrun]
    show ∃ t' m, (if awaiting t₁.rows = 0 ∨ filled = 0 then some (t₁, total + filled)
      else runPasses size n t₁ 0 (total + filled)) = some (t', m) ∧ _
    split
    · exact ⟨t₁, total + filled, rfl, hf⟩
    · obtain ⟨t', m, hrun', hf'⟩ := ih 0 (total + filled)
        (by rw [hf.ids]; exact hnd)
      exact ⟨t', m, hrun', hf.trans hf'⟩

/-- **The script ends**, and all it has done is fill. -/
theorem runBackfill_filled {t : Table} (hnd : (t.rows.map Reservation.id).Nodup)
    (startAfter : Int) (batchSize : Nat) :
    ∃ t' n, runBackfill t startAfter batchSize = some (t', n) ∧ AllFilled t.rows t'.rows :=
  runPasses_spec batchSize maxPasses startAfter 0 hnd

end TableFlow
