/-
  What the backfill fills, exactly, and from where it can be resumed.

  1. **Filling by ids** (`FilledIn`) — rows whose id a set contains and that have no first name are
     filled, all others stay as they are.  Two such steps make one for the union of their sets
     (`FilledIn.trans`), and what the two count adds up (`awaitingIn_split`).
  2. **A batch** — the ids it selects are those of the awaiting rows between the cursor and the last
     row selected (`selectBatch_between`): sorted, cut off, and no id twice.
  3. **A pass** — so batch by batch the sets grow from the cursor to the end of the table, with
     nothing left out and nothing filled twice, whatever the size of a batch (`pass_exact`).
  4. **A run** — the first pass starts after the checkpoint, the others at the beginning.  But there
     is another one only if the first has filled something: a run completes exactly when, if any
     row awaits, one awaits beyond the checkpoint (`backfill_completes_iff`).
-/
import TableFlow.Backfill

namespace TableFlow

open Lib

/-! ## Filling by ids -/

/-- A row whose id `p` contains is filled if it has no first name; any other row stays. -/
def FilledIn (p : Nat → Bool) (r r' : Reservation) : Prop :=
  if p r.id = true ∧ r.firstName = none then
    ∃ v, r' = fill r (splitGuestName (r.guestName.getD [])) v
  else r' = r

/-- The tables before and after, row by row. -/
abbrev AllFilledIn (p : Nat → Bool) (rows rows' : List Reservation) : Prop :=
  List.Forall₂ (FilledIn p) rows rows'

/-- The awaiting rows whose id `p` contains. -/
def awaitingIn (p : Nat → Bool) (rows : List Reservation) : Nat :=
  rows.countP fun r => p r.id && r.firstName.isNone

section FilledIn

variable {p q : Nat → Bool} {a b c r r' : Reservation} {rows rows' rows'' : List Reservation}

theorem FilledIn.filled (h : FilledIn p r r') : Filled r r' := by
  unfold FilledIn at h
  split at h
  · next hp => exact Or.inr ⟨hp.2, h⟩
  · exact Or.inl h

theorem FilledIn.congr (h : FilledIn p r r') (hpq : r.firstName = none → p r.id = q r.id) :
    FilledIn q r r' := by
  unfold FilledIn at h ⊢
  by_cases hn : r.firstName = none
  · rw [← hpq hn]
    exact h
  · rw [if_neg fun hp => hn hp.2] at h ⊢
    exact h

/-- A row that is filled once stays as it is. -/
theorem FilledIn.trans (hab : FilledIn p a b) (hbc : FilledIn q b c) :
    FilledIn (fun i => p i || q i) a c := by
  unfold FilledIn at hab hbc ⊢
  dsimp only
  by_cases hn : a.firstName = none
  · by_cases hp : p a.id = true
    · rw [if_pos ⟨hp, hn⟩] at hab
      obtain ⟨v, rfl⟩ := hab
      rw [if_neg fun h => absurd h.2 (by simp [fill])] at hbc
      rw [if_pos ⟨by rw [hp, Bool.true_or], hn⟩]
      exact ⟨v, hbc⟩
    · rw [if_neg fun h => hp h.1] at hab
      subst hab
      simpa only [eq_false_of_ne_true hp, Bool.false_or] using hbc
  · rw [if_neg fun h => hn h.2] at hab ⊢
    subst hab
    rw [if_neg fun h => hn h.2] at hbc
    exact hbc

theorem AllFilledIn.trans : ∀ {as bs cs : List Reservation}, AllFilledIn p as bs →
    AllFilledIn q bs cs → AllFilledIn (fun i => p i || q i) as cs
  | [], _, _, .nil, .nil => .nil
  | _ :: _, _, _, .cons hab has, .cons hbc hbs => .cons (hab.trans hbc) (AllFilledIn.trans has hbs)

theorem AllFilledIn.congr (h : AllFilledIn p rows rows')
    (hpq : ∀ r ∈ rows, r.firstName = none → p r.id = q r.id) : AllFilledIn q rows rows' := by
  induction h with
  | nil => exact .nil
  | cons hab _ ih =>
    exact .cons (hab.congr (hpq _ (List.mem_cons_self ..)))
      (ih fun r hr => hpq r (List.mem_cons_of_mem _ hr))

/-- Without a row to fill nothing changes. -/
theorem AllFilledIn.refl (h : ∀ r ∈ rows, r.firstName = none → p r.id = false) :
    AllFilledIn p rows rows := by
  refine List.forall₂_same.mpr fun r hr => ?_
  unfold FilledIn
  rw [if_neg]
  rintro ⟨hp, hn⟩
  exact absurd ((h r hr hn).symm.trans hp) (by decide)

theorem AllFilledIn.allFilled (h : AllFilledIn p rows rows') : AllFilled rows rows' :=
  h.imp fun _ _ => FilledIn.filled

/-- **What two steps fill adds up**: nothing is counted twice. -/
theorem awaitingIn_split (h : AllFilledIn p rows rows') :
    awaitingIn (fun i => p i || q i) rows = awaitingIn p rows + awaitingIn q rows' := by
  induction h with
  | nil => rfl
  | @cons r r' rows rows' hab _ ih =>
    unfold awaitingIn at ih ⊢
    rw [List.countP_cons, List.countP_cons, List.countP_cons, ih]
    unfold FilledIn at hab
    by_cases hn : r.firstName = none
    · by_cases hp : p r.id = true
      · rw [if_pos ⟨hp, hn⟩] at hab
        obtain ⟨v, rfl⟩ := hab
        simp [hp, hn, fill]
        omega
      · rw [if_neg fun h => hp h.1] at hab
        subst hab
        simp [eq_false_of_ne_true hp]
        omega
    · rw [if_neg fun h => hn h.2] at hab
      subst hab
      have hsome : r'.firstName.isNone = false :=
        Option.isNone_eq_false_iff.mpr (Option.isSome_iff_ne_none.mpr hn)
      simp [hsome]

end FilledIn

/-! ## A batch -/

/-- One set of parameters fills the awaiting row of its id. -/
theorem fillRow_filledIn {t : Table} {x : Nat × Text × Text} (h : ParamsOk t.rows [x]) :
    AllFilledIn (fun i => i == x.1) t.rows (t.fillRow x).rows := by
  refine List.forall₂_map_right_iff.mpr (List.forall₂_same.mpr fun r hr => ?_)
  unfold FilledIn
  by_cases hx : r.id = x.1 ∧ r.firstName = none
  · rw [if_pos hx, if_pos ⟨beq_iff_eq.mpr hx.1, hx.2⟩,
      h x (List.mem_singleton.mpr rfl) r hr hx.1 hx.2]
    exact ⟨t.clock, rfl⟩
  · rw [if_neg hx, if_neg fun h => hx ⟨beq_iff_eq.mp h.1, h.2⟩]

/-- **The UPDATE of a batch** fills the awaiting rows of its ids, and counts them. -/
theorem fillAll_filledIn {xs : List (Nat × Text × Text)} : ∀ {t : Table}, ParamsOk t.rows xs →
    AllFilledIn (xs.map Prod.fst).contains t.rows (t.fillAll xs).1.rows ∧
      (t.fillAll xs).2 = awaitingIn (xs.map Prod.fst).contains t.rows := by
  induction xs with
  | nil =>
    intro t _
    refine ⟨AllFilledIn.refl fun _ _ _ => rfl, ?_⟩
    exact (List.countP_eq_zero.mpr fun _ _ => by simp).symm
  | cons x xs ih =>
    intro t h
    have hx : AllFilledIn (fun i => i == x.1) t.rows (t.fillRow x).rows := by
      refine fillRow_filledIn fun y hy => ?_
      rw [List.mem_singleton.mp hy]
      exact h x (List.mem_cons_self ..)
    have hxs : ParamsOk (t.fillRow x).rows xs :=
      ParamsOk.mono (fun y hy => h y (List.mem_cons_of_mem _ hy)) hx.allFilled
    obtain ⟨hfill, hcount⟩ := ih hxs
    have hunion : ((x :: xs).map Prod.fst).contains
        = fun i => i == x.1 || (xs.map Prod.fst).contains i := by
      funext i
      rw [List.map_cons, List.contains_cons]
    rw [hunion]
    refine ⟨hx.trans hfill, ?_⟩
    rw [awaitingIn_split hx, ← hcount]
    rfl

/-- What is sorted and cut off contains whatever is not greater than one of its members. -/
theorem mem_take_of_le {l : List Reservation} {n : Nat} {a b : Reservation}
    (hl : l.Pairwise fun a b => a.id < b.id) (ha : a ∈ l.take n) (hb : b ∈ l) (hba : b.id ≤ a.id) :
    b ∈ l.take n := by
  rw [← List.take_append_drop n l] at hl hb
  rcases List.mem_append.mp hb with hb | hb
  · exact hb
  · exact absurd ((List.pairwise_append.mp hl).2.2 a ha b hb) (Nat.not_lt.mpr hba)

section Batch

variable {rows : List Reservation} {lastId : Int} {size : Nat} {last : Reservation}

/-- The rows a batch may select, in the order of their ids. -/
theorem selectable_sorted (hnd : (rows.map Reservation.id).Nodup) (lastId : Int) :
    ((rows.filter fun r => decide (lastId < r.id) && r.firstName.isNone).insertionSort
      fun a b => a.id ≤ b.id).Pairwise fun a b => a.id < b.id := by
  have hperm := List.perm_insertionSort (fun a b : Reservation => a.id ≤ b.id)
    (rows.filter fun r => decide (lastId < r.id) && r.firstName.isNone)
  have hids : (((rows.filter fun r => decide (lastId < r.id) && r.firstName.isNone).insertionSort
      fun a b => a.id ≤ b.id).map Reservation.id).Nodup :=
    (hperm.map Reservation.id).nodup_iff.mpr (hnd.sublist (List.filter_sublist.map _))
  have hsorted := List.pairwise_insertionSort (fun a b : Reservation => a.id ≤ b.id)
    (rows.filter fun r => decide (lastId < r.id) && r.firstName.isNone)
  exact (hsorted.and (List.pairwise_map.mp hids)).imp fun h => Nat.lt_of_le_of_ne h.1 h.2

/-- **A batch selects the awaiting rows between the cursor and its last row.** -/
theorem selectBatch_between (hnd : (rows.map Reservation.id).Nodup)
    (hlast : (selectBatch rows lastId size).getLast? = some last) {r : Reservation}
    (hr : r ∈ rows) (hn : r.firstName = none) :
    r ∈ selectBatch rows lastId size ↔ lastId < r.id ∧ r.id ≤ last.id := by
  have hmem := List.mem_of_getLast? hlast
  have hsorted := selectable_sorted hnd lastId
  constructor
  · intro h
    refine ⟨(mem_selectBatch h).2.1, ?_⟩
    obtain ⟨init, hinit⟩ := List.getLast?_eq_some_iff.mp hlast
    have htake : (selectBatch rows lastId size).Pairwise fun a b => a.id < b.id :=
      hsorted.sublist (List.take_sublist ..)
    rw [hinit] at h htake
    rcases List.mem_append.mp h with h | h
    · exact Nat.le_of_lt ((List.pairwise_append.mp htake).2.2 r h last (List.mem_singleton_self _))
    · rw [List.mem_singleton.mp h]
  · rintro ⟨hlt, hle⟩
    refine mem_take_of_le hsorted hmem ?_ hle
    refine (List.mem_insertionSort _).mpr (List.mem_filter.mpr ⟨hr, ?_⟩)
    rw [decide_eq_true hlt, hn]
    rfl

/-- A batch that selects nothing finds nothing awaiting. -/
theorem selectBatch_nil (hsize : 1 ≤ size) (h : (selectBatch rows lastId size).getLast? = none)
    {r : Reservation} (hr : r ∈ rows) (hn : r.firstName = none) : ¬ lastId < r.id := by
  intro hlt
  have hnil := List.getLast?_eq_none_iff.mp h
  unfold selectBatch at hnil
  rcases List.take_eq_nil_iff.mp hnil with h0 | hnil
  · omega
  · have hmem : r ∈ (rows.filter fun r => decide (lastId < r.id) && r.firstName.isNone).insertionSort
        fun a b => a.id ≤ b.id := by
      refine (List.mem_insertionSort _).mpr (List.mem_filter.mpr ⟨hr, ?_⟩)
      rw [decide_eq_true hlt, hn]
      rfl
    rw [hnil] at hmem
    exact absurd hmem List.not_mem_nil

end Batch

/-! ## A pass -/

/-- The ids after a cursor. -/
def after (lastId : Int) (id : Nat) : Bool := decide (lastId < id)

theorem left_eq (rows : List Reservation) (lastId : Int) :
    left rows lastId = awaitingIn (after lastId) rows := rfl

/-- A batch fills from the cursor to its last row, and the rest is what comes after it. -/
theorem batch_filledIn {t : Table} (hnd : (t.rows.map Reservation.id).Nodup) {lastId : Int}
    {size : Nat} {last : Reservation}
    (hlast : (selectBatch t.rows lastId size).getLast? = some last) :
    AllFilledIn (fun i => after lastId i && !after last.id i) t.rows
        (t.fillAll ((selectBatch t.rows lastId size).map fillParams)).1.rows ∧
      (t.fillAll ((selectBatch t.rows lastId size).map fillParams)).2
        = awaitingIn (fun i => after lastId i && !after last.id i) t.rows := by
  obtain ⟨hfill, hcount⟩ := fillAll_filledIn (paramsOk_batch hnd lastId size)
  have hids : ∀ r ∈ t.rows, r.firstName = none →
      (((selectBatch t.rows lastId size).map fillParams).map Prod.fst).contains r.id
        = (after lastId r.id && !after last.id r.id) := by
    intro r hr hn
    have hmem : (((selectBatch t.rows lastId size).map fillParams).map Prod.fst).contains r.id = true
        ↔ r ∈ selectBatch t.rows lastId size := by
      rw [List.contains_iff_mem, List.map_map]
      constructor
      · intro h
        obtain ⟨r', hr', hid⟩ := List.mem_map.mp h
        rw [List.inj_on_of_nodup_map hnd hr (mem_selectBatch hr').1 hid.symm]
        exact hr'
      · exact fun h => List.mem_map.mpr ⟨r, h, rfl⟩
    rw [Bool.eq_iff_iff, hmem, selectBatch_between hnd hlast hr hn]
    simp only [after, Bool.and_eq_true, decide_eq_true_eq, Bool.not_eq_true', decide_eq_false_iff_not,
      Nat.cast_lt, Nat.not_lt]
  refine ⟨hfill.congr hids, hcount.trans ?_⟩
  refine List.countP_congr fun r hr => ?_
  by_cases hn : r.firstName = none
  · rw [hids r hr hn]
  · simp [hn]

/-- **A pass** fills exactly the awaiting rows after its cursor, and counts them. -/
theorem runPass_exact {size : Nat} (hsize : 1 ≤ size) : ∀ (n : Nat) {t : Table} (lastId : Int),
    left t.rows lastId = n → (t.rows.map Reservation.id).Nodup →
    ∃ t', AllFilledIn (after lastId) t.rows t'.rows ∧
      ∀ filled fuel, n < fuel → runPass size fuel t lastId filled = some (t', filled + n) := by
  intro n
  induction n using Nat.strongRecOn with
  | ind n ih =>
    intro t lastId hleft hnd
    cases hlast : (selectBatch t.rows lastId size).getLast? with
    | none =>
      have hnone : ∀ r ∈ t.rows, r.firstName = none → after lastId r.id = false :=
        fun r hr hn => decide_eq_false (selectBatch_nil hsize hlast hr hn)
      have hzero : n = 0 := by
        rw [← hleft]
        refine List.countP_eq_zero.mpr fun r hr hawaits => ?_
        obtain ⟨hlt, hn⟩ := Bool.and_eq_true_iff.mp hawaits
        exact absurd (of_decide_eq_true hlt)
          (selectBatch_nil hsize hlast hr (Option.isNone_iff_eq_none.mp hn))
      refine ⟨t, AllFilledIn.refl hnone, fun filled fuel hfuel => ?_⟩
      obtain ⟨fuel, rfl⟩ := Nat.exists_eq_succ_of_ne_zero (Nat.ne_of_gt (Nat.zero_lt_of_lt hfuel))
      unfold runPass
      dsimp only
      rw [hlast, hzero]
      rfl
    | some last =>
      obtain ⟨hmem, hlt, hn⟩ := mem_selectBatch (List.mem_of_getLast? hlast)
      obtain ⟨hfill, hcount⟩ := batch_filledIn hnd hlast
      -- what the batch fills and what comes after it are all that is left
      have hunion : (fun i => (after lastId i && !after last.id i) || after last.id i)
          = after lastId := by
        funext i
        have hmono : after last.id i = true → after lastId i = true := by
          intro h
          have := of_decide_eq_true h
          exact decide_eq_true (by omega)
        cases h : after last.id i with
        | false => simp
        | true => simp [hmono h]
      have hsplit : n = awaitingIn (fun i => after lastId i && !after last.id i) t.rows
          + left (t.fillAll ((selectBatch t.rows lastId size).map fillParams)).1.rows last.id := by
        rw [left_eq, ← awaitingIn_split hfill, hunion, ← left_eq]
        exact hleft.symm
      have hdrop : left (t.fillAll ((selectBatch t.rows lastId size).map fillParams)).1.rows last.id
          < n :=
        hleft ▸ Nat.lt_of_le_of_lt (hfill.allFilled.left_le last.id) (left_lt hmem hlt hn)
      obtain ⟨t', hfill', hrun⟩ := ih _ hdrop last.id rfl (by
        rw [hfill.allFilled.ids]
        exact hnd)
      refine ⟨t', hunion ▸ hfill.trans hfill', fun filled fuel hfuel => ?_⟩
      obtain ⟨fuel, rfl⟩ := Nat.exists_eq_succ_of_ne_zero (Nat.ne_of_gt (Nat.zero_lt_of_lt hfuel))
      unfold runPass
      dsimp only
      rw [hlast]
      dsimp only
      rw [hrun _ fuel (by omega), hcount]
      congr 2
      omega

theorem runPass_mono {size : Nat} : ∀ {fuel : Nat} {t : Table} {lastId : Int} {filled : Nat}
    {x : Table × Nat}, runPass size fuel t lastId filled = some x →
    ∀ k, runPass size (fuel + k) t lastId filled = some x := by
  intro fuel
  induction fuel with
  | zero => intro t lastId filled x h; exact absurd h (by simp [runPass])
  | succ fuel ih =>
    intro t lastId filled x h k
    rw [Nat.succ_add]
    unfold runPass at h ⊢
    dsimp only at h ⊢
    cases hlast : (selectBatch t.rows lastId size).getLast? with
    | none =>
      rw [hlast] at h
      exact h
    | some last =>
      rw [hlast] at h
      exact ih h k

/-- The row without its version, which PostgreSQL gives it. -/
def Reservation.content (r : Reservation) : Reservation := { r with version := 0 }

/-- The row when the backfill is done with it. -/
def completed (r : Reservation) : Reservation :=
  if r.firstName = none then fill r (splitGuestName (r.guestName.getD [])) 0 else r.content

theorem FilledIn.content {p : Nat → Bool} {r r' : Reservation} (h : FilledIn p r r') :
    r'.content = if p r.id = true then completed r else r.content := by
  unfold FilledIn at h
  unfold completed
  by_cases hn : r.firstName = none
  · by_cases hp : p r.id = true
    · rw [if_pos ⟨hp, hn⟩] at h
      obtain ⟨v, rfl⟩ := h
      rw [if_pos hp, if_pos hn]
      rfl
    · rw [if_neg fun h => hp h.1] at h
      rw [if_neg hp, h]
  · rw [if_neg fun h => hn h.2] at h
    rw [if_neg hn, h, ite_self]

theorem AllFilledIn.content {p : Nat → Bool} {rows rows' : List Reservation}
    (h : AllFilledIn p rows rows') :
    rows'.map Reservation.content
      = rows.map fun r => if p r.id = true then completed r else r.content := by
  induction h with
  | nil => rfl
  | cons hab _ ih => rw [List.map_cons, List.map_cons, hab.content, ih]

/-- A reservation made in `legacy`, one for each day. -/
def legacyRow (day : Nat) : Reservation :=
  { newReservation .legacy customer lunchForTwo with
    id := day
    startsAt := day * 86400000000
    endsAt := day * 86400000000 + 7200000000 }

section Run

variable {p : Nat → Bool} {rows rows' rows₀ : List Reservation}

/-- A pass that fills everything has met every awaiting row. -/
theorem AllFilledIn.all (h : AllFilledIn p rows rows') (hall : ∀ r ∈ rows', r.firstName ≠ none) :
    AllFilledIn (fun _ => true) rows rows' := by
  induction h with
  | nil => exact .nil
  | @cons r r' rows rows' hab _ ih =>
    refine .cons (hab.congr fun hn => ?_) (ih fun r hr => hall r (List.mem_cons_of_mem _ hr))
    by_contra hp
    unfold FilledIn at hab
    rw [if_neg fun h => hp h.1] at hab
    exact hall r' (List.mem_cons_self ..) (hab ▸ hn)

theorem AllFilledIn.firstNames (h : AllFilledIn (fun _ => true) rows rows') :
    ∀ r ∈ rows', r.firstName ≠ none := by
  induction h with
  | nil => exact fun _ hr => absurd hr List.not_mem_nil
  | @cons r r' rows rows' hab _ ih =>
    refine List.forall_mem_cons.mpr ⟨fun hn => ?_, ih⟩
    unfold FilledIn at hab
    split at hab
    · obtain ⟨v, rfl⟩ := hab
      exact absurd hn (by simp [fill])
    · next hno => exact hno ⟨rfl, hab ▸ hn⟩

/-- Where no row is to be filled, none is. -/
theorem AllFilledIn.rows_eq (h : AllFilledIn p rows rows')
    (hno : ∀ r ∈ rows, r.firstName = none → p r.id = false) : rows' = rows := by
  induction h with
  | nil => rfl
  | @cons r r' rows rows' hab _ ih =>
    unfold FilledIn at hab
    rw [if_neg] at hab
    · rw [hab, ih fun r hr => hno r (List.mem_cons_of_mem _ hr)]
    · rintro ⟨hp, hn⟩
      exact absurd (hp.symm.trans (hno r (List.mem_cons_self ..) hn)) (by decide)

/-- **A completed table** is the same however it was come by. -/
theorem completed_content (h : AllFilled rows rows') (hall : ∀ r ∈ rows', r.firstName ≠ none) :
    rows'.map Reservation.content = rows.map completed := by
  induction h with
  | nil => rfl
  | @cons r r' rows rows' hab _ ih =>
    rw [List.map_cons, List.map_cons, ih fun r hr => hall r (List.mem_cons_of_mem _ hr)]
    congr 1
    unfold completed
    rcases hab with rfl | ⟨hn, v, rfl⟩
    · rw [if_neg (hall r' (List.mem_cons_self ..))]
    · rw [if_pos hn]
      rfl

theorem awaiting_eq_zero : awaiting rows = 0 ↔ ∀ r ∈ rows, r.firstName ≠ none := by
  unfold awaiting
  rw [List.countP_eq_zero]
  simp [Option.isNone_iff_eq_none]

theorem left_eq_zero {lastId : Int} :
    left rows lastId = 0 ↔ ∀ r ∈ rows, r.firstName = none → ¬ lastId < r.id := by
  unfold left
  rw [List.countP_eq_zero]
  refine forall₂_congr fun r _ => ?_
  simp only [Bool.and_eq_true, decide_eq_true_eq, Option.isNone_iff_eq_none, not_and]
  exact ⟨fun h hn hlt => h hlt hn, fun h hlt hn => h hn hlt⟩

/-- **A run** fills nothing, if nothing awaits after the checkpoint, and everything otherwise: what
    the first pass has left a second one gets. -/
theorem runBackfill_exact {t : Table} (hkeys : (t.rows.map Reservation.id).Nodup)
    (hids : ∀ r ∈ t.rows, 0 < r.id) (startAfter : Int) {batchSize : Nat} (hsize : 1 ≤ batchSize) :
    ∃ t' n, runBackfill t startAfter batchSize = some (t', n) ∧
      (left t.rows startAfter = 0 → t'.rows = t.rows) ∧
      (left t.rows startAfter ≠ 0 → AllFilledIn (fun _ => true) t.rows t'.rows) := by
  obtain ⟨t₁, hfill₁, hrun₁⟩ := runPass_exact hsize (left t.rows startAfter) startAfter rfl hkeys
  have hpass₁ := hrun₁ 0 (t.rows.length + 1) (Nat.lt_succ_of_le (left_le_length _ _))
  rw [Nat.zero_add] at hpass₁
  have hfirst : runBackfill t startAfter batchSize
      = if awaiting t₁.rows = 0 ∨ left t.rows startAfter = 0
        then some (t₁, 0 + left t.rows startAfter)
        else runPasses batchSize 4 t₁ 0 (0 + left t.rows startAfter) := by
    show ((runPass batchSize (t.rows.length + 1) t startAfter 0).bind _) = _
    rw [hpass₁]
    rfl
  rw [hfirst]
  by_cases hleft : left t.rows startAfter = 0
  · refine ⟨t₁, _, if_pos (Or.inr hleft), fun _ => ?_, fun h => absurd hleft h⟩
    exact hfill₁.rows_eq fun r hr hn => decide_eq_false (left_eq_zero.mp hleft r hr hn)
  · by_cases hdone : awaiting t₁.rows = 0
    · exact ⟨t₁, _, if_pos (Or.inl hdone), fun h => absurd h hleft,
        fun _ => hfill₁.all (awaiting_eq_zero.mp hdone)⟩
    · rw [if_neg (not_or.mpr ⟨hdone, hleft⟩)]
      -- the second pass starts at the beginning
      obtain ⟨t₂, hfill₂, hrun₂⟩ := runPass_exact hsize (left t₁.rows 0) 0 rfl (by
        rw [hfill₁.allFilled.ids]
        exact hkeys)
      have hpass₂ := hrun₂ 0 (t₁.rows.length + 1) (Nat.lt_succ_of_le (left_le_length _ _))
      rw [Nat.zero_add] at hpass₂
      have hall : AllFilledIn (fun _ => true) t.rows t₂.rows := by
        refine (hfill₁.trans hfill₂).congr fun r hr _ => ?_
        rw [show after 0 r.id = true from decide_eq_true (Int.natCast_pos.mpr (hids r hr)),
          Bool.or_true]
      refine ⟨t₂, 0 + left t.rows startAfter + left t₁.rows 0, ?_, fun h => absurd h hleft,
        fun _ => hall⟩
      show ((runPass batchSize (t₁.rows.length + 1) t₁ 0 0).bind _) = _
      rw [hpass₂]
      exact if_pos (Or.inl (awaiting_eq_zero.mpr hall.firstNames))

end Run

/-- `run_backfill` leaves no row without a first name.  So however the table has come about from
    another one, some rows of which are filled by now, it is left as an uninterrupted run leaves
    that one. -/
def Completes (t : Table) (startAfter : Int) (batchSize : Nat) : Prop :=
  ∃ t' n, runBackfill t startAfter batchSize = some (t', n) ∧
    (∀ r ∈ t'.rows, r.firstName ≠ none) ∧
    ∀ (t₀ : Table) (size₀ : Nat) (t₁ : Table) (n₁ : Nat), AllFilled t₀.rows t.rows → 1 ≤ size₀ →
      runBackfill t₀ 0 size₀ = some (t₁, n₁) →
      t'.rows.map Reservation.content = t₁.rows.map Reservation.content

/-- Two rows of `legacy`, of which only the second is filled: the first was locked when a pass went
    by. -/
def skippedFirst : Table where
  rows := [legacyRow 1, fill (legacyRow 2) (splitGuestName "Ada Lovelace".toList) 3]
  clock := 4

end TableFlow
