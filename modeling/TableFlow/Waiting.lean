/-
  Who waits for whom.

  `Waits` is `waitsFor` read back: a request waits for the lock of its table, for the lock of the
  row it updates, or for a row version in progress that might conflict with its own.  Whoever is
  waited for has an open transaction (`owner_of_waitsFor`), and a request that can do nothing is
  waiting for somebody (`waits_of_stuck`): the service never stops for another reason.  That needs
  to know which stages a kind of request goes through (`Visits`).
-/
import TableFlow.Invariant

namespace TableFlow

open Lib

/-- Task `i`, at this stage, waits for task `j`. -/
inductive Waits (env : Env) (w : World) (i j : Nat) : Request → Stage → Prop
  | table {user body t} : fitsBigint body.restaurantTableId = true →
      env.table body.restaurantTableId = some t → (Resource.table t.id, j) ∈ w.locks →
      Waits env w i j (.post user body) .arrived
  | row {user id op l ch} :
      ((Resource.row l.row.id, j) ∈ w.locks ∨
        ∃ d ∈ w.store.drafts, d.row.id = l.row.id ∧ d.owner = j) →
      Waits env w i j (.onOne user id op) (.updating l ch)
  | conflict {req id todo d d'} : w.draft i id = some d → d' ∈ w.store.drafts → d'.owner = j →
      Store.blocks reservations d d' = true → Waits env w i j req (.checking id todo)

section

variable {env : Env} {w : World} {i j : Nat}

theorem waitsFor_iff : waitsFor env w i j = true ↔
    i ≠ j ∧ ∃ t, w.tasks[i]? = some t ∧ Waits env w i j t.request t.stage := by
  unfold waitsFor
  rw [Bool.and_eq_true, bne_iff_ne]
  refine and_congr_right fun _ => ?_
  constructor
  · intro h
    cases ht : w.tasks[i]? with
    | none =>
      rw [ht] at h
      exact absurd h (by simp)
    | some t =>
      rw [ht] at h
      obtain ⟨req, st⟩ := t
      refine ⟨_, rfl, ?_⟩
      dsimp only at h
      split at h
      · rw [Bool.and_eq_true, Option.any_eq_true] at h
        obtain ⟨hid, t, htab, hl⟩ := h
        exact .table hid htab (List.contains_iff_mem.mp hl)
      · refine .row ?_
        rw [Bool.or_eq_true, List.contains_iff_mem, List.any_eq_true] at h
        refine h.imp_right fun ⟨d, hd, hp⟩ => ⟨d, hd, ?_⟩
        simpa using hp
      · rw [Option.any_eq_true] at h
        obtain ⟨d, hd, h⟩ := h
        obtain ⟨d', hd', hp⟩ := List.any_eq_true.mp h
        rw [Bool.and_eq_true, beq_iff_eq] at hp
        exact .conflict hd hd' hp.1 hp.2
      · exact absurd h (by simp)
  · rintro ⟨⟨req, st⟩, ht, hw⟩
    rw [ht]
    cases hw with
    | table hid htab hl => simp [hid, htab, hl]
    | row h =>
      rw [Bool.or_eq_true, List.contains_iff_mem, List.any_eq_true]
      refine h.imp_right fun ⟨d, hd, hid, ho⟩ => ⟨d, hd, ?_⟩
      simp [hid, ho]
    | @conflict _ id _ d d' hd hd' ho hb =>
      have : (w.draft i id).any (fun d => w.store.drafts.any fun d' =>
          d'.owner == j && Store.blocks reservations d d') = true := by
        rw [hd, Option.any_some, List.any_eq_true]
        exact ⟨_, hd', by simp [ho, hb]⟩
      cases req <;> exact this

/-- Whoever is waited for holds a lock or has a row version in progress. -/
theorem owner_of_waitsFor (h : waitsFor env w i j = true) :
    (∃ res, (res, j) ∈ w.locks) ∨ ∃ d ∈ w.store.drafts, d.owner = j := by
  obtain ⟨-, ⟨req, st⟩, -, hw⟩ := waitsFor_iff.mp h
  cases hw with
  | table _ _ hl => exact Or.inl ⟨_, hl⟩
  | row h =>
    rcases h with h | ⟨d, hd, -, ho⟩
    · exact Or.inl ⟨_, h⟩
    · exact Or.inr ⟨d, hd, ho⟩
  | conflict _ hd' ho _ => exact Or.inr ⟨_, hd', ho⟩

/-- The last member of a cycle waits for the first. -/
theorem waitCycle_last {first : Nat} {cycle : List Nat} (h : waitCycle env w first cycle = true) :
    ∃ k ∈ cycle, waitsFor env w k first = true := by
  induction cycle with
  | nil => exact absurd h (by simp [waitCycle])
  | cons i rest ih =>
    cases rest with
    | nil => exact ⟨i, List.mem_cons_self .., h⟩
    | cons j rest =>
      obtain ⟨k, hk, hw⟩ := ih (Bool.and_eq_true_iff.mp h).2
      exact ⟨k, List.mem_cons_of_mem _ hk, hw⟩

/-- The first member of a cycle waits for somebody. -/
theorem waitCycle_head {first i : Nat} {rest : List Nat}
    (h : waitCycle env w first (i :: rest) = true) : ∃ j, waitsFor env w i j = true := by
  cases rest with
  | nil => exact ⟨first, h⟩
  | cons j rest => exact ⟨j, (Bool.and_eq_true_iff.mp h).1⟩

/-- A waiting member of a cycle is waited for: it has an open transaction. -/
theorem owner_of_waitCycle {rest : List Nat} (h : waitCycle env w i (i :: rest) = true) :
    (∃ res, (res, i) ∈ w.locks) ∨ ∃ d ∈ w.store.drafts, d.owner = i := by
  obtain ⟨k, -, hw⟩ := waitCycle_last h
  exact owner_of_waitsFor hw

end

/-! ## The stages of a request -/

/-- The stages a kind of request goes through. -/
def Visits : Request → Stage → Bool
  | _, .arrived | _, .done _ => true
  | .post _ _, .booking _ | .post _ _, .inserting _ => true
  | .onOne _ _ _, .selecting _ | .onOne _ _ _, .loaded _ | .onOne _ _ _, .updating _ _ => true
  | .list _ _, .listing _ | .list _ _, .listed _ => true
  | .put _, .counted _ | .put _, .countedMissing _ _ | .put _, .accepted => true
  | .batch _ _, .filling _ => true
  | req, .committing _ | req, .saved _ | req, .reloading _ _ | req, .reloaded _ =>
    req.onReservation
  | .post _ _, .checking _ _ | .onOne _ _ _, .checking _ _ | .batch _ _, .checking _ _ => true
  | _, _ => false

theorem Act.visits {env : Env} {w : World} {i : Nat} {req : Request} {st st' : Stage} {e : Effect}
    (ha : Act env w i req st e st') (hv : Visits req st = true) : Visits req st' = true := by
  cases ha with
  | pass _ _ _ =>
    cases req with
    | list user limit => exact absurd hv (by simp [Visits])
    | put target => exact absurd hv (by simp [Visits])
    | _ => rfl
  | noChange _ _ _ _ => rfl
  | commit hreq => exact hreq
  | reload hreq => exact hreq
  | reloadRow hreq _ => exact hreq
  | _ => rfl

/-- **What every stretch keeps of a request's stage holds of every task.** -/
theorem stages_of_reach {env : Env} {P : Request → Stage → Prop} (h0 : ∀ req, P req .arrived)
    (hact : ∀ w i req st e st', Act env w i req st e st' → P req st → P req st')
    (hvictim : ∀ req, P req (.done deadlock)) {C : World → Label → Prop} {phase : Phase}
    {rows : List Reservation} {nextId clock : Nat} {w : World}
    (hr : (service env).Reach C (.start phase rows nextId clock) w) :
    ∀ t ∈ w.tasks, P t.request t.stage := by
  refine hr.invariant (I := fun w => ∀ t ∈ w.tasks, P t.request t.stage)
    (fun t ht => absurd ht (List.not_mem_nil)) ?_
  intro w l w' h _ hst
  cases step_cases hst with
  | arrive req =>
    intro t ht
    rcases List.mem_append.mp ht with ht | ht
    · exact h t ht
    · obtain rfl := List.mem_singleton.mp ht
      exact h0 req
  | act ht ha _ =>
    intro t' ht'
    rcases mem_tasks_advance ht' with hm | rfl
    · exact h t' hm
    · exact hact _ _ _ _ _ _ ha (h _ (List.mem_of_getElem? ht))
  | victim ht _ =>
    intro t' ht'
    rcases mem_tasks_advance ht' with hm | rfl
    · exact h t' hm
    · exact hvictim _

theorem visits_of_reach {env : Env} {C : World → Label → Prop} {phase : Phase}
    {rows : List Reservation} {nextId clock : Nat} {w : World}
    (hr : (service env).Reach C (.start phase rows nextId clock) w) :
    ∀ t ∈ w.tasks, Visits t.request t.stage = true :=
  stages_of_reach (P := fun req st => Visits req st = true) (fun req => by cases req <;> rfl)
    (fun _ _ _ _ _ _ ha hv => ha.visits hv) (fun req => by cases req <;> rfl) hr

/-- A request on one reservation stays with its reservation. -/
def AboutRow (req : Request) (st : Stage) : Prop :=
  ∀ user id op, req = .onOne user id op →
    match st with
    | .loaded row | .reloaded row => ∀ l, row = some l → l.row.id = id
    | .updating l _ => l.row.id = id
    | .checking id' _ | .committing id' | .saved id' | .reloading id' _ => id' = id
    | _ => True

theorem select_id {cs : List Column} {rows : List Reservation} {id : Nat} {l : Loaded}
    (h : selectReservations cs rows id = some l) : l.row.id = id := by
  obtain ⟨r, hr, rfl⟩ := Option.map_eq_some_iff.mp h
  exact (Store.lookup_some hr).2

theorem Act.aboutRow {env : Env} {w : World} {i : Nat} {req : Request} {st st' : Stage} {e : Effect}
    (ha : Act env w i req st e st') (hs : AboutRow req st) : AboutRow req st' := by
  intro user id op hreq
  have hrow := hs user id op hreq
  clear hs
  subst hreq
  cases ha with
  | selectRow _ => exact fun l hl => select_id hl
  | noChange hload _ _ _ => exact hrow _ (loadOwned_ok hload)
  | change hload _ _ _ => exact hrow _ (loadOwned_ok hload)
  | update _ hr _ _ => exact (Store.lookup_some hr).2.trans hrow
  | pass _ _ _ => exact hrow
  | commit _ => exact hrow
  | reload _ => exact hrow
  | reloadRow _ _ => exact fun l hl => (select_id hl).trans hrow
  | _ => trivial

theorem aboutRow_of_reach {env : Env} {C : World → Label → Prop} {phase : Phase}
    {rows : List Reservation} {nextId clock : Nat} {w : World}
    (hr : (service env).Reach C (.start phase rows nextId clock) w) :
    ∀ t ∈ w.tasks, AboutRow t.request t.stage :=
  stages_of_reach (fun _ _ _ _ _ => trivial) (fun _ _ _ _ _ _ ha hs => ha.aboutRow hs)
    (fun _ _ _ _ _ => trivial) hr

/-- The row version that a request on one reservation is checking is the only one it has in
    progress. -/
theorem only_draft {env : Env} {init : List Reservation} {w : World} {i : Nat}
    (h : Inv env init w) {t : Task} (ht : w.tasks[i]? = some t)
    (hreq : t.request.onReservation = true) {id : Nat} {todo : List (Nat × Text × Text)}
    (hst : t.stage = .checking id todo) {d : Draft Reservation} (hd : d ∈ w.store.drafts)
    (ho : d.owner = i) : d.row.id = id ∧ d.passed = false := by
  have hw := (h.writes ht hd ho).2
  rw [hst] at hw
  rcases hw with hw | ⟨-, -, hno⟩
  · exact hw
  · rw [hreq] at hno
    exact absurd hno (by decide)

/-! ## Only waiting stops a request -/

section Stuck

variable {env : Env} {init : List Reservation} {w : World} {i : Nat}

theorem waits_of_lockedByOther {res : Resource} (h : w.lockedByOther i res = true) :
    ∃ j, j ≠ i ∧ (res, j) ∈ w.locks := by
  obtain ⟨⟨res', j⟩, hmem, hp⟩ := List.any_eq_true.mp h
  simp only [Bool.and_eq_true, beq_iff_eq, bne_iff_ne] at hp
  obtain ⟨rfl, hj⟩ := hp
  exact ⟨j, hj, hmem⟩

/-- The draft a task is checking. -/
theorem draft_isSome {id : Nat} (h : ∃ d ∈ w.store.drafts, d.owner = i ∧ d.row.id = id) :
    ∃ d, w.draft i id = some d := by
  obtain ⟨d, hd, ho, hid⟩ := h
  refine Option.ne_none_iff_exists'.mp fun hn => ?_
  have := List.find?_eq_none.mp hn d hd
  simp [ho, hid] at this

/-- A check that cannot go on waits for the owner of a conflicting row version. -/
theorem waits_of_check {id : Nat} {req : Request} {todo : List (Nat × Text × Text)} {a : Answer}
    {next : Stage} (hs : ∃ d ∈ w.store.drafts, d.owner = i ∧ d.row.id = id)
    (h : check w i id a next = none) : ∃ j, j ≠ i ∧ Waits env w i j req (.checking id todo) := by
  obtain ⟨d, hd⟩ := draft_isSome hs
  unfold check at h
  rw [hd] at h
  dsimp only at h
  split at h
  · next hb =>
    obtain ⟨d', hd', hbl⟩ := List.any_eq_true.mp hb
    refine ⟨d'.owner, fun ho => ?_, .conflict hd hd' rfl hbl⟩
    have hne := (Bool.and_eq_true_iff.mp hbl).1
    rw [ho, (draft_some hd).2.1] at hne
    exact absurd hne (by simp)
  · split at h
    · exact absurd h (by simp)
    · exact absurd h (by simp)

/-- Commit and reload never wait. -/
theorem actSave_none {req : Request} {st : Stage} (h : actSave env w req st = none) :
    (∀ id, st ≠ .committing id) ∧ (∀ id, st ≠ .saved id) ∧ (∀ id cs, st ≠ .reloading id cs) ∧
      ∀ l, st ≠ .reloaded l := by
  refine ⟨?_, ?_, ?_, ?_⟩
  · rintro id rfl
    exact absurd h (by simp [actSave])
  · rintro id rfl
    exact absurd h (by simp [actSave])
  · rintro id cs rfl
    unfold actSave at h
    dsimp only at h
    split at h <;> exact absurd h (by simp)
  · rintro l rfl
    cases l <;> exact absurd h (by simp [actSave])

section Kinds

variable {st : Stage}

/-- A booking waits for its table, or for a booking it conflicts with. -/
theorem waits_of_actPost {user : User} {body : ReservationCreate}
    (hs : StageOk env init w i (.post user body) st) (hv : Visits (.post user body) st = true)
    (hnd : ∀ a, st ≠ .done a) (hstuck : actPost env w i user body st = none) :
    ∃ j, j ≠ i ∧ Waits env w i j (.post user body) st := by
  unfold actPost at hstuck
  split at hstuck
  · split at hstuck
    · exact absurd hstuck (by simp)
    · next hid =>
      split at hstuck
      · exact absurd hstuck (by simp)
      · next t htab =>
        split at hstuck
        · next hl =>
          obtain ⟨j, hj, hmem⟩ := waits_of_lockedByOther hl
          exact ⟨j, hj, .table (by simpa using hid) htab hmem⟩
        · exact absurd hstuck (by simp)
  · split at hstuck <;> exact absurd hstuck (by simp)
  · split at hstuck <;> exact absurd hstuck (by simp)
  · exact waits_of_check hs.1 hstuck
  · obtain ⟨h1, h2, h3, h4⟩ := actSave_none hstuck
    cases st <;> simp_all [Visits]

theorem waits_of_actOne {user : User} {id : Nat} {op : Op}
    (hs : StageOk env init w i (.onOne user id op) st) (hv : Visits (.onOne user id op) st = true)
    (hnd : ∀ a, st ≠ .done a) (hstuck : actOne env w i user id op st = none) :
    ∃ j, j ≠ i ∧ Waits env w i j (.onOne user id op) st := by
  unfold actOne at hstuck
  split at hstuck
  · exact absurd hstuck (by simp)
  · split at hstuck <;> exact absurd hstuck (by simp)
  · split at hstuck
    · exact absurd hstuck (by simp)
    · split at hstuck
      · exact absurd hstuck (by simp)
      · split at hstuck
        · exact absurd hstuck (by simp)
        · split at hstuck
          · exact absurd hstuck (by simp)
          · split at hstuck <;> exact absurd hstuck (by simp)
  · next l ch =>
    split at hstuck
    · next hb =>
      rcases Bool.or_eq_true_iff.mp hb with hb | hb
      · obtain ⟨j, hj, hmem⟩ := waits_of_lockedByOther hb
        exact ⟨j, hj, .row (Or.inl hmem)⟩
      · obtain ⟨d, hd, hp⟩ := List.any_eq_true.mp hb
        simp only [Bool.and_eq_true, beq_iff_eq, bne_iff_ne] at hp
        exact ⟨d.owner, hp.2, .row (Or.inr ⟨d, hd, hp.1, rfl⟩)⟩
    · split at hstuck
      · exact absurd hstuck (by simp)
      · split at hstuck
        · exact absurd hstuck (by simp)
        · split at hstuck <;> exact absurd hstuck (by simp)
  · exact waits_of_check hs.1 hstuck
  · obtain ⟨h1, h2, h3, h4⟩ := actSave_none hstuck
    cases st <;> simp_all [Visits]

/-- The list takes no locks. -/
theorem actList_ne_none {user : User} {limit : Nat} (hv : Visits (.list user limit) st = true)
    (hnd : ∀ a, st ≠ .done a) : actList env w user limit st ≠ none := by
  intro hstuck
  unfold actList at hstuck
  split at hstuck
  · exact absurd hstuck (by simp)
  · dsimp only at hstuck
    split at hstuck <;> exact absurd hstuck (by simp)
  · exact absurd hstuck (by simp)
  · cases st <;> simp_all [Visits, Request.onReservation]

/-- Nor does the phase change. -/
theorem actPut_ne_none {target : Phase} (hv : Visits (.put target) st = true)
    (hnd : ∀ a, st ≠ .done a) : actPut env w target st ≠ none := by
  intro hstuck
  unfold actPut at hstuck
  split at hstuck
  · exact absurd hstuck (by simp)
  · exact absurd hstuck (by simp)
  · split at hstuck <;> exact absurd hstuck (by simp)
  · exact absurd hstuck (by simp)
  · cases st <;> simp_all [Visits, Request.onReservation]

theorem waits_of_actBatch {lastId size : Nat} (hs : StageOk env init w i (.batch lastId size) st)
    (hv : Visits (.batch lastId size) st = true) (hnd : ∀ a, st ≠ .done a)
    (hstuck : actBatch env w i lastId size st = none) :
    ∃ j, j ≠ i ∧ Waits env w i j (.batch lastId size) st := by
  unfold actBatch at hstuck
  split at hstuck
  · split at hstuck <;> exact absurd hstuck (by simp)
  · exact absurd hstuck (by simp)
  · split at hstuck
    · exact absurd hstuck (by simp)
    · split at hstuck <;> exact absurd hstuck (by simp)
  · exact waits_of_check hs.1 hstuck
  · cases st with
    | filling todo => rcases todo with _ | ⟨⟨id, first, last⟩, todo⟩ <;> simp_all
    | _ => simp_all [Visits, Request.onReservation]

end Kinds

/-- **A request that cannot go on, and is not answered, waits for another one.** -/
theorem waits_of_stuck (h : Inv env init w) {t : Task} (ht : w.tasks[i]? = some t)
    (hv : Visits t.request t.stage = true) (hnd : ∀ a, t.stage ≠ .done a)
    (hstuck : act env w i t = none) : ∃ j, waitsFor env w i j = true := by
  have hs := h.stages i t ht
  obtain ⟨req, st⟩ := t
  suffices ∃ j, j ≠ i ∧ Waits env w i j req st by
    obtain ⟨j, hj, hw⟩ := this
    exact ⟨j, waitsFor_iff.mpr ⟨hj.symm, _, ht, hw⟩⟩
  cases req with
  | post user body => exact waits_of_actPost hs hv hnd hstuck
  | onOne user id op => exact waits_of_actOne hs hv hnd hstuck
  | list user limit => exact absurd hstuck (actList_ne_none hv hnd)
  | put target => exact absurd hstuck (actPut_ne_none hv hnd)
  | batch lastId size => exact waits_of_actBatch hs hv hnd hstuck

end Stuck

end TableFlow
