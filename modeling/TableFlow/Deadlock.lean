/-
  Deadlocks between the writers of one table's bookings.

  Two requests wait for each other exactly when two row versions that clash are in the middle of
  their exclusion checks (`mutual_wait_iff`): every other wait is for the lock of a table or a row,
  and whoever waits for one of those has nothing that another request could wait for.

  1. Two bookings never get there: both would hold the lock of their table.
  2. `update_reservation` takes no lock on the table.  A PATCH that sets a cancelled reservation
     back writes its row version without waiting for the bookings of that table, and they do not
     wait for it before they write theirs.  Then each check waits for the other request to end.

  So one of the two is always a PATCH (`patch_of_mutual_wait`), and a run is free of mutual waits
  exactly when no statement writes a row version that clashes with one whose check is not over
  (`no_mutual_wait_iff`).
-/
import TableFlow.Answers

namespace TableFlow

open Lib

/-! ## Mutual waits -/

/-- No two requests wait for each other. -/
def NoMutualWait (env : Env) (w : World) : Prop :=
  ∀ i j, ¬ (waitsFor env w i j = true ∧ waitsFor env w j i = true)

/-- The checks of two clashing row versions are not over. -/
def Tangled (w : World) : Prop :=
  ∃ d ∈ w.store.drafts, ∃ d' ∈ w.store.drafts, d.passed = false ∧ d'.passed = false ∧
    d.owner ≠ d'.owner ∧ doubleBooking d.row d'.row = true

/-- All writers are requests on reservations. -/
def NoBatch (w : World) : Prop := ∀ t ∈ w.tasks, ∀ lastId size, t.request ≠ .batch lastId size

section Mutual

variable {env : Env} {init : List Reservation} {w : World} {i j : Nat}

/-- Whoever has a row version in progress is a request on one reservation. -/
theorem onReservation_of_draft (h : Inv env init w) (hno : NoBatch w) {d : Draft Reservation}
    (hd : d ∈ w.store.drafts) : ∃ t, w.tasks[d.owner]? = some t ∧
      t.request.onReservation = true ∧ Made env t.request d.before d.row ∧
      Writes t.request t.stage d := by
  obtain ⟨t, ht, hmade, hw⟩ := h.writers d hd
  refine ⟨t, ht, ?_, hmade, hw⟩
  have hb := hno t (List.mem_of_getElem? ht)
  obtain ⟨req, st⟩ := t
  cases req with
  | post _ _ => rfl
  | onOne _ _ _ => rfl
  | list _ _ => exact absurd hmade (fun x => x)
  | put _ => exact absurd hmade (fun x => x)
  | batch lastId size => exact absurd rfl (hb lastId size)

/-- A row version whose check is not over belongs to a request that is checking it. -/
theorem checking_of_unpassed (h : Inv env init w) (hno : NoBatch w) {d : Draft Reservation}
    (hd : d ∈ w.store.drafts) (hp : d.passed = false) :
    ∃ t todo, w.tasks[d.owner]? = some t ∧ t.stage = .checking d.row.id todo ∧
      w.draft d.owner d.row.id = some d := by
  obtain ⟨⟨req, st⟩, ht, -, -, hw⟩ := onReservation_of_draft h hno hd
  have hst : ∃ todo, st = .checking d.row.id todo := by
    cases st with
    | checking id todo =>
      rcases hw with ⟨hid, -⟩ | ⟨-, hpass, -⟩
      · exact ⟨todo, by rw [hid]⟩
      · rw [hp] at hpass
        exact absurd hpass (by decide)
    | committing id => exact absurd (hp.symm.trans hw.2) (by decide)
    | filling todo => exact absurd (hp.symm.trans hw.1) (by decide)
    | _ => exact absurd hw (fun x => x)
  obtain ⟨todo, rfl⟩ := hst
  refine ⟨_, todo, ht, rfl, ?_⟩
  obtain ⟨d₀, hd₀⟩ := draft_isSome ⟨d, hd, rfl, rfl⟩
  rw [hd₀, Store.draft_unique h.sound.draftKeys (draft_some hd₀).1 hd (draft_some hd₀).2.2]

/-- A request that is waited for, and waits, is checking a row version of its own. -/
theorem checking_of_wait (h : Inv env init w) (hij : waitsFor env w i j = true)
    (hji : waitsFor env w j i = true) :
    ∃ t id todo d d', w.tasks[i]? = some t ∧ t.stage = .checking id todo ∧
      w.draft i id = some d ∧ d' ∈ w.store.drafts ∧ d'.owner = j ∧
      Store.blocks reservations d d' = true := by
  obtain ⟨-, t, ht, hw⟩ := waitsFor_iff.mp hij
  -- whoever waits for a lock has no lock and no row version
  have idle : (∀ d, ¬ Writes t.request t.stage d) → t.stage.open = false → False := by
    intro hwrites hopen
    rcases owner_of_waitsFor hji with ⟨res, hres⟩ | ⟨d, hd, ho⟩
    · exact h.no_lock ht hopen res hres
    · exact h.no_draft ht hwrites d hd ho
  obtain ⟨req, st⟩ := t
  cases hw with
  | table _ _ _ => exact (idle (fun _ x => x) rfl).elim
  | row _ => exact (idle (fun _ x => x) rfl).elim
  | @conflict _ id todo d d' hd hd' ho hb => exact ⟨_, id, todo, d, d', ht, rfl, hd, hd', ho, hb⟩

/-- A check waits for row versions of its own slot only: an UPDATE does not move its row. -/
theorem slot_of_blocks (h : Inv env init w) {d d' : Draft Reservation} (hd' : d' ∈ w.store.drafts)
    (hb : Store.blocks reservations d d' = true) :
    d.row.status ≠ .cancelled ∧ sameSlot d.row d'.row = true := by
  obtain ⟨-, hc⟩ := Bool.and_eq_true_iff.mp hb
  rcases Bool.or_eq_true_iff.mp hc with hc | hc
  · obtain ⟨hs, -, hslot⟩ := (doubleBooking_iff _ _).mp hc
    exact ⟨hs, hslot⟩
  · obtain ⟨b, hbef, hc⟩ := (Option.any_eq_true _ _).mp hc
    obtain ⟨hs, -, hslot⟩ := (doubleBooking_iff _ _).mp hc
    obtain ⟨t, -, hmade, -⟩ := h.writers d' hd'
    rw [hbef] at hmade
    obtain ⟨-, htab, hstart, hend⟩ := hmade.place
    refine ⟨hs, ?_⟩
    unfold sameSlot at hslot ⊢
    rw [htab, hstart, hend]
    exact hslot

/-- **What two requests that wait for each other are doing**: checking row versions that clash. -/
theorem clash_of_mutual_wait (h : Inv env init w) (hno : NoBatch w)
    (hij : waitsFor env w i j = true) (hji : waitsFor env w j i = true) :
    ∃ d ∈ w.store.drafts, ∃ e ∈ w.store.drafts, d.owner = i ∧ e.owner = j ∧ d.passed = false ∧
      e.passed = false ∧ doubleBooking d.row e.row = true := by
  obtain ⟨t, id, todo, d, d', ht, hst, hd, hd', ho', hb⟩ := checking_of_wait h hij hji
  obtain ⟨u, id', todo', e, e', hu, hsu, he, he', hoe', hb'⟩ := checking_of_wait h hji hij
  obtain ⟨hdm, hdo, -⟩ := draft_some hd
  obtain ⟨hem, heo, -⟩ := draft_some he
  have single : ∀ {k : Nat} {t : Task} {id : Nat} {todo : List (Nat × Text × Text)}
      {x y : Draft Reservation}, w.tasks[k]? = some t → t.stage = .checking id todo →
      x ∈ w.store.drafts → x.owner = k → y ∈ w.store.drafts → y.owner = k →
      x = y ∧ x.passed = false := by
    intro k t id todo x y ht hst hx hxo hy hyo
    obtain ⟨t', ht', hreq, -, -⟩ := onReservation_of_draft h hno hx
    rw [hxo] at ht'
    obtain rfl := Option.some.inj (ht.symm.trans ht')
    obtain ⟨hidx, hpx⟩ := only_draft h ht hreq hst hx hxo
    obtain ⟨hidy, -⟩ := only_draft h ht hreq hst hy hyo
    exact ⟨Store.draft_unique h.sound.draftKeys hx hy (hidx.trans hidy.symm), hpx⟩
  obtain ⟨rfl, hpe⟩ := single hu hsu hem heo hd' ho'
  obtain ⟨rfl, hpd⟩ := single ht hst hdm hdo he' hoe'
  obtain ⟨hsd, hslot⟩ := slot_of_blocks h hem hb
  obtain ⟨hse, -⟩ := slot_of_blocks h hdm hb'
  exact ⟨d, hdm, e, hem, hdo, heo, hpd, hpe, (doubleBooking_iff _ _).mpr ⟨hsd, hse, hslot⟩⟩

/-- **Two requests wait for each other exactly when the checks of two clashing row versions are
    not over.** -/
theorem mutual_wait_iff (h : Inv env init w) (hno : NoBatch w) :
    (∃ i j, waitsFor env w i j = true ∧ waitsFor env w j i = true) ↔ Tangled w := by
  constructor
  · rintro ⟨i, j, hij, hji⟩
    obtain ⟨d, hd, e, he, rfl, rfl, hpd, hpe, hc⟩ := clash_of_mutual_wait h hno hij hji
    exact ⟨d, hd, e, he, hpd, hpe, (waitsFor_iff.mp hij).1, hc⟩
  · rintro ⟨d, hd, d', hd', hp, hp', hne, hc⟩
    have wait : ∀ {d d' : Draft Reservation}, d ∈ w.store.drafts → d' ∈ w.store.drafts →
        d.passed = false → d.owner ≠ d'.owner → doubleBooking d.row d'.row = true →
        waitsFor env w d.owner d'.owner = true := by
      intro d d' hd hd' hp hne hc
      obtain ⟨t, todo, ht, hst, hdraft⟩ := checking_of_unpassed h hno hd hp
      refine waitsFor_iff.mpr ⟨hne, t, ht, ?_⟩
      rw [hst]
      refine .conflict hdraft hd' rfl ?_
      simp [Store.blocks, hne.symm, hc]
    exact ⟨d.owner, d'.owner, wait hd hd' hp hne hc,
      wait hd' hd hp' hne.symm (by rw [doubleBooking_comm]; exact hc)⟩

/-- A row version in the constrained set is a booking's or a PATCH's. -/
theorem booking_or_patch {req : Request} {before : Option Reservation} {row : Reservation}
    (hreq : req.onReservation = true) (hmade : Made env req before row)
    (hs : row.status ≠ .cancelled) :
    (∃ user body, req = .post user body) ∨
      ∃ user id ifMatch body, req = .onOne user id (.patch ifMatch body) := by
  cases req with
  | post user body => exact Or.inl ⟨user, body, rfl⟩
  | onOne user id op =>
    obtain ⟨b, p, ed, cs, v, -, -, -, hop, -, -, rfl⟩ := hmade
    cases op with
    | get => exact absurd hop (by simp [Op.edit])
    | patch ifMatch body => exact Or.inr ⟨user, id, ifMatch, body, rfl⟩
    | delete ifMatch =>
      obtain rfl := Option.some.inj hop
      exact absurd (net_apply_status cancelled ⟨b, cs⟩ v) hs
  | _ => exact absurd hreq (by simp [Request.onReservation])

/-- The table that a booking locks is the one of its row version. -/
theorem row_locked (h : Inv env init w) {d : Draft Reservation} (hd : d ∈ w.store.drafts)
    {t : Task} (ht : w.tasks[d.owner]? = some t) {user : User} {body : ReservationCreate}
    (hreq : t.request = .post user body) :
    (Resource.table d.row.restaurantTableId, d.owner) ∈ w.locks := by
  have hmade := (h.writes ht hd rfl).1
  rw [hreq] at hmade
  obtain ⟨-, p, id, v, -, hrow⟩ := hmade
  have htab : d.row.restaurantTableId = body.restaurantTableId := by
    rw [hrow]
    exact assignNames_restaurantTableId _ _
  rw [htab]
  exact h.booking_locks ht hreq hd rfl

/-- **Two bookings never wait for each other**: one of the two requests is a PATCH. -/
theorem patch_of_mutual_wait (h : Inv env init w) (hno : NoBatch w)
    (hij : waitsFor env w i j = true) (hji : waitsFor env w j i = true) :
    ∃ k t user id ifMatch body, (k = i ∨ k = j) ∧ w.tasks[k]? = some t ∧
      t.request = .onOne user id (.patch ifMatch body) := by
  obtain ⟨d, hd, e, he, rfl, rfl, -, -, hc⟩ := clash_of_mutual_wait h hno hij hji
  obtain ⟨hsd, hse, hslot⟩ := (doubleBooking_iff _ _).mp hc
  obtain ⟨t, ht, hreq, hmade, -⟩ := onReservation_of_draft h hno hd
  obtain ⟨u, hu, hrequ, hmadeu, -⟩ := onReservation_of_draft h hno he
  rcases booking_or_patch hreq hmade hsd with ⟨user, body, hpost⟩ | ⟨user, id, im, body, hpatch⟩
  · rcases booking_or_patch hrequ hmadeu hse with ⟨user', body', hpost'⟩ | ⟨user', id, im, b, hp'⟩
    · -- both hold the lock of the one table
      have hl := row_locked h hd ht hpost
      have hl' := row_locked h he hu hpost'
      rw [eq_of_beq (Bool.and_eq_true_iff.mp hslot).1] at hl
      have heq := List.inj_on_of_nodup_map h.locksOnce hl hl' rfl
      exact absurd (Prod.mk.inj heq).2 (waitsFor_iff.mp hij).1
    · exact ⟨e.owner, u, user', id, im, b, Or.inr rfl, hu, hp'⟩
  · exact ⟨d.owner, t, user, id, im, body, Or.inl rfl, ht, hpatch⟩

end Mutual

/-! ## Steps that tangle -/

/-- A row version whose check is not over clashes with `r`. -/
def Clashing (w : World) (r : Reservation) : Prop :=
  ∃ d ∈ w.store.drafts, d.passed = false ∧ doubleBooking r d.row = true

/-- The next statement of task `i` writes this row: an INSERT that the table takes, or an UPDATE
    that finds the row free and unchanged. -/
inductive NextWrite (env : Env) (w : World) (i : Nat) : Stage → Reservation → Prop
  | insert {r} : insertError env.schema r = none → NextWrite env w i (.inserting r) r
  | update {l ch r} : w.rowBusy i l.row.id = false →
      Store.lookup reservations w.store.rows l.row.id = some r → r.version = l.row.version →
      NextWrite env w i (.updating l ch) (ch.apply r w.store.clock)

/-- The step writes no row version that clashes with one whose check is not over. -/
def Orderly (env : Env) (w : World) (l : Label) : Prop :=
  ∀ i t r, l = .step i → w.tasks[i]? = some t → NextWrite env w i t.stage r → ¬ Clashing w r

section Steps

variable {env : Env} {init : List Reservation} {w w' : World} {l : Label} {i : Nat}

/-- What a writing stretch writes was to be seen before. -/
theorem nextWrite_of_write {req : Request} {st st' : Stage} {before : Option Reservation}
    {row : Reservation} (hb : ∀ lastId size, req ≠ .batch lastId size)
    (ha : Act env w i req st (.write before row) st') :
    ∃ r, NextWrite env w i st r ∧ ∀ r', doubleBooking row r' = doubleBooking r r' := by
  cases ha with
  | @insert _ _ r he => exact ⟨r, .insert he, fun _ => rfl⟩
  | update hbusy hr hv _ => exact ⟨_, .update hbusy hr hv, fun _ => rfl⟩
  | fillRow _ _ => exact absurd rfl (hb _ _)

/-- What was to be seen is written. -/
theorem write_of_nextWrite (h : Inv env init w) {t : Task} (ht : w.tasks[i]? = some t)
    {e : Effect} {st' : Stage} (ha : Act env w i t.request t.stage e st') {r : Reservation}
    (hn : NextWrite env w i t.stage r) :
    (∃ before row, e = .write before row ∧ ∀ r', doubleBooking row r' = doubleBooking r r') ∧
      ∀ d, ¬ Writes t.request t.stage d := by
  have hs := h.stages i t ht
  obtain ⟨req, st⟩ := t
  cases hn with
  | insert he =>
    refine ⟨?_, fun _ x => x⟩
    cases ha with
    | insertFails he' => exact absurd (he.symm.trans he') (by simp)
    | insert _ => exact ⟨_, _, rfl, fun _ => rfl⟩
  | @update l ch r hbusy hr hv =>
    refine ⟨?_, fun _ x => x⟩
    cases ha with
    | staleRow _ hstale => exact absurd hv (hstale r hr)
    | updateFails _ hr' _ he =>
      rw [updateError_eq_none h hs hr'] at he
      exact absurd he (by simp)
    | update _ hr' _ _ =>
      obtain rfl := Option.some.inj (hr.symm.trans hr')
      exact ⟨_, _, rfl, fun _ => rfl⟩

/-- An unchecked row version was there before the step, or the step wrote it. -/
theorem unpassed_of_apply {e : Effect} {d : Draft Reservation}
    (hd : d ∈ (w.apply i e).store.drafts) (hp : d.passed = false) :
    d ∈ w.store.drafts ∨ ∃ before row, e = .write before row ∧ d = ⟨i, before, row, false⟩ := by
  cases e with
  | write before row =>
    rcases List.mem_append.mp hd with hd | hd
    · exact Or.inl hd
    · exact Or.inr ⟨before, row, rfl, List.mem_singleton.mp hd⟩
  | pass id =>
    obtain ⟨d₀, hd₀, rfl⟩ := List.mem_map.mp hd
    split at hp
    · exact absurd hp (by simp)
    · next hk =>
      rw [if_neg hk]
      exact Or.inl hd₀
  | commit => exact Or.inl (Store.mem_commit.mp hd).1
  | abort => exact Or.inl (Store.mem_abort.mp hd).1
  | _ => exact Or.inl hd

/-- **An orderly step tangles nothing.** -/
theorem not_tangled_of_orderly (hno : NoBatch w) (ht : ¬ Tangled w)
    (hl : Orderly env w l) (hst : (service env).step w l = some w') : ¬ Tangled w' := by
  cases step_cases hst with
  | arrive req => exact ht
  | @act i t e st htask ha _ =>
    rintro ⟨d, hd, d', hd', hp, hp', hne, hc⟩
    have fresh : ∀ {before : Option Reservation} {row : Reservation}, e = .write before row →
        ¬ Clashing w row := by
      rintro before row rfl ⟨x, hx, hpx, hcx⟩
      obtain ⟨r, hn, hsame⟩ := nextWrite_of_write (hno t (List.mem_of_getElem? htask)) ha
      exact hl i t r rfl htask hn ⟨x, hx, hpx, by rw [← hsame]; exact hcx⟩
    rcases unpassed_of_apply hd hp with hold | ⟨before, row, he, rfl⟩
    · rcases unpassed_of_apply hd' hp' with hold' | ⟨before, row, he, rfl⟩
      · exact ht ⟨d, hold, d', hold', hp, hp', hne, hc⟩
      · exact fresh he ⟨d, hold, hp, by rw [doubleBooking_comm]; exact hc⟩
    · rcases unpassed_of_apply hd' hp' with hold' | ⟨_, _, _, rfl⟩
      · exact fresh he ⟨d', hold', hp', hc⟩
      · exact hne rfl
  | victim _ _ =>
    rintro ⟨d, hd, d', hd', hrest⟩
    exact ht ⟨d, (Store.mem_abort.mp hd).1, d', (Store.mem_abort.mp hd').1, hrest⟩

/-- **Any other step tangles.** -/
theorem tangled_of_not_orderly (h : Inv env init w) (hl : ¬ Orderly env w l)
    (hst : (service env).step w l = some w') : Tangled w' := by
  unfold Orderly at hl
  push Not at hl
  obtain ⟨i, t, r, rfl, ht, hn, d, hd, hp, hc⟩ := hl
  cases step_cases hst with
  | @act _ t' e st ht' ha _ =>
    obtain rfl := Option.some.inj (ht.symm.trans ht')
    obtain ⟨⟨before, row, rfl, hsame⟩, hw⟩ := write_of_nextWrite h ht ha hn
    refine ⟨⟨i, before, row, false⟩, List.mem_append_right _ (List.mem_singleton.mpr rfl), d,
      List.mem_append_left _ hd, rfl, hp, ?_, ?_⟩
    · exact (h.no_draft ht hw d hd).symm
    · exact (hsame d.row).trans hc

theorem NoBatch.step (hno : NoBatch w) (hl : ∀ lastId size, l ≠ .arrive (.batch lastId size))
    (hst : (service env).step w l = some w') : NoBatch w' := by
  cases step_cases hst with
  | arrive req =>
    intro t ht lastId size hreq
    rcases List.mem_append.mp ht with ht | ht
    · exact hno t ht lastId size hreq
    · obtain rfl := List.mem_singleton.mp ht
      exact hl lastId size (congrArg Label.arrive hreq)
  | act ht _ _ =>
    intro t' ht'
    rcases mem_tasks_advance ht' with hm | rfl
    · exact hno t' hm
    · exact fun lastId size hreq => hno _ (List.mem_of_getElem? ht) lastId size hreq
  | victim ht _ =>
    intro t' ht'
    rcases mem_tasks_advance ht' with hm | rfl
    · exact hno t' hm
    · exact fun lastId size hreq => hno _ (List.mem_of_getElem? ht) lastId size hreq

end Steps

/-! ## The result -/

theorem noMutualWait_iff {env : Env} {init : List Reservation} {w : World} (h : Inv env init w)
    (hno : NoBatch w) : NoMutualWait env w ↔ ¬ Tangled w := by
  rw [← mutual_wait_iff h hno]
  unfold NoMutualWait
  push Not
  rfl

/-- **Along a run of requests, no two ever wait for each other exactly when every step is
    orderly.** -/
theorem no_mutual_wait_iff {env : Env} {phase : Phase} {rows : List Reservation}
    {nextId clock : Nat} (hready : Ready env phase rows nextId clock) (ls : List Label)
    (hls : ∀ l ∈ ls, ∀ lastId size, l ≠ .arrive (.batch lastId size)) :
    (service env).AllStates (NoMutualWait env) (.start phase rows nextId clock) ls ↔
      (service env).AllSteps (Orderly env) (.start phase rows nextId clock) ls := by
  have hstart : NoBatch (.start phase rows nextId clock) := fun t ht => absurd ht (List.not_mem_nil)
  refine Machine.allStates_iff_allSteps (J := fun w => Inv env rows w ∧ NoBatch w) ?_ ?_ ls _ hls
    ⟨hready.inv, hstart⟩ ((noMutualWait_iff hready.inv hstart).mpr ?_)
  · rintro w l w' hb ⟨h, hno⟩ hP hC hst
    have h' := h.step hst
    have hno' := hno.step hb hst
    exact ⟨⟨h', hno'⟩, (noMutualWait_iff h' hno').mpr
      (not_tangled_of_orderly hno ((noMutualWait_iff h hno).mp hP) hC hst)⟩
  · rintro w l w' hb ⟨h, hno⟩ - hC hst hP'
    exact (noMutualWait_iff (h.step hst) (hno.step hb hst)).mp hP' (tangled_of_not_orderly h hC hst)
  · rintro ⟨d, hd, -⟩
    exact absurd hd (List.not_mem_nil)

/-- A slot is booked and cancelled.  Then the first customer confirms the reservation again while
    a second one books the slot: both have written their row versions, neither is checked. -/
def tangledRun : List Label :=
  whole 0 8 (.post customer lunchForTwo) ++
  whole 1 9 (.onOne customer 1 (.delete none)) ++
  whole 2 4 (.onOne customer 1 (.patch (some (etag 2)) (setStatus .confirmed))) ++
  whole 3 3 (.post customer lunchForFour)

theorem tangledRun_mutual {w : World}
    (hw : (service sample).run (.start .legacy [] 1 1) tangledRun = some w) :
    ¬ NoMutualWait sample w := by
  intro hno
  refine hno 2 3 ⟨?_, ?_⟩
  · exact (service sample).run_eval (fun w => waitsFor sample w 2 3) hw (by decide)
  · exact (service sample).run_eval (fun w => waitsFor sample w 3 2) hw (by decide)

/-- **A PATCH and a booking can wait for each other.** -/
theorem patch_and_booking_deadlock : ¬ ∀ (env : Env) (phase : Phase) (rows : List Reservation)
    (nextId clock : Nat), Ready env phase rows nextId clock →
    ∀ w, (service env).Reach (fun _ _ => True) (.start phase rows nextId clock) w →
      NoMutualWait env w := by
  intro h
  obtain ⟨w, hw⟩ : ∃ w, (service sample).run (.start .legacy [] 1 1) tangledRun = some w :=
    Option.isSome_iff_exists.mp (by decide)
  exact tangledRun_mutual hw (h sample .legacy [] 1 1 (sample_ready _) w (Machine.Reach.of_run hw))

/-- A step of that run is not orderly. -/
theorem tangledRun_not_orderly :
    ¬ (service sample).AllSteps (Orderly sample) (.start .legacy [] 1 1) tangledRun := by
  intro hall
  obtain ⟨w, hw⟩ : ∃ w, (service sample).run (.start .legacy [] 1 1) tangledRun = some w :=
    Option.isSome_iff_exists.mp (by decide)
  have hls : ∀ l ∈ tangledRun, ∀ lastId size, l ≠ .arrive (.batch lastId size) := by
    rintro l hl lastId size rfl
    simp [tangledRun, whole] at hl
  exact tangledRun_mutual hw
    (((no_mutual_wait_iff (sample_ready _) tangledRun hls).mpr hall).last hw)

end TableFlow
