/-
  Requests with nothing beside them.

  The deployment takes a request as one event; in the service it goes from stretch to stretch,
  among others.  Here the two meet:

  1. **Solo** — stretches of one task and nothing else (`Solo`).  Whatever tasks have been answered
     before it, they make a run of the service (`Solo.run`).
  2. **At rest** — no transaction is in progress and the service has the rows, the phase and the
     counters of the deployment (`AtRest`).  The order of the rows is left open: a commit puts the
     rows it has written last.
  3. **Simulation** — from a service at rest the stretches of a request lead to its answer in the
     deployment and to the service at rest there: `create_alone`, `edit_alone`, `put_alone`.
  4. **Runs** — so whatever the deployment comes to by requests, the service comes to
     (`run_served`).
-/
import TableFlow.Deployment

namespace TableFlow

open Lib

/-! ## Solo -/

/-- Stretches of task `i`, from one stage to another. -/
inductive Solo (env : Env) (i : Nat) (req : Request) : World → Stage → World → Stage → Prop
  | refl {w : World} {st : Stage} : Solo env i req w st w st
  | step {w w' : World} {st st₁ st' : Stage} {e : Effect} :
      act env w i ⟨req, st⟩ = some (e, st₁) → Solo env i req (w.apply i e) st₁ w' st' →
      Solo env i req w st w' st'

section Solo

variable {env : Env} {i : Nat} {req : Request} {w w' : World} {st st' : Stage}

theorem Solo.trans {w₁ : World} {st₁ : Stage} (h : Solo env i req w st w₁ st₁)
    (h' : Solo env i req w₁ st₁ w' st') : Solo env i req w st w' st' := by
  induction h with
  | refl => exact h'
  | step ha _ ih => exact .step ha (ih h')

/-- A stretch that changes nothing but the stage. -/
theorem Solo.look {st₁ : Stage} (ha : act env w i ⟨req, st⟩ = some (.none, st₁))
    (h : Solo env i req w st₁ w' st') : Solo env i req w st w' st' := .step ha h

/-- A stretch does not look at the tasks. -/
theorem act_tasks (ts : List Task) (t : Task) :
    act env { w with tasks := ts } i t = act env w i t := by
  obtain ⟨req, st⟩ := t
  cases req <;> rfl

theorem apply_tasks (ts : List Task) (e : Effect) :
    ({ w with tasks := ts } : World).apply i e = { w.apply i e with tasks := ts } := by
  cases e <;> rfl

/-- **Stretches of the last task are a run of the service.** -/
theorem Solo.run {ts : List Task} (h : Solo env ts.length req w st w' st') :
    ∃ n, (service env).run { w with tasks := ts ++ [⟨req, st⟩] }
      (List.replicate n (.step ts.length)) = some { w' with tasks := ts ++ [⟨req, st'⟩] } := by
  induction h with
  | refl => exact ⟨0, rfl⟩
  | @step w w' st st₁ st' e ha _ ih =>
    obtain ⟨n, hn⟩ := ih
    refine ⟨n + 1, ?_⟩
    have hlast : (ts ++ [(⟨req, st⟩ : Task)])[ts.length]? = some ⟨req, st⟩ :=
      List.getElem?_concat_length
    have hstep : (service env).step { w with tasks := ts ++ [⟨req, st⟩] } (.step ts.length)
        = some { w.apply ts.length e with tasks := ts ++ [⟨req, st₁⟩] } := by
      show ((ts ++ [(⟨req, st⟩ : Task)])[ts.length]?).bind _ = _
      rw [hlast]
      show (act env _ _ _).map _ = _
      rw [act_tasks, ha]
      show some (World.advance _ _ _ _ _) = _
      unfold World.advance
      rw [apply_tasks]
      simp
    rw [List.replicate_succ, (service env).run_cons hstep]
    exact hn

/-- A request arrives and goes on alone. -/
theorem Solo.served (h : Solo env w.tasks.length req w .arrived w' st') :
    ∃ n, (service env).run w (whole w.tasks.length n req)
      = some { w' with tasks := w.tasks ++ [⟨req, st'⟩] } := by
  obtain ⟨n, hn⟩ := h.run
  have harrive : (service env).step w (.arrive req)
      = some { w with tasks := w.tasks ++ [⟨req, .arrived⟩] } := rfl
  refine ⟨n, ?_⟩
  unfold whole
  rw [(service env).run_cons harrive]
  exact hn

end Solo

/-! ## At rest -/

namespace Deployment

/-- Only task `i` has a transaction in progress, with the drafts `ds`. -/
structure Busy (s : Site) (i : Nat) (ds : List (Draft Reservation)) (w : World) : Prop where
  phase : w.phase = s.phase
  rows : w.store.rows.Perm s.rows
  drafts : w.store.drafts = ds
  owners : ∀ d ∈ ds, d.owner = i
  clock : w.store.clock = s.clock
  nextId : w.nextId = s.nextId
  locks : ∀ l ∈ w.locks, l.2 = i

/-- No transaction is in progress. -/
structure AtRest (s : Site) (w : World) : Prop where
  phase : w.phase = s.phase
  rows : w.store.rows.Perm s.rows
  drafts : w.store.drafts = []
  clock : w.store.clock = s.clock
  nextId : w.nextId = s.nextId
  locks : w.locks = []

section Rest

variable {env : Env} {s : Site} {i : Nat} {w : World} {ds : List (Draft Reservation)}

theorem AtRest.busy (h : AtRest s w) (i : Nat) : Busy s i [] w where
  phase := h.phase
  rows := h.rows
  drafts := h.drafts
  owners := fun d hd => absurd hd List.not_mem_nil
  clock := h.clock
  nextId := h.nextId
  locks := by
    rw [h.locks]
    exact fun l hl => absurd hl List.not_mem_nil

/-- Nobody else holds a lock. -/
theorem Busy.free (h : Busy s i ds w) (res : Resource) : w.lockedByOther i res = false := by
  refine List.any_eq_false.mpr fun l hl => ?_
  rw [h.locks l hl]
  simp

/-- Nobody else has written a row. -/
theorem Busy.rowFree (h : Busy s i ds w) (id : Nat) : w.rowBusy i id = false := by
  refine Bool.or_eq_false_iff.mpr ⟨h.free _, List.any_eq_false.mpr fun d hd => ?_⟩
  rw [h.owners d (h.drafts ▸ hd)]
  simp

/-- No check waits. -/
theorem Busy.not_blocked (h : Busy s i ds w) {d : Draft Reservation} (hd : d ∈ ds) :
    w.store.blocked reservations d = false := by
  refine List.any_eq_false.mpr fun d' hd' => ?_
  unfold Store.blocks
  rw [h.owners d hd, h.owners d' (h.drafts ▸ hd')]
  simp

theorem Busy.lock (h : Busy s i ds w) (rs : List Resource) :
    Busy s i ds (w.apply i (.lock rs)) where
  phase := h.phase
  rows := h.rows
  drafts := h.drafts
  owners := h.owners
  clock := h.clock
  nextId := h.nextId
  locks := by
    intro l hl
    rcases List.mem_append.mp hl with hl | hl
    · exact h.locks l hl
    · obtain ⟨r, -, rfl⟩ := List.mem_map.mp hl
      rfl

theorem Busy.no_locks (h : Busy s i ds w) : w.locks.filter (·.2 != i) = [] := by
  refine List.filter_eq_nil_iff.mpr fun l hl => ?_
  rw [h.locks l hl]
  simp

theorem Busy.no_drafts (h : Busy s i ds w) : w.store.drafts.filter (·.owner != i) = [] := by
  refine List.filter_eq_nil_iff.mpr fun d hd => ?_
  rw [h.owners d (h.drafts ▸ hd)]
  simp

/-- A rollback ends the transaction. -/
theorem Busy.abort (h : Busy s i ds w) : AtRest s (w.apply i .abort) where
  phase := h.phase
  rows := h.rows
  drafts := h.no_drafts
  clock := h.clock
  nextId := h.nextId
  locks := h.no_locks

/-- A commit ends the transaction and publishes its rows. -/
theorem Busy.commit (h : Busy s i ds w) {rows : List Reservation}
    (hrows : (w.store.seen reservations i).Perm rows) :
    AtRest { s with rows := rows } (w.apply i .commit) where
  phase := h.phase
  rows := hrows
  drafts := h.no_drafts
  clock := h.clock
  nextId := h.nextId
  locks := h.no_locks

/-- A row version is written. -/
theorem Busy.write (h : Busy s i ds w) (before : Option Reservation) (row : Reservation) :
    Busy { s with clock := s.clock + 1, nextId := s.nextId + if before.isNone then 1 else 0 } i
      (ds ++ [⟨i, before, row, false⟩]) (w.apply i (.write before row)) where
  phase := h.phase
  rows := h.rows
  drafts := by
    show w.store.drafts ++ _ = _
    rw [h.drafts]
  owners := by
    intro d hd
    rcases List.mem_append.mp hd with hd | hd
    · exact h.owners d hd
    · rw [List.mem_singleton.mp hd]
  clock := congrArg (· + 1) h.clock
  nextId := congrArg (· + _) h.nextId
  locks := h.locks

/-- What the task sees: its drafts in place of the rows they replace. -/
theorem Busy.seen (h : Busy s i ds w) :
    w.store.seen reservations i
      = w.store.rows.filter (fun r => !ds.any fun d => d.row.id == r.id) ++ ds.map (·.row) := by
  have hown : w.store.own i = ds := by
    unfold Store.own
    rw [h.drafts]
    exact List.filter_eq_self.mpr fun d hd => beq_iff_eq.mpr (h.owners d hd)
  unfold Store.seen Store.overwrites
  rw [hown]
  rfl

theorem Busy.draft (h : Busy s i ds w) {d : Draft Reservation} (hd : d ∈ ds)
    (hnd : (ds.map fun d => d.row.id).Nodup) : w.draft i d.row.id = some d := by
  unfold World.draft
  rw [h.drafts]
  obtain ⟨d', hd'⟩ : ∃ d', ds.find? (fun x => x.owner == i && x.row.id == d.row.id) = some d' := by
    refine Option.isSome_iff_exists.mp (List.find?_isSome.mpr ⟨d, hd, ?_⟩)
    simp [h.owners d hd]
  have hp := List.find?_some hd'
  rw [hd', List.inj_on_of_nodup_map hnd (List.mem_of_find?_eq_some hd') hd]
  simpa using (Bool.and_eq_true_iff.mp hp).2

/-- A row version is marked as checked. -/
theorem Busy.pass (h : Busy s i ds w) (id : Nat) :
    Busy s i (ds.map fun d => if d.row.id = id then { d with passed := true } else d)
      (w.apply i (.pass id)) where
  phase := h.phase
  rows := h.rows
  drafts := by
    show w.store.drafts.map _ = _
    rw [h.drafts]
    rfl
  owners := by
    intro d hd
    obtain ⟨d₀, hd₀, rfl⟩ := List.mem_map.mp hd
    split
    · exact h.owners d₀ hd₀
    · exact h.owners d₀ hd₀
  clock := h.clock
  nextId := h.nextId
  locks := h.locks

end Rest

/-! ## Check, commit and reload -/

/-- The stages a request goes through after its check. -/
def saves : Stage → Bool
  | .committing _ | .saved _ | .reloading _ _ | .reloaded _ => true
  | _ => false

section Save

variable {env : Env} {s : Site} {i : Nat} {w : World} {req : Request}

/-- At the revision of the deployment the service meets its schema, and the same tables. -/
theorem at_schema (env : Env) (s : Site) : (env.at s.revision).schema = s.schema := rfl

theorem at_table (env : Env) (s : Site) (id : Nat) :
    (env.at s.revision).table id = env.table id := rfl

theorem act_saves (hreq : req.onReservation = true) {st : Stage} (hst : saves st = true) :
    act env w i ⟨req, st⟩ = actSave env w req st := by
  cases req with
  | post user body => cases st <;> first | rfl | exact absurd hst (by simp [saves])
  | onOne user id op => cases st <;> first | rfl | exact absurd hst (by simp [saves])
  | _ => exact absurd hreq (by simp [Request.onReservation])

/-- From the commit to the answer. -/
theorem reload_alone (env : Env) (hreq : req.onReservation = true) (hw : AtRest s w)
    (hnd : (s.rows.map Reservation.id).Nodup) (id : Nat) :
    Solo (env.at s.revision) i req w (.saved id) w (.done (s.reload req.okStatus id)) := by
  have hlookup : Store.lookup reservations w.store.rows id = Store.lookup reservations s.rows id :=
    (Store.lookup_perm hw.rows.symm hnd id).symm
  have hsel : ∀ cs, selectReservations cs w.store.rows id = selectReservations cs s.rows id := by
    intro cs
    unfold selectReservations
    rw [hlookup]
  have herror : ∀ cs, reloadError s.schema cs w.store.rows id = reloadError s.schema cs s.rows id := by
    intro cs
    unfold reloadError loadError
    rw [hlookup]
  have hsaved : act (env.at s.revision) w i ⟨req, .saved id⟩
      = some (.none, .reloading id (readColumns s.phase)) := by
    rw [act_saves hreq rfl, ← hw.phase]
    rfl
  refine .step hsaved ?_
  unfold Site.reload
  cases hcol : reloadError s.schema (readColumns s.phase) s.rows id with
  | some e =>
    refine .step (e := .none) ?_ .refl
    rw [act_saves hreq rfl]
    unfold actSave
    dsimp only [at_schema]
    rw [show (w.apply i .none).store.rows = w.store.rows from rfl, herror, hcol]
  | none =>
    have hload : act (env.at s.revision) w i ⟨req, .reloading id (readColumns s.phase)⟩
        = some (.none, .reloaded (selectReservations (readColumns s.phase) s.rows id)) := by
      rw [act_saves hreq rfl, ← hsel]
      unfold actSave
      dsimp only [at_schema]
      rw [herror, hcol]
    refine .step hload ?_
    cases selectReservations (readColumns s.phase) s.rows id with
    | none =>
      refine .step (e := .none) ?_ .refl
      rw [act_saves hreq rfl]
      rfl
    | some l =>
      refine .step (e := .none) ?_ .refl
      rw [act_saves hreq rfl, ← hw.phase]
      rfl

/-- A check with nothing beside it looks at the committed rows only. -/
theorem Busy.violated {d : Draft Reservation} (h : Busy s i [d] w) :
    w.store.violated reservations d = s.clashes d.row := by
  have hd : d.owner = i := h.owners d (List.mem_singleton.mpr rfl)
  unfold Store.violated Site.clashes
  rw [hd, h.seen, ← h.rows.any_eq, List.any_append, List.any_filter]
  simp only [List.map_cons, List.map_nil, List.any_cons, List.any_nil, reservations_key,
    reservations_clash, bne_self_eq_false, Bool.false_and, Bool.or_false]
  congr 1
  funext r
  rw [Bool.beq_comm]
  cases hid : r.id == d.row.id <;> simp [bne, hid]

theorem act_checking {id : Nat} {todo : List (Nat × Text × Text)}
    (hreq : req.onReservation = true ∨ ∃ lastId size, req = .batch lastId size) :
    act env w i ⟨req, .checking id todo⟩
      = check w i id (dbAnswer req .exclusionViolation) (req.afterCheck id todo) := by
  cases req with
  | post user body => rfl
  | onOne user id op => rfl
  | batch lastId size => rfl
  | _ =>
    rcases hreq with hreq | ⟨lastId, size, hreq⟩
    · exact absurd hreq (by simp [Request.onReservation])
    · exact absurd hreq (by simp)

theorem check_alone (env : Env) (hreq : req.onReservation = true) {d : Draft Reservation}
    (h : Busy s i [d] w) :
    act env w i ⟨req, .checking d.row.id []⟩
      = if s.clashes d.row then some (.abort, .done (dbAnswer req .exclusionViolation))
        else some (.pass d.row.id, .committing d.row.id) := by
  have hmem : d ∈ [d] := List.mem_singleton.mpr rfl
  rw [act_checking (Or.inl hreq)]
  unfold check Request.afterCheck
  rw [h.draft hmem (List.nodup_singleton _), if_pos hreq]
  dsimp only
  rw [h.not_blocked hmem, h.violated, if_neg (by decide)]

/-- A clash is answered. -/
theorem clash_alone (hreq : req.onReservation = true) {d : Draft Reservation} (h : Busy s i [d] w)
    (hc : s.clashes d.row = true) :
    ∃ w', Solo env i req w (.checking d.row.id []) w' (.done (dbAnswer req .exclusionViolation)) ∧
      AtRest s w' := by
  have hcheck := check_alone env hreq h
  rw [if_pos hc] at hcheck
  exact ⟨_, .step hcheck .refl, h.abort⟩

/-- Without a clash the row is committed. -/
theorem pass_alone (hreq : req.onReservation = true) {d : Draft Reservation} (h : Busy s i [d] w)
    (hc : ¬ s.clashes d.row = true) {rows : List Reservation}
    (hrows : (w.store.rows.filter (fun r => r.id != d.row.id) ++ [d.row]).Perm rows) :
    ∃ w', Solo env i req w (.checking d.row.id []) w' (.saved d.row.id) ∧
      AtRest { s with rows := rows } w' := by
  have hcheck := check_alone env hreq h
  rw [if_neg hc] at hcheck
  have h' := h.pass d.row.id
  refine ⟨_, .step hcheck (.step (e := .commit) (act_saves hreq rfl) .refl), h'.commit ?_⟩
  rw [h'.seen]
  refine (List.Perm.of_eq ?_).trans hrows
  simp [bne, World.apply, Store.pass, Bool.beq_comm]

end Save

/-! ## Whole requests -/

section Requests

variable {env : Env} {s : Site} {w : World}

/-- The id of a new row is not taken. -/
theorem Busy.fresh {i : Nat} {ds : List (Draft Reservation)} (hw : Busy s i ds w)
    (h : ∀ r ∈ s.rows, r.id < s.nextId) :
    w.store.rows.filter (fun r => r.id != s.nextId) = w.store.rows := by
  refine List.filter_eq_self.mpr fun r hr => bne_iff_ne.mpr ?_
  exact Nat.ne_of_lt (h r (hw.rows.mem_iff.mp hr))

/-- The table's row and its lock, which nobody else holds. -/
theorem lock_alone (env : Env) (hw : AtRest s w) (i : Nat) (user : User) {body : ReservationCreate}
    (hbig : fitsBigint body.restaurantTableId = true) :
    ∃ w', Solo (env.at s.revision) i (.post user body) w .arrived w'
        (.booking (env.table body.restaurantTableId)) ∧ Busy s i [] w' := by
  cases ht : env.table body.restaurantTableId with
  | none =>
    have hact : act (env.at s.revision) w i ⟨.post user body, .arrived⟩
        = some (.none, .booking none) := by
      simp only [act, actPost, hbig, at_table, ht, Bool.true_eq_false, if_false]
    exact ⟨w, .step hact .refl, hw.busy i⟩
  | some t =>
    have hact : act (env.at s.revision) w i ⟨.post user body, .arrived⟩
        = some (.lock [.table t.id], .booking (some t)) := by
      simp only [act, actPost, hbig, at_table, ht, (hw.busy i).free, Bool.true_eq_false,
        Bool.false_eq_true, if_false]
    exact ⟨_, .step hact .refl, (hw.busy i).lock _⟩

/-- The INSERT, its check, the commit and the answer. -/
theorem insert_alone (h : Inv s) {i : Nat} (hw : Busy s i [] w) (user : User)
    {body : ReservationCreate} {r : Reservation}
    (hok : insertError s.schema (newReservation s.phase user body) = none)
    (hr : r = inserted env (newReservation s.phase user body) s.nextId s.clock) :
    ∃ w', Solo (env.at s.revision) i (.post user body) w
        (.inserting (newReservation s.phase user body)) w'
        (.done (if s.clashes r then dbAnswer (.post user body) .exclusionViolation
          else (s.booked r body.guestName).reload 201 r.id)) ∧
      AtRest (if s.clashes r then { s with nextId := s.nextId + 1, clock := s.clock + 1 }
        else s.booked r body.guestName) w' := by
  have hid : r.id = s.nextId := by rw [hr]; rfl
  have hpost : (Request.post user body).onReservation = true := rfl
  have hact : act (env.at s.revision) w i
      ⟨.post user body, .inserting (newReservation s.phase user body)⟩
      = some (.write none r, .checking r.id []) := by
    simp only [act, actPost, at_schema, hok]
    rw [hid, hr, ← hw.nextId, ← hw.clock]
    rfl
  have hw' := hw.write none r
  have hrows : ((w.apply i (.write none r)).store.rows.filter (fun x => x.id != r.id)
      ++ [r]).Perm (s.rows ++ [r]) := by
    rw [hid]
    show (w.store.rows.filter _ ++ [r]).Perm _
    rw [hw.fresh h.bound]
    exact hw.rows.append_right _
  split
  · next hc =>
    obtain ⟨w', hsolo, hrest⟩ := clash_alone hpost hw' hc
    exact ⟨w', .step hact hsolo, hrest⟩
  · next hc =>
    obtain ⟨w', hsolo, hrest⟩ := pass_alone hpost hw' hc hrows
    have hrest' : AtRest (s.booked r body.guestName) w' :=
      ⟨hrest.phase, hrest.rows, hrest.drafts, hrest.clock, hrest.nextId, hrest.locks⟩
    refine ⟨w', .step hact ?_, hrest'⟩
    exact hsolo.trans (reload_alone env hpost hrest' (nodup_booked h hid _) _)

/-- **`POST /reservations`**, with nothing beside it. -/
theorem create_alone (h : Inv s) (hw : AtRest s w) (env : Env) (i : Nat) (user : User)
    (body : ReservationCreate) :
    ∃ w', Solo (env.at s.revision) i (.post user body) w .arrived w'
        (.done (s.create env user body).2) ∧ AtRest (s.create env user body).1 w' := by
  unfold Site.create Site.bookingRow
  cases hbig : fitsBigint body.restaurantTableId with
  | false =>
    refine ⟨_, .step (e := .none) ?_ .refl, hw⟩
    simp only [act, actPost, hbig, if_true]
  | true =>
    rw [if_neg (by decide)]
    obtain ⟨w₁, hlock, hw₁⟩ := lock_alone env hw i user hbig
    cases hchecks : bookingChecks (env.table body.restaurantTableId) body with
    | error e =>
      refine ⟨_, hlock.trans (.step (e := .abort) ?_ .refl), hw₁.abort⟩
      simp only [act, actPost, hchecks]
    | ok t =>
      have hprepare : act (env.at s.revision) w₁ i
          ⟨.post user body, .booking (env.table body.restaurantTableId)⟩
          = some (.none, .inserting (newReservation s.phase user body)) := by
        simp only [act, actPost, hchecks, hw₁.phase]
      cases hok : insertError s.schema (newReservation s.phase user body) with
      | some e =>
        refine ⟨_, hlock.trans (.step hprepare (.step (e := .abort) ?_ .refl)), hw₁.abort⟩
        simp only [act, actPost, at_schema, hok]
      | none =>
        obtain ⟨w', hsolo, hrest⟩ := insert_alone h hw₁ user hok rfl
        dsimp only
        split
        · next hc =>
          rw [if_pos hc] at hsolo hrest
          exact ⟨w', hlock.trans (.step hprepare hsolo), hrest⟩
        · next hc =>
          rw [if_neg hc] at hsolo hrest
          exact ⟨w', hlock.trans (.step hprepare hsolo), hrest⟩

/-- The SELECT of a row finds the deployment's row. -/
theorem AtRest.select (h : Inv s) (hw : AtRest s w) (cs : List Column) (id : Nat) :
    selectReservations cs w.store.rows id = selectReservations cs s.rows id := by
  unfold selectReservations
  rw [Store.lookup_perm hw.rows.symm h.ids]

theorem AtRest.selectError_eq (h : Inv s) (hw : AtRest s w) (cs : List Column) (id : Nat) :
    selectError s.schema cs w.store.rows id = selectError s.schema cs s.rows id := by
  unfold selectError reloadError loadError
  rw [Store.lookup_perm hw.rows.symm h.ids]

/-- What a request on one reservation finds out before it writes. -/
theorem load_alone (h : Inv s) (hw : AtRest s w) (env : Env) (i : Nat) (user : User) (id : Nat)
    (op : Op) :
    Solo (env.at s.revision) i (.onOne user id op) w .arrived w
      (match s.editRow user id op with
        | .error a => .done a
        | .ok (l, ch) =>
          if ch.isEmpty then .saved l.row.id
          else if ch.sendable = false then .done (.failed (.database .dataError))
          else .updating l ch) := by
  have hselect : act (env.at s.revision) w i ⟨.onOne user id op, .arrived⟩
      = some (.none, .selecting (readColumns s.phase)) := by
    rw [← hw.phase]
    rfl
  refine .step hselect ?_
  unfold Site.editRow
  cases hcol : selectError s.schema (readColumns s.phase) s.rows id with
  | some e =>
    refine .step (e := .none) ?_ .refl
    simp only [act, actOne, at_schema, show (w.apply i .none).store.rows = w.store.rows from rfl,
      hw.selectError_eq h, hcol]
  | none =>
    have hload : act (env.at s.revision) w i ⟨.onOne user id op, .selecting (readColumns s.phase)⟩
        = some (.none, .loaded (selectReservations (readColumns s.phase) s.rows id)) := by
      rw [← hw.select h]
      simp only [act, actOne, at_schema, hw.selectError_eq h, hcol]
    refine .step hload (.step (e := .none) ?_ .refl)
    unfold act actOne
    dsimp only
    cases loadOwned user (selectReservations (readColumns s.phase) s.rows id) with
    | error e => rfl
    | ok l =>
      dsimp only
      rw [show ((w.apply i .none).apply i .none).phase = s.phase from hw.phase]
      cases op.edit s.phase with
      | none => rfl
      | some ed =>
        dsimp only
        cases checkIfMatch l.row.version ed.ifMatch ed.required with
        | some e => rfl
        | none =>
          dsimp only
          split
          · rfl
          · split <;> rfl

/-- The UPDATE finds its row as it was loaded. -/
theorem update_alone (h : Inv s) (hw : AtRest s w) (env : Env) (i : Nat) (user : User) (id : Nat)
    (op : Op) {l : Loaded} (hl : l.row ∈ s.rows) (ch : Changes) :
    act (env.at s.revision) w i ⟨.onOne user id op, .updating l ch⟩
      = (updateError s.schema ch (ch.apply l.row s.clock)).elim
          (some (.write (some l.row) (ch.apply l.row s.clock),
            .checking (ch.apply l.row s.clock).id []))
          fun e => some (.abort, .done (.failed (.database e))) := by
  have hlookup : Store.lookup reservations w.store.rows l.row.id = some l.row :=
    (Store.lookup_perm (R := reservations) hw.rows.symm h.ids l.row.id).symm.trans
      (Store.lookup_mem (R := reservations) h.ids hl)
  simp only [act, actOne, (hw.busy i).rowFree, hlookup, apply_id, at_schema, hw.clock, ne_eq,
    not_true_eq_false, Bool.false_eq_true, if_false]
  cases updateError s.schema ch (ch.apply l.row s.clock) <;> rfl

/-- **GET, PATCH and DELETE of `/reservations/{id}`**, with nothing beside them. -/
theorem edit_alone (h : Inv s) (hw : AtRest s w) (env : Env) (i : Nat) (user : User) (id : Nat)
    (op : Op) :
    ∃ w', Solo (env.at s.revision) i (.onOne user id op) w .arrived w'
        (.done (s.edit user id op).2) ∧ AtRest (s.edit user id op).1 w' := by
  have hone : (Request.onOne user id op).onReservation = true := rfl
  have hload := load_alone h hw env i user id op
  unfold Site.edit
  cases hrow : s.editRow user id op with
  | error a =>
    rw [hrow] at hload
    exact ⟨w, hload, hw⟩
  | ok x =>
    obtain ⟨l, ch⟩ := x
    rw [hrow] at hload
    have hl : l.row ∈ s.rows := by
      obtain ⟨r, hr, ed, -, rfl, -, -⟩ := editRow_ok hrow
      exact hr
    dsimp only at hload ⊢
    split
    · next he =>
      rw [if_pos he] at hload
      have hrest : AtRest (s.named l.row.id op.guestName) w :=
        ⟨hw.phase, hw.rows, hw.drafts, hw.clock, hw.nextId, hw.locks⟩
      exact ⟨w, hload.trans (reload_alone env hone hw h.ids _), hrest⟩
    · next he =>
      rw [if_neg he] at hload
      unfold flushError
      cases hsend : ch.sendable with
      | false =>
        rw [hsend, if_pos rfl] at hload
        exact ⟨w, hload, hw⟩
      | true =>
        rw [hsend, if_neg (by decide)] at hload
        rw [if_neg (by decide)]
        have hupdate := update_alone h hw env i user id op hl ch
        cases hupd : updateError s.schema ch (ch.apply l.row s.clock) with
        | some e =>
          rw [hupd] at hupdate
          exact ⟨_, hload.trans (.step hupdate .refl), (hw.busy i).abort⟩
        | none =>
          rw [hupd] at hupdate
          have hw' := (hw.busy i).write (some l.row) (ch.apply l.row s.clock)
          dsimp only
          split
          · next hc =>
            obtain ⟨w', hsolo, hrest⟩ := clash_alone hone hw' hc
            exact ⟨w', hload.trans (.step hupdate hsolo), hrest⟩
          · next hc =>
            obtain ⟨w', hsolo, hrest⟩ := pass_alone hone hw' hc ((hw.rows.filter _).append_right _)
            have hrest' :
                AtRest ((s.replaced (ch.apply l.row s.clock)).named l.row.id op.guestName) w' :=
              ⟨hrest.phase, hrest.rows, hrest.drafts, hrest.clock, hrest.nextId, hrest.locks⟩
            have hreload := reload_alone (i := i) env hone hrest' (nodup_replaced h _)
              (ch.apply l.row s.clock).id
            have hanswer := hsolo.trans hreload
            dsimp only at hanswer hupdate
            rw [apply_id] at hanswer hupdate
            exact ⟨w', hload.trans (.step hupdate hanswer), hrest'⟩

/-- **`PUT /admin/migration`**, with nothing beside it. -/
theorem put_alone (hw : AtRest s w) (env : Env) (i : Nat) (target : Phase) :
    ∃ w', Solo (env.at s.revision) i (.put target) w .arrived w' (.done (s.put env target).2) ∧
      AtRest (s.put env target).1 w' := by
  have hawaiting : countAwaiting s.schema w.store.rows = countAwaiting s.schema s.rows := by
    unfold countAwaiting
    rw [hw.rows.countP_eq]
  have hmissing : countMissing s.schema w.store.rows = countMissing s.schema s.rows := by
    unfold countMissing
    rw [hw.rows.countP_eq]
  have hmismatched : countMismatched env.sql s.schema w.store.rows
      = countMismatched env.sql s.schema s.rows := by
    unfold countMismatched
    rw [hw.rows.countP_eq]
  have hguard : act (env.at s.revision) w i ⟨.put target, .countedMissing
      (countAwaiting s.schema w.store.rows) (countMissing s.schema w.store.rows)⟩
      = (refusal target (s.state env)).elim (some (.none, .accepted)) fun reason =>
          some (.none, .done (.refused ⟨409, s!"Cannot enter {target.value}: {reason}"⟩)) := by
    have hstate : stateOf (env.at s.revision).schema (countAwaiting s.schema w.store.rows)
        (countMissing s.schema w.store.rows)
        (countMismatched (env.at s.revision).sql (env.at s.revision).schema w.store.rows)
        = s.state env := by
      rw [hawaiting, hmissing]
      exact congrArg _ hmismatched
    simp only [act, actPut, hstate]
    cases refusal target (s.state env) <;> rfl
  have hcount : ∀ st', Solo (env.at s.revision) i (.put target) w (.countedMissing
      (countAwaiting s.schema w.store.rows) (countMissing s.schema w.store.rows)) w st' →
      Solo (env.at s.revision) i (.put target) w .arrived w st' :=
    fun st' h => .step (e := .none) rfl (.step (e := .none) rfl h)
  unfold Site.put
  cases href : refusal target (s.state env) with
  | some reason =>
    rw [href] at hguard
    exact ⟨w, hcount _ (.step hguard .refl), hw⟩
  | none =>
    rw [href] at hguard
    have hrest : AtRest { s with phase := target } (w.apply i (.setPhase target)) :=
      ⟨rfl, hw.rows, hw.drafts, hw.clock, hw.nextId, hw.locks⟩
    exact ⟨_, (hcount _ (.step hguard .refl)).trans (.step rfl .refl), hrest⟩

end Requests

/-! ## Every request, and runs of requests -/

/-- The request an event is. -/
def Event.request : Event → Option Request
  | .create user body => some (.post user body)
  | .edit user id op => some (.onOne user id op)
  | .put target => some (.put target)
  | .backfill _ _ | .upgrade _ | .restart _ => none

section Served

variable {env : Env} {s s' : Site} {w : World}

theorem create_revision (s : Site) (env : Env) (user : User) (body : ReservationCreate) :
    (s.create env user body).1.revision = s.revision := by
  unfold Site.create
  split
  · rfl
  · split <;> rfl

theorem edit_revision (s : Site) (user : User) (id : Nat) (op : Op) :
    (s.edit user id op).1.revision = s.revision := by
  unfold Site.edit
  split
  · rfl
  · split
    · rfl
    · split
      · rfl
      · split <;> rfl

theorem put_revision (s : Site) (env : Env) (target : Phase) :
    (s.put env target).1.revision = s.revision := by
  unfold Site.put
  split <;> rfl

theorem AtRest.with_tasks (h : AtRest s w) (ts : List Task) : AtRest s { w with tasks := ts } :=
  ⟨h.phase, h.rows, h.drafts, h.clock, h.nextId, h.locks⟩

/-- **What a request does in the deployment, it does in the service**: it arrives, nothing else
    moves, and both are at rest again with the same rows. -/
theorem request_served (h : Inv s) (hw : AtRest s w) {ev : Event} {req : Request}
    (hreq : ev.request = some req) (hst : (deployment env).step s ev = some s') :
    ∃ n w', (service (env.at s.revision)).run w (whole w.tasks.length n req) = some w' ∧
      AtRest s' w' ∧ s'.revision = s.revision := by
  cases ev with
  | create user body =>
    obtain rfl := Option.some.inj hreq
    obtain rfl := Option.some.inj hst
    obtain ⟨w', hsolo, hrest⟩ := create_alone h hw env w.tasks.length user body
    obtain ⟨n, hn⟩ := hsolo.served
    exact ⟨n, _, hn, hrest.with_tasks _, create_revision ..⟩
  | edit user id op =>
    obtain rfl := Option.some.inj hreq
    obtain rfl := Option.some.inj hst
    obtain ⟨w', hsolo, hrest⟩ := edit_alone h hw env w.tasks.length user id op
    obtain ⟨n, hn⟩ := hsolo.served
    exact ⟨n, _, hn, hrest.with_tasks _, edit_revision ..⟩
  | put target =>
    obtain rfl := Option.some.inj hreq
    obtain rfl := Option.some.inj hst
    obtain ⟨w', hsolo, hrest⟩ := put_alone hw env w.tasks.length target
    obtain ⟨n, hn⟩ := hsolo.served
    exact ⟨n, _, hn, hrest.with_tasks _, put_revision ..⟩
  | _ => exact absurd hreq (by simp [Event.request])

/-- **Runs of requests**: whatever the deployment comes to by requests, the service comes to. -/
theorem run_served : ∀ {evs : List Event} {s : Site} {w : World}, Inv s → AtRest s w →
    (∀ ev ∈ evs, ev.request.isSome) → (deployment env).run s evs = some s' →
    ∃ ls w', (service (env.at s.revision)).run w ls = some w' ∧ AtRest s' w' := by
  intro evs
  induction evs with
  | nil =>
    intro s w _ hw _ hrun
    obtain rfl := Option.some.inj hrun
    exact ⟨[], w, rfl, hw⟩
  | cons ev evs ih =>
    intro s w h hw hevs hrun
    obtain ⟨s₁, hst, hrun⟩ := Option.bind_eq_some_iff.mp hrun
    obtain ⟨req, hreq⟩ := Option.isSome_iff_exists.mp (hevs ev (List.mem_cons_self ..))
    obtain ⟨n, w₁, hn, hw₁, hrev⟩ := request_served h hw hreq hst
    obtain ⟨ls, w', hls, hw'⟩ :=
      ih (h.step hst) hw₁ (fun ev' hev' => hevs ev' (List.mem_cons_of_mem _ hev')) hrun
    rw [hrev] at hls
    refine ⟨whole w.tasks.length n req ++ ls, w', ?_, hw'⟩
    rw [(service _).run_append, hn]
    exact hls

end Served

end Deployment

end TableFlow
