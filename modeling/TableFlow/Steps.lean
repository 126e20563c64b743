/-
  What one step can do.

  `Act` lists every stretch of every kind of request with its guard: the stage it starts in, its
  effect and the stage it leads to.  `act_cases` is the inversion of `act`, proved once by
  following its branches; every invariant of the service is then a case analysis over `Act` and
  never unfolds `act` again.

  `Step` does the same for the labels of the machine (`step_cases`).
-/
import TableFlow.World

namespace TableFlow

open Lib

/-! ## The stretches of a task -/

/-- POST, PATCH and DELETE: the requests that end in `session.commit()` and `reload`. -/
def Request.onReservation : Request → Bool
  | .post _ _ | .onOne _ _ _ => true
  | _ => false

/-- Where a request goes on after its check: one row is committed, a batch fills the next one. -/
def Request.afterCheck (req : Request) (id : Nat) (todo : List (Nat × Text × Text)) : Stage :=
  if req.onReservation then .committing id else .filling todo

/-- Every stretch of task `i` in the world `w`. -/
inductive Act (env : Env) (w : World) (i : Nat) : Request → Stage → Effect → Stage → Prop
  -- POST
  | badTableId {user body} : fitsBigint body.restaurantTableId = false →
      Act env w i (.post user body) .arrived .none (.done (.failed (.database .dataError)))
  | noTable {user body} : fitsBigint body.restaurantTableId = true →
      env.table body.restaurantTableId = none →
      Act env w i (.post user body) .arrived .none (.booking none)
  | lockTable {user body t} : fitsBigint body.restaurantTableId = true →
      env.table body.restaurantTableId = some t → w.lockedByOther i (.table t.id) = false →
      Act env w i (.post user body) .arrived (.lock [.table t.id]) (.booking (some t))
  | refuseBooking {user body table e} : bookingChecks table body = .error e →
      Act env w i (.post user body) (.booking table) .abort (.done (.refused e))
  | prepare {user body table t} : bookingChecks table body = .ok t →
      Act env w i (.post user body) (.booking table) .none
        (.inserting (newReservation w.phase user body))
  | insertFails {user body r e} : insertError env.schema r = some e →
      Act env w i (.post user body) (.inserting r) .abort (.done (dbAnswer (.post user body) e))
  | insert {user body r} : insertError env.schema r = none →
      Act env w i (.post user body) (.inserting r)
        (.write none (inserted env r w.nextId w.store.clock)) (.checking w.nextId [])
  -- GET one, PATCH, DELETE
  | select {user id op} :
      Act env w i (.onOne user id op) .arrived .none (.selecting (readColumns w.phase))
  | selectFails {user id op cs e} : selectError env.schema cs w.store.rows id = some e →
      Act env w i (.onOne user id op) (.selecting cs) .none (.done (.failed (.database e)))
  | selectRow {user id op cs} : selectError env.schema cs w.store.rows id = none →
      Act env w i (.onOne user id op) (.selecting cs) .none
        (.loaded (selectReservations cs w.store.rows id))
  | refuseLoad {user id op row e} : loadOwned user row = .error e →
      Act env w i (.onOne user id op) (.loaded row) .none (.done (.refused e))
  | respondGet {user id op row l} : loadOwned user row = .ok l → op.edit w.phase = none →
      Act env w i (.onOne user id op) (.loaded row) .none (.done (respond w.phase 200 l))
  | refuseVersion {user id op row l ed e} : loadOwned user row = .ok l →
      op.edit w.phase = some ed → checkIfMatch l.row.version ed.ifMatch ed.required = some e →
      Act env w i (.onOne user id op) (.loaded row) .none (.done (.refused e))
  | noChange {user id op row l ed} : loadOwned user row = .ok l →
      op.edit w.phase = some ed → checkIfMatch l.row.version ed.ifMatch ed.required = none →
      (ed.changes.net l).isEmpty = true →
      Act env w i (.onOne user id op) (.loaded row) .none (.saved l.row.id)
  | unsendable {user id op row l ed} : loadOwned user row = .ok l →
      op.edit w.phase = some ed → checkIfMatch l.row.version ed.ifMatch ed.required = none →
      (ed.changes.net l).isEmpty = false → (ed.changes.net l).sendable = false →
      Act env w i (.onOne user id op) (.loaded row) .none
        (.done (.failed (.database .dataError)))
  | change {user id op row l ed} : loadOwned user row = .ok l →
      op.edit w.phase = some ed → checkIfMatch l.row.version ed.ifMatch ed.required = none →
      (ed.changes.net l).isEmpty = false → (ed.changes.net l).sendable = true →
      Act env w i (.onOne user id op) (.loaded row) .none (.updating l (ed.changes.net l))
  | staleRow {user id op l ch} : w.rowBusy i l.row.id = false →
      (∀ r, Store.lookup reservations w.store.rows l.row.id = some r →
        r.version ≠ l.row.version) →
      Act env w i (.onOne user id op) (.updating l ch) .abort (.done (.refused stale))
  | updateFails {user id op l ch r e} : w.rowBusy i l.row.id = false →
      Store.lookup reservations w.store.rows l.row.id = some r → r.version = l.row.version →
      updateError env.schema ch (ch.apply r w.store.clock) = some e →
      Act env w i (.onOne user id op) (.updating l ch) .abort (.done (.failed (.database e)))
  | update {user id op l ch r} : w.rowBusy i l.row.id = false →
      Store.lookup reservations w.store.rows l.row.id = some r → r.version = l.row.version →
      updateError env.schema ch (ch.apply r w.store.clock) = none →
      Act env w i (.onOne user id op) (.updating l ch) (.write (some r) (ch.apply r w.store.clock))
        (.checking r.id [])
  -- the exclusion constraint
  | violated {req id todo d} : w.draft i id = some d → w.store.blocked reservations d = false →
      w.store.violated reservations d = true →
      Act env w i req (.checking id todo) .abort (.done (dbAnswer req .exclusionViolation))
  | pass {req id todo d} : w.draft i id = some d → w.store.blocked reservations d = false →
      w.store.violated reservations d = false →
      Act env w i req (.checking id todo) (.pass id) (req.afterCheck id todo)
  -- commit and reload
  | commit {req id} : req.onReservation = true → Act env w i req (.committing id) .commit (.saved id)
  | reload {req id} : req.onReservation = true →
      Act env w i req (.saved id) .none (.reloading id (readColumns w.phase))
  | reloadFails {req id cs e} : req.onReservation = true →
      reloadError env.schema cs w.store.rows id = some e →
      Act env w i req (.reloading id cs) .none (.done (.failed (.database e)))
  | reloadRow {req id cs} : req.onReservation = true →
      reloadError env.schema cs w.store.rows id = none →
      Act env w i req (.reloading id cs) .none
        (.reloaded (selectReservations cs w.store.rows id))
  | noRow {req} : req.onReservation = true →
      Act env w i req (.reloaded none) .none (.done (.failed .noRow))
  | respondSaved {req l} : req.onReservation = true →
      Act env w i req (.reloaded (some l)) .none (.done (respond w.phase req.okStatus l))
  -- GET list
  | listSelect {user limit} :
      Act env w i (.list user limit) .arrived .none (.listing (readColumns w.phase))
  | listFails {user limit cs e} :
      listError env.schema cs (selectMyBookings env cs w.store.rows user.id limit) = some e →
      Act env w i (.list user limit) (.listing cs) .none (.done (.failed (.database e)))
  | listRows {user limit cs} :
      listError env.schema cs (selectMyBookings env cs w.store.rows user.id limit) = none →
      Act env w i (.list user limit) (.listing cs) .none
        (.listed (selectMyBookings env cs w.store.rows user.id limit))
  | listRespond {user limit rows} :
      Act env w i (.list user limit) (.listed rows) .none (.done (respondList w.phase rows))
  -- PUT
  | countAwaiting {target} : Act env w i (.put target) .arrived .none
      (.counted (TableFlow.countAwaiting env.schema w.store.rows))
  | countMissing {target a} : Act env w i (.put target) (.counted a) .none
      (.countedMissing a (TableFlow.countMissing env.schema w.store.rows))
  | refusePhase {target a m reason} :
      refusal target (stateOf env.schema a m
        (countMismatched env.sql env.schema w.store.rows)) = some reason →
      Act env w i (.put target) (.countedMissing a m) .none
        (.done (.refused ⟨409, s!"Cannot enter {target.value}: {reason}"⟩))
  | acceptPhase {target a m} :
      refusal target (stateOf env.schema a m
        (countMismatched env.sql env.schema w.store.rows)) = none →
      Act env w i (.put target) (.countedMissing a m) .none .accepted
  | setPhase {target} :
      Act env w i (.put target) .accepted (.setPhase target) (.done (.phase target))
  -- a batch of the backfill
  | batchFails {lastId size e} : undefinedColumn env.schema [.guestName, .firstName] = some e →
      Act env w i (.batch lastId size) .arrived .none (.done (.failed (.database e)))
  | batchSelect {lastId size} : undefinedColumn env.schema [.guestName, .firstName] = none →
      Act env w i (.batch lastId size) .arrived
        (.lock ((batchRows w i lastId size).map fun r => .row r.id))
        (.filling ((batchRows w i lastId size).map fillParams))
  | batchCommit {lastId size} :
      Act env w i (.batch lastId size) (.filling []) .commit (.done .filled)
  | fillSkip {lastId size id names todo} :
      (∀ r, Store.lookup reservations (w.store.seen reservations i) id = some r →
        r.firstName ≠ none) →
      Act env w i (.batch lastId size) (.filling ((id, names) :: todo)) .none (.filling todo)
  | fillRow {lastId size id names todo r} :
      Store.lookup reservations (w.store.seen reservations i) id = some r → r.firstName = none →
      Act env w i (.batch lastId size) (.filling ((id, names) :: todo))
        (.write (some r) (fill r names w.store.clock)) (.checking r.id todo)

section Inversion

variable {env : Env} {w : World} {i : Nat} {e : Effect} {st' : Stage}

theorem pair_inj {e₀ e : Effect} {st₀ st : Stage} (h : some (e₀, st₀) = some (e, st)) :
    e₀ = e ∧ st₀ = st :=
  Prod.mk.inj (Option.some.inj h)

/-- The exclusion check, for any kind of request. -/
theorem check_cases (req : Request) {id : Nat} {todo : List (Nat × Text × Text)}
    (h : check w i id (dbAnswer req .exclusionViolation) (req.afterCheck id todo) = some (e, st')) :
    Act env w i req (.checking id todo) e st' := by
  unfold check at h
  cases hd : w.draft i id with
  | none =>
    rw [hd] at h
    exact absurd h (by simp)
  | some d =>
    rw [hd] at h
    dsimp only at h
    split at h
    · exact absurd h (by simp)
    · next hb =>
      have hb' : w.store.blocked reservations d = false := by simpa using hb
      split at h
      · next hv =>
        obtain ⟨rfl, rfl⟩ := pair_inj h
        exact .violated hd hb' hv
      · next hv =>
        obtain ⟨rfl, rfl⟩ := pair_inj h
        exact .pass hd hb' (by simpa using hv)

theorem actSave_cases {req : Request} {st : Stage} (hreq : req.onReservation = true)
    (h : actSave env w req st = some (e, st')) : Act env w i req st e st' := by
  unfold actSave at h
  split at h
  · obtain ⟨rfl, rfl⟩ := pair_inj h
    exact .commit hreq
  · obtain ⟨rfl, rfl⟩ := pair_inj h
    exact .reload hreq
  · split at h
    · next he =>
      obtain ⟨rfl, rfl⟩ := pair_inj h
      exact .reloadFails hreq he
    · next he =>
      obtain ⟨rfl, rfl⟩ := pair_inj h
      exact .reloadRow hreq he
  · obtain ⟨rfl, rfl⟩ := pair_inj h
    exact .noRow hreq
  · obtain ⟨rfl, rfl⟩ := pair_inj h
    exact .respondSaved hreq
  · exact absurd h (by simp)

theorem actPost_cases {user : User} {body : ReservationCreate} {st : Stage}
    (h : actPost env w i user body st = some (e, st')) :
    Act env w i (.post user body) st e st' := by
  unfold actPost at h
  split at h
  · split at h
    · next hid =>
      obtain ⟨rfl, rfl⟩ := pair_inj h
      exact .badTableId hid
    · next hid =>
      have hid' : fitsBigint body.restaurantTableId = true := by simpa using hid
      split at h
      · next ht =>
        obtain ⟨rfl, rfl⟩ := pair_inj h
        exact .noTable hid' ht
      · next t ht =>
        split at h
        · exact absurd h (by simp)
        · next hl =>
          obtain ⟨rfl, rfl⟩ := pair_inj h
          exact .lockTable hid' ht (by simpa using hl)
  · split at h
    · next he =>
      obtain ⟨rfl, rfl⟩ := pair_inj h
      exact .refuseBooking he
    · next ht =>
      obtain ⟨rfl, rfl⟩ := pair_inj h
      exact .prepare ht
  · split at h
    · next he =>
      obtain ⟨rfl, rfl⟩ := pair_inj h
      exact .insertFails he
    · next he =>
      obtain ⟨rfl, rfl⟩ := pair_inj h
      exact .insert he
  · exact check_cases (.post user body) h
  · exact actSave_cases rfl h

theorem actOne_cases {user : User} {id : Nat} {op : Op} {st : Stage}
    (h : actOne env w i user id op st = some (e, st')) :
    Act env w i (.onOne user id op) st e st' := by
  unfold actOne at h
  split at h
  · obtain ⟨rfl, rfl⟩ := pair_inj h
    exact .select
  · split at h
    · next he =>
      obtain ⟨rfl, rfl⟩ := pair_inj h
      exact .selectFails he
    · next he =>
      obtain ⟨rfl, rfl⟩ := pair_inj h
      exact .selectRow he
  · split at h
    · next he =>
      obtain ⟨rfl, rfl⟩ := pair_inj h
      exact .refuseLoad he
    · next l hl =>
      split at h
      · next hop =>
        obtain ⟨rfl, rfl⟩ := pair_inj h
        exact .respondGet hl hop
      · next ed hop =>
        split at h
        · next he =>
          obtain ⟨rfl, rfl⟩ := pair_inj h
          exact .refuseVersion hl hop he
        · next he =>
          split at h
          · next hn =>
            obtain ⟨rfl, rfl⟩ := pair_inj h
            exact .noChange hl hop he hn
          · next hn =>
            have hn' := Bool.eq_false_iff.mpr hn
            split at h
            · next hsend =>
              obtain ⟨rfl, rfl⟩ := pair_inj h
              exact .unsendable hl hop he hn' hsend
            · next hsend =>
              obtain ⟨rfl, rfl⟩ := pair_inj h
              exact .change hl hop he hn' (by simpa using hsend)
  · split at h
    · exact absurd h (by simp)
    · next hb =>
      have hb' := Bool.eq_false_iff.mpr hb
      split at h
      · next hr =>
        obtain ⟨rfl, rfl⟩ := pair_inj h
        exact .staleRow hb' fun r hr' => absurd (hr.symm.trans hr') (by simp)
      · next r hr =>
        split at h
        · next hv =>
          obtain ⟨rfl, rfl⟩ := pair_inj h
          refine .staleRow hb' fun r' hr' => ?_
          obtain rfl := Option.some.inj (hr.symm.trans hr')
          exact hv
        · next hv =>
          have hv' := not_not.mp hv
          split at h
          · next he =>
            obtain ⟨rfl, rfl⟩ := pair_inj h
            exact .updateFails hb' hr hv' he
          · next he =>
            obtain ⟨rfl, rfl⟩ := pair_inj h
            exact .update hb' hr hv' he
  · exact check_cases (.onOne user id op) h
  · exact actSave_cases rfl h

theorem actList_cases {user : User} {limit : Nat} {st : Stage}
    (h : actList env w user limit st = some (e, st')) :
    Act env w i (.list user limit) st e st' := by
  unfold actList at h
  split at h
  · obtain ⟨rfl, rfl⟩ := pair_inj h
    exact .listSelect
  · dsimp only at h
    split at h
    · next he =>
      obtain ⟨rfl, rfl⟩ := pair_inj h
      exact .listFails he
    · next he =>
      obtain ⟨rfl, rfl⟩ := pair_inj h
      exact .listRows he
  · obtain ⟨rfl, rfl⟩ := pair_inj h
    exact .listRespond
  · exact absurd h (by simp)

theorem actPut_cases {target : Phase} {st : Stage}
    (h : actPut env w target st = some (e, st')) : Act env w i (.put target) st e st' := by
  unfold actPut at h
  split at h
  · obtain ⟨rfl, rfl⟩ := pair_inj h
    exact .countAwaiting
  · obtain ⟨rfl, rfl⟩ := pair_inj h
    exact .countMissing
  · split at h
    · next hr =>
      obtain ⟨rfl, rfl⟩ := pair_inj h
      exact .refusePhase hr
    · next hr =>
      obtain ⟨rfl, rfl⟩ := pair_inj h
      exact .acceptPhase hr
  · obtain ⟨rfl, rfl⟩ := pair_inj h
    exact .setPhase
  · exact absurd h (by simp)

theorem actBatch_cases {lastId size : Nat} {st : Stage}
    (h : actBatch env w i lastId size st = some (e, st')) :
    Act env w i (.batch lastId size) st e st' := by
  unfold actBatch at h
  split at h
  · split at h
    · next he =>
      obtain ⟨rfl, rfl⟩ := pair_inj h
      exact .batchFails he
    · next he =>
      obtain ⟨rfl, rfl⟩ := pair_inj h
      exact .batchSelect he
  · obtain ⟨rfl, rfl⟩ := pair_inj h
    exact .batchCommit
  · split at h
    · next hr =>
      obtain ⟨rfl, rfl⟩ := pair_inj h
      exact .fillSkip fun r hr' => absurd (hr.symm.trans hr') (by simp)
    · next r hr =>
      split at h
      · next hf =>
        obtain ⟨rfl, rfl⟩ := pair_inj h
        exact .fillRow hr (Option.isNone_iff_eq_none.mp hf)
      · next hf =>
        obtain ⟨rfl, rfl⟩ := pair_inj h
        refine .fillSkip fun r' hr' hn => hf ?_
        obtain rfl := Option.some.inj (hr.symm.trans hr')
        rw [hn]
        rfl
  · exact check_cases (.batch lastId size) h
  · exact absurd h (by simp)

/-- **What a stretch of a task can do.** -/
theorem act_cases {t : Task} (h : act env w i t = some (e, st')) :
    Act env w i t.request t.stage e st' := by
  obtain ⟨req, st⟩ := t
  cases req with
  | post user body => exact actPost_cases h
  | onOne user id op => exact actOne_cases h
  | list user limit => exact actList_cases h
  | put target => exact actPut_cases h
  | batch lastId size => exact actBatch_cases h

end Inversion

/-! ## The steps of the machine -/

/-- What a label does. -/
inductive Step (env : Env) (w : World) : Label → World → Prop
  | arrive (req : Request) :
      Step env w (.arrive req) { w with tasks := w.tasks ++ [⟨req, .arrived⟩] }
  | act {i : Nat} {t : Task} {e : Effect} {st : Stage} : w.tasks[i]? = some t →
      Act env w i t.request t.stage e st → TableFlow.act env w i t = some (e, st) →
      Step env w (.step i) (w.advance i t.request e st)
  | victim {i : Nat} {rest : List Nat} {t : Task} : w.tasks[i]? = some t →
      waitCycle env w i (i :: rest) = true →
      Step env w (.victim (i :: rest)) (w.advance i t.request .abort (.done deadlock))

theorem step_cases {env : Env} {w w' : World} {l : Label}
    (h : (service env).step w l = some w') : Step env w l w' := by
  cases l with
  | arrive req =>
    obtain rfl := Option.some.inj h
    exact .arrive req
  | step i =>
    obtain ⟨t, ht, h⟩ := Option.bind_eq_some_iff.mp h
    obtain ⟨⟨e, st⟩, ha, rfl⟩ := Option.map_eq_some_iff.mp h
    exact .act ht (act_cases ha) ha
  | victim cycle =>
    cases cycle with
    | nil => exact absurd h (by simp [service])
    | cons i rest =>
      obtain ⟨t, ht, h⟩ := Option.bind_eq_some_iff.mp h
      split at h
      · next hc =>
        obtain rfl := Option.some.inj h
        exact .victim ht hc
      · exact absurd h (by simp)

end TableFlow
