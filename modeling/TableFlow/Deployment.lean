/-
  A deployment over its lifetime: bookings, edits, backfill runs, schema upgrades, phase changes
  and restarts, each run to completion before the next.

  1. **Requests** — the service is the one of the concurrent machine, put together differently:
     `bookingRow` and `editRow` are what a request finds out before it writes, `create` and `edit`
     are whole requests.  With nothing running beside it a request meets no lock and no other
     transaction, so the exclusion constraint is a look at the committed rows (`clashes`).
  2. **Administration** — `backfill`, `upgrade`, `put` and `restart`.
  3. **The invariant** (`Inv`) — the phase always fits the schema, even after a restart that finds
     no phase allowed: by then the schema is at the last revision, which every phase fits.

  Beside the database the state records the names written, latest first (`names`), so that "the
  name last written for a reservation" can be said.
-/
import TableFlow.Backfill
import TableFlow.Invariant

namespace TableFlow.Deployment

open Lib

/-! ## The state -/

/-- A deployment between two requests. -/
structure Site where
  revision : Revision
  phase : Phase
  rows : List Reservation
  nextId : Nat
  clock : Nat
  /-- The names written, each with its reservation; latest first. -/
  names : List (Nat × Text)
  deriving DecidableEq

namespace Site

/-- No reservation yet, nothing migrated. -/
def start : Site := ⟨.r0001, .legacy, [], 1, 1, []⟩

/-- The name columns at the revision. -/
def schema (s : Site) : Schema := s.revision.schema

/-- The name last written for a reservation. -/
def lastName (s : Site) (id : Nat) : Option Text := (s.names.find? (·.1 == id)).map (·.2)

/-- What the guard sees now. -/
def state (s : Site) (env : Env) : SchemaState := schemaState env.sql s.schema s.rows

/-- A row as a SELECT of this moment loads it. -/
def load (s : Site) (r : Reservation) : Loaded := ⟨r, readColumns s.phase⟩

@[simp] theorem load_row (s : Site) (r : Reservation) : (s.load r).row = r := rfl

/-! ## Requests -/

/-- `reload`, and the answer. -/
def reload (s : Site) (status id : Nat) : Answer :=
  match reloadError s.schema (readColumns s.phase) s.rows id with
  | some e => .failed (.database e)
  | none =>
    match selectReservations (readColumns s.phase) s.rows id with
    | none => .failed .noRow
    | some l => respond s.phase status l

/-- The constraint `no_double_booking` for the new version of a row. -/
def clashes (s : Site) (r : Reservation) : Bool :=
  s.rows.any fun x => x.id != r.id && doubleBooking r x

/-- The row that `create_reservation` sends, or its answer if it sends none. -/
def bookingRow (s : Site) (env : Env) (user : User) (body : ReservationCreate) :
    Except Answer Reservation :=
  if fitsBigint body.restaurantTableId = false then .error (.failed (.database .dataError))
  else
    match bookingChecks (env.table body.restaurantTableId) body with
    | .error e => .error (.refused e)
    | .ok _ =>
      match insertError s.schema (newReservation s.phase user body) with
      | some e => .error (dbAnswer (.post user body) e)
      | none => .ok (inserted env (newReservation s.phase user body) s.nextId s.clock)

/-- The row `r` is inserted, with the name `n`. -/
def booked (s : Site) (r : Reservation) (n : Text) : Site :=
  { s with
    rows := s.rows ++ [r]
    nextId := s.nextId + 1
    clock := s.clock + 1
    names := (r.id, n) :: s.names }

/-- `POST /reservations`. -/
def create (s : Site) (env : Env) (user : User) (body : ReservationCreate) : Site × Answer :=
  match s.bookingRow env user body with
  | .error a => (s, a)
  | .ok r =>
    if s.clashes r then
      -- the sequence does not go back when the INSERT fails
      ({ s with nextId := s.nextId + 1, clock := s.clock + 1 },
        dbAnswer (.post user body) .exclusionViolation)
    else (s.booked r body.guestName, (s.booked r body.guestName).reload 201 r.id)

/-- What a PATCH or a DELETE is about to flush: the row it has loaded and the net changes; or its
    answer if it gets no further. -/
def editRow (s : Site) (user : User) (id : Nat) (op : Op) : Except Answer (Loaded × Changes) :=
  match selectError s.schema (readColumns s.phase) s.rows id with
  | some e => .error (.failed (.database e))
  | none =>
    match loadOwned user (selectReservations (readColumns s.phase) s.rows id) with
    | .error e => .error (.refused e)
    | .ok l =>
      match op.edit s.phase with
      | none => .error (respond s.phase 200 l)
      | some ed =>
        match checkIfMatch l.row.version ed.ifMatch ed.required with
        | some e => .error (.refused e)
        | none => .ok (l, ed.changes.net l)

/-- The name an edit brings is the last one now. -/
def named (s : Site) (id : Nat) (n : Option Text) : Site :=
  { s with names := (n.map fun n => (id, n)).toList ++ s.names }

/-- The row of `r.id` is replaced by `r`. -/
def replaced (s : Site) (r : Reservation) : Site :=
  { s with rows := s.rows.filter (·.id != r.id) ++ [r], clock := s.clock + 1 }

/-- GET, PATCH and DELETE of `/reservations/{id}`. -/
def edit (s : Site) (user : User) (id : Nat) (op : Op) : Site × Answer :=
  match s.editRow user id op with
  | .error a => (s, a)
  | .ok (l, ch) =>
    if ch.isEmpty then (s.named l.row.id op.guestName, s.reload 200 l.row.id)
    else
      match flushError s.schema ch (ch.apply l.row s.clock) with
      | some e => (s, dbAnswer (.onOne user id op) e)
      | none =>
        if s.clashes (ch.apply l.row s.clock) then
          ({ s with clock := s.clock + 1 }, dbAnswer (.onOne user id op) .exclusionViolation)
        else
          let s' := (s.replaced (ch.apply l.row s.clock)).named l.row.id op.guestName
          (s', s'.reload 200 l.row.id)

/-! ## Administration -/

/-- `scripts/backfill_names.py`; it fails at its first statement where a column is missing. -/
def backfill (s : Site) (startAfter batchSize : Nat) : Site :=
  match undefinedColumn s.schema [.guestName, .firstName] with
  | some _ => s
  | none =>
    match runBackfill ⟨s.rows, s.clock⟩ startAfter batchSize with
    | none => s
    | some (t, _) => { s with rows := t.rows, clock := t.clock }

/-- `PUT /admin/migration`. -/
def put (s : Site) (env : Env) (target : Phase) : Site × Answer :=
  match refusal target (s.state env) with
  | some reason => (s, .refused ⟨409, s!"Cannot enter {target.value}: {reason}"⟩)
  | none => ({ s with phase := target }, .phase target)

/-- The process starts again, configured with a phase. -/
def restart (s : Site) (env : Env) (configured : Phase) : Site :=
  { s with phase := reconcile configured (s.state env) }

end Site

/-- A whole request, or a step of the runbook. -/
inductive Event
  | create (user : User) (body : ReservationCreate)
  | edit (user : User) (id : Nat) (op : Op)
  | backfill (startAfter batchSize : Nat)
  | upgrade (target : Revision)
  | put (target : Phase)
  | restart (configured : Phase)

/-- The deployment; of `env` it uses the restaurant and the database's `\s`, not the revision. -/
def deployment (env : Env) : Machine Site Event where
  step s
    | .create user body => some (s.create env user body).1
    | .edit user id op => some (s.edit user id op).1
    | .backfill startAfter batchSize => some (s.backfill startAfter batchSize)
    | .upgrade target => some { s with revision := s.revision.upgrade target }
    | .put target => some (s.put env target).1
    | .restart configured => some (s.restart env configured)

/-! ## What one event can do -/

/-- The edit gets through to its UPDATE and passes the constraints. -/
def Site.Flushes (s : Site) (user : User) (id : Nat) (op : Op) : Prop :=
  ∃ l ch, s.editRow user id op = .ok (l, ch) ∧ ch.isEmpty = false ∧
    flushError s.schema ch (ch.apply l.row s.clock) = none ∧
    s.clashes (ch.apply l.row s.clock) = false

section Cases

variable {env : Env} {s : Site}

/-- **A booking that is sent** has passed the checks and holds its columns' values. -/
theorem bookingRow_ok {user : User} {body : ReservationCreate} {r : Reservation}
    (h : s.bookingRow env user body = .ok r) :
    (∃ t, env.table body.restaurantTableId = some t ∧ t.restaurantId = body.restaurantId ∧
      body.partySize ≤ t.capacity) ∧
    insertError s.schema (newReservation s.phase user body) = none ∧
    r = inserted env (newReservation s.phase user body) s.nextId s.clock := by
  unfold Site.bookingRow at h
  split at h
  · exact absurd h (by simp)
  · split at h
    · exact absurd h (by simp)
    · next t hchecks =>
      split at h
      · exact absurd h (by simp)
      · next hins =>
        obtain ⟨htable, hrest, -, hcap⟩ := bookingChecks_ok hchecks
        exact ⟨⟨t, htable, hrest, hcap⟩, hins, (Except.ok.inj h).symm⟩

/-- **An edit that gets to its flush** is of a row of the table. -/
theorem editRow_ok {user : User} {id : Nat} {op : Op} {l : Loaded} {ch : Changes}
    (h : s.editRow user id op = .ok (l, ch)) :
    ∃ r ∈ s.rows, ∃ ed, r.id = id ∧ l = s.load r ∧ op.edit s.phase = some ed ∧
      ch = ed.changes.net l := by
  unfold Site.editRow at h
  split at h
  · exact absurd h (by simp)
  · split at h
    · exact absurd h (by simp)
    · next l' hl =>
      split at h
      · exact absurd h (by simp)
      · next ed hed =>
        split at h
        · exact absurd h (by simp)
        · obtain ⟨rfl, rfl⟩ := Prod.mk.inj (Except.ok.inj h)
          obtain ⟨r, hr, rfl⟩ := Option.map_eq_some_iff.mp (loadOwned_ok hl)
          obtain ⟨hmem, hid⟩ := Store.lookup_some hr
          exact ⟨r, hmem, ed, hid, rfl, hed, rfl⟩

/-- What an event does. -/
inductive Step (env : Env) (s : Site) : Event → Site → Prop
  /-- Nothing but ids and versions that are never used. -/
  | idle {ev : Event} {nextId clock : Nat} : s.nextId ≤ nextId →
      Step env s ev { s with nextId := nextId, clock := clock }
  | create {user : User} {body : ReservationCreate} {r : Reservation} :
      s.bookingRow env user body = .ok r → s.clashes r = false →
      Step env s (.create user body) (s.booked r body.guestName)
  | keep {user : User} {id : Nat} {op : Op} {l : Loaded} {ch : Changes} :
      s.editRow user id op = .ok (l, ch) → ch.isEmpty = true →
      Step env s (.edit user id op) (s.named l.row.id op.guestName)
  | edit {user : User} {id : Nat} {op : Op} {l : Loaded} {ch : Changes} :
      s.editRow user id op = .ok (l, ch) → ch.isEmpty = false →
      flushError s.schema ch (ch.apply l.row s.clock) = none →
      s.clashes (ch.apply l.row s.clock) = false →
      Step env s (.edit user id op)
        ((s.replaced (ch.apply l.row s.clock)).named l.row.id op.guestName)
  | backfill {startAfter batchSize clock : Nat} {rows : List Reservation} :
      AllFilled s.rows rows →
      Step env s (.backfill startAfter batchSize) { s with rows := rows, clock := clock }
  | upgrade (target : Revision) :
      Step env s (.upgrade target) { s with revision := s.revision.upgrade target }
  | put {target : Phase} : refusal target (s.state env) = none →
      Step env s (.put target) { s with phase := target }
  | restart (configured : Phase) : Step env s (.restart configured) (s.restart env configured)

theorem create_cases (user : User) (body : ReservationCreate) :
    Step env s (.create user body) (s.create env user body).1 := by
  unfold Site.create
  split
  · exact .idle (Nat.le_refl _)
  · next r hr =>
    split
    · exact .idle (Nat.le_succ _)
    · next hc => exact .create hr (by simpa using hc)

theorem edit_cases (user : User) (id : Nat) (op : Op) :
    Step env s (.edit user id op) (s.edit user id op).1 := by
  unfold Site.edit
  split
  · exact .idle (Nat.le_refl _)
  · next l ch hl =>
    split
    · next he => exact .keep hl he
    · next he =>
      split
      · exact .idle (Nat.le_refl _)
      · next hu =>
        split
        · exact .idle (Nat.le_refl _)
        · next hc => exact .edit hl (by simpa using he) hu (by simpa using hc)

theorem backfill_cases (hnd : (s.rows.map Reservation.id).Nodup) (startAfter batchSize : Nat) :
    Step env s (.backfill startAfter batchSize) (s.backfill startAfter batchSize) := by
  unfold Site.backfill
  split
  · exact .idle (Nat.le_refl _)
  · obtain ⟨t, n, hrun, hf⟩ := runBackfill_filled (t := ⟨s.rows, s.clock⟩) hnd startAfter batchSize
    rw [hrun]
    exact .backfill hf

theorem put_cases (target : Phase) : Step env s (.put target) (s.put env target).1 := by
  unfold Site.put
  split
  · exact .idle (Nat.le_refl _)
  · next h => exact .put h

theorem step_cases (hnd : (s.rows.map Reservation.id).Nodup) {ev : Event} {s' : Site}
    (h : (deployment env).step s ev = some s') : Step env s ev s' := by
  cases ev with
  | create user body =>
    obtain rfl := Option.some.inj h
    exact create_cases user body
  | edit user id op =>
    obtain rfl := Option.some.inj h
    exact edit_cases user id op
  | backfill startAfter batchSize =>
    obtain rfl := Option.some.inj h
    exact backfill_cases hnd startAfter batchSize
  | upgrade target =>
    obtain rfl := Option.some.inj h
    exact .upgrade target
  | put target =>
    obtain rfl := Option.some.inj h
    exact put_cases target
  | restart configured =>
    obtain rfl := Option.some.inj h
    exact .restart configured

end Cases

/-! ## The invariant -/

/-- What holds of a deployment in every state. -/
structure Inv (s : Site) : Prop where
  ids : (s.rows.map Reservation.id).Nodup
  bound : ∀ r ∈ s.rows, r.id < s.nextId
  fits : Fits s.schema s.phase
  rowsOk : ∀ r ∈ s.rows, RowOk s.schema r
  named : ∀ r ∈ s.rows, ∃ n, s.lastName r.id = some n

/-- Before the last revision the table cannot hold a row that `legacy` could not read. -/
theorem Inv.guestName {s : Site} (h : Inv s) (hrev : s.revision ≠ .r0003) {r : Reservation}
    (hr : r ∈ s.rows) : r.guestName ≠ none := by
  obtain ⟨i, hi, hn⟩ := guestName_column s.revision
  exact (h.rowsOk r hr).filled .guestName i hi (hn.resolve_right hrev)

theorem allowed_legacy {s : Site} {env : Env} (h : ∀ r ∈ s.rows, r.guestName ≠ none) :
    refusal .legacy (s.state env) = none := by
  refine (refusal_eq_none_iff .legacy).mpr ⟨fun _ => ?_, fun hp => absurd rfl hp, fun _ => h,
    fun hp => absurd hp (by decide), fun hp => absurd hp (by decide),
    fun hp => absurd hp (by decide)⟩
  obtain ⟨i, hi, -⟩ := guestName_column s.revision
  exact Option.isSome_iff_exists.mpr ⟨i, hi⟩

/-- **A restart never leaves the phases that fit the schema.** -/
theorem Inv.fits_restart {s : Site} (h : Inv s) (env : Env) (configured : Phase) :
    Fits s.schema (s.restart env configured).phase := by
  rcases reconcile_cases configured (s.state env) with hok | ⟨hnone, -⟩
  · exact fits_of_refusal hok
  · by_cases hrev : s.revision = .r0003
    · unfold Site.schema
      rw [hrev]
      exact fits_r0003 _
    · exact absurd (allowed_legacy fun r hr => h.guestName hrev hr) (hnone .legacy)

/-! ### Names -/

theorem lastName_cons (s : Site) (id k : Nat) (n : Text) :
    ({ s with names := (id, n) :: s.names } : Site).lastName k
      = if id = k then some n else s.lastName k := by
  unfold Site.lastName
  rw [List.find?_cons]
  by_cases h : id = k
  · simp [h]
  · rw [beq_false_of_ne h, if_neg h]

theorem lastName_booked (s : Site) (r : Reservation) (n : Text) (k : Nat) :
    (s.booked r n).lastName k = if r.id = k then some n else s.lastName k :=
  lastName_cons s r.id k n

theorem lastName_named (s : Site) (id : Nat) (n : Option Text) (k : Nat) :
    (s.named id n).lastName k = if id = k then n.or (s.lastName k) else s.lastName k := by
  cases n with
  | none =>
    rw [Option.none_or, ite_self]
    rfl
  | some n => exact lastName_cons s id k n

theorem lastName_named_isSome {s : Site} {id k : Nat} {n : Option Text}
    (h : ∃ m, s.lastName k = some m) : ∃ m, (s.named id n).lastName k = some m := by
  obtain ⟨m, hm⟩ := h
  rw [lastName_named, hm]
  split
  · cases n with
    | none => exact ⟨m, rfl⟩
    | some n => exact ⟨n, rfl⟩
  · exact ⟨m, rfl⟩

/-! ### Rows -/

theorem mem_booked {s : Site} {r x : Reservation} {n : Text} :
    x ∈ (s.booked r n).rows ↔ x ∈ s.rows ∨ x = r := by
  show x ∈ s.rows ++ [r] ↔ _
  rw [List.mem_append, List.mem_singleton]

theorem mem_replaced {s : Site} {r x : Reservation} :
    x ∈ (s.replaced r).rows ↔ (x ∈ s.rows ∧ x.id ≠ r.id) ∨ x = r := by
  show x ∈ s.rows.filter (·.id != r.id) ++ [r] ↔ _
  rw [List.mem_append, List.mem_singleton, List.mem_filter, bne_iff_ne]

theorem nodup_booked {s : Site} (h : Inv s) {r : Reservation} (hid : r.id = s.nextId) (n : Text) :
    ((s.booked r n).rows.map Reservation.id).Nodup :=
  nodup_map_concat h.ids fun x hx heq => absurd (h.bound x hx) (by omega)

theorem nodup_replaced {s : Site} (h : Inv s) (r : Reservation) :
    ((s.replaced r).rows.map Reservation.id).Nodup := by
  refine nodup_map_concat (h.ids.sublist (List.filter_sublist.map _)) fun x hx => ?_
  exact bne_iff_ne.mp (List.mem_filter.mp hx).2

theorem Filled.rowOk {schema : Schema} {r r' : Reservation} (h : Filled r r')
    (hr : RowOk schema r) : RowOk schema r' := by
  rcases h with rfl | ⟨-, v, rfl⟩
  · exact hr
  · exact fill_ok hr _ v

/-! ### One event -/

variable {env : Env}

/-- **Every event keeps the invariant.** -/
theorem Inv.step {s s' : Site} {ev : Event} (h : Inv s)
    (hst : (deployment env).step s ev = some s') : Inv s' := by
  cases step_cases h.ids hst with
  | idle hle =>
    exact ⟨h.ids, fun r hr => Nat.lt_of_lt_of_le (h.bound r hr) hle, h.fits, h.rowsOk, h.named⟩
  | @create user body r hr _ =>
    obtain ⟨-, -, rfl⟩ := bookingRow_ok hr
    refine ⟨nodup_booked h rfl _, ?_, h.fits, ?_, ?_⟩
    · intro x hx
      rcases mem_booked.mp hx with hx | rfl
      · exact Nat.lt_succ_of_lt (h.bound x hx)
      · exact Nat.lt_succ_self _
    · intro x hx
      rcases mem_booked.mp hx with hx | rfl
      · exact h.rowsOk x hx
      · exact (newReservation_ok h.fits user body).inserted env _ _
    · intro x hx
      rw [lastName_booked]
      rcases mem_booked.mp hx with hx | rfl
      · split
        · exact ⟨_, rfl⟩
        · exact h.named x hx
      · exact ⟨_, if_pos rfl⟩
  | keep _ _ =>
    exact ⟨h.ids, h.bound, h.fits, h.rowsOk, fun r hr => lastName_named_isSome (h.named r hr)⟩
  | @edit user id op l ch hrow _ hupd _ =>
    obtain ⟨r, hr, ed, -, rfl, -, -⟩ := editRow_ok hrow
    have hid : (ch.apply (s.load r).row s.clock).id = r.id := apply_id ..
    have hold : ∀ x ∈ (s.replaced (ch.apply (s.load r).row s.clock)).rows,
        x ∈ s.rows ∨ x = ch.apply (s.load r).row s.clock :=
      fun x hx => (mem_replaced.mp hx).imp_left And.left
    refine ⟨nodup_replaced h _, ?_, h.fits, ?_, ?_⟩
    · intro x hx
      rcases hold x hx with hx | rfl
      · exact h.bound x hx
      · rw [hid]
        exact h.bound r hr
    · intro x hx
      rcases hold x hx with hx | rfl
      · exact h.rowsOk x hx
      · -- the UPDATE has been accepted
        exact rowError_eq_none.mp (Option.or_eq_none_iff.mp (flushError_eq_none.mp hupd).2).2
    · intro x hx
      refine lastName_named_isSome ?_
      rcases hold x hx with hx | rfl
      · exact h.named x hx
      · rw [hid]
        exact h.named r hr
  | backfill hf =>
    -- it fills rows, and neither adds nor removes one
    refine ⟨by rw [hf.ids]; exact h.ids, ?_, h.fits, ?_, ?_⟩
    · intro x hx
      obtain ⟨r, hr, rfl | ⟨-, v, rfl⟩⟩ := hf.mem hx
      · exact h.bound x hr
      · exact h.bound r hr
    · intro x hx
      obtain ⟨r, hr, hfr⟩ := hf.mem hx
      exact Filled.rowOk hfr (h.rowsOk r hr)
    · intro x hx
      obtain ⟨r, hr, rfl | ⟨-, v, rfl⟩⟩ := hf.mem hx
      · exact h.named x hr
      · exact h.named r hr
  | upgrade target =>
    exact ⟨h.ids, h.bound, h.fits.upgrade target, fun r hr => (h.rowsOk r hr).upgrade target,
      h.named⟩
  | put hok => exact ⟨h.ids, h.bound, fits_of_refusal hok, h.rowsOk, h.named⟩
  | restart configured =>
    exact ⟨h.ids, h.bound, h.fits_restart env configured, h.rowsOk, h.named⟩

theorem inv_start : Inv .start where
  ids := List.nodup_nil
  bound := fun _ h => absurd h List.not_mem_nil
  fits := fits_of_refusal (show refusal .legacy (stateOf Revision.r0001.schema none (some 0) none)
    = none from rfl)
  rowsOk := fun _ h => absurd h List.not_mem_nil
  named := fun _ h => absurd h List.not_mem_nil

end TableFlow.Deployment
