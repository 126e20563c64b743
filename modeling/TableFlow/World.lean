/-
  Requests running concurrently against one database.

  A `Task` is a request and the point it has reached (`Stage`).  The label `step i` lets task `i`
  do its next stretch: either Python code between two awaits, which reads the phase of that moment,
  or one statement, which reads the rows of that moment.  Any task may be next.

      POST     arrived -> booking -> inserting -> checking -> committing -> saved -> ..
      PATCH    arrived -> selecting -> loaded -> updating -> checking -> committing -> saved -> ..
      DELETE   the same
      GET one  arrived -> selecting -> loaded -> done
      GET list arrived -> listing -> listed -> done
      PUT      arrived -> counted -> countedMissing -> accepted -> done
      batch    arrived -> filling -> checking -> filling -> .. -> done
      ..       saved -> reloading -> reloaded -> done

  What the database does is in three places:

  * `checking` is the exclusion constraint: the new row version is in the table, and the statement
    waits while another transaction's row version might conflict (`Store.blocked`), fails on a
    committed conflict (`Store.violated`), and passes otherwise;
  * row locks: the `FOR NO KEY UPDATE` lock on a table (`Resource.table`), the locks a batch takes
    (`Resource.row`), and the lock an UPDATE holds on its row, which is the draft itself.  All of
    them end with the transaction;
  * `victim`: one request of a cycle of waiting requests may be chosen to fail.
-/
import TableFlow.Lib.Run
import TableFlow.Service

namespace TableFlow

open Lib

/-! ## Requests and answers -/

/-- What a request on one reservation asks for. -/
inductive Op
  | get
  | patch (ifMatch : Option Text) (body : ReservationUpdate)
  | delete (ifMatch : Option Text)

/-- The requests on reservations, with the phase change and a batch of the backfill. -/
inductive Request
  | post (user : User) (body : ReservationCreate)
  | onOne (user : User) (id : Nat) (op : Op)
  | list (user : User) (limit : Nat)
  /-- `PUT /admin/migration` -/
  | put (target : Phase)
  /-- One batch of the backfill. -/
  | batch (lastId batchSize : Nat)

/-- The requests of the reservations API. -/
def Request.isApi : Request → Bool
  | .post _ _ | .onOne _ _ _ | .list _ _ => true
  | .put _ | .batch _ _ => false

/-- The name a PATCH brings. -/
def Op.guestName : Op → Option Text
  | .patch _ body => body.guestName
  | _ => none

/-- The name a request brings. -/
def Request.guestName : Request → Option Text
  | .post _ body => some body.guestName
  | .onOne _ _ op => op.guestName
  | _ => none

/-- How a request is answered. -/
inductive Answer
  | out (status : Nat) (etag : Text) (body : ReservationOut)
  | listed (items : List ReservationListItem)
  | phase (p : Phase)
  /-- A batch has committed. -/
  | filled
  | refused (e : HTTPException)
  | failed (e : ServerError)

/-- The status code. -/
def Answer.status : Answer → Nat
  | .out status _ _ => status
  | .listed _ | .phase _ | .filled => 200
  | .refused e => e.status
  | .failed _ => 500

/-! ## Tasks -/

/-- How far a request is; between two stages others run. -/
inductive Stage
  | arrived
  /-- POST: the table's row is read and locked. -/
  | booking (table : Option RestaurantTable)
  /-- POST: the INSERT is on its way. -/
  | inserting (r : Reservation)
  /-- The SELECT of the row is on its way. -/
  | selecting (columns : List Column)
  | loaded (l : Option Loaded)
  /-- PATCH, DELETE: the UPDATE is on its way. -/
  | updating (l : Loaded) (ch : Changes)
  /-- The row version of `id` is written, the exclusion constraint is being checked. -/
  | checking (id : Nat) (todo : List (Nat × Text × Text))
  | committing (id : Nat)
  | saved (id : Nat)
  | reloading (id : Nat) (columns : List Column)
  | reloaded (l : Option Loaded)
  | listing (columns : List Column)
  | listed (rows : List (Loaded × Text))
  /-- PUT: the rows without a first name are counted. -/
  | counted (awaiting : Option Nat)
  | countedMissing (awaiting missing : Option Nat)
  /-- PUT: the guard has accepted. -/
  | accepted
  /-- Batch: the rows are selected and locked, `todo` is what is left to fill. -/
  | filling (todo : List (Nat × Text × Text))
  | done (a : Answer)

/-- A request under way. -/
structure Task where
  request : Request
  stage : Stage

/-- The status answered, if the task is done. -/
def Task.status (t : Task) : Option Nat :=
  match t.stage with
  | .done a => some a.status
  | _ => none

/-- The task is answered with this status. -/
def Task.answered (status : Nat) (t : Task) : Bool := t.status == some status

theorem answered_of_done {t : Task} {a : Answer} (h : t.stage = .done a) (status : Nat) :
    t.answered status = (a.status == status) := by
  unfold Task.answered Task.status
  rw [h]
  rfl

theorem done_of_status {t : Task} (h : t.status.isSome = true) : ∃ a, t.stage = .done a := by
  unfold Task.status at h
  split at h
  · exact ⟨_, ‹_›⟩
  · exact absurd h (by decide)

/-- What a transaction can hold a lock on, besides the rows it has written. -/
inductive Resource
  | table (id : Nat)
  | row (id : Nat)
  deriving DecidableEq, Repr

/-- The process with its phase, the database, and the requests that were made so far. -/
structure World where
  phase : Phase
  store : Store Reservation
  /-- The locks and their holders. -/
  locks : List (Resource × Nat)
  /-- The sequence of reservation ids. -/
  nextId : Nat
  tasks : List Task

namespace World

/-- Another transaction than `i` holds the lock. -/
def lockedByOther (w : World) (i : Nat) (res : Resource) : Bool :=
  w.locks.any fun l => l.1 == res && l.2 != i

/-- Another transaction than `i` has written or locked the row `id`. -/
def rowBusy (w : World) (i id : Nat) : Bool :=
  w.lockedByOther i (.row id) || w.store.drafts.any fun d => d.row.id == id && d.owner != i

/-- The row version of `id` that `i` has written. -/
def draft (w : World) (i id : Nat) : Option (Draft Reservation) :=
  w.store.drafts.find? fun d => d.owner == i && d.row.id == id

/-- The phase and the rows without tasks: where every run starts. -/
def start (phase : Phase) (rows : List Reservation) (nextId clock : Nat) : World :=
  ⟨phase, ⟨rows, [], [], clock⟩, [], nextId, []⟩

end World

/-! ## One stretch of a task -/

/-- What a stretch does to the shared state. -/
inductive Effect
  | none
  | lock (rs : List Resource)
  /-- Write a row version; `before` is the committed row it replaces. -/
  | write (before : Option Reservation) (row : Reservation)
  | pass (id : Nat)
  | commit
  | abort
  | setPhase (p : Phase)

/-- The effect of task `i`. -/
def World.apply (w : World) (i : Nat) : Effect → World
  | .none => w
  | .lock rs => { w with locks := w.locks ++ rs.map fun r => (r, i) }
  | .write before row =>
    { w with
      store := w.store.write [⟨i, before, row, false⟩]
      nextId := w.nextId + if before.isNone then 1 else 0 }
  | .pass id => { w with store := w.store.pass reservations id }
  | .commit =>
    { w with store := w.store.commit reservations i, locks := w.locks.filter (·.2 != i) }
  | .abort => { w with store := w.store.abort i, locks := w.locks.filter (·.2 != i) }
  | .setPhase p => { w with phase := p }

/-- The answer with the row `l`, built in phase `p`. -/
def respond (p : Phase) (status : Nat) (l : Loaded) : Answer :=
  match toOut p l with
  | .ok out => .out status (etag l.row.version) out
  | .error e => .failed e

theorem respond_status {p : Phase} {l : Loaded} (h : Readable p l) (status : Nat) :
    (respond p status l).status = status := by
  obtain ⟨o, ho⟩ := toOut_ok_iff.mpr h
  unfold respond
  rw [ho]
  rfl

/-- `create_reservation` maps the errors of its commit; the other requests let them pass. -/
def dbAnswer : Request → DbError → Answer
  | .post _ _, e => if e.isIntegrityError then .refused (integrityAnswer e) else .failed (.database e)
  | _, e => .failed (.database e)

/-- The status of an answer that went well. -/
def Request.okStatus : Request → Nat
  | .post _ _ => 201
  | _ => 200

/-- The exclusion constraint for the row version of `id`. -/
def check (w : World) (i : Nat) (id : Nat) (violation : Answer) (next : Stage) :
    Option (Effect × Stage) :=
  match w.draft i id with
  | none => none
  | some d =>
    if w.store.blocked reservations d then none
    else if w.store.violated reservations d then some (.abort, .done violation)
    else some (.pass id, next)

/-- `session.commit()` and `reload`, the same for POST, PATCH and DELETE. -/
def actSave (env : Env) (w : World) (req : Request) : Stage → Option (Effect × Stage)
  | .committing id => some (.commit, .saved id)
  | .saved id => some (.none, .reloading id (readColumns w.phase))
  | .reloading id columns =>
    -- the id was read from the database, it fits
    match reloadError env.schema columns w.store.rows id with
    | some e => some (.none, .done (.failed (.database e)))
    | none => some (.none, .reloaded (selectReservations columns w.store.rows id))
  | .reloaded none => some (.none, .done (.failed .noRow))
  | .reloaded (some l) => some (.none, .done (respond w.phase req.okStatus l))
  | _ => none

/-- `POST /reservations`. -/
def actPost (env : Env) (w : World) (i : Nat) (user : User) (body : ReservationCreate) :
    Stage → Option (Effect × Stage)
  | .arrived =>
    if fitsBigint body.restaurantTableId = false then
      some (.none, .done (.failed (.database .dataError)))
    else
      match env.table body.restaurantTableId with
      | none => some (.none, .booking none)
      | some t =>
        if w.lockedByOther i (.table t.id) then none
        else some (.lock [.table t.id], .booking (some t))
  | .booking table =>
    match bookingChecks table body with
    | .error e => some (.abort, .done (.refused e))
    | .ok _ => some (.none, .inserting (newReservation w.phase user body))
  | .inserting r =>
    match insertError env.schema r with
    | some e => some (.abort, .done (dbAnswer (.post user body) e))
    | none =>
      some (.write none (inserted env r w.nextId w.store.clock), .checking w.nextId [])
  | .checking id _ =>
    check w i id (dbAnswer (.post user body) .exclusionViolation) (.committing id)
  | st => actSave env w (.post user body) st

/-- A PATCH or a DELETE: its If-Match, whether it has to send one, and what it assigns. -/
structure Edit where
  ifMatch : Option Text
  required : Bool
  changes : Changes

/-- What a PATCH or DELETE assigns; a GET assigns nothing. -/
def Op.edit (p : Phase) : Op → Option Edit
  | .get => none
  | .patch ifMatch body => some ⟨ifMatch, true, patched p body⟩
  | .delete ifMatch => some ⟨ifMatch, false, cancelled⟩

/-- An edit assigns values a validated body can carry, to columns of the phase. -/
theorem edit_valid {op : Op} {p : Phase} {ed : Edit} (h : op.edit p = some ed) :
    ed.changes.Valid ∧ ∀ a ∈ ed.changes.names, a.1 ∈ writeColumns p := by
  cases op with
  | get => exact absurd h (by simp [Op.edit])
  | patch ifMatch body =>
    obtain rfl := Option.some.inj h
    refine ⟨patched_valid p body, fun a ha => ?_⟩
    cases hn : body.guestName with
    | none => simp [patched, hn] at ha
    | some n =>
      obtain ⟨c, hc, rfl⟩ : ∃ c ∈ writeColumns p, (c, nameValue n c) = a := by
        simpa [patched, hn, nameAssignments] using ha
      exact hc
  | delete ifMatch =>
    obtain rfl := Option.some.inj h
    exact ⟨cancelled_valid, fun a ha => absurd ha (List.not_mem_nil)⟩

/-- **The row an edit leaves**: the name, if it brings one, is written as on a booking. -/
theorem edit_apply {op : Op} {p : Phase} {ed : Edit} (h : op.edit p = some ed) (l : Loaded)
    (v : Nat) :
    (ed.changes.net l).apply l.row v =
      { op.guestName.elim l.row (writeName p l.row) with
        partySize := ed.changes.partySize.getD l.row.partySize
        status := ed.changes.status.getD l.row.status
        version := v } := by
  cases op with
  | get => exact absurd h (by simp [Op.edit])
  | delete ifMatch =>
    obtain rfl := Option.some.inj h
    exact net_apply (show (cancelled.names.map Prod.fst).Nodup from List.nodup_nil) l v
  | patch ifMatch body =>
    obtain rfl := Option.some.inj h
    cases hn : body.guestName with
    | none =>
      rw [net_apply (by simp [patched, hn])]
      simp [Changes.apply, patched, Op.guestName, hn, assignNames]
    | some n =>
      rw [net_apply (by simpa [patched, hn] using nameAssignments_nodup p n)]
      simp [Changes.apply, patched, Op.guestName, hn, writeName]

/-- GET, PATCH and DELETE of `/reservations/{id}`. -/
def actOne (env : Env) (w : World) (i : Nat) (user : User) (id : Nat) (op : Op) :
    Stage → Option (Effect × Stage)
  | .arrived => some (.none, .selecting (readColumns w.phase))
  | .selecting columns =>
    match selectError env.schema columns w.store.rows id with
    | some e => some (.none, .done (.failed (.database e)))
    | none => some (.none, .loaded (selectReservations columns w.store.rows id))
  | .loaded row =>
    match loadOwned user row with
    | .error e => some (.none, .done (.refused e))
    | .ok l =>
      match op.edit w.phase with
      | none => some (.none, .done (respond w.phase 200 l))
      | some ed =>
        match checkIfMatch l.row.version ed.ifMatch ed.required with
        | some e => some (.none, .done (.refused e))
        | none =>
          -- without a net change the flush sends no UPDATE
          if (ed.changes.net l).isEmpty then some (.none, .saved l.row.id)
          -- the driver looks at the parameters before it sends the statement
          else if (ed.changes.net l).sendable = false then
            some (.none, .done (.failed (.database .dataError)))
          else some (.none, .updating l (ed.changes.net l))
  | .updating l ch =>
    if w.rowBusy i l.row.id then none
    else
      match Store.lookup reservations w.store.rows l.row.id with
      | none => some (.abort, .done (.refused stale))
      | some r =>
        if r.version ≠ l.row.version then some (.abort, .done (.refused stale))
        else
          match updateError env.schema ch (ch.apply r w.store.clock) with
          | some e => some (.abort, .done (.failed (.database e)))
          | none => some (.write (some r) (ch.apply r w.store.clock), .checking r.id [])
  | .checking id _ => check w i id (.failed (.database .exclusionViolation)) (.committing id)
  | st => actSave env w (.onOne user id op) st

/-- The answer with the rows of a list. -/
def respondList (p : Phase) (rows : List (Loaded × Text)) : Answer :=
  match rows.mapM (toListItem p) with
  | .ok items => .listed items
  | .error e => .failed e

/-- The list is answered row by row. -/
theorem respondList_eq_listed {p : Phase} {rows : List (Loaded × Text)}
    {items : List ReservationListItem} :
    respondList p rows = .listed items ↔
      List.Forall₂ (fun x item => toListItem p x = .ok item) rows items := by
  have key : ∀ items, rows.mapM (toListItem p) = .ok items ↔
      List.Forall₂ (fun x item => toListItem p x = .ok item) rows items := by
    induction rows with
    | nil =>
      intro items
      rw [List.forall₂_nil_left_iff]
      exact ⟨fun h => (Except.ok.inj h).symm, fun h => by rw [h]; rfl⟩
    | cons x rows ih =>
      intro items
      rw [List.mapM_cons, List.forall₂_cons_left_iff]
      cases hx : toListItem p x with
      | error e => exact ⟨nofun, fun ⟨_, _, h, _⟩ => absurd h nofun⟩
      | ok item =>
        cases hrows : rows.mapM (toListItem p) with
        | error e =>
          exact ⟨nofun, fun ⟨_, _, _, h, _⟩ => absurd (hrows.symm.trans ((ih _).mpr h)) nofun⟩
        | ok items' =>
          have hall := (ih items').mp hrows
          constructor
          · intro h
            obtain rfl := Except.ok.inj h
            exact ⟨item, items', rfl, hall, rfl⟩
          · rintro ⟨item', rest, hitem, hrest, rfl⟩
            obtain rfl := Except.ok.inj hitem
            obtain rfl := Except.ok.inj (hrows.symm.trans ((ih _).mpr hrest))
            rfl
  rw [← key items]
  unfold respondList
  cases rows.mapM (toListItem p) with
  | ok items' =>
    exact ⟨fun h => congrArg _ (Answer.listed.inj h), fun h => congrArg _ (Except.ok.inj h)⟩
  | error e => exact ⟨nofun, nofun⟩

/-- The list is answered if every row of it can be. -/
theorem respondList_listed_iff {p : Phase} {rows : List (Loaded × Text)} :
    (∃ items, respondList p rows = .listed items) ↔ ∀ x ∈ rows, Readable p x.1 := by
  simp only [respondList_eq_listed, ← toListItem_ok_iff]
  induction rows with
  | nil => exact ⟨fun _ x hx => absurd hx List.not_mem_nil, fun _ => ⟨[], .nil⟩⟩
  | cons x rows ih =>
    rw [List.forall_mem_cons, ← ih]
    constructor
    · rintro ⟨items, h⟩
      obtain ⟨item, rest, hitem, hrest, -⟩ := List.forall₂_cons_left_iff.mp h
      exact ⟨⟨item, hitem⟩, rest, hrest⟩
    · rintro ⟨⟨item, hitem⟩, rest, hrest⟩
      exact ⟨item :: rest, .cons hitem hrest⟩

theorem status_respondList_failed {p : Phase} {rows : List (Loaded × Text)}
    (h : ¬ ∀ x ∈ rows, Readable p x.1) : (respondList p rows).status = 500 := by
  rw [← respondList_listed_iff] at h
  cases hr : rows.mapM (toListItem p) with
  | ok items => exact absurd ⟨items, by rw [respondList, hr]⟩ h
  | error e => rw [respondList, hr]; rfl

/-- `GET /reservations`. -/
def actList (env : Env) (w : World) (user : User) (limit : Nat) : Stage → Option (Effect × Stage)
  | .arrived => some (.none, .listing (readColumns w.phase))
  | .listing columns =>
    let found := selectMyBookings env columns w.store.rows user.id limit
    match listError env.schema columns found with
    | some e => some (.none, .done (.failed (.database e)))
    | none => some (.none, .listed found)
  | .listed rows => some (.none, .done (respondList w.phase rows))
  | _ => none

/-- The values of `Phase`. -/
def Phase.value : Phase → String
  | .legacy => "legacy"
  | .dualWrite => "dual_write"
  | .readNew => "read_new"
  | .newOnly => "new_only"

/-- `PUT /admin/migration`: the guard's queries, and the phase change after them. -/
def actPut (env : Env) (w : World) (target : Phase) : Stage → Option (Effect × Stage)
  | .arrived => some (.none, .counted (countAwaiting env.schema w.store.rows))
  | .counted awaiting =>
    some (.none, .countedMissing awaiting (countMissing env.schema w.store.rows))
  | .countedMissing awaiting missing =>
    match refusal target (stateOf env.schema awaiting missing
        (countMismatched env.sql env.schema w.store.rows)) with
    | some reason =>
      some (.none, .done (.refused ⟨409, s!"Cannot enter {target.value}: {reason}"⟩))
    | none => some (.none, .accepted)
  | .accepted => some (.setPhase target, .done (.phase target))
  | _ => none

/-- The rows a batch selects: awaiting, after `lastId`, not locked, in order of their ids. -/
def batchRows (w : World) (i lastId batchSize : Nat) : List Reservation :=
  ((w.store.rows.filter fun r =>
      decide (lastId < r.id) && r.firstName.isNone && !w.rowBusy i r.id).insertionSort
    fun a b => a.id ≤ b.id).take batchSize

/-- `{"row_id": row_id, "first": first, "last": last}`. -/
def fillParams (r : Reservation) : Nat × Text × Text :=
  (r.id, splitGuestName (r.guestName.getD []))

/-- `FILL`: set both new columns. -/
def fill (r : Reservation) (names : Text × Text) (version : Nat) : Reservation :=
  { r with firstName := some names.1, lastName := some names.2, version := version }

/-- One batch of `run_pass`. -/
def actBatch (env : Env) (w : World) (i lastId batchSize : Nat) : Stage → Option (Effect × Stage)
  | .arrived =>
    match undefinedColumn env.schema [.guestName, .firstName] with
    | some e => some (.none, .done (.failed (.database e)))
    | none =>
      let rows := batchRows w i lastId batchSize
      some (.lock (rows.map fun r => .row r.id), .filling (rows.map fillParams))
  | .filling [] => some (.commit, .done .filled)
  | .filling ((id, names) :: todo) =>
    -- `first_name IS NULL` is asked again, of the rows as this transaction sees them
    match Store.lookup reservations (w.store.seen reservations i) id with
    | none => some (.none, .filling todo)
    | some r =>
      if r.firstName.isNone then
        some (.write (some r) (fill r names w.store.clock), .checking r.id todo)
      else some (.none, .filling todo)
  | .checking id todo => check w i id (.failed (.database .exclusionViolation)) (.filling todo)
  | _ => none

/-- The next stretch of a task: `none` when it is waiting, or done. -/
def act (env : Env) (w : World) (i : Nat) (t : Task) : Option (Effect × Stage) :=
  match t.request with
  | .post user body => actPost env w i user body t.stage
  | .onOne user id op => actOne env w i user id op t.stage
  | .list user limit => actList env w user limit t.stage
  | .put target => actPut env w target t.stage
  | .batch lastId batchSize => actBatch env w i lastId batchSize t.stage

/-! ## Waiting -/

/-- Task `i` cannot go on before task `j` ends its transaction. -/
def waitsFor (env : Env) (w : World) (i j : Nat) : Bool :=
  i != j &&
  match w.tasks[i]? with
  | none => false
  | some t =>
    match t.request, t.stage with
    | .post _ body, .arrived =>
      fitsBigint body.restaurantTableId && (env.table body.restaurantTableId).any fun t =>
        w.locks.contains (.table t.id, j)
    | .onOne _ _ _, .updating l _ =>
      w.locks.contains (.row l.row.id, j) ||
        w.store.drafts.any fun d => d.row.id == l.row.id && d.owner == j
    | _, .checking id _ =>
      (w.draft i id).any fun d =>
        w.store.drafts.any fun d' => d'.owner == j && Store.blocks reservations d d'
    | _, _ => false

/-- Every member of the list waits for the next one, and the last one for `first`. -/
def waitCycle (env : Env) (w : World) (first : Nat) : List Nat → Bool
  | [] => false
  | [i] => waitsFor env w i first
  | i :: j :: rest => waitsFor env w i j && waitCycle env w first (j :: rest)

/-! ## The machine -/

/-- What happens next. -/
inductive Label
  | arrive (req : Request)
  | step (i : Nat)
  /-- The first request of a cycle fails with a deadlock. -/
  | victim (cycle : List Nat)

/-- Task `i` has done `e` and is now at `st`. -/
def World.advance (w : World) (i : Nat) (req : Request) (e : Effect) (st : Stage) : World :=
  { w.apply i e with tasks := w.tasks.set i ⟨req, st⟩ }

/-- The answer to the victim of a deadlock. -/
def deadlock : Answer := .failed (.database .deadlockDetected)

/-- The reservation service and its database. -/
def service (env : Env) : Machine World Label where
  step w
    | .arrive req => some { w with tasks := w.tasks ++ [⟨req, .arrived⟩] }
    | .step i =>
      w.tasks[i]?.bind fun t => (act env w i t).map fun x => w.advance i t.request x.1 x.2
    | .victim [] => none
    | .victim (i :: rest) =>
      w.tasks[i]?.bind fun t =>
        if waitCycle env w i (i :: rest) then some (w.advance i t.request .abort (.done deadlock))
        else none

/-! ## A small restaurant

One table for four, at the last revision; used to look at single runs. -/

theorem scan_id (rows : List Reservation) : (id rows).Perm rows := .refl _

/-- A small restaurant with one table for four. -/
def sample : Env where
  tables := [⟨7, 1, 4, true⟩]
  restaurants := [⟨1, "Fern".toList⟩]
  revision := .r0003
  sql := .cLocale
  jsonb := fun _ => true
  now := fun _ => 0
  scan := id
  scan_perm := scan_id

/-- A customer. -/
def customer : User := ⟨1, .customer⟩

/-- The name of the sample bookings. -/
def annLee : Text := "Ann Lee".toList

/-- The labels of the `i`-th request: it arrives and does `n` stretches. -/
def whole (i n : Nat) (req : Request) : List Label := .arrive req :: List.replicate n (.step i)

/-- Two hours at the table, from the given hour on. -/
def booking (hour partySize : Nat) (h : 0 < partySize ∧ partySize ≤ 20) : ReservationCreate where
  restaurantId := 1
  restaurantTableId := 7
  guestName := annLee
  partySize := partySize
  startsAt := hour * 3600000000
  endsAt := (hour + 2) * 3600000000
  guestName_length := by decide
  partySize_range := h
  window := by omega
  duration := by unfold sixHours; omega

/-- A table for two at noon. -/
def lunchForTwo : ReservationCreate := booking 12 2 (by decide)

/-- An hour later, so the two overlap. -/
def lunchForFour : ReservationCreate := booking 13 4 (by decide)

/-- The evening of that day. -/
def dinnerForTwo : ReservationCreate := booking 18 2 (by decide)

theorem no_name (n : Text) (h : none = some n) : 2 ≤ n.length ∧ n.length ≤ 120 :=
  absurd h (by simp)

theorem no_party (p : Nat) (h : none = some p) : 0 < p ∧ p ≤ 20 := absurd h (by simp)

/-- A PATCH of the party size. -/
def setParty (n : Nat) (h : 0 < n ∧ n ≤ 20) : ReservationUpdate where
  guestName := none
  partySize := some n
  status := none
  guestName_length := no_name
  partySize_range := fun p hp => by rw [← Option.some.inj hp]; exact h

/-- A PATCH of the status. -/
def setStatus (s : ReservationStatus) : ReservationUpdate where
  guestName := none
  partySize := none
  status := some s
  guestName_length := no_name
  partySize_range := no_party

theorem sample_fits (p : Phase) : Fits sample.schema p := fits_r0003 p

end TableFlow
