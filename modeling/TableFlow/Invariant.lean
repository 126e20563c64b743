/-
  The invariant of the service.

  `Inv` is what every reachable world satisfies, whatever requests arrive in whatever order:

  1. **the store** is `Sound` (so no two committed rows are double-booked) and `Tracked` (so its
     history is a chain of changes for every row), and its rows satisfy the table's constraints;
  2. **every row version in progress** belongs to a task that is at the right stage for it, and is
     one its request may make (`Made`); every committed change was `Made` by its request;
  3. **every lock** belongs to a task whose transaction is open;
  4. **every task** is at a stage whose data are what they should be (`StageOk`): what it loaded
     is a version the row had, the columns it chose exist, the row it writes is in progress.

  One step is treated in three parts: its effect is legal (`legal_of_act`), a legal effect keeps
  the store's part and does no harm to the other tasks (`unharmed`), and the task's own new stage
  is fine (`Inv.act`).
-/
import TableFlow.Steps

namespace TableFlow

open Lib

/-! ## What requests make -/

/-- The row `after` is what the request makes of `before`. -/
def Made (env : Env) (req : Request) (before : Option Reservation) (after : Reservation) : Prop :=
  match req with
  | .post user body =>
    before = none ∧ ∃ p id v, Fits env.schema p ∧
      after = inserted env (newReservation p user body) id v
  | .onOne _ id op =>
    ∃ b p ed cs v, before = some b ∧ b.id = id ∧ Fits env.schema p ∧ op.edit p = some ed ∧
      checkIfMatch b.version ed.ifMatch ed.required = none ∧
      (ed.changes.net ⟨b, cs⟩).isEmpty = false ∧ after = (ed.changes.net ⟨b, cs⟩).apply b v
  | .batch _ _ =>
    ∃ b v, before = some b ∧ b.firstName = none ∧
      after = fill b (splitGuestName (b.guestName.getD [])) v
  | _ => False

/-- **A change leaves its row in its place**: same id, same table, same window. -/
theorem Made.place {env : Env} {req : Request} {b r : Reservation} (h : Made env req (some b) r) :
    r.id = b.id ∧ r.restaurantTableId = b.restaurantTableId ∧ r.startsAt = b.startsAt ∧
      r.endsAt = b.endsAt := by
  cases req with
  | post user body => exact absurd h.1 (by simp)
  | onOne user id op =>
    obtain ⟨b', p, ed, cs, v, hb, -, -, -, -, -, rfl⟩ := h
    obtain rfl := Option.some.inj hb
    exact ⟨apply_id _ _ _, apply_restaurantTableId _ _ _, apply_startsAt _ _ _, apply_endsAt _ _ _⟩
  | batch lastId size =>
    obtain ⟨b', v, hb, -, rfl⟩ := h
    obtain rfl := Option.some.inj hb
    exact ⟨rfl, rfl, rfl, rfl⟩
  | list user limit => exact absurd h (fun x => x)
  | put target => exact absurd h (fun x => x)

/-- The columns a SELECT asked for are those of a phase that fits. -/
def Columns (env : Env) (cs : List Column) : Prop := ∃ p, Fits env.schema p ∧ cs = readColumns p

/-- The transaction is open: it may hold locks. -/
def Stage.open : Stage → Bool
  | .booking _ | .inserting _ | .checking _ _ | .committing _ | .filling _ => true
  | _ => false

/-- A task at this stage may hold the lock. -/
def Holds (req : Request) (st : Stage) (res : Resource) : Prop :=
  st.open = true ∧
  match req, res with
  | .post _ body, .table id => id = body.restaurantTableId
  | .batch _ _, .row _ => True
  | _, _ => False

/-- A task at this stage may have written `d`. -/
def Writes (req : Request) (st : Stage) (d : Draft Reservation) : Prop :=
  match st with
  | .checking id _ =>
    (d.row.id = id ∧ d.passed = false) ∨
      (d.row.id ≠ id ∧ d.passed = true ∧ req.onReservation = false)
  | .committing id => d.row.id = id ∧ d.passed = true
  | .filling _ => d.passed = true ∧ req.onReservation = false
  | _ => False

/-- What is left to fill: rows the batch has locked, with the split of their names. -/
def TodoOk (w : World) (i : Nat) (todo : List (Nat × Text × Text)) : Prop :=
  ∀ x ∈ todo, (Resource.row x.1, i) ∈ w.locks ∧
    ∀ r, Store.lookup reservations w.store.rows x.1 = some r →
      x.2 = splitGuestName (r.guestName.getD [])

/-- The table lock of a booking. -/
def TableLocked (w : World) (i : Nat) (req : Request) : Prop :=
  ∀ user body, req = .post user body →
    (Resource.table body.restaurantTableId, i) ∈ w.locks

/-- A loaded row is a version the row had. -/
def LoadedOk (env : Env) (init : List Reservation) (w : World) (l : Loaded) : Prop :=
  Columns env l.columns ∧ l.row ∈ Store.versionsOf reservations init w.store l.row.id

/-- The data of a stage. -/
def StageOk (env : Env) (init : List Reservation) (w : World) (i : Nat) (req : Request) :
    Stage → Prop
  | .arrived => True
  | .booking table => ∀ t, table = some t → TableLocked w i req
  | .inserting r =>
    TableLocked w i req ∧ ∃ user body p, req = .post user body ∧ Fits env.schema p ∧
      r = newReservation p user body
  | .selecting cs => Columns env cs
  | .loaded row => ∀ l, row = some l → LoadedOk env init w l ∧
      ∀ user id op, req = .onOne user id op → l.row.id = id
  | .updating l ch =>
    LoadedOk env init w l ∧ ∃ user op p ed, req = .onOne user l.row.id op ∧ Fits env.schema p ∧
      op.edit p = some ed ∧ checkIfMatch l.row.version ed.ifMatch ed.required = none ∧
      (ed.changes.net l).isEmpty = false ∧ ch = ed.changes.net l
  | .checking id todo =>
    (∃ d ∈ w.store.drafts, d.owner = i ∧ d.row.id = id) ∧ TableLocked w i req ∧ TodoOk w i todo
  | .committing id => (∃ d ∈ w.store.drafts, d.owner = i ∧ d.row.id = id) ∧ TableLocked w i req
  | .saved id => ∃ r ∈ w.store.rows, r.id = id
  | .reloading id cs => (∃ r ∈ w.store.rows, r.id = id) ∧ Columns env cs
  | .reloaded row => ∃ l, row = some l ∧ LoadedOk env init w l
  | .listing cs => Columns env cs
  | .listed rows => ∀ x ∈ rows, Columns env x.1.columns
  | .counted _ => True
  | .countedMissing _ _ => True
  | .accepted => ∀ target, req = .put target → Fits env.schema target
  | .filling todo => TodoOk w i todo
  | .done _ => True

/-- **The invariant of the service**; `init` are the rows it started with. -/
structure Inv (env : Env) (init : List Reservation) (w : World) : Prop where
  sound : Store.Sound reservations w.store
  tracked : Store.Tracked reservations init w.store
  rowIds : ∀ r ∈ w.store.rows, r.id < w.nextId
  draftIds : ∀ d ∈ w.store.drafts, d.row.id < w.nextId
  rowsOk : ∀ r ∈ w.store.rows, RowOk env.schema r
  draftsOk : ∀ d ∈ w.store.drafts, RowOk env.schema d.row
  fits : Fits env.schema w.phase
  writers : ∀ d ∈ w.store.drafts, ∃ t, w.tasks[d.owner]? = some t ∧
    Made env t.request d.before d.row ∧ Writes t.request t.stage d
  made : ∀ e ∈ w.store.history, ∃ t, w.tasks[e.owner]? = some t ∧
    Made env t.request e.before e.after
  holders : ∀ l ∈ w.locks, ∃ t, w.tasks[l.2]? = some t ∧ Holds t.request t.stage l.1
  locksOnce : (w.locks.map Prod.fst).Nodup
  /-- A locked row exists, and only the holder of its lock can write it. -/
  rowLocks : ∀ k i, (Resource.row k, i) ∈ w.locks →
    (∃ r ∈ w.store.rows, r.id = k) ∧ ∀ d ∈ w.store.drafts, d.row.id = k → d.owner = i
  stages : ∀ i t, w.tasks[i]? = some t → StageOk env init w i t.request t.stage


/-! ## Reading locks and drafts -/

section Reading

variable {w : World} {i : Nat}

theorem lockedByOther_eq_false {res : Resource} (h : w.lockedByOther i res = false) :
    ∀ j, (res, j) ∈ w.locks → j = i := by
  intro j hj
  have := List.any_eq_false.mp h (res, j) hj
  simpa using this

theorem rowBusy_eq_false {id : Nat} (h : w.rowBusy i id = false) :
    (∀ j, (Resource.row id, j) ∈ w.locks → j = i) ∧
      ∀ d ∈ w.store.drafts, d.row.id = id → d.owner = i := by
  obtain ⟨hl, hd⟩ := Bool.or_eq_false_iff.mp h
  refine ⟨lockedByOther_eq_false hl, fun d hmem hid => ?_⟩
  have := List.any_eq_false.mp hd d hmem
  simpa [hid] using this

theorem draft_some {id : Nat} {d : Draft Reservation} (h : w.draft i id = some d) :
    d ∈ w.store.drafts ∧ d.owner = i ∧ d.row.id = id := by
  refine ⟨List.mem_of_find?_eq_some h, ?_⟩
  simpa using List.find?_some h

/-- A task that is at no writing stage has nothing in progress. -/
theorem Inv.no_draft {env : Env} {init : List Reservation} (h : Inv env init w) {t : Task}
    (ht : w.tasks[i]? = some t) (hst : ∀ d, ¬ Writes t.request t.stage d) :
    ∀ d ∈ w.store.drafts, d.owner ≠ i := by
  rintro d hd rfl
  obtain ⟨t', ht', -, hw⟩ := h.writers d hd
  obtain rfl := Option.some.inj (ht.symm.trans ht')
  exact hst d hw

/-- A task whose transaction is not open holds no lock. -/
theorem Inv.no_lock {env : Env} {init : List Reservation} (h : Inv env init w) {t : Task}
    (ht : w.tasks[i]? = some t) (hst : t.stage.open = false) :
    ∀ res, (res, i) ∉ w.locks := by
  intro res hmem
  obtain ⟨t', ht', hop, -⟩ := h.holders (res, i) hmem
  obtain rfl := Option.some.inj (ht.symm.trans ht')
  rw [hst] at hop
  exact absurd hop (by decide)

end Reading

/-! ## Legal effects -/

/-- What the store and the locks ask of an effect of task `i`. -/
def Legal (env : Env) (w : World) (i : Nat) (req : Request) : Effect → Prop
  | .none => True
  | .lock rs =>
    rs.Nodup ∧ (∀ res ∈ rs, ∀ j, (res, j) ∉ w.locks) ∧
      ∀ k, Resource.row k ∈ rs → (∃ r ∈ w.store.rows, r.id = k) ∧
        ∀ d ∈ w.store.drafts, d.row.id = k → d.owner = i
  | .write before row =>
    Store.Fresh reservations w.store [⟨i, before, row, false⟩] ∧ RowOk env.schema row ∧
      row.id < w.nextId + (if before.isNone then 1 else 0) ∧
      (∀ j, (Resource.row row.id, j) ∈ w.locks → j = i) ∧ Made env req before row
  | .pass id =>
    ∃ d ∈ w.store.drafts, d.owner = i ∧ d.row.id = id ∧
      w.store.blocked reservations d = false ∧ w.store.violated reservations d = false
  | .commit => ∀ d ∈ w.store.drafts, d.owner = i → d.passed = true
  | .abort => True
  | .setPhase p => Fits env.schema p

section LegalOfAct

variable {env : Env} {init : List Reservation} {w : World} {i : Nat}

/-- A single new draft is fresh when its key has no draft and it starts from the committed row. -/
theorem fresh_single {before : Option Reservation} {row : Reservation}
    (h : Store.Sound reservations w.store) (hkey : ∀ d ∈ w.store.drafts, d.row.id ≠ row.id)
    (hbase : Store.lookup reservations w.store.rows row.id = before)
    (hver : row.version = w.store.clock) :
    Store.Fresh reservations w.store [⟨i, before, row, false⟩] where
  keys := nodup_map_concat h.draftKeys hkey
  base := by
    intro d hd
    obtain rfl := List.mem_singleton.mp hd
    exact hbase
  version := by
    intro d hd
    obtain rfl := List.mem_singleton.mp hd
    exact hver
  unchecked := by
    intro d hd
    obtain rfl := List.mem_singleton.mp hd
    rfl

/-- Nothing of an id the sequence has not reached is in the table or in progress. -/
theorem lookup_new (h : Inv env init w) :
    Store.lookup reservations w.store.rows w.nextId = none :=
  Store.lookup_none.mpr fun r hr => Nat.ne_of_lt (h.rowIds r hr)

theorem legal_insert (h : Inv env init w) {user : User} {body : ReservationCreate} {p : Phase}
    (hp : Fits env.schema p) {r : Reservation} (hr : r = newReservation p user body) :
    Legal env w i (.post user body) (.write none (inserted env r w.nextId w.store.clock)) := by
  have hrow : RowOk env.schema (inserted env r w.nextId w.store.clock) := by
    rw [hr]
    exact (newReservation_ok hp user body).inserted env _ _
  refine ⟨fresh_single h.sound (fun d hd => Nat.ne_of_lt (h.draftIds d hd)) (lookup_new h) rfl,
    hrow, Nat.lt_succ_self _, ?_, rfl, p, w.nextId, w.store.clock, hp, by rw [hr]⟩
  -- a locked row exists, so its id is an old one
  intro j hj
  obtain ⟨⟨r', hr', hid⟩, -⟩ := h.rowLocks _ j hj
  exact absurd (h.rowIds r' hr') (by rw [hid]; exact Nat.lt_irrefl _)

/-- The row an UPDATE finds under the loaded version is the row that was loaded. -/
theorem loaded_row_eq (h : Inv env init w) {l : Loaded} (hl : LoadedOk env init w l)
    {r : Reservation} (hr : Store.lookup reservations w.store.rows l.row.id = some r)
    (hv : r.version = l.row.version) : r = l.row :=
  h.tracked.version_inj (h.tracked.lookup_mem_versions hr) hl.2 hv

theorem legal_update (h : Inv env init w) {t : Task} (ht : w.tasks[i]? = some t) {l : Loaded}
    {ch : Changes} (hst : t.stage = .updating l ch) {r : Reservation}
    (hbusy : w.rowBusy i l.row.id = false)
    (hr : Store.lookup reservations w.store.rows l.row.id = some r)
    (hv : r.version = l.row.version) :
    Legal env w i t.request (.write (some r) (ch.apply r w.store.clock)) := by
  have hs := h.stages i t ht
  rw [hst] at hs
  obtain ⟨hl, user, op, p, ed, hreq, hp, hop, hm, hne, hch⟩ := hs
  obtain ⟨cs, rfl⟩ : ∃ cs, l = ⟨r, cs⟩ := by
    obtain rfl := loaded_row_eq h hl hr hv
    exact ⟨l.columns, rfl⟩
  obtain ⟨hlocks, hdrafts⟩ := rowBusy_eq_false hbusy
  have hno := h.no_draft ht (by rw [hst]; exact fun d hd => hd)
  have hvalid : ch.Valid := by
    rw [hch]
    exact (edit_valid hop).1.net _
  have hrow := (Store.lookup_some hr).1
  refine ⟨fresh_single h.sound ?_ ?_ (apply_version ..), hvalid.apply_ok (h.rowsOk r hrow) _, ?_,
    ?_, ?_⟩
  · intro d hd hid
    rw [apply_id] at hid
    exact hno d hd (hdrafts d hd hid)
  · rw [apply_id]
    exact hr
  · rw [apply_id]
    exact h.rowIds r hrow
  · intro j hj
    rw [apply_id] at hj
    exact hlocks j hj
  · rw [hreq, hch]
    exact ⟨r, p, ed, cs, w.store.clock, rfl, rfl, hp, hop, hm, hne, rfl⟩

/-- A row the batch still sees without a first name is one it has not written. -/
theorem fill_not_written (h : Inv env init w) {t : Task} (ht : w.tasks[i]? = some t)
    {lastId size : Nat} (hreq : t.request = .batch lastId size) {id : Nat} {r : Reservation}
    (hr : Store.lookup reservations (w.store.seen reservations i) id = some r)
    (hf : r.firstName = none) :
    w.store.overwrites reservations i id = false := by
  by_contra hov
  obtain ⟨d, hd, ho, hk⟩ := Store.overwrites_iff.mp (Bool.not_eq_false _ ▸ hov)
  have hrow := Store.lookup_seen_of_draft hd h.sound.draftKeys
  rw [ho, hk] at hrow
  obtain rfl := Option.some.inj (hrow.symm.trans hr)
  obtain ⟨t', ht', hmade, -⟩ := h.writers d hd
  rw [ho] at ht'
  obtain rfl := Option.some.inj (ht.symm.trans ht')
  rw [hreq] at hmade
  obtain ⟨b, v, -, -, hfill⟩ := hmade
  rw [hfill] at hf
  exact absurd hf (by simp [fill])

theorem fill_ok {schema : Schema} {r : Reservation} (h : RowOk schema r) (n : Text) (v : Nat) :
    RowOk schema (fill r (splitGuestName n) v) where
  short := by
    intro c x hx
    cases c with
    | guestName => exact h.short .guestName x hx
    | firstName =>
      obtain rfl := Option.some.inj hx
      exact (splitGuestName_length n).1
    | lastName =>
      obtain rfl := Option.some.inj hx
      exact (splitGuestName_length n).2
  filled := by
    intro c info hc hn
    cases c with
    | guestName => exact h.filled .guestName info hc hn
    | firstName => exact Option.some_ne_none _
    | lastName => exact Option.some_ne_none _
  party := h.party
  window := h.window

theorem legal_fill (h : Inv env init w) {t : Task} (ht : w.tasks[i]? = some t)
    {lastId size id : Nat} {names : Text × Text} {todo : List (Nat × Text × Text)}
    (hreq : t.request = .batch lastId size) (hst : t.stage = .filling ((id, names) :: todo))
    {r : Reservation}
    (hr : Store.lookup reservations (w.store.seen reservations i) id = some r)
    (hf : r.firstName = none) :
    Legal env w i t.request (.write (some r) (fill r names w.store.clock)) := by
  have hs := h.stages i t ht
  rw [hst] at hs
  obtain ⟨hlock, hnames⟩ := hs (id, names) (List.mem_cons_self ..)
  have hov := fill_not_written h ht hreq hr hf
  rw [Store.lookup_seen_of_not hov] at hr
  obtain ⟨hrow, hid⟩ := Store.lookup_some hr
  obtain rfl : names = splitGuestName (r.guestName.getD []) := hnames r hr
  obtain rfl : r.id = id := hid
  refine ⟨fresh_single h.sound ?_ hr rfl, fill_ok (h.rowsOk r hrow) _ _, h.rowIds r hrow, ?_, ?_⟩
  · intro d hd hdid
    exact Store.overwrites_eq_false.mp hov d hd ((h.rowLocks _ _ hlock).2 d hd hdid) hdid
  · intro j hj
    have := List.inj_on_of_nodup_map h.locksOnce hj hlock rfl
    exact (Prod.mk.inj this).2
  · rw [hreq]
    exact ⟨r, w.store.clock, rfl, hf, rfl⟩

theorem mem_batchRows {lastId size : Nat} {r : Reservation} (h : r ∈ batchRows w i lastId size) :
    r ∈ w.store.rows ∧ r.firstName = none ∧ w.rowBusy i r.id = false := by
  have h' := (List.mem_insertionSort _).mp (List.mem_of_mem_take h)
  obtain ⟨hr, hp⟩ := List.mem_filter.mp h'
  simp only [Bool.and_eq_true, Option.isNone_iff_eq_none, Bool.not_eq_true'] at hp
  exact ⟨hr, hp.1.2, hp.2⟩

theorem filter_rows_nodup (h : Store.Sound reservations w.store) (p : Reservation → Bool) :
    ((w.store.rows.filter p).map fun r => Resource.row r.id).Nodup := by
  have hkeys : ((w.store.rows.filter p).map Reservation.id).Nodup :=
    h.keys.sublist (List.filter_sublist.map Reservation.id)
  have := hkeys.map (f := Resource.row) fun a b hab => Resource.row.inj hab
  rwa [List.map_map] at this

theorem batchRows_nodup (h : Store.Sound reservations w.store) (lastId size : Nat) :
    ((batchRows w i lastId size).map fun r => Resource.row r.id).Nodup := by
  unfold batchRows
  refine List.Nodup.sublist ((List.take_sublist _ _).map _) ?_
  exact (((List.perm_insertionSort _ _).map _).nodup_iff).mpr (filter_rows_nodup h _)

theorem legal_batchSelect (h : Inv env init w) {t : Task} (ht : w.tasks[i]? = some t)
    (hst : t.stage = .arrived) (lastId size : Nat) :
    Legal env w i t.request (.lock ((batchRows w i lastId size).map fun r => .row r.id)) := by
  have hown := h.no_lock ht (by rw [hst]; rfl)
  refine ⟨batchRows_nodup h.sound lastId size, ?_, ?_⟩
  · intro res hres j hj
    obtain ⟨r, hr, rfl⟩ := List.mem_map.mp hres
    obtain rfl := (rowBusy_eq_false (mem_batchRows hr).2.2).1 j hj
    exact hown _ hj
  · intro k hk
    obtain ⟨r, hr, hrk⟩ := List.mem_map.mp hk
    obtain rfl := Resource.row.inj hrk
    obtain ⟨hrow, -, hbusy⟩ := mem_batchRows hr
    exact ⟨⟨r, hrow, rfl⟩, (rowBusy_eq_false hbusy).2⟩

/-- **Every stretch of a task has a legal effect.** -/
theorem legal_of_act (h : Inv env init w) {t : Task} (ht : w.tasks[i]? = some t) {e : Effect}
    {st' : Stage} (ha : Act env w i t.request t.stage e st') : Legal env w i t.request e := by
  have hs := h.stages i t ht
  obtain ⟨req, st⟩ := t
  cases ha with
  | lockTable hid htab hl =>
    have hown := h.no_lock ht rfl
    refine ⟨List.nodup_singleton _, ?_, ?_⟩
    · intro res hres j hj
      obtain rfl := List.mem_singleton.mp hres
      obtain rfl := lockedByOther_eq_false hl j hj
      exact hown _ hj
    · intro k hk
      exact absurd (List.mem_singleton.mp hk) (by simp)
  | insert _ =>
    obtain ⟨-, user, body, p, hreq, hp, hr⟩ := hs
    obtain ⟨rfl, rfl⟩ := Request.post.inj hreq
    exact legal_insert h hp hr
  | update hb hr hv _ => exact legal_update h ht rfl hb hr hv
  | pass hd hb hv =>
    obtain ⟨hmem, ho, hid⟩ := draft_some hd
    exact ⟨_, hmem, ho, hid, hb, hv⟩
  | commit _ =>
    intro d hd ho
    obtain ⟨t', ht', -, hw⟩ := h.writers d hd
    rw [ho] at ht'
    obtain rfl := Option.some.inj (ht.symm.trans ht')
    exact hw.2
  | setPhase => exact hs _ rfl
  | batchSelect _ => exact legal_batchSelect h ht rfl _ _
  | batchCommit =>
    intro d hd ho
    obtain ⟨t', ht', -, hw⟩ := h.writers d hd
    rw [ho] at ht'
    obtain rfl := Option.some.inj (ht.symm.trans ht')
    exact hw.1
  | fillRow hr hf => exact legal_fill h ht rfl rfl hr hf
  | _ => trivial

end LegalOfAct

/-! ## What a legal effect leaves alone -/

section Effects

variable {env : Env} {init : List Reservation} {w : World} {i : Nat} {req : Request} {e : Effect}

/-- Row versions in progress of other tasks are neither added, changed nor removed. -/
theorem mem_apply_other (h : Inv env init w) (hl : Legal env w i req e) {d : Draft Reservation}
    (ho : d.owner ≠ i) : d ∈ (w.apply i e).store.drafts ↔ d ∈ w.store.drafts := by
  cases e with
  | none => exact Iff.rfl
  | lock rs => exact Iff.rfl
  | setPhase p => exact Iff.rfl
  | write before row =>
    refine ⟨fun hd => ?_, fun hd => List.mem_append_left _ hd⟩
    rcases List.mem_append.mp hd with hd | hd
    · exact hd
    · rw [List.mem_singleton.mp hd] at ho
      exact absurd rfl ho
  | pass id =>
    obtain ⟨d₀, hd₀, ho₀, hid₀, -, -⟩ := hl
    have hkeep : ∀ d' ∈ w.store.drafts, d'.owner ≠ i → reservations.key d'.row ≠ id := by
      intro d' hd' hne hk
      have : d' = d₀ := Store.draft_unique h.sound.draftKeys hd' hd₀ (hk.trans hid₀.symm)
      exact hne (this ▸ ho₀)
    constructor
    · intro hd
      obtain ⟨d', hd', rfl⟩ := List.mem_map.mp hd
      by_cases hk : reservations.key d'.row = id
      · rw [if_pos hk] at ho
        exact absurd hk (hkeep d' hd' ho)
      · rw [if_neg hk]
        exact hd'
    · intro hd
      refine List.mem_map.mpr ⟨d, hd, ?_⟩
      rw [if_neg (hkeep d hd ho)]
  | commit => exact Store.mem_commit.trans ⟨fun hd => hd.1, fun hd => ⟨hd, ho⟩⟩
  | abort => exact Store.mem_abort.trans ⟨fun hd => hd.1, fun hd => ⟨hd, ho⟩⟩

/-- The row versions in progress afterwards: old ones, possibly marked, or the new one. -/
theorem mem_apply_drafts {d : Draft Reservation} (hd : d ∈ (w.apply i e).store.drafts) :
    (∃ d₀ ∈ w.store.drafts, d.owner = d₀.owner ∧ d.before = d₀.before ∧ d.row = d₀.row) ∨
      ∃ before row, e = .write before row ∧ d = ⟨i, before, row, false⟩ := by
  cases e with
  | none => exact Or.inl ⟨d, hd, rfl, rfl, rfl⟩
  | lock rs => exact Or.inl ⟨d, hd, rfl, rfl, rfl⟩
  | setPhase p => exact Or.inl ⟨d, hd, rfl, rfl, rfl⟩
  | write before row =>
    rcases List.mem_append.mp hd with hd | hd
    · exact Or.inl ⟨d, hd, rfl, rfl, rfl⟩
    · exact Or.inr ⟨before, row, rfl, List.mem_singleton.mp hd⟩
  | pass id =>
    obtain ⟨d₀, hd₀, ho, hb, hr, -⟩ := Store.mem_pass hd
    exact Or.inl ⟨d₀, hd₀, ho, hb, hr⟩
  | commit => exact Or.inl ⟨d, (Store.mem_commit.mp hd).1, rfl, rfl, rfl⟩
  | abort => exact Or.inl ⟨d, (Store.mem_abort.mp hd).1, rfl, rfl, rfl⟩

theorem mem_locks_other {j : Nat} (hj : j ≠ i) {res : Resource} :
    (res, j) ∈ (w.apply i e).locks ↔ (res, j) ∈ w.locks := by
  cases e with
  | lock rs =>
    refine ⟨fun h => ?_, fun h => List.mem_append_left _ h⟩
    rcases List.mem_append.mp h with h | h
    · exact h
    · obtain ⟨r, -, hr⟩ := List.mem_map.mp h
      exact absurd (Prod.mk.inj hr).2.symm hj
  | commit => simp [World.apply, hj]
  | abort => simp [World.apply, hj]
  | _ => exact Iff.rfl

/-- A lock afterwards is an old one, or the task has just taken it. -/
theorem mem_apply_locks {res : Resource} {j : Nat} (hmem : (res, j) ∈ (w.apply i e).locks) :
    (res, j) ∈ w.locks ∨ ∃ rs, e = .lock rs ∧ res ∈ rs ∧ j = i := by
  cases e with
  | lock rs =>
    rcases List.mem_append.mp hmem with hm | hm
    · exact Or.inl hm
    · obtain ⟨r, hr, hrk⟩ := List.mem_map.mp hm
      obtain ⟨rfl, rfl⟩ := Prod.mk.inj hrk
      exact Or.inr ⟨rs, rfl, hr, rfl⟩
  | commit => exact Or.inl (List.mem_filter.mp hmem).1
  | abort => exact Or.inl (List.mem_filter.mp hmem).1
  | _ => exact Or.inl hmem

/-- Locks stay exclusive. -/
theorem locksOnce_apply (h : Inv env init w) (hl : Legal env w i req e) :
    ((w.apply i e).locks.map Prod.fst).Nodup := by
  cases e with
  | lock rs =>
    show ((w.locks ++ rs.map fun r => (r, i)).map Prod.fst).Nodup
    rw [List.map_append, List.map_map, List.nodup_append]
    refine ⟨h.locksOnce, by simpa [Function.comp_def] using hl.1, ?_⟩
    intro res hres res' hres' heq
    obtain ⟨⟨_, j⟩, hmem, rfl⟩ := List.mem_map.mp hres
    have hmem' : res' ∈ rs := by simpa using hres'
    exact hl.2.1 res' hmem' j (heq ▸ hmem)
  | commit => exact h.locksOnce.sublist (List.filter_sublist.map _)
  | abort => exact h.locksOnce.sublist (List.filter_sublist.map _)
  | _ => exact h.locksOnce

/-- A row nobody but another task can write keeps its committed version. -/
theorem lookup_apply_of_not {k : Nat} (hno : w.store.overwrites reservations i k = false) :
    Store.lookup reservations (w.apply i e).store.rows k
      = Store.lookup reservations w.store.rows k := by
  cases e with
  | commit => exact Store.lookup_seen_of_not hno
  | _ => rfl

/-- **Rows are never removed.** -/
theorem row_exists_apply {k : Nat} (hk : ∃ r ∈ w.store.rows, r.id = k) :
    ∃ r ∈ (w.apply i e).store.rows, r.id = k := by
  cases e with
  | commit =>
    obtain ⟨r, hr, rfl⟩ := hk
    cases hov : w.store.overwrites reservations i r.id with
    | false => exact ⟨r, Store.mem_seen.mpr (Or.inl ⟨hr, hov⟩), rfl⟩
    | true =>
      obtain ⟨d, hd, ho, hid⟩ := Store.overwrites_iff.mp hov
      exact ⟨d.row, Store.mem_seen.mpr (Or.inr ⟨d, hd, ho, rfl⟩), hid⟩
  | _ => exact hk

/-- A locked row still exists, and still only the holder of its lock writes it. -/
theorem rowLocks_apply (h : Inv env init w) (hl : Legal env w i req e) {k j : Nat}
    (hmem : (Resource.row k, j) ∈ (w.apply i e).locks) :
    (∃ r ∈ (w.apply i e).store.rows, r.id = k) ∧
      ∀ d ∈ (w.apply i e).store.drafts, d.row.id = k → d.owner = j := by
  rcases mem_apply_locks hmem with hold | ⟨rs, rfl, hrs, rfl⟩
  · refine ⟨row_exists_apply (h.rowLocks k j hold).1, fun d hd hid => ?_⟩
    rcases mem_apply_drafts hd with ⟨d₀, hd₀, ho, -, hr⟩ | ⟨before, row, rfl, rfl⟩
    · rw [hr] at hid
      rw [ho]
      exact (h.rowLocks k j hold).2 d₀ hd₀ hid
    · exact (hl.2.2.2.1 j (by rw [show row.id = k from hid]; exact hold)).symm
  · exact hl.2.2 k hrs

/-- **Versions are never forgotten.** -/
theorem mem_versions_apply {k : Nat} {r : Reservation}
    (hr : r ∈ Store.versionsOf reservations init w.store k) :
    r ∈ Store.versionsOf reservations init (w.apply i e).store k := by
  cases e with
  | commit =>
    rcases List.mem_append.mp hr with hr | hr
    · exact List.mem_append_left _ hr
    · refine List.mem_append_right _ ?_
      show r ∈ (Store.changesOf reservations k (w.store.commit reservations i).history).map _
      rw [Store.changesOf_commit, List.map_append]
      exact List.mem_append_left _ hr
  | _ => exact hr

/-- What the other tasks rely on. -/
structure Unharmed (init : List Reservation) (w w' : World) (j : Nat) : Prop where
  locks : ∀ res, (res, j) ∈ w.locks → (res, j) ∈ w'.locks
  drafts : ∀ d ∈ w.store.drafts, d.owner = j → d ∈ w'.store.drafts
  rows : ∀ k, (∃ r ∈ w.store.rows, r.id = k) → ∃ r ∈ w'.store.rows, r.id = k
  versions : ∀ k r, r ∈ Store.versionsOf reservations init w.store k →
    r ∈ Store.versionsOf reservations init w'.store k
  lockedRow : ∀ k, (Resource.row k, j) ∈ w.locks →
    Store.lookup reservations w'.store.rows k = Store.lookup reservations w.store.rows k

/-- **A legal effect does no harm to the other tasks.** -/
theorem unharmed (h : Inv env init w) (hl : Legal env w i req e) {j : Nat} (hj : j ≠ i) :
    Unharmed init w (w.apply i e) j where
  locks := fun _ hres => (mem_locks_other hj).mpr hres
  drafts := fun _ hd ho => (mem_apply_other h hl fun hi => hj (ho.symm.trans hi)).mpr hd
  rows := fun _ hk => row_exists_apply hk
  versions := fun _ _ hr => mem_versions_apply hr
  lockedRow := by
    intro k hk
    refine lookup_apply_of_not (Store.overwrites_eq_false.mpr fun d hd ho hid => hj ?_)
    rw [← (h.rowLocks k j hk).2 d hd hid]
    exact ho

/-- The data of a stage survive what does no harm. -/
theorem StageOk.mono {w' : World} {j : Nat} (hu : Unharmed init w w' j) {req : Request}
    {st : Stage} (hs : StageOk env init w j req st) : StageOk env init w' j req st := by
  have htab : TableLocked w j req → TableLocked w' j req :=
    fun ht user body hreq => hu.locks _ (ht user body hreq)
  have htodo : ∀ todo, TodoOk w j todo → TodoOk w' j todo := by
    intro todo ht x hx
    obtain ⟨hlock, hnames⟩ := ht x hx
    refine ⟨hu.locks _ hlock, fun r hr => hnames r ?_⟩
    rwa [hu.lockedRow _ hlock] at hr
  have hload : ∀ l, LoadedOk env init w l → LoadedOk env init w' l :=
    fun l hl => ⟨hl.1, hu.versions _ _ hl.2⟩
  have hdraft : ∀ id, (∃ d ∈ w.store.drafts, d.owner = j ∧ d.row.id = id) →
      ∃ d ∈ w'.store.drafts, d.owner = j ∧ d.row.id = id :=
    fun id ⟨d, hd, ho, hid⟩ => ⟨d, hu.drafts d hd ho, ho, hid⟩
  cases st with
  | booking table => exact fun t ht => htab (hs t ht)
  | inserting r => exact ⟨htab hs.1, hs.2⟩
  | loaded row => exact fun l hl => ⟨hload l (hs l hl).1, (hs l hl).2⟩
  | updating l ch => exact ⟨hload l hs.1, hs.2⟩
  | checking id todo => exact ⟨hdraft id hs.1, htab hs.2.1, htodo todo hs.2.2⟩
  | committing id => exact ⟨hdraft id hs.1, htab hs.2⟩
  | saved id => exact hu.rows id hs
  | reloading id cs => exact ⟨hu.rows id hs.1, hs.2⟩
  | reloaded row => exact ⟨hs.choose, hs.choose_spec.1, hload _ hs.choose_spec.2⟩
  | filling todo => exact htodo todo hs
  | _ => exact hs

/-- **A legal effect keeps the store sound and its history complete.** -/
theorem store_apply (h : Inv env init w) (hl : Legal env w i req e) :
    Store.Sound reservations (w.apply i e).store ∧
      Store.Tracked reservations init (w.apply i e).store := by
  cases e with
  | write before row => exact ⟨h.sound.write hl.1, h.tracked.linked, h.tracked.growing⟩
  | pass id =>
    obtain ⟨d, hd, -, rfl, hb, hv⟩ := hl
    exact ⟨h.sound.pass hd hb hv, h.tracked.linked, h.tracked.growing⟩
  | commit => exact ⟨h.sound.commit hl, h.tracked.commit h.sound i⟩
  | abort => exact ⟨h.sound.abort i, h.tracked.linked, h.tracked.growing⟩
  | _ => exact ⟨h.sound, h.tracked⟩

theorem nextId_le_apply : w.nextId ≤ (w.apply i e).nextId := by
  cases e with
  | write before row => exact Nat.le_add_right _ _
  | _ => exact Nat.le_refl _

/-- A committed row is an old one or one the task had in progress. -/
theorem mem_apply_rows {r : Reservation} (hr : r ∈ (w.apply i e).store.rows) :
    r ∈ w.store.rows ∨ ∃ d ∈ w.store.drafts, d.owner = i ∧ d.row = r := by
  cases e with
  | commit =>
    rcases Store.mem_seen.mp hr with ⟨hr, -⟩ | hd
    · exact Or.inl hr
    · exact Or.inr hd
  | _ => exact Or.inl hr

end Effects

/-! ## One step keeps the invariant -/

section Advance

variable {env : Env} {init : List Reservation} {w : World} {i : Nat} {req : Request} {e : Effect}
  {st : Stage}

theorem advance_task_self {t : Task} (ht : w.tasks[i]? = some t) :
    (w.advance i req e st).tasks[i]? = some ⟨req, st⟩ := by
  have hlt : i < w.tasks.length := (List.getElem?_eq_some_iff.mp ht).1
  show (w.tasks.set i ⟨req, st⟩)[i]? = _
  rw [List.getElem?_set_self hlt]

theorem advance_task_ne {j : Nat} (hj : j ≠ i) :
    (w.advance i req e st).tasks[j]? = w.tasks[j]? :=
  List.getElem?_set_ne fun h => hj h.symm

/-- A task of the next world: the one that moved, or an old one. -/
theorem task_of_advance {j : Nat} {t : Task} (h : (w.advance i req e st).tasks[j]? = some t) :
    (j = i ∧ t = ⟨req, st⟩) ∨ (j ≠ i ∧ w.tasks[j]? = some t) := slot_of_set h

theorem mem_tasks_advance {t : Task} (h : t ∈ (w.advance i req e st).tasks) :
    t ∈ w.tasks ∨ t = ⟨req, st⟩ := List.mem_or_eq_of_mem_set h

/-- A count of tasks does not change when the moving task counts as before. -/
theorem countP_advance {t : Task} (ht : w.tasks[i]? = some t) {p : Task → Bool}
    (hp : p ⟨req, st⟩ = p t) : (w.advance i req e st).tasks.countP p = w.tasks.countP p := by
  obtain ⟨hi, rfl⟩ := List.getElem?_eq_some_iff.mp ht
  show (w.tasks.set i ⟨req, st⟩).countP p = _
  rw [List.countP_set hi, hp]
  cases hc : p w.tasks[i] with
  | false => simp
  | true =>
    have : 0 < w.tasks.countP p := List.countP_pos_iff.mpr ⟨_, List.getElem_mem hi, hc⟩
    simp only [if_true]
    omega

/-- It grows by one when the moving task begins to count. -/
theorem countP_advance_succ {t : Task} (ht : w.tasks[i]? = some t) {p : Task → Bool}
    (hold : p t = false) (hnew : p ⟨req, st⟩ = true) :
    (w.advance i req e st).tasks.countP p = w.tasks.countP p + 1 := by
  obtain ⟨hi, rfl⟩ := List.getElem?_eq_some_iff.mp ht
  show (w.tasks.set i ⟨req, st⟩).countP p = _
  rw [List.countP_set hi, hold, hnew]
  simp

/-- No request is ever replaced. -/
theorem advance_request (e : Effect) (st : Stage) {t : Task} (ht : w.tasks[i]? = some t)
    (hreq : t.request = req) {j : Nat} {t' : Task} (ht' : w.tasks[j]? = some t') :
    ∃ t'', (w.advance i req e st).tasks[j]? = some t'' ∧ t''.request = t'.request := by
  by_cases hj : j = i
  · subst hj
    obtain rfl := Option.some.inj (ht.symm.trans ht')
    exact ⟨_, advance_task_self ht, hreq.symm⟩
  · exact ⟨t', (advance_task_ne hj).trans ht', rfl⟩

/-- A change that the effect commits was in progress. -/
theorem made_advance (h : Inv env init w) {t : Task} (ht : w.tasks[i]? = some t)
    (hreq : t.request = req) : ∀ en ∈ (w.apply i e).store.history,
      ∃ t', (w.advance i req e st).tasks[en.owner]? = some t' ∧
        Made env t'.request en.before en.after := by
  have old : ∀ en ∈ w.store.history, ∃ t', (w.advance i req e st).tasks[en.owner]? = some t' ∧
      Made env t'.request en.before en.after := by
    intro en hen
    obtain ⟨t', ht', hmade⟩ := h.made en hen
    obtain ⟨t'', ht'', hr⟩ := advance_request e st ht hreq ht'
    exact ⟨t'', ht'', hr ▸ hmade⟩
  intro en hen
  cases e with
  | commit =>
    rcases Store.mem_commit_history.mp hen with hen | ⟨d, hd, ho, rfl⟩
    · exact old en hen
    · obtain ⟨t', ht', hmade, -⟩ := h.writers d hd
      obtain ⟨t'', ht'', hr⟩ := advance_request .commit st ht hreq ht'
      exact ⟨t'', ht'', hr ▸ hmade⟩
  | _ => exact old en hen

/-- Every row version in progress still has its writer. -/
theorem writers_advance (h : Inv env init w) {t : Task} (ht : w.tasks[i]? = some t)
    (hreq : t.request = req) (hl : Legal env w i req e)
    (hwrites : ∀ d ∈ (w.apply i e).store.drafts, d.owner = i → Writes req st d) :
    ∀ d ∈ (w.apply i e).store.drafts, ∃ t', (w.advance i req e st).tasks[d.owner]? = some t' ∧
      Made env t'.request d.before d.row ∧ Writes t'.request t'.stage d := by
  intro d hd
  by_cases ho : d.owner = i
  · refine ⟨⟨req, st⟩, ?_, ?_, hwrites d hd ho⟩
    · rw [ho]
      exact advance_task_self ht
    · rcases mem_apply_drafts hd with ⟨d₀, hd₀, ho₀, hb, hr⟩ | ⟨before, row, rfl, rfl⟩
      · obtain ⟨t', ht', hmade, -⟩ := h.writers d₀ hd₀
        rw [← ho₀, ho] at ht'
        obtain rfl := Option.some.inj (ht.symm.trans ht')
        rw [hb, hr, ← hreq]
        exact hmade
      · exact hl.2.2.2.2
  · obtain ⟨t', ht', hrest⟩ := h.writers d ((mem_apply_other h hl ho).mp hd)
    exact ⟨t', (advance_task_ne ho).trans ht', hrest⟩

/-- **The step rule**: a legal effect keeps the invariant if the task's new stage fits what the
    task has in progress, what it has locked, and the world. -/
theorem Inv.advance (h : Inv env init w) {t : Task} (ht : w.tasks[i]? = some t)
    (hreq : t.request = req) (hl : Legal env w i req e)
    (hstage : StageOk env init (w.apply i e) i req st)
    (hwrites : ∀ d ∈ (w.apply i e).store.drafts, d.owner = i → Writes req st d)
    (hholds : ∀ res, (res, i) ∈ (w.apply i e).locks → Holds req st res) :
    Inv env init (w.advance i req e st) where
  sound := (store_apply h hl).1
  tracked := (store_apply h hl).2
  rowIds := by
    intro r hr
    refine Nat.lt_of_lt_of_le ?_ (nextId_le_apply (i := i) (e := e))
    rcases mem_apply_rows hr with hr | ⟨d, hd, -, rfl⟩
    · exact h.rowIds r hr
    · exact h.draftIds d hd
  draftIds := by
    intro d hd
    rcases mem_apply_drafts hd with ⟨d₀, hd₀, -, -, hr⟩ | ⟨before, row, rfl, rfl⟩
    · rw [hr]
      exact Nat.lt_of_lt_of_le (h.draftIds d₀ hd₀) (nextId_le_apply (i := i) (e := e))
    · exact hl.2.2.1
  rowsOk := by
    intro r hr
    rcases mem_apply_rows hr with hr | ⟨d, hd, -, rfl⟩
    · exact h.rowsOk r hr
    · exact h.draftsOk d hd
  draftsOk := by
    intro d hd
    rcases mem_apply_drafts hd with ⟨d₀, hd₀, -, -, hr⟩ | ⟨before, row, rfl, rfl⟩
    · rw [hr]
      exact h.draftsOk d₀ hd₀
    · exact hl.2.1
  fits := by
    cases e with
    | setPhase p => exact hl
    | _ => exact h.fits
  writers := writers_advance h ht hreq hl hwrites
  made := made_advance h ht hreq
  holders := by
    rintro ⟨res, j⟩ hmem
    by_cases hj : j = i
    · subst hj
      exact ⟨_, advance_task_self ht, hholds res hmem⟩
    · obtain ⟨t', ht', hh⟩ := h.holders (res, j) ((mem_locks_other hj).mp hmem)
      exact ⟨t', (advance_task_ne hj).trans ht', hh⟩
  locksOnce := locksOnce_apply h hl
  rowLocks := fun _ _ hmem => rowLocks_apply h hl hmem
  stages := by
    intro j t' ht'
    by_cases hj : j = i
    · subst hj
      rw [advance_task_self ht] at ht'
      obtain rfl := Option.some.inj ht'
      exact hstage
    · rw [advance_task_ne hj] at ht'
      exact (h.stages j t' ht').mono (unharmed h hl hj)

/-- A stretch without an effect, outside of any transaction. -/
theorem Inv.advance_plain (h : Inv env init w) {t : Task} (ht : w.tasks[i]? = some t)
    (hw : ∀ d, ¬ Writes t.request t.stage d) (hop : t.stage.open = false)
    (hstage : StageOk env init w i t.request st) :
    Inv env init (w.advance i t.request .none st) :=
  h.advance ht rfl trivial hstage (fun d hd ho => absurd ho (h.no_draft ht hw d hd))
    fun res hres => absurd hres (h.no_lock ht hop res)

/-- The beginning of a transaction: the task takes its locks. -/
theorem Inv.advance_lock (h : Inv env init w) {t : Task} (ht : w.tasks[i]? = some t)
    {rs : List Resource} (hop : t.stage.open = false) (hw : ∀ d, ¬ Writes t.request t.stage d)
    (hl : Legal env w i t.request (.lock rs))
    (hstage : StageOk env init (w.apply i (.lock rs)) i t.request st)
    (hholds : ∀ res ∈ rs, Holds t.request st res) :
    Inv env init (w.advance i t.request (.lock rs) st) := by
  refine h.advance ht rfl hl hstage (fun d hd ho => absurd ho (h.no_draft ht hw d hd))
    fun res hres => ?_
  rcases mem_apply_locks hres with hold | ⟨rs', heq, hmem, -⟩
  · exact absurd hold (h.no_lock ht hop res)
  · obtain rfl := Effect.lock.inj heq
    exact hholds res hmem

/-- The end of a transaction: nothing of the task is left in progress or locked. -/
theorem Inv.advance_end (h : Inv env init w) {t : Task} (ht : w.tasks[i]? = some t)
    (he : e = .commit ∨ e = .abort) (hl : Legal env w i t.request e)
    (hstage : StageOk env init (w.apply i e) i t.request st) :
    Inv env init (w.advance i t.request e st) := by
  refine h.advance ht rfl hl hstage (fun d hd ho => absurd ho ?_) fun res hres => absurd hres ?_
  · rcases he with rfl | rfl
    · exact (Store.mem_commit.mp hd).2
    · exact (Store.mem_abort.mp hd).2
  · rcases he with rfl | rfl <;> simp [World.apply]

theorem Inv.advance_abort (h : Inv env init w) {t : Task} (ht : w.tasks[i]? = some t)
    (hstage : StageOk env init (w.apply i .abort) i t.request st) :
    Inv env init (w.advance i t.request .abort st) :=
  h.advance_end ht (Or.inr rfl) trivial hstage

/-- What a task has in progress, read off its stage. -/
theorem Inv.writes (h : Inv env init w) {t : Task} (ht : w.tasks[i]? = some t)
    {d : Draft Reservation} (hd : d ∈ w.store.drafts) (ho : d.owner = i) :
    Made env t.request d.before d.row ∧ Writes t.request t.stage d := by
  obtain ⟨t', ht', hrest⟩ := h.writers d hd
  rw [ho] at ht'
  obtain rfl := Option.some.inj (ht.symm.trans ht')
  exact hrest

/-- **A booking with a row version in progress holds the lock of its table.** -/
theorem Inv.booking_locks (h : Inv env init w) {t : Task} (ht : w.tasks[i]? = some t) {user : User}
    {body : ReservationCreate} (hreq : t.request = .post user body) {d : Draft Reservation}
    (hd : d ∈ w.store.drafts) (ho : d.owner = i) :
    (Resource.table body.restaurantTableId, i) ∈ w.locks := by
  have hw := (h.writes ht hd ho).2
  have hs := h.stages i t ht
  obtain ⟨req, st⟩ := t
  obtain rfl : req = .post user body := hreq
  cases st with
  | checking id todo => exact hs.2.1 user body rfl
  | committing id => exact hs.2 user body rfl
  | filling todo => exact absurd hw.2 (by simp [Request.onReservation])
  | _ => exact absurd hw (fun x => x)

theorem Inv.holds (h : Inv env init w) {t : Task} (ht : w.tasks[i]? = some t) {res : Resource}
    (hres : (res, i) ∈ w.locks) : Holds t.request t.stage res := by
  obtain ⟨t', ht', hrest⟩ := h.holders (res, i) hres
  obtain rfl := Option.some.inj (ht.symm.trans ht')
  exact hrest

/-- A task that stays in its transaction keeps its locks. -/
theorem Holds.mono {st st' : Stage} {res : Resource} (hh : Holds req st res)
    (hop : st'.open = true) : Holds req st' res := ⟨hop, hh.2⟩

/-- A row that a SELECT has just returned. -/
theorem loadedOk_select (h : Inv env init w) {cs : List Column} (hcs : Columns env cs) {id : Nat}
    {l : Loaded} (hl : selectReservations cs w.store.rows id = some l) :
    LoadedOk env init w l ∧ l.row.id = id := by
  obtain ⟨r, hr, rfl⟩ := Option.map_eq_some_iff.mp hl
  have hid : r.id = id := (Store.lookup_some hr).2
  subst hid
  exact ⟨⟨hcs, h.tracked.lookup_mem_versions hr⟩, rfl⟩

/-- **All versions of a row have its window**: they can all be loaded, or none of them. -/
theorem loads_of_version (h : Inv env init w) {k : Nat} {r r' : Reservation}
    (hr : r ∈ Store.versionsOf reservations init w.store k)
    (hr' : Store.lookup reservations w.store.rows k = some r') : loads r' = loads r := by
  refine (h.tracked.linked k).last_of (P := fun x => loads x = loads r) ?_ ⟨r, hr, rfl⟩ r' hr'
  intro e he b hb hP
  obtain ⟨t, -, hmade⟩ := h.made e (List.mem_filter.mp he).1
  rw [hb] at hmade
  obtain ⟨-, -, hstart, hend⟩ := hmade.place
  rw [← hP]
  unfold loads
  rw [hstart, hend]

theorem loadError_of_version (h : Inv env init w) {k : Nat} {r : Reservation}
    (hr : r ∈ Store.versionsOf reservations init w.store k) (hl : loads r = true) :
    loadError w.store.rows k = none :=
  loadError_eq_none.mpr fun _ hr' => (loads_of_version h hr hr').trans hl

/-- The transaction writes its first row version and goes on to check it. -/
theorem Inv.advance_write (h : Inv env init w) {t : Task} (ht : w.tasks[i]? = some t)
    {before : Option Reservation} {row : Reservation} {todo : List (Nat × Text × Text)}
    (hl : Legal env w i t.request (.write before row))
    (hold : ∀ d ∈ w.store.drafts, d.owner = i → d.passed = true ∧ t.request.onReservation = false)
    (hlocks : ∀ res, (res, i) ∈ w.locks → Holds t.request t.stage res)
    (htab : TableLocked w i t.request) (htodo : TodoOk w i todo) :
    Inv env init (w.advance i t.request (.write before row) (.checking row.id todo)) := by
  refine h.advance ht rfl hl ⟨?_, htab, htodo⟩ ?_ fun res hres => (hlocks res hres).mono rfl
  · exact ⟨_, List.mem_append_right _ (List.mem_singleton.mpr rfl), rfl, rfl⟩
  · intro d hd ho
    rcases List.mem_append.mp hd with hd | hd
    · refine Or.inr ⟨fun hid => ?_, hold d hd ho⟩
      -- the keys of the drafts are distinct
      have hnd := hl.1.keys
      rw [List.map_append, List.nodup_append] at hnd
      exact hnd.2.2 _ (List.mem_map.mpr ⟨d, hd, rfl⟩) _ (List.mem_singleton.mpr rfl) hid
    · obtain rfl := List.mem_singleton.mp hd
      exact Or.inl ⟨rfl, rfl⟩

/-- The row version passes its check. -/
theorem Inv.advance_pass (h : Inv env init w) {t : Task} (ht : w.tasks[i]? = some t) {id : Nat}
    {todo : List (Nat × Text × Text)} (hst : t.stage = .checking id todo)
    (hl : Legal env w i t.request (.pass id)) :
    Inv env init (w.advance i t.request (.pass id) (t.request.afterCheck id todo)) := by
  have hs := h.stages i t ht
  rw [hst] at hs
  obtain ⟨⟨d₀, hd₀, ho₀, hid₀⟩, htab, htodo⟩ := hs
  have hmark : ∀ d ∈ (w.apply i (.pass id)).store.drafts, d.owner = i →
      d.passed = true ∧ (d.row.id = id ∨ t.request.onReservation = false) := by
    intro d hd ho
    obtain ⟨d', hd', rfl⟩ := List.mem_map.mp hd
    by_cases hk : reservations.key d'.row = id
    · rw [if_pos hk]
      exact ⟨rfl, Or.inl hk⟩
    · rw [if_neg hk] at ho ⊢
      have hw := (h.writes ht hd' ho).2
      rw [hst] at hw
      rcases hw with ⟨hid, -⟩ | ⟨-, hp, hreq⟩
      · exact absurd hid hk
      · exact ⟨hp, Or.inr hreq⟩
  have hmem : ∃ d ∈ (w.apply i (.pass id)).store.drafts, d.owner = i ∧ d.row.id = id := by
    refine ⟨_, List.mem_map.mpr ⟨d₀, hd₀, rfl⟩, ?_⟩
    split
    · exact ⟨ho₀, hid₀⟩
    · exact ⟨ho₀, hid₀⟩
  have hlocks : ∀ res, (res, i) ∈ w.locks → Holds t.request t.stage res :=
    fun res hres => h.holds ht hres
  unfold Request.afterCheck
  split
  · next hreq =>
    refine h.advance ht rfl hl ⟨hmem, htab⟩ (fun d hd ho => ?_)
      fun res hres => (hlocks res hres).mono rfl
    obtain ⟨hp, hid⟩ := hmark d hd ho
    rcases hid with hid | hno
    · exact ⟨hid, hp⟩
    · rw [hreq] at hno
      exact absurd hno (by decide)
  · next hreq =>
    refine h.advance ht rfl hl htodo (fun d hd ho => ?_)
      fun res hres => (hlocks res hres).mono rfl
    exact ⟨(hmark d hd ho).1, by simpa using hreq⟩

/-- **Every stretch of a task keeps the invariant.** -/
theorem Inv.act (h : Inv env init w) {t : Task} (ht : w.tasks[i]? = some t)
    (ha : Act env w i t.request t.stage e st) : Inv env init (w.advance i t.request e st) := by
  have hl := legal_of_act h ht ha
  have hs := h.stages i t ht
  have hlocks : ∀ res, (res, i) ∈ w.locks → Holds t.request t.stage res :=
    fun res hres => h.holds ht hres
  have hwrites : ∀ d ∈ w.store.drafts, d.owner = i → Writes t.request t.stage d :=
    fun d hd ho => (h.writes ht hd ho).2
  obtain ⟨req, st₀⟩ := t
  have plain : ∀ {st'}, (∀ d, ¬ Writes req st₀ d) → st₀.open = false →
      StageOk env init w i req st' → Inv env init (w.advance i req .none st') :=
    fun hw hop hst => h.advance_plain ht hw hop hst
  cases ha with
  -- a booking
  | badTableId _ => exact plain (fun _ hd => hd) rfl trivial
  | noTable _ _ => exact plain (fun _ hd => hd) rfl fun t ht => absurd ht (by simp)
  | @lockTable user body tab hid htab hfree =>
    have htid : tab.id = body.restaurantTableId := by simpa using List.find?_some htab
    refine h.advance_lock ht rfl (fun d hd => hd) hl ?_ fun res hres => ?_
    · intro t _ user' body' hreq
      obtain ⟨-, rfl⟩ := Request.post.inj hreq
      rw [← htid]
      exact List.mem_append_right _ (List.mem_singleton.mpr rfl)
    · obtain rfl := List.mem_singleton.mp hres
      exact ⟨rfl, htid⟩
  | refuseBooking _ => exact h.advance_abort ht trivial
  | @prepare user body table tab hok =>
    obtain ⟨rfl, -⟩ := bookingChecks_ok hok
    refine h.advance ht rfl hl ⟨hs _ rfl, user, body, w.phase, rfl, h.fits, rfl⟩
      (fun d hd ho => hwrites d hd ho) fun res hres => (hlocks res hres).mono rfl
  | insertFails _ => exact h.advance_abort ht trivial
  | insert _ =>
    exact h.advance_write ht hl (fun d hd ho => absurd (hwrites d hd ho) (fun x => x)) hlocks hs.1
      fun x hx => absurd hx (List.not_mem_nil)
  -- GET, PATCH and DELETE of one reservation
  | select => exact plain (fun _ hd => hd) rfl ⟨w.phase, h.fits, rfl⟩
  | selectFails _ => exact plain (fun _ hd => hd) rfl trivial
  | selectRow _ =>
    refine plain (fun _ hd => hd) rfl fun l hl => ?_
    obtain ⟨hload, hid⟩ := loadedOk_select h hs hl
    refine ⟨hload, fun user' id' op' hreq => ?_⟩
    obtain ⟨-, rfl, -⟩ := Request.onOne.inj hreq
    exact hid
  | refuseLoad _ => exact plain (fun _ hd => hd) rfl trivial
  | respondGet _ _ => exact plain (fun _ hd => hd) rfl trivial
  | refuseVersion _ _ _ => exact plain (fun _ hd => hd) rfl trivial
  | noChange hload _ _ _ =>
    obtain ⟨hrow, -⟩ := hs _ (loadOwned_ok hload)
    exact plain (fun _ hd => hd) rfl (h.tracked.exists_row hrow.2)
  | unsendable _ _ _ _ _ => exact plain (fun _ hd => hd) rfl trivial
  | change hload hop hm hne _ =>
    obtain ⟨hrow, hid⟩ := hs _ (loadOwned_ok hload)
    obtain rfl := hid _ _ _ rfl
    exact plain (fun _ hd => hd) rfl
      ⟨hrow, _, _, w.phase, _, rfl, h.fits, hop, hm, hne, rfl⟩
  | staleRow _ _ => exact h.advance_abort ht trivial
  | updateFails _ _ _ _ => exact h.advance_abort ht trivial
  | update _ _ _ _ =>
    have htodo : TodoOk w i [] := fun x hx => absurd hx (List.not_mem_nil)
    have := h.advance_write ht hl (fun d hd ho => absurd (hwrites d hd ho) (fun x => x)) hlocks
      (fun _ _ hreq => absurd hreq (by simp)) htodo
    rwa [apply_id] at this
  -- the constraint, the commit and the answer, the same for all of them
  | violated _ _ _ => exact h.advance_abort ht trivial
  | pass _ _ _ => exact h.advance_pass ht rfl hl
  | commit _ =>
    refine h.advance_end ht (Or.inl rfl) hl ?_
    obtain ⟨⟨d, hd, ho, hid⟩, -⟩ := hs
    exact ⟨d.row, Store.mem_seen.mpr (Or.inr ⟨d, hd, ho, rfl⟩), hid⟩
  | reload _ => exact plain (fun _ hd => hd) rfl ⟨hs, w.phase, h.fits, rfl⟩
  | reloadFails _ _ => exact plain (fun _ hd => hd) rfl trivial
  | @reloadRow _ _ cs _ _ =>
    obtain ⟨⟨r, hr, rfl⟩, hcs⟩ := hs
    have hsel : selectReservations cs w.store.rows r.id = some ⟨r, cs⟩ := by
      unfold selectReservations
      rw [show Store.lookup reservations w.store.rows r.id = some r from
        Store.lookup_mem h.sound.keys hr]
      rfl
    rw [hsel]
    exact plain (fun _ hd => hd) rfl ⟨_, rfl, (loadedOk_select h hcs hsel).1⟩
  | noRow _ => exact plain (fun _ hd => hd) rfl trivial
  | respondSaved _ => exact plain (fun _ hd => hd) rfl trivial
  -- the list
  | listSelect => exact plain (fun _ hd => hd) rfl ⟨w.phase, h.fits, rfl⟩
  | listFails _ => exact plain (fun _ hd => hd) rfl trivial
  | listRows _ =>
    refine plain (fun _ hd => hd) rfl fun x hx => ?_
    rw [(mem_selectMyBookings hx).1]
    exact hs
  | listRespond => exact plain (fun _ hd => hd) rfl trivial
  -- the phase change: the guard has seen that the phase fits
  | countAwaiting => exact plain (fun _ hd => hd) rfl trivial
  | countMissing => exact plain (fun _ hd => hd) rfl trivial
  | refusePhase _ => exact plain (fun _ hd => hd) rfl trivial
  | acceptPhase hok =>
    refine plain (fun _ hd => hd) rfl fun target hreq => ?_
    obtain rfl := Request.put.inj hreq
    exact fits_of_refusal hok
  | setPhase =>
    exact h.advance ht rfl hl trivial (fun d hd ho => hwrites d hd ho)
      fun res hres => absurd hres (h.no_lock ht rfl res)
  -- a batch: what it has locked stays as it was selected
  | batchFails _ => exact plain (fun _ hd => hd) rfl trivial
  | batchSelect _ =>
    refine h.advance_lock ht rfl (fun d hd => hd) hl ?_ fun res hres => ?_
    · intro x hx
      obtain ⟨r, hr, rfl⟩ := List.mem_map.mp hx
      refine ⟨List.mem_append_right _ (List.mem_map.mpr ⟨_, List.mem_map.mpr ⟨r, hr, rfl⟩, rfl⟩),
        fun r' hr' => ?_⟩
      have hrow : Store.lookup reservations w.store.rows r.id = some r :=
        Store.lookup_mem h.sound.keys (mem_batchRows hr).1
      obtain rfl := Option.some.inj (hrow.symm.trans hr')
      rfl
    · obtain ⟨r, -, rfl⟩ := List.mem_map.mp hres
      exact ⟨rfl, trivial⟩
  | batchCommit => exact h.advance_end ht (Or.inl rfl) hl trivial
  | fillSkip _ =>
    exact h.advance ht rfl hl (fun x hx => hs x (List.mem_cons_of_mem _ hx))
      (fun d hd ho => hwrites d hd ho) fun res hres => (hlocks res hres).mono rfl
  | fillRow _ _ =>
    have := h.advance_write ht hl (fun d hd ho => hwrites d hd ho) hlocks
      (fun _ _ hreq => absurd hreq (by simp)) fun x hx => hs x (List.mem_cons_of_mem _ hx)
    exact this

end Advance

/-! ## What every change satisfies -/

/-- Every change, committed or in progress, satisfies `Q` of its request and its two rows. -/
structure Written (Q : Request → Option Reservation → Reservation → Prop) (w : World) : Prop where
  history : ∀ e ∈ w.store.history, ∀ t, w.tasks[e.owner]? = some t → Q t.request e.before e.after
  drafts : ∀ d ∈ w.store.drafts, ∀ t, w.tasks[d.owner]? = some t → Q t.request d.before d.row

section Changes

variable {env : Env} {init : List Reservation} {w : World} {i : Nat}
  {Q : Request → Option Reservation → Reservation → Prop}

theorem Written.start {phase : Phase} {rows : List Reservation} {nextId clock : Nat} :
    Written Q (.start phase rows nextId clock) :=
  ⟨fun _ he => absurd he (List.not_mem_nil), fun _ hd => absurd hd (List.not_mem_nil)⟩

/-- The request behind a number is the same before and after a stretch. -/
theorem request_before {e : Effect} {st : Stage} {t : Task} (ht : w.tasks[i]? = some t) {j : Nat}
    {t' : Task} (ht' : (w.advance i t.request e st).tasks[j]? = some t') :
    ∃ t'', w.tasks[j]? = some t'' ∧ t''.request = t'.request := by
  rcases task_of_advance ht' with ⟨rfl, rfl⟩ | ⟨-, ht'⟩
  · exact ⟨t, ht, rfl⟩
  · exact ⟨t', ht', rfl⟩

/-- **What a stretch writes satisfies `Q`, so does every change after it.** -/
theorem Written.act (h : Written Q w) {t : Task}
    (ht : w.tasks[i]? = some t) {e : Effect} {st : Stage}
    (ha : Act env w i t.request t.stage e st)
    (hwrite : ∀ before row, e = .write before row → Q t.request before row) :
    Written Q (w.advance i t.request e st) where
  history := by
    intro en hen t' ht'
    obtain ⟨t'', ht'', hreq⟩ := request_before ht ht'
    rw [← hreq]
    cases e with
    | commit =>
      rcases Store.mem_commit_history.mp hen with hen | ⟨d, hd, -, rfl⟩
      · exact h.history en hen t'' ht''
      · exact h.drafts d hd t'' ht''
    | _ => exact h.history en hen t'' ht''
  drafts := by
    intro d hd t' ht'
    obtain ⟨t'', ht'', hreq⟩ := request_before ht ht'
    rw [← hreq]
    rcases mem_apply_drafts hd with ⟨d₀, hd₀, ho, hb, hr⟩ | ⟨before, row, rfl, rfl⟩
    · rw [hb, hr]
      exact h.drafts d₀ hd₀ t'' (by rw [← ho]; exact ht'')
    · obtain rfl := Option.some.inj (ht.symm.trans ht'')
      exact hwrite before row rfl

/-- A victim ends without having changed anything. -/
theorem Written.abort (h : Written Q w) {t : Task} (ht : w.tasks[i]? = some t) (a : Answer) :
    Written Q (w.advance i t.request .abort (.done a)) := by
  refine ⟨fun e he t' ht' => ?_, fun d hd t' ht' => ?_⟩
  · obtain ⟨t'', ht'', hreq⟩ := request_before ht ht'
    rw [← hreq]
    exact h.history e he t'' ht''
  · obtain ⟨t'', ht'', hreq⟩ := request_before ht ht'
    rw [← hreq]
    exact h.drafts d (Store.mem_abort.mp hd).1 t'' ht''

theorem Written.arrive (h : Written Q w) (hinv : Inv env init w) (req : Request) :
    Written Q { w with tasks := w.tasks ++ [⟨req, .arrived⟩] } := by
  have old : ∀ {j : Nat} {t t₀ : Task}, (w.tasks ++ [⟨req, .arrived⟩])[j]? = some t →
      w.tasks[j]? = some t₀ → w.tasks[j]? = some t := by
    intro j t t₀ ht ht₀
    rw [List.getElem?_append_left (List.getElem?_eq_some_iff.mp ht₀).1] at ht
    exact ht
  refine ⟨fun e he t ht => ?_, fun d hd t ht => ?_⟩
  · obtain ⟨t₀, ht₀, -⟩ := hinv.made e he
    exact h.history e he t (old ht ht₀)
  · obtain ⟨t₀, ht₀, -⟩ := hinv.writers d hd
    exact h.drafts d hd t (old ht ht₀)

end Changes

/-! ## Every reachable world -/

/-- Where a run may start: a phase the schema fits, rows the table takes, and a sequence and a
    transaction counter that are ahead of them. -/
structure Ready (env : Env) (phase : Phase) (rows : List Reservation) (nextId clock : Nat) :
    Prop where
  fits : Fits env.schema phase
  keys : (rows.map Reservation.id).Nodup
  ids : ∀ r ∈ rows, r.id < nextId
  versions : ∀ r ∈ rows, r.version < clock
  ok : ∀ r ∈ rows, RowOk env.schema r
  apart : ∀ a ∈ rows, ∀ b ∈ rows, a.id ≠ b.id → doubleBooking a b = false

/-- The small restaurant can start without reservations, in any phase. -/
theorem sample_ready (p : Phase) : Ready sample p [] 1 1 where
  fits := sample_fits p
  keys := List.nodup_nil
  ids := fun _ hr => absurd hr (List.not_mem_nil)
  versions := fun _ hr => absurd hr (List.not_mem_nil)
  ok := fun _ hr => absurd hr (List.not_mem_nil)
  apart := fun _ hr => absurd hr (List.not_mem_nil)

section Reachable

variable {env : Env} {phase : Phase} {rows : List Reservation} {nextId clock : Nat}

theorem Ready.inv (h : Ready env phase rows nextId clock) :
    Inv env rows (.start phase rows nextId clock) where
  sound := Store.Sound.of_rows rfl h.keys h.versions h.apart
  tracked :=
    show Store.Tracked reservations (World.start phase rows nextId clock).store.rows _ from
      Store.Tracked.start rfl
  rowIds := h.ids
  draftIds := fun d hd => absurd hd (List.not_mem_nil)
  rowsOk := h.ok
  draftsOk := fun d hd => absurd hd (List.not_mem_nil)
  fits := h.fits
  writers := fun d hd => absurd hd (List.not_mem_nil)
  made := fun e he => absurd he (List.not_mem_nil)
  holders := fun l hl => absurd hl (List.not_mem_nil)
  locksOnce := List.nodup_nil
  rowLocks := fun k i hi => absurd hi (List.not_mem_nil)
  stages := fun i t ht => absurd ht (by simp [World.start])

/-- A request arrives. -/
theorem Inv.arrive {init : List Reservation} {w : World} (h : Inv env init w) (req : Request) :
    Inv env init { w with tasks := w.tasks ++ [⟨req, .arrived⟩] } := by
  refine ⟨h.sound, h.tracked, h.rowIds, h.draftIds, h.rowsOk, h.draftsOk, h.fits, ?_, ?_, ?_,
    h.locksOnce, h.rowLocks, ?_⟩
  · intro d hd
    obtain ⟨t, ht, hrest⟩ := h.writers d hd
    exact ⟨t, slot_append ht _, hrest⟩
  · intro e he
    obtain ⟨t, ht, hrest⟩ := h.made e he
    exact ⟨t, slot_append ht _, hrest⟩
  · intro l hl
    obtain ⟨t, ht, hrest⟩ := h.holders l hl
    exact ⟨t, slot_append ht _, hrest⟩
  · intro i t ht
    have hu : Unharmed init w { w with tasks := w.tasks ++ [⟨req, .arrived⟩] } i :=
      ⟨fun _ h => h, fun _ h _ => h, fun _ h => h, fun _ _ h => h, fun _ _ => rfl⟩
    rcases slot_of_concat ht with ht | ⟨-, rfl⟩
    · exact (h.stages i t ht).mono hu
    · trivial

/-- **One step of the service keeps the invariant.** -/
theorem Inv.step {init : List Reservation} {w w' : World} {l : Label} (h : Inv env init w)
    (hst : (service env).step w l = some w') : Inv env init w' := by
  cases step_cases hst with
  | arrive req => exact h.arrive req
  | act ht ha _ => exact h.act ht ha
  | victim ht _ => exact h.advance_abort ht trivial

/-- **Every reachable world satisfies the invariant.** -/
theorem inv_of_reach {C : World → Label → Prop} {w : World}
    (hready : Ready env phase rows nextId clock)
    (hr : (service env).Reach C (.start phase rows nextId clock) w) : Inv env rows w :=
  hr.invariant hready.inv fun _ _ _ h _ hst => h.step hst

end Reachable

end TableFlow
