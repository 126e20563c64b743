/-
  Booking: no two reservations share a table at one time, and nobody is refused without cause.

  1. **No double booking** (`windows_disjoint`): in every reachable world the windows of two
     reservations of one table that are not cancelled have no moment in common.  This is
     `Sound.apart` read through the range operator.

  2. **No needless refusal** (`conflict_of_refused`): a booking is answered 409 only by the step
     that checks the exclusion constraint, and only if a committed reservation of the table, not
     cancelled, has a moment in common with its window AT THAT STEP.

  3. **A contest** (`Contest`): any number of bookings of one table whose windows pairwise
     intersect, on a slot that is free, among requests that leave the table alone.  The invariant
     (`Contest.Running`) has two phases: nobody has won, then no booking is committed and nobody is
     answered; or one booking is committed, and whoever is answered later finds it.  The change
     from the first to the second phase happens once, as a booking that has passed its check would
     clash with a committed one (`Sound.passedRow`).
-/
import TableFlow.Waiting

namespace TableFlow

open Lib

/-! ## No double booking -/

theorem windows_disjoint {env : Env} {init : List Reservation} {w : World} (h : Inv env init w)
    {a b : Reservation} (ha : a ∈ w.store.rows) (hb : b ∈ w.store.rows) (hne : a.id ≠ b.id)
    (hsa : a.status ≠ .cancelled) (hsb : b.status ≠ .cancelled)
    (htab : a.restaurantTableId = b.restaurantTableId) :
    Set.Ico a.startsAt a.endsAt ∩ Set.Ico b.startsAt b.endsAt = ∅ := by
  have hclash : doubleBooking a b = false := h.sound.apart a ha b hb hne
  rw [← Set.not_nonempty_iff_eq_empty, ← overlaps_iff]
  intro hov
  have : doubleBooking a b = true :=
    (doubleBooking_iff a b).mpr ⟨hsa, hsb, by simp [sameSlot, htab, hov]⟩
  rw [hclash] at this
  exact absurd this (by decide)

/-! ## No needless refusal -/

section Refusal

variable {env : Env} {init : List Reservation} {w : World} {i : Nat}

theorem newReservation_slot (p : Phase) (user : User) (body : ReservationCreate) :
    (newReservation p user body).restaurantTableId = body.restaurantTableId ∧
      (newReservation p user body).startsAt = body.startsAt ∧
      (newReservation p user body).endsAt = body.endsAt ∧
      (newReservation p user body).status = .confirmed :=
  ⟨assignNames_restaurantTableId _ _, assignNames_startsAt _ _, assignNames_endsAt _ _,
    assignNames_status _ _⟩

/-- A row that clashes with a new booking has a moment in common with its window. -/
theorem clash_inserted {p : Phase} {user : User} {body : ReservationCreate} {id v : Nat}
    {r : Reservation} (hc : doubleBooking (inserted env (newReservation p user body) id v) r = true) :
    r.restaurantTableId = body.restaurantTableId ∧ r.status ≠ .cancelled ∧
      (Set.Ico r.startsAt r.endsAt ∩ Set.Ico body.startsAt body.endsAt).Nonempty := by
  obtain ⟨htab, hs, he, -⟩ := newReservation_slot p user body
  obtain ⟨-, hcr, hslot⟩ := (doubleBooking_iff _ _).mp hc
  obtain ⟨hteq, hov⟩ := Bool.and_eq_true_iff.mp hslot
  refine ⟨?_, hcr, ?_⟩
  · rw [← htab]
    exact (eq_of_beq hteq).symm
  · rw [Set.inter_comm, ← hs, ← he]
    exact (overlaps_iff _ _ _ _).mp hov

/-- **What a booking that fails its check has found**: a committed row in its way. -/
theorem conflict_of_violated (h : Inv env init w) {user : User} {body : ReservationCreate}
    {id : Nat} {todo : List (Nat × Text × Text)}
    (ht : w.tasks[i]? = some ⟨.post user body, .checking id todo⟩) {d : Draft Reservation}
    (hd : w.draft i id = some d) (hv : w.store.violated reservations d = true) :
    ∃ r ∈ w.store.rows, r.restaurantTableId = body.restaurantTableId ∧ r.status ≠ .cancelled ∧
      (Set.Ico r.startsAt r.endsAt ∩ Set.Ico body.startsAt body.endsAt).Nonempty := by
  obtain ⟨hmem, ho, hid⟩ := draft_some hd
  obtain ⟨-, p, id', v, -, hrow⟩ := (h.writes ht hmem ho).1
  obtain ⟨r, hr, hne, hc⟩ := Store.violated_iff.mp hv
  rcases Store.mem_seen.mp hr with ⟨hr, -⟩ | ⟨d', hd', ho', rfl⟩
  · rw [reservations_clash, hrow] at hc
    exact ⟨r, hr, clash_inserted hc⟩
  · exact absurd ((only_draft h ht rfl rfl hd' (ho'.trans ho)).1.trans hid.symm) hne

/-- An error of the row itself is never the exclusion constraint's. -/
theorem insertError_ne_exclusion {schema : Schema} {r : Reservation} :
    insertError schema r ≠ some .exclusionViolation := by
  unfold insertError undefinedColumn rowError
  dsimp only
  split
  · simp
  · intro h
    rcases Option.or_eq_some_iff.mp h with h | ⟨-, h⟩
    · obtain ⟨c, -, hc⟩ := Option.map_eq_some_iff.mp h
      exact absurd hc (by simp)
    · repeat' split at h
      all_goals exact absurd h (by simp)

/-- A booking whose INSERT fails for another reason is not answered 409. -/
theorem dbAnswer_post_409 {user : User} {body : ReservationCreate} {e : DbError}
    {x : HTTPException} (h : dbAnswer (.post user body) e = .refused x) (hx : x.status = 409) :
    e = .exclusionViolation := by
  unfold dbAnswer at h
  dsimp only at h
  split at h
  · obtain rfl := Answer.refused.inj h
    cases e with
    | exclusionViolation => rfl
    | _ => exact absurd hx (by simp [integrityAnswer])
  · exact absurd h (by simp)

theorem respond_ne_refused (p : Phase) (status : Nat) (l : Loaded) (x : HTTPException) :
    respond p status l ≠ .refused x := by
  unfold respond
  split <;> simp

/-- **A booking is answered 409 only when a committed reservation is in its way.** -/
theorem conflict_of_refused (h : Inv env init w) {user : User} {body : ReservationCreate}
    {st : Stage} (ht : w.tasks[i]? = some ⟨.post user body, st⟩) {e : Effect} {x : HTTPException}
    (ha : Act env w i (.post user body) st e (.done (.refused x))) (hx : x.status = 409) :
    ∃ r ∈ w.store.rows, r.restaurantTableId = body.restaurantTableId ∧ r.status ≠ .cancelled ∧
      (Set.Ico r.startsAt r.endsAt ∩ Set.Ico body.startsAt body.endsAt).Nonempty := by
  generalize hst' : Stage.done (.refused x) = st' at ha
  cases ha with
  | refuseBooking he =>
    obtain rfl := Answer.refused.inj (Stage.done.inj hst')
    rcases bookingChecks_error he with h4 | h4
    · exact absurd (h4.symm.trans hx) (by decide)
    · exact absurd (h4.symm.trans hx) (by decide)
  | insertFails he =>
    obtain rfl := dbAnswer_post_409 (Stage.done.inj hst').symm hx
    exact absurd he insertError_ne_exclusion
  | violated hd _ hv => exact conflict_of_violated h ht hd hv
  | respondSaved _ => exact absurd (Stage.done.inj hst').symm (respond_ne_refused _ _ _ _)
  | pass _ _ _ => exact absurd hst' (by simp [Request.afterCheck, Request.onReservation])
  | _ => simp at hst'

end Refusal

/-! ## A contest for one slot -/

/-- Requests with this window and table are made while the slot is free. -/
structure Contest (env : Env) (init : List Reservation) where
  table : RestaurantTable
  rival : ReservationCreate → Prop
  known : env.table table.id = some table
  sendable : fitsBigint table.id = true
  /-- A rival books the table, passes its checks, the driver sends its name, and loads its instants
      again. -/
  checks : ∀ b, rival b → b.restaurantTableId = table.id ∧
    bookingChecks (some table) b = .ok table ∧ storable b.guestName = true ∧
    fitsTimestamp b.startsAt = true ∧ fitsTimestamp b.endsAt = true
  intersect : ∀ a b, rival a → rival b →
    (Set.Ico a.startsAt a.endsAt ∩ Set.Ico b.startsAt b.endsAt).Nonempty
  free : ∀ r ∈ init, r.restaurantTableId = table.id → r.status ≠ .cancelled → ∀ b, rival b →
    Set.Ico r.startsAt r.endsAt ∩ Set.Ico b.startsAt b.endsAt = ∅

namespace Contest

variable {env : Env} {init : List Reservation} (K : Contest env init)

/-- What may arrive during the contest: rivals, and requests that leave the table alone. -/
def Admits : Request → Prop
  | .post _ body => body.restaurantTableId = K.table.id → K.rival body
  | .onOne _ id op => op = .get ∨ ∃ r ∈ init, r.id = id ∧ r.restaurantTableId ≠ K.table.id
  | .list _ _ => True
  | .put _ => False
  | .batch _ _ => False

/-- Every arriving request is admitted. -/
def Fair (_ : World) (l : Label) : Prop := ∀ req, l = .arrive req → K.Admits req

/-- The task is a booking of the contested table. -/
def isRival (t : Task) : Bool :=
  match t.request with
  | .post _ body => body.restaurantTableId == K.table.id
  | _ => false

/-- The task is a booking that is committed. -/
def won (t : Task) : Bool :=
  K.isRival t &&
  match t.stage with
  | .saved _ | .reloading _ _ | .reloaded _ => true
  | .done a => a.status == 201
  | _ => false

/-- The row is a rival's booking. -/
def Booked (phase : Phase) (r : Reservation) : Prop :=
  ∃ user body id v, K.rival body ∧ r = inserted env (newReservation phase user body) id v

/-- The data of a rival's stage. -/
def RivalOk (phase : Phase) (w : World) : Stage → Prop
  | .booking table => table = some K.table
  | .inserting r => ∃ user body, K.rival body ∧ r = newReservation phase user body
  | .saved id => ∃ r ∈ w.store.rows, r.id = id ∧ K.Booked phase r
  | .reloading id cs => (∃ r ∈ w.store.rows, r.id = id ∧ K.Booked phase r) ∧ cs = readColumns phase
  | .reloaded row => ∃ l, row = some l ∧ l.columns = readColumns phase ∧ K.Booked phase l.row
  | .done a => a.status = 201 ∨ a.status = 409
  | _ => True

/-- The state of the contest, in phase `phase`. -/
structure Running (phase : Phase) (w : World) : Prop where
  unswitched : w.phase = phase
  requests : ∀ t ∈ w.tasks, K.Admits t.request
  tables : ∀ r ∈ w.store.rows, ∀ r₀ ∈ init, r₀.id = r.id →
    r.restaurantTableId = r₀.restaurantTableId
  rows : ∀ r ∈ w.store.rows, r.restaurantTableId = K.table.id → r ∈ init ∨ K.Booked phase r
  drafts : ∀ d ∈ w.store.drafts, d.row.restaurantTableId = K.table.id →
    K.Booked phase d.row ∧ ∃ t, w.tasks[d.owner]? = some t ∧ K.isRival t = true
  stages : ∀ (i : Nat) (t : Task), w.tasks[i]? = some t → K.isRival t = true →
    K.RivalOk phase w t.stage
  outcome :
    (w.tasks.countP K.won = 0 ∧ (∀ r ∈ w.store.rows, ¬ K.Booked phase r) ∧
      ∀ t ∈ w.tasks, K.isRival t = true → ∀ a, t.stage ≠ .done a) ∨
    (w.tasks.countP K.won = 1 ∧ ∃ r ∈ w.store.rows, K.Booked phase r)

variable {K} {phase : Phase} {w : World}

theorem isRival_iff {t : Task} : K.isRival t = true ↔
    ∃ user body, t.request = .post user body ∧ body.restaurantTableId = K.table.id := by
  obtain ⟨req, st⟩ := t
  cases req <;> simp [isRival]

/-- The request of a rival task is a rival. -/
theorem Running.rival (h : K.Running phase w) {i : Nat} {t : Task} (ht : w.tasks[i]? = some t)
    (hr : K.isRival t = true) :
    ∃ user body, t.request = .post user body ∧ K.rival body := by
  obtain ⟨user, body, hreq, htab⟩ := isRival_iff.mp hr
  have hadm := h.requests t (List.mem_of_getElem? ht)
  rw [hreq] at hadm
  exact ⟨user, body, hreq, hadm htab⟩

theorem Booked.slot {r : Reservation} (h : K.Booked phase r) :
    r.restaurantTableId = K.table.id ∧ r.status = .confirmed := by
  obtain ⟨user, body, id, v, hriv, rfl⟩ := h
  obtain ⟨htab, -, -, hst⟩ := newReservation_slot phase user body
  exact ⟨htab.trans (K.checks body hriv).1, hst⟩

/-- A booking of the contest can be loaded. -/
theorem Booked.loads {r : Reservation} (h : K.Booked phase r) : loads r = true := by
  obtain ⟨user, body, id, v, hriv, rfl⟩ := h
  obtain ⟨-, hs, he, -⟩ := newReservation_slot phase user body
  obtain ⟨-, -, -, hfs, hfe⟩ := K.checks body hriv
  exact Bool.and_eq_true_iff.mpr ⟨(congrArg fitsTimestamp hs).trans hfs,
    (congrArg fitsTimestamp he).trans hfe⟩

/-- Two bookings of the contest clash. -/
theorem Booked.clash {a b : Reservation} (ha : K.Booked phase a) (hb : K.Booked phase b) :
    doubleBooking a b = true := by
  obtain ⟨hta, hsa⟩ := ha.slot
  obtain ⟨htb, hsb⟩ := hb.slot
  obtain ⟨user, body, id, v, hriv, rfl⟩ := ha
  obtain ⟨user', body', id', v', hriv', rfl⟩ := hb
  obtain ⟨-, h1, h2, -⟩ := newReservation_slot phase user body
  obtain ⟨-, h1', h2', -⟩ := newReservation_slot phase user' body'
  refine (doubleBooking_iff _ _).mpr ⟨by rw [hsa]; decide, by rw [hsb]; decide, ?_⟩
  unfold sameSlot
  rw [hta, htb, beq_self_eq_true, Bool.true_and, overlaps_iff]
  show (Set.Ico (newReservation phase user body).startsAt (newReservation phase user body).endsAt ∩
    Set.Ico (newReservation phase user' body').startsAt
      (newReservation phase user' body').endsAt).Nonempty
  rw [h1, h2, h1', h2']
  exact K.intersect body body' hriv hriv'

/-- A row version of the table that is in progress is an INSERT. -/
theorem Running.before_none (h : K.Running phase w) (hinv : Inv env init w)
    {d : Draft Reservation} (hd : d ∈ w.store.drafts)
    (htab : d.row.restaurantTableId = K.table.id) : d.before = none := by
  obtain ⟨-, t, ht, hriv⟩ := h.drafts d hd htab
  obtain ⟨user, body, hreq, -⟩ := h.rival ht hriv
  have := (hinv.writes ht hd rfl).1
  rw [hreq] at this
  exact this.1

/-- Committed rows of the table stay, whoever commits. -/
theorem Running.row_stays (h : K.Running phase w) (hinv : Inv env init w) {i : Nat} {e : Effect}
    {r : Reservation} (hr : r ∈ w.store.rows) (htab : r.restaurantTableId = K.table.id) :
    r ∈ (w.apply i e).store.rows := by
  cases e with
  | commit =>
    refine Store.mem_seen.mpr (Or.inl ⟨hr, Store.overwrites_eq_false.mpr fun d hd ho hid => ?_⟩)
    -- a draft of this row would be an UPDATE of a row of the table
    have hb : d.before = some r := by
      rw [← hinv.sound.base d hd, hid]
      exact Store.lookup_mem hinv.sound.keys hr
    obtain ⟨t, -, hmade, -⟩ := hinv.writers d hd
    rw [hb] at hmade
    have := h.before_none hinv hd (hmade.place.2.1.trans htab)
    rw [hb] at this
    exact absurd this (by simp)
  | _ => exact hr

/-- A committed row of the table is an old one, or a rival has just committed it. -/
theorem Running.row_new (h : K.Running phase w) {i : Nat} {e : Effect} {r : Reservation}
    (hr : r ∈ (w.apply i e).store.rows) (htab : r.restaurantTableId = K.table.id) :
    r ∈ w.store.rows ∨ (K.Booked phase r ∧ ∃ t, w.tasks[i]? = some t ∧ K.isRival t = true) := by
  rcases mem_apply_rows hr with hr | ⟨d, hd, rfl, rfl⟩
  · exact Or.inl hr
  · exact Or.inr (h.drafts d hd htab)

/-- The data of a rival's stage survive any effect. -/
theorem Running.rivalOk_mono (h : K.Running phase w) (hinv : Inv env init w) {i : Nat} {e : Effect}
    {st : Stage} (hs : K.RivalOk phase w st) : K.RivalOk phase (w.apply i e) st := by
  have hrow : ∀ id, (∃ r ∈ w.store.rows, r.id = id ∧ K.Booked phase r) →
      ∃ r ∈ (w.apply i e).store.rows, r.id = id ∧ K.Booked phase r :=
    fun id ⟨r, hr, hid, hb⟩ => ⟨r, h.row_stays hinv hr hb.slot.1, hid, hb⟩
  cases st with
  | saved id => exact hrow id hs
  | reloading id cs => exact ⟨hrow id hs.1, hs.2⟩
  | _ => exact hs

/-- A new booking's row can be read in the phase it was made in. -/
theorem Booked.readable {l : Loaded} (h : K.Booked phase l.row)
    (hcs : l.columns = readColumns phase) : Readable phase l := by
  obtain ⟨user, body, id, v, -, hrow⟩ := h
  refine ⟨fun c hc => by rw [hcs]; exact hc, fun hg => ?_⟩
  have hget : l.row.get .guestName = (newReservation phase user body).get .guestName := by
    rw [hrow, inserted_get]
  rw [newReservation_get] at hget
  show l.row.get .guestName ≠ none
  rw [hget]
  cases phase with
  | legacy => exact Option.some_ne_none _
  | dualWrite => exact Option.some_ne_none _
  | readNew => exact absurd hg (by decide)
  | newOnly => exact absurd hg (by decide)

/-- **A rival that has passed its check meets no committed rival.** -/
theorem Running.no_winner (h : K.Running phase w) (hinv : Inv env init w) {i : Nat} {t : Task}
    (ht : w.tasks[i]? = some t) {id : Nat} (hst : t.stage = .committing id)
    {d : Draft Reservation} (hd : d ∈ w.store.drafts) (ho : d.owner = i) (hb : K.Booked phase d.row) : ∀ r ∈ w.store.rows, ¬ K.Booked phase r := by
  intro r hr hbr
  have hw := (hinv.writes ht hd ho).2
  rw [hst] at hw
  obtain ⟨hid, hp⟩ := hw
  have hnone := h.before_none hinv hd hb.slot.1
  have hne : ∀ r' ∈ w.store.rows, r'.id ≠ d.row.id :=
    Store.lookup_none.mp ((hinv.sound.base d hd).trans hnone)
  have hov : w.store.overwrites reservations d.owner r.id = false := by
    refine Store.overwrites_eq_false.mpr fun d' hd' ho' hid' => hne r hr ?_
    have hw' := (hinv.writes ht hd' (ho'.trans ho)).2
    rw [hst] at hw'
    rw [hid, ← hw'.1]
    exact hid'.symm
  have := hinv.sound.passedRow d hd hp r hr (hne r hr) hov
  rw [reservations_clash, hb.clash hbr] at this
  exact absurd this (by decide)

/-- The requests that edit the table's reservations are not admitted. -/
theorem Running.other_table (h : K.Running phase w) (hinv : Inv env init w) {i : Nat} {t : Task}
    (ht : w.tasks[i]? = some t) (hriv : K.isRival t = false) {e : Effect} {st : Stage}
    (ha : Act env w i t.request t.stage e st) {before : Option Reservation} {row : Reservation}
    (he : e = .write before row) : row.restaurantTableId ≠ K.table.id := by
  have hl := legal_of_act hinv ht ha
  rw [he] at hl
  have hadm := h.requests t (List.mem_of_getElem? ht)
  have hmade := hl.2.2.2.2
  have hbase := hl.1.base _ (List.mem_singleton.mpr rfl)
  cases hreq : t.request with
  | post user body =>
    rw [hreq] at hmade
    obtain ⟨-, p, id, v, -, rfl⟩ := hmade
    intro htab
    have hslot := (newReservation_slot p user body).1
    have : K.isRival t = true := isRival_iff.mpr ⟨user, body, hreq, hslot.symm.trans htab⟩
    rw [hriv] at this
    exact absurd this (by decide)
  | onOne user id op =>
    rw [hreq] at hmade hadm
    obtain ⟨b, p, ed, cs, v, rfl, hid, -, hop, -, -, rfl⟩ := hmade
    rcases hadm with rfl | ⟨r₀, hr₀, hid₀, hne⟩
    · exact absurd hop (by simp [Op.edit])
    · have hb : b ∈ w.store.rows := (Store.lookup_some hbase).1
      rw [apply_restaurantTableId, h.tables b hb r₀ hr₀ (hid₀.trans hid.symm)]
      exact hne
  | list user limit =>
    rw [hreq] at hmade
    exact absurd hmade (fun x => x)
  | put target =>
    rw [hreq] at hadm
    exact absurd hadm (fun x => x)
  | batch lastId size =>
    rw [hreq] at hadm
    exact absurd hadm (fun x => x)

/-- What an UPDATE or INSERT in progress does to the table of an old row: nothing. -/
theorem Running.tables_apply (h : K.Running phase w) (hinv : Inv env init w) {i : Nat}
    {e : Effect} :
    ∀ r ∈ (w.apply i e).store.rows, ∀ r₀ ∈ init, r₀.id = r.id →
      r.restaurantTableId = r₀.restaurantTableId := by
  intro r hr r₀ hr₀ hid
  rcases mem_apply_rows hr with hr | ⟨d, hd, -, rfl⟩
  · exact h.tables r hr r₀ hr₀ hid
  · -- the old row has a version in the table now
    have hsome : Store.lookup reservations init r₀.id ≠ none :=
      fun hn => Store.lookup_none.mp hn r₀ hr₀ rfl
    obtain ⟨r₁, hr₁⟩ := Option.ne_none_iff_exists'.mp hsome
    have hver : r₁ ∈ Store.versionsOf reservations init w.store r₀.id :=
      List.mem_append_left _ (by rw [hr₁]; exact List.mem_singleton.mpr rfl)
    obtain ⟨r', hr', hid'⟩ := hinv.tracked.exists_row hver
    have hbase := hinv.sound.base d hd
    have hrow : Store.lookup reservations w.store.rows r'.id = some r' :=
      Store.lookup_mem hinv.sound.keys hr'
    have hk : reservations.key d.row = r'.id := hid.symm.trans hid'.symm
    have hid' : r'.id = r₀.id := hid'
    rw [hk, hrow] at hbase
    obtain ⟨t, -, hmade, -⟩ := hinv.writers d hd
    rw [← hbase] at hmade
    rw [hmade.place.2.1]
    exact h.tables r' hr' r₀ hr₀ hid'.symm

theorem rows_apply_eq {i : Nat} {e : Effect} (he : e ≠ .commit) :
    (w.apply i e).store.rows = w.store.rows := by
  cases e with
  | commit => exact absurd rfl he
  | _ => rfl

/-- What a stretch of a rival does to the contest: it wins, or it stays what it was, and is
    answered only when somebody has won. -/
def Advances (K : Contest env init) (phase : Phase) (w : World) (i : Nat) (t : Task) (e : Effect)
    (st : Stage) : Prop :=
  (K.won t = false ∧ K.won ⟨t.request, st⟩ = true ∧ (∀ a, st ≠ .done a) ∧
    (∀ r ∈ w.store.rows, ¬ K.Booked phase r) ∧
    ∃ r ∈ (w.apply i e).store.rows, K.Booked phase r) ∨
  (e ≠ .commit ∧ K.won ⟨t.request, st⟩ = K.won t ∧
    ∀ a, st = .done a → K.won t = true ∨ ∃ r ∈ w.store.rows, K.Booked phase r)

/-- **A rival whose check fails meets a booking of the contest**: no old row is in its way. -/
theorem Running.booked_of_violated (h : K.Running phase w) (hinv : Inv env init w) {i : Nat}
    {user : User} {body : ReservationCreate} {id : Nat} {todo : List (Nat × Text × Text)}
    (ht : w.tasks[i]? = some ⟨.post user body, .checking id todo⟩) (hbody : K.rival body)
    {d : Draft Reservation} (hd : w.draft i id = some d)
    (hv : w.store.violated reservations d = true) : ∃ r ∈ w.store.rows, K.Booked phase r := by
  obtain ⟨r, hr, hrt, hrs, hov⟩ := conflict_of_violated hinv ht hd hv
  have htab := hrt.trans (K.checks body hbody).1
  rcases h.rows r hr htab with hold | hb
  · rw [K.free r hold htab hrs body hbody] at hov
    exact absurd hov Set.not_nonempty_empty
  · exact ⟨r, hr, hb⟩

/-- The row version of a rival is a booking of the contest. -/
theorem Running.booked_of_draft (h : K.Running phase w) (hinv : Inv env init w) {i : Nat}
    {user : User} {body : ReservationCreate} {st : Stage}
    (ht : w.tasks[i]? = some ⟨.post user body, st⟩) (hbody : K.rival body)
    {d : Draft Reservation} (hd : d ∈ w.store.drafts) (ho : d.owner = i) : K.Booked phase d.row := by
  obtain ⟨-, p, id, v, -, hrow⟩ := (hinv.writes ht hd ho).1
  have htab : d.row.restaurantTableId = K.table.id := by
    rw [hrow]
    exact (newReservation_slot p user body).1.trans (K.checks body hbody).1
  exact (h.drafts d hd htab).1

/-- **A rival's stretch, case by case.** -/
theorem Running.rival_act (h : K.Running phase w) (hinv : Inv env init w) {i : Nat} {t : Task}
    (ht : w.tasks[i]? = some t) (hriv : K.isRival t = true) {e : Effect} {st : Stage}
    (ha : Act env w i t.request t.stage e st) :
    K.RivalOk phase (w.apply i e) st ∧ K.Advances phase w i t e st := by
  have hs := h.stages i t ht hriv
  have hss := hinv.stages i t ht
  obtain ⟨user, body, hreq, hbody⟩ := h.rival ht hriv
  obtain ⟨htab, hok, hname, -⟩ := K.checks body hbody
  have hphase := h.unswitched
  obtain ⟨req, st₀⟩ := t
  obtain rfl : req = .post user body := hreq
  -- before its commit a rival has not won, after it it has
  have stay : ∀ {e : Effect} {st : Stage}, e ≠ .commit → K.won ⟨.post user body, st₀⟩ = false →
      K.won ⟨.post user body, st⟩ = false → (∀ a, st ≠ .done a) →
      K.Advances phase w i ⟨.post user body, st₀⟩ e st :=
    fun he h0 h1 hnd => Or.inr ⟨he, h1.trans h0.symm, fun a ha => absurd ha (hnd a)⟩
  have wonStay : ∀ {st : Stage}, K.won ⟨.post user body, st₀⟩ = true →
      K.won ⟨.post user body, st⟩ = true → K.Advances phase w i ⟨.post user body, st₀⟩ .none st :=
    fun h0 h1 => Or.inr ⟨by simp, h1.trans h0.symm, fun _ _ => Or.inl h0⟩
  have hwon : ∀ st : Stage, K.won ⟨.post user body, st⟩ =
      (match st with
        | .saved _ | .reloading _ _ | .reloaded _ => true
        | .done a => a.status == 201
        | _ => false) := by
    intro st
    unfold won
    rw [show K.isRival ⟨.post user body, st⟩ = true from
      isRival_iff.mpr ⟨user, body, rfl, htab⟩, Bool.true_and]
  cases ha with
  | badTableId hid =>
    rw [htab, K.sendable] at hid
    exact absurd hid (by decide)
  | noTable _ hno =>
    rw [htab, K.known] at hno
    exact absurd hno (by simp)
  | lockTable _ hsome _ =>
    rw [htab, K.known] at hsome
    exact ⟨hsome.symm, stay (by simp) (hwon _) (hwon _) (by simp)⟩
  | refuseBooking he =>
    obtain rfl := hs
    rw [hok] at he
    exact absurd he (by simp)
  | prepare _ =>
    exact ⟨⟨user, body, hbody, by rw [hphase]⟩, stay (by simp) (hwon _) (hwon _) (by simp)⟩
  | insertFails he =>
    obtain ⟨-, user', body', p, hreq', hp, rfl⟩ := hss
    obtain ⟨-, rfl⟩ := Request.post.inj hreq'
    rw [insertError_newReservation hp user' hname] at he
    exact absurd he (by simp)
  | insert _ => exact ⟨trivial, stay (by simp) (hwon _) (hwon _) (by simp)⟩
  | violated hd _ hv =>
    obtain ⟨r, hr, hbooked⟩ := h.booked_of_violated hinv ht hbody hd hv
    refine ⟨Or.inr rfl, Or.inr ⟨by simp, ?_, fun _ _ => Or.inr ⟨r, hr, hbooked⟩⟩⟩
    exact (hwon (.done _)).trans (hwon (.checking _ _)).symm
  | pass _ _ _ => exact ⟨trivial, stay (by simp) (hwon _) (hwon _) (by simp [Request.afterCheck,
      Request.onReservation])⟩
  | @commit _ id _ =>
    obtain ⟨⟨d, hd, ho, hid⟩, -⟩ := hss
    have hb := h.booked_of_draft hinv ht hbody hd ho
    have hmem : d.row ∈ (w.apply i .commit).store.rows :=
      Store.mem_seen.mpr (Or.inr ⟨d, hd, ho, rfl⟩)
    exact ⟨⟨d.row, hmem, hid, hb⟩, Or.inl ⟨hwon _, hwon _, by simp,
      h.no_winner hinv ht rfl hd ho hb, d.row, hmem, hb⟩⟩
  | reload _ => exact ⟨⟨hs, by rw [hphase]⟩, wonStay (hwon _) (hwon _)⟩
  | reloadFails _ he =>
    obtain ⟨-, p, hp, rfl⟩ := hss
    obtain ⟨⟨r, hr, rfl, hb⟩, -⟩ := hs
    have hrow : Store.lookup reservations w.store.rows r.id = some r :=
      Store.lookup_mem hinv.sound.keys hr
    rw [reloadError_eq hp, loadError_of_lookup hrow hb.loads] at he
    exact absurd he (by simp)
  | @reloadRow _ id cs _ _ =>
    obtain ⟨⟨r, hr, rfl, hb⟩, rfl⟩ := hs
    have hrow : Store.lookup reservations w.store.rows r.id = some r :=
      Store.lookup_mem hinv.sound.keys hr
    refine ⟨⟨⟨r, readColumns phase⟩, ?_, rfl, hb⟩, wonStay (hwon _) (hwon _)⟩
    unfold selectReservations
    rw [hrow]
    rfl
  | noRow _ =>
    obtain ⟨l, hl, -⟩ := hs
    exact absurd hl (by simp)
  | @respondSaved _ l _ =>
    obtain ⟨l', hl, hcs, hb⟩ := hs
    obtain rfl : l = l' := Option.some.inj hl
    have hst : (respond w.phase 201 l).status = 201 := by
      rw [hphase]
      exact respond_status (hb.readable hcs) 201
    refine ⟨Or.inl hst, wonStay (hwon _) ((hwon _).trans ?_)⟩
    exact beq_iff_eq.mpr hst

/-- Whether a task is a rival depends on its request only. -/
theorem isRival_congr {t t' : Task} (h : t.request = t'.request) : K.isRival t = K.isRival t' := by
  unfold isRival
  rw [h]

/-- The other requests do not win. -/
theorem won_of_not_rival {t : Task} (hr : K.isRival t = false) (st : Stage) :
    K.won ⟨t.request, st⟩ = K.won t := by
  have hr' : K.isRival ⟨t.request, st⟩ = false := hr
  unfold won
  rw [hr, hr']
  rfl

/-- The other requests neither add nor remove a booking of the contest. -/
theorem Running.rows_of_not_rival (h : K.Running phase w) (hinv : Inv env init w) {i : Nat}
    {t : Task} (ht : w.tasks[i]? = some t) (hr : K.isRival t = false) (e : Effect)
    {r : Reservation} (hb : K.Booked phase r) :
    r ∈ (w.apply i e).store.rows ↔ r ∈ w.store.rows := by
  refine ⟨fun hmem => ?_, fun hmem => h.row_stays hinv hmem hb.slot.1⟩
  rcases h.row_new hmem hb.slot.1 with hmem | ⟨-, t', ht', hr'⟩
  · exact hmem
  · obtain rfl := Option.some.inj (ht.symm.trans ht')
    rw [hr] at hr'
    exact absurd hr' (by decide)

/-- A stretch of another request leaves the outcome as it is. -/
theorem Running.outcome_of_not_rival (h : K.Running phase w) (hinv : Inv env init w) {i : Nat}
    {t : Task} (ht : w.tasks[i]? = some t) (hr : K.isRival t = false) (e : Effect) (st : Stage) :
    ((w.advance i t.request e st).tasks.countP K.won = 0 ∧
      (∀ r ∈ (w.apply i e).store.rows, ¬ K.Booked phase r) ∧
      ∀ t' ∈ (w.advance i t.request e st).tasks, K.isRival t' = true → ∀ a, t'.stage ≠ .done a) ∨
    ((w.advance i t.request e st).tasks.countP K.won = 1 ∧
      ∃ r ∈ (w.apply i e).store.rows, K.Booked phase r) := by
  rw [countP_advance ht (won_of_not_rival hr st)]
  rcases h.outcome with ⟨hc, hno, hnd⟩ | ⟨hc, r, hmem, hb⟩
  · refine Or.inl ⟨hc, fun r hmem hb => ?_, fun t' ht' hr' => ?_⟩
    · exact hno r ((h.rows_of_not_rival hinv ht hr e hb).mp hmem) hb
    · rcases mem_tasks_advance ht' with ht' | rfl
      · exact hnd t' ht' hr'
      · have hr : K.isRival ⟨t.request, st⟩ = false := hr
        rw [hr] at hr'
        exact absurd hr' (by decide)
  · exact Or.inr ⟨hc, r, (h.rows_of_not_rival hinv ht hr e hb).mpr hmem, hb⟩

/-- A stretch of a rival wins, or leaves the outcome as it is. -/
theorem Running.outcome_of_advances (h : K.Running phase w) {i : Nat} {t : Task}
    (ht : w.tasks[i]? = some t) {e : Effect} {st : Stage} (hadv : K.Advances phase w i t e st) :
    ((w.advance i t.request e st).tasks.countP K.won = 0 ∧
      (∀ r ∈ (w.apply i e).store.rows, ¬ K.Booked phase r) ∧
      ∀ t' ∈ (w.advance i t.request e st).tasks, K.isRival t' = true → ∀ a, t'.stage ≠ .done a) ∨
    ((w.advance i t.request e st).tasks.countP K.won = 1 ∧
      ∃ r ∈ (w.apply i e).store.rows, K.Booked phase r) := by
  rcases hadv with ⟨h0, h1, -, hno, hex⟩ | ⟨he, hwon, hdone⟩
  · rw [countP_advance_succ ht h0 h1]
    rcases h.outcome with ⟨hc, -, -⟩ | ⟨-, r, hr, hb⟩
    · exact Or.inr ⟨by rw [hc], hex⟩
    · exact absurd hb (hno r hr)
  · rw [countP_advance ht hwon, rows_apply_eq he]
    rcases h.outcome with ⟨hc, hno, hnd⟩ | hright
    · refine Or.inl ⟨hc, hno, fun t' ht' hr' a ha' => ?_⟩
      rcases mem_tasks_advance ht' with ht' | rfl
      · exact hnd t' ht' hr' a ha'
      · rcases hdone a ha' with hw | ⟨r, hr, hb⟩
        · exact absurd hw (List.countP_eq_zero.mp hc t (List.mem_of_getElem? ht))
        · exact hno r hr hb
    · exact Or.inr hright

/-- **The step rule of the contest.** -/
theorem Running.advance (h : K.Running phase w) (hinv : Inv env init w) {i : Nat} {t : Task}
    (ht : w.tasks[i]? = some t) {e : Effect} {st : Stage} (hphase : ∀ p, e ≠ .setPhase p)
    (hnew : ∀ before row, e = .write before row → row.restaurantTableId = K.table.id →
      K.Booked phase row ∧ K.isRival t = true)
    (hriv : K.isRival t = true → K.RivalOk phase (w.apply i e) st ∧ K.Advances phase w i t e st) :
    K.Running phase (w.advance i t.request e st) where
  unswitched := by
    cases e with
    | setPhase p => exact absurd rfl (hphase p)
    | _ => exact h.unswitched
  requests := by
    intro t' ht'
    rcases mem_tasks_advance ht' with ht' | rfl
    · exact h.requests t' ht'
    · exact h.requests t (List.mem_of_getElem? ht)
  tables := h.tables_apply hinv
  rows := by
    intro r hr htab
    rcases h.row_new hr htab with hr | ⟨hb, -⟩
    · exact h.rows r hr htab
    · exact Or.inr hb
  drafts := by
    intro d hd htab
    rcases mem_apply_drafts hd with ⟨d₀, hd₀, ho, -, hr⟩ | ⟨before, row, rfl, rfl⟩
    · rw [hr] at htab ⊢
      obtain ⟨hb, t', ht', hriv'⟩ := h.drafts d₀ hd₀ htab
      obtain ⟨t'', ht'', hreq⟩ := advance_request e st ht rfl ht'
      exact ⟨hb, t'', by rw [ho]; exact ht'', (isRival_congr hreq).trans hriv'⟩
    · obtain ⟨hb, hriv'⟩ := hnew before row rfl htab
      exact ⟨hb, _, advance_task_self ht, hriv'⟩
  stages := by
    intro j t' ht' hr
    rcases task_of_advance ht' with ⟨rfl, rfl⟩ | ⟨-, ht'⟩
    · exact (hriv hr).1
    · exact h.rivalOk_mono hinv (h.stages j t' ht' hr)
  outcome := by
    cases hr : K.isRival t with
    | false => exact h.outcome_of_not_rival hinv ht hr e st
    | true => exact h.outcome_of_advances ht (hriv hr).2

/-- Every stretch of every task keeps the contest's invariant. -/
theorem Running.act (h : K.Running phase w) (hinv : Inv env init w) {i : Nat} {t : Task}
    (ht : w.tasks[i]? = some t) {e : Effect} {st : Stage}
    (ha : Act env w i t.request t.stage e st) : K.Running phase (w.advance i t.request e st) := by
  refine h.advance hinv ht ?_ ?_ fun hriv => h.rival_act hinv ht hriv ha
  · rintro p rfl
    have hadm := h.requests t (List.mem_of_getElem? ht)
    obtain ⟨req, st₀⟩ := t
    cases ha
    exact hadm
  · rintro before row rfl htab
    cases hriv : K.isRival t with
    | false => exact absurd htab (h.other_table hinv ht hriv ha rfl)
    | true =>
      refine ⟨?_, rfl⟩
      have hs := h.stages i t ht hriv
      obtain ⟨user, body, hreq, -⟩ := h.rival ht hriv
      obtain ⟨req, st₀⟩ := t
      obtain rfl : req = .post user body := hreq
      cases ha with
      | insert _ =>
        obtain ⟨user', body', hbody', rfl⟩ := hs
        exact ⟨user', body', _, _, hbody', rfl⟩

/-- A rival that holds a row version holds the table's lock. -/
theorem locked (hinv : Inv env init w) {i : Nat} {t : Task}
    (ht : w.tasks[i]? = some t) (hriv : K.isRival t = true) {d : Draft Reservation}
    (hd : d ∈ w.store.drafts) (ho : d.owner = i) : (Resource.table K.table.id, i) ∈ w.locks := by
  obtain ⟨user, body, hreq, htab⟩ := isRival_iff.mp hriv
  rw [← htab]
  exact hinv.booking_locks ht hreq hd ho

/-- **Nothing stands in a rival's way but what is committed**: no row version in progress makes
    its check wait. -/
theorem Running.not_blocked (h : K.Running phase w) (hinv : Inv env init w)
    {d d' : Draft Reservation} (hd : d ∈ w.store.drafts) (hb : K.Booked phase d.row)
    (hd' : d' ∈ w.store.drafts) :
    Store.blocks reservations d d' = false := by
  by_contra hbl
  obtain ⟨hne, hc⟩ := Bool.and_eq_true_iff.mp (Bool.not_eq_false _ ▸ hbl)
  have hslot : ∀ r : Reservation, doubleBooking d.row r = true →
      r.restaurantTableId = K.table.id := by
    intro r hr
    obtain ⟨-, -, hs⟩ := (doubleBooking_iff _ _).mp hr
    rw [← hb.slot.1]
    exact (eq_of_beq (Bool.and_eq_true_iff.mp hs).1).symm
  -- the other row version is a rival's too
  have htab : d'.row.restaurantTableId = K.table.id := by
    rcases Bool.or_eq_true_iff.mp hc with hc | hc
    · exact hslot _ hc
    · obtain ⟨b, hbef, hc⟩ := (Option.any_eq_true _ _).mp hc
      obtain ⟨t, -, hmade, -⟩ := hinv.writers d' hd'
      rw [hbef] at hmade
      exact hmade.place.2.1.trans (hslot b hc)
  obtain ⟨-, t, ht, hriv⟩ := h.drafts d hd hb.slot.1
  obtain ⟨-, t', ht', hriv'⟩ := h.drafts d' hd' htab
  have := List.inj_on_of_nodup_map hinv.locksOnce (locked hinv ht hriv hd rfl)
    (locked hinv ht' hriv' hd' rfl) rfl
  rw [(Prod.mk.inj this).2] at hne
  exact absurd hne (by simp)

/-- A rival waits for the table's lock only. -/
theorem Running.waits (h : K.Running phase w) (hinv : Inv env init w) {i j : Nat} {t : Task}
    (ht : w.tasks[i]? = some t) (hriv : K.isRival t = true)
    (hw : Waits env w i j t.request t.stage) :
    t.stage = .arrived ∧ (Resource.table K.table.id, j) ∈ w.locks := by
  obtain ⟨user, body, hreq, htab⟩ := isRival_iff.mp hriv
  obtain ⟨req, st⟩ := t
  obtain rfl : req = .post user body := hreq
  cases hw with
  | table _ hsome hl =>
    rw [htab, K.known] at hsome
    obtain rfl := Option.some.inj hsome
    exact ⟨rfl, hl⟩
  | @conflict _ _ _ d d' hd hd' _ hbl =>
    obtain ⟨hmem, ho, -⟩ := draft_some hd
    obtain ⟨-, p, id', v, -, hrow⟩ := (hinv.writes ht hmem ho).1
    have hdt : d.row.restaurantTableId = K.table.id := by
      rw [hrow]
      exact (newReservation_slot p user body).1.trans htab
    rw [h.not_blocked hinv hmem (h.drafts _ hmem hdt).1 hd'] at hbl
    exact absurd hbl (by decide)

/-- **A rival is never the victim of a deadlock.** -/
theorem Running.no_victim (h : K.Running phase w) (hinv : Inv env init w) {i : Nat} {t : Task}
    (ht : w.tasks[i]? = some t) (hriv : K.isRival t = true) {rest : List Nat} :
    waitCycle env w i (i :: rest) = false := by
  by_contra hc
  have hc := Bool.not_eq_false _ ▸ hc
  obtain ⟨j, hj⟩ := waitCycle_head hc
  obtain ⟨-, t', ht', hw⟩ := waitsFor_iff.mp hj
  obtain rfl := Option.some.inj (ht.symm.trans ht')
  have hst := (h.waits hinv ht hriv hw).1
  rcases owner_of_waitCycle hc with ⟨res, hres⟩ | ⟨d, hd, ho⟩
  · exact hinv.no_lock ht (by rw [hst]; rfl) res hres
  · exact hinv.no_draft ht (by rw [hst]; exact fun _ x => x) d hd ho

/-- The slot is free at the start. -/
theorem not_booked_init {r : Reservation} (hr : r ∈ init) : ¬ K.Booked phase r := by
  intro hb
  obtain ⟨htab, hst⟩ := hb.slot
  obtain ⟨user, body, id, v, hbody, hrow⟩ := hb
  obtain ⟨-, hs, he, -⟩ := newReservation_slot phase user body
  have hfree := K.free r hr htab (by rw [hst]; decide) body hbody
  have hsr : r.startsAt = body.startsAt := by rw [hrow]; exact hs
  have her : r.endsAt = body.endsAt := by rw [hrow]; exact he
  rw [hsr, her] at hfree
  exact Set.not_nonempty_iff_eq_empty.mpr hfree (K.intersect body body hbody hbody)

theorem running_start {nextId clock : Nat} (hkeys : (init.map Reservation.id).Nodup) :
    K.Running phase (.start phase init nextId clock) where
  unswitched := rfl
  requests := fun t ht => absurd ht (List.not_mem_nil)
  tables := by
    intro r hr r₀ hr₀ hid
    rw [List.inj_on_of_nodup_map hkeys hr₀ hr hid]
  rows := fun r hr _ => Or.inl hr
  drafts := fun d hd => absurd hd (List.not_mem_nil)
  stages := fun i t ht => absurd ht (by simp [World.start])
  outcome := Or.inl ⟨rfl, fun r hr => not_booked_init hr,
    fun t ht => absurd ht (List.not_mem_nil)⟩

theorem Running.arrive (h : K.Running phase w) {req : Request} (hadm : K.Admits req) :
    K.Running phase { w with tasks := w.tasks ++ [⟨req, .arrived⟩] } := by
  have hnew : K.won (⟨req, .arrived⟩ : Task) = false := Bool.and_false _
  have hcount : (w.tasks ++ [(⟨req, .arrived⟩ : Task)]).countP K.won = w.tasks.countP K.won := by
    rw [List.countP_append, List.countP_singleton, hnew]
    rfl
  refine ⟨h.unswitched, ?_, h.tables, h.rows, ?_, ?_, ?_⟩
  · intro t ht
    rcases List.mem_append.mp ht with ht | ht
    · exact h.requests t ht
    · rw [List.mem_singleton.mp ht]
      exact hadm
  · intro d hd htab
    obtain ⟨hb, t, ht, hriv⟩ := h.drafts d hd htab
    exact ⟨hb, t, slot_append ht _, hriv⟩
  · intro i t ht hriv
    rcases slot_of_concat ht with ht | ⟨-, rfl⟩
    · exact h.stages i t ht hriv
    · trivial
  · rcases h.outcome with ⟨hc, hno, hnd⟩ | ⟨hc, hex⟩
    · refine Or.inl ⟨hcount.trans hc, hno, fun t ht hriv a => ?_⟩
      rcases List.mem_append.mp ht with ht | ht
      · exact hnd t ht hriv a
      · rw [List.mem_singleton.mp ht]
        simp
    · exact Or.inr ⟨hcount.trans hc, hex⟩

/-- **Every world of the contest satisfies its invariant.** -/
theorem running_of_reach {nextId clock : Nat} (hready : Ready env phase init nextId clock)
    (hr : (service env).Reach K.Fair (.start phase init nextId clock) w) : K.Running phase w := by
  refine hr.invariant' (running_start hready.keys) ?_
  intro w l w' hr h hC hst
  have hinv := inv_of_reach hready hr
  cases step_cases hst with
  | arrive req => exact h.arrive (hC req rfl)
  | act ht ha _ => exact h.act hinv ht ha
  | @victim i rest t ht hc =>
    refine h.advance hinv ht (by simp) (by simp) fun hriv => ?_
    rw [h.no_victim hinv ht hriv] at hc
    exact absurd hc (by decide)

/-- **The outcome of a contest**: when all rivals are answered, one of them has the booking. -/
theorem Running.one_winner (h : K.Running phase w)
    (hdone : ∀ t ∈ w.tasks, K.isRival t = true → ∃ a, t.stage = .done a)
    (hex : ∃ t ∈ w.tasks, K.isRival t = true) :
    w.tasks.countP (fun t => K.isRival t && t.answered 201) = 1 ∧
      w.tasks.countP (fun t => K.isRival t && t.answered 409) + 1 = w.tasks.countP K.isRival := by
  have hstatus : ∀ t ∈ w.tasks, K.isRival t = true →
      ∃ a, t.stage = .done a ∧ (a.status = 201 ∨ a.status = 409) := by
    intro t ht hriv
    obtain ⟨a, ha⟩ := hdone t ht hriv
    obtain ⟨i, hi⟩ := List.mem_iff_getElem?.mp ht
    have := h.stages i t hi hriv
    rw [ha] at this
    exact ⟨a, ha, this⟩
  have hwon : w.tasks.countP (fun t => K.isRival t && t.answered 201) = w.tasks.countP K.won := by
    refine List.countP_congr fun t ht => ?_
    cases hriv : K.isRival t with
    | false => simp [won, hriv]
    | true =>
      obtain ⟨a, ha, -⟩ := hstatus t ht hriv
      simp [won, answered_of_done ha, hriv, ha]
  have hone : w.tasks.countP K.won = 1 := by
    rcases h.outcome with ⟨-, -, hnd⟩ | ⟨hc, -⟩
    · obtain ⟨t, ht, hriv⟩ := hex
      obtain ⟨a, ha, -⟩ := hstatus t ht hriv
      exact absurd ha (hnd t ht hriv a)
    · exact hc
  refine ⟨hwon.trans hone, ?_⟩
  -- every rival is answered with exactly one of the two
  have hsplit : ∀ ts : List Task, (∀ t ∈ ts, K.isRival t = true →
        ∃ a, t.stage = .done a ∧ (a.status = 201 ∨ a.status = 409)) →
      ts.countP (fun t => K.isRival t && t.answered 409) +
        ts.countP (fun t => K.isRival t && t.answered 201) = ts.countP K.isRival := by
    intro ts
    induction ts with
    | nil => intro _; rfl
    | cons t ts ih =>
      intro hts
      have ih := ih fun t' ht' => hts t' (List.mem_cons_of_mem _ ht')
      simp only [List.countP_cons]
      cases hriv : K.isRival t with
      | false => simpa [hriv] using ih
      | true =>
        obtain ⟨a, ha, hs⟩ := hts t (List.mem_cons_self ..) hriv
        rw [answered_of_done ha, answered_of_done ha]
        rcases hs with hs | hs <;> rw [hs] <;> simp <;> omega
  rw [← hsplit w.tasks hstatus, hwon, hone]

/-- **The contest never stops** before its rivals are answered. -/
theorem Running.progress (h : K.Running phase w) (hinv : Inv env init w)
    (hvisits : ∀ t ∈ w.tasks, Visits t.request t.stage = true)
    (hex : ∃ t ∈ w.tasks, K.isRival t = true ∧ ∀ a, t.stage ≠ .done a) :
    ∃ i t, w.tasks[i]? = some t ∧ K.isRival t = true ∧
      ∃ w', (service env).step w (.step i) = some w' := by
  have go : ∀ {i : Nat} {t : Task}, w.tasks[i]? = some t → TableFlow.act env w i t ≠ none →
      ∃ w', (service env).step w (.step i) = some w' := by
    intro i t ht hact
    obtain ⟨x, hx⟩ := Option.ne_none_iff_exists'.mp hact
    exact ⟨_, Option.bind_eq_some_iff.mpr ⟨t, ht, Option.map_eq_some_iff.mpr ⟨x, hx, rfl⟩⟩⟩
  have stuck : ∀ {i : Nat} {t : Task}, w.tasks[i]? = some t → K.isRival t = true →
      (∀ a, t.stage ≠ .done a) → TableFlow.act env w i t = none →
      t.stage = .arrived ∧ ∃ j, (Resource.table K.table.id, j) ∈ w.locks := by
    intro i t ht hriv hnd hs
    obtain ⟨j, hj⟩ := waits_of_stuck hinv ht (hvisits t (List.mem_of_getElem? ht)) hnd hs
    obtain ⟨-, t', ht', hw⟩ := waitsFor_iff.mp hj
    obtain rfl := Option.some.inj (ht.symm.trans ht')
    obtain ⟨hst, hl⟩ := h.waits hinv ht hriv hw
    exact ⟨hst, j, hl⟩
  obtain ⟨t, hmem, hriv, hnd⟩ := hex
  obtain ⟨i, ht⟩ := List.mem_iff_getElem?.mp hmem
  by_cases hact : TableFlow.act env w i t = none
  · -- the holder of the lock is a rival whose transaction is open
    obtain ⟨-, j, hl⟩ := stuck ht hriv hnd hact
    obtain ⟨t', ht', hop, hreq⟩ := hinv.holders _ hl
    have hriv' : K.isRival t' = true := by
      obtain ⟨req, st⟩ := t'
      cases req with
      | post user body => exact isRival_iff.mpr ⟨user, body, rfl, hreq.symm⟩
      | _ => exact absurd hreq (fun x => x)
    have hnd' : ∀ a, t'.stage ≠ .done a := by
      intro a ha
      rw [ha] at hop
      exact absurd hop (by simp [Stage.open])
    refine ⟨j, t', ht', hriv', go ht' fun hs => ?_⟩
    have := (stuck ht' hriv' hnd' hs).1
    rw [this] at hop
    exact absurd hop (by decide)
  · exact ⟨i, t, ht, hriv, go ht hact⟩

end Contest

/-! ## The result -/

/-- A contest for the small restaurant's table at noon. -/
def lunchContest : Contest sample [] where
  table := ⟨7, 1, 4, true⟩
  rival := fun b => b = lunchForTwo ∨ b = lunchForFour
  known := rfl
  sendable := by decide
  checks := by
    rintro b (rfl | rfl)
    · exact ⟨rfl, rfl, by decide, by decide⟩
    · exact ⟨rfl, rfl, by decide, by decide⟩
  intersect := by
    rintro a b (rfl | rfl) (rfl | rfl) <;> rw [← overlaps_iff] <;> decide
  free := fun r hr => absurd hr (List.not_mem_nil)

/-- Two bookings of the table at intersecting hours, one after the other. -/
def lunchRun : List Label :=
  [.arrive (.post customer lunchForTwo),
   .arrive (.post customer lunchForFour)] ++
  List.replicate 8 (.step 0) ++ List.replicate 4 (.step 1)

end TableFlow
