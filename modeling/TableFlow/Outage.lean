/-
  One external call fails: what `create_order` and `create_reservation` have saved when they raise.

  1. **The code** — `create_reservation` once more, as the chain of its external calls; without a
     failing call it is the booking of the deployment (`create_reservation_create`).
  2. **Where a request gets to** — it commits exactly when it is acceptable (`Orderable`,
     `Bookable`) and no call before or at the commit fails.
  3. **After the commit** — the telemetry of an order is guarded, so it cannot fail the request.
     The refresh of the order and the reload of the reservation are not: an error there is an error
     answer to a request that is saved (`LosesAnswer`), and nothing else is.  The reload has one of
     its own: a booking whose UTC form is no `datetime` is stored and cannot be read.
-/
import TableFlow.Answers
import TableFlow.Checkout
import TableFlow.Deployment

namespace TableFlow.Outage

open Lib Deployment Checkout
open Orders (Order)

/-! ## `create_reservation` -/

/-- The SELECT that locks the table. -/
def readTable (env : Env) (body : ReservationCreate) : Except Raised (Option RestaurantTable) :=
  if fitsBigint body.restaurantTableId = false then .error (.database .dataError)
  else .ok (env.table body.restaurantTableId)

/-- The row the INSERT writes. -/
def rowOf (env : Env) (s : Site) (user : User) (body : ReservationCreate) : Reservation :=
  inserted env (newReservation s.phase user body) s.nextId s.clock

/-- The commit of a booking: the state after it, and its error. -/
def commitBooking (env : Env) (s : Site) (user : User) (body : ReservationCreate) :
    Site × Option DbError :=
  match insertError s.schema (newReservation s.phase user body) with
  | some e => (s, some e)
  | none =>
    if s.clashes (rowOf env s user body) then
      ({ s with nextId := s.nextId + 1, clock := s.clock + 1 }, some .exclusionViolation)
    else (s.booked (rowOf env s user body) body.guestName, none)

/-- What an error of the commit becomes. -/
def commitFailed (fails : Option Call) (e : DbError) : Raised :=
  if e.isIntegrityError then
    match call fails .rollback (.ok (integrityAnswer e)) with
    | .error x => x
    | .ok answer => .refused answer
  else .database e

/-- `reload` -/
def reload (s : Site) (id : Nat) : Except Raised (Option Loaded) :=
  match reloadError s.schema (readColumns s.phase) s.rows id with
  | some e => .error (.database e)
  | none => .ok (selectReservations (readColumns s.phase) s.rows id)

/-- `create_reservation` -/
def createReservation (env : Env) (s : Site) (user : User) (body : ReservationCreate)
    (fails : Option Call) : Outcome Site (Option Loaded) :=
  match call fails .table (readTable env body) with
  | .error e => ⟨s, false, .error e⟩
  | .ok table =>
    match bookingChecks table body with
    | .error e => ⟨s, false, .error (.refused e)⟩
    | .ok _ =>
      match call fails .commit (.ok (commitBooking env s user body)) with
      | .error e => ⟨s, false, .error e⟩
      | .ok (s', some e) => ⟨s', false, .error (commitFailed fails e)⟩
      | .ok (s', none) => ⟨s', true, call fails .reload (reload s' s.nextId)⟩

/-- The answer of the router, `none` for a call that has failed. -/
def answer (s : Site) : Except Raised (Option Loaded) → Option Answer
  | .ok (some l) => some (respond s.phase 201 l)
  | .ok none => some (.failed .noRow)
  | .error (.refused e) => some (.refused e)
  | .error (.database e) => some (.failed (.database e))
  | .error _ => none

/-! ## Requests -/

/-- The reservations of PostgreSQL, and its orders with the telemetry of MongoDB. -/
structure Server where
  site : Site
  till : Till

/-- A call of `create_order` or of `create_reservation`. -/
inductive Ask
  | order (user : User) (payload : OrderCreate)
  | reservation (user : User) (body : ReservationCreate)

/-- What a request returns. -/
inductive Reply
  | order (o : Order) (items : List OrderItem)
  | reservation (l : Option Loaded)

/-- A request, `fails` being the external call that fails. -/
def serve (env : Env) (products : Catalogue) (now : Int) (v : Server) (fails : Option Call) :
    Ask → Outcome Server Reply
  | .order user payload =>
    let out := createOrder env v.site.rows products now v.till user payload fails
    ⟨{ v with till := out.state }, out.committed, out.result.map fun x => .order x.1 x.2⟩
  | .reservation user body =>
    let out := createReservation env v.site user body fails
    ⟨{ v with site := out.state }, out.committed, out.result.map .reservation⟩

/-- Nothing was saved. -/
structure Unchanged (v v' : Server) : Prop where
  orders : v'.till.shop.orders = v.till.shop.orders
  items : v'.till.items = v.till.items
  reservations : v'.site.rows = v.site.rows

/-- **An error answer means nothing was saved**, and what was saved is answered. -/
def ErrorSavesNothing (v : Server) (out : Outcome Server Reply) : Prop :=
  (∀ e, out.result = .error e → Unchanged v out.state) ∧
    (out.committed = true → ∃ reply, out.result = .ok reply)

/-! ## When a reservation is stored -/

/-- The driver sends the names that the phase writes. -/
def NamesSent (p : Phase) (body : ReservationCreate) : Prop :=
  ∀ c ∈ writeColumns p, storable (nameValue body.guestName c) = true

instance (p : Phase) (body : ReservationCreate) : Decidable (NamesSent p body) :=
  inferInstanceAs (Decidable (∀ c ∈ writeColumns p, _))

/-- **The bookings that are stored**: the table can be booked for the party, the driver sends the
    names that the phase writes, and no active reservation of the table overlaps the window. -/
structure Bookable (env : Env) (s : Site) (body : ReservationCreate) : Prop where
  tableId : fitsBigint body.restaurantTableId = true
  table : ∃ t, env.table body.restaurantTableId = some t ∧ t.restaurantId = body.restaurantId ∧
    t.isActive = true ∧ body.partySize ≤ t.capacity
  names : NamesSent s.phase body
  free : ∀ x ∈ s.rows, x.status ≠ .cancelled → x.restaurantTableId = body.restaurantTableId →
    overlaps body.startsAt body.endsAt x.startsAt x.endsAt = false

/-- The window has a UTC form that is a `datetime`: the driver can read it back. -/
def ReadBack (body : ReservationCreate) : Prop :=
  fitsTimestamp body.startsAt = true ∧ fitsTimestamp body.endsAt = true

section Booking

variable {env : Env} {s : Site} {user : User} {body : ReservationCreate} {fails : Option Call}

/-- The booking passes its checks and its constraints. -/
structure Accepted (env : Env) (s : Site) (user : User) (body : ReservationCreate) : Prop where
  tableId : fitsBigint body.restaurantTableId = true
  checks : ∃ t, bookingChecks (env.table body.restaurantTableId) body = .ok t
  insert : insertError s.schema (newReservation s.phase user body) = none
  free : s.clashes (rowOf env s user body) = false

theorem rowOf_clash (hinv : Deployment.Inv s) {x : Reservation} (hx : x ∈ s.rows) :
    (x.id != (rowOf env s user body).id && doubleBooking (rowOf env s user body) x) = false ↔
      (x.status ≠ .cancelled → x.restaurantTableId = body.restaurantTableId →
        overlaps body.startsAt body.endsAt x.startsAt x.endsAt = false) := by
  have hid : x.id ≠ (rowOf env s user body).id := Nat.ne_of_lt (hinv.bound x hx)
  have htable : (rowOf env s user body).restaurantTableId = body.restaurantTableId :=
    assignNames_restaurantTableId ..
  have hstatus : (rowOf env s user body).status = .confirmed := assignNames_status ..
  have hstart : (rowOf env s user body).startsAt = body.startsAt := assignNames_startsAt ..
  have hend : (rowOf env s user body).endsAt = body.endsAt := assignNames_endsAt ..
  simp only [bne_iff_ne.mpr hid, Bool.true_and, doubleBooking, sameSlot, hstatus, htable, hstart,
    hend]
  by_cases hx : x.status = .cancelled
  · simp [hx]
  · by_cases ht : x.restaurantTableId = body.restaurantTableId
    · simp [hx, ht]
    · simp [hx, ht, Ne.symm ht]

/-- **What a booking needs to be stored.** -/
theorem accepted_iff (hinv : Deployment.Inv s) : Accepted env s user body ↔ Bookable env s body := by
  have hfree : s.clashes (rowOf env s user body) = false ↔
      ∀ x ∈ s.rows, x.status ≠ .cancelled → x.restaurantTableId = body.restaurantTableId →
        overlaps body.startsAt body.endsAt x.startsAt x.endsAt = false := by
    unfold Site.clashes
    rw [List.any_eq_false]
    refine forall₂_congr fun x hx => ?_
    rw [Bool.not_eq_true]
    exact rowOf_clash hinv hx
  constructor
  · rintro ⟨hid, ⟨t, ht⟩, hins, hclash⟩
    obtain ⟨htable, hrest, hactive, hcap⟩ := bookingChecks_ok ht
    exact ⟨hid, ⟨t, htable, hrest, hactive, hcap⟩,
      (insertError_eq_none_iff hinv.fits user body).mp hins, hfree.mp hclash⟩
  · rintro ⟨hid, ⟨t, htable, hrest, hactive, hcap⟩, hnames, hclash⟩
    refine ⟨hid, ⟨t, ?_⟩, (insertError_eq_none_iff hinv.fits user body).mpr hnames,
      hfree.mpr hclash⟩
    rw [htable]
    unfold bookingChecks
    dsimp only
    rw [if_neg (not_not.mpr hrest), if_neg (by rw [hactive]; decide), if_neg (Nat.not_lt.mpr hcap)]

/-- A commit that fails saves nothing. -/
theorem commitBooking_error {s' : Site} {e : DbError}
    (h : commitBooking env s user body = (s', some e)) : s'.rows = s.rows := by
  unfold commitBooking at h
  split at h
  · rw [← (Prod.mk.inj h).1]
  · split at h
    · rw [← (Prod.mk.inj h).1]
    · exact absurd (Prod.mk.inj h).2 (by simp)

theorem commitBooking_ok {s' : Site} (h : commitBooking env s user body = (s', none)) :
    insertError s.schema (newReservation s.phase user body) = none ∧
      s.clashes (rowOf env s user body) = false ∧
      s' = s.booked (rowOf env s user body) body.guestName := by
  unfold commitBooking at h
  split at h
  · exact absurd (Prod.mk.inj h).2 (by simp)
  · next hins =>
    split at h
    · exact absurd (Prod.mk.inj h).2 (by simp)
    · next hclash => exact ⟨hins, by simpa using hclash, (Prod.mk.inj h).1.symm⟩

/-- The ways a call of `create_reservation` ends. -/
inductive BookingEnding (env : Env) (s : Site) (user : User) (body : ReservationCreate)
    (fails : Option Call) : Outcome Site (Option Loaded) → Prop
  | unsaved {s' : Site} {e : Raised} : s'.rows = s.rows →
      BookingEnding env s user body fails ⟨s', false, .error e⟩
  | saved : fails ≠ some .table ∧ fails ≠ some .commit → Accepted env s user body →
      BookingEnding env s user body fails
        ⟨s.booked (rowOf env s user body) body.guestName, true,
          call fails .reload (reload (s.booked (rowOf env s user body) body.guestName) s.nextId)⟩

theorem createReservation_cases :
    BookingEnding env s user body fails (createReservation env s user body fails) := by
  unfold createReservation
  split
  · exact .unsaved rfl
  · next table htable =>
    obtain ⟨hreads, htable⟩ := call_eq_ok.mp htable
    unfold readTable at htable
    split at htable
    · exact absurd htable (by simp)
    · next hid =>
      obtain rfl := Except.ok.inj htable
      split
      · exact .unsaved rfl
      · next t ht =>
        split
        · exact .unsaved rfl
        · next s' e hcommit =>
          obtain ⟨-, hcommit⟩ := call_eq_ok.mp hcommit
          exact .unsaved (commitBooking_error (Except.ok.inj hcommit))
        · next s' hcommit =>
          obtain ⟨hcommits, hcommit⟩ := call_eq_ok.mp hcommit
          obtain ⟨hins, hclash, rfl⟩ := commitBooking_ok (Except.ok.inj hcommit)
          exact .saved ⟨hreads, hcommits⟩ ⟨by simpa using hid, ⟨t, ht⟩, hins, hclash⟩

/-- **An accepted booking is saved**, if the calls up to the commit do not fail. -/
theorem createReservation_accepted (h : Accepted env s user body) (htable : fails ≠ some .table)
    (hcommit : fails ≠ some .commit) :
    createReservation env s user body fails =
      ⟨s.booked (rowOf env s user body) body.guestName, true,
        call fails .reload (reload (s.booked (rowOf env s user body) body.guestName) s.nextId)⟩ := by
  obtain ⟨hid, ⟨t, ht⟩, hins, hclash⟩ := h
  have hread : call fails .table (readTable env body) = .ok (env.table body.restaurantTableId) := by
    refine call_eq_ok.mpr ⟨htable, ?_⟩
    unfold readTable
    rw [if_neg (by rw [hid]; decide)]
  have hsaved : call fails .commit (.ok (commitBooking env s user body)) =
      .ok (s.booked (rowOf env s user body) body.guestName, none) := by
    refine call_eq_ok.mpr ⟨hcommit, congrArg Except.ok ?_⟩
    unfold commitBooking
    simp only [hins, hclash, Bool.false_eq_true, if_false]
  unfold createReservation
  simp only [hread, ht, hsaved]

theorem loads_rowOf : loads (rowOf env s user body) = true ↔ ReadBack body := by
  have hstart : (rowOf env s user body).startsAt = body.startsAt := assignNames_startsAt ..
  have hend : (rowOf env s user body).endsAt = body.endsAt := assignNames_endsAt ..
  unfold loads ReadBack
  rw [hstart, hend, Bool.and_eq_true]

/-- A saved booking is found under its id. -/
theorem lookup_booked (hinv : Deployment.Inv s) :
    Store.lookup reservations (s.rows ++ [rowOf env s user body]) s.nextId
      = some (rowOf env s user body) := by
  have hnone : ∀ r ∈ s.rows, r.id ≠ s.nextId := fun r hr => Nat.ne_of_lt (hinv.bound r hr)
  have hid : (reservations.key (rowOf env s user body) == s.nextId) = true := beq_self_eq_true _
  exact (Store.lookup_append_right hnone).trans (List.find?_cons_of_pos hid)

/-- The SELECT of a saved booking finds it. -/
theorem select_booked (hinv : Deployment.Inv s) :
    selectReservations (readColumns s.phase) (s.rows ++ [rowOf env s user body]) s.nextId
      = some (s.load (rowOf env s user body)) :=
  congrArg (Option.map s.load) (lookup_booked hinv)

/-- **The reload of a saved booking** finds it, and fails if the driver cannot read it. -/
theorem reload_booked (hinv : Deployment.Inv s) :
    reload (s.booked (rowOf env s user body) body.guestName) s.nextId =
      if loads (rowOf env s user body) then .ok (some (s.load (rowOf env s user body)))
      else .error (.database .dataError) := by
  have herror : reloadError (s.booked (rowOf env s user body) body.guestName).schema
      (readColumns (s.booked (rowOf env s user body) body.guestName).phase)
      (s.booked (rowOf env s user body) body.guestName).rows s.nextId
        = loadError (s.rows ++ [rowOf env s user body]) s.nextId := reloadError_eq hinv.fits _ _
  have hrow : selectReservations
      (readColumns (s.booked (rowOf env s user body) body.guestName).phase)
      (s.booked (rowOf env s user body) body.guestName).rows s.nextId
        = some (s.load (rowOf env s user body)) := select_booked hinv
  unfold reload
  rw [herror, hrow]
  unfold loadError
  rw [lookup_booked hinv, Option.any_some]
  cases loads (rowOf env s user body) <;> rfl

/-- **Without a failing call it is the booking of the deployment.** -/
theorem create_reservation_create :
    (createReservation env s user body none).state = (s.create env user body).1 ∧
    answer (createReservation env s user body none).state
      (createReservation env s user body none).result = some (s.create env user body).2 := by
  unfold createReservation Site.create Site.bookingRow
  simp only [call_none]
  unfold readTable
  cases hid : fitsBigint body.restaurantTableId with
  | false => exact ⟨rfl, rfl⟩
  | true =>
    simp only [Bool.true_eq_false, if_false]
    cases hchecks : bookingChecks (env.table body.restaurantTableId) body with
    | error e => exact ⟨rfl, rfl⟩
    | ok t =>
      unfold commitBooking
      cases hins : insertError s.schema (newReservation s.phase user body) with
      | some e => exact ⟨rfl, by cases e <;> rfl⟩
      | none =>
        dsimp only
        cases hclash : s.clashes (rowOf env s user body) with
        | true =>
          unfold rowOf at hclash
          simp only [hclash, if_true, true_and]
          rfl
        | false =>
          have hanswer : answer (s.booked (rowOf env s user body) body.guestName)
              (reload (s.booked (rowOf env s user body) body.guestName) s.nextId)
                = some ((s.booked (rowOf env s user body) body.guestName).reload 201 s.nextId) := by
            unfold reload Site.reload
            cases reloadError (s.booked (rowOf env s user body) body.guestName).schema
                (readColumns (s.booked (rowOf env s user body) body.guestName).phase)
                (s.booked (rowOf env s user body) body.guestName).rows s.nextId with
            | some e => rfl
            | none =>
              dsimp only
              cases selectReservations
                (readColumns (s.booked (rowOf env s user body) body.guestName).phase)
                (s.booked (rowOf env s user body) body.guestName).rows s.nextId <;> rfl
          have hclash' := hclash
          unfold rowOf at hclash'
          simp only [hclash', Bool.false_eq_true, if_false]
          exact ⟨rfl, hanswer⟩

end Booking

/-! ## One failing call -/

/-- **The condition**: the request is saved, and it cannot be read back: the call that would do it
    fails, or the driver cannot read the window. -/
def LosesAnswer (env : Env) (products : Catalogue) (v : Server) (fails : Option Call) : Ask → Prop
  | .order user payload =>
    fails = some .refresh ∧ Orderable env v.site.rows products user payload
  | .reservation _ body =>
    (fails = some .reload ∨ ¬ ReadBack body ∧ fails ≠ some .table ∧ fails ≠ some .commit) ∧
      Bookable env v.site body

section One

variable {env : Env} {products : Catalogue} {now : Int} {v : Server} {fails : Option Call}

theorem order_iff (user : User) (payload : OrderCreate) :
    ErrorSavesNothing v (serve env products now v fails (.order user payload)) ↔
      ¬ LosesAnswer env products v fails (.order user payload) := by
  have hcases : Ending env v.site.rows products now v.till user payload fails
    (createOrder env v.site.rows products now v.till user payload fails) := createOrder_cases
  have hsaves : fails = some .refresh →
      ((∃ d, prepare env v.site.rows products user payload fails = .ok d ∧ saveError env d = none) ↔
        Orderable env v.site.rows products user payload) := fun hf =>
    saves_iff (by simp [hf]) (by simp [hf]) (by simp [hf])
  unfold ErrorSavesNothing serve LosesAnswer
  dsimp only
  generalize createOrder env v.site.rows products now v.till user payload fails = out at hcases ⊢
  cases hcases with
  | unprepared hd =>
    refine iff_of_true ⟨fun _ _ => ⟨rfl, rfl, rfl⟩, fun h => absurd h (by simp)⟩ ?_
    rintro ⟨hf, hok⟩
    obtain ⟨d, hd', -⟩ := (hsaves hf).mpr hok
    exact absurd (hd.symm.trans hd') (by simp)
  | unsaved hd he =>
    refine iff_of_true ⟨fun _ _ => ⟨rfl, rfl, rfl⟩, fun h => absurd h (by simp)⟩ ?_
    rintro ⟨hf, hok⟩
    obtain ⟨d', hd', hsave⟩ := (hsaves hf).mpr hok
    obtain rfl := Except.ok.inj (hd.symm.trans hd')
    rcases he with ⟨-, he⟩ | ⟨⟨x, -, he⟩, -⟩
    · exact absurd (hf.symm.trans he) (by simp)
    · exact absurd (he.symm.trans hsave) (by simp)
  | unread hd hsave hf =>
    refine iff_of_false (fun h => ?_) ?_
    · obtain ⟨reply, hreply⟩ := h.2 rfl
      exact absurd hreply (by simp [Except.map])
    · exact not_not.mpr ⟨hf, (hsaves hf).mp ⟨_, hd, hsave⟩⟩
  | stored _ _ _ hf =>
    exact iff_of_true ⟨fun e he => absurd he (by simp [Except.map]), fun _ => ⟨_, rfl⟩⟩
      fun h => hf h.1

theorem reservation_iff (hinv : Deployment.Inv v.site) (user : User) (body : ReservationCreate) :
    ErrorSavesNothing v (serve env products now v fails (.reservation user body)) ↔
      ¬ LosesAnswer env products v fails (.reservation user body) := by
  unfold ErrorSavesNothing serve LosesAnswer
  dsimp only
  rw [← accepted_iff hinv]
  -- what is read back, once the booking is saved
  have hread : ∀ x, call fails .reload (reload (v.site.booked (rowOf env v.site user body)
      body.guestName) v.site.nextId) = .ok x ↔
        fails ≠ some .reload ∧ ReadBack body ∧ some (v.site.load (rowOf env v.site user body)) = x := by
    intro x
    rw [call_eq_ok, reload_booked hinv, ← loads_rowOf]
    cases loads (rowOf env v.site user body) <;> simp
  by_cases hloses : (fails = some .reload ∨
      ¬ ReadBack body ∧ fails ≠ some .table ∧ fails ≠ some .commit) ∧ Accepted env v.site user body
  · obtain ⟨hlost, hacc⟩ := hloses
    have hcalls : fails ≠ some .table ∧ fails ≠ some .commit := by
      rcases hlost with hf | ⟨-, hcalls⟩
      · exact ⟨by simp [hf], by simp [hf]⟩
      · exact hcalls
    rw [createReservation_accepted hacc hcalls.1 hcalls.2]
    refine iff_of_false (fun h => ?_) (not_not.mpr ⟨hlost, hacc⟩)
    obtain ⟨reply, hreply⟩ := h.2 rfl
    cases hx : call fails .reload (reload (v.site.booked (rowOf env v.site user body)
        body.guestName) v.site.nextId) with
    | error e =>
      rw [hx] at hreply
      exact absurd hreply (by simp [Except.map])
    | ok x =>
      obtain ⟨hf, hback, -⟩ := (hread x).mp hx
      rcases hlost with hf' | ⟨hback', -⟩
      · exact hf hf'
      · exact hback' hback
  · refine iff_of_true ?_ hloses
    have hcases : BookingEnding env v.site user body fails
      (createReservation env v.site user body fails) := createReservation_cases
    generalize createReservation env v.site user body fails = out at hcases ⊢
    cases hcases with
    | unsaved hrows => exact ⟨fun _ _ => ⟨rfl, rfl, hrows⟩, fun h => absurd h (by simp)⟩
    | saved hcalls hacc =>
      have hok : fails ≠ some .reload ∧ ReadBack body := by
        by_contra hno
        refine hloses ⟨?_, hacc⟩
        by_cases hf : fails = some .reload
        · exact .inl hf
        · exact .inr ⟨fun hback => hno ⟨hf, hback⟩, hcalls⟩
      dsimp only
      rw [(hread _).mpr ⟨hok.1, hok.2, rfl⟩]
      exact ⟨fun e he => absurd he (by simp [Except.map]), fun _ => ⟨_, rfl⟩⟩

end One

/-- **An error answer means nothing was saved, except when what the request has just saved cannot be
    read back**: the call that fails is its refresh or its reload, or the driver cannot read the
    window of the booking. -/
theorem error_saves_nothing_iff (env : Env) (products : Catalogue) (now : Int) (v : Server)
    (fails : Option Call) (req : Ask)
    (hreach : (deployment env).Reach (fun _ _ => True) .start v.site) :
    ErrorSavesNothing v (serve env products now v fails req) ↔
      ¬ LosesAnswer env products v fails req := by
  have hinv : Deployment.Inv v.site :=
    hreach.invariant inv_start fun s ev s' h _ hst => h.step hst
  cases req with
  | order user payload => exact order_iff user payload
  | reservation user body => exact reservation_iff hinv user body

/-- No reservation and no order. -/
def opened : Server := ⟨.start, emptyTill⟩

/-- **A failing telemetry insert** does not fail the order. -/
theorem telemetry_is_only_logged : ErrorSavesNothing opened
    (serve sample (menu "THB".toList) 0 opened (some .telemetry)
      (.order customer (lunchOrder none no_reservation))) :=
  (error_saves_nothing_iff sample (menu "THB".toList) 0 opened (some .telemetry) _ .refl).mpr
    fun h => absurd h.1 (by decide)

/-- **A failing refresh** answers an order with an error that is saved. -/
theorem refresh_loses_order : ¬ ∀ (env : Env) (products : Catalogue) (now : Int) (v : Server)
    (fails : Option Call) (req : Ask), (deployment env).Reach (fun _ _ => True) .start v.site →
    ErrorSavesNothing v (serve env products now v fails req) := by
  intro h
  obtain ⟨herror, -⟩ := h sample (menu "THB".toList) 0 opened (some .refresh)
    (.order customer (lunchOrder none no_reservation)) .refl
  have horders := congrArg List.length (herror (.lost .refresh) rfl).orders
  exact absurd horders (by decide)

end TableFlow.Outage
