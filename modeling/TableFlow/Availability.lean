/-
  The hint `GET /restaurants/{id}/availability` against the booking it hints at.

  1. **The query** — one row for each table of the restaurant that seats the party, with a NOT
     EXISTS on its reservations; the overlap is the range operator of the constraint
     (`taken_eq_false`).
  2. **The booking** — `create_reservation` with nothing beside it succeeds exactly when the booking
     is `Bookable` and its window can be read back (`createReservation_succeeds`).
  3. **Both agree** on every table that is listed, but for a window that the driver cannot read
     back: the hint offers free tables for it, and no booking succeeds (`availability_agrees_iff`).
-/
import TableFlow.Outage

namespace TableFlow.Availability

open Lib Deployment Outage

/-! ## The query -/

/-- A row of `restaurant_tables`, with the column that only the hint shows. -/
structure TableRow extends RestaurantTable where
  tableNumber : Text

/-- The table `restaurant_tables`: its primary key is a `bigint`. -/
structure Tables where
  rows : List TableRow
  keys : (rows.map (·.id)).Nodup
  bigint : ∀ t ∈ rows, fitsBigint t.id = true

/-- The environment with these tables. -/
def Tables.env (tables : Tables) (env : Env) : Env :=
  { env with tables := tables.rows.map TableRow.toRestaurantTable }

/-- A table in the answer. -/
structure AvailabilitySlot where
  restaurantTableId : Nat
  tableNumber : Text
  capacity : Nat
  available : Bool
  deriving DecidableEq

/-- The answer of `check_availability`. -/
inductive Hint
  | slots (l : List AvailabilitySlot)
  | refused (e : HTTPException)
  | failed (e : DbError)
  deriving DecidableEq

/-- The EXISTS on the reservations of a table. -/
def taken (rows : List Reservation) (tableId : Nat) (startsAt endsAt : Int) : Bool :=
  rows.any fun r => r.restaurantTableId == tableId && r.status != .cancelled &&
    overlaps r.startsAt r.endsAt startsAt endsAt

/-- The tables of the query, in the order of their ids. -/
def seating (tables : Tables) (restaurantId partySize : Nat) : List TableRow :=
  (tables.rows.filter fun t => t.restaurantId == restaurantId && t.isActive &&
    decide (partySize ≤ t.capacity)).insertionSort fun a b => a.id ≤ b.id

/-- `check_availability` of a window with offsets.  The query returns no instant, so the driver has
    none to read. -/
def checkAvailability (tables : Tables) (rows : List Reservation) (restaurantId : Nat)
    (startsAt endsAt : Int) (partySize : Nat) : Hint :=
  if endsAt ≤ startsAt then .refused ⟨400, "ends_at must be after starts_at"⟩
  else if fitsBigint restaurantId = false then .failed .dataError
  else
    .slots ((seating tables restaurantId partySize).map fun t =>
      ⟨t.id, t.tableNumber, t.capacity, !taken rows t.id startsAt endsAt⟩)

/-! ## The booking -/

/-- The same booking for another table. -/
def forTable (body : ReservationCreate) (tableId : Nat) : ReservationCreate :=
  { body with restaurantTableId := tableId }

/-- `create_reservation`, executed alone, returns a reservation. -/
def Succeeds (env : Env) (s : Site) (user : User) (body : ReservationCreate) : Prop :=
  ∃ l, (createReservation env s user body none).result = .ok (some l)

/-- No active reservation of the table has a moment in common with the window, by its ends. -/
def Free (rows : List Reservation) (tableId : Nat) (startsAt endsAt : Int) : Prop :=
  ∀ r ∈ rows, r.status ≠ .cancelled → r.restaurantTableId = tableId →
    ¬ (r.startsAt < endsAt ∧ r.endsAt > startsAt)

/-- What the hint is to say about a booking request. -/
structure Agrees (tables : Tables) (env : Env) (s : Site) (user : User) (body : ReservationCreate)
    (slots : List AvailabilitySlot) : Prop where
  /-- The slots are the restaurant's active tables with enough capacity, -/
  listed : ∀ x, x ∈ slots.map (fun slot => (slot.restaurantTableId, slot.tableNumber, slot.capacity)) ↔
    ∃ t ∈ tables.rows, t.restaurantId = body.restaurantId ∧ t.isActive = true ∧
      body.partySize ≤ t.capacity ∧ x = (t.id, t.tableNumber, t.capacity)
  /-- each once. -/
  once : (slots.map AvailabilitySlot.restaurantTableId).Nodup
  booking : ∀ slot ∈ slots, slot.available = true ↔
    Succeeds (tables.env env) s user (forTable body slot.restaurantTableId)
  free : ∀ slot ∈ slots, Succeeds (tables.env env) s user (forTable body slot.restaurantTableId) ↔
    Free s.rows slot.restaurantTableId body.startsAt body.endsAt

section Booking

variable {env : Env} {s : Site} {user : User} {body : ReservationCreate}

/-- **A booking alone succeeds exactly when it is bookable** and its window can be read back. -/
theorem createReservation_succeeds (hinv : Deployment.Inv s) :
    Succeeds env s user body ↔ Bookable env s body ∧ ReadBack body := by
  have haccepted : Accepted env s user body ↔ Bookable env s body := accepted_iff hinv
  have hloads : loads (rowOf env s user body) = true ↔ ReadBack body := loads_rowOf
  rw [← haccepted, ← hloads]
  constructor
  · rintro ⟨l, hl⟩
    generalize hx : createReservation env s user body none = x at hl
    have hcases : BookingEnding env s user body none x := hx ▸ createReservation_cases
    cases hcases with
    | unsaved _ => exact absurd hl (by simp)
    | saved _ h =>
      rw [Checkout.call_none, reload_booked hinv] at hl
      refine ⟨h, ?_⟩
      by_contra hno
      rw [if_neg hno] at hl
      exact absurd hl (by simp)
  · rintro ⟨h, hload⟩
    unfold Succeeds
    rw [createReservation_accepted h (by simp) (by simp), Checkout.call_none, reload_booked hinv,
      if_pos hload]
    exact ⟨_, rfl⟩

/-- The three ways to say that two windows overlap are one, for windows that are not empty. -/
theorem overlaps_eq_false {s e s' e' : Int} (h : s < e) (h' : s' < e') :
    overlaps s e s' e' = false ↔ ¬ (s' < e ∧ e' > s) := by
  simp only [overlaps, h, h', decide_true, Bool.true_and, Bool.and_eq_false_iff,
    decide_eq_false_iff_not]
  omega

/-- **The subquery finds nothing** when the table is free. -/
theorem taken_eq_false (hwindow : ∀ r ∈ s.rows, r.startsAt < r.endsAt) (tableId : Nat) :
    taken s.rows tableId body.startsAt body.endsAt = false ↔
      Free s.rows tableId body.startsAt body.endsAt := by
  unfold taken Free
  rw [List.any_eq_false]
  refine forall₂_congr fun r hr => ?_
  rw [Bool.not_eq_true, overlaps_comm]
  have hends := overlaps_eq_false body.window (hwindow r hr)
  by_cases hstatus : r.status = .cancelled
  · simp [hstatus]
  · by_cases htable : r.restaurantTableId = tableId
    · simp [hstatus, htable, hends]
    · simp [hstatus, htable]

theorem env_table {tables : Tables} {t : TableRow} (ht : t ∈ tables.rows) :
    (tables.env env).table t.id = some t.toRestaurantTable := by
  obtain ⟨t', ht'⟩ : ∃ t', tables.rows.find? (·.id == t.id) = some t' :=
    Option.isSome_iff_exists.mp (List.find?_isSome.mpr ⟨t, ht, beq_self_eq_true _⟩)
  have hid : t'.id = t.id := by simpa using List.find?_some ht'
  have heq : t' = t :=
    List.inj_on_of_nodup_map tables.keys (List.mem_of_find?_eq_some ht') ht hid
  unfold Env.table Tables.env
  rw [List.find?_map]
  show (tables.rows.find? (·.id == t.id)).map _ = _
  rw [ht', heq]
  rfl

/-- What is left to ask of a table that is listed. -/
theorem bookable_iff {tables : Tables} {t : TableRow} (ht : t ∈ tables.rows)
    (hrest : t.restaurantId = body.restaurantId) (hactive : t.isActive = true)
    (hcap : body.partySize ≤ t.capacity) (hnames : NamesSent s.phase body)
    (hwindow : ∀ r ∈ s.rows, r.startsAt < r.endsAt) :
    Bookable (tables.env env) s (forTable body t.id) ↔
      Free s.rows t.id body.startsAt body.endsAt := by
  have hends : ∀ r ∈ s.rows, overlaps body.startsAt body.endsAt r.startsAt r.endsAt = false ↔
      ¬ (r.startsAt < body.endsAt ∧ r.endsAt > body.startsAt) :=
    fun r hr => overlaps_eq_false body.window (hwindow r hr)
  constructor
  · intro h r hr hstatus htable
    exact (hends r hr).mp (h.free r hr hstatus htable)
  · intro h
    exact ⟨tables.bigint t ht, ⟨t.toRestaurantTable, env_table ht, hrest, hactive, hcap⟩, hnames,
      fun r hr hstatus htable => (hends r hr).mpr (h r hr hstatus htable)⟩

end Booking

/-! ## Both agree -/

theorem mem_seating {tables : Tables} {restaurantId partySize : Nat} {t : TableRow} :
    t ∈ seating tables restaurantId partySize ↔
      t ∈ tables.rows ∧ t.restaurantId = restaurantId ∧ t.isActive = true ∧
        partySize ≤ t.capacity := by
  unfold seating
  rw [List.mem_insertionSort, List.mem_filter]
  simp [and_assoc]

theorem nodup_seating (tables : Tables) (restaurantId partySize : Nat) :
    ((seating tables restaurantId partySize).map (·.id)).Nodup := by
  unfold seating
  exact ((List.perm_insertionSort _ _).map _).nodup_iff.mpr
    (tables.keys.sublist (List.filter_sublist.map _))

/-- The slots that a query answers with. -/
def slotsOf (tables : Tables) (rows : List Reservation) (body : ReservationCreate) :
    List AvailabilitySlot :=
  (seating tables body.restaurantId body.partySize).map fun t =>
    ⟨t.id, t.tableNumber, t.capacity, !taken rows t.id body.startsAt body.endsAt⟩

/-- **What the query answers agrees with the booking**, if a booking of every listed table succeeds
    exactly when the table is free. -/
theorem agrees_slotsOf {env : Env} {tables : Tables} {s : Site} (hinv : Deployment.Inv s)
    (user : User) {body : ReservationCreate}
    (hbook : ∀ t ∈ seating tables body.restaurantId body.partySize,
      Succeeds (tables.env env) s user (forTable body t.id) ↔
        Free s.rows t.id body.startsAt body.endsAt) :
    Agrees tables env s user body (slotsOf tables s.rows body) := by
  have hwindow : ∀ r ∈ s.rows, r.startsAt < r.endsAt := fun r hr => (hinv.rowsOk r hr).window
  have hfree : ∀ slot ∈ slotsOf tables s.rows body,
      Succeeds (tables.env env) s user (forTable body slot.restaurantTableId) ↔
        Free s.rows slot.restaurantTableId body.startsAt body.endsAt := by
    intro slot hslot
    obtain ⟨t, ht, rfl⟩ := List.mem_map.mp hslot
    exact hbook t ht
  refine ⟨fun x => ?_, ?_, fun slot hslot => ?_, hfree⟩
  · unfold slotsOf
    rw [List.map_map, List.mem_map]
    constructor
    · rintro ⟨t, ht, rfl⟩
      obtain ⟨hmem, hrest, hactive, hcap⟩ := mem_seating.mp ht
      exact ⟨t, hmem, hrest, hactive, hcap, rfl⟩
    · rintro ⟨t, hmem, hrest, hactive, hcap, rfl⟩
      exact ⟨t, mem_seating.mpr ⟨hmem, hrest, hactive, hcap⟩, rfl⟩
  · unfold slotsOf
    rw [List.map_map]
    exact nodup_seating tables body.restaurantId body.partySize
  · rw [hfree slot hslot, ← taken_eq_false hwindow]
    obtain ⟨t, -, rfl⟩ := List.mem_map.mp hslot
    simp

/-- **The hint agrees with the booking exactly when** the id of the restaurant is a `bigint`, and the
    window can be read back and the name sent, or none of the tables is free. -/
theorem availability_agrees_iff (tables : Tables) (env : Env) (s : Site)
    (hinv : Deployment.Inv s) (user : User) (body : ReservationCreate) :
    (∃ slots, checkAvailability tables s.rows body.restaurantId body.startsAt body.endsAt
        body.partySize = .slots slots ∧ Agrees tables env s user body slots) ↔
      fitsBigint body.restaurantId = true ∧ (ReadBack body ∧ NamesSent s.phase body ∨
        ∀ t ∈ seating tables body.restaurantId body.partySize,
          ¬ Free s.rows t.id body.startsAt body.endsAt) := by
  have hwindow : ∀ r ∈ s.rows, r.startsAt < r.endsAt := fun r hr => (hinv.rowsOk r hr).window
  -- a booking whose window cannot be read back, or whose name is not sent, does not succeed
  have hread : ∀ t, Succeeds (tables.env env) s user (forTable body t) →
      ReadBack body ∧ NamesSent s.phase body := fun t h =>
    have hok := (createReservation_succeeds hinv).mp h
    ⟨hok.2, hok.1.names⟩
  unfold checkAvailability
  rw [if_neg (not_le.mpr body.window)]
  constructor
  · rintro ⟨slots, hslots, hagrees⟩
    split at hslots
    · exact absurd hslots (by simp)
    · next hid =>
      refine ⟨by simpa using hid, or_iff_not_imp_left.mpr fun hnot t ht hfree => hnot ?_⟩
      obtain rfl := Hint.slots.inj hslots
      exact hread t.id ((hagrees.free _ (List.mem_map_of_mem ht)).mpr hfree)
  · rintro ⟨hid, hcond⟩
    rw [if_neg (by simp [hid])]
    refine ⟨slotsOf tables s.rows body, rfl, agrees_slotsOf hinv user fun t ht => ?_⟩
    obtain ⟨hmem, hrest, hactive, hcap⟩ := mem_seating.mp ht
    by_cases hfits : ReadBack body ∧ NamesSent s.phase body
    · exact (createReservation_succeeds hinv).trans
        ((and_iff_left hfits.1).trans (bookable_iff hmem hrest hactive hcap hfits.2 hwindow))
    · exact iff_of_false (fun h => hfits (hread t.id h)) (hcond.resolve_left hfits t ht)

/-- One table, for four. -/
def oneTable : Tables where
  rows := [⟨⟨7, 1, 4, true⟩, "T1".toList⟩]
  keys := List.nodup_singleton _
  bigint := fun t ht => by
    rw [List.mem_singleton.mp ht]
    decide

/-- The table is booked for lunch. -/
def afterLunch : Site := (Site.start.create sample customer lunchForTwo).1

theorem inv_afterLunch : Deployment.Inv afterLunch :=
  inv_start.step (show (deployment sample).step .start (.create customer lunchForTwo)
    = some afterLunch from rfl)

/-- An overlapping lunch is hinted at as taken, and refused. -/
theorem lunch_hint_agrees : ∃ slots,
    checkAvailability oneTable afterLunch.rows 1 lunchForFour.startsAt lunchForFour.endsAt 4
      = .slots slots ∧ Agrees oneTable sample afterLunch customer lunchForFour slots :=
  (availability_agrees_iff oneTable sample afterLunch inv_afterLunch customer lunchForFour).mpr
    ⟨by decide, .inl ⟨⟨by decide, by decide⟩, by decide⟩⟩

theorem annLee_length : 2 ≤ annLee.length ∧ annLee.length ≤ 120 := by decide

theorem party_of_two : 0 < 2 ∧ 2 ≤ 20 := by decide

/-- Two hours from midnight on of the first of January of the year 1, fourteen hours east of
    Greenwich. -/
def yearOne : ReservationCreate where
  restaurantId := 1
  restaurantTableId := 7
  guestName := annLee
  partySize := 2
  startsAt := -62135596800000000 - 14 * 3600000000
  endsAt := -62135596800000000 - 12 * 3600000000
  guestName_length := annLee_length
  partySize_range := party_of_two
  window := by decide
  duration := by decide

/-- **For this window the hint offers a table that cannot be booked**: its UTC form is in no year a
    `datetime` knows. -/
theorem year_one_hint_misleads : ¬ ∀ (tables : Tables) (env : Env) (s : Site), Deployment.Inv s →
    ∀ (user : User) (body : ReservationCreate), (∃ r, env.restaurant body.restaurantId = some r) →
      ∃ slots, checkAvailability tables s.rows body.restaurantId body.startsAt body.endsAt
        body.partySize = .slots slots ∧ Agrees tables env s user body slots := by
  intro h
  obtain ⟨slots, hslots, hagrees⟩ := h oneTable sample .start inv_start customer yearOne ⟨_, rfl⟩
  have hlisted : checkAvailability oneTable [] 1 yearOne.startsAt yearOne.endsAt 2
      = .slots [⟨7, "T1".toList, 4, true⟩] := by decide
  obtain rfl := Hint.slots.inj (hlisted.symm.trans hslots)
  have hbooked := (hagrees.booking _ (List.mem_singleton.mpr rfl)).mp rfl
  exact absurd ((createReservation_succeeds inv_start).mp hbooked).2.1 (by decide)

end TableFlow.Availability
