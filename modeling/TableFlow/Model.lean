/-
  The data the reservation service works on: tables, reservations, requests and answers.

  * Texts are lists of characters (`Text`).  The schemas let every character pass, PostgreSQL text
    holds all but U+0000: the driver refuses to send it (`storable`).
  * Times are microseconds since the epoch: both Python's offset-aware `datetime` and
    PostgreSQL's `timestamptz` compare by that number.
  * A request body that passed validation is a structure whose last fields ARE the validation, so
    a body the schema would answer with 422 cannot be built.

  The three name columns exist only for part of the migration (`Schema`); a row has `none` both in
  a column that holds NULL and in one that does not exist.
-/
import TableFlow.Lib.Mvcc
import Mathlib

namespace TableFlow

open Lib

/-- Text as a validated request brings it. -/
abbrev Text := List Char

/-- PostgreSQL can hold the text, and the driver sends it: there is no U+0000 in it. -/
def storable (t : Text) : Bool := !t.contains (Char.ofNat 0)

/-! ## Users, restaurants and tables -/

/-- `UserRole` -/
inductive UserRole
  | customer
  | staff
  | admin
  deriving DecidableEq, Repr

/-- The caller of a request. -/
structure User where
  id : Nat
  role : UserRole
  deriving DecidableEq, Repr

/-- A row of `restaurants`. -/
structure Restaurant where
  id : Nat
  name : Text
  deriving DecidableEq, Repr

/-- A table that customers book. -/
structure RestaurantTable where
  id : Nat
  restaurantId : Nat
  capacity : Nat
  isActive : Bool
  deriving DecidableEq, Repr

/-! ## Reservations -/

/-- `ReservationStatus` -/
inductive ReservationStatus
  | pending
  | confirmed
  | cancelled
  deriving DecidableEq, Repr

/-- The columns of the name migration. -/
inductive Column
  | guestName
  | firstName
  | lastName
  deriving DecidableEq, Repr

/-- One row of `reservations`; `version` is its `xmin`. -/
structure Reservation where
  id : Nat
  userId : Nat
  restaurantId : Nat
  restaurantTableId : Nat
  guestName : Option Text
  firstName : Option Text
  lastName : Option Text
  partySize : Nat
  startsAt : Int
  endsAt : Int
  status : ReservationStatus
  createdAt : Int
  version : Nat
  deriving DecidableEq, Repr

namespace Reservation

/-- The value of a name column. -/
def get (r : Reservation) : Column → Option Text
  | .guestName => r.guestName
  | .firstName => r.firstName
  | .lastName => r.lastName

/-- Assign a name column. -/
def set (r : Reservation) (c : Column) (v : Text) : Reservation :=
  match c with
  | .guestName => { r with guestName := some v }
  | .firstName => { r with firstName := some v }
  | .lastName => { r with lastName := some v }

end Reservation

/-! ## The exclusion constraint `no_double_booking` -/

/-- `tstzrange(s, e, '[)') && tstzrange(s', e', '[)')`: an empty range overlaps nothing. -/
def overlaps (s e s' e' : Int) : Bool :=
  decide (s < e) && decide (s' < e') && decide (s < e') && decide (s' < e)

/-- The range operator says that the two half-open windows have a moment in common. -/
theorem overlaps_iff (s e s' e' : Int) :
    overlaps s e s' e' = true ↔ (Set.Ico s e ∩ Set.Ico s' e').Nonempty := by
  rw [Set.Ico_inter_Ico, Set.nonempty_Ico]
  simp only [overlaps, Bool.and_eq_true, decide_eq_true_eq, sup_lt_iff, lt_inf_iff]
  omega

theorem overlaps_comm (s e s' e' : Int) : overlaps s e s' e' = overlaps s' e' s e := by
  rw [Bool.eq_iff_iff]
  simp only [overlaps, Bool.and_eq_true, decide_eq_true_eq]
  omega

/-- Same table and overlapping windows, whatever the status. -/
def sameSlot (a b : Reservation) : Bool :=
  a.restaurantTableId == b.restaurantTableId && overlaps a.startsAt a.endsAt b.startsAt b.endsAt

/-- The pairs of rows `EXCLUDE USING gist (restaurant_table_id WITH =, tstzrange(..) WITH &&)
    WHERE (status <> 'cancelled')` forbids. -/
def doubleBooking (a b : Reservation) : Bool :=
  a.status != .cancelled && b.status != .cancelled && sameSlot a b

theorem sameSlot_comm (a b : Reservation) : sameSlot a b = sameSlot b a := by
  unfold sameSlot
  rw [overlaps_comm, Bool.beq_comm]

theorem doubleBooking_comm (a b : Reservation) : doubleBooking a b = doubleBooking b a := by
  unfold doubleBooking
  rw [sameSlot_comm, Bool.and_comm (a.status != .cancelled)]

theorem doubleBooking_iff (a b : Reservation) :
    doubleBooking a b = true ↔
      a.status ≠ .cancelled ∧ b.status ≠ .cancelled ∧ sameSlot a b = true := by
  simp [doubleBooking, and_assoc]

/-- The table `reservations`, as the store sees it: keyed by id, versioned by `xmin`, no two rows
    double-booked. -/
def reservations : RowSpec Reservation where
  key := Reservation.id
  version := Reservation.version
  clash := doubleBooking
  clash_symm := doubleBooking_comm

@[simp] theorem reservations_key (r : Reservation) : reservations.key r = r.id := rfl
@[simp] theorem reservations_clash (a b : Reservation) :
    reservations.clash a b = doubleBooking a b := rfl

/-! ## Request bodies -/

/-- Six hours, in microseconds. -/
def sixHours : Int := 6 * 3600 * 1000000

/-- A validated booking request. -/
structure ReservationCreate where
  restaurantId : Nat
  restaurantTableId : Nat
  guestName : Text
  partySize : Nat
  startsAt : Int
  endsAt : Int
  guestName_length : 2 ≤ guestName.length ∧ guestName.length ≤ 120
  partySize_range : 0 < partySize ∧ partySize ≤ 20
  /-- `check_window`: `ends_at` must be after `starts_at`. -/
  window : startsAt < endsAt
  /-- `check_window`: a reservation cannot exceed 6 hours. -/
  duration : endsAt - startsAt ≤ sixHours
  deriving DecidableEq

/-- A validated partial update. -/
structure ReservationUpdate where
  guestName : Option Text
  partySize : Option Nat
  status : Option ReservationStatus
  guestName_length : ∀ n, guestName = some n → 2 ≤ n.length ∧ n.length ≤ 120
  partySize_range : ∀ p, partySize = some p → 0 < p ∧ p ≤ 20

/-! ## Answers -/

/-- `ReservationOut` -/
structure ReservationOut where
  id : Nat
  userId : Nat
  restaurantId : Nat
  restaurantTableId : Nat
  guestName : Text
  partySize : Nat
  startsAt : Int
  endsAt : Int
  status : ReservationStatus
  createdAt : Int
  version : Nat
  deriving DecidableEq, Repr

/-- One row of the "my bookings" list, with the restaurant's name joined in. -/
structure ReservationListItem extends ReservationOut where
  restaurantName : Text
  deriving DecidableEq, Repr

/-- An error the service raises on purpose. -/
structure HTTPException where
  status : Nat
  detail : String
  deriving DecidableEq, Repr

/-- What PostgreSQL can refuse a statement with. -/
inductive DbError
  | undefinedColumn (c : Column)
  | stringTooLong (c : Column)
  | notNullViolation (c : Column)
  | checkViolation (constraint : String)
  | exclusionViolation
  | deadlockDetected
  /-- `DataError`: an integer beyond `bigint`, a text with U+0000, which the driver does not send, or
      an instant whose UTC form is no `datetime`, which it cannot load. -/
  | dataError
  deriving DecidableEq, Repr

/-- An integer that fits `bigint`. -/
def fitsBigint (n : Nat) : Bool := decide (n < 2 ^ 63)

/-- SQLAlchemy's `IntegrityError`; the other errors are different exception classes. -/
def DbError.isIntegrityError : DbError → Bool
  | .notNullViolation _ | .checkViolation _ | .exclusionViolation => true
  | .undefinedColumn _ | .stringTooLong _ | .deadlockDetected | .dataError => false

/-- An exception nobody catches: the client sees a 500. -/
inductive ServerError
  | database (e : DbError)
  /-- An attribute was read that the SELECT did not load. -/
  | notLoaded (c : Column)
  /-- The response model got `None` where it needs a string. -/
  | missingName
  /-- The row to answer with was not found. -/
  | noRow
  deriving DecidableEq, Repr

end TableFlow
