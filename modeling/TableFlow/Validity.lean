/-
  Valid bookings: which of the checks of a booking hold for its whole life.

  1. **Placed** — that a reservation is at a table of its restaurant, for a window of at most six
     hours, is checked when it is made, and no edit can change it.
  2. **The party** — an edit can: the party size is only checked against the table when a booking
     is made.  An active reservation fits its table along a run exactly when every edit that leaves
     one active leaves it a party that the table can take (`FitsTable`).
-/
import TableFlow.Deployment

namespace TableFlow.Deployment

open Lib

variable {env : Env} {s s' : Site}

/-! ## What a booking fixes -/

/-- The reservation is at a table of its restaurant, for a window that could be booked. -/
structure Placed (env : Env) (r : Reservation) : Prop where
  table : ∃ t, env.table r.restaurantTableId = some t ∧ t.restaurantId = r.restaurantId
  window : r.startsAt < r.endsAt
  duration : r.endsAt - r.startsAt ≤ sixHours

/-- **A new booking is placed**, and its party fits the table. -/
theorem placed_booking {user : User} {body : ReservationCreate} {r : Reservation}
    (h : s.bookingRow env user body = .ok r) :
    Placed env r ∧ ∃ t, env.table r.restaurantTableId = some t ∧ 0 < r.partySize ∧
      r.partySize ≤ t.capacity := by
  obtain ⟨⟨t, ht, hrest, hcap⟩, -, rfl⟩ := bookingRow_ok h
  have hparty : (newReservation s.phase user body).partySize = body.partySize :=
    assignNames_partySize ..
  have htable : (newReservation s.phase user body).restaurantTableId = body.restaurantTableId :=
    assignNames_restaurantTableId ..
  have hrestaurant : (newReservation s.phase user body).restaurantId = body.restaurantId :=
    assignNames_restaurantId ..
  have hstart : (newReservation s.phase user body).startsAt = body.startsAt :=
    assignNames_startsAt ..
  have hend : (newReservation s.phase user body).endsAt = body.endsAt := assignNames_endsAt ..
  unfold inserted
  refine ⟨⟨⟨t, ?_, ?_⟩, ?_, ?_⟩, t, ?_, ?_, ?_⟩
  · rw [htable, ht]
  · rw [hrestaurant, hrest]
  · rw [hstart, hend]
    exact body.window
  · rw [hstart, hend]
    exact body.duration
  · rw [htable, ht]
  · rw [hparty]
    exact body.partySize_range.1
  · rw [hparty]
    exact hcap

/-- **An edit does not move a reservation.** -/
theorem Placed.apply {r : Reservation} (h : Placed env r) (ch : Changes) (v : Nat) :
    Placed env (ch.apply r v) where
  table := by
    rw [apply_restaurantTableId, apply_restaurantId]
    exact h.table
  window := by
    rw [apply_startsAt, apply_endsAt]
    exact h.window
  duration := by
    rw [apply_startsAt, apply_endsAt]
    exact h.duration

theorem Placed.filled {r r' : Reservation} (h : Placed env r) (hf : Filled r r') :
    Placed env r' := by
  rcases hf with rfl | ⟨-, v, rfl⟩
  · exact h
  · exact ⟨h.table, h.window, h.duration⟩

/-- **Every reservation stays placed**, cancelled or not. -/
theorem placed_step (hinv : Inv s) (h : ∀ r ∈ s.rows, Placed env r) {ev : Event}
    (hst : (deployment env).step s ev = some s') : ∀ r ∈ s'.rows, Placed env r := by
  intro x hx
  cases step_cases hinv.ids hst with
  | create hr _ =>
    rcases mem_booked.mp hx with hx | rfl
    · exact h x hx
    · exact (placed_booking hr).1
  | edit hrow _ _ _ =>
    obtain ⟨r, hr, ed, -, rfl, -, -⟩ := editRow_ok hrow
    rcases mem_replaced.mp hx with ⟨hx, -⟩ | rfl
    · exact h x hx
    · exact (h r hr).apply _ _
  | backfill hf =>
    obtain ⟨r, hr, hxr⟩ := hf.mem hx
    exact (h r hr).filled hxr
  | _ => exact h x hx

/-! ## Valid reservations -/

/-- An active reservation as the booking rules want it. -/
structure ValidBooking (env : Env) (r : Reservation) : Prop where
  party : ∃ t, env.table r.restaurantTableId = some t ∧ t.restaurantId = r.restaurantId ∧
    1 ≤ r.partySize ∧ r.partySize ≤ t.capacity
  window : r.startsAt < r.endsAt
  duration : r.endsAt - r.startsAt ≤ sixHours

/-- Every active reservation is valid. -/
def AllValid (env : Env) (s : Site) : Prop :=
  ∀ r ∈ s.rows, r.status ≠ .cancelled → ValidBooking env r

/-- A placed reservation is valid when its party fits the table. -/
theorem Placed.valid {r : Reservation} (h : Placed env r) (hp : 0 < r.partySize)
    (hfit : ∀ t, env.table r.restaurantTableId = some t → r.partySize ≤ t.capacity) :
    ValidBooking env r := by
  obtain ⟨t, ht, hrest⟩ := h.table
  exact ⟨⟨t, ht, hrest, hp, hfit t ht⟩, h.window, h.duration⟩

/-- **The condition**: a PATCH that gets through and leaves its reservation active leaves it a party
    that its table can take. -/
def FitsTable (env : Env) (s : Site) : Event → Prop
  | .edit user id (.patch ifMatch body) =>
    s.Flushes user id (.patch ifMatch body) → ∀ r ∈ s.rows, r.id = id →
      body.status.getD r.status ≠ .cancelled →
      ∀ t, env.table r.restaurantTableId = some t → body.partySize.getD r.partySize ≤ t.capacity
  | _ => True

/-! ### One event -/

/-- **One event keeps every active reservation valid**, if it leaves no party too large. -/
theorem AllValid.step (h : AllValid env s) (hinv : Inv s) (hplaced : ∀ r ∈ s.rows, Placed env r)
    {ev : Event} (hC : FitsTable env s ev) (hst : (deployment env).step s ev = some s') :
    AllValid env s' := by
  have hplaced' := placed_step hinv hplaced hst
  have hparty : ∀ x ∈ s'.rows, 0 < x.partySize := fun x hx => ((hinv.step hst).rowsOk x hx).party.1
  intro x hx hact
  cases step_cases hinv.ids hst with
  | create hr _ =>
    rcases mem_booked.mp hx with hold | rfl
    · exact h x hold hact
    · obtain ⟨t, ht, hpos, hcap⟩ := (placed_booking hr).2
      refine (placed_booking hr).1.valid hpos fun t' ht' => ?_
      obtain rfl := Option.some.inj (ht.symm.trans ht')
      exact hcap
  | @edit user id op l ch hrow hne hupd hclash =>
    have hflush : s.Flushes user id op := ⟨l, ch, hrow, hne, hupd, hclash⟩
    obtain ⟨r, hr, ed, hid, rfl, hed, rfl⟩ := editRow_ok hrow
    rcases mem_replaced.mp hx with ⟨hold, -⟩ | rfl
    · exact h x hold hact
    · refine (hplaced' _ hx).valid (hparty _ hx) fun t ht => ?_
      rw [net_apply_status, apply_status] at hact
      rw [net_apply_partySize, apply_partySize]
      rw [apply_restaurantTableId] at ht
      cases op with
      | get => exact absurd hed (by simp [Op.edit])
      | delete ifMatch =>
        obtain rfl := Option.some.inj hed
        exact absurd rfl hact
      | patch ifMatch body =>
        obtain rfl := Option.some.inj hed
        exact hC hflush r hr hid hact t ht
  | backfill hf =>
    obtain ⟨r, hr, rfl | ⟨-, v, rfl⟩⟩ := hf.mem hx
    · exact h x hr hact
    · obtain ⟨hp, hw, hd⟩ := h r hr hact
      exact ⟨hp, hw, hd⟩
  | _ => exact h x hx hact

/-- **An edit that leaves an active reservation with too large a party makes it invalid.** -/
theorem not_allValid_step {ev : Event} (hinv : Inv s) (hC : ¬ FitsTable env s ev)
    (hst : (deployment env).step s ev = some s') : ¬ AllValid env s' := by
  cases ev with
  | edit user id op =>
    cases op with
    | get => exact absurd trivial hC
    | delete ifMatch => exact absurd trivial hC
    | patch ifMatch body =>
      obtain ⟨hflush, hC⟩ := Classical.not_imp.mp hC
      obtain ⟨l, ch, hrow, hne, hupd, hclash⟩ := hflush
      obtain rfl := Option.some.inj hst
      intro hall
      refine hC fun r hr hid hact t ht => ?_
      unfold Site.edit at hall
      rw [hrow] at hall
      dsimp only at hall
      rw [if_neg (by rw [hne]; decide), hupd] at hall
      dsimp only at hall
      rw [if_neg (by rw [hclash]; decide)] at hall
      obtain ⟨r', hr', ed, hid', rfl, hed, rfl⟩ := editRow_ok hrow
      obtain rfl := List.inj_on_of_nodup_map hinv.ids hr hr' (hid.trans hid'.symm)
      obtain rfl := Option.some.inj hed
      obtain ⟨⟨t', ht', -, -, hcap⟩, -, -⟩ := hall _ (mem_replaced.mpr (Or.inr rfl)) (by
        rw [net_apply_status, apply_status]
        exact hact)
      rw [net_apply_partySize, apply_partySize] at hcap
      rw [apply_restaurantTableId] at ht'
      obtain rfl := Option.some.inj (ht.symm.trans ht')
      exact hcap
  | _ => exact absurd trivial hC

/-! ### Every run -/

/-- **Every active reservation stays valid along a run exactly when no PATCH gives one a party that
    its table cannot take.** -/
theorem bookings_stay_valid_iff (env : Env) (evs : List Event) :
    (deployment env).AllStates (AllValid env) .start evs ↔
      (deployment env).AllSteps (FitsTable env) .start evs := by
  refine Machine.allStates_iff_allSteps (A := fun _ => True)
    (J := fun s => Inv s ∧ ∀ r ∈ s.rows, Placed env r) ?_ ?_ evs .start (fun _ _ => trivial)
    ⟨inv_start, fun r hr => absurd hr List.not_mem_nil⟩ fun r hr => absurd hr List.not_mem_nil
  · rintro s ev s' - ⟨hinv, hplaced⟩ h hC hst
    exact ⟨⟨hinv.step hst, placed_step hinv hplaced hst⟩, h.step hinv hplaced hC hst⟩
  · rintro s ev s' - ⟨hinv, -⟩ - hC hst
    exact not_allValid_step hinv hC hst

/-- Two at the table for four, and then a PATCH to nine. -/
def crowdedRun : List Event :=
  [.create customer lunchForTwo,
    .edit customer 1 (.patch (some ['*']) (setParty 9 (by decide)))]

/-- **A PATCH puts nine people at a table for four.** -/
theorem patch_ignores_capacity : ¬ ∀ (env : Env) (evs : List Event) (s : Site),
    (deployment env).run .start evs = some s → AllValid env s := by
  intro h
  obtain ⟨s, hs⟩ : ∃ s, (deployment sample).run .start crowdedRun = some s :=
    Option.isSome_iff_exists.mp (by decide)
  have hrows : (s.rows.map fun r => (r.restaurantTableId, r.partySize, r.status))
      = [(7, 9, .confirmed)] :=
    Machine.run_eval _ (fun s => s.rows.map fun r => (r.restaurantTableId, r.partySize, r.status))
      hs (by decide)
  obtain ⟨r, hr, hval⟩ := List.mem_map.mp (hrows ▸ List.mem_singleton.mpr rfl :
    (7, 9, .confirmed) ∈ s.rows.map fun r => (r.restaurantTableId, r.partySize, r.status))
  obtain ⟨htable, hval⟩ := Prod.mk.inj hval
  obtain ⟨hparty, hstatus⟩ := Prod.mk.inj hval
  obtain ⟨⟨t, ht, -, -, hcap⟩, -, -⟩ := h sample crowdedRun s hs r hr (by rw [hstatus]; decide)
  rw [htable] at ht
  obtain rfl := Option.some.inj (ht.symm.trans (show sample.table 7 = some ⟨7, 1, 4, true⟩ from rfl))
  rw [hparty] at hcap
  exact absurd hcap (by decide)

end TableFlow.Deployment
