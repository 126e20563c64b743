/-
  What a reservation refers to: its user, its restaurant and its table.

  1. **Fixed references** — whatever requests run beside each other, a committed reservation keeps
     its user and its restaurant, and stays (`keeps_reference`).
  2. **Seated** — the table of a reservation belongs to its restaurant.  `create_reservation` checks
     that of the table it has locked, and no other request changes the two columns, so it holds of
     every row and of every row version in progress (`Seating`).
-/
import TableFlow.Invariant

namespace TableFlow

open Lib

/-! ## Fixed references -/

/-- `r'` is a version of the same reservation, of the same user at the same restaurant. -/
structure SameReference (r r' : Reservation) : Prop where
  id : r'.id = r.id
  userId : r'.userId = r.userId
  restaurantId : r'.restaurantId = r.restaurantId

theorem SameReference.refl (r : Reservation) : SameReference r r := ⟨rfl, rfl, rfl⟩

/-- **No request changes what a reservation refers to.** -/
theorem Made.reference {env : Env} {req : Request} {b r : Reservation}
    (h : Made env req (some b) r) : SameReference b r := by
  cases req with
  | post user body => exact absurd h.1 (by simp)
  | onOne user id op =>
    obtain ⟨b', p, ed, cs, v, hb, -, -, -, -, -, rfl⟩ := h
    obtain rfl := Option.some.inj hb
    exact ⟨apply_id _ _ _, apply_userId _ _ _, apply_restaurantId _ _ _⟩
  | batch lastId size =>
    obtain ⟨b', v, hb, -, rfl⟩ := h
    obtain rfl := Option.some.inj hb
    exact ⟨rfl, rfl, rfl⟩
  | list user limit => exact absurd h (fun x => x)
  | put target => exact absurd h (fun x => x)

section References

variable {env : Env} {init : List Reservation} {w w' : World} {l : Label}

theorem apply_keeps_reference (h : Inv env init w) (i : Nat) (e : Effect) {r : Reservation}
    (hr : r ∈ w.store.rows) : ∃ r' ∈ (w.apply i e).store.rows, SameReference r r' := by
  cases e with
  | commit =>
    cases hov : w.store.overwrites reservations i r.id with
    | false => exact ⟨r, Store.mem_seen.mpr (Or.inl ⟨hr, hov⟩), .refl r⟩
    | true =>
      obtain ⟨d, hd, ho, hid⟩ := Store.overwrites_iff.mp hov
      have hbase := h.sound.base d hd
      rw [hid, show r.id = reservations.key r from rfl, Store.lookup_mem h.sound.keys hr] at hbase
      obtain ⟨t, -, hmade, -⟩ := h.writers d hd
      rw [← hbase] at hmade
      exact ⟨d.row, Store.mem_seen.mpr (Or.inr ⟨d, hd, ho, rfl⟩), hmade.reference⟩
  | _ => exact ⟨r, hr, .refl r⟩

/-- **A committed reservation stays**, with its user and its restaurant. -/
theorem keeps_reference (h : Inv env init w) (hst : (service env).step w l = some w')
    {r : Reservation} (hr : r ∈ w.store.rows) : ∃ r' ∈ w'.store.rows, SameReference r r' := by
  cases step_cases hst with
  | arrive req => exact ⟨r, hr, .refl r⟩
  | act _ _ _ => exact apply_keeps_reference h _ _ hr
  | victim _ _ => exact apply_keeps_reference h _ .abort hr

end References

/-! ## Seated -/

/-- The table of the reservation is one of its restaurant's. -/
def Seated (env : Env) (r : Reservation) : Prop :=
  ∃ t, env.table r.restaurantTableId = some t ∧ t.restaurantId = r.restaurantId

theorem Seated.apply {env : Env} {r : Reservation} (h : Seated env r) (ch : Changes) (v : Nat) :
    Seated env (ch.apply r v) := by
  unfold Seated
  rw [apply_restaurantTableId, apply_restaurantId]
  exact h

theorem seated_new {env : Env} {user : User} {body : ReservationCreate} {t : RestaurantTable}
    (h : bookingChecks (env.table body.restaurantTableId) body = .ok t) (p : Phase) :
    Seated env (newReservation p user body) := by
  obtain ⟨htable, hrest, -, -⟩ := bookingChecks_ok h
  have ht : (newReservation p user body).restaurantTableId = body.restaurantTableId :=
    assignNames_restaurantTableId ..
  have hr : (newReservation p user body).restaurantId = body.restaurantId :=
    assignNames_restaurantId ..
  refine ⟨t, ?_, ?_⟩
  · rw [ht, htable]
  · rw [hr, hrest]

/-- A booking works with the table it asks for, and inserts a seated reservation. -/
def SeatedStage (env : Env) (req : Request) : Stage → Prop
  | .booking table => ∀ user body, req = .post user body → table = env.table body.restaurantTableId
  | .inserting r => Seated env r
  | _ => True

/-- **Every reservation is seated**, committed or in progress. -/
structure Seating (env : Env) (w : World) : Prop where
  rows : ∀ r ∈ w.store.rows, Seated env r
  drafts : ∀ d ∈ w.store.drafts, Seated env d.row
  stages : ∀ (i : Nat) (t : Task), w.tasks[i]? = some t → SeatedStage env t.request t.stage

section Seating

variable {env : Env} {w w' : World} {i : Nat} {l : Label}

/-- A row as a transaction sees it is a committed one or one in progress. -/
theorem Seating.lookup_seen (h : Seating env w) {id : Nat} {r : Reservation}
    (hr : Store.lookup reservations (w.store.seen reservations i) id = some r) : Seated env r := by
  rcases Store.mem_seen.mp (Store.lookup_some hr).1 with ⟨hr, -⟩ | ⟨d, hd, -, rfl⟩
  · exact h.rows r hr
  · exact h.drafts d hd

/-- **One stretch** writes a seated row and leads to a stage that is fine. -/
theorem Seating.act (h : Seating env w) {req : Request} {st st' : Stage} {e : Effect}
    (hs : SeatedStage env req st) (ha : Act env w i req st e st') :
    SeatedStage env req st' ∧ ∀ before row, e = .write before row → Seated env row := by
  cases ha with
  | noTable _ hnone =>
    refine ⟨fun user' body' hreq => ?_, fun _ _ he => absurd he (by simp)⟩
    obtain ⟨rfl, rfl⟩ := Request.post.inj hreq
    exact hnone.symm
  | lockTable _ hsome _ =>
    refine ⟨fun user' body' hreq => ?_, fun _ _ he => absurd he (by simp)⟩
    obtain ⟨rfl, rfl⟩ := Request.post.inj hreq
    exact hsome.symm
  | prepare hchecks =>
    rw [hs _ _ rfl] at hchecks
    exact ⟨seated_new hchecks _, fun _ _ he => absurd he (by simp)⟩
  | insert _ =>
    refine ⟨trivial, fun before row he => ?_⟩
    obtain ⟨-, rfl⟩ := Effect.write.inj he
    exact hs
  | update _ hr _ _ =>
    refine ⟨trivial, fun before row he => ?_⟩
    obtain ⟨-, rfl⟩ := Effect.write.inj he
    exact (h.rows _ (Store.lookup_some hr).1).apply _ _
  | fillRow hr _ =>
    refine ⟨trivial, fun before row he => ?_⟩
    obtain ⟨-, rfl⟩ := Effect.write.inj he
    have hseated := h.lookup_seen hr
    exact hseated
  | @pass req id todo d _ _ _ =>
    refine ⟨?_, fun _ _ he => absurd he (by simp)⟩
    unfold Request.afterCheck
    split <;> trivial
  | _ => exact ⟨trivial, fun _ _ he => absurd he (by simp)⟩

theorem Seating.advance (h : Seating env w) {req : Request} {e : Effect} {st : Stage}
    (hst : SeatedStage env req st)
    (hwrite : ∀ before row, e = .write before row → Seated env row) :
    Seating env (w.advance i req e st) where
  rows := by
    intro r hr
    rcases mem_apply_rows hr with hr | ⟨d, hd, -, rfl⟩
    · exact h.rows r hr
    · exact h.drafts d hd
  drafts := by
    intro d hd
    rcases mem_apply_drafts hd with ⟨d₀, hd₀, -, -, hr⟩ | ⟨before, row, he, rfl⟩
    · rw [hr]
      exact h.drafts d₀ hd₀
    · exact hwrite before row he
  stages := by
    intro j t' ht'
    rcases task_of_advance ht' with ⟨-, rfl⟩ | ⟨-, ht'⟩
    · exact hst
    · exact h.stages j t' ht'

/-- **Every step of the service keeps the reservations seated.** -/
theorem Seating.step (h : Seating env w) (hst : (service env).step w l = some w') :
    Seating env w' := by
  cases step_cases hst with
  | arrive req =>
    refine ⟨h.rows, h.drafts, fun i t ht => ?_⟩
    rcases slot_of_concat ht with ht | ⟨-, rfl⟩
    · exact h.stages i t ht
    · trivial
  | act ht ha _ =>
    obtain ⟨hs, hwrite⟩ := h.act (h.stages _ _ ht) ha
    exact h.advance hs hwrite
  | victim _ _ => exact h.advance trivial fun _ _ he => absurd he (by simp)

theorem seating_start (p : Phase) (nextId clock : Nat) :
    Seating env (.start p [] nextId clock) where
  rows := fun _ hr => absurd hr List.not_mem_nil
  drafts := fun _ hd => absurd hd List.not_mem_nil
  stages := fun _ _ ht => absurd ht (by simp [World.start])

end Seating

end TableFlow
