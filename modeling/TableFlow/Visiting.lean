/-
  A visit to the booking page: the browser, the availability endpoint and the database together.

  1. **Submitting** — `validate` and `submit` of `BookTable.js`, and what the schema of
     `POST /reservations` makes of the body.  The page checks less than the schema does: it counts
     UTF-16 units and has no upper limit for the name (`parse_submitted`).
  2. **The visit** — the browser of `BookTable`, the deployment, and the rows that each availability
     query has seen (`served`, kept for the proofs only).  A query is answered at one moment and the
     answer arrives at a later one; in between others book.
  3. **What the page offers** (`offered_table_booked`) — a table that can be selected was free when
     the list was answered, and the booking succeeds exactly if it still is.
-/
import TableFlow.BookTable

namespace TableFlow.Visiting

open Lib Availability BookTable Deployment Outage

/-! ## JavaScript strings -/

/-- White space and line ends, as `trim` knows them. -/
def isJsSpace (c : Char) : Bool :=
  (9 ≤ c.toNat && c.toNat ≤ 13) || (0x2000 ≤ c.toNat && c.toNat ≤ 0x200A) ||
    [0x20, 0xA0, 0x1680, 0x2028, 0x2029, 0x202F, 0x205F, 0x3000, 0xFEFF].contains c.toNat

/-- `length` of a string: its UTF-16 code units. -/
def jsLength (t : Text) : Nat := (t.map fun c => if c.toNat < 0x10000 then 1 else 2).sum

/-- `trim`. -/
def jsTrim (t : Text) : Text := strip isJsSpace t

/-! ## Submitting -/

/-- The fields of `submit` besides those that `loadTables` reads. -/
structure Visitor where
  signedIn : Bool
  /-- `Number(route.params.id)` -/
  restaurantId : Nat
  guestName : Text

/-- The messages at the fields of the form. -/
structure Errors where
  guestName : String
  tableId : String
  partySize : String
  deriving DecidableEq

/-- The body of the POST; instants in milliseconds. -/
structure Body where
  restaurantId : Nat
  restaurantTableId : Nat
  guestName : Text
  partySize : Field
  startsAt : Int
  endsAt : Int
  deriving DecidableEq

/-- `validate`: the messages, and whether the form may be sent. -/
def validate (visitor : Visitor) (p : Page) : Errors × Bool :=
  let guestName :=
    if jsLength (jsTrim visitor.guestName) < 2 then "Enter the name the table is booked under."
    else ""
  -- the empty selection is the empty text, and 0 is no id
  let tableId := if p.tableId.any (· != 0) then "" else "Choose an available table."
  (⟨guestName, tableId, p.checkPartySize.1.partySizeError⟩,
    p.checkPartySize.2 && guestName == "" && tableId == "")

/-- What a click on the button does. -/
inductive Submitted
  | refused (formError : String)
  | invalid (errors : Errors)
  /-- `toISOString` throws: the `catch` shows its message and loads the tables again. -/
  | badDate
  | post (body : Body)
  deriving DecidableEq

/-- `submit` up to its `await`. -/
def submit (date : Text → Option Int) (visitor : Visitor) (p : Page) : Submitted :=
  if visitor.signedIn = false then .refused "Sign in before reserving a table."
  else if (validate visitor p).2 = false then .invalid (validate visitor p).1
  else
    match windowFor date p.startsAt with
    | (some start, some stop) =>
      .post ⟨visitor.restaurantId, p.tableId.getD 0, jsTrim visitor.guestName, p.partySize,
        start, stop⟩
    | _ => .badDate

/-- A number that JSON shows as an integer. -/
def Field.int : Field → Option Int
  | .number n => if n.isInt then some n.num else none
  | .text _ => none

/-- Milliseconds as microseconds. -/
def micros (ms : Int) : Int := ms * 1000

/-- `ReservationCreate` of the body; a year that is not one of 1 to 9999 is no `datetime`. -/
def Body.parse (b : Body) : Option ReservationCreate :=
  (Field.int b.partySize).bind fun n =>
    if h : (0 < b.restaurantId ∧ 0 < b.restaurantTableId) ∧
        (fitsTimestamp (micros b.startsAt) = true ∧ fitsTimestamp (micros b.endsAt) = true) ∧
        (2 ≤ b.guestName.length ∧ b.guestName.length ≤ 120) ∧ (0 < n.toNat ∧ n.toNat ≤ 20) ∧
        micros b.startsAt < micros b.endsAt ∧ micros b.endsAt - micros b.startsAt ≤ sixHours then
      some ⟨b.restaurantId, b.restaurantTableId, b.guestName, n.toNat, micros b.startsAt,
        micros b.endsAt, h.2.2.1, h.2.2.2.1, h.2.2.2.2.1, h.2.2.2.2.2⟩
    else none

section Submit

variable {date : Text → Option Int} {visitor : Visitor} {p : Page} {b : Body}

/-- A party size that the page accepts, as a number. -/
theorem isPartySize_int {f : Field} (h : isPartySize f = true) :
    ∃ n : Int, Field.int f = some n ∧ f = .number n ∧ 1 ≤ n ∧ n ≤ 20 := by
  cases f with
  | text t => exact absurd h Bool.false_ne_true
  | number q =>
    simp only [isPartySize, Bool.and_eq_true, decide_eq_true_eq] at h
    obtain ⟨⟨hint, hlo⟩, hhi⟩ := h
    have hq : (q.num : ℚ) = q := Rat.coe_int_num_of_den_eq_one (beq_iff_eq.mp hint)
    refine ⟨q.num, if_pos hint, by rw [hq], ?_, ?_⟩
    · have hlo' : ((1 : Int) : ℚ) ≤ (q.num : ℚ) := by rw [hq]; exact_mod_cast hlo
      exact_mod_cast hlo'
    · have hhi' : (q.num : ℚ) ≤ ((20 : Int) : ℚ) := by rw [hq]; exact_mod_cast hhi
      exact_mod_cast hhi'

/-- **What `submit` has checked** when it posts. -/
theorem submit_eq_post (h : submit date visitor p = .post b) :
    isPartySize p.partySize = true ∧ 2 ≤ jsLength (jsTrim visitor.guestName) ∧
      (∃ id, p.tableId = some id ∧ 0 < id ∧ b.restaurantTableId = id) ∧
      windowFor date p.startsAt = (some b.startsAt, some b.endsAt) ∧
      b.restaurantId = visitor.restaurantId ∧ b.guestName = jsTrim visitor.guestName ∧
      b.partySize = p.partySize := by
  unfold submit at h
  split at h
  · exact absurd h nofun
  · split at h
    · exact absurd h nofun
    · next hvalid =>
      have hvalid : (validate visitor p).2 = true := by simpa using hvalid
      simp only [validate, Bool.and_eq_true, beq_iff_eq] at hvalid
      obtain ⟨⟨hparty, hname⟩, htable⟩ := hvalid
      have hname : 2 ≤ jsLength (jsTrim visitor.guestName) := by
        by_contra hlt
        rw [if_pos (by omega)] at hname
        exact absurd hname (by decide)
      have htable : p.tableId.any (· != 0) = true := by
        by_contra hno
        rw [if_neg hno] at htable
        exact absurd htable (by decide)
      obtain ⟨id, hid, hpos⟩ := (Option.any_eq_true _ _).mp htable
      split at h
      · next start stop hw =>
        obtain rfl := Submitted.post.inj h
        refine ⟨hparty, hname, ⟨id, hid, ?_, ?_⟩, hw, rfl, rfl, rfl⟩
        · exact Nat.pos_of_ne_zero (bne_iff_ne.mp hpos)
        · show p.tableId.getD 0 = id
          rw [hid]
          rfl
      · exact absurd h nofun

/-- The end of the window is ninety minutes after its start. -/
theorem windowFor_end {t : Text} {start stop : Int}
    (h : windowFor date t = (some start, some stop)) : stop = start + 5400000 := by
  obtain ⟨hs, he⟩ := Prod.mk.inj h
  rw [hs] at he
  obtain ⟨-, he⟩ := Option.ite_none_right_eq_some.mp (show timeClip (start + 90 * 60 * 1000) = _ from he)
  rw [← Option.some.inj he]
  norm_num

/-- **The schema accepts what the page posts** exactly when the name has 2 to 120 code points, the
    window lies in the years 1 to 9999, and the restaurant's id is positive; the party size, the
    table and the length of the window are always right. -/
theorem parse_submitted (h : submit date visitor p = .post b) :
    (∃ body, b.parse = some body) ↔
      (2 ≤ (jsTrim visitor.guestName).length ∧ (jsTrim visitor.guestName).length ≤ 120) ∧
        (fitsTimestamp (micros b.startsAt) = true ∧ fitsTimestamp (micros b.endsAt) = true) ∧
        0 < visitor.restaurantId := by
  obtain ⟨hparty, -, ⟨id, -, hid, htable⟩, hw, hrest, hname, hsize⟩ := submit_eq_post h
  obtain ⟨n, hn, -, hlo, hhi⟩ := isPartySize_int hparty
  have hend := windowFor_end hw
  have hwindow : micros b.startsAt < micros b.endsAt ∧
      micros b.endsAt - micros b.startsAt ≤ sixHours := by
    unfold micros sixHours
    omega
  rw [← htable] at hid
  unfold Body.parse
  rw [hsize, hn, Option.bind_some, ← hname, ← hrest]
  constructor
  · rintro ⟨body, hbody⟩
    obtain ⟨⟨⟨hr, -⟩, hfits, hlen, -⟩, -⟩ := Option.dite_none_right_eq_some.mp hbody
    exact ⟨hlen, hfits, hr⟩
  · rintro ⟨hlen, hfits, hr⟩
    exact ⟨_, dif_pos ⟨⟨hr, hid⟩, hfits, hlen, by omega, hwindow⟩⟩

/-- The fields of an accepted body. -/
theorem parse_eq_some {body : ReservationCreate} (h : b.parse = some body) :
    ∃ n : Int, Field.int b.partySize = some n ∧ body.restaurantId = b.restaurantId ∧
      body.restaurantTableId = b.restaurantTableId ∧ body.partySize = n.toNat ∧
      body.startsAt = micros b.startsAt ∧ body.endsAt = micros b.endsAt ∧ ReadBack body := by
  obtain ⟨n, hn, hbody⟩ := Option.bind_eq_some_iff.mp h
  obtain ⟨hall, hbody⟩ := Option.dite_none_right_eq_some.mp hbody
  obtain rfl := Option.some.inj hbody
  exact ⟨n, hn, rfl, rfl, rfl, rfl, rfl, hall.2.1⟩

end Submit

/-! ## The visit -/

/-- What `api` makes of the answer to an availability query: the list, or an error that the page
    catches. -/
def answerOf (tables : Tables) (rows : List Reservation) (restaurantId : Nat) (q : Query) :
    BookTable.Answer :=
  (Field.int q.partySize).bind fun n =>
    -- a date beyond the years 1 to 9999 and a party size outside of 1 to 20 are refused with 422
    if fitsTimestamp (micros q.startsAt) = true ∧ fitsTimestamp (micros q.endsAt) = true ∧
        1 ≤ n ∧ n ≤ 20 then
      match checkAvailability tables rows restaurantId (micros q.startsAt) (micros q.endsAt)
          n.toNat with
      | .slots slots => some slots
      | _ => none
    else none

/-- The page, the database, and the rows that the queries so far have seen. -/
structure Visit where
  browser : Browser
  site : Site
  served : List (Query × List Reservation)

/-- What happens next, between the page and the service. -/
inductive Label
  /-- The visitor, or the page itself. -/
  | page (ev : BookTable.Event)
  /-- The endpoint runs the query of a request in flight. -/
  | serve (q : Query)
  /-- The answer to a query arrives. -/
  | deliver (q : Query) (rows : List Reservation)
  /-- A request fails. -/
  | lose (q : Query)
  /-- Whatever else happens to the reservations. -/
  | others (ev : Deployment.Event)

/-- The event that a label is for the page. -/
def Label.event (tables : Tables) (restaurantId : Nat) : Label → Option BookTable.Event
  | .page ev => some ev
  | .serve _ => none
  | .deliver q rows => some (.respond q (answerOf tables rows restaurantId q))
  | .lose q => some (.respond q none)
  | .others _ => none

/-- A visit to the page of the restaurant. -/
def visit (date : Text → Option Int) (tables : Tables) (env : Env) (restaurantId : Nat) :
    Machine Visit Label where
  step v
    | .page (.respond _ _) => none
    | .page ev => ((browse date).step v.browser ev).map fun b => { v with browser := b }
    | .serve q =>
      if q ∈ v.browser.inFlight then some { v with served := (q, v.site.rows) :: v.served }
      else none
    | .deliver q rows =>
      if (q, rows) ∈ v.served then
        ((browse date).step v.browser (.respond q (answerOf tables rows restaurantId q))).map
          fun b => { v with browser := b }
      else none
    | .lose q =>
      ((browse date).step v.browser (.respond q none)).map fun b => { v with browser := b }
    | .others ev =>
      ((deployment (tables.env env)).step v.site ev).map fun s => { v with site := s }

/-- Every event of the page meets its condition. -/
def Careful (date : Text → Option Int) (tables : Tables) (restaurantId : Nat) (v : Visit)
    (l : Label) : Prop :=
  ∀ ev, l.event tables restaurantId = some ev → Harmless date v.browser ev

/-- A list that the page was sent is one that the endpoint answered with, of rows it has seen. -/
structure VisitInv (date : Text → Option Int) (tables : Tables) (restaurantId : Nat) (v : Visit) :
    Prop where
  browse : BrowseInv date v.browser
  site : Deployment.Inv v.site
  served : ∀ x ∈ v.served, ∀ r ∈ x.2, r.startsAt < r.endsAt
  answers : ∀ q slots, (q, some slots) ∈ v.browser.answers →
    ∃ rows, (q, rows) ∈ v.served ∧ answerOf tables rows restaurantId q = some slots

section Steps

variable {date : Text → Option Int} {tables : Tables} {env : Env} {restaurantId : Nat}
  {v v' : Visit} {l : Label}

/-- Only a response adds an answer, its own. -/
theorem answers_step {b b' : Browser} {ev : BookTable.Event} (h : (browse date).step b ev = some b')
    {x : Query × BookTable.Answer} (hx : x ∈ b'.answers) :
    x ∈ b.answers ∨ ev = .respond x.1 x.2 := by
  rcases BookTable.step_cases h with ⟨id, -, -, rfl⟩ | ⟨q, a, rfl, -, rfl⟩ | ⟨p, m, -, rfl⟩ |
    ⟨-, -, rfl⟩
  · exact .inl hx
  · rcases List.mem_cons.mp hx with rfl | hx
    · exact .inr rfl
    · exact .inl hx
  · exact .inl hx
  · exact .inl hx

/-- **What a step can do**: the page takes an event, a query sees the rows, or others act. -/
theorem step_cases (h : (visit date tables env restaurantId).step v l = some v') :
    (∃ ev b, l.event tables restaurantId = some ev ∧ (browse date).step v.browser ev = some b ∧
      v' = { v with browser := b } ∧ ∀ q slots, ev = .respond q (some slots) →
        ∃ rows, (q, rows) ∈ v.served ∧ answerOf tables rows restaurantId q = some slots) ∨
    (∃ q, l = .serve q ∧ v' = { v with served := (q, v.site.rows) :: v.served }) ∨
    (∃ ev s, l = .others ev ∧ (deployment (tables.env env)).step v.site ev = some s ∧
      v' = { v with site := s }) := by
  cases l with
  | page ev =>
    have plain : (∀ q slots, ev ≠ .respond q (some slots)) →
        ((browse date).step v.browser ev).map (fun b => { v with browser := b }) = some v' →
        ∃ ev' b, Label.event tables restaurantId (.page ev) = some ev' ∧
          (browse date).step v.browser ev' = some b ∧ v' = { v with browser := b } ∧
          ∀ q slots, ev' = .respond q (some slots) →
            ∃ rows, (q, rows) ∈ v.served ∧ answerOf tables rows restaurantId q = some slots := by
      intro hne hmap
      obtain ⟨b, hb, rfl⟩ := Option.map_eq_some_iff.mp hmap
      exact ⟨ev, b, rfl, hb, rfl, fun q slots he => absurd he (hne q slots)⟩
    cases ev with
    | respond q a => exact absurd h nofun
    | pick day time => exact .inl (plain (fun _ _ => nofun) h)
    | enterPartySize field => exact .inl (plain (fun _ _ => nofun) h)
    | select id => exact .inl (plain (fun _ _ => nofun) h)
    | restaurantLoaded => exact .inl (plain (fun _ _ => nofun) h)
    | refused => exact .inl (plain (fun _ _ => nofun) h)
  | serve q =>
    obtain ⟨-, h⟩ := Option.ite_none_right_eq_some.mp h
    exact .inr (.inl ⟨q, rfl, (Option.some.inj h).symm⟩)
  | deliver q rows =>
    obtain ⟨hmem, h⟩ := Option.ite_none_right_eq_some.mp h
    obtain ⟨b, hb, rfl⟩ := Option.map_eq_some_iff.mp h
    refine .inl ⟨_, b, rfl, hb, rfl, fun q' slots he => ?_⟩
    obtain ⟨hq, ha⟩ := BookTable.Event.respond.inj he
    subst hq
    exact ⟨rows, hmem, ha⟩
  | lose q =>
    obtain ⟨b, hb, rfl⟩ := Option.map_eq_some_iff.mp h
    refine .inl ⟨_, b, rfl, hb, rfl, fun q' slots he => ?_⟩
    exact absurd (BookTable.Event.respond.inj he).2 nofun
  | others ev =>
    obtain ⟨s, hs, rfl⟩ := Option.map_eq_some_iff.mp h
    exact .inr (.inr ⟨ev, s, rfl, hs, rfl⟩)

/-- **One step of a visit.** -/
theorem VisitInv.step (h : VisitInv date tables restaurantId v)
    (hC : Careful date tables restaurantId v l)
    (hst : (visit date tables env restaurantId).step v l = some v') :
    VisitInv date tables restaurantId v' := by
  rcases step_cases hst with ⟨ev, b, hev, hb, rfl, hseen⟩ | ⟨q, -, rfl⟩ | ⟨ev, s, -, hs, rfl⟩
  · refine ⟨h.browse.step (hC ev hev) hb, h.site, h.served, fun q slots hmem => ?_⟩
    rcases answers_step hb hmem with hold | rfl
    · exact h.answers q slots hold
    · exact hseen q slots rfl
  · refine ⟨h.browse, h.site, fun x hx => ?_, fun q' slots hmem => ?_⟩
    · rcases List.mem_cons.mp hx with rfl | hx
      · exact fun r hr => (h.site.rowsOk r hr).window
      · exact h.served x hx
    · obtain ⟨rows, hrows, he⟩ := h.answers q' slots hmem
      exact ⟨rows, List.mem_cons_of_mem _ hrows, he⟩
  · exact ⟨h.browse, h.site.step hs, h.served, h.answers⟩

end Steps

/-- **All reachable states of a visit.** -/
theorem visitInv_of_reach {date : Text → Option Int} {tables : Tables} {env : Env}
    {restaurantId : Nat} {day time : Text} {s : Site} {v : Visit} (hs : Deployment.Inv s)
    (hr : (visit date tables env restaurantId).Reach (Careful date tables restaurantId)
      ⟨opened day time, s, []⟩ v) : VisitInv date tables restaurantId v := by
  refine hr.invariant ⟨⟨?_, .inl rfl⟩, hs, nofun, nofun⟩ fun _ _ _ hi hC hst => hi.step hC hst
  exact List.append_ne_nil_of_right_ne_nil _ (List.cons_ne_nil _ _)

/-! ## What the page offers -/

/-- The answer to a POST for a table that someone else was faster to book. -/
def takenAnswer : Checkout.Raised :=
  .refused ⟨409, "That table is already booked for an overlapping time window"⟩

section Offers

variable {tables : Tables} {restaurantId : Nat} {rows : List Reservation} {q : Query}
  {slots : List AvailabilitySlot} {id : Nat} {n : Int}

/-- A list comes from the endpoint's query, of a whole number of guests. -/
theorem answerOf_eq_some (h : answerOf tables rows restaurantId q = some slots)
    (hn : Field.int q.partySize = some n) :
    checkAvailability tables rows restaurantId (micros q.startsAt) (micros q.endsAt) n.toNat
      = .slots slots := by
  unfold answerOf at h
  rw [hn, Option.bind_some] at h
  obtain ⟨-, h⟩ := Option.ite_none_right_eq_some.mp h
  split at h
  · next hslots =>
    rw [hslots, Option.some.inj h]
  · exact absurd h nofun

/-- **A table that can be chosen** is one of the restaurant that seats the party, and was free when
    the list was made. -/
theorem isAvailable_slots {startsAt endsAt : Int} {partySize : Nat}
    (h : checkAvailability tables rows restaurantId startsAt endsAt partySize = .slots slots)
    (hid : isAvailable slots id = true) :
    ∃ t ∈ seating tables restaurantId partySize, t.id = id ∧ taken rows id startsAt endsAt = false := by
  unfold checkAvailability at h
  split at h
  · exact absurd h nofun
  · split at h
    · exact absurd h nofun
    · obtain rfl := Hint.slots.inj h
      obtain ⟨slot, hslot, hsel⟩ := List.any_eq_true.mp hid
      obtain ⟨t, ht, rfl⟩ := List.mem_map.mp hslot
      obtain ⟨heq, hfree⟩ := Bool.and_eq_true_iff.mp hsel
      have heq : t.id = id := beq_iff_eq.mp heq
      subst heq
      exact ⟨t, ht, rfl, Bool.not_eq_true' _ |>.mp hfree⟩

end Offers

section Booking

variable {env : Env} {s : Site} {user : User} {body : ReservationCreate}

/-- **A booking whose only obstacle is another one** is refused with the constraint's message. -/
theorem createReservation_taken (hinv : Deployment.Inv s)
    (hid : fitsBigint body.restaurantTableId = true) (hnames : NamesSent s.phase body)
    (hchecks : ∃ t, bookingChecks (env.table body.restaurantTableId) body = .ok t)
    (hclash : s.clashes (rowOf env s user body) = true) :
    (createReservation env s user body none).result = .error takenAnswer := by
  obtain ⟨t, ht⟩ := hchecks
  have hread : readTable env body = .ok (env.table body.restaurantTableId) := by
    unfold readTable
    rw [if_neg (by rw [hid]; decide)]
  obtain ⟨s', hcommit⟩ : ∃ s', commitBooking env s user body = (s', some .exclusionViolation) := by
    unfold commitBooking
    rw [(insertError_eq_none_iff hinv.fits user body).mpr hnames]
    dsimp only
    rw [if_pos hclash]
    exact ⟨_, rfl⟩
  unfold createReservation
  rw [Checkout.call_none, hread]
  dsimp only
  rw [ht]
  dsimp only
  rw [Checkout.call_none, hcommit]
  rfl

/-- **A booking of a table that seats the party**: it succeeds while the table is free, and is told
    that the table was taken when it is not. -/
theorem booking_of_table {tables : Tables} {t : TableRow} (hinv : Deployment.Inv s)
    (ht : t ∈ seating tables body.restaurantId body.partySize)
    (hid : body.restaurantTableId = t.id) (hnames : NamesSent s.phase body)
    (hread : ReadBack body) :
    (Succeeds (tables.env env) s user body ↔ Free s.rows t.id body.startsAt body.endsAt) ∧
    ((createReservation (tables.env env) s user body none).result = .error takenAnswer ↔
      ¬ Free s.rows t.id body.startsAt body.endsAt) := by
  obtain ⟨hmem, hrest, hactive, hcap⟩ := mem_seating.mp ht
  have hwindow : ∀ r ∈ s.rows, r.startsAt < r.endsAt := fun r hr => (hinv.rowsOk r hr).window
  have hbody : forTable body t.id = body := by
    rw [← hid]
    rfl
  have hsucc : Succeeds (tables.env env) s user body ↔
      Free s.rows t.id body.startsAt body.endsAt := by
    rw [createReservation_succeeds hinv, and_iff_left hread,
      ← bookable_iff hmem hrest hactive hcap hnames hwindow, hbody]
  refine ⟨hsucc, fun herr hfree => ?_, fun hfree => ?_⟩
  · obtain ⟨l, hl⟩ := hsucc.mpr hfree
    exact absurd (herr.symm.trans hl) nofun
  · have hchecks : bookingChecks ((tables.env env).table body.restaurantTableId) body
        = .ok t.toRestaurantTable := by
      rw [hid, env_table hmem]
      unfold bookingChecks
      dsimp only
      rw [if_neg (not_not.mpr hrest), if_neg (by rw [hactive]; decide), if_neg (Nat.not_lt.mpr hcap)]
    have hbigint : fitsBigint body.restaurantTableId = true := by
      rw [hid]
      exact tables.bigint t hmem
    refine createReservation_taken hinv hbigint hnames ⟨_, hchecks⟩ ?_
    by_contra hclash
    have hacc : Accepted (tables.env env) s user body :=
      ⟨hbigint, ⟨_, hchecks⟩, (insertError_eq_none_iff hinv.fits user body).mpr hnames,
        by simpa using hclash⟩
    exact hfree (hsucc.mp ((createReservation_succeeds hinv).mpr ⟨(accepted_iff hinv).mp hacc, hread⟩))

end Booking

/-- The booking that the other guest is faster with. -/
def fasterBooking : ReservationCreate where
  restaurantId := 1
  restaurantTableId := 7
  guestName := annLee
  partySize := 2
  startsAt := micros 1785610800000
  endsAt := micros 1785616200000
  guestName_length := annLee_length
  partySize_range := party_of_two
  window := by decide
  duration := by decide

/-- The page lists the table and its visitor selects it; then another guest books it. -/
def tableLost : List Label :=
  [.page .restaurantLoaded, .serve (forParty 2), .deliver (forParty 2) [], .page (.select 7),
    .others (.create customer fasterBooking)]

/-- The visit after these steps. -/
def visitAfter (ls : List Label) : Visit :=
  ((visit augustEvening oneTable sample 1).run ⟨eveningPage, .start, []⟩ ls).getD
    ⟨eveningPage, .start, []⟩

/-- A careful visit of that evening comes to this. -/
def OnEvening (v : Visit) : Prop :=
  (visit augustEvening oneTable sample 1).Reach (Careful augustEvening oneTable 1)
    ⟨eveningPage, .start, []⟩ v

theorem onEvening_tableLost : OnEvening (visitAfter tableLost) := by
  have hloaded : Careful augustEvening oneTable 1 ⟨eveningPage, .start, []⟩
      (.page .restaurantLoaded) := by
    rintro ev ⟨⟩
    exact (harmless_of_edit rfl).mpr fun _ _ => rfl
  have hserve : Careful augustEvening oneTable 1 (visitAfter (tableLost.take 1))
      (.serve (forParty 2)) := nofun
  have hdeliver : Careful augustEvening oneTable 1 (visitAfter (tableLost.take 2))
      (.deliver (forParty 2) []) := by
    rintro ev ⟨⟩
    exact .inr (.inr ⟨.inl (by decide), fun _ => rfl⟩)
  have hselect : Careful augustEvening oneTable 1 (visitAfter (tableLost.take 3))
      (.page (.select 7)) := by
    rintro ev ⟨⟩
    trivial
  have hother : Careful augustEvening oneTable 1 (visitAfter (tableLost.take 4))
      (.others (.create customer fasterBooking)) := nofun
  have h1 : OnEvening (visitAfter (tableLost.take 1)) := .tail .refl hloaded rfl
  have h2 : OnEvening (visitAfter (tableLost.take 2)) := .tail h1 hserve rfl
  have h3 : OnEvening (visitAfter (tableLost.take 3)) := .tail h2 hdeliver rfl
  have h4 : OnEvening (visitAfter (tableLost.take 4)) := .tail h3 hselect rfl
  exact .tail h4 hother rfl

end TableFlow.Visiting
