/-
  The two lists of a signed-in user, each one SQL query, against plain reads of its rows.

  1. **The queries** — `select_my_orders` joins the restaurants, outer-joins the items and groups by
     order; `select_my_bookings` joins the restaurants.  `ORDER BY` answers with some order that
     agrees with its keys.
  2. **What the joins make of the rows** — under the foreign keys every order is one group with the
     number of its items (`groupedOrders_eq`), and every reservation one row (`joinedBookings_eq`).
  3. **The lists** — the sorted rows of the user, cut to the limit, each as it is read alone with
     its restaurant's name (`my_lists_read_alone`).  A reservation that is not answered alone takes
     the list with it: one without the name that the phase reads, or one that cannot be loaded.
-/
import TableFlow.Lib.Query
import TableFlow.Privacy
import Mathlib.Data.Prod.Lex

namespace TableFlow.MyLists

open Lib Orders Checkout Privacy

/-! ## The queries -/

/-- `FROM orders JOIN restaurants LEFT OUTER JOIN order_items`. -/
def joinedOrders (db : Database) : List ((Order × Restaurant) × Option OrderItem) :=
  leftJoin (fun x item => item.orderId == x.1.id)
    (innerJoin (fun o x => x.id == o.restaurantId) db.orders db.restaurants) db.items

/-- The columns of a group; those of the order are the same in all of its rows. -/
def groupSummary (group : (Nat × Text) × List ((Order × Restaurant) × Option OrderItem)) :
    Option OrderSummary :=
  group.2.head?.map fun x =>
    { id := group.1.1
      restaurantId := x.1.1.restaurantId
      restaurantName := group.1.2
      reservationId := x.1.1.reservationId
      status := x.1.1.status
      totalAmount := x.1.1.totalAmount
      currency := x.1.1.currency
      createdAt := x.1.1.createdAt
      itemCount := group.2.countP (·.2.isSome) }

/-- `WHERE user_id GROUP BY orders.id, restaurants.name`. -/
def groupedOrders (db : Database) (userId : Nat) : List OrderSummary :=
  (groupBy (fun x => (x.1.1.id, x.1.2.name))
    ((joinedOrders db).filter (·.1.1.userId == userId))).filterMap groupSummary

/-- `ORDER BY created_at DESC, id DESC`. -/
def newest (createdAt : Int) (id : Nat) : (Int ×ₗ Nat)ᵒᵈ := OrderDual.toDual (toLex (createdAt, id))

/-- `select_my_orders`: what it may answer. -/
def SelectMyOrders (db : Database) (userId limit : Nat) (rows : List OrderSummary) : Prop :=
  ∃ l, Ordered (fun s => newest s.createdAt s.id) (groupedOrders db userId) l ∧ rows = l.take limit

/-- `FROM reservations JOIN restaurants WHERE user_id`. -/
def joinedBookings (db : Database) (userId : Nat) : List (Reservation × Restaurant) :=
  (innerJoin (fun r x => x.id == r.restaurantId) db.reservations db.restaurants).filter
    (·.1.userId == userId)

/-- `ORDER BY starts_at DESC`: it leaves the order of reservations with one start open. -/
def latest (r : Reservation) : Intᵒᵈ := OrderDual.toDual r.startsAt

/-- `select_my_bookings`, of the name columns `columns`: what it may answer. -/
def SelectMyBookings (db : Database) (columns : List Column) (userId limit : Nat)
    (rows : List (Loaded × Text)) : Prop :=
  ∃ l, Ordered (fun x => latest x.1) (joinedBookings db userId) l ∧
    rows = (l.take limit).map fun x => (⟨x.1, columns⟩, x.2.name)

/-- `list_my_reservations`: what it may answer. -/
def ListMyReservations (db : Database) (env : Env) (p : Phase) (user : User) (limit : Nat)
    (a : TableFlow.Answer) : Prop :=
  ∃ rows, SelectMyBookings db (readColumns p) user.id limit rows ∧
    a = match listError env.schema (readColumns p) rows with
      | some e => .failed (.database e)
      | none => respondList p rows

/-- The keys of the tables, as far as the joins rely on them; `id` is a `bigint`. -/
structure ForeignKeys (db : Database) : Prop where
  restaurantKeys : (db.restaurants.map Restaurant.id).Nodup
  orderRestaurants : ∀ o ∈ db.orders, ∃ x ∈ db.restaurants, x.id = o.restaurantId
  reservationRestaurants : ∀ r ∈ db.reservations, ∃ x ∈ db.restaurants, x.id = r.restaurantId
  bigint : ∀ r ∈ db.reservations, fitsBigint r.id = true

/-! ## What the joins make of the rows -/

section Joins

variable {db : Database}

/-- The restaurant with the id; the foreign keys say that it is there. -/
def restaurantOf (db : Database) (id : Nat) : Restaurant := (db.restaurant id).getD ⟨id, []⟩

theorem restaurant_some {id : Nat} (h : ∃ x ∈ db.restaurants, x.id = id) :
    db.restaurant id = some (restaurantOf db id) := by
  obtain ⟨x, hx, hid⟩ := h
  have hsome : (db.restaurant id).isSome := List.find?_isSome.mpr ⟨x, hx, by simpa using hid⟩
  obtain ⟨y, hy⟩ := Option.isSome_iff_exists.mp hsome
  rw [restaurantOf, hy, Option.getD_some]

theorem restaurantOf_mem {id : Nat} (h : ∃ x ∈ db.restaurants, x.id = id) :
    restaurantOf db id ∈ db.restaurants ∧ (restaurantOf db id).id = id := by
  have hsome := restaurant_some h
  exact ⟨List.mem_of_find?_eq_some hsome, by simpa using List.find?_some hsome⟩

/-- **A row joins its one restaurant.** -/
theorem innerJoin_restaurants (h : ForeignKeys db) {α : Type} (restaurantId : α → Nat) {l : List α}
    (hl : ∀ a ∈ l, ∃ x ∈ db.restaurants, x.id = restaurantId a) :
    innerJoin (fun a x => x.id == restaurantId a) l db.restaurants
      = l.map fun a => (a, restaurantOf db (restaurantId a)) := by
  refine pairs_of_unique _ fun a ha => ?_
  obtain ⟨hmem, hid⟩ := restaurantOf_mem (hl a ha)
  have hfilter : (db.restaurants.filter fun x => x.id == restaurantId a)
      = db.restaurants.filter fun x => x.id = (restaurantOf db (restaurantId a)).id := by
    rw [hid]
    exact List.filter_congr fun x _ => beq_eq_decide ..
  rw [hfilter, filter_key_eq h.restaurantKeys hmem]

/-- **Every order of the user is one group**, with the number of its items. -/
theorem groupedOrders_eq (h : ForeignKeys db) (userId : Nat) :
    groupedOrders db userId = (db.orders.filter (·.userId == userId)).map fun o =>
      db.summary o (restaurantOf db o.restaurantId).name := by
  let own := db.orders.filter (·.userId == userId)
  let named : Order → Order × Restaurant := fun o => (o, restaurantOf db o.restaurantId)
  let items : Order × Restaurant → List (Option OrderItem) := fun x =>
    beside (db.items.filter fun item => item.orderId == x.1.id)
  have hjoin : (joinedOrders db).filter (·.1.1.userId == userId) = pairs items (own.map named) := by
    unfold joinedOrders leftJoin
    rw [innerJoin_restaurants h Order.restaurantId h.orderRestaurants,
      filter_pairs (fun x : Order × Restaurant => x.1.userId == userId), List.filter_map]
    rfl
  -- the groups are told apart by the primary key of the orders
  have hkeys : ((own.map named).map fun x => (x.1.id, x.2.name)).Nodup := by
    refine List.Nodup.of_map Prod.fst ?_
    rw [List.map_map, List.map_map]
    exact db.orderKeys.sublist (List.filter_sublist.map _)
  have hgroups : groupBy (fun x => (x.1.1.id, x.1.2.name)) (pairs items (own.map named))
      = (own.map named).map fun x => ((x.1.id, x.2.name), (items x).map (Prod.mk x)) :=
    groupBy_pairs hkeys fun x _ => beside_ne_nil _
  unfold groupedOrders
  rw [hjoin, hgroups, List.map_map, List.filterMap_map, ← List.filterMap_eq_map]
  refine List.filterMap_congr fun o ho => ?_
  have hcount : ((items (named o)).map (Prod.mk (named o))).countP (·.2.isSome)
      = db.items.countP (·.orderId == o.id) := by
    rw [List.countP_map]
    exact (countP_beside _).trans List.countP_eq_length_filter.symm
  have hhead : ∃ b, ((items (named o)).map (Prod.mk (named o))).head? = some (named o, b) := by
    obtain ⟨b, bs, hb⟩ := List.exists_cons_of_ne_nil (beside_ne_nil
      (db.items.filter fun item => item.orderId == o.id))
    exact ⟨b, by rw [show items (named o) = b :: bs from hb]; rfl⟩
  obtain ⟨b, hb⟩ := hhead
  show groupSummary ((o.id, (restaurantOf db o.restaurantId).name),
    (items (named o)).map (Prod.mk (named o))) = _
  unfold groupSummary
  dsimp only
  rw [hb, hcount]
  rfl

/-- **Every reservation of the user is one row.** -/
theorem joinedBookings_eq (h : ForeignKeys db) (userId : Nat) :
    joinedBookings db userId = (db.reservations.filter (·.userId == userId)).map fun r =>
      (r, restaurantOf db r.restaurantId) := by
  unfold joinedBookings
  rw [innerJoin_restaurants h Reservation.restaurantId h.reservationRestaurants, List.filter_map]
  rfl

end Joins

/-! ## The rows, read alone -/

section Reads

variable {env : Env} {p : Phase} {user : User}

/-- The name that the phase reads is there. -/
def Named (p : Phase) (r : Reservation) : Prop := p.readsGuestName = true → r.guestName ≠ none

theorem toOut_named {r : Reservation} : (∃ out, toOut p ⟨r, readColumns p⟩ = .ok out) ↔ Named p r :=
  toOut_ok_iff.trans (and_iff_right fun _ hc => hc)

/-- `GET /reservations/{id}` of a reservation of the user is the answer with its row, if it can be
    loaded. -/
theorem getReservation_own {db : Database} (h : ForeignKeys db)
    (hcols : undefinedColumn env.schema (readColumns p) = none) {r : Reservation}
    (hr : r ∈ db.reservations) (hown : r.userId = user.id) :
    getReservation env p db.reservations user r.id
      = if loads r then respond p 200 ⟨r, readColumns p⟩ else .failed (.database .dataError) := by
  have hlookup : Store.lookup reservations db.reservations r.id = some r :=
    Store.lookup_mem (R := reservations) db.reservationKeys hr
  have howner : loadOwned user (some ⟨r, readColumns p⟩) = .ok ⟨r, readColumns p⟩ :=
    if_neg fun hne => hne.2 hown
  unfold getReservation
  rw [sendable_natCast, if_neg (by rw [h.bigint r hr]; decide), hcols, Option.none_or,
    rowOf_natCast, rowOf_natCast]
  unfold loadError selectReservations
  rw [hlookup, Option.any_some, Option.map_some, howner]
  cases loads r <;> rfl

/-- **The list of rows that have their names**: each is what it is alone, with its restaurant's name
    beside it. -/
theorem respondList_named {rows : List (Reservation × Restaurant)}
    (h : ∀ x ∈ rows, Named p x.1) :
    ∃ items, respondList p (rows.map fun x => (⟨x.1, readColumns p⟩, x.2.name)) = .listed items ∧
      List.Forall₂ (fun x item => ∃ out, toOut p ⟨x.1, readColumns p⟩ = .ok out ∧
        item = { out with restaurantName := x.2.name }) rows items := by
  have hreadable : ∀ y ∈ rows.map fun x => ((⟨x.1, readColumns p⟩ : Loaded), x.2.name),
      Readable p y.1 := by
    intro y hy
    obtain ⟨x, hx, rfl⟩ := List.mem_map.mp hy
    exact toOut_ok_iff.mp (toOut_named.mpr (h x hx))
  obtain ⟨items, hitems⟩ := respondList_listed_iff.mpr hreadable
  refine ⟨items, hitems, ?_⟩
  have hall := respondList_eq_listed.mp hitems
  rw [List.forall₂_map_left_iff] at hall
  refine hall.imp fun x item hitem => ?_
  unfold toListItem at hitem
  cases hout : toOut p ⟨x.1, readColumns p⟩ with
  | error e => rw [hout] at hitem; exact absurd hitem nofun
  | ok out =>
    rw [hout] at hitem
    exact ⟨out, rfl, (Except.ok.inj hitem).symm⟩

/-- A row without the name that the phase reads cannot be answered, alone or in a list. -/
theorem not_named_failed {rows : List (Reservation × Restaurant)} {x : Reservation × Restaurant}
    (hx : x ∈ rows) (h : ¬ Named p x.1) :
    (respondList p (rows.map fun x => (⟨x.1, readColumns p⟩, x.2.name))).status = 500 ∧
      (respond p 200 ⟨x.1, readColumns p⟩).status = 500 := by
  have hout : ¬ ∃ out, toOut p ⟨x.1, readColumns p⟩ = .ok out := fun hout => h (toOut_named.mp hout)
  constructor
  · refine status_respondList_failed fun hall => hout (toOut_ok_iff.mpr ?_)
    exact hall (⟨x.1, readColumns p⟩, x.2.name) (List.mem_map.mpr ⟨x, hx, rfl⟩)
  · unfold respond
    cases ho : toOut p ⟨x.1, readColumns p⟩ with
    | ok out => exact absurd ⟨out, ho⟩ hout
    | error e => rfl

end Reads

/-! ## The lists -/

section Lists

variable {db : Database} {env : Env} {p : Phase} {user : User}

/-- **`GET /orders`**: the user's orders, newest first, with their restaurants and item counts. -/
theorem selectMyOrders_read_alone (h : ForeignKeys db) {userId limit : Nat}
    {rows : List OrderSummary} (hrows : SelectMyOrders db userId limit rows) :
    ∃ l, Ordered (fun o => newest o.createdAt o.id) (db.orders.filter (·.userId == userId)) l ∧
      List.Forall₂ (fun o s => ∃ x ∈ db.restaurants, x.id = o.restaurantId ∧
        s = db.summary o x.name) (l.take limit) rows := by
  obtain ⟨l, hl, rfl⟩ := hrows
  rw [groupedOrders_eq h] at hl
  obtain ⟨l', hl', rfl⟩ := hl.exists_map
  refine ⟨l', hl', ?_⟩
  rw [← List.map_take, List.forall₂_map_right_iff, List.forall₂_same]
  intro o ho
  have hmem := List.mem_filter.mp (hl'.perm.mem_iff.mp (List.mem_of_mem_take ho))
  obtain ⟨hx, hid⟩ := restaurantOf_mem (h.orderRestaurants o hmem.1)
  exact ⟨_, hx, hid, rfl⟩

/-- **`GET /reservations`**: the user's reservations, latest start first, each as it is read alone,
    with its restaurant's name. -/
theorem listMyReservations_read_alone (h : ForeignKeys db)
    (hcols : undefinedColumn env.schema (readColumns p) = none) {limit : Nat} {a : TableFlow.Answer}
    (ha : ListMyReservations db env p user limit a) :
    ∃ l, Ordered latest (db.reservations.filter (·.userId == user.id)) l ∧
      ((∀ r ∈ l.take limit, Named p r ∧ loads r = true) →
        ∃ items, a = .listed items ∧ List.Forall₂ (fun r item =>
          ∃ x ∈ db.restaurants, x.id = r.restaurantId ∧ ∃ out,
            getReservation env p db.reservations user r.id = .out 200 (etag r.version) out ∧
              item = { out with restaurantName := x.name }) (l.take limit) items) ∧
      ∀ r ∈ l.take limit, ¬ (Named p r ∧ loads r = true) →
        a.status = 500 ∧ (getReservation env p db.reservations user r.id).status = 500 := by
  obtain ⟨rows, ⟨l, hl, rfl⟩, rfl⟩ := ha
  rw [joinedBookings_eq h] at hl
  obtain ⟨l', hl', rfl⟩ := hl.exists_map
  have hmem : ∀ r ∈ l'.take limit, r ∈ db.reservations ∧ r.userId = user.id := by
    intro r hr
    have hown := List.mem_filter.mp (hl'.perm.mem_iff.mp (List.mem_of_mem_take hr))
    exact ⟨hown.1, by simpa using hown.2⟩
  have herror : ∀ rows : List (Reservation × Restaurant),
      listError env.schema (readColumns p) (rows.map fun x => (⟨x.1, readColumns p⟩, x.2.name))
        = if rows.all fun x => loads x.1 then none else some .dataError := by
    intro rows
    unfold listError
    rw [hcols, Option.none_or, List.all_map]
    rfl
  rw [← List.map_take, herror]
  refine ⟨l', hl', fun hgood => ?_, fun r hr hbad => ?_⟩
  · have hnames : ∀ x ∈ (l'.take limit).map fun r => (r, restaurantOf db r.restaurantId),
        Named p x.1 := by
      intro x hx
      obtain ⟨r, hr, rfl⟩ := List.mem_map.mp hx
      exact (hgood r hr).1
    have hload : (((l'.take limit).map fun r => (r, restaurantOf db r.restaurantId)).all
        fun x => loads x.1) = true := by
      rw [List.all_map, List.all_eq_true]
      exact fun r hr => (hgood r hr).2
    obtain ⟨items, hitems, hall⟩ := respondList_named hnames
    rw [hload, if_pos rfl]
    refine ⟨items, hitems, ?_⟩
    rw [List.forall₂_map_left_iff] at hall
    have hmem' : ∀ r ∈ l'.take limit, (r ∈ db.reservations ∧ r.userId = user.id) ∧
        loads r = true := fun r hr => ⟨hmem r hr, (hgood r hr).2⟩
    refine ((List.forall₂_and_left _ _).mpr ⟨hmem', hall⟩).imp fun r item hitem => ?_
    obtain ⟨⟨⟨hr, hown⟩, hl⟩, out, hout, rfl⟩ := hitem
    obtain ⟨hx, hid⟩ := restaurantOf_mem (h.reservationRestaurants r hr)
    refine ⟨_, hx, hid, out, ?_, rfl⟩
    rw [getReservation_own h hcols hr hown, if_pos hl]
    unfold respond
    rw [hout]
  · obtain ⟨hr', hown⟩ := hmem r hr
    have hjoined := List.mem_map_of_mem (f := fun r => (r, restaurantOf db r.restaurantId)) hr
    rw [getReservation_own h hcols hr' hown]
    cases hl : loads r with
    | false =>
      -- neither the list nor the row is loaded
      have hnot : ¬ (((l'.take limit).map fun r => (r, restaurantOf db r.restaurantId)).all
          fun x => loads x.1) = true := by
        rw [List.all_eq_true]
        exact fun hall => absurd (hall _ hjoined) (by simp [hl])
      rw [if_neg hnot]
      exact ⟨rfl, rfl⟩
    | true =>
      obtain ⟨hlist, hone⟩ := not_named_failed hjoined fun hn => hbad ⟨hn, hl⟩
      refine ⟨?_, hone⟩
      split
      · rfl
      · exact hlist

/-- What the service answers in `Privacy` is one answer of the query. -/
theorem selectMyOrders_answers (h : ForeignKeys db) (userId limit : Nat) :
    SelectMyOrders db userId limit (db.selectMyOrders userId limit) := by
  have hjoined : ((db.orders.filter (·.userId == userId)).filterMap fun o =>
      (db.restaurant o.restaurantId).map fun x => db.summary o x.name)
        = groupedOrders db userId := by
    rw [groupedOrders_eq h, ← List.filterMap_eq_map]
    refine List.filterMap_congr fun o ho => ?_
    rw [restaurant_some (h.orderRestaurants o (List.mem_filter.mp ho).1)]
    rfl
  have hnewer : ∀ a b : OrderSummary, newer a b ↔ newest a.createdAt a.id ≤ newest b.createdAt b.id :=
    fun a b => (Prod.Lex.toLex_le_toLex (x := (b.createdAt, b.id)) (y := (a.createdAt, a.id))).symm
  refine ⟨(groupedOrders db userId).insertionSort newer, ordered_insertionSort hnewer, ?_⟩
  unfold Database.selectMyOrders
  rw [hjoined]

theorem listMyReservations_answers (h : ForeignKeys db) (limit : Nat) :
    ListMyReservations db env p user limit
      (listMyReservations (db.env env) p db.reservations user limit) := by
  let columns := readColumns p
  let load : Reservation × Restaurant → Loaded × Text := fun x => (⟨x.1, columns⟩, x.2.name)
  have hjoined : ((db.reservations.filter (·.userId == user.id)).filterMap fun r =>
      ((db.env env).restaurant r.restaurantId).map fun x => ((⟨r, columns⟩ : Loaded), x.name))
        = (joinedBookings db user.id).map load := by
    rw [joinedBookings_eq h, List.map_map, ← List.filterMap_eq_map]
    refine List.filterMap_congr fun r hr => ?_
    have hsome := restaurant_some (h.reservationRestaurants r (List.mem_filter.mp hr).1)
    rw [show (db.env env).restaurant r.restaurantId = some (restaurantOf db r.restaurantId) from hsome]
    rfl
  unfold listMyReservations
  rw [show (db.env env).schema = env.schema from rfl]
  refine ⟨_, ⟨(joinedBookings db user.id).insertionSort fun a b => b.1.startsAt ≤ a.1.startsAt,
    ordered_insertionSort fun _ _ => Iff.rfl, ?_⟩, rfl⟩
  have hsort : ((joinedBookings db user.id).insertionSort
        fun a b => b.1.startsAt ≤ a.1.startsAt).map load
      = ((joinedBookings db user.id).map load).insertionSort
        fun a b => b.1.row.startsAt ≤ a.1.row.startsAt :=
    List.map_insertionSort _ _ load _ fun _ _ _ _ => Iff.rfl
  unfold bookingsOf
  rw [hjoined, List.map_take]
  exact congrArg (List.take limit) hsort.symm

end Lists

/-- **Each list is one query, and equals the plain reads of its rows**: no row of the user is lost,
    doubled or given to another restaurant.  Of the reservations that the driver loads, only one
    without the name that the phase reads fails, alone as in the list. -/
theorem my_lists_read_alone {db : Database} (h : ForeignKeys db) (env : Env) (p : Phase)
    (hcols : ∀ c ∈ readColumns p, (env.schema.column c).isSome) (user : User) (limit : Nat) :
    (∀ rows, SelectMyOrders db user.id limit rows →
      ∃ l, Ordered (fun o => newest o.createdAt o.id) (db.orders.filter (·.userId == user.id)) l ∧
        List.Forall₂ (fun o s => ∃ x ∈ db.restaurants, x.id = o.restaurantId ∧
          s = db.summary o x.name) (l.take limit) rows) ∧
    ∀ a, ListMyReservations db env p user limit a →
      ∃ l, Ordered latest (db.reservations.filter (·.userId == user.id)) l ∧
        ((∀ r ∈ l.take limit, loads r = true) →
          ((∀ r ∈ l.take limit, Named p r) →
            ∃ items, a = .listed items ∧ List.Forall₂ (fun r item =>
              ∃ x ∈ db.restaurants, x.id = r.restaurantId ∧ ∃ out,
                getReservation env p db.reservations user r.id = .out 200 (etag r.version) out ∧
                  item = { out with restaurantName := x.name }) (l.take limit) items) ∧
          ∀ r ∈ l.take limit, ¬ Named p r →
            a.status = 500 ∧ (getReservation env p db.reservations user r.id).status = 500) := by
  refine ⟨fun _ hrows => selectMyOrders_read_alone h hrows, fun a ha => ?_⟩
  obtain ⟨l, hl, hlisted, hfailed⟩ :=
    listMyReservations_read_alone h (undefinedColumn_eq_none hcols) ha
  refine ⟨l, hl, fun hload => ⟨fun hnamed => hlisted fun r hr => ⟨hnamed r hr, hload r hr⟩, ?_⟩⟩
  exact fun r hr hname => hfailed r hr fun hboth => hname hboth.1

/-! ### Ann's lists -/

theorem twoGuests_keys (guestName : Text) (quantity : Nat) :
    ForeignKeys (twoGuests guestName quantity) where
  restaurantKeys := by simp [twoGuests]
  orderRestaurants := by simp [twoGuests, soup]
  reservationRestaurants := by simp [twoGuests, evening]
  bigint := by simp [twoGuests, evening, fitsBigint]

/-- Ann's order, as the service lists it beside the order of another guest. -/
theorem ann_orders_read_alone :
    ∃ l, Ordered (fun o => newest o.createdAt o.id)
        ((twoGuests "Bo".toList 3).orders.filter (·.userId == 1)) l ∧
      List.Forall₂ (fun o s => ∃ x ∈ (twoGuests "Bo".toList 3).restaurants, x.id = o.restaurantId ∧
        s = (twoGuests "Bo".toList 3).summary o x.name) (l.take 50)
        ((twoGuests "Bo".toList 3).selectMyOrders 1 50) :=
  (my_lists_read_alone (twoGuests_keys "Bo".toList 3) sample .legacy (by decide)
    ⟨1, .customer⟩ 50).1 _ (selectMyOrders_answers (twoGuests_keys "Bo".toList 3) 1 50)

/-- Ann, booked in `new_only`. -/
def nameless : Database where
  users := [ann]
  restaurants := [⟨1, "Fern".toList⟩]
  reservations := [writeName .newOnly { evening 1 1 [] with guestName := none } annLee]
  orders := []
  items := []
  reservationKeys := by simp
  orderKeys := by simp

/-- **A reservation without `guest_name`, read in `dual_write`**: the list of its guest is a 500, and
    so is the reservation alone. -/
theorem nameless_not_listed :
    ForeignKeys nameless ∧
    (∀ c ∈ readColumns .dualWrite, ((sample.at .r0003).schema.column c).isSome) ∧
    ListMyReservations nameless (sample.at .r0003) .dualWrite ⟨1, .customer⟩ 50
      (.failed .missingName) ∧
    (getReservation (sample.at .r0003) .dualWrite nameless.reservations ⟨1, .customer⟩ 1).status
      = 500 := by
  have hkeys : ForeignKeys nameless :=
    ⟨by decide, by decide, by decide, by decide⟩
  exact ⟨hkeys, by decide, listMyReservations_answers hkeys 50, by decide⟩

end TableFlow.MyLists
