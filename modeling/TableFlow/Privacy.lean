/-
  What customers can read: their own data.

  1. **The code** — the five reads that are not public, each as a function of the database: GET of
     `/reservations`, `/reservations/{id}`, `/orders`, `/orders/{id}` and `/users/{id}`.  The lists
     filter by owner in SQL; a single row is loaded and then its owner is checked; an account is
     refused before it is looked up.  Nothing says in which order rows are come upon (`MayRespond`).

  2. **The reads of the service** — the reservations are read as the concurrent service reads them
     when nothing runs beside (`getReservation_solo`, `listMyReservations_solo`).

  3. **Non-interference** — two databases that agree on what is the customer's, and on who owns
     what, may give the same answers exactly when no reservation of another user can be loaded in
     one and not in the other: the row is loaded before its owner is checked
     (`sees_own_data_only_iff`).
-/
import TableFlow.Lib.Owned
import TableFlow.Alone
import TableFlow.Checkout

namespace TableFlow.Privacy

open Lib Orders Checkout

/-! ## The database -/

/-- One row of `users`. -/
structure Account extends User where
  email : Text
  passwordHash : Text
  fullName : Text
  phone : Option Text
  isActive : Bool
  createdAt : Int
  deriving DecidableEq, Repr

/-- The tables that the reads query. -/
structure Database where
  users : List Account
  restaurants : List Restaurant
  reservations : List Reservation
  orders : List Order
  items : List OrderItem
  /-- The primary keys. -/
  reservationKeys : (reservations.map Reservation.id).Nodup
  orderKeys : (orders.map Order.id).Nodup

namespace Database

variable (db : Database)

/-- The row of `users` with the id. -/
def account (id : Nat) : Option Account := db.users.find? (·.id == id)

/-- The row of `restaurants` with the id. -/
def restaurant (id : Nat) : Option Restaurant := db.restaurants.find? (·.id == id)

/-- The row of `orders` with the id. -/
def order (id : Nat) : Option Order := db.orders.find? (·.id == id)

/-- The environment of the reservation service, with the restaurants of the database. -/
def env (env : Env) : Env := { env with restaurants := db.restaurants }

/-- The same rows, come upon in another order. -/
structure Reordered (db db₁ : Database) : Prop where
  users : db₁.users = db.users
  restaurants : db₁.restaurants = db.restaurants
  reservations : db₁.reservations.Perm db.reservations
  orders : db₁.orders.Perm db.orders
  items : db₁.items.Perm db.items

theorem Reordered.refl : db.Reordered db := ⟨rfl, rfl, .refl _, .refl _, .refl _⟩

end Database

/-! ## Requests and responses -/

/-- What a signed-in user can ask for. -/
inductive Read
  | reservations (limit : Int)
  | reservation (id : Int)
  | orders (limit : Int)
  | order (id : Int)
  | user (id : Nat)
  deriving DecidableEq

/-- An item of an order, as it is answered. -/
structure OrderItemOut where
  id : Nat
  productId : Text
  productName : Text
  /-- In hundredths of the currency. -/
  unitPrice : Nat
  quantity : Nat
  selectedAttributes : Option Text
  deriving DecidableEq, Repr

/-- An order, as it is answered. -/
structure OrderOut extends Order where
  items : List OrderItemOut
  deriving DecidableEq, Repr

/-- One row of `GET /orders`. -/
structure OrderSummary where
  id : Nat
  restaurantId : Nat
  restaurantName : Text
  reservationId : Option Nat
  status : OrderStatus
  /-- In hundredths of the currency. -/
  totalAmount : Nat
  currency : Text
  createdAt : Int
  itemCount : Nat
  deriving DecidableEq, Repr

/-- `UserOut`: `password_hash` is never included. -/
structure UserOut where
  id : Nat
  email : Text
  fullName : Text
  phone : Option Text
  role : UserRole
  isActive : Bool
  createdAt : Int
  deriving DecidableEq, Repr

/-- What a read is answered. -/
inductive Response
  /-- The answers of the reservations API, and all refusals. -/
  | answer (a : TableFlow.Answer)
  | orders (summaries : List OrderSummary)
  | order (o : OrderOut)
  | user (u : UserOut)
  /-- 422: `limit` is not from 1 to 100. -/
  | unprocessable (limit : Int)
  /-- 500: the response model does not take the value of a field. -/
  | invalidResponse

/-- `HTTPException(status, detail)` -/
def refuse (status : Nat) (detail : String) : Response := .answer (.refused ⟨status, detail⟩)

/-! ## Parameters -/

/-- `Query(ge=1, le=100)` -/
def pageLimit (limit : Int) : Option Nat :=
  if 1 ≤ limit ∧ limit ≤ 100 then some limit.toNat else none

/-- The parameter of a query on a `bigint` key is one. -/
def sendable (id : Int) : Bool := decide (-2 ^ 63 ≤ id) && decide (id < 2 ^ 63)

/-- The row with the id that was sent; the ids of rows are not negative. -/
def rowOf {α : Type} (select : Nat → Option α) (id : Int) : Option α :=
  if id < 0 then none else select id.toNat

theorem rowOf_some {α : Type} {select : Nat → Option α} {id : Int} {x : α}
    (h : rowOf select id = some x) : ∃ n, select n = some x := by
  unfold rowOf at h
  split at h
  · exact absurd h (by simp)
  · exact ⟨_, h⟩

/-- An id that a row has is looked up as it is. -/
@[simp] theorem rowOf_natCast {α : Type} (select : Nat → Option α) (id : Nat) :
    rowOf select (id : Int) = select id := by
  unfold rowOf
  rw [if_neg (by omega), Int.toNat_natCast]

@[simp] theorem sendable_natCast (id : Nat) : sendable (id : Int) = fitsBigint id := by
  have hlow : -2 ^ 63 ≤ (id : Int) := by omega
  unfold sendable fitsBigint
  rw [decide_eq_true hlow, Bool.true_and, decide_eq_decide]
  omega

/-! ## The reads -/

/-- `get_current_user`, with a valid token of the user `id`. -/
def Database.currentUser (db : Database) (id : Nat) : Option Account :=
  (db.account id).filter (·.isActive)

/-- `list_my_reservations`, on the rows in the order they are come upon. -/
def listMyReservations (env : Env) (p : Phase) (rows : List Reservation) (user : User)
    (limit : Nat) : TableFlow.Answer :=
  let found := bookingsOf env (readColumns p) rows user.id limit
  match listError env.schema (readColumns p) found with
  | some e => .failed (.database e)
  | none => respondList p found

/-- `get_reservation`: the row is loaded, whosever it is, before its owner is looked at. -/
def getReservation (env : Env) (p : Phase) (rows : List Reservation) (user : User) (id : Int) :
    TableFlow.Answer :=
  if sendable id = false then .failed (.database .dataError)
  else
    match (undefinedColumn env.schema (readColumns p)).or (rowOf (loadError rows) id) with
    | some e => .failed (.database e)
    | none =>
      match loadOwned user (rowOf (selectReservations (readColumns p) rows) id) with
      | .error e => .refused e
      | .ok l => respond p 200 l

/-- A row of the query `select_my_orders`; the items are counted in SQL. -/
def Database.summary (db : Database) (o : Order) (restaurantName : Text) : OrderSummary where
  id := o.id
  restaurantId := o.restaurantId
  restaurantName := restaurantName
  reservationId := o.reservationId
  status := o.status
  totalAmount := o.totalAmount
  currency := o.currency
  createdAt := o.createdAt
  itemCount := db.items.countP (·.orderId == o.id)

/-- `ORDER BY created_at DESC, id DESC` -/
def newer (a b : OrderSummary) : Prop :=
  b.createdAt < a.createdAt ∨ b.createdAt = a.createdAt ∧ b.id ≤ a.id

instance : DecidableRel newer := fun _ _ => inferInstanceAs (Decidable (_ ∨ _))

/-- `select_my_orders` -/
def Database.selectMyOrders (db : Database) (userId limit : Nat) : List OrderSummary :=
  let joined := (db.orders.filter (·.userId == userId)).filterMap fun o =>
    (db.restaurant o.restaurantId).map fun x => db.summary o x.name
  (joined.insertionSort newer).take limit

/-- `OrderItemOut` of a row. -/
def itemOut (x : OrderItem) : OrderItemOut where
  id := x.id
  productId := x.productId
  productName := x.productName
  unitPrice := x.unitPrice
  quantity := x.quantity
  selectedAttributes := x.selectedAttributes

/-- The order with its items. -/
def Database.orderOut (db : Database) (o : Order) : OrderOut :=
  { o with items := (db.items.filter (·.orderId == o.id)).map itemOut }

/-- `get_order` -/
def Database.getOrder (db : Database) (user : User) (id : Int) : Response :=
  if sendable id = false then .answer (.failed (.database .dataError))
  else
    match rowOf db.order id with
    | none => refuse 404 "Order not found"
    | some o =>
      if user.role = .customer ∧ o.userId ≠ user.id then refuse 403 "Not your order"
      else .order (db.orderOut o)

/-- `UserOut` of a row. -/
def userOut (a : Account) : UserOut where
  id := a.id
  email := a.email
  fullName := a.fullName
  phone := a.phone
  role := a.role
  isActive := a.isActive
  createdAt := a.createdAt

/-- `get_user`; `validEmail` is the check of `EmailStr`, which the response model makes too. -/
def Database.getUser (db : Database) (validEmail : Text → Bool) (user : User) (id : Nat) :
    Response :=
  if user.role = .customer ∧ user.id ≠ id then refuse 403 "Cannot read another user's account"
  else
    match db.account id with
    | none => refuse 404 "User not found"
    | some a => if validEmail a.email then .user (userOut a) else .invalidResponse

/-- The list endpoints check `limit` first. -/
def limited (limit : Int) (list : Nat → Response) : Response :=
  match pageLimit limit with
  | none => .unprocessable limit
  | some n => list n

/-- The response to a read, by a client with a valid token of the user `c`. -/
def Database.respond (db : Database) (validEmail : Text → Bool) (env : Env) (p : Phase) (c : Nat)
    (req : Read) : Response :=
  match db.currentUser c with
  | none => refuse 401 "Not authenticated"
  | some user =>
    match req with
    | .reservations limit =>
      limited limit fun n =>
        .answer (listMyReservations (db.env env) p db.reservations user.toUser n)
    | .reservation id => .answer (getReservation (db.env env) p db.reservations user.toUser id)
    | .orders limit => limited limit fun n => .orders (db.selectMyOrders user.id n)
    | .order id => db.getOrder user.toUser id
    | .user id => db.getUser validEmail user.toUser id

/-- What a read may be answered: rows without an `ORDER BY`, or tied in it, come in any order. -/
def Database.MayRespond (db : Database) (validEmail : Text → Bool) (env : Env) (p : Phase) (c : Nat)
    (req : Read) (a : Response) : Prop :=
  ∃ db₁, db.Reordered db₁ ∧ db₁.respond validEmail env p c req = a

/-! ## The reads of the service

`GET /reservations` and `GET /reservations/{id}` are requests of the concurrent service, too.  When
the other requests leave them alone, they are answered as above. -/

section Solo

variable (env : Env) (w : World) (i : Nat) (user : User)

theorem getReservation_solo {id : Nat} (hid : fitsBigint id = true) :
    Solo env i (.onOne user id .get) w .arrived w
      (.done (getReservation env w.phase w.store.rows user id)) := by
  have herror : selectError env.schema (readColumns w.phase) w.store.rows id
      = (undefinedColumn env.schema (readColumns w.phase)).or (loadError w.store.rows id) := by
    unfold selectError
    rw [if_neg (by rw [hid]; decide)]
    rfl
  unfold getReservation
  rw [sendable_natCast, if_neg (by rw [hid]; decide), rowOf_natCast, rowOf_natCast]
  refine .look rfl ?_
  cases hload : (undefinedColumn env.schema (readColumns w.phase)).or
      (loadError w.store.rows id) with
  | some e =>
    refine .look ?_ .refl
    simp only [act, actOne, herror, hload]
  | none =>
    refine .look (by simp only [act, actOne, herror, hload]; rfl) ?_
    refine .look ?_ .refl
    show actOne env w i user id .get (.loaded _) = _
    simp only [actOne]
    cases loadOwned user (selectReservations (readColumns w.phase) w.store.rows id) <;> rfl

theorem listMyReservations_solo (limit : Nat) :
    Solo env i (.list user limit) w .arrived w
      (.done (listMyReservations env w.phase (env.scan w.store.rows) user limit)) := by
  unfold listMyReservations
  refine .look rfl ?_
  dsimp only
  cases herror : listError env.schema (readColumns w.phase)
      (bookingsOf env (readColumns w.phase) (env.scan w.store.rows) user.id limit) with
  | some e =>
    refine .look ?_ .refl
    simp only [act, actList, selectMyBookings, herror]
  | none =>
    refine .look (by simp only [act, actList, selectMyBookings, herror]; rfl) ?_
    exact .look rfl .refl

end Solo

/-! ## Databases that agree -/

/-- Reservations by their ids and users. -/
def byUser : Ownership Reservation Nat Nat := ⟨Reservation.id, Reservation.userId⟩

/-- Orders by their ids and users. -/
def orderedBy : Ownership Order Nat Nat := ⟨Order.id, Order.userId⟩

/-- The databases agree on the account, the reservations, the orders and the order items of `c`, on
    the restaurants, and on which reservations and orders exist and whose they are. -/
structure Agree (c : Nat) (db db' : Database) : Prop where
  account : db.account c = db'.account c
  restaurants : ∀ id, db.restaurant id = db'.restaurant id
  reservations : byUser.Agree c db.reservations db'.reservations
  orders : orderedBy.Agree c db.orders db'.orders
  items : (orderedBy.ownChildren OrderItem.orderId c db.orders db.items).Perm
    (orderedBy.ownChildren OrderItem.orderId c db'.orders db'.items)

/-- They agree, and what is of `c` is come upon in the same order. -/
structure Aligned (c : Nat) (db db' : Database) : Prop where
  account : db.account c = db'.account c
  restaurants : ∀ id, db.restaurant id = db'.restaurant id
  reservations : byUser.Aligned c db.reservations db'.reservations
  orders : orderedBy.Aligned c db.orders db'.orders
  items : orderedBy.ownChildren OrderItem.orderId c db.orders db.items
    = orderedBy.ownChildren OrderItem.orderId c db'.orders db'.items

/-- A reservation of another user than `c` can be loaded in both databases or in neither. -/
def LoadAlike (c : Nat) (db db' : Database) : Prop :=
  ∀ r ∈ db.reservations, ∀ r' ∈ db'.reservations,
    r.id = r'.id → r.userId ≠ c → fitsBigint r.id = true → loads r = loads r'

/-- What one database is come upon in some order, the other is in an order that is aligned. -/
theorem Agree.align {c : Nat} {db db' db₁ : Database} (h : Agree c db db') (h₁ : db.Reordered db₁) :
    ∃ db₁', db'.Reordered db₁' ∧ Aligned c db₁ db₁' := by
  obtain ⟨reservations, hres, hresA⟩ := h.reservations.align h₁.reservations
  obtain ⟨orders, hord, hordA⟩ := h.orders.align h₁.orders
  obtain ⟨items, hitems, hitemsA⟩ :=
    h.orders.align_children h.items h₁.orders hord h₁.items
  refine ⟨{ users := db'.users, restaurants := db'.restaurants, reservations := reservations,
            orders := orders, items := items,
            reservationKeys := ((hres.map _).nodup_iff).mpr db'.reservationKeys,
            orderKeys := ((hord.map _).nodup_iff).mpr db'.orderKeys },
    ⟨rfl, rfl, hres, hord, hitems⟩, ?_, fun id => ?_, hresA, hordA, hitemsA⟩
  · unfold Database.account
    rw [h₁.users]
    exact h.account
  · unfold Database.restaurant
    rw [h₁.restaurants]
    exact h.restaurants id

theorem LoadAlike.reordered {c : Nat} {db db' db₁ db₁' : Database} (h : LoadAlike c db db')
    (h₁ : db.Reordered db₁) (h₁' : db'.Reordered db₁') : LoadAlike c db₁ db₁' :=
  fun r hr r' hr' => h r (h₁.reservations.mem_iff.mp hr) r' (h₁'.reservations.mem_iff.mp hr')

theorem Agree.symm {c : Nat} {db db' : Database} (h : Agree c db db') : Agree c db' db where
  account := h.account.symm
  restaurants id := (h.restaurants id).symm
  reservations := ⟨h.reservations.own.symm, fun k u => (h.reservations.owners k u).symm⟩
  orders := ⟨h.orders.own.symm, fun k u => (h.orders.owners k u).symm⟩
  items := h.items.symm

/-- Whose a reservation is, both databases say. -/
theorem Agree.owner_eq {c : Nat} {db db' : Database} (h : Agree c db db') {r r' : Reservation}
    (hr : r ∈ db.reservations) (hr' : r' ∈ db'.reservations) (hid : r.id = r'.id) :
    r.userId = r'.userId := by
  obtain ⟨s, hs, hkey, howner⟩ := (h.reservations.owners r.id r.userId).mp ⟨r, hr, rfl, rfl⟩
  have hsame : s = r' :=
    List.inj_on_of_nodup_map db'.reservationKeys hs hr' (hkey.trans hid)
  rw [← hsame]
  exact howner.symm

theorem LoadAlike.symm {c : Nat} {db db' : Database} (h : LoadAlike c db db') (ha : Agree c db db') :
    LoadAlike c db' db := by
  intro r' hr' r hr hid hforeign hfits
  refine (h r hr r' hr' hid.symm ?_ (hid ▸ hfits)).symm
  rw [ha.owner_eq hr hr' hid.symm]
  exact hforeign

section Aligned

variable {c : Nat} {db db' : Database} {user : User}

/-- What a client finds by an id is alike, if what any key finds is. -/
theorem rowOf_alike {ρ : Type} {O : Ownership ρ Nat Nat} {find find' : Nat → Option ρ}
    (h : ∀ n, O.Alike c (find n) (find' n)) (id : Int) :
    O.Alike c (rowOf find id) (rowOf find' id) := by
  unfold rowOf
  split
  · exact .missing
  · exact h _

/-- The owner check answers alike for what is alike. -/
theorem loadOwned_alike (hid : user.id = c) (hrole : user.role = .customer) (cs : List Column)
    {x x' : Option Reservation} (h : byUser.Alike c x x') :
    loadOwned user (x.map fun r => ⟨r, cs⟩) = loadOwned user (x'.map fun r => ⟨r, cs⟩) := by
  subst hid
  cases h with
  | missing => rfl
  | own hc => rfl
  | foreign hc hc' =>
    have hforeign : ∀ r : Reservation, r.userId ≠ user.id →
        loadOwned user (some ⟨r, cs⟩) = .error notYours := fun r hr => if_pos ⟨hrole, hr⟩
    rw [Option.map_some, Option.map_some, hforeign _ hc, hforeign _ hc']

theorem rowOf_selectReservations (cs : List Column) (rows : List Reservation) (id : Int) :
    rowOf (selectReservations cs rows) id
      = (rowOf (Store.lookup TableFlow.reservations rows) id).map fun r => ⟨r, cs⟩ := by
  unfold rowOf
  split <;> rfl

theorem Aligned.lookup (h : Aligned c db db') (id : Nat) :
    byUser.Alike c (Store.lookup TableFlow.reservations db.reservations id)
      (Store.lookup TableFlow.reservations db'.reservations id) :=
  h.reservations.find db.reservationKeys db'.reservationKeys id

/-- The row of an id is loaded in both databases or in neither. -/
theorem loadError_agree (h : Aligned c db db') (hload : LoadAlike c db db') {id : Nat}
    (hid : fitsBigint id = true) :
    loadError db.reservations id = loadError db'.reservations id := by
  have halike := h.lookup id
  unfold loadError
  cases hx : Store.lookup TableFlow.reservations db.reservations id with
  | none =>
    rw [hx] at halike
    generalize Store.lookup TableFlow.reservations db'.reservations id = x' at halike
    cases halike
    rfl
  | some r =>
    cases hx' : Store.lookup TableFlow.reservations db'.reservations id with
    | none =>
      rw [hx, hx'] at halike
      exact nomatch halike
    | some r' =>
      rw [hx, hx'] at halike
      obtain ⟨hr, hk⟩ := Store.lookup_some hx
      obtain ⟨hr', hk'⟩ := Store.lookup_some hx'
      have heq : loads r = loads r' := by
        cases halike with
        | own => rfl
        | foreign hc =>
          have hrid : r.id = id := hk
          exact hload r hr r' hr' (hk.trans hk'.symm) hc (by rw [hrid]; exact hid)
      rw [Option.any_some, Option.any_some, heq]

theorem getReservation_agree (h : Aligned c db db') (hid : user.id = c)
    (hrole : user.role = .customer) {env : Env} {p : Phase}
    (hload : undefinedColumn env.schema (readColumns p) = none → LoadAlike c db db') (id : Int) :
    getReservation (db.env env) p db.reservations user id
      = getReservation (db'.env env) p db'.reservations user id := by
  have hfound := loadOwned_alike hid hrole (readColumns p) (rowOf_alike h.lookup id)
  unfold getReservation
  by_cases hsend : sendable id = false
  · rw [if_pos hsend, if_pos hsend]
  · have herror : (undefinedColumn env.schema (readColumns p)).or
          (rowOf (loadError db.reservations) id)
        = (undefinedColumn env.schema (readColumns p)).or
          (rowOf (loadError db'.reservations) id) := by
      cases hcols : undefinedColumn env.schema (readColumns p) with
      | some e => rfl
      | none =>
        unfold rowOf
        split
        · rfl
        refine congrArg _ (loadError_agree h (hload hcols) ?_)
        have hbound : -2 ^ 63 ≤ id ∧ id < 2 ^ 63 := by
          simpa [sendable] using hsend
        unfold fitsBigint
        rw [decide_eq_true_eq]
        omega
    rw [if_neg hsend, if_neg hsend, show (db.env env).schema = env.schema from rfl,
      show (db'.env env).schema = env.schema from rfl, herror, rowOf_selectReservations,
      rowOf_selectReservations, hfound]

/-- The lists join each row with its restaurant. -/
theorem bookingsOf_agree (h : Aligned c db db') (env : Env) (cs : List Column) (limit : Nat) :
    bookingsOf (db.env env) cs db.reservations c limit
      = bookingsOf (db'.env env) cs db'.reservations c limit := by
  have hown : db.reservations.filter (·.userId == c) = db'.reservations.filter (·.userId == c) :=
    h.reservations.own
  have hjoin : ∀ id, (db.env env).restaurant id = (db'.env env).restaurant id := h.restaurants
  unfold bookingsOf
  rw [hown]
  simp only [hjoin]

theorem listMyReservations_agree (h : Aligned c db db') (hid : user.id = c) (env : Env) (p : Phase)
    (limit : Nat) :
    listMyReservations (db.env env) p db.reservations user limit
      = listMyReservations (db'.env env) p db'.reservations user limit := by
  unfold listMyReservations
  rw [hid, bookingsOf_agree h, show (db.env env).schema = (db'.env env).schema from rfl]

/-- The items of an order of `c` are the same. -/
theorem Aligned.itemsOf (h : Aligned c db db') {o : Order} (ho : o ∈ db.orders)
    (hc : o.userId = c) :
    db.items.filter (·.orderId == o.id) = db'.items.filter (·.orderId == o.id) :=
  h.orders.children h.items ho hc

theorem Aligned.summary (h : Aligned c db db') {o : Order} (ho : o ∈ db.orders) (hc : o.userId = c)
    (restaurantName : Text) : db.summary o restaurantName = db'.summary o restaurantName := by
  unfold Database.summary
  rw [List.countP_eq_length_filter, List.countP_eq_length_filter, h.itemsOf ho hc]

theorem Aligned.orderOut (h : Aligned c db db') {o : Order} (ho : o ∈ db.orders)
    (hc : o.userId = c) : db.orderOut o = db'.orderOut o := by
  unfold Database.orderOut
  rw [h.itemsOf ho hc]

theorem selectMyOrders_agree (h : Aligned c db db') (limit : Nat) :
    db.selectMyOrders c limit = db'.selectMyOrders c limit := by
  have hown : db.orders.filter (·.userId == c) = db'.orders.filter (·.userId == c) := h.orders.own
  have hjoin : ∀ o ∈ db.orders.filter (·.userId == c),
      ((db.restaurant o.restaurantId).map fun x => db.summary o x.name)
        = (db'.restaurant o.restaurantId).map fun x => db'.summary o x.name := by
    intro o ho
    obtain ⟨hmem, hc⟩ : o ∈ db.orders ∧ o.userId = c := by simpa using ho
    -- the join reads the restaurants, the count the items of this order only
    rw [h.restaurants]
    exact Option.map_congr fun x _ => h.summary hmem hc x.name
  unfold Database.selectMyOrders
  rw [List.filterMap_congr hjoin, hown]

theorem getOrder_agree (h : Aligned c db db') (hid : user.id = c) (hrole : user.role = .customer)
    (id : Int) : db.getOrder user id = db'.getOrder user id := by
  subst hid
  have halike : orderedBy.Alike user.id (rowOf db.order id) (rowOf db'.order id) :=
    rowOf_alike (h.orders.find db.orderKeys db'.orderKeys) id
  have hmem : ∀ o, rowOf db.order id = some o → o ∈ db.orders := by
    intro o ho
    obtain ⟨n, hn⟩ := rowOf_some ho
    exact List.mem_of_find?_eq_some hn
  unfold Database.getOrder
  generalize rowOf db.order id = x at halike hmem
  generalize rowOf db'.order id = x' at halike
  cases halike with
  | missing => rfl
  | own hc => simp only [h.orderOut (hmem _ rfl) hc]
  | @foreign o o' hc hc' =>
    -- both are refused with the same text
    have hforeign : user.role = .customer ∧ o.userId ≠ user.id := ⟨hrole, hc⟩
    have hforeign' : user.role = .customer ∧ o'.userId ≠ user.id := ⟨hrole, hc'⟩
    simp only [if_pos hforeign, if_pos hforeign']

theorem getUser_agree (h : Aligned c db db') (hid : user.id = c) (hrole : user.role = .customer)
    (validEmail : Text → Bool) (id : Nat) :
    db.getUser validEmail user id = db'.getUser validEmail user id := by
  unfold Database.getUser
  by_cases hown : user.id = id
  · rw [← hown, hid, h.account]
  · -- refused before the lookup
    rw [if_pos ⟨hrole, hown⟩, if_pos ⟨hrole, hown⟩]

theorem Aligned.currentUser (h : Aligned c db db') : db.currentUser c = db'.currentUser c := by
  unfold Database.currentUser
  rw [h.account]

/-- Who is signed in, by the account. -/
theorem currentUser_some {a : Account} (h : db.currentUser c = some a) :
    db.account c = some a ∧ a.id = c := by
  obtain ⟨haccount, -⟩ := Option.filter_eq_some_iff.mp h
  exact ⟨haccount, by simpa using List.find?_some haccount⟩

/-- **Databases that are aligned answer alike**, when the rows of others can be loaded alike. -/
theorem respond_agree (h : Aligned c db db')
    (hc : ∀ a, db.account c = some a → a.role = .customer) (validEmail : Text → Bool) {env : Env}
    {p : Phase} (hload : undefinedColumn env.schema (readColumns p) = none → LoadAlike c db db')
    (req : Read) :
    db.respond validEmail env p c req = db'.respond validEmail env p c req := by
  unfold Database.respond
  rw [← h.currentUser]
  cases huser : db.currentUser c with
  | none => rfl
  | some user =>
    obtain ⟨haccount, hid⟩ := currentUser_some huser
    have hrole := hc user haccount
    cases req with
    | reservations limit =>
      simp only [listMyReservations_agree h hid]
    | reservation id =>
      exact congrArg _ (getReservation_agree h hid hrole hload id)
    | orders limit =>
      simp only [hid, selectMyOrders_agree h]
    | order id => exact getOrder_agree h hid hrole id
    | user id => exact getUser_agree h hid hrole validEmail id

end Aligned

/-! ## Reservations of others -/

section Foreign

variable {c : Nat} {db : Database} (validEmail : Text → Bool) {env : Env} {p : Phase}

/-- Who is not signed in is answered 401. -/
theorem mayRespond_nobody (h : db.currentUser c = none) (req : Read) (a : Response) :
    db.MayRespond validEmail env p c req a ↔ a = refuse 401 "Not authenticated" := by
  have hrespond : ∀ db₁, db.Reordered db₁ →
      db₁.respond validEmail env p c req = refuse 401 "Not authenticated" := by
    intro db₁ h₁
    have hnobody : db₁.currentUser c = none := by
      unfold Database.currentUser Database.account at h ⊢
      rw [h₁.users, h]
    unfold Database.respond
    rw [hnobody]
  constructor
  · rintro ⟨db₁, h₁, rfl⟩
    exact hrespond db₁ h₁
  · rintro rfl
    exact ⟨db, .refl db, hrespond db (.refl db)⟩

/-- **A reservation of another user**: 403, unless the row cannot be loaded. -/
theorem mayRespond_foreign {user : Account} (huser : db.currentUser c = some user)
    (hrole : user.role = .customer)
    (hcols : undefinedColumn env.schema (readColumns p) = none) {r : Reservation}
    (hr : r ∈ db.reservations) (hforeign : r.userId ≠ c) (hfits : fitsBigint r.id = true)
    (a : Response) :
    db.MayRespond validEmail env p c (.reservation r.id) a ↔
      a = if loads r then refuse 403 notYours.detail
        else .answer (.failed (.database .dataError)) := by
  have hrespond : ∀ db₁, db.Reordered db₁ →
      db₁.respond validEmail env p c (.reservation r.id) = if loads r then refuse 403 notYours.detail
        else .answer (.failed (.database .dataError)) := by
    intro db₁ h₁
    obtain ⟨-, hid⟩ := currentUser_some huser
    have huser₁ : db₁.currentUser c = some user := by
      unfold Database.currentUser Database.account at huser ⊢
      rw [h₁.users, huser]
    have hlookup : Store.lookup TableFlow.reservations db₁.reservations r.id = some r :=
      Store.lookup_mem (R := TableFlow.reservations) db₁.reservationKeys
        (h₁.reservations.mem_iff.mpr hr)
    have howner : loadOwned user.toUser (some ⟨r, readColumns p⟩) = .error notYours :=
      if_pos ⟨hrole, by rw [hid]; exact hforeign⟩
    unfold Database.respond
    rw [huser₁]
    dsimp only
    unfold getReservation
    rw [sendable_natCast, if_neg (by rw [hfits]; decide), rowOf_natCast, rowOf_natCast,
      show (db₁.env env).schema = env.schema from rfl, hcols, Option.none_or]
    unfold loadError selectReservations
    rw [hlookup, Option.any_some, Option.map_some, howner]
    cases loads r <;> rfl
  constructor
  · rintro ⟨db₁, h₁, rfl⟩
    exact hrespond db₁ h₁
  · rintro rfl
    exact ⟨db, .refl db, hrespond db (.refl db)⟩

end Foreign

/-- The columns of a statement that the database takes are there. -/
theorem column_of_undefined_none {schema : Schema} {cs : List Column}
    (h : undefinedColumn schema cs = none) {col : Column} (hcol : col ∈ cs) :
    schema.column col ≠ none := by
  unfold undefinedColumn at h
  rw [Option.map_eq_none_iff, List.find?_eq_none] at h
  simpa using h col hcol

/-- What one database may answer, so may the other. -/
theorem mayRespond_of_agree {validEmail : Text → Bool} {env : Env} {p : Phase} {c : Nat}
    {db db' : Database} (h : Agree c db db')
    (hc : ∀ a, db.account c = some a → a.role = .customer)
    (hload : undefinedColumn env.schema (readColumns p) = none → LoadAlike c db db')
    {req : Read} {a : Response} (ha : db.MayRespond validEmail env p c req a) :
    db'.MayRespond validEmail env p c req a := by
  obtain ⟨db₁, h₁, rfl⟩ := ha
  obtain ⟨db₁', h₁', haligned⟩ := h.align h₁
  have hc₁ : ∀ a, db₁.account c = some a → a.role = .customer := by
    unfold Database.account
    rw [h₁.users]
    exact hc
  have hload₁ := fun hcols => (hload hcols).reordered h₁ h₁'
  exact ⟨db₁', h₁', (respond_agree haligned hc₁ validEmail hload₁ req).symm⟩

/-- **Customers see only their own data**, whatever else differs, exactly when no reservation of
    another user can be loaded in one database and not in the other. -/
theorem sees_own_data_only_iff (validEmail : Text → Bool) (env : Env) (p : Phase) {c : Nat}
    {db db' : Database} (h : Agree c db db')
    (hc : ∀ a, db.account c = some a → a.role = .customer) :
    (∀ req a, db.MayRespond validEmail env p c req a ↔ db'.MayRespond validEmail env p c req a) ↔
      db.currentUser c = none ∨
      (∃ col ∈ readColumns p, env.schema.column col = none) ∨
      ∀ r ∈ db.reservations, ∀ r' ∈ db'.reservations,
        r.id = r'.id → r.userId ≠ c → fitsBigint r.id = true → loads r = loads r' := by
  have hsame : db.currentUser c = db'.currentUser c := by
    unfold Database.currentUser
    rw [h.account]
  have hc' : ∀ a, db'.account c = some a → a.role = .customer := by
    rw [← h.account]
    exact hc
  constructor
  · intro hsee
    cases huser : db.currentUser c with
    | none => exact .inl rfl
    | some user =>
      refine .inr ?_
      by_cases hcol : ∃ col ∈ readColumns p, env.schema.column col = none
      · exact .inl hcol
      refine .inr fun r hr r' hr' hid hforeign hfits => ?_
      have hcols : undefinedColumn env.schema (readColumns p) = none :=
        undefinedColumn_eq_none fun col hmem =>
          Option.isSome_iff_ne_none.mpr fun hnone => hcol ⟨col, hmem, hnone⟩
      have hrole := hc user (currentUser_some huser).1
      have howner := h.owner_eq hr hr' hid
      -- the answer to a GET of the row tells whether it is loaded
      have hanswer := mayRespond_foreign validEmail huser hrole hcols hr hforeign
        hfits
      have hanswer' := mayRespond_foreign validEmail (hsame ▸ huser) hrole hcols hr'
        (howner ▸ hforeign) (hid ▸ hfits)
      have htell := (hanswer' _).mp (hid ▸ (hsee _ _).mp ((hanswer _).mpr rfl))
      cases hl : loads r <;> cases hl' : loads r'
      · rfl
      · rw [hl, hl'] at htell
        exact absurd htell (by simp [refuse])
      · rw [hl, hl'] at htell
        exact absurd htell (by simp [refuse])
      · rfl
  · rintro (hnobody | hsees)
    · intro req a
      rw [mayRespond_nobody _ hnobody, mayRespond_nobody _ (hsame ▸ hnobody)]
    · have hload : undefinedColumn env.schema (readColumns p) = none → LoadAlike c db db' := by
        intro hcols
        rcases hsees with ⟨col, hmem, hnone⟩ | hload
        · exact absurd hnone (column_of_undefined_none hcols hmem)
        · exact hload
      exact fun req a => ⟨mayRespond_of_agree h hc hload,
        mayRespond_of_agree h.symm hc' fun hcols => (hload hcols).symm h⟩

/-! ## Two guests

Ann is user 1.  Of the other guest, user 2, the databases below know different things. -/

/-- The customer who asks. -/
def ann : Account :=
  { id := 1, role := .customer, email := "ann@example.com".toList, passwordHash := "a".toList,
    fullName := annLee, phone := none, isActive := true, createdAt := 0 }

/-- Another customer, with the name given here. -/
def other (fullName : Text) : Account :=
  { ann with id := 2, email := "other@example.com".toList, fullName := fullName }

/-- A table for two in the evening. -/
def evening (id userId : Nat) (guestName : Text) : Reservation :=
  { id := id, userId := userId, restaurantId := 1, restaurantTableId := userId,
    guestName := some guestName, firstName := none, lastName := none, partySize := 2,
    startsAt := 18 * 3600000000, endsAt := 20 * 3600000000, status := .confirmed, createdAt := 0,
    version := id }

/-- An order of soups, with its item. -/
def soup (id userId quantity : Nat) : Order × OrderItem :=
  (⟨id, userId, 1, none, .placed, quantity * 500, "THB".toList, 0⟩,
    ⟨id, id, [], "Soup".toList, 500, quantity, none⟩)

/-- Both guests have a reservation and an order; the other one is called `guestName` and has
    ordered `quantity` soups. -/
def twoGuests (guestName : Text) (quantity : Nat) : Database where
  users := [ann, other guestName]
  restaurants := [⟨1, "Fern".toList⟩]
  reservations := [evening 1 2 guestName, evening 2 1 annLee]
  orders := [(soup 1 2 quantity).1, (soup 2 1 1).1]
  items := [(soup 1 2 quantity).2, (soup 2 1 1).2]
  reservationKeys := by simp [evening]
  orderKeys := by simp [soup]

theorem twoGuests_agree (guestName guestName' : Text) (quantity quantity' : Nat) :
    Agree 1 (twoGuests guestName quantity) (twoGuests guestName' quantity') where
  account := by simp [Database.account, twoGuests, ann]
  restaurants _ := rfl
  reservations := ⟨by simp [Ownership.own, twoGuests, evening, byUser],
    fun k u => by simp [twoGuests, evening, byUser]⟩
  orders := ⟨by simp [Ownership.own, twoGuests, soup, orderedBy],
    fun k u => by simp [twoGuests, soup, orderedBy]⟩
  items := by simp [Ownership.ownChildren, Ownership.owns, twoGuests, soup, orderedBy]

theorem ann_customer (guestName : Text) (quantity : Nat) :
    ∀ a, (twoGuests guestName quantity).account 1 = some a → a.role = .customer := by
  intro a h
  obtain rfl := Option.some.inj h
  rfl

/-- Ann is refused the other guest's reservation. -/
theorem evening_refused (a : Response) :
    (twoGuests "Bo".toList 1).MayRespond (fun _ => true) sample .legacy 1 (.reservation 1) a ↔
      a = refuse 403 "Not your reservation" := by
  have huser : (twoGuests "Bo".toList 1).currentUser 1 = some ann := rfl
  have hmem : evening 1 2 "Bo".toList ∈ (twoGuests "Bo".toList 1).reservations :=
    List.mem_cons_self ..
  have hanswer := mayRespond_foreign (fun _ => true) huser rfl
    (show undefinedColumn sample.schema (readColumns .legacy) = none by decide) hmem
    (by decide) (by decide) a
  rwa [if_pos (by decide)] at hanswer

/-- Ann cannot tell whether the other guest is called Bo or Cy. -/
theorem ann_sees_own_data_only :
    (twoGuests "Cy".toList 9).MayRespond (fun _ => true) sample .legacy 1 (.reservation 1)
      (refuse 403 "Not your reservation") :=
  ((sees_own_data_only_iff (fun _ => true) sample .legacy (twoGuests_agree _ _ 1 9)
    (ann_customer _ 1)).mpr (.inr (.inr (by decide))) _ _).mp ((evening_refused _).mpr rfl)

/-- The other guest's reservation, at the beginning of the year 10000. -/
def farReservation : Reservation :=
  { evening 1 2 "Bo".toList with startsAt := 253402300800000000, endsAt := 253402308000000000 }

theorem farReservation_keys :
    ([farReservation, evening 2 1 annLee].map Reservation.id).Nodup := by decide

/-- The same, but the other guest has booked for a year that the driver cannot load. -/
def farOther : Database :=
  { twoGuests "Bo".toList 1 with
    reservations := [farReservation, evening 2 1 annLee]
    reservationKeys := farReservation_keys }

theorem farOther_agree : Agree 1 (twoGuests "Bo".toList 1) farOther where
  account := rfl
  restaurants _ := rfl
  reservations := ⟨by simp [Ownership.own, farOther, farReservation, twoGuests, evening, byUser],
    fun k u => by simp [farOther, farReservation, twoGuests, evening, byUser]⟩
  orders := ⟨.refl _, fun _ _ => Iff.rfl⟩
  items := .refl _

/-- If it is in the year 10000, the request fails. -/
theorem farReservation_failed (a : Response) :
    farOther.MayRespond (fun _ => true) sample .legacy 1 (.reservation 1) a ↔
      a = .answer (.failed (.database .dataError)) := by
  have huser : farOther.currentUser 1 = some ann := rfl
  have hmem : farReservation ∈ farOther.reservations := List.mem_cons_self ..
  have hanswer := mayRespond_foreign (fun _ => true) huser rfl
    (show undefinedColumn sample.schema (readColumns .legacy) = none by decide) hmem
    (by decide) (by decide) a
  rwa [if_neg (by decide)] at hanswer

/-- **A reservation of another user in the year 10000**: a GET is answered 500, where one of today is
    answered 403. -/
theorem far_reservation_shows :
    Agree 1 (twoGuests "Bo".toList 1) farOther ∧
    (∀ a, (twoGuests "Bo".toList 1).account 1 = some a → a.role = .customer) ∧
    (twoGuests "Bo".toList 1).MayRespond (fun _ => true) sample .legacy 1 (.reservation 1)
      (refuse 403 "Not your reservation") ∧
    farOther.MayRespond (fun _ => true) sample .legacy 1 (.reservation 1)
      (.answer (.failed (.database .dataError))) ∧
    ¬ farOther.MayRespond (fun _ => true) sample .legacy 1 (.reservation 1)
      (refuse 403 "Not your reservation") := by
  refine ⟨farOther_agree, ann_customer _ 1, (evening_refused _).mpr rfl,
    (farReservation_failed _).mpr rfl, fun h => ?_⟩
  exact absurd ((farReservation_failed _).mp h) (by simp [refuse])

/-- A customer is refused where staff get the row. -/
example :
    (getReservation sample .legacy (twoGuests [] 1).reservations ⟨1, .customer⟩ 1).status = 403 ∧
    (getReservation sample .legacy (twoGuests [] 1).reservations ⟨1, .staff⟩ 1).status = 200 := by
  decide

end TableFlow.Privacy
