/-
  The whole house: reservations, orders and the menu, with any number of requests at a time.

  1. **The machine** — the service of the reservations runs as it is; `create_order` goes from one
     external call to the next (`Stage`), any of which may fail, and its transaction places the
     order among those whose status the staff change; `create_product` adds to the menu.
  2. **What a step can do** (`Act`, `Step`) — only a commit of `create_order` stores an order.
  3. **Alone** — a call with nothing beside it is the function as a whole (`order_alone`).
  4. **One currency** — the order takes its currency from its first line.  Every line is in that
     currency exactly when no order is stored for products of several currencies
     (`one_currency_iff`).
  5. **References** — the reservation of an order is its user's, but nobody compares restaurants:
     the references agree exactly when no order is stored for a reservation made elsewhere
     (`references_agree_iff`).
-/
import TableFlow.Checkout
import TableFlow.Seating

namespace TableFlow.Ordering

open Lib Checkout
open Orders (Order OrderStatus Shop kitchen)

/-! ## The menu -/

/-- A validated product. -/
structure ProductCreate where
  restaurantId : Nat
  name : Text
  /-- In hundredths: at most two decimal places. -/
  price : Nat
  currency : Text
  isAvailable : Bool
  restaurantId_pos : 0 < restaurantId
  name_length : 2 ≤ name.length ∧ name.length ≤ 150
  /-- At most ten digits. -/
  price_digits : price < 10 ^ 10
  currency_length : currency.length = 3

/-- The document `create_product` inserts; ten digits survive the way through a float. -/
def ProductCreate.doc (body : ProductCreate) (id : ObjectId) : Product where
  id := id
  restaurantId := some body.restaurantId
  name := some body.name
  price := some ⟨body.price, -2⟩
  currency := some body.currency
  isAvailable := some body.isAvailable
  name_length := by
    intro n hn
    rw [← Option.some.inj hn]
    exact body.name_length.2

/-- The document is inserted under an id that no other has. -/
def insertOne (c : Catalogue) (p : Product) (h : p.id ∉ c.products.map Product.id) : Catalogue where
  products := c.products ++ [p]
  ids := by
    rw [List.map_append, List.nodup_append]
    refine ⟨c.ids, List.nodup_singleton _, ?_⟩
    intro a ha b hb hab
    rw [List.map_singleton, List.mem_singleton] at hb
    exact h (hb ▸ hab ▸ ha)

/-! ## Calls of `create_order` -/

/-- How far a call of `create_order` is; between two stages others run. -/
inductive Stage
  | arrived
  /-- The restaurant is read. -/
  | checked
  /-- The reservation is read, if there is one. -/
  | reserved
  /-- The products are read and the order is built. -/
  | built (d : Draft)
  /-- The transaction has committed. -/
  | saved (id : Nat)
  | refreshed (o : Order) (items : List OrderItem)
  | done (result : Except Raised (Order × List OrderItem))

/-- A call of `create_order` under way. -/
structure OrderCall where
  user : User
  payload : OrderCreate
  stage : Stage

/-- The reservations, the orders and the menu, with the calls of `create_order`. -/
structure House where
  world : World
  till : Till
  products : Catalogue
  calls : List OrderCall

/-- No reservations, no orders, an empty menu. -/
def start (phase : Phase) : House := ⟨.start phase [] 1 1, emptyTill, ⟨[], List.nodup_nil⟩, []⟩

/-- `session.refresh(order)`, which reads the items too. -/
def refresh (t : Till) (id : Nat) : Except Raised (Order × List OrderItem) :=
  match t.shop.find id with
  | none => .error .notRefreshed
  | some o => .ok (o, t.items.filter (·.orderId == id))

/-- The next stretch of a call of `create_order`, from one external call to the next; `fails` is the
    call that fails.  It returns the till, too. -/
def act (env : Env) (h : House) (fails : Option Call) (now : Int) (c : OrderCall) :
    Option (Till × Stage) :=
  match c.stage with
  | .arrived =>
    match call fails .restaurant (readRestaurant env c.payload) with
    | .error e => some (h.till, .done (.error e))
    | .ok _ => some (h.till, .checked)
  | .checked =>
    match c.payload.reservationId.elim (.ok ()) fun id =>
        call fails .reservation (readReservation h.world.store.rows c.user id) with
    | .error e => some (h.till, .done (.error e))
    | .ok _ => some (h.till, .reserved)
  | .reserved =>
    match c.payload.items.mapM (objectId ·.productId) with
    | none => some (h.till, .done (.error (.refused ⟨400, "Malformed product_id"⟩)))
    | some ids =>
      match call fails .products (.ok (h.products.find ids)) with
      | .error e => some (h.till, .done (.error e))
      | .ok found =>
        match checkProducts found c.payload with
        | .error e => some (h.till, .done (.error e))
        | .ok _ =>
          match buildOrder found c.user c.payload with
          | .error e => some (h.till, .done (.error e))
          | .ok d => some (h.till, .built d)
  | .built d =>
    match call fails .commit (.ok (saveError env d)) with
    | .error e => some (h.till, .done (.error e))
    | .ok (some e) => some (h.till, .done (.error (.save e)))
    | .ok none => some (h.till.saved d now, .saved h.till.shop.nextId)
  | .saved id =>
    match call fails .refresh (refresh h.till id) with
    | .error e => some (h.till, .done (.error e))
    | .ok (o, items) => some (h.till, .refreshed o items)
  | .refreshed o items => some (h.till.reported fails c.user o items now, .done (.ok (o, items)))
  | .done _ => none

/-- What happens next. -/
inductive Label
  /-- The service of the reservations. -/
  | service (l : TableFlow.Label)
  /-- A call of `advance_status` arrives. -/
  | status (orderId : Nat) (new : OrderStatus)
  /-- A stretch of a call of `advance_status`. -/
  | advance (i : Nat)
  /-- `create_product` -/
  | product (id : ObjectId) (body : ProductCreate)
  /-- A call of `create_order` arrives. -/
  | order (user : User) (payload : OrderCreate)
  /-- A stretch of a call of `create_order`. -/
  | step (i : Nat) (fails : Option Call) (now : Int)

/-- Everything that writes an order, a reservation or a product, in any order. -/
def house (env : Env) : Machine House Label where
  step h
    | .service l => ((service env).step h.world l).map fun w => { h with world := w }
    | .status orderId new =>
      (kitchen.step h.till.shop (.call orderId new)).map fun s =>
        { h with till := { h.till with shop := s } }
    | .advance i =>
      (kitchen.step h.till.shop (.step i)).map fun s => { h with till := { h.till with shop := s } }
    | .product id body =>
      if hid : id ∉ h.products.products.map Product.id then
        some { h with products := insertOne h.products (body.doc id) hid }
      else none
    | .order user payload => some { h with calls := h.calls ++ [⟨user, payload, .arrived⟩] }
    | .step i fails now =>
      h.calls[i]?.bind fun c => (act env h fails now c).map fun x =>
        { h with till := x.1, calls := h.calls.set i { c with stage := x.2 } }

/-! ## What one step can do -/

/-- Every stretch of a call of `create_order`. -/
inductive Act (env : Env) (h : House) (fails : Option Call) (now : Int) (user : User)
    (payload : OrderCreate) : Stage → Till → Stage → Prop
  | fail {st : Stage} {e : Raised} : Act env h fails now user payload st h.till (.done (.error e))
  | restaurant : readRestaurant env payload = .ok () →
      Act env h fails now user payload .arrived h.till .checked
  | reservation : (∀ id, payload.reservationId = some id →
        readReservation h.world.store.rows user id = .ok ()) →
      Act env h fails now user payload .checked h.till .reserved
  | build {d : Draft} : checkProducts (h.products.foundFor payload) payload = .ok () →
      buildOrder (h.products.foundFor payload) user payload = .ok d →
      Act env h fails now user payload .reserved h.till (.built d)
  | save {d : Draft} : fails ≠ some .commit → saveError env d = none →
      Act env h fails now user payload (.built d) (h.till.saved d now)
        (.saved h.till.shop.nextId)
  | refresh {id : Nat} {o : Order} {items : List OrderItem} :
      refresh h.till id = .ok (o, items) →
      Act env h fails now user payload (.saved id) h.till (.refreshed o items)
  | report {o : Order} {items : List OrderItem} :
      Act env h fails now user payload (.refreshed o items) (h.till.reported fails user o items now)
        (.done (.ok (o, items)))

section Cases

variable {env : Env} {h : House} {fails : Option Call} {now : Int}

theorem act_cases {c : OrderCall} {t : Till} {st : Stage}
    (ha : act env h fails now c = some (t, st)) :
    Act env h fails now c.user c.payload c.stage t st := by
  have inj : ∀ {t₀ : Till} {st₀ : Stage}, some (t₀, st₀) = some (t, st) → t₀ = t ∧ st₀ = st :=
    fun h => Prod.mk.inj (Option.some.inj h)
  obtain ⟨user, payload, stage⟩ := c
  unfold act at ha
  cases stage with
  | arrived =>
    dsimp only at ha ⊢
    split at ha
    · obtain ⟨rfl, rfl⟩ := inj ha
      exact .fail
    · next hr =>
      obtain ⟨rfl, rfl⟩ := inj ha
      exact .restaurant (call_eq_ok.mp hr).2
  | checked =>
    dsimp only at ha ⊢
    split at ha
    · obtain ⟨rfl, rfl⟩ := inj ha
      exact .fail
    · next hr =>
      obtain ⟨rfl, rfl⟩ := inj ha
      refine .reservation fun id hid => ?_
      rw [hid] at hr
      exact (call_eq_ok.mp hr).2
  | reserved =>
    dsimp only at ha ⊢
    rw [mapM_objectId] at ha
    dsimp only at ha
    split at ha
    · obtain ⟨rfl, rfl⟩ := inj ha
      exact .fail
    · next found hf =>
      obtain rfl := Except.ok.inj (call_eq_ok.mp hf).2
      split at ha
      · obtain ⟨rfl, rfl⟩ := inj ha
        exact .fail
      · next hc =>
        split at ha
        · obtain ⟨rfl, rfl⟩ := inj ha
          exact .fail
        · next d hd =>
          obtain ⟨rfl, rfl⟩ := inj ha
          exact .build hc hd
  | built d =>
    dsimp only at ha ⊢
    split at ha
    · obtain ⟨rfl, rfl⟩ := inj ha
      exact .fail
    · obtain ⟨rfl, rfl⟩ := inj ha
      exact .fail
    · next hs =>
      obtain ⟨rfl, rfl⟩ := inj ha
      obtain ⟨hf, hs⟩ := call_eq_ok.mp hs
      exact .save hf (Except.ok.inj hs)
  | saved id =>
    dsimp only at ha ⊢
    split at ha
    · obtain ⟨rfl, rfl⟩ := inj ha
      exact .fail
    · next hr =>
      obtain ⟨rfl, rfl⟩ := inj ha
      exact .refresh (call_eq_ok.mp hr).2
  | refreshed o items =>
    obtain ⟨rfl, rfl⟩ := inj ha
    exact .report
  | done r => exact absurd ha (by simp)

/-- What a label does. -/
inductive Step (env : Env) (h : House) : Label → House → Prop
  | service {l : TableFlow.Label} {w : World} : (service env).step h.world l = some w →
      Step env h (.service l) { h with world := w }
  /-- A step of the staff. -/
  | kitchen {l : Label} {l' : Orders.Label} {s : Shop} : kitchen.step h.till.shop l' = some s →
      (∀ o, l' ≠ .place o) → Step env h l { h with till := { h.till with shop := s } }
  | product {id : ObjectId} {body : ProductCreate}
      (hid : id ∉ h.products.products.map Product.id) :
      Step env h (.product id body) { h with products := insertOne h.products (body.doc id) hid }
  | order (user : User) (payload : OrderCreate) :
      Step env h (.order user payload) { h with calls := h.calls ++ [⟨user, payload, .arrived⟩] }
  | act {i : Nat} {fails : Option Call} {now : Int} {c : OrderCall} {t : Till} {st : Stage} :
      h.calls[i]? = some c → Act env h fails now c.user c.payload c.stage t st →
      Step env h (.step i fails now)
        { h with till := t, calls := h.calls.set i { c with stage := st } }

theorem step_cases {h' : House} {l : Label} (hst : (house env).step h l = some h') :
    Step env h l h' := by
  unfold house at hst
  cases l with
  | service l =>
    obtain ⟨w, hw, rfl⟩ := Option.map_eq_some_iff.mp hst
    exact .service hw
  | status orderId new =>
    dsimp only at hst
    obtain ⟨s, hs, rfl⟩ := Option.map_eq_some_iff.mp hst
    exact .kitchen hs (by simp)
  | advance i =>
    obtain ⟨s, hs, rfl⟩ := Option.map_eq_some_iff.mp hst
    exact .kitchen hs (by simp)
  | product id body =>
    dsimp only at hst
    split at hst
    · next hid =>
      obtain rfl := Option.some.inj hst
      exact .product hid
    · exact absurd hst (by simp)
  | order user payload =>
    obtain rfl := Option.some.inj hst
    exact .order user payload
  | step i fails now =>
    obtain ⟨c, hc, hst⟩ := Option.bind_eq_some_iff.mp hst
    obtain ⟨⟨t, st⟩, ha, rfl⟩ := Option.map_eq_some_iff.mp hst
    exact .act hc (act_cases ha)

end Cases

/-! ## The invariant -/

/-- The reservation asked for is there, and is the user's. -/
def Reserved (rows : List Reservation) (user : User) (payload : OrderCreate) : Prop :=
  ∀ id, payload.reservationId = some id → ∃ r ∈ rows, r.id = id ∧ r.userId = user.id

/-- The draft is made for the payload, from products of the menu. -/
structure Drafted (products : Catalogue) (user : User) (payload : OrderCreate) (d : Draft) :
    Prop where
  userId : d.userId = user.id
  restaurantId : d.restaurantId = payload.restaurantId
  reservationId : d.reservationId = payload.reservationId
  items : ∀ x ∈ d.items, ∃ line ∈ payload.items, x.productId = line.productId
  lines : ∀ line ∈ payload.items, (∃ x ∈ d.items, x.productId = line.productId) ∧
    ∃ p ∈ products.products, p.id.hex = line.productId
  currency : ∃ p ∈ products.products, p.id.hex = payload.first.productId ∧
    d.currency = p.currency.getD "THB".toList

/-- The data of a stage. -/
def StageOk (h : House) (user : User) (payload : OrderCreate) : Stage → Prop
  | .reserved => Reserved h.world.store.rows user payload
  | .built d => Reserved h.world.store.rows user payload ∧ Drafted h.products user payload d
  | _ => True

/-- What holds of the house in every state. -/
structure Inv (env : Env) (h : House) : Prop where
  world : TableFlow.Inv env [] h.world
  seating : Seating env h.world
  shop : Orders.Inv h.till.shop
  itemOrders : ∀ x ∈ h.till.items, x.orderId < h.till.shop.nextId
  menu : ∀ p ∈ h.products.products, ∃ c, p.currency = some c ∧ c.length = 3
  calls : ∀ (i : Nat) (c : OrderCall), h.calls[i]? = some c → StageOk h c.user c.payload c.stage

/-- **What a built draft is.** -/
theorem drafted {products : Catalogue} {user : User} {payload : OrderCreate} {d : Draft}
    (h : buildOrder (products.foundFor payload) user payload = .ok d) :
    Drafted products user payload d := by
  obtain ⟨doc, items, hdoc, hlines, rfl⟩ := buildOrder_ok.mp h
  obtain ⟨hfound, hid⟩ := lookup_some hdoc
  refine ⟨rfl, rfl, rfl, ?_, ?_, doc, (mem_found.mp hfound).1, hid, rfl⟩
  · intro x hx
    obtain ⟨line, hline, hx⟩ := exists_line hlines hx
    obtain ⟨_, _, _, -, -, -, -, rfl⟩ := itemOf_ok.mp hx
    exact ⟨line, hline, rfl⟩
  · intro line hline
    obtain ⟨x, hmem, hx⟩ := exists_item hlines hline
    obtain ⟨p, _, _, hp, -, -, -, rfl⟩ := itemOf_ok.mp hx
    obtain ⟨hfound, hid⟩ := lookup_some hp
    exact ⟨⟨_, hmem, rfl⟩, p, (mem_found.mp hfound).1, hid⟩

/-- Reservations stay with their references, and products stay on the menu. -/
structure Grown (h h' : House) : Prop where
  rows : ∀ r ∈ h.world.store.rows, ∃ r' ∈ h'.world.store.rows, SameReference r r'
  products : ∀ p ∈ h.products.products, p ∈ h'.products.products

theorem StageOk.grown {h h' : House} (hg : Grown h h') {user : User} {payload : OrderCreate}
    {st : Stage} (hs : StageOk h user payload st) : StageOk h' user payload st := by
  have hres : Reserved h.world.store.rows user payload →
      Reserved h'.world.store.rows user payload := by
    intro hr id hid
    obtain ⟨r, hmem, hrid, huser⟩ := hr id hid
    obtain ⟨r', hmem', href⟩ := hg.rows r hmem
    exact ⟨r', hmem', href.id.trans hrid, href.userId.trans huser⟩
  cases st with
  | reserved => exact hres hs
  | built d =>
    obtain ⟨hr, hd⟩ := hs
    obtain ⟨p, hp, hid, hcur⟩ := hd.currency
    refine ⟨hres hr, hd.userId, hd.restaurantId, hd.reservationId, hd.items, ?_, p,
      hg.products p hp, hid, hcur⟩
    intro line hline
    obtain ⟨hx, p, hp, hid⟩ := hd.lines line hline
    exact ⟨hx, p, hg.products p hp, hid⟩
  | _ => trivial

section Steps

variable {env : Env} {h h' : House} {l : Label}

/-- **A step of the staff** changes the status of orders, and nothing else of them. -/
theorem kitchen_orders {s s' : Shop} {l : Orders.Label} (hst : kitchen.step s l = some s')
    (hl : ∀ o, l ≠ .place o) : s'.nextId = s.nextId ∧
      ∀ o' ∈ s'.orders, ∃ o ∈ s.orders, ∃ st, o' = { o with status := st } := by
  have hsame : ∀ o' ∈ s.orders, ∃ o ∈ s.orders, ∃ st, o' = { o with status := st } :=
    fun o ho => ⟨o, ho, o.status, rfl⟩
  cases Orders.step_cases hst with
  | place o => exact absurd rfl (hl o)
  | call orderId new => exact ⟨rfl, hsame⟩
  | @act i c e st hc ha =>
    cases e with
    | commit =>
      refine ⟨rfl, fun o' ho' => ?_⟩
      obtain ⟨o, ho, -, ⟨-, rfl⟩ | ⟨-, rfl⟩⟩ := Orders.mem_updateStatus ho'
      · exact ⟨o, ho, _, rfl⟩
      · exact hsame o' ho
    | _ => exact ⟨rfl, hsame⟩

theorem grown_step (hinv : Inv env h) (hst : (house env).step h l = some h') : Grown h h' := by
  have hrows : ∀ r ∈ h.world.store.rows, ∃ r' ∈ h.world.store.rows, SameReference r r' :=
    fun r hr => ⟨r, hr, .refl r⟩
  cases step_cases hst with
  | service hw => exact ⟨fun r hr => keeps_reference hinv.world hw hr, fun p hp => hp⟩
  | product hid => exact ⟨hrows, fun p hp => List.mem_append_left _ hp⟩
  | _ => exact ⟨hrows, fun p hp => hp⟩

/-- **A stretch of `create_order`** leads to a stage that is fine. -/
theorem Act.stageOk {fails : Option Call} {now : Int} {user : User} {payload : OrderCreate}
    {st st' : Stage} {t : Till} (ha : Act env h fails now user payload st t st')
    (hs : StageOk h user payload st) : StageOk h user payload st' := by
  cases ha with
  | reservation hr =>
    intro id hid
    obtain ⟨-, r, hlookup, -, huser⟩ := readReservation_ok.mp (hr id hid)
    obtain ⟨hmem, hrid⟩ := Store.lookup_some hlookup
    exact ⟨r, hmem, hrid, huser⟩
  | build _ hd => exact ⟨hs, drafted hd⟩
  | _ => trivial

/-- The items of a saved order are its own. -/
theorem mem_itemRows {orderId : Nat} {items : List ItemDraft} {x : OrderItem} : ∀ {id : Nat},
    x ∈ itemRows orderId id items → x.orderId = orderId ∧ ∃ y ∈ items, x.productId = y.productId := by
  induction items with
  | nil => exact fun h => absurd h List.not_mem_nil
  | cons y ys ih =>
    intro id h
    rcases List.mem_cons.mp h with rfl | h
    · exact ⟨rfl, y, List.mem_cons_self .., rfl⟩
    · obtain ⟨ho, z, hz, hx⟩ := ih h
      exact ⟨ho, z, List.mem_cons_of_mem _ hz, hx⟩

theorem exists_itemRow {orderId : Nat} {items : List ItemDraft} {y : ItemDraft} (hy : y ∈ items) :
    ∀ id, ∃ x ∈ itemRows orderId id items, x.orderId = orderId ∧ x.productId = y.productId := by
  induction items with
  | nil => exact absurd hy List.not_mem_nil
  | cons z zs ih =>
    intro id
    rcases List.mem_cons.mp hy with rfl | hy
    · exact ⟨_, List.mem_cons_self .., rfl, rfl⟩
    · obtain ⟨x, hx, ho, hid⟩ := ih hy (id + 1)
      exact ⟨x, List.mem_cons_of_mem _ hx, ho, hid⟩

/-- Saving an order is placing it. -/
theorem saved_shop (t : Till) (d : Draft) (now : Int) :
    kitchen.step t.shop (.place (t.orderOf d now)) = some (t.saved d now).shop := rfl

theorem mem_saved (t : Till) (d : Draft) (now : Int) :
    t.orderOf d now ∈ (t.saved d now).shop.orders :=
  List.mem_append_right _ (List.mem_singleton.mpr rfl)

/-- A stretch of `create_order` keeps the orders and their items in order. -/
theorem Act.till {fails : Option Call} {now : Int} {user : User} {payload : OrderCreate}
    {st st' : Stage} {t : Till} (ha : Act env h fails now user payload st t st')
    (hinv : Inv env h) :
    Orders.Inv t.shop ∧ ∀ x ∈ t.items, x.orderId < t.shop.nextId := by
  cases ha with
  | @save d _ _ =>
    refine ⟨hinv.shop.step (saved_shop h.till d now), fun x hx => ?_⟩
    rcases List.mem_append.mp hx with hx | hx
    · exact Nat.lt_succ_of_lt (hinv.itemOrders x hx)
    · rw [(mem_itemRows hx).1]
      exact Nat.lt_succ_self _
  | report =>
    rw [reported_shop, reported_items]
    exact ⟨hinv.shop, hinv.itemOrders⟩
  | _ => exact ⟨hinv.shop, hinv.itemOrders⟩

/-- **Every step keeps the invariant.** -/
theorem Inv.step (hinv : Inv env h) (hst : (house env).step h l = some h') : Inv env h' := by
  have hg := grown_step hinv hst
  have hcalls : ∀ (i : Nat) (c : OrderCall), h.calls[i]? = some c →
      StageOk h' c.user c.payload c.stage := fun i c hc => (hinv.calls i c hc).grown hg
  cases step_cases hst with
  | service hw =>
    exact ⟨hinv.world.step hw, hinv.seating.step hw, hinv.shop, hinv.itemOrders, hinv.menu, hcalls⟩
  | kitchen hs hl =>
    obtain ⟨hnext, -⟩ := kitchen_orders hs hl
    refine ⟨hinv.world, hinv.seating, hinv.shop.step hs, ?_, hinv.menu, hcalls⟩
    intro x hx
    rw [hnext]
    exact hinv.itemOrders x hx
  | @product id body hid =>
    refine ⟨hinv.world, hinv.seating, hinv.shop, hinv.itemOrders, ?_, hcalls⟩
    intro p hp
    rcases List.mem_append.mp hp with hp | hp
    · exact hinv.menu p hp
    · rw [List.mem_singleton.mp hp]
      exact ⟨body.currency, rfl, body.currency_length⟩
  | order user payload =>
    refine ⟨hinv.world, hinv.seating, hinv.shop, hinv.itemOrders, hinv.menu, ?_⟩
    intro i c hc
    rcases slot_of_concat hc with hc | ⟨-, rfl⟩
    · exact hcalls i c hc
    · trivial
  | @act i fails now c t st hc ha =>
    have hstage := ha.stageOk (hinv.calls i c hc)
    obtain ⟨hshop, hitems⟩ := ha.till hinv
    refine ⟨hinv.world, hinv.seating, hshop, hitems, hinv.menu, fun j c' hc' => ?_⟩
    rcases slot_of_set hc' with ⟨-, rfl⟩ | ⟨-, hc'⟩
    · exact hstage.grown hg
    · exact hcalls j c' hc'

theorem inv_start {phase : Phase} (hready : Ready env phase [] 1 1) : Inv env (start phase) where
  world := hready.inv
  seating := seating_start phase 1 1
  shop := Orders.inv_start
  itemOrders := fun _ hx => absurd hx List.not_mem_nil
  menu := fun _ hp => absurd hp List.not_mem_nil
  calls := fun _ _ hc => absurd hc (by simp [start])

end Steps

/-! ## A call with nothing beside it -/

/-- Stretches of one call and nothing else. -/
inductive Solo (env : Env) (h : House) (fails : Option Call) (now : Int) (user : User)
    (payload : OrderCreate) : Till → Stage → Till → Stage → Prop
  | refl {t : Till} {st : Stage} : Solo env h fails now user payload t st t st
  | step {t t₁ t' : Till} {st st₁ st' : Stage} :
      act env { h with till := t } fails now ⟨user, payload, st⟩ = some (t₁, st₁) →
      Solo env h fails now user payload t₁ st₁ t' st' →
      Solo env h fails now user payload t st t' st'

section Solo

variable {env : Env} {h : House} {fails : Option Call} {now : Int} {user : User}
  {payload : OrderCreate} {t t' : Till} {st st' : Stage}

theorem Solo.one (ha : act env { h with till := t } fails now ⟨user, payload, st⟩ = some (t', st')) :
    Solo env h fails now user payload t st t' st' := .step ha .refl

theorem Solo.trans {t₁ : Till} {st₁ : Stage} (hs : Solo env h fails now user payload t st t₁ st₁)
    (hs' : Solo env h fails now user payload t₁ st₁ t' st') :
    Solo env h fails now user payload t st t' st' := by
  induction hs with
  | refl => exact hs'
  | step ha _ ih => exact .step ha (ih hs')

/-- **Stretches of the last call are a run of the house.** -/
theorem Solo.run (cs : List OrderCall)
    (hs : Solo env h fails now user payload t st t' st') :
    ∃ n, (house env).run { h with till := t, calls := cs ++ [⟨user, payload, st⟩] }
        (List.replicate n (.step cs.length fails now))
      = some { h with till := t', calls := cs ++ [⟨user, payload, st'⟩] } := by
  induction hs with
  | refl => exact ⟨0, rfl⟩
  | @step t t₁ t' st st₁ st' ha _ ih =>
    obtain ⟨n, hn⟩ := ih
    have hlast : (cs ++ [(⟨user, payload, st⟩ : OrderCall)])[cs.length]?
        = some ⟨user, payload, st⟩ := List.getElem?_concat_length
    -- a stretch does not look at the calls
    have hact : act env { h with till := t, calls := cs ++ [⟨user, payload, st⟩] } fails now
        ⟨user, payload, st⟩ = some (t₁, st₁) := ha
    have hstep : (house env).step { h with till := t, calls := cs ++ [⟨user, payload, st⟩] }
        (.step cs.length fails now)
          = some { h with till := t₁, calls := cs ++ [⟨user, payload, st₁⟩] } := by
      show ((cs ++ [(⟨user, payload, st⟩ : OrderCall)])[cs.length]?).bind _ = _
      rw [hlast, Option.bind_some, hact, Option.map_some]
      simp
    refine ⟨n + 1, ?_⟩
    rw [List.replicate_succ, (house env).run_cons hstep]
    exact hn

/-- Where the reads and the checks lead. -/
def prepared (r : Except Raised Draft) : Stage :=
  match r with
  | .error e => .done (.error e)
  | .ok d => .built d

theorem prepare_alone : Solo env h fails now user payload t .arrived t
    (prepared (prepare env h.world.store.rows h.products user payload fails)) := by
  unfold prepare
  split
  · next e hr => exact .one (by simp only [act, hr, prepared])
  · next hr =>
    have hchecked : act env { h with till := t } fails now ⟨user, payload, .arrived⟩
        = some (t, .checked) := by simp only [act, hr]
    refine .step hchecked ?_
    split
    · next e hv => exact .one (by simp only [act, hv, prepared])
    · next hv =>
      have hreserved : act env { h with till := t } fails now ⟨user, payload, .checked⟩
          = some (t, .reserved) := by simp only [act, hv]
      refine .step hreserved ?_
      split
      · next hids => exact .one (by simp only [act, hids, prepared])
      · next ids hids =>
        split
        · next e hf => exact .one (by simp only [act, hids, hf, prepared])
        · next found hf =>
          split
          · next e hc => exact .one (by simp only [act, hids, hf, hc, prepared])
          · next hc =>
            cases hb : buildOrder found user payload with
            | error e => exact .one (by simp only [act, hids, hf, hc, hb, prepared])
            | ok d => exact .one (by simp only [act, hids, hf, hc, hb, prepared])

/-- The order is read again as it was saved. -/
theorem refresh_saved (hinv : Inv env h) (d : Draft) (now : Int) :
    refresh (h.till.saved d now) h.till.shop.nextId
      = .ok (h.till.orderOf d now, h.till.itemsOf d) := by
  have hold : h.till.shop.orders.find? (·.id == h.till.shop.nextId) = none := by
    refine List.find?_eq_none.mpr fun o ho hid => ?_
    have hlt := hinv.shop.ids o ho
    have heq : o.id = h.till.shop.nextId := eq_of_beq hid
    omega
  have hfind : (h.till.saved d now).shop.find h.till.shop.nextId = some (h.till.orderOf d now) := by
    show (h.till.shop.orders ++ [h.till.orderOf d now]).find? _ = _
    rw [List.find?_append, hold, Option.none_or]
    exact List.find?_cons_of_pos (by simp [Till.orderOf, Draft.order])
  have hitems : (h.till.items ++ h.till.itemsOf d).filter (·.orderId == h.till.shop.nextId)
      = h.till.itemsOf d := by
    rw [List.filter_append, List.filter_eq_nil_iff.mpr, List.nil_append, List.filter_eq_self]
    · intro x hx
      rw [(mem_itemRows hx).1]
      exact beq_self_eq_true _
    · intro x hx hid
      have hlt := hinv.itemOrders x hx
      have heq : x.orderId = h.till.shop.nextId := eq_of_beq hid
      omega
  unfold refresh
  rw [hfind]
  exact congrArg (fun items => Except.ok (h.till.orderOf d now, items)) hitems

/-- The transaction, the refresh and the telemetry. -/
theorem save_alone (hinv : Inv env h) {d : Draft}
    (hp : prepare env h.world.store.rows h.products user payload fails = .ok d) :
    Solo env h fails now user payload h.till (.built d)
      (createOrder env h.world.store.rows h.products now h.till user payload fails).state
      (.done (createOrder env h.world.store.rows h.products now h.till user payload
        fails).result) := by
  unfold createOrder
  rw [hp]
  dsimp only
  cases hc : call fails .commit (.ok (saveError env d)) with
  | error e => exact .one (by simp only [act, hc])
  | ok r =>
    cases r with
    | some e => exact .one (by simp only [act, hc])
    | none =>
      have hsaved : act env h fails now ⟨user, payload, .built d⟩
          = some (h.till.saved d now, .saved h.till.shop.nextId) := by simp only [act, hc]
      refine .step hsaved ?_
      have hread := refresh_saved hinv d now
      cases hr : call fails .refresh (.ok (h.till.orderOf d now, h.till.itemsOf d)) with
      | error e => exact .one (by simp only [act, hread, hr])
      | ok x =>
        have hrefreshed : act env { h with till := h.till.saved d now } fails now
            ⟨user, payload, .saved h.till.shop.nextId⟩
              = some (h.till.saved d now, .refreshed x.1 x.2) := by
          simp only [act, hread, hr]
        exact .step hrefreshed (.one rfl)

/-- **A call of `create_order` with nothing beside it** is the function as a whole: it ends with the
    same result and leaves the same till. -/
theorem order_alone (hinv : Inv env h) : ∃ n, (house env).run h
    (.order user payload :: List.replicate n (.step h.calls.length fails now))
      = some { h with
        till := (createOrder env h.world.store.rows h.products now h.till user payload fails).state
        calls := h.calls ++ [⟨user, payload, .done (createOrder env h.world.store.rows h.products
          now h.till user payload fails).result⟩] } := by
  have hsolo : Solo env h fails now user payload h.till .arrived
      (createOrder env h.world.store.rows h.products now h.till user payload fails).state
      (.done (createOrder env h.world.store.rows h.products now h.till user payload
        fails).result) := by
    have hprepare : Solo env h fails now user payload h.till .arrived h.till _ := prepare_alone
    cases hp : prepare env h.world.store.rows h.products user payload fails with
    | error e =>
      rw [hp] at hprepare
      unfold createOrder
      rw [hp]
      exact hprepare
    | ok d =>
      rw [hp] at hprepare
      exact hprepare.trans (save_alone hinv hp)
  obtain ⟨n, hn⟩ := hsolo.run h.calls
  refine ⟨n, ?_⟩
  have harrive : (house env).step h (.order user payload)
      = some { h with calls := h.calls ++ [⟨user, payload, .arrived⟩] } := rfl
  rw [(house env).run_cons harrive]
  exact hn

end Solo

/-! ## Storing an order -/

/-- The label is the commit of `c`'s draft, which the database takes. -/
def Saves (env : Env) (h : House) (l : Label) (c : OrderCall) (d : Draft) : Prop :=
  ∃ i fails now, l = .step i fails now ∧ h.calls[i]? = some c ∧ c.stage = .built d ∧
    fails ≠ some .commit ∧ saveError env d = none

section Saving

variable {env : Env} {h h' : House} {l : Label} {c : OrderCall} {d : Draft}

/-- What is stored was made for the payload. -/
theorem Saves.ok (hs : Saves env h l c d) (hinv : Inv env h) :
    Reserved h.world.store.rows c.user c.payload ∧ Drafted h.products c.user c.payload d := by
  obtain ⟨i, -, -, -, hc, hstage, -, -⟩ := hs
  have hok := hinv.calls i c hc
  rw [hstage] at hok
  exact hok

/-- **A commit** stores the draft. -/
theorem Saves.step (hs : Saves env h l c d) (hst : (house env).step h l = some h') :
    h'.world = h.world ∧ h'.products = h.products ∧ ∃ now, h'.till = h.till.saved d now := by
  obtain ⟨i, fails, now, rfl, hc, hstage, hf, hsave⟩ := hs
  have hcall : call fails .commit (.ok (saveError env d)) = .ok none :=
    call_eq_ok.mpr ⟨hf, congrArg Except.ok hsave⟩
  have ha : act env h fails now c = some (h.till.saved d now, .saved h.till.shop.nextId) := by
    unfold act
    simp only [hstage, hcall]
  unfold house at hst
  dsimp only at hst
  rw [hc, Option.bind_some, ha] at hst
  obtain rfl := Option.some.inj hst
  exact ⟨rfl, rfl, now, rfl⟩

/-- **Any other step** stores no order. -/
theorem order_cases (hst : (house env).step h l = some h') :
    (∃ c d, Saves env h l c d) ∨ h'.till.items = h.till.items ∧
      ∀ o' ∈ h'.till.shop.orders, ∃ o ∈ h.till.shop.orders, ∃ st, o' = { o with status := st } := by
  have hsame : ∀ o' ∈ h.till.shop.orders, ∃ o ∈ h.till.shop.orders, ∃ st,
      o' = { o with status := st } := fun o ho => ⟨o, ho, o.status, rfl⟩
  cases step_cases hst with
  | kitchen hs hl => exact Or.inr ⟨rfl, (kitchen_orders hs hl).2⟩
  | @act i fails now c t st hc ha =>
    generalize hstage : c.stage = stage at ha
    cases ha with
    | save hf hsave => exact Or.inl ⟨c, _, i, fails, now, rfl, hc, hstage, hf, hsave⟩
    | report =>
      dsimp only
      rw [reported_shop, reported_items]
      exact Or.inr ⟨rfl, hsame⟩
    | _ => exact Or.inr ⟨rfl, hsame⟩
  | _ => exact Or.inr ⟨rfl, hsame⟩

end Saving

/-! ## One currency -/

/-- Every item of an order is a product in the order's currency. -/
def OneCurrency (h : House) : Prop :=
  ∀ o ∈ h.till.shop.orders, ∀ x ∈ h.till.items, x.orderId = o.id →
    ∃ p ∈ h.products.products, p.id.hex = x.productId ∧ p.currency = some o.currency

instance (h : House) : Decidable (OneCurrency h) :=
  inferInstanceAs (Decidable (∀ o ∈ h.till.shop.orders, ∀ x ∈ h.till.items, x.orderId = o.id →
    ∃ p ∈ h.products.products, p.id.hex = x.productId ∧ p.currency = some o.currency))

/-- The product is ordered. -/
def Asks (payload : OrderCreate) (p : Product) : Prop :=
  ∃ line ∈ payload.items, p.id.hex = line.productId

/-- **The condition**: the products of an order that is stored have one currency. -/
def SameCurrency (env : Env) (h : House) (l : Label) : Prop :=
  ∀ c d, Saves env h l c d → ∀ p ∈ h.products.products, ∀ p' ∈ h.products.products,
    Asks c.payload p → Asks c.payload p' → p.currency = p'.currency

section Currency

variable {env : Env} {h h' : House} {l : Label}

/-- The order takes the currency of its first product. -/
theorem Drafted.order_currency {d : Draft} {user : User} {payload : OrderCreate} (hinv : Inv env h)
    (hd : Drafted h.products user payload d) (now : Int) :
    ∃ p ∈ h.products.products, Asks payload p ∧
      p.currency = some (h.till.orderOf d now).currency := by
  obtain ⟨p, hp, hid, hcur⟩ := hd.currency
  obtain ⟨c, hc, hlen⟩ := hinv.menu p hp
  refine ⟨p, hp, ⟨payload.first, payload.first_mem, hid⟩, ?_⟩
  have hcurrency : (h.till.orderOf d now).currency = c := by
    show (varchar 3 d.currency).getD [] = c
    rw [hcur, hc, Option.getD_some, varchar_of_le hlen.le, Option.getD_some]
  rw [hc, hcurrency]

theorem OneCurrency.step (h1 : OneCurrency h) (hinv : Inv env h) (hC : SameCurrency env h l)
    (hst : (house env).step h l = some h') : OneCurrency h' := by
  have hg := grown_step hinv hst
  intro o' ho' x hx hxo
  rcases order_cases hst with ⟨c, d, hs⟩ | ⟨hitems, horders⟩
  · obtain ⟨-, -, now, htill⟩ := hs.step hst
    obtain ⟨-, hd⟩ := hs.ok hinv
    rw [htill] at ho' hx
    rcases List.mem_append.mp ho' with ho | ho <;> rcases List.mem_append.mp hx with hx | hx
    · obtain ⟨p, hp, hid, hcur⟩ := h1 o' ho x hx hxo
      exact ⟨p, hg.products p hp, hid, hcur⟩
    · -- an item of the new order is of no old one
      rw [(mem_itemRows hx).1] at hxo
      exact absurd (hinv.shop.ids o' ho) (by omega)
    · rw [List.mem_singleton.mp ho] at hxo
      have hlt := hinv.itemOrders x hx
      exact absurd hxo (Nat.ne_of_lt hlt)
    · obtain rfl := List.mem_singleton.mp ho
      obtain ⟨-, y, hy, hxy⟩ := mem_itemRows hx
      obtain ⟨line, hline, hyl⟩ := hd.items y hy
      obtain ⟨-, p, hp, hid⟩ := hd.lines line hline
      obtain ⟨p₀, hp₀, hasks, hcur⟩ := hd.order_currency hinv now
      refine ⟨p, hg.products p hp, hid.trans (hyl.symm.trans hxy.symm), ?_⟩
      rw [hC c d hs p hp p₀ hp₀ ⟨line, hline, hid⟩ hasks, hcur]
  · obtain ⟨o, ho, st, rfl⟩ := horders o' ho'
    rw [hitems] at hx
    obtain ⟨p, hp, hid, hcur⟩ := h1 o ho x hx hxo
    exact ⟨p, hg.products p hp, hid, hcur⟩

theorem not_oneCurrency_step (hinv : Inv env h) (hC : ¬ SameCurrency env h l)
    (hst : (house env).step h l = some h') : ¬ OneCurrency h' := by
  intro h1
  refine hC fun c d hs p hp p' hp' hasks hasks' => ?_
  obtain ⟨-, hproducts, now, htill⟩ := hs.step hst
  obtain ⟨-, hd⟩ := hs.ok hinv
  have hnew : h.till.orderOf d now ∈ h'.till.shop.orders := by
    rw [htill]
    exact mem_saved _ _ _
  have hcurrency : ∀ q ∈ h.products.products, Asks c.payload q →
      q.currency = some (h.till.orderOf d now).currency := by
    rintro q hq ⟨line, hline, hid⟩
    obtain ⟨⟨y, hy, hyl⟩, -⟩ := hd.lines line hline
    obtain ⟨x, hx, hxo, hxy⟩ := exists_itemRow hy h.till.nextItem
    have hmem : x ∈ h'.till.items := by
      rw [htill]
      exact List.mem_append_right _ hx
    obtain ⟨q', hq', hid', hcur⟩ := h1 _ hnew x hmem hxo
    rw [hproducts] at hq'
    obtain rfl := List.inj_on_of_nodup_map h.products.ids hq hq'
      (ObjectId.eq_of_hex (hid.trans (hyl.symm.trans (hxy.symm.trans hid'.symm))))
    exact hcur
  rw [hcurrency p hp hasks, hcurrency p' hp' hasks']

end Currency

/-- **Along a run every order adds up money of its own currency exactly when no order is stored for
    products of several currencies.** -/
theorem one_currency_iff (env : Env) (phase : Phase) (hready : Ready env phase [] 1 1)
    (ls : List Label) :
    (house env).AllStates OneCurrency (start phase) ls ↔
      (house env).AllSteps (SameCurrency env) (start phase) ls := by
  refine Machine.allStates_iff_allSteps (A := fun _ => True) (J := Inv env) ?_ ?_ ls (start phase)
    (fun _ _ => trivial) (inv_start hready) fun o ho => absurd ho List.not_mem_nil
  · intro h l h' _ hinv h1 hC hst
    exact ⟨hinv.step hst, h1.step hinv hC hst⟩
  · intro h l h' _ hinv _ hC hst
    exact not_oneCurrency_step hinv hC hst

/-! ### Two menus -/

/-- A dish of the restaurant, for 180.00 of the currency. -/
def dish (restaurantId : Nat) (hr : 0 < restaurantId) (currency : Text)
    (hc : currency.length = 3) : ProductCreate :=
  ⟨restaurantId, "Green Curry".toList, 18000, currency, true, hr, by decide, by decide, hc⟩

/-- The two dishes of the restaurant in these currencies are put on the menu. -/
def twoDishes (restaurantId : Nat) (hr : 0 < restaurantId) (a b : Text) (ha : a.length = 3)
    (hb : b.length = 3) : List Label :=
  [.product curryId (dish restaurantId hr a ha), .product teaId (dish restaurantId hr b hb)]

/-- The labels of the first order, up to its commit. -/
def ordered (payload : OrderCreate) : List Label :=
  .order customer payload :: List.replicate 4 (.step 0 none 0)

/-- One dish in baht and one in dollars, in one order. -/
def mixedRun : List Label :=
  twoDishes 1 Nat.one_pos "THB".toList "USD".toList rfl rfl ++
    ordered (lunchOrder none no_reservation)

/-- Both dishes in baht. -/
def bahtRun : List Label :=
  twoDishes 1 Nat.one_pos "THB".toList "THB".toList rfl rfl ++
    ordered (lunchOrder none no_reservation)

/-- **Not every order adds up money of one currency**: the dollars are added to the baht. -/
theorem order_mixes_currencies : ¬ ∀ (env : Env) (phase : Phase), Ready env phase [] 1 1 →
    ∀ h, (house env).Reach (fun _ _ => True) (start phase) h → OneCurrency h := by
  intro hall
  obtain ⟨h, hrun⟩ : ∃ h, (house sample).run (start .legacy) mixedRun = some h :=
    Option.isSome_iff_exists.mp (by decide)
  have hone := hall sample .legacy (sample_ready _) h (Machine.Reach.of_run hrun)
  have hno : decide (OneCurrency h) = false :=
    (house sample).run_eval (fun h => decide (OneCurrency h)) hrun (by decide)
  exact of_decide_eq_false hno hone

/-- New products in the currency of the menu keep it. -/
theorem menu_currency_step {h h' : House} {l : Label} {c : Text}
    (hmenu : ∀ p ∈ h.products.products, p.currency = some c)
    (hl : ∀ id body, l = .product id body → body.currency = c)
    (hst : (house sample).step h l = some h') :
    ∀ p ∈ h'.products.products, p.currency = some c := by
  cases step_cases hst with
  | @product id body hid =>
    intro p hp
    rcases List.mem_append.mp hp with hp | hp
    · exact hmenu p hp
    · rw [List.mem_singleton.mp hp]
      exact congrArg some (hl id body rfl)
  | _ => exact hmenu

/-- **With a menu in baht the total is in baht.** -/
theorem bahtRun_one_currency : ∃ h, (house sample).run (start .legacy) bahtRun = some h ∧
    h.till.shop.orders.length = 1 ∧ OneCurrency h := by
  obtain ⟨h, hrun⟩ : ∃ h, (house sample).run (start .legacy) bahtRun = some h :=
    Option.isSome_iff_exists.mp (by decide)
  have hsteps : (house sample).AllSteps (SameCurrency sample) (start .legacy) bahtRun := by
    refine Machine.AllSteps.of_invariant
      (I := fun h => ∀ p ∈ h.products.products, p.currency = some "THB".toList)
      (A := fun l => ∀ id body, l = .product id body → body.currency = "THB".toList)
      ?_ (fun _ _ _ => menu_currency_step) ?_ _ fun p hp => absurd hp List.not_mem_nil
    · intro h l hmenu _ c d _ p hp p' hp' _ _
      rw [hmenu p hp, hmenu p' hp']
    · intro l hl id body hlbl
      subst hlbl
      simp only [bahtRun, twoDishes, ordered, List.cons_append, List.nil_append, List.mem_cons,
        List.mem_replicate, Label.product.injEq, reduceCtorEq, and_false, or_false] at hl
      rcases hl with ⟨-, rfl⟩ | ⟨-, rfl⟩ <;> rfl
  exact ⟨h, hrun, (house sample).run_eval (fun h => h.till.shop.orders.length) hrun (by decide),
    ((one_currency_iff sample .legacy (sample_ready _) bahtRun).mpr hsteps).last hrun⟩

/-! ## References -/

/-- **The references of orders and reservations agree.** -/
structure ReferencesAgree (env : Env) (h : House) : Prop where
  orders : ∀ o ∈ h.till.shop.orders, ∀ id, o.reservationId = some id →
    ∃ r ∈ h.world.store.rows, r.id = id ∧ r.userId = o.userId ∧ r.restaurantId = o.restaurantId
  reservations : ∀ r ∈ h.world.store.rows, Seated env r

/-- **The condition**: an order that is stored for a reservation is at the restaurant of the
    reservation. -/
def SameRestaurant (env : Env) (h : House) (l : Label) : Prop :=
  ∀ c d, Saves env h l c d → ∀ id, c.payload.reservationId = some id →
    ∀ r ∈ h.world.store.rows, r.id = id → r.restaurantId = c.payload.restaurantId

section References

variable {env : Env} {h h' : House} {l : Label}

theorem ReferencesAgree.step (ha : ReferencesAgree env h) (hinv : Inv env h)
    (hC : SameRestaurant env h l) (hst : (house env).step h l = some h') :
    ReferencesAgree env h' := by
  have hg := grown_step hinv hst
  have hold : ∀ o ∈ h.till.shop.orders, ∀ id, o.reservationId = some id →
      ∃ r ∈ h'.world.store.rows, r.id = id ∧ r.userId = o.userId ∧
        r.restaurantId = o.restaurantId := by
    intro o ho id hid
    obtain ⟨r, hr, hrid, huser, hrest⟩ := ha.orders o ho id hid
    obtain ⟨r', hr', href⟩ := hg.rows r hr
    exact ⟨r', hr', href.id.trans hrid, href.userId.trans huser, href.restaurantId.trans hrest⟩
  refine ⟨fun o' ho' id hid => ?_, (hinv.step hst).seating.rows⟩
  rcases order_cases hst with ⟨c, d, hs⟩ | ⟨-, horders⟩
  · obtain ⟨-, -, now, htill⟩ := hs.step hst
    obtain ⟨hres, hd⟩ := hs.ok hinv
    rw [htill] at ho'
    rcases List.mem_append.mp ho' with ho | ho
    · exact hold o' ho id hid
    · obtain rfl := List.mem_singleton.mp ho
      rw [show (h.till.orderOf d now).reservationId = c.payload.reservationId from
        hd.reservationId] at hid
      obtain ⟨r, hr, hrid, huser⟩ := hres id hid
      have hrest := hC c d hs id hid r hr hrid
      obtain ⟨r', hr', href⟩ := hg.rows r hr
      refine ⟨r', hr', href.id.trans hrid, ?_, ?_⟩
      · exact href.userId.trans (huser.trans hd.userId.symm)
      · exact href.restaurantId.trans (hrest.trans hd.restaurantId.symm)
  · obtain ⟨o, ho, st, rfl⟩ := horders o' ho'
    exact hold o ho id hid

theorem not_referencesAgree_step (hinv : Inv env h) (hC : ¬ SameRestaurant env h l)
    (hst : (house env).step h l = some h') : ¬ ReferencesAgree env h' := by
  intro ha
  refine hC fun c d hs id hid r hr hrid => ?_
  obtain ⟨hworld, -, now, htill⟩ := hs.step hst
  obtain ⟨-, hd⟩ := hs.ok hinv
  have hnew : h.till.orderOf d now ∈ h'.till.shop.orders := by
    rw [htill]
    exact mem_saved _ _ _
  obtain ⟨r', hr', hrid', -, hrest⟩ := ha.orders _ hnew id (hd.reservationId.trans hid)
  rw [hworld] at hr'
  obtain rfl := List.inj_on_of_nodup_map hinv.world.sound.keys hr hr' (hrid.trans hrid'.symm)
  exact hrest.trans hd.restaurantId

end References

/-- **Along a run every reservation is at a table of its restaurant, and every order's reservation is
    its user's and at its restaurant, exactly when no order is stored for a reservation at another
    restaurant.** -/
theorem references_agree_iff (env : Env) (phase : Phase) (hready : Ready env phase [] 1 1)
    (ls : List Label) :
    (house env).AllStates (ReferencesAgree env) (start phase) ls ↔
      (house env).AllSteps (SameRestaurant env) (start phase) ls := by
  refine Machine.allStates_iff_allSteps (A := fun _ => True) (J := Inv env) ?_ ?_ ls (start phase)
    (fun _ _ => trivial) (inv_start hready)
    ⟨fun o ho => absurd ho List.not_mem_nil, fun r hr => absurd hr List.not_mem_nil⟩
  · intro h l h' _ hinv ha hC hst
    exact ⟨hinv.step hst, ha.step hinv hC hst⟩
  · intro h l h' _ hinv _ hC hst
    exact not_referencesAgree_step hinv hC hst

/-! ### Two restaurants -/

/-- The small restaurant, and another one. -/
def twoRestaurants : Env :=
  { sample with restaurants := [⟨1, "Fern".toList⟩, ⟨2, "Moss".toList⟩] }

theorem twoRestaurants_ready (p : Phase) : Ready twoRestaurants p [] 1 1 where
  fits := sample_fits p
  keys := List.nodup_nil
  ids := fun _ hr => absurd hr List.not_mem_nil
  versions := fun _ hr => absurd hr List.not_mem_nil
  ok := fun _ hr => absurd hr List.not_mem_nil
  apart := fun _ hr => absurd hr List.not_mem_nil

theorem first_reservation (id : Nat) (h : some 1 = some id) : 0 < id := by
  rw [← Option.some.inj h]
  exact Nat.one_pos

/-- A lunch for the first reservation, ordered at the restaurant. -/
def orderAt (restaurantId : Nat) (hr : 0 < restaurantId) : OrderCreate :=
  { lunchOrder (some 1) first_reservation with
    restaurantId := restaurantId
    restaurantId_pos := hr }

/-- A table at the first restaurant is booked, and a lunch for it is ordered at the restaurant. -/
def bookedLunch (restaurantId : Nat) (hr : 0 < restaurantId) : List Label :=
  (whole 0 5 (.post customer lunchForTwo)).map Label.service ++
    twoDishes restaurantId hr "THB".toList "THB".toList rfl rfl ++ ordered (orderAt restaurantId hr)

/-- What an order and its reservation say of their restaurants. -/
def restaurants (h : House) : List (Option Nat × Nat) × List (Nat × Nat) :=
  (h.till.shop.orders.map fun o => (o.reservationId, o.restaurantId),
    h.world.store.rows.map fun r => (r.id, r.restaurantId))

/-- **An order need not be at the restaurant of its reservation.** -/
theorem order_for_reservation_elsewhere : ¬ ∀ (env : Env) (phase : Phase),
    Ready env phase [] 1 1 → ∀ h, (house env).Reach (fun _ _ => True) (start phase) h →
      ReferencesAgree env h := by
  intro hall
  obtain ⟨h, hrun⟩ : ∃ h, (house twoRestaurants).run (start .legacy)
      (bookedLunch 2 Nat.two_pos) = some h := Option.isSome_iff_exists.mp (by decide)
  have hagree := hall twoRestaurants .legacy (twoRestaurants_ready _) h (Machine.Reach.of_run hrun)
  have hread : restaurants h = ([(some 1, 2)], [(1, 1)]) :=
    (house twoRestaurants).run_eval restaurants hrun (by decide)
  obtain ⟨horders, hrows⟩ := Prod.mk.inj hread
  have horder : (some 1, 2) ∈ h.till.shop.orders.map fun o => (o.reservationId, o.restaurantId) := by
    rw [horders]
    exact List.mem_singleton_self _
  obtain ⟨o, ho, hpair⟩ := List.mem_map.mp horder
  obtain ⟨hres, hrest⟩ := Prod.mk.inj hpair
  obtain ⟨r, hr, -, -, hsame⟩ := hagree.orders o ho 1 hres
  have hrow := List.mem_map_of_mem (f := fun r : Reservation => (r.id, r.restaurantId)) hr
  rw [hrows, List.mem_singleton] at hrow
  have hone := (Prod.mk.inj hrow).2
  omega

/-- Every order is at the only restaurant that has a table. -/
structure AtHome (h : House) : Prop where
  seating : Seating sample h.world
  calls : ∀ (i : Nat) (c : OrderCall), h.calls[i]? = some c → c.payload.restaurantId = 1

theorem AtHome.step {h h' : House} {l : Label} (hh : AtHome h)
    (hl : ∀ user payload, l = .order user payload → payload.restaurantId = 1)
    (hst : (house sample).step h l = some h') : AtHome h' := by
  cases step_cases hst with
  | service hw => exact ⟨hh.seating.step hw, hh.calls⟩
  | order user payload =>
    refine ⟨hh.seating, fun i c hc => ?_⟩
    rcases slot_of_concat hc with hc | ⟨-, rfl⟩
    · exact hh.calls i c hc
    · exact hl user payload rfl
  | @act i fails now c t st hc _ =>
    refine ⟨hh.seating, fun j c' hc' => ?_⟩
    rcases slot_of_set hc' with ⟨-, rfl⟩ | ⟨-, hc'⟩
    · exact hh.calls i c hc
    · exact hh.calls j c' hc'
  | _ => exact ⟨hh.seating, hh.calls⟩

theorem AtHome.sameRestaurant {h : House} (hh : AtHome h) (l : Label) : SameRestaurant sample h l := by
  rintro c d ⟨i, -, -, -, hc, -, -, -⟩ id hid r hr -
  obtain ⟨t, ht, hrest⟩ := hh.seating.rows r hr
  have hmem : t ∈ sample.tables := List.mem_of_find?_eq_some ht
  rw [List.mem_singleton.mp hmem] at hrest
  rw [hh.calls i c hc]
  exact hrest.symm

/-- **An order at the restaurant of its reservation** keeps the references in agreement. -/
theorem bookedLunch_agrees : ∃ h, (house sample).run (start .legacy)
    (bookedLunch 1 Nat.one_pos) = some h ∧
    restaurants h = ([(some 1, 1)], [(1, 1)]) ∧ ReferencesAgree sample h := by
  obtain ⟨h, hrun⟩ : ∃ h, (house sample).run (start .legacy) (bookedLunch 1 Nat.one_pos) = some h :=
    Option.isSome_iff_exists.mp (by decide)
  have hsteps : (house sample).AllSteps (SameRestaurant sample) (start .legacy)
      (bookedLunch 1 Nat.one_pos) := by
    refine Machine.AllSteps.of_invariant (I := AtHome)
      (A := fun l => ∀ user payload, l = .order user payload → payload.restaurantId = 1)
      (fun _ l hh _ => hh.sameRestaurant l) (fun _ _ _ hh hl => hh.step hl) ?_ _
      ⟨seating_start .legacy 1 1, fun _ _ hc => absurd hc (by simp [start])⟩
    intro l hl user payload hlbl
    subst hlbl
    simp only [bookedLunch, twoDishes, ordered, List.mem_append, List.mem_map, List.mem_cons,
      List.mem_replicate, Label.order.injEq, List.not_mem_nil, reduceCtorEq, and_false, or_false,
      false_or, exists_false] at hl
    rw [hl.2]
    rfl
  exact ⟨h, hrun, (house sample).run_eval restaurants hrun (by decide),
    ((references_agree_iff sample .legacy (sample_ready _) (bookedLunch 1 Nat.one_pos)).mpr
      hsteps).last hrun⟩

end TableFlow.Ordering
