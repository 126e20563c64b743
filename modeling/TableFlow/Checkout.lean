/-
  Placing an order: `create_order`, over PostgreSQL and MongoDB.

  1. **The code** — the reads of the restaurant, the reservation and the products, each with its
     checks, the loop over the lines that copies names and prices and adds up the total, the
     commit, the refresh and the telemetry.  Every external call is named (`Call`), and one of them
     may fail (`call`).

  2. **Money** — prices are decimals in Python (`Lib.Decimal`, a context of 28 digits) and
     hundredths in the database (`NUMERIC(10, 2)`); the loop rounds nothing that the database
     would take (`addLines_total`).

  3. **What a successful order is** (`Orderable`) — the condition on the payload, the catalogue and
     the reservations under which an order is stored, and what is stored then.
-/
import TableFlow.Lib.Decimal
import TableFlow.Orders
import TableFlow.World

namespace TableFlow.Checkout

open Lib Orders

/-! ## Products -/

/-- `[0-9a-fA-F]` -/
def isHexDigit (c : Char) : Bool := "0123456789abcdefABCDEF".toList.contains c

/-- A hex digit as `str(ObjectId)` writes it. -/
def isLowerHexDigit (c : Char) : Bool := "0123456789abcdef".toList.contains c

/-- A MongoDB `ObjectId`, by its text `str(oid)`. -/
structure ObjectId where
  hex : Text
  length : hex.length = 24
  digits : hex.all isLowerHexDigit = true
  deriving DecidableEq

/-- The letters of an id are read in either case, and printed in lower case. -/
theorem isLowerHexDigit_toLower {c : Char} (h : isHexDigit c = true) :
    isLowerHexDigit c.toLower = true := by
  have hall : "0123456789abcdefABCDEF".toList.all (fun c => isLowerHexDigit c.toLower) = true := by
    decide
  exact List.all_eq_true.mp hall c (List.contains_iff_mem.mp h)

/-- `ObjectId(text)`, `none` for `InvalidId`. -/
def objectId (t : Text) : Option ObjectId :=
  if h : t.length = 24 ∧ t.all isHexDigit = true then
    some ⟨t.map Char.toLower, by rw [List.length_map, h.1], by
      rw [List.all_map, List.all_eq_true]
      exact fun c hc => isLowerHexDigit_toLower (List.all_eq_true.mp h.2 c hc)⟩
  else none

/-- A document of the collection `products`, as the projection of `create_order` reads it; `none`
    for a field the document does not have. -/
structure Product where
  id : ObjectId
  restaurantId : Option Nat
  name : Option Text
  /-- `Decimal(str(doc["price"]))` -/
  price : Option Decimal
  currency : Option Text
  isAvailable : Option Bool
  /-- `ProductCreate` lets no longer name into the collection. -/
  name_length : ∀ n, name = some n → n.length ≤ 150

/-- The collection `products`, in the order a cursor returns it. -/
structure Catalogue where
  products : List Product
  ids : (products.map Product.id).Nodup

/-- `find({"_id": {"$in": ids}})` -/
def Catalogue.find (c : Catalogue) (ids : List ObjectId) : List Product :=
  c.products.filter fun p => ids.contains p.id

/-- `found[pid]`, of the dictionary `{str(doc["_id"]): doc}`. -/
def lookup (found : List Product) (pid : Text) : Option Product := found.find? (·.id.hex == pid)

/-! ## Requests -/

/-- A line of a validated order. -/
structure OrderItemIn where
  productId : Text
  quantity : Nat
  /-- The JSON object, as text. -/
  selectedAttributes : Option Text
  /-- `^[0-9a-fA-F]{24}$` -/
  productId_pattern : productId.length = 24 ∧ productId.all isHexDigit = true
  quantity_range : 0 < quantity ∧ quantity ≤ 50

/-- A validated order. -/
structure OrderCreate where
  restaurantId : Nat
  reservationId : Option Nat
  items : List OrderItemIn
  restaurantId_pos : 0 < restaurantId
  reservationId_pos : ∀ id, reservationId = some id → 0 < id
  items_length : 1 ≤ items.length ∧ items.length ≤ 50

/-- `payload.items[0]` -/
def OrderCreate.first (payload : OrderCreate) : OrderItemIn :=
  payload.items.head (List.length_pos_iff.mp payload.items_length.1)

/-! ## Failures -/

/-- The external calls of `create_order` and of `create_reservation`. -/
inductive Call
  | restaurant
  | reservation
  | products
  | table
  | commit
  | rollback
  | refresh
  | reload
  | telemetry
  deriving DecidableEq, Repr

/-- What the driver or PostgreSQL can refuse the INSERTs of an order with. -/
inductive SaveError
  /-- A text with U+0000, or attributes that `JSONB` does not hold. -/
  | dataError
  | numericFieldOverflow
  | valueTooLong (limit : Nat)
  | checkViolation (constraint : String)
  deriving DecidableEq, Repr

/-- What leaves `create_order` or `create_reservation` as an exception. -/
inductive Raised
  | refused (e : HTTPException)
  | database (e : DbError)
  | save (e : SaveError)
  /-- The call has failed. -/
  | lost (c : Call)
  | keyError (key : Text)
  /-- `decimal.InvalidOperation` -/
  | invalidOperation
  /-- The row to refresh is gone. -/
  | notRefreshed
  deriving DecidableEq, Repr

/-- The external call `c`, `fails` being the one that fails. -/
def call {α : Type} (fails : Option Call) (c : Call) (x : Except Raised α) : Except Raised α :=
  if fails = some c then .error (.lost c) else x

/-- How a call of the service ends. -/
structure Outcome (σ α : Type) where
  state : σ
  /-- Its commit has succeeded. -/
  committed : Bool
  result : Except Raised α

/-! ## The rows -/

/-- One row of `order_items`. -/
structure OrderItem where
  id : Nat
  orderId : Nat
  productId : Text
  productName : Text
  /-- In hundredths of the currency. -/
  unitPrice : Nat
  quantity : Nat
  selectedAttributes : Option Text
  deriving DecidableEq, Repr

/-- The telemetry event `order_placed`. -/
structure OrderPlaced where
  userId : Nat
  occurredAt : Int
  orderId : Nat
  restaurantId : Nat
  itemCount : Nat
  /-- In hundredths of the currency. -/
  totalAmount : Nat
  deriving DecidableEq, Repr

/-- The orders with their items, and the telemetry. -/
structure Till where
  shop : Shop
  items : List OrderItem
  /-- The sequence of item ids. -/
  nextItem : Nat
  telemetry : List OrderPlaced

/-! ## Step 1: the restaurant and the reservation -/

/-- `session.scalar(select(Restaurant)..)` and its check. -/
def readRestaurant (env : Env) (payload : OrderCreate) : Except Raised Unit :=
  if fitsBigint payload.restaurantId = false then .error (.database .dataError)
  else
    match env.restaurant payload.restaurantId with
    | none => .error (.refused ⟨404, "Restaurant not found"⟩)
    | some _ => .ok ()

/-- The row is loaded whole before its owner is looked at. -/
def readReservation (rows : List Reservation) (user : User) (id : Nat) : Except Raised Unit :=
  if fitsBigint id = false then .error (.database .dataError)
  else
    match Store.lookup reservations rows id with
    | none => .error (.refused ⟨404, "Reservation not found"⟩)
    | some r =>
      if loads r = false then .error (.database .dataError)
      else if r.userId ≠ user.id then
        .error (.refused ⟨403, "Reservation belongs to another user"⟩)
      else .ok ()

/-! ## Step 2: the products -/

/-- `", ".join(..)` -/
def commaSeparated (ids : List Text) : String := ", ".intercalate (ids.map String.ofList)

/-- The ids of the payload that no product has. -/
def missing (found : List Product) (payload : OrderCreate) : List Text :=
  (payload.items.map (·.productId)).filter fun pid => (lookup found pid).isNone

/-- The ids of the products of another restaurant. -/
def wrongRestaurant (found : List Product) (payload : OrderCreate) : List Text :=
  (found.filter fun doc => doc.restaurantId != some payload.restaurantId).map (·.id.hex)

/-- A product without the field counts as unavailable. -/
def unavailable (found : List Product) : List Text :=
  (found.filter fun doc => !doc.isAvailable.getD false).map (·.id.hex)

/-- The three checks of step 2, in their order. -/
def checkProducts (found : List Product) (payload : OrderCreate) : Except Raised Unit :=
  if missing found payload ≠ [] then
    .error (.refused ⟨404, s!"Unknown product_id: {commaSeparated (missing found payload)}"⟩)
  else if wrongRestaurant found payload ≠ [] then
    .error (.refused ⟨400, "Product does not belong to that restaurant: " ++
      commaSeparated (wrongRestaurant found payload)⟩)
  else if unavailable found ≠ [] then
    .error (.refused ⟨409, "Product is not currently available: " ++
      commaSeparated (unavailable found)⟩)
  else .ok ()

/-! ## Step 3: the order -/

/-- The precision of Python's default decimal context. -/
def precision : Nat := 28

/-- An `OrderItem` that is not saved yet. -/
structure ItemDraft where
  productId : Text
  productName : Text
  unitPrice : Decimal
  quantity : Nat
  selectedAttributes : Option Text
  deriving DecidableEq

/-- An `Order` that is not saved yet. -/
structure Draft where
  userId : Nat
  restaurantId : Nat
  reservationId : Option Nat
  totalAmount : Decimal
  currency : Text
  items : List ItemDraft
  deriving DecidableEq

/-- `Decimal("0.00")` -/
def zero : Decimal := ⟨0, -2⟩

/-- The item for a line. -/
def itemOf (found : List Product) (item : OrderItemIn) : Except Raised ItemDraft :=
  match lookup found item.productId with
  | none => .error (.keyError item.productId)
  | some doc =>
    match doc.price with
    | none => .error (.keyError "price".toList)
    | some price =>
      match price.quantize precision (-2) with
      | none => .error .invalidOperation
      | some unitPrice =>
        match doc.name with
        | none => .error (.keyError "name".toList)
        | some name =>
          .ok ⟨item.productId, name, unitPrice, item.quantity, item.selectedAttributes⟩

/-- `unit_price * item.quantity` -/
def ItemDraft.amount (x : ItemDraft) : Decimal := x.unitPrice.mul precision ⟨x.quantity, 0⟩

/-- The loop over the lines, with the total and the items so far. -/
def addLines (found : List Product) :
    Decimal → List ItemDraft → List OrderItemIn → Except Raised (Decimal × List ItemDraft)
  | total, items, [] => .ok (total, items)
  | total, items, item :: rest =>
    match itemOf found item with
    | .error e => .error e
    | .ok x => addLines found (total.add precision x.amount) (items ++ [x]) rest

/-- Step 3 up to the commit; the currency is that of the first line. -/
def buildOrder (found : List Product) (user : User) (payload : OrderCreate) :
    Except Raised Draft :=
  match lookup found payload.first.productId with
  | none => .error (.keyError payload.first.productId)
  | some doc =>
    match addLines found zero [] payload.items with
    | .error e => .error e
    | .ok (total, items) =>
      .ok ⟨user.id, payload.restaurantId, payload.reservationId, total,
        doc.currency.getD "THB".toList, items⟩

/-! ### Saving it -/

/-- `NUMERIC(10, 2)`, in hundredths; `none` for an overflow. -/
def numeric (d : Decimal) : Option Int :=
  if (d.rescale Decimal.halfUp (-2)).natAbs < 10 ^ 10 then some (d.rescale Decimal.halfUp (-2))
  else none

/-- `VARCHAR(n)`: blanks beyond the limit are cut, anything else beyond it is an error. -/
def varchar (n : Nat) (t : Text) : Option Text :=
  if (t.drop n).all (· == ' ') then some (t.take n) else none

/-- The error of the INSERT into `orders`. -/
def orderError (d : Draft) : Option SaveError :=
  match numeric d.totalAmount with
  | none => some .numericFieldOverflow
  | some n =>
    if (varchar 3 d.currency).isNone then some (.valueTooLong 3)
    else if n < 0 then some (.checkViolation "ck_orders_total_nonneg")
    else none

/-- The error of the INSERT into `order_items`. -/
def itemError (x : ItemDraft) : Option SaveError :=
  if (varchar 150 x.productName).isNone then some (.valueTooLong 150)
  else
    match numeric x.unitPrice with
    | none => some .numericFieldOverflow
    | some n =>
      if n < 0 then some (.checkViolation "ck_order_items_price_nonneg")
      else if x.quantity = 0 ∨ 50 < x.quantity then some (.checkViolation "ck_order_items_qty")
      else none

/-- A value of the item is refused before its columns are looked at. -/
def ItemDraft.refused (env : Env) (x : ItemDraft) : Bool :=
  !storable x.productName || x.selectedAttributes.any fun a => !env.jsonb a

theorem refused_eq_false {env : Env} {x : ItemDraft} : x.refused env = false ↔
    storable x.productName = true ∧ ∀ a, x.selectedAttributes = some a → env.jsonb a = true := by
  unfold ItemDraft.refused
  cases x.selectedAttributes <;> simp

/-- The error of the flush. -/
def saveError (env : Env) (d : Draft) : Option SaveError :=
  if storable d.currency = false then some .dataError
  else
    match orderError d with
    | some e => some e
    | none =>
      -- the driver has all items before it sends the first one
      if d.items.any (·.refused env) then some .dataError else d.items.findSome? itemError

/-- The amount as the column holds it. -/
def hundredths (d : Decimal) : Nat := ((numeric d).getD 0).toNat

/-- The row of `orders`. -/
def Draft.order (d : Draft) (id : Nat) (now : Int) : Order where
  id := id
  userId := d.userId
  restaurantId := d.restaurantId
  reservationId := d.reservationId
  status := .placed
  totalAmount := hundredths d.totalAmount
  currency := (varchar 3 d.currency).getD []
  createdAt := now

/-- The row of `order_items`. -/
def ItemDraft.item (x : ItemDraft) (orderId id : Nat) : OrderItem where
  id := id
  orderId := orderId
  productId := x.productId
  productName := (varchar 150 x.productName).getD []
  unitPrice := hundredths x.unitPrice
  quantity := x.quantity
  selectedAttributes := x.selectedAttributes

/-- The rows of `order_items`, with consecutive ids. -/
def itemRows (orderId : Nat) : Nat → List ItemDraft → List OrderItem
  | _, [] => []
  | id, x :: xs => x.item orderId id :: itemRows orderId (id + 1) xs

namespace Till

/-- The order that saving `d` stores. -/
def orderOf (t : Till) (d : Draft) (now : Int) : Order := d.order t.shop.nextId now

/-- The items of all lines. -/
def itemsOf (t : Till) (d : Draft) : List OrderItem := itemRows t.shop.nextId t.nextItem d.items

/-- The transaction of `d` has committed. -/
def saved (t : Till) (d : Draft) (now : Int) : Till :=
  { t with
    shop := { t.shop with
      orders := t.shop.orders ++ [t.orderOf d now]
      nextId := t.shop.nextId + 1 }
    items := t.items ++ t.itemsOf d
    nextItem := t.nextItem + d.items.length }

/-- Step 4: the telemetry; an error is only logged. -/
def reported (t : Till) (fails : Option Call) (user : User) (o : Order) (items : List OrderItem)
    (now : Int) : Till :=
  if fails = some .telemetry then t
  else
    { t with
      telemetry := t.telemetry ++
        [⟨user.id, now, o.id, o.restaurantId, items.length, o.totalAmount⟩] }

end Till

/-! ## `create_order` -/

/-- Steps 1 and 2, up to the draft. -/
def prepare (env : Env) (rows : List Reservation) (products : Catalogue) (user : User)
    (payload : OrderCreate) (fails : Option Call) : Except Raised Draft :=
  match call fails .restaurant (readRestaurant env payload) with
  | .error e => .error e
  | .ok _ =>
    match payload.reservationId.elim (.ok ()) fun id =>
        call fails .reservation (readReservation rows user id) with
    | .error e => .error e
    | .ok _ =>
      match payload.items.mapM (objectId ·.productId) with
      | none => .error (.refused ⟨400, "Malformed product_id"⟩)
      | some ids =>
        match call fails .products (.ok (products.find ids)) with
        | .error e => .error e
        | .ok found =>
          match checkProducts found payload with
          | .error e => .error e
          | .ok _ => buildOrder found user payload

/-- `create_order`; `fails` is the external call that fails. -/
def createOrder (env : Env) (rows : List Reservation) (products : Catalogue) (now : Int) (t : Till)
    (user : User) (payload : OrderCreate) (fails : Option Call) :
    Outcome Till (Order × List OrderItem) :=
  match prepare env rows products user payload fails with
  | .error e => ⟨t, false, .error e⟩
  | .ok d =>
    match call fails .commit (.ok (saveError env d)) with
    | .error e => ⟨t, false, .error e⟩
    | .ok (some e) => ⟨t, false, .error (.save e)⟩
    | .ok none =>
      match call fails .refresh (.ok (t.orderOf d now, t.itemsOf d)) with
      | .error e => ⟨t.saved d now, true, .error e⟩
      | .ok (o, items) =>
        ⟨(t.saved d now).reported fails user o items now, true, .ok (o, items)⟩

/-! ## Finding products -/

theorem toLower_eq_self {c : Char} (h : isLowerHexDigit c = true) : c.toLower = c := by
  have hall : "0123456789abcdef".toList.all (fun c => c.toLower == c) = true := by decide
  exact eq_of_beq (List.all_eq_true.mp hall c (List.contains_iff_mem.mp h))

theorem ObjectId.eq_of_hex {a b : ObjectId} (h : a.hex = b.hex) : a = b := by
  cases a
  cases b
  cases h
  rfl

theorem ObjectId.hex_toLower (o : ObjectId) : o.hex.map Char.toLower = o.hex := by
  conv_rhs => rw [← List.map_id o.hex]
  exact List.map_congr_left fun c hc => toLower_eq_self (List.all_eq_true.mp o.digits c hc)

/-- `ObjectId(item.product_id)` -/
def OrderItemIn.oid (item : OrderItemIn) : ObjectId where
  hex := item.productId.map Char.toLower
  length := by rw [List.length_map, item.productId_pattern.1]
  digits := by
    rw [List.all_map, List.all_eq_true]
    exact fun c hc => isLowerHexDigit_toLower (List.all_eq_true.mp item.productId_pattern.2 c hc)

/-- **A validated id is never malformed.** -/
theorem objectId_productId (item : OrderItemIn) : objectId item.productId = some item.oid :=
  dif_pos item.productId_pattern

theorem mapM_objectId (items : List OrderItemIn) :
    items.mapM (objectId ·.productId) = some (items.map OrderItemIn.oid) := by
  rw [show (fun i : OrderItemIn => objectId i.productId) = fun i => pure i.oid from
    funext objectId_productId]
  exact List.mapM_pure

theorem mem_find {products : Catalogue} {ids : List ObjectId} {p : Product} :
    p ∈ products.find ids ↔ p ∈ products.products ∧ p.id ∈ ids := by
  simp [Catalogue.find, List.mem_filter]

theorem lookup_some {found : List Product} {pid : Text} {p : Product}
    (h : lookup found pid = some p) : p ∈ found ∧ p.id.hex = pid := by
  have hid := List.find?_some h
  exact ⟨List.mem_of_find?_eq_some h, eq_of_beq hid⟩

section Found

variable {products : Catalogue} {items : List OrderItemIn}

/-- The documents found for the lines. -/
theorem mem_found {p : Product} :
    p ∈ products.find (items.map OrderItemIn.oid) ↔
      p ∈ products.products ∧ ∃ line ∈ items, line.oid = p.id := by
  rw [mem_find, List.mem_map]

/-- **A line whose id is that of a product finds this product.** -/
theorem lookup_found {line : OrderItemIn} (hline : line ∈ items) {p : Product}
    (hp : p ∈ products.products) (hid : p.id.hex = line.productId) :
    lookup (products.find (items.map OrderItemIn.oid)) line.productId = some p := by
  have hoid : line.oid = p.id := ObjectId.eq_of_hex (by
    show line.productId.map Char.toLower = p.id.hex
    rw [← hid, p.id.hex_toLower])
  have hmem := mem_found.mpr ⟨hp, line, hline, hoid⟩
  obtain ⟨p', hp'⟩ : ∃ p', lookup (products.find (items.map OrderItemIn.oid)) line.productId
      = some p' :=
    Option.isSome_iff_exists.mp (List.find?_isSome.mpr ⟨p, hmem, by simpa using hid⟩)
  obtain ⟨hmem', hid'⟩ := lookup_some hp'
  have heq : p' = p := List.inj_on_of_nodup_map products.ids (mem_found.mp hmem').1 hp
    (ObjectId.eq_of_hex (hid'.trans hid.symm))
  rw [hp', heq]

end Found

/-- **The checks of step 2.** -/
theorem checkProducts_ok {found : List Product} {payload : OrderCreate} :
    checkProducts found payload = .ok () ↔
      (∀ line ∈ payload.items, (lookup found line.productId).isSome = true) ∧
      ∀ p ∈ found, p.restaurantId = some payload.restaurantId ∧ p.isAvailable = some true := by
  have hmissing : missing found payload = [] ↔
      ∀ line ∈ payload.items, (lookup found line.productId).isSome = true := by
    simp [missing, List.filter_eq_nil_iff, Option.isSome_iff_ne_none]
  have hwrong : wrongRestaurant found payload = [] ↔
      ∀ p ∈ found, p.restaurantId = some payload.restaurantId := by
    simp [wrongRestaurant, List.filter_eq_nil_iff]
  have hunavailable : unavailable found = [] ↔ ∀ p ∈ found, p.isAvailable = some true := by
    simp only [unavailable, List.map_eq_nil_iff, List.filter_eq_nil_iff]
    refine forall₂_congr fun p _ => ?_
    cases p.isAvailable with
    | none => simp
    | some b => simp
  unfold checkProducts
  split
  · next h => simp [← hmissing, h]
  · next h1 =>
    split
    · next h =>
      refine iff_of_false (by simp) fun hall => h (hwrong.mpr fun p hp => (hall.2 p hp).1)
    · next h2 =>
      split
      · next h =>
        refine iff_of_false (by simp) fun hall => h (hunavailable.mpr fun p hp => (hall.2 p hp).2)
      · next h3 =>
        refine iff_of_true rfl ⟨hmissing.mp (not_not.mp h1), fun p hp => ⟨?_, ?_⟩⟩
        · exact hwrong.mp (not_not.mp h2) p hp
        · exact hunavailable.mp (not_not.mp h3) p hp

/-! ## The loop over the lines -/

/-- A price in hundredths. -/
def cents (price : Decimal) : Int := price.rescale Decimal.halfEven (-2)

/-- The amounts of the items, added one after the other. -/
def totalFrom (total : Decimal) (items : List ItemDraft) : Decimal :=
  items.foldl (fun t x => t.add precision x.amount) total

theorem itemOf_ok {found : List Product} {line : OrderItemIn} {x : ItemDraft} :
    itemOf found line = .ok x ↔
      ∃ doc price name, lookup found line.productId = some doc ∧ doc.price = some price ∧
        doc.name = some name ∧ (cents price).natAbs < 10 ^ precision ∧
        x = ⟨line.productId, name, ⟨cents price, -2⟩, line.quantity, line.selectedAttributes⟩ := by
  constructor
  · intro h
    unfold itemOf at h
    split at h
    · exact absurd h (by simp)
    · next doc hdoc =>
      split at h
      · exact absurd h (by simp)
      · next price hprice =>
        split at h
        · exact absurd h (by simp)
        · next unitPrice hunit =>
          split at h
          · exact absurd h (by simp)
          · next name hname =>
            obtain ⟨hlt, rfl⟩ := Decimal.quantize_eq_some.mp hunit
            exact ⟨doc, price, name, hdoc, hprice, hname, hlt, (Except.ok.inj h).symm⟩
  · rintro ⟨doc, price, name, hdoc, hprice, hname, hlt, rfl⟩
    have hunit : price.quantize precision (-2) = some ⟨cents price, -2⟩ :=
      Decimal.quantize_eq_some.mpr ⟨hlt, rfl⟩
    unfold itemOf
    simp only [hdoc, hprice, hunit, hname]

/-- **The loop** makes one item for each line, in order, and adds up their amounts. -/
theorem addLines_ok {found : List Product} {lines : List OrderItemIn} :
    ∀ {total total' : Decimal} {items items' : List ItemDraft},
      addLines found total items lines = .ok (total', items') ↔
        ∃ new, List.Forall₂ (fun line x => itemOf found line = .ok x) lines new ∧
          items' = items ++ new ∧ total' = totalFrom total new := by
  induction lines with
  | nil =>
    intro total total' items items'
    simp [addLines, totalFrom, eq_comm, and_comm]
  | cons line rest ih =>
    intro total total' items items'
    unfold addLines
    constructor
    · intro h
      split at h
      · exact absurd h (by simp)
      · next x hx =>
        obtain ⟨new, hnew, rfl, rfl⟩ := ih.mp h
        exact ⟨x :: new, .cons hx hnew, by simp, rfl⟩
    · rintro ⟨new, hnew, rfl, rfl⟩
      cases hnew with
      | cons hx hnew =>
        rw [hx]
        exact ih.mpr ⟨_, hnew, by simp, rfl⟩

theorem buildOrder_ok {found : List Product} {user : User} {payload : OrderCreate} {d : Draft} :
    buildOrder found user payload = .ok d ↔
      ∃ doc items, lookup found payload.first.productId = some doc ∧
        List.Forall₂ (fun line x => itemOf found line = .ok x) payload.items items ∧
        d = ⟨user.id, payload.restaurantId, payload.reservationId, totalFrom zero items,
          doc.currency.getD "THB".toList, items⟩ := by
  constructor
  · intro h
    unfold buildOrder at h
    split at h
    · exact absurd h (by simp)
    · next doc hdoc =>
      split at h
      · exact absurd h (by simp)
      · next total items hlines =>
        obtain ⟨_, hitems, rfl, rfl⟩ := addLines_ok.mp hlines
        exact ⟨doc, items, hdoc, hitems, (Except.ok.inj h).symm⟩
  · rintro ⟨doc, items, hdoc, hitems, rfl⟩
    have hlines : addLines found zero [] payload.items = .ok (totalFrom zero items, items) :=
      addLines_ok.mpr ⟨items, hitems, rfl, rfl⟩
    unfold buildOrder
    simp only [hdoc, hlines]

/-! ### The total -/

/-- What the table takes as the price and the quantity of an item. -/
structure ItemOk (x : ItemDraft) : Prop where
  price : ∃ c : Int, x.unitPrice = ⟨c, -2⟩ ∧ 0 ≤ c ∧ c < 10 ^ 10
  quantity : 0 < x.quantity ∧ x.quantity ≤ 50

/-- The amount of an item, in hundredths. -/
def ItemDraft.cents (x : ItemDraft) : Int := x.unitPrice.coefficient * x.quantity

theorem ItemOk.cents_range {x : ItemDraft} (h : ItemOk x) :
    0 ≤ x.cents ∧ x.cents < 50 * 10 ^ 10 := by
  obtain ⟨c, hc, h0, hlt⟩ := h.price
  obtain ⟨hq, hq'⟩ := h.quantity
  unfold ItemDraft.cents
  rw [hc]
  constructor
  · exact mul_nonneg h0 (by omega)
  · calc c * (x.quantity : Int) ≤ c * 50 := mul_le_mul_of_nonneg_left (by omega) h0
      _ < 50 * 10 ^ 10 := by omega

theorem ItemOk.amount_eq {x : ItemDraft} (h : ItemOk x) : x.amount = ⟨x.cents, -2⟩ := by
  obtain ⟨h0, hlt⟩ := h.cents_range
  obtain ⟨c, hc, -, -⟩ := h.price
  unfold ItemDraft.amount
  unfold ItemDraft.cents at h0 hlt ⊢
  rw [hc] at h0 hlt ⊢
  dsimp only at h0 hlt ⊢
  refine Decimal.mul_of_lt ?_
  unfold precision
  omega

theorem sum_cents_nonneg {items : List ItemDraft} (h : ∀ x ∈ items, ItemOk x) :
    0 ≤ (items.map ItemDraft.cents).sum := by
  refine List.sum_nonneg fun c hc => ?_
  obtain ⟨x, hx, rfl⟩ := List.mem_map.mp hc
  exact (h x hx).cents_range.1

/-- **The total is exact**: nothing is rounded off while it is added up. -/
theorem totalFrom_eq {items : List ItemDraft} (h : ∀ x ∈ items, ItemOk x) : ∀ {t : Int}, 0 ≤ t →
    t + items.length * (50 * 10 ^ 10) < 10 ^ precision →
    totalFrom ⟨t, -2⟩ items = ⟨t + (items.map ItemDraft.cents).sum, -2⟩ := by
  induction items with
  | nil =>
    intro t _ _
    simp [totalFrom]
  | cons x xs ih =>
    intro t h0 hlt
    have hx := h x (List.mem_cons_self ..)
    obtain ⟨hx0, hxlt⟩ := hx.cents_range
    rw [List.length_cons, Nat.cast_add, Nat.cast_one] at hlt
    have hadd : Decimal.add precision ⟨t, -2⟩ x.amount = ⟨t + x.cents, -2⟩ := by
      rw [hx.amount_eq]
      refine Decimal.add_of_lt ?_
      unfold precision at hlt ⊢
      omega
    show totalFrom (Decimal.add precision ⟨t, -2⟩ x.amount) xs = _
    rw [hadd, ih (fun y hy => h y (List.mem_cons_of_mem _ hy)) (by omega) (by linarith),
      List.map_cons, List.sum_cons, add_assoc]

/-! ## What the tables take -/

theorem numeric_eq_some {c n : Int} : numeric ⟨c, -2⟩ = some n ↔ c.natAbs < 10 ^ 10 ∧ c = n := by
  unfold numeric
  rw [Decimal.rescale_self]
  split
  · next h => exact ⟨fun hn => ⟨h, Option.some.inj hn⟩, fun hn => congrArg some hn.2⟩
  · next h => exact iff_of_false (by simp) fun hn => h hn.1

theorem hundredths_eq {c : Int} (h0 : 0 ≤ c) (hlt : c < 10 ^ 10) : hundredths ⟨c, -2⟩ = c.toNat := by
  unfold hundredths
  rw [numeric_eq_some.mpr ⟨by omega, rfl⟩]
  rfl

/-- A short text is kept. -/
theorem varchar_of_le {n : Nat} {t : Text} (h : t.length ≤ n) : varchar n t = some t := by
  unfold varchar
  rw [List.drop_eq_nil_of_le h, List.take_of_length_le h]
  rfl

theorem itemError_eq_none {x : ItemDraft} (hexp : x.unitPrice.exponent = -2) :
    itemError x = none ↔ (varchar 150 x.productName).isSome = true ∧ ItemOk x := by
  obtain ⟨pid, name, ⟨c, e⟩, q, attrs⟩ := x
  obtain rfl : e = -2 := hexp
  unfold itemError
  dsimp only
  constructor
  · intro h
    split at h
    · exact absurd h (by simp)
    · next hname =>
      split at h
      · exact absurd h (by simp)
      · next n hn =>
        obtain ⟨hlt, rfl⟩ := numeric_eq_some.mp hn
        split at h
        · exact absurd h (by simp)
        · next h0 =>
          split at h
          · exact absurd h (by simp)
          · next hq =>
            refine ⟨?_, ⟨c, rfl, by omega, by omega⟩, by dsimp only; omega⟩
            simpa [Option.isSome_iff_ne_none] using hname
  · rintro ⟨hname, ⟨c', hc, h0, hlt⟩, hq, hq'⟩
    obtain rfl : c = c' := congrArg Decimal.coefficient hc
    have hn : numeric ⟨c, -2⟩ = some c := numeric_eq_some.mpr ⟨by omega, rfl⟩
    dsimp only at hname hq hq'
    rw [if_neg (by simpa [Option.isSome_iff_ne_none] using hname), hn]
    dsimp only
    rw [if_neg (by omega), if_neg (by omega)]

theorem orderError_eq_none {d : Draft} {total : Int} (htotal : d.totalAmount = ⟨total, -2⟩) :
    orderError d = none ↔
      (0 ≤ total ∧ total < 10 ^ 10) ∧ (varchar 3 d.currency).isSome = true := by
  unfold orderError
  rw [htotal]
  constructor
  · intro h
    split at h
    · exact absurd h (by simp)
    · next n hn =>
      obtain ⟨hlt, rfl⟩ := numeric_eq_some.mp hn
      split at h
      · exact absurd h (by simp)
      · next hcur =>
        split at h
        · exact absurd h (by simp)
        · next h0 =>
          exact ⟨⟨by omega, by omega⟩, by simpa [Option.isSome_iff_ne_none] using hcur⟩
  · rintro ⟨⟨h0, hlt⟩, hcur⟩
    have hn : numeric ⟨total, -2⟩ = some total := numeric_eq_some.mpr ⟨by omega, rfl⟩
    rw [hn]
    dsimp only
    rw [if_neg (by simpa [Option.isSome_iff_ne_none] using hcur), if_neg (by omega)]

/-- Every item was made for a line. -/
theorem exists_line {found : List Product} {lines : List OrderItemIn} {items : List ItemDraft}
    (h : List.Forall₂ (fun line x => itemOf found line = .ok x) lines items) {x : ItemDraft}
    (hx : x ∈ items) : ∃ line ∈ lines, itemOf found line = .ok x := by
  induction h with
  | nil => exact absurd hx List.not_mem_nil
  | cons hline _ ih =>
    rcases List.mem_cons.mp hx with rfl | hx
    · exact ⟨_, List.mem_cons_self .., hline⟩
    · obtain ⟨line, hmem, hline⟩ := ih hx
      exact ⟨line, List.mem_cons_of_mem _ hmem, hline⟩

/-- The items of a draft have prices with two places. -/
theorem exponent_of_itemOf {found : List Product} {line : OrderItemIn} {x : ItemDraft}
    (h : itemOf found line = .ok x) : x.unitPrice.exponent = -2 := by
  obtain ⟨-, -, -, -, -, -, -, rfl⟩ := itemOf_ok.mp h
  rfl

/-- **The total of a draft with sound items** is the sum of their amounts. -/
theorem total_of_buildOrder {found : List Product} {user : User} {payload : OrderCreate} {d : Draft}
    (h : buildOrder found user payload = .ok d) (hitems : ∀ x ∈ d.items, ItemOk x) :
    d.totalAmount = ⟨(d.items.map ItemDraft.cents).sum, -2⟩ := by
  obtain ⟨_, items, -, hlines, rfl⟩ := buildOrder_ok.mp h
  have hlen := payload.items_length.2
  rw [hlines.length_eq] at hlen
  dsimp only at hitems
  have htotal := totalFrom_eq hitems (le_refl 0) (by unfold precision; omega)
  rw [zero_add] at htotal
  exact htotal

/-- No value of the draft is refused before its columns are looked at. -/
structure Draft.Sent (env : Env) (d : Draft) : Prop where
  currency : storable d.currency = true
  items : ∀ x ∈ d.items, x.refused env = false

/-- The flush comes to the columns when the values are sent. -/
theorem Draft.Sent.saveError_eq {env : Env} {d : Draft} (h : d.Sent env) :
    saveError env d = (orderError d).or (d.items.findSome? itemError) := by
  have hitems : d.items.any (·.refused env) = false := by
    rw [List.any_eq_false]
    exact fun x hx => by simpa using h.items x hx
  unfold saveError
  rw [if_neg (by rw [h.currency]; decide), hitems, if_neg (by decide)]
  cases orderError d <;> rfl

theorem sent_of_saveError {env : Env} {d : Draft} (h : saveError env d = none) : d.Sent env := by
  unfold saveError at h
  split at h
  · exact absurd h (by simp)
  · next hcur =>
    split at h
    · exact absurd h (by simp)
    · split at h
      · exact absurd h (by simp)
      · next hany =>
        refine ⟨by simpa using hcur, fun x hx => ?_⟩
        have hall := List.any_eq_false.mp (Bool.eq_false_of_not_eq_true hany)
        simpa using hall x hx

/-- What the columns hold is refused for a value that is not sent, or not at all. -/
theorem saveError_of_columns {env : Env} {d : Draft} (horder : orderError d = none)
    (hitems : ∀ x ∈ d.items, itemError x = none) :
    saveError env d = none ∨ saveError env d = some .dataError := by
  unfold saveError
  rw [horder, List.findSome?_eq_none_iff.mpr hitems]
  dsimp only
  split
  · exact .inr rfl
  · split
    · exact .inr rfl
    · exact .inl rfl

/-- **The columns hold a draft** when each item is sound and the total fits. -/
theorem columns_hold {found : List Product} {user : User} {payload : OrderCreate} {d : Draft}
    (h : buildOrder found user payload = .ok d) :
    (orderError d = none ∧ ∀ x ∈ d.items, itemError x = none) ↔
      (∀ x ∈ d.items, (varchar 150 x.productName).isSome = true ∧ ItemOk x) ∧
      (d.items.map ItemDraft.cents).sum < 10 ^ 10 ∧ (varchar 3 d.currency).isSome = true := by
  have hexp : ∀ x ∈ d.items, x.unitPrice.exponent = -2 := by
    obtain ⟨_, items, -, hlines, rfl⟩ := buildOrder_ok.mp h
    intro x hx
    obtain ⟨line, -, hline⟩ := exists_line hlines hx
    exact exponent_of_itemOf hline
  have hall : (∀ x ∈ d.items, itemError x = none) ↔
      ∀ x ∈ d.items, (varchar 150 x.productName).isSome = true ∧ ItemOk x :=
    forall₂_congr fun x hx => itemError_eq_none (hexp x hx)
  rw [hall]
  constructor
  · rintro ⟨horder, hitems⟩
    have htotal := total_of_buildOrder h fun x hx => (hitems x hx).2
    obtain ⟨⟨-, hlt⟩, hcur⟩ := (orderError_eq_none htotal).mp horder
    exact ⟨hitems, hlt, hcur⟩
  · rintro ⟨hitems, hlt, hcur⟩
    have hok : ∀ x ∈ d.items, ItemOk x := fun x hx => (hitems x hx).2
    have htotal := total_of_buildOrder h hok
    exact ⟨(orderError_eq_none htotal).mpr ⟨⟨sum_cents_nonneg hok, hlt⟩, hcur⟩, hitems⟩

/-- **A draft is saved** when its values are sent and the columns hold it. -/
theorem saveError_eq_none {env : Env} {found : List Product} {user : User} {payload : OrderCreate}
    {d : Draft} (h : buildOrder found user payload = .ok d) :
    saveError env d = none ↔ d.Sent env ∧
      (∀ x ∈ d.items, (varchar 150 x.productName).isSome = true ∧ ItemOk x) ∧
      (d.items.map ItemDraft.cents).sum < 10 ^ 10 ∧ (varchar 3 d.currency).isSome = true := by
  rw [← columns_hold h]
  constructor
  · intro hsave
    have hsent := sent_of_saveError hsave
    rw [hsent.saveError_eq, Option.or_eq_none_iff, List.findSome?_eq_none_iff] at hsave
    exact ⟨hsent, hsave⟩
  · rintro ⟨hsent, hcolumns⟩
    rw [hsent.saveError_eq, Option.or_eq_none_iff, List.findSome?_eq_none_iff]
    exact hcolumns

/-! ## The whole call -/

@[simp] theorem call_eq_ok {α : Type} {fails : Option Call} {c : Call} {x : Except Raised α} {a : α} :
    call fails c x = .ok a ↔ fails ≠ some c ∧ x = .ok a := by
  unfold call
  split
  · next h => simp [h]
  · next h => simp [h]

theorem call_eq_error {α : Type} {fails : Option Call} {c : Call} {x : Except Raised α}
    {e : Raised} : call fails c x = .error e ↔
      (fails = some c ∧ e = .lost c) ∨ (fails ≠ some c ∧ x = .error e) := by
  unfold call
  split
  · next h => simp [h, eq_comm]
  · next h => simp [h]

@[simp] theorem call_none {α : Type} (c : Call) (x : Except Raised α) : call none c x = x := rfl

/-- The documents that the `find` of a call returns. -/
def Catalogue.foundFor (products : Catalogue) (payload : OrderCreate) : List Product :=
  products.find (payload.items.map OrderItemIn.oid)

section Cases

variable {env : Env} {rows : List Reservation} {products : Catalogue} {now : Int} {t : Till}
  {user : User} {payload : OrderCreate} {fails : Option Call} {d : Draft}

theorem readRestaurant_ok : readRestaurant env payload = .ok () ↔
    fitsBigint payload.restaurantId = true ∧ ∃ r, env.restaurant payload.restaurantId = some r := by
  unfold readRestaurant
  split
  · next h => simp [h]
  · next h =>
    cases hr : env.restaurant payload.restaurantId with
    | none => simp
    | some r => simpa using h

theorem readReservation_ok {id : Nat} : readReservation rows user id = .ok () ↔
    fitsBigint id = true ∧
      ∃ r, Store.lookup reservations rows id = some r ∧ loads r = true ∧ r.userId = user.id := by
  unfold readReservation
  split
  · next h => simp [h]
  · next h =>
    cases hr : Store.lookup reservations rows id with
    | none => simp
    | some r =>
      have h' : fitsBigint id = true := by simpa using h
      by_cases hl : loads r = true <;> by_cases hu : r.userId = user.id <;> simp [hl, hu, h']

/-- **The draft is made** when every read and every check goes well. -/
theorem prepare_ok : prepare env rows products user payload fails = .ok d ↔
    (fails ≠ some .restaurant ∧ readRestaurant env payload = .ok ()) ∧
    (∀ id, payload.reservationId = some id →
      fails ≠ some .reservation ∧ readReservation rows user id = .ok ()) ∧
    fails ≠ some .products ∧ checkProducts (products.foundFor payload) payload = .ok () ∧
    buildOrder (products.foundFor payload) user payload = .ok d := by
  have hreservation : (payload.reservationId.elim (.ok ()) fun id =>
        call fails .reservation (readReservation rows user id)) = .ok () ↔
      ∀ id, payload.reservationId = some id →
        fails ≠ some .reservation ∧ readReservation rows user id = .ok () := by
    cases payload.reservationId with
    | none => simp
    | some id => simp
  rw [← hreservation, ← call_eq_ok]
  unfold prepare
  rw [mapM_objectId]
  split
  · next e h1 => simp [h1]
  · next h1 =>
    split
    · next e h2 => simp [h2]
    · next h2 =>
      dsimp only
      split
      · next e h3 =>
        have hf : fails = some .products := by
          unfold call at h3
          split at h3
          · assumption
          · exact absurd h3 (by simp)
        simp [hf]
      · next found h3 =>
        obtain ⟨hf, hfound⟩ := call_eq_ok.mp h3
        obtain rfl := Except.ok.inj hfound
        split
        · next e h4 => simp [Catalogue.foundFor, h4]
        · next h4 => simp [Catalogue.foundFor, h1, h2, hf, h4]

/-! ### Refusals -/

/-- If it is a refusal, it has one of the documented statuses. -/
def Documented (e : Raised) : Prop := ∀ x, e = .refused x → x.status ∈ [400, 403, 404, 409]

theorem readRestaurant_error {e : Raised} (h : readRestaurant env payload = .error e) :
    Documented e := by
  rintro x rfl
  unfold readRestaurant at h
  split at h
  · exact absurd h (by simp)
  · split at h
    · obtain rfl := Raised.refused.inj (Except.error.inj h)
      decide
    · exact absurd h (by simp)

theorem readReservation_error {id : Nat} {e : Raised}
    (h : readReservation rows user id = .error e) : Documented e := by
  rintro x rfl
  unfold readReservation at h
  split at h
  · exact absurd h (by simp)
  · split at h
    · obtain rfl := Raised.refused.inj (Except.error.inj h)
      decide
    · split at h
      · exact absurd h (by simp)
      · split at h
        · obtain rfl := Raised.refused.inj (Except.error.inj h)
          decide
        · exact absurd h (by simp)

theorem checkProducts_error {found : List Product} {e : Raised}
    (h : checkProducts found payload = .error e) : Documented e := by
  rintro x rfl
  unfold checkProducts at h
  split at h
  · obtain rfl := Raised.refused.inj (Except.error.inj h)
    simp
  · split at h
    · obtain rfl := Raised.refused.inj (Except.error.inj h)
      simp
    · split at h
      · obtain rfl := Raised.refused.inj (Except.error.inj h)
        simp
      · exact absurd h (by simp)

/-- The draft itself is never refused. -/
theorem itemOf_error {found : List Product} {line : OrderItemIn} {e : Raised}
    (h : itemOf found line = .error e) (x : HTTPException) : e ≠ .refused x := by
  rintro rfl
  unfold itemOf at h
  split at h
  · exact absurd h (by simp)
  · split at h
    · exact absurd h (by simp)
    · split at h
      · exact absurd h (by simp)
      · split at h
        · exact absurd h (by simp)
        · exact absurd h (by simp)

theorem addLines_error {found : List Product} {lines : List OrderItemIn} {e : Raised} :
    ∀ {total : Decimal} {items : List ItemDraft},
      addLines found total items lines = .error e → ∀ x, e ≠ .refused x := by
  induction lines with
  | nil =>
    intro total items h
    exact absurd h (by simp [addLines])
  | cons line rest ih =>
    intro total items h
    unfold addLines at h
    split at h
    · next e' he =>
      obtain rfl := Except.error.inj h
      exact itemOf_error he
    · exact ih h

theorem buildOrder_error {found : List Product} {e : Raised}
    (h : buildOrder found user payload = .error e) (x : HTTPException) : e ≠ .refused x := by
  unfold buildOrder at h
  split at h
  · rw [← Except.error.inj h]
    simp
  · split at h
    · next e' he =>
      obtain rfl := Except.error.inj h
      exact addLines_error he x
    · exact absurd h (by simp)

/-- A call that fails is no refusal. -/
theorem call_error {α : Type} {c : Call} {x : Except Raised α} {e : Raised}
    (h : call fails c x = .error e) (hx : ∀ e, x = .error e → Documented e) : Documented e := by
  rcases call_eq_error.mp h with ⟨-, rfl⟩ | ⟨-, he⟩
  · exact fun y hy => absurd hy (by simp)
  · exact hx e he

theorem prepare_error {e : Raised} (h : prepare env rows products user payload fails = .error e) :
    Documented e := by
  unfold prepare at h
  rw [mapM_objectId] at h
  split at h
  · next e' he =>
    obtain rfl := Except.error.inj h
    exact call_error he fun _ => readRestaurant_error
  · split at h
    · next e' he =>
      obtain rfl := Except.error.inj h
      cases hid : payload.reservationId with
      | none =>
        rw [hid] at he
        exact absurd he (by simp)
      | some id =>
        rw [hid] at he
        exact call_error he fun _ => readReservation_error
    · dsimp only at h
      split at h
      · next e' he =>
        obtain rfl := Except.error.inj h
        exact call_error he fun _ hx => absurd hx (by simp)
      · split at h
        · next e' he =>
          obtain rfl := Except.error.inj h
          exact checkProducts_error he
        · exact fun x hx => absurd hx (buildOrder_error h x)

/-! ### What a call can do -/

/-- The ways a call of `create_order` ends. -/
inductive Ending (env : Env) (rows : List Reservation) (products : Catalogue) (now : Int) (t : Till)
    (user : User) (payload : OrderCreate) (fails : Option Call) :
    Outcome Till (Order × List OrderItem) → Prop
  | unprepared {e : Raised} : prepare env rows products user payload fails = .error e →
      Ending env rows products now t user payload fails ⟨t, false, .error e⟩
  | unsaved {d : Draft} {e : Raised} : prepare env rows products user payload fails = .ok d →
      e = .lost .commit ∧ fails = some .commit ∨
        (∃ x, e = .save x ∧ saveError env d = some x) ∧ fails ≠ some .commit →
      Ending env rows products now t user payload fails ⟨t, false, .error e⟩
  | unread {d : Draft} : prepare env rows products user payload fails = .ok d →
      saveError env d = none → fails = some .refresh →
      Ending env rows products now t user payload fails
        ⟨t.saved d now, true, .error (.lost .refresh)⟩
  | stored {d : Draft} : prepare env rows products user payload fails = .ok d →
      saveError env d = none → fails ≠ some .commit → fails ≠ some .refresh →
      Ending env rows products now t user payload fails
        ⟨(t.saved d now).reported fails user (t.orderOf d now) (t.itemsOf d) now, true,
          .ok (t.orderOf d now, t.itemsOf d)⟩

theorem createOrder_cases : Ending env rows products now t user payload fails
    (createOrder env rows products now t user payload fails) := by
  unfold createOrder
  split
  · next e h => exact .unprepared h
  · next d h =>
    unfold call
    split
    · next e he =>
      split at he
      · next hf =>
        rw [← Except.error.inj he]
        exact .unsaved h (Or.inl ⟨rfl, hf⟩)
      · exact absurd he (by simp)
    · next e he =>
      split at he
      · exact absurd he (by simp)
      · next hf => exact .unsaved h (Or.inr ⟨⟨e, rfl, Except.ok.inj he⟩, hf⟩)
    · next he =>
      split at he
      · exact absurd he (by simp)
      · next hf =>
        have hsave := Except.ok.inj he
        by_cases hr : fails = some .refresh
        · simp only [hr, if_true]
          exact .unread (hr ▸ h) hsave rfl
        · simp only [hr, if_false]
          exact .stored h hsave hf hr

end Cases

/-! ## What is stored -/

/-- Every price is a decimal with at most two places. -/
def Catalogue.Priced (products : Catalogue) : Prop :=
  ∀ p ∈ products.products, ∀ price, p.price = some price → ∃ n : Int, price.value = (n : ℚ) / 100

/-- `item` is what the order `o` stores for `line`. -/
structure Bought (products : Catalogue) (o : Order) (line : OrderItemIn) (item : OrderItem) :
    Prop where
  orderId : item.orderId = o.id
  productId : item.productId = line.productId
  quantity : item.quantity = line.quantity
  selectedAttributes : item.selectedAttributes = line.selectedAttributes
  product : ∃ p ∈ products.products, p.id.hex = line.productId ∧
    p.restaurantId = some o.restaurantId ∧ p.isAvailable = some true ∧
    p.name = some item.productName ∧
    ∃ price, p.price = some price ∧ price.value = (item.unitPrice : ℚ) / 100

/-- `o` with `items` is the order that `payload` asks for. -/
structure Fulfilled (products : Catalogue) (user : User) (payload : OrderCreate) (o : Order)
    (items : List OrderItem) : Prop where
  status : o.status = .placed
  userId : o.userId = user.id
  restaurantId : o.restaurantId = payload.restaurantId
  reservationId : o.reservationId = payload.reservationId
  lines : List.Forall₂ (Bought products o) payload.items items
  total : o.totalAmount = (items.map fun x => x.unitPrice * x.quantity).sum

/-- A price with two places is not rounded. -/
theorem cents_value {price : Decimal} {n : Int} (h : price.value = (n : ℚ) / 100) :
    cents price = n := by
  refine Decimal.rescale_eq Decimal.exact_halfEven ?_
  rw [h, show ((10 : ℚ) ^ (-2 : Int)) = 1 / 100 by norm_num, mul_one_div]

theorem toNat_cents {x : ItemDraft} (h : ItemOk x) (orderId id : Nat) :
    (((x.item orderId id).unitPrice * (x.item orderId id).quantity : Nat) : Int) = x.cents := by
  obtain ⟨c, hc, h0, hlt⟩ := h.price
  unfold ItemDraft.item ItemDraft.cents
  dsimp only
  rw [hc, hundredths_eq h0 hlt, Nat.cast_mul, Int.toNat_of_nonneg h0]

/-- **The total of the rows** is that of the items. -/
theorem sum_itemRows {items : List ItemDraft} (h : ∀ x ∈ items, ItemOk x) (orderId : Nat) :
    ∀ id, ((((itemRows orderId id items).map fun x => x.unitPrice * x.quantity).sum : Nat) : Int)
      = (items.map ItemDraft.cents).sum := by
  induction items with
  | nil => exact fun _ => rfl
  | cons x xs ih =>
    intro id
    rw [itemRows, List.map_cons, List.sum_cons, List.map_cons, List.sum_cons, Nat.cast_add,
      toNat_cents (h x (List.mem_cons_self ..)),
      ih (fun y hy => h y (List.mem_cons_of_mem _ hy)) (id + 1)]

section Stored

variable {env : Env} {rows : List Reservation} {products : Catalogue} {now : Int} {t : Till}
  {user : User} {payload : OrderCreate} {fails : Option Call} {d : Draft}

/-- **One line** is stored with the name and the price of its product. -/
theorem bought (hprices : products.Priced)
    (hcheck : checkProducts (products.foundFor payload) payload = .ok ()) {line : OrderItemIn}
    {x : ItemDraft} (hline : itemOf (products.foundFor payload) line = .ok x) (hx : ItemOk x)
    {o : Order} (ho : o.restaurantId = payload.restaurantId) (id : Nat) :
    Bought products o line (x.item o.id id) := by
  obtain ⟨p, price, name, hp, hprice, hname, -, rfl⟩ := itemOf_ok.mp hline
  obtain ⟨hfound, hid⟩ := lookup_some hp
  obtain ⟨hrestaurant, havailable⟩ := (checkProducts_ok.mp hcheck).2 p hfound
  have hmem := (mem_found.mp hfound).1
  refine ⟨rfl, rfl, rfl, rfl, p, hmem, hid, ?_, havailable, ?_, price, hprice, ?_⟩
  · rw [hrestaurant, ho]
  · unfold ItemDraft.item
    dsimp only
    rw [varchar_of_le (p.name_length name hname), hname]
    rfl
  · obtain ⟨n, hn⟩ := hprices p hmem price hprice
    obtain ⟨c, hc, h0, hlt⟩ := hx.price
    obtain rfl : cents price = c := congrArg Decimal.coefficient hc
    have hnat : ((cents price).toNat : ℚ) = cents price := by exact_mod_cast Int.toNat_of_nonneg h0
    unfold ItemDraft.item
    dsimp only
    rw [hundredths_eq h0 hlt, hnat, cents_value hn, hn]

/-- **The lines** are stored in order. -/
theorem bought_rows (hprices : products.Priced)
    (hcheck : checkProducts (products.foundFor payload) payload = .ok ()) {o : Order}
    (ho : o.restaurantId = payload.restaurantId) {lines : List OrderItemIn}
    {items : List ItemDraft}
    (hlines : List.Forall₂ (fun line x => itemOf (products.foundFor payload) line = .ok x)
      lines items) :
    (∀ x ∈ items, ItemOk x) → ∀ id, List.Forall₂ (Bought products o) lines (itemRows o.id id items)
    := by
  induction hlines with
  | nil => exact fun _ _ => .nil
  | cons hline _ ih =>
    intro h id
    exact .cons (bought hprices hcheck hline (h _ (List.mem_cons_self ..)) ho id)
      (ih (fun y hy => h y (List.mem_cons_of_mem _ hy)) (id + 1))

/-- **A draft that is saved** is the order asked for. -/
theorem fulfilled (hprices : products.Priced)
    (hd : prepare env rows products user payload fails = .ok d) (hsave : saveError env d = none) :
    Fulfilled products user payload (t.orderOf d now) (t.itemsOf d) := by
  obtain ⟨-, -, -, hcheck, hbuild⟩ := prepare_ok.mp hd
  obtain ⟨-, hitems, hlt, -⟩ := (saveError_eq_none hbuild).mp hsave
  have hok : ∀ x ∈ d.items, ItemOk x := fun x hx => (hitems x hx).2
  have htotal := total_of_buildOrder hbuild hok
  have hsum := sum_itemRows hok t.shop.nextId t.nextItem
  obtain ⟨doc, items, -, hlines, rfl⟩ := buildOrder_ok.mp hbuild
  refine ⟨rfl, rfl, rfl, rfl, bought_rows hprices hcheck rfl hlines hok _, ?_⟩
  show hundredths (totalFrom zero items) = _
  rw [show totalFrom zero items = _ from htotal, hundredths_eq (sum_cents_nonneg hok) hlt]
  rw [← hsum, Int.toNat_natCast]
  rfl

end Stored

@[simp] theorem reported_shop (t : Till) (fails : Option Call) (user : User) (o : Order)
    (items : List OrderItem) (now : Int) :
    (t.reported fails user o items now).shop = t.shop := by
  unfold Till.reported
  split <;> rfl

@[simp] theorem reported_items (t : Till) (fails : Option Call) (user : User) (o : Order)
    (items : List OrderItem) (now : Int) :
    (t.reported fails user o items now).items = t.items := by
  unfold Till.reported
  split <;> rfl

/-- **`create_order` is exact, and stores nothing when it refuses.** -/
theorem create_order_exact (env : Env) (rows : List Reservation) (products : Catalogue) (now : Int)
    (t : Till) (user : User) (payload : OrderCreate) (fails : Option Call)
    (hprices : products.Priced) :
    (∀ o items, (createOrder env rows products now t user payload fails).result = .ok (o, items) →
      (createOrder env rows products now t user payload fails).state.shop.orders
        = t.shop.orders ++ [o] ∧
      (createOrder env rows products now t user payload fails).state.items = t.items ++ items ∧
      Fulfilled products user payload o items) ∧
    ∀ e, (createOrder env rows products now t user payload fails).result = .error (.refused e) →
      e.status ∈ [400, 403, 404, 409] ∧
      (createOrder env rows products now t user payload fails).state = t := by
  have hcases : Ending env rows products now t user payload fails
    (createOrder env rows products now t user payload fails) := createOrder_cases
  generalize createOrder env rows products now t user payload fails = out at hcases ⊢
  constructor
  · intro o items hres
    cases hcases with
    | unprepared _ => exact absurd hres (by simp)
    | unsaved _ _ => exact absurd hres (by simp)
    | unread _ _ _ => exact absurd hres (by simp)
    | stored hd hsave _ _ =>
      obtain ⟨rfl, rfl⟩ := Prod.mk.inj (Except.ok.inj hres)
      refine ⟨?_, ?_, fulfilled hprices hd hsave⟩
      · rw [reported_shop]
        rfl
      · rw [reported_items]
        rfl
  · intro e hres
    cases hcases with
    | unprepared he =>
      obtain rfl := Except.error.inj hres
      exact ⟨prepare_error he e rfl, rfl⟩
    | unsaved _ he =>
      obtain rfl := Except.error.inj hres
      rcases he with ⟨he, -⟩ | ⟨⟨x, he, -⟩, -⟩
      · exact absurd he (by simp)
      · exact absurd he (by simp)
    | unread _ _ _ => exact absurd hres (by simp)
    | stored _ _ _ _ => exact absurd hres (by simp)

/-! ## When an order is stored -/

/-- A product of the restaurant that can be ordered. -/
structure Sellable (restaurantId : Nat) (p : Product) : Prop where
  restaurantId : p.restaurantId = some restaurantId
  isAvailable : p.isAvailable = some true
  name : ∃ n, p.name = some n ∧ storable n = true
  price : ∃ price, p.price = some price ∧ 0 ≤ cents price ∧ cents price < 10 ^ 10

/-- The price of a product in hundredths. -/
def Product.cents (p : Product) : Int := p.price.elim 0 Checkout.cents

/-- The price of the product with this id, in hundredths. -/
def Catalogue.cents (products : Catalogue) (pid : Text) : Int :=
  (lookup products.products pid).elim 0 Product.cents

/-- **The orders that are stored**: the restaurant and the reservation are there, each line names
    one of the restaurant's products as the catalogue spells its id, and the columns hold the
    values. -/
structure Orderable (env : Env) (rows : List Reservation) (products : Catalogue) (user : User)
    (payload : OrderCreate) : Prop where
  restaurant : fitsBigint payload.restaurantId = true ∧
    ∃ r, env.restaurant payload.restaurantId = some r
  reservation : ∀ id, payload.reservationId = some id → fitsBigint id = true ∧
    ∃ r, Store.lookup reservations rows id = some r ∧ loads r = true ∧ r.userId = user.id
  lines : ∀ line ∈ payload.items, ∃ p ∈ products.products, p.id.hex = line.productId ∧
    Sellable payload.restaurantId p
  attributes : ∀ line ∈ payload.items, ∀ a, line.selectedAttributes = some a → env.jsonb a = true
  currency : ∀ p ∈ products.products, p.id.hex = payload.first.productId →
    (varchar 3 (p.currency.getD "THB".toList)).isSome = true ∧
      storable (p.currency.getD "THB".toList) = true
  total : (payload.items.map fun line => products.cents line.productId * line.quantity).sum < 10 ^ 10

theorem OrderCreate.first_mem (payload : OrderCreate) : payload.first ∈ payload.items :=
  List.head_mem _

/-- The catalogue has at most one product with an id. -/
theorem Catalogue.lookup_mem {products : Catalogue} {p : Product} (hp : p ∈ products.products) :
    lookup products.products p.id.hex = some p := by
  obtain ⟨p', hp'⟩ : ∃ p', lookup products.products p.id.hex = some p' :=
    Option.isSome_iff_exists.mp (List.find?_isSome.mpr ⟨p, hp, by simp⟩)
  obtain ⟨hmem, hid⟩ := lookup_some hp'
  rw [hp', List.inj_on_of_nodup_map products.ids hmem hp (ObjectId.eq_of_hex hid)]

theorem Catalogue.cents_eq {products : Catalogue} {p : Product} (hp : p ∈ products.products)
    {pid : Text} (hid : p.id.hex = pid) {price : Decimal} (hprice : p.price = some price) :
    products.cents pid = Checkout.cents price := by
  unfold Catalogue.cents Product.cents
  rw [← hid, Catalogue.lookup_mem hp]
  simp [hprice]

/-- Lines that all have an item have a list of items. -/
theorem exists_items {found : List Product} {lines : List OrderItemIn}
    (h : ∀ line ∈ lines, ∃ x, itemOf found line = .ok x) :
    ∃ items, List.Forall₂ (fun line x => itemOf found line = .ok x) lines items := by
  induction lines with
  | nil => exact ⟨[], .nil⟩
  | cons line rest ih =>
    obtain ⟨x, hx⟩ := h line (List.mem_cons_self ..)
    obtain ⟨items, hitems⟩ := ih fun l hl => h l (List.mem_cons_of_mem _ hl)
    exact ⟨x :: items, .cons hx hitems⟩

/-- Every line has an item. -/
theorem exists_item {found : List Product} {lines : List OrderItemIn} {items : List ItemDraft}
    (h : List.Forall₂ (fun line x => itemOf found line = .ok x) lines items) {line : OrderItemIn}
    (hline : line ∈ lines) : ∃ x ∈ items, itemOf found line = .ok x := by
  induction h with
  | nil => exact absurd hline List.not_mem_nil
  | cons hx _ ih =>
    rcases List.mem_cons.mp hline with rfl | hline
    · exact ⟨_, List.mem_cons_self .., hx⟩
    · obtain ⟨x, hmem, hx⟩ := ih hline
      exact ⟨x, List.mem_cons_of_mem _ hmem, hx⟩

/-- The amount of an item is that of its line. -/
theorem sum_lines {products : Catalogue} {payload : OrderCreate} {lines : List OrderItemIn}
    {items : List ItemDraft}
    (h : List.Forall₂ (fun line x => itemOf (products.foundFor payload) line = .ok x) lines items) :
    (items.map ItemDraft.cents).sum
      = (lines.map fun line => products.cents line.productId * line.quantity).sum := by
  induction h with
  | nil => rfl
  | cons hx _ ih =>
    obtain ⟨p, price, name, hp, hprice, -, -, rfl⟩ := itemOf_ok.mp hx
    obtain ⟨hfound, hid⟩ := lookup_some hp
    rw [List.map_cons, List.sum_cons, List.map_cons, List.sum_cons, ih,
      Catalogue.cents_eq (mem_found.mp hfound).1 hid hprice]
    rfl

section Orderable

variable {env : Env} {rows : List Reservation} {products : Catalogue} {user : User}
  {payload : OrderCreate} {fails : Option Call}

/-- The lines of an order that is stored. -/
theorem sellable_of_saved {line : OrderItemIn} {x : ItemDraft}
    (hcheck : checkProducts (products.foundFor payload) payload = .ok ())
    (hx : itemOf (products.foundFor payload) line = .ok x) (hok : ItemOk x)
    (hsent : x.refused env = false) :
    ∃ p ∈ products.products, p.id.hex = line.productId ∧ Sellable payload.restaurantId p := by
  obtain ⟨p, price, name, hp, hprice, hname, -, rfl⟩ := itemOf_ok.mp hx
  have hstorable : storable name = true := (refused_eq_false.mp hsent).1
  obtain ⟨hfound, hid⟩ := lookup_some hp
  obtain ⟨hrestaurant, havailable⟩ := (checkProducts_ok.mp hcheck).2 p hfound
  obtain ⟨c, hc, h0, hlt⟩ := hok.price
  obtain rfl : cents price = c := congrArg Decimal.coefficient hc
  exact ⟨p, (mem_found.mp hfound).1, hid, hrestaurant, havailable, ⟨name, hname, hstorable⟩, price,
    hprice, h0, hlt⟩

/-- A line for a sellable product has a sound item. -/
theorem itemOf_sellable {line : OrderItemIn} (hline : line ∈ payload.items) {p : Product}
    (hp : p ∈ products.products) (hid : p.id.hex = line.productId)
    (hsell : Sellable payload.restaurantId p)
    (hattributes : ∀ a, line.selectedAttributes = some a → env.jsonb a = true) :
    ∃ x, itemOf (products.foundFor payload) line = .ok x ∧ x.refused env = false ∧
      (varchar 150 x.productName).isSome = true ∧ ItemOk x := by
  obtain ⟨name, hname, hstorable⟩ := hsell.name
  obtain ⟨price, hprice, h0, hlt⟩ := hsell.price
  refine ⟨_, itemOf_ok.mpr ⟨p, price, name, lookup_found hline hp hid, hprice, hname, ?_, rfl⟩,
    refused_eq_false.mpr ⟨hstorable, hattributes⟩, ?_, ⟨_, rfl, h0, hlt⟩, line.quantity_range⟩
  · unfold precision
    omega
  · rw [varchar_of_le (p.name_length name hname)]
    rfl

/-- The products found are those of the lines. -/
theorem sellable_of_found (h : Orderable env rows products user payload) {p : Product}
    (hp : p ∈ products.foundFor payload) : Sellable payload.restaurantId p := by
  obtain ⟨hmem, line, hline, hoid⟩ := mem_found.mp hp
  obtain ⟨p', hp', hid, hsell⟩ := h.lines line hline
  have heq : p'.id = p.id := by
    rw [← hoid]
    refine ObjectId.eq_of_hex ?_
    show p'.id.hex = line.productId.map Char.toLower
    rw [← hid, p'.id.hex_toLower]
  rw [← List.inj_on_of_nodup_map products.ids hp' hmem heq]
  exact hsell

/-- **An order gets past its commit exactly when it is orderable**, unless an earlier call fails. -/
theorem saves_iff (hrestaurant : fails ≠ some .restaurant) (hreservation : fails ≠ some .reservation)
    (hproducts : fails ≠ some .products) :
    (∃ d, prepare env rows products user payload fails = .ok d ∧ saveError env d = none) ↔
      Orderable env rows products user payload := by
  constructor
  · rintro ⟨d, hd, hsave⟩
    obtain ⟨⟨-, hr⟩, hres, -, hcheck, hbuild⟩ := prepare_ok.mp hd
    obtain ⟨hsent, hitems, hlt, hcur⟩ := (saveError_eq_none hbuild).mp hsave
    obtain ⟨doc, items, hdoc, hlines, rfl⟩ := buildOrder_ok.mp hbuild
    refine ⟨readRestaurant_ok.mp hr, fun id hid => readReservation_ok.mp (hres id hid).2, ?_, ?_, ?_,
      ?_⟩
    · intro line hline
      obtain ⟨x, hmem, hx⟩ := exists_item hlines hline
      exact sellable_of_saved hcheck hx (hitems x hmem).2 (hsent.items x hmem)
    · intro line hline a ha
      obtain ⟨x, hmem, hx⟩ := exists_item hlines hline
      obtain ⟨_, _, _, -, -, -, -, rfl⟩ := itemOf_ok.mp hx
      exact (refused_eq_false.mp (hsent.items _ hmem)).2 a ha
    · -- the currency is that of the first line's document, and there is only one with its id
      intro p hp hid
      obtain ⟨hfound, hid'⟩ := lookup_some hdoc
      obtain rfl := List.inj_on_of_nodup_map products.ids hp (mem_found.mp hfound).1
        (ObjectId.eq_of_hex (hid.trans hid'.symm))
      exact ⟨hcur, hsent.currency⟩
    · rw [← sum_lines hlines]
      exact hlt
  · intro h
    have hitem : ∀ line ∈ payload.items, ∃ x,
        itemOf (products.foundFor payload) line = .ok x ∧ x.refused env = false ∧
          (varchar 150 x.productName).isSome = true ∧ ItemOk x := by
      intro line hline
      obtain ⟨p, hp, hid, hsell⟩ := h.lines line hline
      exact itemOf_sellable hline hp hid hsell (h.attributes line hline)
    obtain ⟨items, hlines⟩ := exists_items fun line hline =>
      (hitem line hline).imp fun _ hx => hx.1
    obtain ⟨p, hp, hid, -⟩ := h.lines payload.first payload.first_mem
    have hbuild : buildOrder (products.foundFor payload) user payload = .ok _ :=
      buildOrder_ok.mpr ⟨p, items, lookup_found payload.first_mem hp hid, hlines, rfl⟩
    refine ⟨_, prepare_ok.mpr ⟨⟨hrestaurant, readRestaurant_ok.mpr h.restaurant⟩,
      fun id hid => ⟨hreservation, readReservation_ok.mpr (h.reservation id hid)⟩, hproducts,
      checkProducts_ok.mpr ⟨?_, ?_⟩, hbuild⟩,
      (saveError_eq_none hbuild).mpr ⟨⟨(h.currency p hp hid).2, ?_⟩, ?_, ?_,
        (h.currency p hp hid).1⟩⟩
    · intro line hline
      obtain ⟨p, hp, hid, -⟩ := h.lines line hline
      exact Option.isSome_iff_exists.mpr ⟨p, lookup_found hline hp hid⟩
    · intro p hp
      have hsell := sellable_of_found h hp
      exact ⟨hsell.restaurantId, hsell.isAvailable⟩
    · intro x hx
      obtain ⟨line, hline, hx⟩ := exists_line hlines hx
      obtain ⟨x', hx', hsent, -⟩ := hitem line hline
      obtain rfl := Except.ok.inj (hx.symm.trans hx')
      exact hsent
    · intro x hx
      obtain ⟨line, hline, hx⟩ := exists_line hlines hx
      obtain ⟨x', hx', -, hok⟩ := hitem line hline
      obtain rfl := Except.ok.inj (hx.symm.trans hx')
      exact hok
    · rw [sum_lines hlines]
      exact h.total

end Orderable

/-! ### A small menu -/

/-- A line that orders the product `o`. -/
def ObjectId.line (o : ObjectId) (quantity : Nat) (h : 0 < quantity ∧ quantity ≤ 50) :
    OrderItemIn where
  productId := o.hex
  quantity := quantity
  selectedAttributes := none
  productId_pattern := by
    have hall : "0123456789abcdef".toList.all isHexDigit = true := by decide
    refine ⟨o.length, List.all_eq_true.mpr fun c hc => ?_⟩
    have hlower := List.all_eq_true.mp o.digits c hc
    exact List.all_eq_true.mp hall c (List.contains_iff_mem.mp hlower)
  quantity_range := h

/-- The id of the curry. -/
def curryId : ObjectId := ⟨"665f1a2b9c4e5d6f7a8b9c01".toList, by decide, by decide⟩

/-- The id of the tea. -/
def teaId : ObjectId := ⟨"665f1a2b9c4e5d6f7a8b9c02".toList, by decide, by decide⟩

theorem short_name {name : Text} (h : name.length ≤ 150) (n : Text) (hn : some name = some n) :
    n.length ≤ 150 := by
  rw [← Option.some.inj hn]
  exact h

/-- 180.0 baht. -/
def curry : Product :=
  ⟨curryId, some 1, some "Green Curry".toList, some ⟨1800, -1⟩, some "THB".toList, some true,
    short_name (by decide)⟩

/-- 0.1 of a currency. -/
def tea (currency : Text) : Product :=
  ⟨teaId, some 1, some "Tea".toList, some ⟨1, -1⟩, some currency, some true,
    short_name (by decide)⟩

/-- A curry and a tea of one restaurant; the tea has a currency of its own. -/
def menu (currency : Text) : Catalogue :=
  ⟨[curry, tea currency], (by decide : [curryId, teaId].Nodup)⟩

/-- Nothing has been sold yet. -/
def emptyTill : Till := ⟨.start, [], 1, []⟩

/-- Two curries, a tea and another curry. -/
def lunchOrder (reservationId : Option Nat) (h : ∀ id, reservationId = some id → 0 < id) :
    OrderCreate where
  restaurantId := 1
  reservationId := reservationId
  items := [curryId.line 2 (by decide), teaId.line 1 (by decide), curryId.line 1 (by decide)]
  restaurantId_pos := by decide
  reservationId_pos := h
  items_length := by decide

theorem no_reservation (id : Nat) (h : none = some id) : 0 < id := absurd h (by simp)

theorem menu_priced (currency : Text) : (menu currency).Priced := by
  intro p hp price hprice
  rcases List.mem_cons.mp hp with rfl | hp
  · obtain rfl := Option.some.inj hprice
    exact ⟨18000, by norm_num [Decimal.value]⟩
  · obtain rfl := List.mem_singleton.mp hp
    obtain rfl := Option.some.inj hprice
    exact ⟨10, by norm_num [Decimal.value]⟩

/-- **Three curries and a tea** are an order of 540.10. -/
theorem lunchOrder_exact : ∃ o items,
    (createOrder sample [] (menu "THB".toList) 0 emptyTill customer
      (lunchOrder none no_reservation) none).result = .ok (o, items) ∧
    Fulfilled (menu "THB".toList) customer (lunchOrder none no_reservation) o items ∧
    o.totalAmount = 54010 := by
  obtain ⟨o, items, hres, htotal⟩ : ∃ o items,
      (createOrder sample [] (menu "THB".toList) 0 emptyTill customer
        (lunchOrder none no_reservation) none).result = .ok (o, items) ∧ o.totalAmount = 54010 :=
    ⟨_, _, rfl, by decide⟩
  obtain ⟨-, -, hful⟩ := (create_order_exact sample [] (menu "THB".toList) 0 emptyTill customer
    (lunchOrder none no_reservation) none (menu_priced _)).1 o items hres
  exact ⟨o, items, hres, hful, htotal⟩

end TableFlow.Checkout
