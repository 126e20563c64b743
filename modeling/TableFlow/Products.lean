/-
  Products: from the POST to the menu, to one product, and to the orders.

  1. **The code** — `create_product` and `get_product`, with every field of a product.  The database
     keeps the price as a double, and times in milliseconds without an offset.
  2. **A product comes back as it was posted**, whatever is created in between: all but its times,
     which are cut to milliseconds (`product_comes_back`).
  3. **An order charges the posted price**, though it reads it from a double
     (`posted_price_charged`).
  4. **The filter by price** compares doubles, and finds exactly the products whose price on the
     menu is in the range (`price_filter_exact`).
-/
import TableFlow.Accounts
import TableFlow.Prices
import TableFlow.Totals
import TableFlow.Paging

namespace TableFlow.Products

open Lib Checkout Prices
open TableFlow.Ordering (ProductCreate)

/-! ## The code -/

/-- `Literal["Starter", "Main", "Dessert", "Drink", "Side"]` -/
inductive Category
  | starter
  | main
  | dessert
  | drink
  | side
  deriving DecidableEq, Repr

/-- The text of the category. -/
def Category.value : Category → Text
  | .starter => "Starter".toList
  | .main => "Main".toList
  | .dessert => "Dessert".toList
  | .drink => "Drink".toList
  | .side => "Side".toList

/-- A validated product with all its fields. -/
structure NewProduct extends ProductCreate where
  description : Option Text
  category : Category
  /-- The JSON object, as text. -/
  attributes : Text
  description_length : ∀ d, description = some d → d.length ≤ 1000

/-- What is taken from MongoDB. -/
structure Bson where
  /-- The text index finds this name for this search. -/
  finds : (search name : Text) → Bool
  /-- The attributes can be stored: no whole number of more than 64 bits, no key with a NUL. -/
  encodable : Text → Bool
  /-- What a response shows of attributes that were stored; `none` when it cannot be made. -/
  decode : Text → Option Text

/-- The attributes are read back as they were stored.  A sub-document with `$ref` and `$id` is not:
    the driver makes a reference of it. -/
def Bson.Keeps (b : Bson) (attributes : Text) : Prop := b.decode attributes = some attributes

/-- The menu with its doubles. -/
def Bson.outside (b : Bson) : Paging.Outside := ⟨Double binary64, Double.le, float, decimal, b.finds⟩

/-- A document of `products` with all its fields; times are in milliseconds. -/
structure Stored (b : Bson) extends Paging.Document b.outside where
  description : Option Text
  attributes : Text
  createdAt : Int
  updatedAt : Int
  /-- `ProductCreate` lets no longer name into the collection. -/
  name_length : name.length ≤ 150

/-- The collection `products`. -/
structure Collection (b : Bson) where
  products : List (Stored b)
  ids : (products.map (·.id)).Nodup

/-- A `datetime`, in microseconds; only one that is aware has an offset. -/
structure Stamp where
  micros : Int
  aware : Bool
  deriving DecidableEq, Repr

/-- `ProductOut` -/
structure ProductOut where
  id : Text
  restaurantId : Nat
  name : Text
  description : Option Text
  category : Text
  price : Decimal
  currency : Text
  isAvailable : Bool
  attributes : Text
  createdAt : Option Stamp
  updatedAt : Option Stamp
  deriving DecidableEq, Repr

/-- The ways `create_product` and `get_product` fail. -/
inductive Failure
  | refused (e : HTTPException)
  /-- BSON cannot hold a value. -/
  | notEncodable
  | duplicateKey
  /-- The response cannot be made of what was read. -/
  | notSerializable
  deriving DecidableEq, Repr

section Code

variable {b : Bson}

/-- The document that is inserted; the driver cuts the times to milliseconds. -/
def NewProduct.stored (body : NewProduct) (id : ObjectId) (now : Int) : Stored b where
  id := id
  restaurantId := body.restaurantId
  name := body.name
  category := body.category.value
  price := float ⟨body.price, -2⟩
  currency := body.currency
  isAvailable := body.isAvailable
  description := body.description
  attributes := body.attributes
  createdAt := now / 1000
  updatedAt := now / 1000
  name_length := body.name_length.2

/-- `ProductOut.model_validate(doc)`, with the attributes and the times as the document has them. -/
def Stored.out (doc : Stored b) (attributes : Text) (createdAt updatedAt : Stamp) : ProductOut where
  id := doc.id.hex
  restaurantId := doc.restaurantId
  name := doc.name
  description := doc.description
  category := doc.category
  price := decimal doc.price
  currency := doc.currency
  isAvailable := doc.isAvailable
  attributes := attributes
  createdAt := some createdAt
  updatedAt := some updatedAt

/-- What is read back from the database. -/
def millis (t : Int) : Stamp := ⟨t * 1000, false⟩

/-- The document is inserted under an id that no other has. -/
def Collection.insert (c : Collection b) (doc : Stored b)
    (h : ∀ x ∈ c.products, x.id ≠ doc.id) : Collection b where
  products := c.products ++ [doc]
  ids := nodup_map_concat c.ids h

/-- The answer to the POST: the attributes as they were sent, and the times before the database has
    cut them. -/
def NewProduct.answer (b : Bson) (body : NewProduct) (id : ObjectId) (now : Int) : ProductOut :=
  (body.stored id now : Stored b).out body.attributes ⟨now, true⟩ ⟨now, true⟩

/-- `create_product`; the driver draws the id. -/
def createProduct (c : Collection b) (user : User) (body : NewProduct) (id : ObjectId) (now : Int) :
    Collection b × Except Failure ProductOut :=
  match Accounts.requireRole [.staff, .admin] user with
  | .error e => (c, .error (.refused e))
  | .ok _ =>
    if fitsBigint body.restaurantId = false ∨ b.encodable body.attributes = false then
      (c, .error .notEncodable)
    else if h : ∀ x ∈ c.products, x.id ≠ id then
      (c.insert (body.stored id now) h, .ok (body.answer b id now))
    else (c, .error .duplicateKey)

/-- `get_product` -/
def getProduct (c : Collection b) (productId : Text) : Except Failure ProductOut :=
  match objectId productId with
  | none => .error (.refused ⟨400, "Malformed product_id"⟩)
  | some oid =>
    match c.products.find? (·.id == oid) with
    | none => .error (.refused ⟨404, "Product not found"⟩)
    | some doc =>
      match b.decode doc.attributes with
      | none => .error .notSerializable
      | some attributes => .ok (doc.out attributes (millis doc.createdAt) (millis doc.updatedAt))

/-- What `list_products` reads of the collection. -/
def Collection.menu (c : Collection b) : Paging.Menu b.outside where
  products := c.products.map (·.toDocument)
  ids := by
    rw [List.map_map]
    exact c.ids

/-- What `create_order` reads of it. -/
def Stored.product (doc : Stored b) : Product where
  id := doc.id
  restaurantId := some doc.restaurantId
  name := some doc.name
  price := some (decimal doc.price)
  currency := some doc.currency
  isAvailable := some doc.isAvailable
  name_length := by
    intro n hn
    rw [← Option.some.inj hn]
    exact doc.name_length

/-- What `create_order` reads of the collection. -/
def Collection.catalogue (c : Collection b) : Catalogue where
  products := c.products.map Stored.product
  ids := by
    rw [List.map_map]
    exact c.ids

/-- A call of `create_product`. -/
structure Post where
  user : User
  body : NewProduct
  id : ObjectId
  now : Int

/-- Nothing but `create_product` writes the collection. -/
def kitchen (b : Bson) : Machine (Collection b) Post where
  step c l := some (createProduct c l.user l.body l.id l.now).1

/-- The empty collection. -/
def nothing (b : Bson) : Collection b := ⟨[], List.nodup_nil⟩

end Code

/-! ## What is stored -/

section Stored

variable {b : Bson} {c c' c'' : Collection b} {user : User} {body : NewProduct} {id : ObjectId}
  {now : Int} {out : ProductOut}

/-- **What `create_product` can do**: it inserts the product, or it leaves the collection alone. -/
theorem createProduct_cases (c : Collection b) (user : User) (body : NewProduct) (id : ObjectId)
    (now : Int) :
    (∃ h, createProduct c user body id now
        = (c.insert (body.stored id now) h, .ok (body.answer b id now)) ∧
      (user.role = .staff ∨ user.role = .admin)) ∨
    ∃ e, createProduct c user body id now = (c, .error e) := by
  unfold createProduct
  split
  · exact .inr ⟨_, rfl⟩
  · next hrole =>
    split
    · exact .inr ⟨_, rfl⟩
    · split
      · next h =>
        refine .inl ⟨h, rfl, ?_⟩
        unfold Accounts.requireRole at hrole
        split at hrole
        · next hmem => simpa using hmem
        · exact absurd hrole nofun
      · exact .inr ⟨_, rfl⟩

/-- A product that is created is in the collection. -/
theorem createProduct_ok (h : createProduct c user body id now = (c', .ok out)) :
    c'.products = c.products ++ [body.stored id now] ∧ out = body.answer b id now := by
  rcases createProduct_cases c user body id now with ⟨hid, heq, -⟩ | ⟨e, heq⟩
  · obtain ⟨rfl, hout⟩ := Prod.mk.inj (heq.symm.trans h)
    exact ⟨rfl, (Except.ok.inj hout).symm⟩
  · exact absurd (Prod.mk.inj (heq.symm.trans h)).2 nofun

/-- Products stay, as they are. -/
theorem stays (h : (kitchen b).Reach (fun _ _ => True) c c') {doc : Stored b}
    (hdoc : doc ∈ c.products) : doc ∈ c'.products := by
  refine h.invariant (I := fun c => doc ∈ c.products) hdoc ?_
  rintro c₁ l c₂ hmem - hst
  obtain rfl := Option.some.inj hst
  rcases createProduct_cases c₁ l.user l.body l.id l.now with ⟨hid, heq, -⟩ | ⟨e, heq⟩
  · rw [heq]
    exact List.mem_append_left _ hmem
  · rw [heq]
    exact hmem

/-- Every product was posted. -/
theorem posted_of_reach (h : (kitchen b).Reach (fun _ _ => True) (nothing b) c) {doc : Stored b}
    (hdoc : doc ∈ c.products) : ∃ body id now, doc = NewProduct.stored body id now := by
  have hall := h.invariant
    (I := fun c => ∀ doc ∈ c.products, ∃ body id now, doc = NewProduct.stored body id now)
    (fun doc hdoc => absurd hdoc List.not_mem_nil)
    (by
      rintro c₁ l c₂ hall - hst doc hdoc
      obtain rfl := Option.some.inj hst
      rcases createProduct_cases c₁ l.user l.body l.id l.now with ⟨hid, heq, -⟩ | ⟨e, heq⟩
      · rw [heq] at hdoc
        rcases List.mem_append.mp hdoc with hdoc | hdoc
        · exact hall doc hdoc
        · exact ⟨_, _, _, List.mem_singleton.mp hdoc⟩
      · rw [heq] at hdoc
        exact hall doc hdoc)
  exact hall doc hdoc

/-- The price on the menu is the one that was posted. -/
theorem price_stored (body : NewProduct) (id : ObjectId) (now : Int) :
    (decimal (body.stored id now : Stored b).price).value = ofCents body.price :=
  decimal_float body.price_digits (by
    show ((body.price : Int) : ℚ) * 10 ^ (-2 : Int) = _
    rw [ofCents_eq])

theorem objectId_hex (id : ObjectId) : objectId id.hex = some id := by
  have hall : "0123456789abcdef".toList.all isHexDigit = true := by decide
  have hdigits : id.hex.all isHexDigit = true := by
    refine List.all_eq_true.mpr fun c hc => ?_
    exact List.all_eq_true.mp hall c (List.contains_iff_mem.mp (List.all_eq_true.mp id.digits c hc))
  refine (dif_pos ⟨id.length, hdigits⟩).trans (congrArg some (ObjectId.eq_of_hex ?_))
  exact id.hex_toLower

/-- A product is found under its id. -/
theorem find_product {doc : Stored b} (hdoc : doc ∈ c.products) :
    c.products.find? (·.id == doc.id) = some doc := by
  have hsome : (c.products.find? (·.id == doc.id)).isSome = true :=
    List.find?_isSome.mpr ⟨doc, hdoc, beq_self_eq_true doc.id⟩
  obtain ⟨x, hx⟩ := Option.isSome_iff_exists.mp hsome
  have hid := List.find?_some hx
  rw [hx, List.inj_on_of_nodup_map c.ids (List.mem_of_find?_eq_some hx) hdoc (eq_of_beq hid)]

/-- The response shows the body. -/
structure Shows (body : NewProduct) (out : ProductOut) : Prop where
  restaurantId : out.restaurantId = body.restaurantId
  name : out.name = body.name
  description : out.description = body.description
  category : out.category = body.category.value
  price : out.price.value = ofCents body.price
  currency : out.currency = body.currency
  isAvailable : out.isAvailable = body.isAvailable
  attributes : out.attributes = body.attributes

/-- **A product comes back as it was posted**, whatever is created in between, when its attributes
    are read back as they were stored; its times are cut to milliseconds, and have lost their
    offset. -/
theorem product_comes_back (h : createProduct c user body id now = (c', .ok out))
    (hattributes : b.Keeps body.attributes)
    (hrun : (kitchen b).Reach (fun _ _ => True) c' c'') :
    Shows body out ∧ getProduct c'' out.id =
      .ok { out with
        createdAt := some ⟨now / 1000 * 1000, false⟩
        updatedAt := some ⟨now / 1000 * 1000, false⟩ } := by
  obtain ⟨hproducts, rfl⟩ := createProduct_ok h
  refine ⟨⟨rfl, rfl, rfl, rfl, price_stored body id now, rfl, rfl, rfl⟩, ?_⟩
  have hmem : body.stored id now ∈ c'.products := by
    rw [hproducts]
    exact List.mem_append_right _ (List.mem_singleton_self _)
  have hfind : c''.products.find? (·.id == id) = some (body.stored id now) :=
    find_product (stays hrun hmem)
  show getProduct c'' id.hex = _
  have hdecode : b.decode (body.stored id now : Stored b).attributes = some body.attributes :=
    hattributes
  unfold getProduct
  rw [objectId_hex]
  dsimp only
  rw [hfind]
  dsimp only
  rw [hdecode]
  rfl

/-! ## Orders -/

theorem priced_of_reach (h : (kitchen b).Reach (fun _ _ => True) (nothing b) c) :
    c.catalogue.Priced := by
  intro p hp price hprice
  obtain ⟨doc, hdoc, rfl⟩ := List.mem_map.mp hp
  obtain ⟨body, id, now, rfl⟩ := posted_of_reach h hdoc
  obtain rfl := Option.some.inj hprice
  exact ⟨body.price, price_stored body id now⟩

/-- **An order charges the posted price**, for the product under the posted name, and it goes to the
    restaurant of the product. -/
theorem posted_price_charged (h₀ : (kitchen b).Reach (fun _ _ => True) (nothing b) c)
    (h : createProduct c user body id now = (c', .ok out))
    (hrun : (kitchen b).Reach (fun _ _ => True) c' c'') {env : Env} {rows : List Reservation}
    {later : Int} {t : Till} {customer : User} {payload : OrderCreate} {fails : Option Call}
    {o : Orders.Order} {items : List OrderItem}
    (horder : (createOrder env rows c''.catalogue later t customer payload fails).result
      = .ok (o, items)) :
    List.Forall₂ (fun line item => line.productId = out.id →
        item.unitPrice = body.price ∧ item.productName = body.name ∧
          o.restaurantId = body.restaurantId) payload.items items ∧
      o.totalAmount = (items.map fun x => x.unitPrice * x.quantity).sum := by
  obtain ⟨hproducts, rfl⟩ := createProduct_ok h
  have hstep : (kitchen b).Reach (fun _ _ => True) (nothing b) c' := by
    refine .tail (l := ⟨user, body, id, now⟩) h₀ trivial ?_
    show some (createProduct c user body id now).1 = some c'
    rw [h]
  have hpriced := priced_of_reach (hstep.trans hrun)
  have hmem : body.stored id now ∈ c''.products := by
    refine stays hrun ?_
    rw [hproducts]
    exact List.mem_append_right _ (List.mem_singleton_self _)
  have hcases : Ending env rows c''.catalogue later t customer payload fails
    (createOrder env rows c''.catalogue later t customer payload fails) := createOrder_cases
  generalize createOrder env rows c''.catalogue later t customer payload fails = ending
    at hcases horder
  cases hcases with
  | unprepared | unsaved | unread => exact absurd horder nofun
  | @stored d hd hsave =>
    obtain ⟨rfl, rfl⟩ := Prod.mk.inj (Except.ok.inj horder)
    have hfulfilled : Fulfilled c''.catalogue customer payload (t.orderOf d later) (t.itemsOf d) :=
      fulfilled hpriced hd hsave
    refine ⟨hfulfilled.lines.imp fun line item hbought hline => ?_, hfulfilled.total⟩
    obtain ⟨p, hp, hid, hrestaurant, -, hname, price, hprice, hvalue⟩ := hbought.product
    have hsame : p = (body.stored id now : Stored b).product := by
      refine List.inj_on_of_nodup_map c''.catalogue.ids hp (List.mem_map.mpr ⟨_, hmem, rfl⟩) ?_
      exact ObjectId.eq_of_hex (hid.trans hline)
    subst hsame
    obtain rfl := Option.some.inj hprice
    have hcents : (body.price : ℚ) / 100 = item.unitPrice / 100 :=
      (price_stored body id now).symm.trans hvalue
    refine ⟨?_, (Option.some.inj hname).symm, (Option.some.inj hrestaurant).symm⟩
    have : (body.price : ℚ) = item.unitPrice := by linarith
    exact_mod_cast this.symm

/-! ## The filter -/

/-- What a filter asks for, with the prices as they are shown. -/
structure Wanted (f : Paging.ProductFilter) (doc : Paging.Document b.outside) : Prop where
  restaurantId : ∀ id, f.restaurantId = some id → doc.restaurantId = id
  category : ∀ c, f.category = some c → c ≠ [] → doc.category = c
  isAvailable : f.availableOnly = true → doc.isAvailable = true
  minPrice : ∀ d, f.minPrice = some d → d.value ≤ doc.summary.price.value
  maxPrice : ∀ d, f.maxPrice = some d → doc.summary.price.value ≤ d.value
  q : ∀ t, f.q = some t → t ≠ [] → b.finds t doc.name = true

theorem ofCents_le_iff {k n : Nat} : ofCents k ≤ ofCents n ↔ k ≤ n := by
  show (k : ℚ) / 100 ≤ n / 100 ↔ k ≤ n
  rw [div_le_div_iff_of_pos_right (by norm_num)]
  exact Nat.cast_le

/-- Doubles of hundredths compare as the hundredths do. -/
theorem le_float {d : Decimal} {k n : Nat} (hd : d.value = ofCents k) (hn : n < 10 ^ 10) :
    (Double.le (float d) (float ⟨n, -2⟩) = true ↔ d.value ≤ ofCents n) ∧
      (Double.le (float ⟨n, -2⟩) (float d) = true ↔ ofCents n ≤ d.value) := by
  have hvalue : (Decimal.mk n (-2)).value = ofCents n := (ofCents_eq n).symm
  unfold float
  rw [hd, hvalue]
  constructor
  · rw [Double.ofRat_le (round_ofCents_lt hn), round_ofCents_le_iff (.inr hn), ofCents_le_iff]
  · rw [Double.le_ofRat (round_ofCents_lt hn), round_ofCents_le_iff (.inl hn), ofCents_le_iff]

/-- **The filter by price is exact**: though the database compares doubles, it finds the products
    whose price on the menu is in the range, the bounds being hundredths; and it counts them on
    every page that is answered, as those are whose numbers fit. -/
theorem price_filter_exact (h : (kitchen b).Reach (fun _ _ => True) (nothing b) c)
    (f : Paging.ProductFilter) (hmin : ∀ d, f.minPrice = some d → ∃ k : Nat, d.value = ofCents k)
    (hmax : ∀ d, f.maxPrice = some d → ∃ k : Nat, d.value = ofCents k) :
    (∀ doc, doc ∈ c.menu.matches b.outside f ↔ doc ∈ c.menu.products ∧ Wanted f doc) ∧
    ∀ (mongo : Server (Paging.Document b.outside) Text) (page limit : Nat),
      mongo.rows = c.menu.products →
        (∀ p, Paging.listProducts mongo f page limit = .ok p →
          p.total = (c.menu.matches b.outside f).length) ∧
        ((∀ id, f.restaurantId = some id → fitsBigint id = true) →
          fitsBigint ((page - 1) * limit) = true →
          ∃ p, Paging.listProducts mongo f page limit = .ok p) := by
  constructor
  · intro doc
    rw [Paging.Menu.matches, List.mem_filter]
    refine and_congr_right fun hdoc => ?_
    obtain ⟨stored, hstored, rfl⟩ := List.mem_map.mp hdoc
    obtain ⟨body, id, now, rfl⟩ := posted_of_reach h hstored
    have hshown : (body.stored id now : Stored b).summary.price.value = ofCents body.price :=
      price_stored body id now
    rw [Paging.ProductFilter.matching_iff]
    constructor
    · rintro ⟨hrestaurant, hcategory, havailable, hlow, hhigh, hq⟩
      refine ⟨hrestaurant, hcategory, havailable, fun d hd => ?_, fun d hd => ?_, hq⟩
      · obtain ⟨k, hk⟩ := hmin d hd
        rw [hshown]
        exact (le_float hk body.price_digits).1.mp (hlow d hd)
      · obtain ⟨k, hk⟩ := hmax d hd
        rw [hshown]
        exact (le_float hk body.price_digits).2.mp (hhigh d hd)
    · rintro ⟨hrestaurant, hcategory, havailable, hlow, hhigh, hq⟩
      refine ⟨hrestaurant, hcategory, havailable, fun d hd => ?_, fun d hd => ?_, hq⟩
      · obtain ⟨k, hk⟩ := hmin d hd
        exact (le_float hk body.price_digits).1.mpr (hshown ▸ hlow d hd)
      · obtain ⟨k, hk⟩ := hmax d hd
        exact (le_float hk body.price_digits).2.mpr (hshown ▸ hhigh d hd)
  · intro mongo page limit hrows
    refine ⟨fun p hp => (Paging.listProducts_total hrows hp).trans (List.length_map _), ?_⟩
    exact fun hid hskip => ⟨_, Paging.listProducts_eq_ok_iff.mpr ⟨hid, hskip, rfl⟩⟩

end Stored

/-! ## A curry for 180.10 -/

/-- Nothing is found by its name, and everything can be stored and comes back. -/
def anyBson : Bson := ⟨fun _ _ => false, fun _ => true, some⟩

/-- Staff, who may post products. -/
def chef : User := ⟨7, .staff⟩

/-- Its price is no double. -/
def spicyCurry : NewProduct where
  restaurantId := 1
  name := "Green Curry".toList
  price := 18010
  currency := "THB".toList
  isAvailable := true
  restaurantId_pos := Nat.one_pos
  name_length := TableFlow.Ordering.dish_name
  price_digits := by decide
  currency_length := TableFlow.Ordering.baht_length
  description := none
  category := .main
  attributes := "\x7b\x7d".toList
  description_length _ h := absurd h (Option.some_ne_none _).symm

/-- The menu with the curry. -/
def curryMenu : Collection anyBson := (createProduct (nothing anyBson) chef spicyCurry curryId 0).1

theorem curry_posted : ∃ out,
    createProduct (nothing anyBson) chef spicyCurry curryId 0 = (curryMenu, .ok out) :=
  ⟨_, rfl⟩

/-- The curry is posted again, under the id of the tea; a customer posts it, and is refused; and it
    is posted under an id that is taken. -/
def laterPosts : List Post :=
  [⟨chef, spicyCurry, teaId, 1500⟩, ⟨customer, spicyCurry, curryId, 2000⟩,
    ⟨chef, spicyCurry, curryId, 2500⟩]

/-- It comes back for its price after these. -/
theorem curry_comes_back : ∃ c out, (kitchen anyBson).run curryMenu laterPosts = some c ∧
    c.products.length = 2 ∧ getProduct c curryId.hex = .ok out ∧
    out.price.value = ofCents 18010 := by
  obtain ⟨out, h⟩ := curry_posted
  obtain ⟨c, hrun, hlength⟩ : ∃ c, (kitchen anyBson).run curryMenu laterPosts = some c ∧
      c.products.length = 2 := ⟨_, rfl, rfl⟩
  obtain ⟨hshows, hget⟩ :=
    product_comes_back h (rfl : anyBson.Keeps spicyCurry.attributes) (.of_run hrun)
  obtain ⟨-, rfl⟩ := createProduct_ok h
  exact ⟨c, _, hrun, hlength, hget, hshows.price⟩

theorem reach_nothing : (kitchen anyBson).Reach (fun _ _ => True) (nothing anyBson) (nothing anyBson) :=
  .refl

/-- Two pieces are stored for 180.10 each. -/
theorem curry_charged : ∃ o items, (createOrder TableFlow.sample [] curryMenu.catalogue 0 emptyTill
      customer TableFlow.Ordering.twoPieces none).result = .ok (o, items) ∧
    ∀ x ∈ items, x.unitPrice = 18010 := by
  have hok : (createOrder TableFlow.sample [] curryMenu.catalogue 0 emptyTill customer
      TableFlow.Ordering.twoPieces none).result.isOk = true := by
    decide +kernel
  obtain ⟨out, h⟩ := curry_posted
  have hid : out.id = curryId.hex := by
    obtain ⟨-, rfl⟩ := createProduct_ok h
    rfl
  cases hresult : (createOrder TableFlow.sample [] curryMenu.catalogue 0 emptyTill customer
      TableFlow.Ordering.twoPieces none).result with
  | error e =>
    rw [hresult] at hok
    exact absurd hok nofun
  | ok result =>
    obtain ⟨o, items⟩ := result
    have hlines := (posted_price_charged reach_nothing h .refl hresult).1
    -- the order has one line
    obtain ⟨x, rest, hx, hrest, rfl⟩ := List.forall₂_cons_left_iff.mp hlines
    obtain rfl := List.forall₂_nil_left_iff.mp hrest
    refine ⟨o, [x], rfl, fun y hy => ?_⟩
    rw [List.mem_singleton.mp hy]
    exact (hx hid.symm).1

/-- 100 -/
def lowBound : Decimal := ⟨100, 0⟩

/-- 180.10 -/
def highBound : Decimal := ⟨18010, -2⟩

theorem lowBound_nonneg (d : Decimal) (hd : some lowBound = some d) : 0 ≤ d.coefficient := by
  rw [← Option.some.inj hd]
  decide

theorem highBound_nonneg (d : Decimal) (hd : some highBound = some d) : 0 ≤ d.coefficient := by
  rw [← Option.some.inj hd]
  decide

/-- Products from 100 to 180.10. -/
def upTo18010 : Paging.ProductFilter :=
  { Paging.everything with
    minPrice := some lowBound
    maxPrice := some highBound
    minPrice_nonneg := lowBound_nonneg
    maxPrice_nonneg := highBound_nonneg }

/-- The curry is in the range, up to its own price. -/
theorem curry_found : (spicyCurry.stored curryId 0 : Stored anyBson).toDocument
    ∈ curryMenu.menu.matches anyBson.outside upTo18010 := by
  have hreach : (kitchen anyBson).Reach (fun _ _ => True) (nothing anyBson) curryMenu :=
    .tail (l := ⟨chef, spicyCurry, curryId, 0⟩) .refl trivial rfl
  have hlow : lowBound.value = ofCents 10000 := by norm_num [Decimal.value, ofCents, lowBound]
  have hhigh : highBound.value = ofCents 18010 := by norm_num [Decimal.value, ofCents, highBound]
  have hshown : (spicyCurry.stored curryId 0 : Stored anyBson).summary.price.value = ofCents 18010 :=
    price_stored spicyCurry curryId 0
  refine ((price_filter_exact hreach upTo18010 (fun d hd => ?_) fun d hd => ?_).1 _).mpr
    ⟨List.mem_singleton_self _, fun _ h => absurd h (Option.some_ne_none _).symm,
      fun _ h => absurd h (Option.some_ne_none _).symm, fun _ => rfl, fun d hd => ?_, fun d hd => ?_,
      fun _ h => absurd h (Option.some_ne_none _).symm⟩
  all_goals obtain rfl := Option.some.inj hd
  · exact ⟨10000, hlow⟩
  · exact ⟨18010, hhigh⟩
  · rw [hshown, hlow]
    exact ofCents_le_iff.mpr (by omega)
  · rw [hshown, hhigh]

end TableFlow.Products
