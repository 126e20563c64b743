/-
  The amounts of an order against the columns that store them.

  1. **The catalogue** — its products have come in through `ProductCreate`, which lets no price
     have more than ten digits (`FromRequest`).
  2. **Unit prices** — so each item of a draft is sound, and its price fits `NUMERIC(10, 2)`
     (`itemOk_of_request`).
  3. **The total** — but fifty lines of fifty pieces add up to more than any price, and no check
     sees them all: the total fits exactly when the lines add up to less than a hundred million
     (`total_fits_iff`).
-/
import TableFlow.Ordering

namespace TableFlow.Ordering

open Lib Checkout

/-! ## The catalogue -/

/-- The document is that of a validated product, whichever decimal its price is read back as. -/
structure FromRequest (body : ProductCreate) (p : Product) : Prop where
  restaurantId : p.restaurantId = some body.restaurantId
  name : p.name = some body.name
  price : ∃ price, p.price = some price ∧ price.value = (body.price : ℚ) / 100
  currency : p.currency = some body.currency
  isAvailable : p.isAvailable = some body.isAvailable

theorem ProductCreate.fromRequest (body : ProductCreate) (id : ObjectId) :
    FromRequest body (body.doc id) where
  restaurantId := rfl
  name := rfl
  price := ⟨_, rfl, by norm_num [Decimal.value, div_eq_mul_inv]⟩
  currency := rfl
  isAvailable := rfl

/-- Every product has come in through `ProductCreate`. -/
def AllFromRequests (products : Catalogue) : Prop :=
  ∀ p ∈ products.products, ∃ body, FromRequest body p

/-! ## The columns -/

/-- A column `NUMERIC(10, 2)` can represent the number. -/
def Representable (d : Decimal) : Prop := ∃ n, numeric d = some n ∧ d.value = (n : ℚ) / 100

theorem representable_iff {c : Int} : Representable ⟨c, -2⟩ ↔ c.natAbs < 10 ^ 10 := by
  constructor
  · rintro ⟨n, hn, -⟩
    exact (numeric_eq_some.mp hn).1
  · intro hlt
    refine ⟨c, numeric_eq_some.mpr ⟨hlt, rfl⟩, ?_⟩
    norm_num [Decimal.value, div_eq_mul_inv]

/-- The amounts of the draft are representable, so saving it cannot overflow a column. -/
structure TotalFits (env : Env) (d : Draft) : Prop where
  total : Representable d.totalAmount
  unitPrices : ∀ x ∈ d.items, Representable x.unitPrice
  saved : saveError env d ≠ some .numericFieldOverflow

section Totals

variable {env : Env} {rows : List Reservation} {products : Catalogue} {user : User}
  {payload : OrderCreate} {fails : Option Call} {d : Draft} {x : ItemDraft}

/-- **The item for a line** has the price of a validated product. -/
theorem itemOk_of_request (hrequests : AllFromRequests products) {line : OrderItemIn}
    (hx : itemOf (products.foundFor payload) line = .ok x) :
    (varchar 150 x.productName).isSome = true ∧ ItemOk x := by
  obtain ⟨p, price, name, hp, hprice, hname, -, rfl⟩ := itemOf_ok.mp hx
  obtain ⟨body, hbody⟩ := hrequests p (mem_found.mp (lookup_some hp).1).1
  obtain ⟨price', hprice', hvalue⟩ := hbody.price
  obtain rfl : price = price' := Option.some.inj (hprice.symm.trans hprice')
  have hcents : Checkout.cents price = body.price := cents_value (by rw [hvalue, Int.cast_natCast])
  have hdigits := body.price_digits
  constructor
  · rw [varchar_of_le (p.name_length name hname)]
    rfl
  · exact ⟨⟨_, rfl, by omega, by omega⟩, line.quantity_range⟩

theorem itemsOk_of_request (hrequests : AllFromRequests products)
    (hbuild : buildOrder (products.foundFor payload) user payload = .ok d) :
    ∀ x ∈ d.items, (varchar 150 x.productName).isSome = true ∧ ItemOk x := by
  obtain ⟨_, items, -, hlines, rfl⟩ := buildOrder_ok.mp hbuild
  intro x hx
  obtain ⟨line, -, hline⟩ := exists_line hlines hx
  exact itemOk_of_request hrequests hline

/-- The currency of an order has three letters, as that of every product. -/
theorem currency_of_request (hrequests : AllFromRequests products)
    (hbuild : buildOrder (products.foundFor payload) user payload = .ok d) :
    (varchar 3 d.currency).isSome = true := by
  obtain ⟨doc, items, hdoc, -, rfl⟩ := buildOrder_ok.mp hbuild
  obtain ⟨body, hbody⟩ := hrequests doc (mem_found.mp (lookup_some hdoc).1).1
  dsimp only
  rw [hbody.currency, Option.getD_some, varchar_of_le body.currency_length.le]
  rfl

/-- **The amounts of an order fit exactly when its lines, price by quantity, add up to less than
    `10 ^ 8`.** -/
theorem total_fits_iff (hrequests : AllFromRequests products)
    (hd : prepare env rows products user payload fails = .ok d) :
    TotalFits env d ↔
      (payload.items.map fun line => products.cents line.productId * line.quantity).sum
        < 10 ^ 8 * 100 := by
  obtain ⟨-, -, -, -, hbuild⟩ := prepare_ok.mp hd
  have hitems := itemsOk_of_request hrequests hbuild
  have hok : ∀ x ∈ d.items, ItemOk x := fun x hx => (hitems x hx).2
  have htotal := total_of_buildOrder hbuild hok
  have hnonneg := sum_cents_nonneg hok
  have hsum : (d.items.map ItemDraft.cents).sum
      = (payload.items.map fun line => products.cents line.productId * line.quantity).sum := by
    obtain ⟨_, items, -, hlines, rfl⟩ := buildOrder_ok.mp hbuild
    exact sum_lines hlines
  rw [← hsum]
  -- a price fits because a request set it; only the total can be too large
  constructor
  · intro h
    have hrep := h.total
    rw [htotal, representable_iff] at hrep
    omega
  · intro hlt
    refine ⟨?_, fun x hx => ?_, ?_⟩
    · rw [htotal, representable_iff]
      omega
    · obtain ⟨c, hc, h0, hc'⟩ := (hok x hx).price
      rw [hc, representable_iff]
      omega
    · obtain ⟨horder, hcolumns⟩ :=
        (columns_hold hbuild).mpr ⟨hitems, by omega, currency_of_request hrequests hbuild⟩
      have hsave : saveError env d = none ∨ saveError env d = some .dataError :=
        saveError_of_columns horder hcolumns
      rcases hsave with hnone | hdata
      · rw [hnone]
        exact (Option.some_ne_none _).symm
      · rw [hdata]
        simp

end Totals

/-! ### An expensive dish -/

theorem dish_name : 2 ≤ "Green Curry".toList.length ∧ "Green Curry".toList.length ≤ 150 := by
  decide

theorem baht_length : "THB".toList.length = 3 := by decide

theorem two_pieces : 0 < 2 ∧ 2 ≤ 50 := by decide

/-- A dish at this price, in hundredths. -/
def pricedDish (price : Nat) (h : price < 10 ^ 10) : ProductCreate :=
  ⟨1, "Green Curry".toList, price, "THB".toList, true, Nat.one_pos, dish_name, h, baht_length⟩

/-- A menu of one dish. -/
def pricedMenu (price : Nat) (h : price < 10 ^ 10) : Catalogue :=
  ⟨[(pricedDish price h).doc curryId], (by decide : [curryId].Nodup)⟩

theorem pricedMenu_fromRequests (price : Nat) (h : price < 10 ^ 10) :
    AllFromRequests (pricedMenu price h) := by
  intro p hp
  rw [List.mem_singleton.mp hp]
  exact ⟨_, (pricedDish price h).fromRequest curryId⟩

/-- Two pieces of the dish. -/
def twoPieces : OrderCreate where
  restaurantId := 1
  reservationId := none
  items := [curryId.line 2 two_pieces]
  restaurantId_pos := Nat.one_pos
  reservationId_pos := no_reservation
  items_length := by decide

/-- Two pieces at 180.00 fit. -/
theorem two_pieces_fit : ∃ d,
    prepare sample [] (pricedMenu 18000 (by decide)) customer twoPieces none = .ok d ∧
      TotalFits sample d := by
  obtain ⟨d, hd⟩ : ∃ d,
      prepare sample [] (pricedMenu 18000 (by decide)) customer twoPieces none = .ok d := by
    unfold prepare
    exact ⟨_, rfl⟩
  exact ⟨d, hd, (total_fits_iff (pricedMenu_fromRequests _ _) hd).mpr (by decide)⟩

/-- **Two pieces at 99999999.99**, the highest price there is, do not: the order overflows. -/
theorem two_pieces_overflow :
    ¬ ∀ (env : Env) (rows : List Reservation) (products : Catalogue) (user : User)
      (payload : OrderCreate) (fails : Option Call) (d : Draft), AllFromRequests products →
      prepare env rows products user payload fails = .ok d → TotalFits env d := by
  intro h
  obtain ⟨d, hd, herror⟩ : ∃ d,
      prepare sample [] (pricedMenu 9999999999 (by decide)) customer twoPieces none = .ok d ∧
        saveError sample d = some .numericFieldOverflow := by
    unfold prepare
    exact ⟨_, rfl, by decide⟩
  exact (h _ _ _ _ _ _ d (pricedMenu_fromRequests _ _) hd).saved herror

end TableFlow.Ordering
