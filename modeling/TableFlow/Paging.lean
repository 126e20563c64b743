/-
  The two paged lists: the menu, and the search for restaurants.

  Every page is a query of its own, and a server answers it in SOME order that agrees with the sort
  keys (`Lib.Server`).

  1. **`list_products`** sorts by name alone.  Its pages list every match exactly once, whatever the
     server does, exactly when they are answered and no page ends among products of one name
     (`listProducts_enumerates_iff`).
  2. **`search_restaurants`** sorts by rating, unrated last, and then by id.  Nothing is left open,
     so its pages are the matches in that order as far as they are answered
     (`searchRestaurants_pages_iff`).

  A page is not answered when a filter or the number of rows to skip is no value of the database:
  the driver raises, and nobody catches it.
-/
import TableFlow.Checkout
import TableFlow.Lib.Query

namespace TableFlow.Paging

open Lib Checkout

/-- `Page[T]` -/
structure Page (T : Type) where
  items : List T
  page : Nat
  limit : Nat
  total : Nat
  pages : Nat
  deriving DecidableEq, Repr

/-- What ends a request for a page in a 500. -/
inductive ListError
  /-- BSON has no whole number of more than 64 bits. -/
  | overflowError
  /-- Neither has PostgreSQL, and its texts hold no U+0000. -/
  | dataError
  deriving DecidableEq, Repr

/-- `math.ceil(total / limit) if limit else 0` -/
def pageCount (total limit : Nat) : Nat := if limit = 0 then 0 else ⌈(total : ℚ) / limit⌉₊

theorem pageCount_le_iff {total limit n : Nat} (hlimit : 1 ≤ limit) :
    pageCount total limit ≤ n ↔ total ≤ n * limit := by
  have hpos : (0 : ℚ) < limit := by exact_mod_cast hlimit
  unfold pageCount
  rw [if_neg (by omega), Nat.ceil_le, div_le_iff₀ hpos]
  exact_mod_cast Iff.rfl

/-- The quotient, rounded up. -/
theorem pageCount_eq {total limit : Nat} (hlimit : 1 ≤ limit) :
    pageCount total limit = (total + limit - 1) / limit := by
  refine eq_of_forall_ge_iff fun n => ?_
  rw [pageCount_le_iff hlimit, Nat.div_le_iff_le_mul_add_pred hlimit, Nat.mul_comm]
  omega

/-- The pages hold all there is. -/
theorem le_pageCount_mul (total : Nat) {limit : Nat} (hlimit : 1 ≤ limit) :
    total ≤ pageCount total limit * limit := (pageCount_le_iff hlimit).mp le_rfl

/-! ## The menu -/

/-- What is taken from elsewhere: the doubles of BSON, and the text index on `name`. -/
structure Outside where
  Double : Type
  le : Double → Double → Bool
  /-- `float(price)` -/
  float : Decimal → Double
  /-- The `Decimal` that a response model reads from a double. -/
  decimal : Double → Decimal
  /-- The text index finds this name for this search. -/
  finds : (search name : Text) → Bool

/-- The fields of a document that `list_products` reads. -/
structure Document (o : Outside) where
  id : ObjectId
  restaurantId : Nat
  name : Text
  category : Text
  price : o.Double
  currency : Text
  isAvailable : Bool

/-- The validated filters. -/
structure ProductFilter where
  restaurantId : Option Nat
  category : Option Text
  minPrice : Option Decimal
  maxPrice : Option Decimal
  availableOnly : Bool
  q : Option Text
  restaurantId_pos : ∀ id, restaurantId = some id → 0 < id
  category_length : ∀ c, category = some c → c.length ≤ 40
  minPrice_nonneg : ∀ d, minPrice = some d → 0 ≤ d.coefficient
  maxPrice_nonneg : ∀ d, maxPrice = some d → 0 ≤ d.coefficient
  q_length : ∀ t, q = some t → t.length ≤ 80

/-- A key of the query, with its condition. -/
inductive Condition (o : Outside)
  | restaurantId (id : Nat)
  | category (c : Text)
  | isAvailable (b : Bool)
  /-- `$gte` and `$lte` -/
  | price (gte lte : Option o.Double)
  | text (search : Text)

namespace Condition

variable {o : Outside}

/-- The document satisfies the condition. -/
def holds (doc : Document o) : Condition o → Bool
  | restaurantId id => doc.restaurantId == id
  | category c => doc.category == c
  | isAvailable b => doc.isAvailable == b
  | price gte lte => gte.all (o.le · doc.price) && lte.all (o.le doc.price)
  | text search => o.finds search doc.name

end Condition

/-- A parameter that is given and not empty: `if category:` -/
def given (t : Option Text) : Option Text := t.filter (· ≠ [])

namespace ProductFilter

variable (o : Outside) (f : ProductFilter)

/-- `query` -/
def query : List (Condition o) :=
  (f.restaurantId.map Condition.restaurantId).toList
    ++ ((given f.category).map Condition.category).toList
    ++ (if f.availableOnly then [.isAvailable true] else [])
    ++ (if f.minPrice.isSome || f.maxPrice.isSome then
          [.price (f.minPrice.map o.float) (f.maxPrice.map o.float)] else [])
    ++ ((given f.q).map Condition.text).toList

/-- The document satisfies the query. -/
def matching (doc : Document o) : Bool := (f.query o).all (Condition.holds doc)

/-- A filter that is left out, and an empty `category` or `q`, asks for nothing. -/
theorem matching_iff (doc : Document o) : f.matching o doc = true ↔
    (∀ id, f.restaurantId = some id → doc.restaurantId = id) ∧
    (∀ c, f.category = some c → c ≠ [] → doc.category = c) ∧
    (f.availableOnly = true → doc.isAvailable = true) ∧
    (∀ d, f.minPrice = some d → o.le (o.float d) doc.price = true) ∧
    (∀ d, f.maxPrice = some d → o.le doc.price (o.float d) = true) ∧
    (∀ t, f.q = some t → t ≠ [] → o.finds t doc.name = true) := by
  have hgiven : ∀ (t : Option Text) (g : Text → Condition o),
      ((given t).map g).toList.all (Condition.holds doc) = true ↔
        ∀ c, t = some c → c ≠ [] → (g c).holds doc = true := by
    intro t g
    cases t with
    | none => simp [given]
    | some c => by_cases hc : c = [] <;> simp [given, hc]
  have hprice : (if f.minPrice.isSome || f.maxPrice.isSome then
      [Condition.price (f.minPrice.map o.float) (f.maxPrice.map o.float)] else []).all
        (Condition.holds doc) = true ↔
      (∀ d, f.minPrice = some d → o.le (o.float d) doc.price = true) ∧
      (∀ d, f.maxPrice = some d → o.le doc.price (o.float d) = true) := by
    cases f.minPrice <;> cases f.maxPrice <;> simp [Condition.holds]
  unfold matching query
  rw [List.all_append, List.all_append, List.all_append, List.all_append]
  simp only [Bool.and_eq_true, hgiven, hprice, and_assoc]
  refine and_congr ?_ (and_congr ?_ (and_congr ?_ Iff.rfl))
  · cases f.restaurantId <;> simp [Condition.holds]
  · simp [Condition.holds]
  · cases f.availableOnly <;> simp [Condition.holds]

end ProductFilter

/-- `ProductSummary` -/
structure ProductSummary where
  id : Text
  restaurantId : Nat
  name : Text
  category : Text
  price : Decimal
  currency : Text
  isAvailable : Bool
  deriving DecidableEq, Repr

/-- `ProductSummary.model_validate(_serialize(doc))` -/
def Document.summary {o : Outside} (doc : Document o) : ProductSummary where
  id := doc.id.hex
  restaurantId := doc.restaurantId
  name := doc.name
  category := doc.category
  price := o.decimal doc.price
  currency := doc.currency
  isAvailable := doc.isAvailable

/-- `list_products`: the matches are counted first, then the page is read. -/
def listProducts {o : Outside} (mongo : Server (Document o) Text) (f : ProductFilter)
    (page limit : Nat) : Except ListError (Page ProductSummary) :=
  if f.restaurantId.all fitsBigint = false then .error .overflowError
  else
    let total := mongo.count (f.matching o)
    if fitsBigint ((page - 1) * limit) = false then .error .overflowError
    else
      .ok
        { items := (mongo.run ⟨f.matching o, Document.name, (page - 1) * limit, limit⟩).map
            Document.summary
          page := page
          limit := limit
          total := total
          pages := pageCount total limit }

/-- A collection of products, with unique ids. -/
structure Menu (o : Outside) where
  products : List (Document o)
  ids : (products.map Document.id).Nodup

/-- The products that match. -/
def Menu.matches (o : Outside) (menu : Menu o) (f : ProductFilter) : List (Document o) :=
  menu.products.filter (f.matching o)

/-! ## All pages of a list -/

/-- The items of the pages `1` to `n`, one after the other: all of them have to be answered. -/
def allItems {T : Type} (list : Nat → Except ListError (Page T)) :
    Nat → Except ListError (List T)
  | 0 => .ok []
  | n + 1 => do
    let items ← allItems list n
    let page ← list (n + 1)
    .ok (items ++ page.items)

/-- The pages of the list are `found`, in some order, and say so. -/
structure Enumerates {T : Type} (list : Nat → Except ListError (Page T)) (limit : Nat)
    (found : List T) : Prop where
  first : ∃ p, list 1 = .ok p
  total : ∀ page p, list page = .ok p → p.total = found.length
  pages : ∀ page p, list page = .ok p → p.pages = (found.length + limit - 1) / limit
  items : ∃ items, allItems list ((found.length + limit - 1) / limit) = .ok items ∧
    items.Perm found

section All

variable {T : Type} {list : Nat → Except ListError (Page T)}

/-- Pages that are answered. -/
theorem allItems_eq_ok {page : Nat → Page T} {n : Nat} (h : ∀ k < n, list (k + 1) = .ok (page k)) :
    allItems list n = .ok ((List.range n).flatMap fun k => (page k).items) := by
  induction n with
  | zero => rfl
  | succ n ih =>
    unfold allItems
    rw [ih fun k hk => h k (hk.trans n.lt_succ_self), h n n.lt_succ_self, List.range_succ,
      List.flatMap_append, List.flatMap_singleton]
    rfl

/-- All of them have been. -/
theorem answered_of_allItems {n : Nat} {items : List T} (h : allItems list n = .ok items) {k : Nat}
    (hk : k < n) : ∃ p, list (k + 1) = .ok p := by
  induction n generalizing items with
  | zero => exact absurd hk (Nat.not_lt_zero k)
  | succ n ih =>
    unfold allItems at h
    cases hn : allItems list n with
    | error e =>
      rw [hn] at h
      exact absurd h (by simp [bind, Except.bind])
    | ok before =>
      rcases Nat.lt_succ_iff_lt_or_eq.mp hk with hk | rfl
      · exact ih hn hk
      · cases hp : list (k + 1) with
        | ok p => exact ⟨p, rfl⟩
        | error e =>
          rw [hn, hp] at h
          exact absurd h (by simp [bind, Except.bind])

end All

section Menu

variable {o : Outside} {f : ProductFilter} {limit : Nat}

/-- **A page is answered** when the restaurant's id and the rows to skip are numbers of BSON. -/
theorem listProducts_eq_ok_iff {mongo : Server (Document o) Text} {page : Nat}
    {p : Page ProductSummary} :
    listProducts mongo f page limit = .ok p ↔
      (∀ id, f.restaurantId = some id → fitsBigint id = true) ∧
      fitsBigint ((page - 1) * limit) = true ∧
      p = { items := (mongo.run ⟨f.matching o, Document.name, (page - 1) * limit, limit⟩).map
              Document.summary
            page := page
            limit := limit
            total := mongo.count (f.matching o)
            pages := pageCount (mongo.count (f.matching o)) limit } := by
  have hid : f.restaurantId.all fitsBigint = true ↔
      ∀ id, f.restaurantId = some id → fitsBigint id = true := by
    cases f.restaurantId <;> simp
  unfold listProducts
  rw [← hid]
  by_cases h : f.restaurantId.all fitsBigint = true
  · rw [if_neg (by rw [h]; decide)]
    dsimp only
    by_cases hskip : fitsBigint ((page - 1) * limit) = true
    · rw [if_neg (by rw [hskip]; decide)]
      exact ⟨fun hp => ⟨h, hskip, (Except.ok.inj hp).symm⟩, fun hp => by rw [hp.2.2]⟩
    · rw [if_pos (by simpa using hskip)]
      exact ⟨fun hp => absurd hp (by simp), fun hp => absurd hp.2.1 hskip⟩
  · rw [if_pos (by simpa using h)]
    exact ⟨fun hp => absurd hp (by simp), fun hp => absurd hp.1 h⟩

/-- The pages that are answered are the server's pages. -/
theorem allItems_listProducts {mongo : Server (Document o) Text} {n : Nat}
    (hid : ∀ id, f.restaurantId = some id → fitsBigint id = true)
    (hskip : ∀ k < n, fitsBigint (k * limit) = true) :
    allItems (listProducts mongo f · limit) n
      = .ok ((mongo.pages (f.matching o) Document.name limit n).map Document.summary) := by
  have hpage := fun k (hk : k < n) =>
    (@listProducts_eq_ok_iff _ f limit mongo (k + 1) _).mpr ⟨hid, hskip k hk, rfl⟩
  rw [allItems_eq_ok hpage]
  unfold Server.pages
  rw [List.map_flatMap]
  rfl

theorem Menu.summary_nodup (menu : Menu o) (f : ProductFilter) :
    ((menu.matches o f).map Document.summary).Nodup := by
  have hids : ((menu.matches o f).map Document.id).Nodup :=
    menu.ids.sublist (List.filter_sublist.map _)
  refine List.Nodup.of_map ProductSummary.id ?_
  rw [List.map_map]
  refine (List.nodup_map_iff_inj_on hids.of_map).mpr fun a ha b hb hab => ?_
  exact List.inj_on_of_nodup_map hids ha hb (ObjectId.eq_of_hex hab)

theorem listProducts_total {menu : Menu o} {mongo : Server (Document o) Text}
    (hrows : mongo.rows = menu.products) {page : Nat} {p : Page ProductSummary}
    (h : listProducts mongo f page limit = .ok p) :
    p.total = ((menu.matches o f).map Document.summary).length := by
  obtain ⟨-, -, rfl⟩ := listProducts_eq_ok_iff.mp h
  change mongo.rows.countP _ = _
  rw [hrows, List.countP_eq_length_filter, List.length_map]
  rfl

/-- The rows in front of a page are fewer than the pages hold. -/
theorem lt_pageCount_iff {total k : Nat} (hlimit : 1 ≤ limit) :
    k < pageCount total limit ↔ k * limit < total := by
  rw [← not_le, pageCount_le_iff hlimit, not_le]

/-- **The menu is listed completely** by every server exactly when its pages are answered and none
    ends among products of one name: when no matches of one name are on both sides of a multiple of
    `limit`. -/
theorem listProducts_enumerates_iff (o : Outside) (menu : Menu o) (f : ProductFilter) {limit : Nat}
    (hlimit : 1 ≤ limit) :
    (∀ mongo : Server (Document o) Text, mongo.rows = menu.products →
      Enumerates (listProducts mongo f · limit) limit ((menu.matches o f).map Document.summary)) ↔
    (∀ id, f.restaurantId = some id → fitsBigint id = true) ∧
    (∀ k, k * limit < (menu.matches o f).length → fitsBigint (k * limit) = true) ∧
    ∀ k, ∀ p ∈ menu.matches o f, ¬ Splits Document.name (menu.matches o f) (k * limit) p.name := by
  have hcount : pageCount (menu.matches o f).length limit
      = ((menu.matches o f).length + limit - 1) / limit := pageCount_eq hlimit
  constructor
  · intro hall
    have hsent := hall (Server.stable menu.products) rfl
    have hid : ∀ id, f.restaurantId = some id → fitsBigint id = true :=
      (listProducts_eq_ok_iff.mp hsent.first.choose_spec).1
    have hskip : ∀ k, k * limit < (menu.matches o f).length → fitsBigint (k * limit) = true := by
      intro k hk
      obtain ⟨items, hitems, -⟩ := hsent.items
      rw [List.length_map, ← hcount] at hitems
      obtain ⟨p, hp⟩ := answered_of_allItems hitems ((lt_pageCount_iff hlimit).mpr hk)
      exact (listProducts_eq_ok_iff.mp hp).2.1
    refine ⟨hid, hskip, fun k p hp hsplit => ?_⟩
    -- the cut is behind a page, and not behind the last one
    obtain ⟨k, rfl⟩ : ∃ j, k = j + 1 := by
      refine Nat.exists_eq_succ_of_ne_zero fun hk => ?_
      subst hk
      have := hsplit.1
      omega
    have hmany : k + 1 < pageCount (menu.matches o f).length limit := by
      rw [lt_pageCount_iff hlimit]
      have hup : upTo Document.name (menu.matches o f) p.name ≤ (menu.matches o f).length :=
        List.countP_le_length
      have := hsplit.2
      omega
    obtain ⟨mongo, hrows, hdup⟩ := exists_server_twice menu.products (by omega) hsplit hmany
    obtain ⟨items, hitems, hperm⟩ := (hall mongo hrows).items
    rw [List.length_map, ← hcount, allItems_listProducts hid
      fun k hk => hskip k ((lt_pageCount_iff hlimit).mp hk)] at hitems
    obtain rfl := Except.ok.inj hitems
    exact hdup (hperm.nodup_iff.mpr (menu.summary_nodup f)).of_map
  · rintro ⟨hid, hskip, hcut⟩ mongo hrows
    have hlen : (mongo.rows.filter (f.matching o)).length = (menu.matches o f).length := by
      rw [hrows]
      rfl
    refine ⟨⟨_, listProducts_eq_ok_iff.mpr ⟨hid, ?_, rfl⟩⟩, fun page p => listProducts_total hrows,
      fun page p hp => ?_,
      (mongo.pages (f.matching o) Document.name limit (pageCount (menu.matches o f).length limit)).map
        Document.summary, ?_, ?_⟩
    · rw [Nat.sub_self, Nat.zero_mul]
      decide
    · rw [List.length_map, ← hcount]
      have htotal := listProducts_total hrows hp
      obtain ⟨-, -, rfl⟩ := listProducts_eq_ok_iff.mp hp
      change mongo.count (f.matching o) = _ at htotal
      change pageCount (mongo.count (f.matching o)) limit = _
      rw [htotal, List.length_map]
    · rw [List.length_map, ← hcount]
      exact allItems_listProducts hid fun k hk => hskip k ((lt_pageCount_iff hlimit).mp hk)
    · refine List.Perm.map _ ?_
      have hperm := mongo.pages_perm (by rw [hrows]; exact hcut)
        (hlen.le.trans (le_pageCount_mul (menu.matches o f).length hlimit))
      rw [hrows] at hperm
      exact hperm

end Menu

/-! ## Two teas

Two products have one name.  A page for one product each is filled with the same one twice, when the
second query finds the two the other way round. -/

/-- Prices are in hundredths here, and the text index finds nothing. -/
def hundredths : Outside where
  Double := Int
  le a b := decide (a ≤ b)
  float d := d.rescale Decimal.halfEven (-2)
  decimal x := ⟨x, -2⟩
  finds _ _ := false

/-- A tea for five. -/
def tea (id : ObjectId) : Document hundredths where
  id := id
  restaurantId := 1
  name := "Tea".toList
  category := "Drink".toList
  price := (500 : Int)
  currency := "THB".toList
  isAvailable := true

/-- Two products of one name. -/
def twoTeas : Menu hundredths where
  products := [tea curryId, tea teaId]
  ids := by decide

/-- No filter is given. -/
def everything : ProductFilter where
  restaurantId := none
  category := none
  minPrice := none
  maxPrice := none
  availableOnly := true
  q := none
  restaurantId_pos := by simp
  category_length := by simp
  minPrice_nonneg := by simp
  maxPrice_nonneg := by simp
  q_length := by simp

/-- The first page is answered from the one order of equal names, the others from the other. -/
def turning : Server (Document hundredths) Text :=
  Server.ofOrders twoTeas.products
    (fun q =>
      if q.offset = 0 then sortBy q.key (twoTeas.products.filter q.matching)
      else sortBy q.key (twoTeas.products.filter q.matching).reverse)
    fun q => by
      have hsort := ordered_sortBy q.key (twoTeas.products.filter q.matching).reverse
      split
      · exact ordered_sortBy _ _
      · exact ⟨hsort.perm.trans (List.reverse_perm _), hsort.sorted⟩

/-- One tea is on both pages, the other on none. -/
theorem tea_twice : ¬ ∀ (o : Outside) (menu : Menu o) (f : ProductFilter) (limit : Nat),
    1 ≤ limit → limit ≤ 100 → ∀ mongo : Server (Document o) Text, mongo.rows = menu.products →
      Enumerates (listProducts mongo f · limit) limit
        ((menu.matches o f).map Document.summary) := by
  intro h
  obtain ⟨items, hitems, hperm⟩ :=
    (h hundredths twoTeas everything 1 (by decide) (by decide) turning rfl).items
  have hsame : (allItems (listProducts turning everything · 1) 2).map
      (fun items => items.map ProductSummary.id) = .ok [curryId.hex, curryId.hex] := by decide
  change allItems (listProducts turning everything · 1) 2 = .ok items at hitems
  rw [hitems] at hsame
  have hids := hperm.map ProductSummary.id
  have hsame' : items.map ProductSummary.id = [curryId.hex, curryId.hex] := Except.ok.inj hsame
  rw [hsame'] at hids
  exact absurd hids.nodup_iff (by decide)

/-- A page for two holds both. -/
theorem teas_on_one_page : Enumerates (listProducts turning everything · 2) 2
    ((twoTeas.matches hundredths everything).map Document.summary) := by
  refine (listProducts_enumerates_iff hundredths twoTeas everything (by decide)).mpr
    ⟨fun id hid => absurd hid (by simp [everything]), fun k hk => ?_, ?_⟩ turning rfl
  · have hk0 : k = 0 := by
      have : (twoTeas.matches hundredths everything).length = 2 := rfl
      omega
    subst hk0
    decide
  · rintro k p - ⟨hbelow, hup⟩
    have hall : upTo Document.name (twoTeas.matches hundredths everything) p.name ≤ 2 :=
      List.countP_le_length
    omega

/-! ## The search for restaurants -/

/-- One row of `restaurants`, with the columns of the search. -/
structure RestaurantRow extends Restaurant where
  cuisine : Text
  city : Text
  priceRange : Nat
  /-- `Numeric(2, 1)`, in tenths. -/
  avgRating : Option Nat
  priceRange_check : 1 ≤ priceRange ∧ priceRange ≤ 4
  avgRating_check : ∀ x, avgRating = some x → 10 ≤ x ∧ x ≤ 50

/-- The validated filters; `Rating` are the doubles from 1 to 5. -/
structure RestaurantFilter (Rating : Type) where
  city : Option Text
  cuisine : Option Text
  maxPriceRange : Option Nat
  minRating : Option Rating
  city_length : ∀ c, city = some c → c.length ≤ 80
  cuisine_length : ∀ c, cuisine = some c → c.length ≤ 60
  maxPriceRange_range : ∀ n, maxPriceRange = some n → 1 ≤ n ∧ n ≤ 4

namespace RestaurantFilter

variable {Rating : Type} (atLeast : Nat → Rating → Bool) (f : RestaurantFilter Rating)

/-- `filters`; `atLeast` compares a rating with a double. -/
def filters : List (RestaurantRow → Bool) :=
  ((given f.city).map fun c r => decide (r.city = c)).toList
    ++ ((given f.cuisine).map fun c r => decide (r.cuisine = c)).toList
    ++ (f.maxPriceRange.map fun n r => decide (r.priceRange ≤ n)).toList
    -- NULL is not at least anything
    ++ (f.minRating.map fun x r => r.avgRating.any (atLeast · x)).toList

/-- `and_(*filters) if filters else True` -/
def matching (r : RestaurantRow) : Bool := (f.filters atLeast).all fun holds => holds r

/-- A filter that is left out, and an empty `city` or `cuisine`, asks for nothing. -/
theorem matching_iff (r : RestaurantRow) : f.matching atLeast r = true ↔
    (∀ c, f.city = some c → c ≠ [] → r.city = c) ∧
    (∀ c, f.cuisine = some c → c ≠ [] → r.cuisine = c) ∧
    (∀ n, f.maxPriceRange = some n → r.priceRange ≤ n) ∧
    (∀ x, f.minRating = some x → ∃ y, r.avgRating = some y ∧ atLeast y x = true) := by
  have hgiven : ∀ (t : Option Text) (g : RestaurantRow → Text),
      ((given t).map fun c r => decide (g r = c)).toList.all (fun holds => holds r) = true ↔
        ∀ c, t = some c → c ≠ [] → g r = c := by
    intro t g
    cases t with
    | none => simp [given]
    | some c => by_cases hc : c = [] <;> simp [given, hc]
  unfold matching filters
  rw [List.all_append, List.all_append, List.all_append]
  simp only [Bool.and_eq_true, hgiven, and_assoc]
  refine and_congr Iff.rfl (and_congr Iff.rfl (and_congr ?_ ?_))
  · cases f.maxPriceRange <;> simp
  · cases f.minRating <;> simp [Option.any_eq_true]

/-- The driver sends the filters. -/
def sendable : Bool := (given f.city).all storable && (given f.cuisine).all storable

/-- No filter holds U+0000. -/
theorem sendable_iff : f.sendable = true ↔
    (∀ c, f.city = some c → storable c = true) ∧
    ∀ c, f.cuisine = some c → storable c = true := by
  have hgiven : ∀ t : Option Text, (given t).all storable = true ↔
      ∀ c, t = some c → storable c = true := by
    intro t
    cases t with
    | none => simp [given]
    | some c =>
      by_cases hc : c = []
      · subst hc
        simp [given, storable]
      · simp [given, hc]
  unfold sendable
  rw [Bool.and_eq_true, hgiven, hgiven]

end RestaurantFilter

/-- `RestaurantSummary` -/
structure RestaurantSummary where
  id : Nat
  name : Text
  cuisine : Text
  city : Text
  priceRange : Nat
  avgRating : Option Nat
  deriving DecidableEq, Repr

/-- `RestaurantSummary.model_validate(r, from_attributes=True)` -/
def RestaurantRow.summary (r : RestaurantRow) : RestaurantSummary where
  id := r.id
  name := r.name
  cuisine := r.cuisine
  city := r.city
  priceRange := r.priceRange
  avgRating := r.avgRating

/-- `avg_rating DESC NULLS LAST, id` -/
def byRating (r : RestaurantRow) : WithTop Natᵒᵈ ×ₗ Nat :=
  toLex ((r.avgRating.map OrderDual.toDual : WithTop Natᵒᵈ), r.id)

/-- `search_restaurants`: the matches are counted first, then the page is read. -/
def searchRestaurants {Rating : Type} (atLeast : Nat → Rating → Bool)
    (postgres : Server RestaurantRow (WithTop Natᵒᵈ ×ₗ Nat)) (f : RestaurantFilter Rating)
    (page limit : Nat) : Except ListError (Page RestaurantSummary) :=
  if f.sendable = false then .error .dataError
  else
    let total := postgres.count (f.matching atLeast)
    -- `OFFSET` is a `bigint`
    if fitsBigint ((page - 1) * limit) = false then .error .dataError
    else
      .ok
        { items := (postgres.run ⟨f.matching atLeast, byRating, (page - 1) * limit, limit⟩).map
            RestaurantRow.summary
          page := page
          limit := limit
          total := total
          pages := pageCount total limit }

/-- The better rated one comes first, an unrated one last, and the older one of equals. -/
def RestaurantSummary.Before (a b : RestaurantSummary) : Prop :=
  match a.avgRating, b.avgRating with
  | some x, some y => y < x ∨ x = y ∧ a.id < b.id
  | some _, none => True
  | none, some _ => False
  | none, none => a.id < b.id

/-- The sort keys say who comes first. -/
theorem before_of_byRating_le {a b : RestaurantRow} (h : byRating a ≤ byRating b)
    (hid : a.id ≠ b.id) : a.summary.Before b.summary := by
  unfold byRating at h
  rw [Prod.Lex.toLex_le_toLex] at h
  unfold RestaurantSummary.Before RestaurantRow.summary
  cases ha : a.avgRating with
  | none =>
    rw [ha] at h
    cases hb : b.avgRating with
    | none =>
      rcases h with h | ⟨-, h⟩
      · exact absurd h not_top_lt
      · exact lt_of_le_of_ne h hid
    | some y =>
      rw [hb] at h
      rcases h with h | ⟨h, -⟩
      · exact absurd h not_top_lt
      · exact absurd h WithTop.top_ne_coe
  | some x =>
    cases hb : b.avgRating with
    | none => trivial
    | some y =>
      rw [ha, hb] at h
      rcases h with h | ⟨h, hle⟩
      · exact Or.inl (OrderDual.toDual_lt_toDual.mp (WithTop.coe_lt_coe.mp h))
      · exact Or.inr ⟨OrderDual.toDual.injective (WithTop.coe_injective h), lt_of_le_of_ne hle hid⟩

section Search

variable {Rating : Type} {atLeast : Nat → Rating → Bool}
  {postgres : Server RestaurantRow (WithTop Natᵒᵈ ×ₗ Nat)} {f : RestaurantFilter Rating}
  {limit : Nat}

theorem byRating_nodup {rows : List RestaurantRow} (hids : (rows.map (·.id)).Nodup) :
    (rows.map byRating).Nodup := by
  refine (List.nodup_map_iff_inj_on hids.of_map).mpr fun a ha b hb hab => ?_
  exact List.inj_on_of_nodup_map hids ha hb (congrArg (fun k => (ofLex k).2) hab)

/-- **A page is answered** when its filters can be sent and the rows to skip are a `bigint`. -/
theorem searchRestaurants_eq_ok_iff {page : Nat} {p : Page RestaurantSummary} :
    searchRestaurants atLeast postgres f page limit = .ok p ↔
      f.sendable = true ∧ fitsBigint ((page - 1) * limit) = true ∧
      p = { items := (postgres.run ⟨f.matching atLeast, byRating, (page - 1) * limit, limit⟩).map
              RestaurantRow.summary
            page := page
            limit := limit
            total := postgres.count (f.matching atLeast)
            pages := pageCount (postgres.count (f.matching atLeast)) limit } := by
  unfold searchRestaurants
  by_cases h : f.sendable = true
  · rw [if_neg (by rw [h]; decide)]
    dsimp only
    by_cases hoffset : fitsBigint ((page - 1) * limit) = true
    · rw [if_neg (by rw [hoffset]; decide)]
      exact ⟨fun hp => ⟨h, hoffset, (Except.ok.inj hp).symm⟩, fun hp => by rw [hp.2.2]⟩
    · rw [if_pos (by simpa using hoffset)]
      exact ⟨fun hp => absurd hp (by simp), fun hp => absurd hp.2.1 hoffset⟩
  · rw [if_pos (by simpa using h)]
    exact ⟨fun hp => absurd hp (by simp), fun hp => absurd hp.1 h⟩

theorem allItems_searchRestaurants {n : Nat} (hsend : f.sendable = true)
    (hoffset : ∀ k < n, fitsBigint (k * limit) = true) :
    allItems (searchRestaurants atLeast postgres f · limit) n
      = .ok ((postgres.pages (f.matching atLeast) byRating limit n).map RestaurantRow.summary) := by
  have hpage := fun k (hk : k < n) =>
    (@searchRestaurants_eq_ok_iff _ atLeast postgres f limit (k + 1) _).mpr
      ⟨hsend, hoffset k hk, rfl⟩
  rw [allItems_eq_ok hpage]
  unfold Server.pages
  rw [List.map_flatMap]
  rfl

/-- The matches in the order of their keys come one before the other. -/
theorem pairwise_before {rows : List RestaurantRow} (hids : (rows.map (·.id)).Nodup) :
    ((sortBy byRating rows).map RestaurantRow.summary).Pairwise RestaurantSummary.Before := by
  have hsort := ordered_sortBy byRating rows
  have hne : (sortBy byRating rows).Pairwise fun a b => a.id ≠ b.id :=
    List.pairwise_map.mp ((hsort.perm.map _).nodup_iff.mpr hids)
  refine List.pairwise_map.mpr ((hsort.sorted.and hne).imp ?_)
  intro a b hab
  exact before_of_byRating_le hab.1 hab.2

/-- An offset below one that fits does. -/
theorem fitsBigint_mono {m n : Nat} (h : m ≤ n) (hn : fitsBigint n = true) : fitsBigint m = true := by
  unfold fitsBigint at hn ⊢
  rw [decide_eq_true_eq] at hn ⊢
  omega

/-- **The search lists every match once**, better ratings first, unrated restaurants last, and by id
    among equals, every page knows how many there are, and behind the last page there is nothing up
    to some later page: this is so exactly when no filter holds U+0000 and the offset of the later
    page fits `bigint`. -/
theorem searchRestaurants_pages_iff (atLeast : Nat → Rating → Bool)
    (postgres : Server RestaurantRow (WithTop Natᵒᵈ ×ₗ Nat)) (f : RestaurantFilter Rating)
    {limit later : Nat} (hids : (postgres.rows.map (·.id)).Nodup) (hlimit : 1 ≤ limit)
    (hlater : ((postgres.rows.filter (f.matching atLeast)).length + limit - 1) / limit < later) :
    let found := postgres.rows.filter (f.matching atLeast)
    let pages := (found.length + limit - 1) / limit
    Enumerates (searchRestaurants atLeast postgres f · limit) limit
        (found.map RestaurantRow.summary) ∧
      (∀ items, allItems (searchRestaurants atLeast postgres f · limit) pages = .ok items →
        items.Pairwise RestaurantSummary.Before) ∧
      (∀ page, pages < page → page ≤ later →
        ∃ p, searchRestaurants atLeast postgres f page limit = .ok p ∧ p.items = []) ↔
    (∀ c, f.city = some c → storable c = true) ∧ (∀ c, f.cuisine = some c → storable c = true) ∧
      fitsBigint ((later - 1) * limit) = true := by
  intro found pages
  rw [← and_assoc (a := ∀ c, f.city = some c → storable c = true), ← f.sendable_iff]
  constructor
  · rintro ⟨-, -, hempty⟩
    obtain ⟨p, hp, -⟩ := hempty later hlater le_rfl
    obtain ⟨hsend, hoffset, -⟩ := searchRestaurants_eq_ok_iff.mp hp
    exact ⟨hsend, hoffset⟩
  · rintro ⟨hsend, hoffset⟩
    have hfits : ∀ k < later, fitsBigint (k * limit) = true := fun k hk =>
      fitsBigint_mono (Nat.mul_le_mul_right limit (by omega)) hoffset
    have hfound : (found.map (·.id)).Nodup := hids.sublist (List.filter_sublist.map _)
    have hcount : pageCount found.length limit = pages := pageCount_eq hlimit
    have htotal : ∀ page p, searchRestaurants atLeast postgres f page limit = .ok p →
        p.total = found.length ∧ p.pages = pages := by
      intro page p hp
      obtain ⟨-, -, rfl⟩ := searchRestaurants_eq_ok_iff.mp hp
      have hlen : postgres.count (f.matching atLeast) = found.length :=
        List.countP_eq_length_filter
      exact ⟨hlen, by rw [← hcount, ← hlen]⟩
    have hitems : allItems (searchRestaurants atLeast postgres f · limit) pages
        = .ok ((sortBy byRating found).map RestaurantRow.summary) := by
      have hall : found.length ≤ pages * limit := hcount ▸ le_pageCount_mul _ hlimit
      rw [allItems_searchRestaurants hsend fun k hk => hfits k (hk.trans hlater),
        postgres.pages_eq (byRating_nodup hfound) hall]
    have hfirst : 0 < later := lt_of_le_of_lt (Nat.zero_le _) hlater
    refine ⟨⟨⟨_, searchRestaurants_eq_ok_iff.mpr ⟨hsend, hfits 0 hfirst, rfl⟩⟩,
      fun page p hp => ?_, fun page p hp => ?_,
      (sortBy byRating found).map RestaurantRow.summary, ?_, ?_⟩, fun items h => ?_,
      fun page hpage hle => ?_⟩
    · rw [List.length_map]
      exact (htotal page p hp).1
    · rw [List.length_map]
      exact (htotal page p hp).2
    · rw [List.length_map]
      exact hitems
    · exact (ordered_sortBy byRating found).perm.map _
    · obtain rfl := Except.ok.inj (hitems.symm.trans h)
      exact pairwise_before hfound
    · refine ⟨_, searchRestaurants_eq_ok_iff.mpr ⟨hsend, hfits (page - 1) (by omega), rfl⟩, ?_⟩
      change (postgres.run _).map _ = []
      rw [postgres.run_eq_nil, List.map_nil]
      have hall : found.length ≤ pages * limit := hcount ▸ le_pageCount_mul _ hlimit
      exact hall.trans (Nat.mul_le_mul_right limit (by omega))

end Search

/-! ## Four restaurants -/

/-- A Thai restaurant in Bangkok. -/
def restaurantRow (id : Nat) (avgRating : Option Nat)
    (h : ∀ x, avgRating = some x → 10 ≤ x ∧ x ≤ 50) : RestaurantRow where
  id := id
  name := "Fern".toList
  cuisine := "Thai".toList
  city := "Bangkok".toList
  priceRange := 2
  avgRating := avgRating
  priceRange_check := by decide
  avgRating_check := h

/-- Two with 4.5 stars, one with 3.8 and one without a rating. -/
def fourRestaurants : Server RestaurantRow (WithTop Natᵒᵈ ×ₗ Nat) :=
  Server.stable [restaurantRow 1 none (by simp), restaurantRow 2 (some 38) (by simp),
    restaurantRow 3 (some 45) (by simp), restaurantRow 4 (some 45) (by simp)]

/-- Ratings and bounds in tenths. -/
def tenths (rating bound : Nat) : Bool := decide (bound ≤ rating)

/-- Any restaurant of the city. -/
def inBangkok : RestaurantFilter Nat where
  city := some "Bangkok".toList
  cuisine := none
  maxPriceRange := none
  minRating := none
  city_length := by simp
  cuisine_length := by simp
  maxPriceRange_range := by simp

/-- Two pages of two, and no third one. -/
theorem fourRestaurants_pages :
    Enumerates (searchRestaurants tenths fourRestaurants inBangkok · 2) 2
      (fourRestaurants.rows.map RestaurantRow.summary) ∧
    ∃ p, searchRestaurants tenths fourRestaurants inBangkok 3 2 = .ok p ∧ p.items = [] := by
  have hcity : ∀ c, inBangkok.city = some c → storable c = true := by
    intro c hc
    rw [← Option.some.inj hc]
    decide
  have h := (@searchRestaurants_pages_iff _ tenths fourRestaurants inBangkok 2 3 (by decide)
    (by decide) (by decide)).mpr ⟨hcity, fun c hc => absurd hc (by simp [inBangkok]), by decide⟩
  exact ⟨h.1, h.2.2 3 (by decide) (by decide)⟩

/-- No page number is too great for the schema, but the rows in front of this page are for the
    database. -/
theorem page_beyond_bigint : ¬ ∀ (Rating : Type) (atLeast : Nat → Rating → Bool)
    (postgres : Server RestaurantRow (WithTop Natᵒᵈ ×ₗ Nat)) (f : RestaurantFilter Rating)
    (limit : Nat), (postgres.rows.map (·.id)).Nodup → 1 ≤ limit → limit ≤ 100 →
    let found := postgres.rows.filter (f.matching atLeast)
    let pages := (found.length + limit - 1) / limit
    Enumerates (searchRestaurants atLeast postgres f · limit) limit
        (found.map RestaurantRow.summary) ∧
      (∀ items, allItems (searchRestaurants atLeast postgres f · limit) pages = .ok items →
        items.Pairwise RestaurantSummary.Before) ∧
      ∀ page, pages < page →
        ∃ p, searchRestaurants atLeast postgres f page limit = .ok p ∧ p.items = [] := by
  intro h
  obtain ⟨-, -, hempty⟩ := h Nat tenths fourRestaurants inBangkok 100 (by decide) (by decide) (by decide)
  obtain ⟨p, hp, -⟩ := hempty 92233720368547760 (by decide)
  have hfail : searchRestaurants tenths fourRestaurants inBangkok 92233720368547760 100
      = .error .dataError := by
    unfold searchRestaurants
    rw [if_neg (by decide)]
    dsimp only
    rw [if_pos (by decide)]
  rw [hfail] at hp
  exact absurd hp (by simp)

example : (allItems (searchRestaurants tenths fourRestaurants inBangkok · 2) 2).map
    (fun items => items.map RestaurantSummary.id) = .ok [3, 4, 2, 1] := by decide

end TableFlow.Paging
