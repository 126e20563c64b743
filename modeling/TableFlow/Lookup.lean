/-
  How `create_order` finds the products of its lines.

  1. **Two lookups** — the query goes by the value of an id (`OrderItemIn.oid`), in whichever case
     its letters are sent; the dictionary of what was found is asked with the text of the line.
  2. **The second one misses** what the first has found when the text is not in lower case
     (`lookup_isNone`), and the line is then among the missing ones.
  3. **So the lookup goes by value exactly when** a product is missing anyway, or the ids are in
     lower case (`lookup_by_value_iff`).
-/
import TableFlow.Checkout

namespace TableFlow.Checkout

open Lib

/-! ## Spellings -/

/-- The line names its product as the catalogue prints the id. -/
def OrderItemIn.LowerCase (line : OrderItemIn) : Prop := line.productId = line.oid.hex

/-- Every id of the payload is in lower case. -/
def OrderCreate.LowerCase (payload : OrderCreate) : Prop := ∀ line ∈ payload.items, line.LowerCase

/-- The lines differ in nothing but the case of hex digits. -/
structure SameLine (a b : OrderItemIn) : Prop where
  oid : a.oid = b.oid
  quantity : a.quantity = b.quantity
  selectedAttributes : a.selectedAttributes = b.selectedAttributes

/-- The payloads differ in nothing but the case of hex digits. -/
structure SamePayload (a b : OrderCreate) : Prop where
  restaurantId : a.restaurantId = b.restaurantId
  reservationId : a.reservationId = b.reservationId
  items : List.Forall₂ SameLine a.items b.items

theorem SamePayload.refl (a : OrderCreate) : SamePayload a a :=
  ⟨rfl, rfl, List.forall₂_same.mpr fun _ _ => ⟨rfl, rfl, rfl⟩⟩

/-- In lower case there is one spelling only. -/
theorem SameLine.eq {a b : OrderItemIn} (h : SameLine a b) (ha : a.LowerCase) (hb : b.LowerCase) :
    a = b := by
  have hid : a.productId = b.productId := by
    rw [ha, hb, h.oid]
  cases a
  cases b
  obtain rfl := hid
  obtain rfl := h.quantity
  obtain rfl := h.selectedAttributes
  rfl

theorem SamePayload.eq {a b : OrderCreate} (h : SamePayload a b) (ha : a.LowerCase)
    (hb : b.LowerCase) : a = b := by
  have hitems : ∀ {xs ys : List OrderItemIn}, List.Forall₂ SameLine xs ys →
      (∀ x ∈ xs, x.LowerCase) → (∀ y ∈ ys, y.LowerCase) → xs = ys := by
    intro xs ys hxy
    induction hxy with
    | nil => exact fun _ _ => rfl
    | cons hx _ ih =>
      intro hxs hys
      rw [hx.eq (hxs _ (List.mem_cons_self ..)) (hys _ (List.mem_cons_self ..)),
        ih (fun x hx => hxs x (List.mem_cons_of_mem _ hx))
          fun y hy => hys y (List.mem_cons_of_mem _ hy)]
  have heq := hitems h.items ha hb
  cases a
  cases b
  obtain rfl := h.restaurantId
  obtain rfl := h.reservationId
  obtain rfl := heq
  rfl

/-! ## The two lookups -/

/-- No document has the value of the id. -/
def Catalogue.Lacks (products : Catalogue) (o : ObjectId) : Prop := ∀ p ∈ products.products, p.id ≠ o

section Lookups

variable {products : Catalogue} {a b : OrderCreate}

/-- **A line is missing** when its product is, or when it is not spelled in lower case. -/
theorem lookup_isNone {line : OrderItemIn} (hline : line ∈ a.items) :
    (lookup (products.foundFor a) line.productId).isNone = true ↔
      products.Lacks line.oid ∨ ¬ line.LowerCase := by
  rw [Option.isNone_iff_eq_none]
  constructor
  · intro hnone
    by_contra h
    rw [not_or, not_not] at h
    obtain ⟨hlacks, hlower⟩ := h
    unfold Catalogue.Lacks at hlacks
    push Not at hlacks
    obtain ⟨p, hp, hid⟩ := hlacks
    have hsome := lookup_found hline hp (by rw [hid, ← hlower])
    exact absurd (hnone.symm.trans hsome) (by simp)
  · intro h
    by_contra hsome
    obtain ⟨p, hp⟩ := Option.ne_none_iff_exists'.mp hsome
    obtain ⟨hfound, hid⟩ := lookup_some hp
    have hoid : line.oid = p.id := ObjectId.eq_of_hex (by
      show line.productId.map Char.toLower = p.id.hex
      rw [← hid, p.id.hex_toLower])
    rcases h with hlacks | hlower
    · exact hlacks p (mem_found.mp hfound).1 hoid.symm
    · exact hlower (by
        unfold OrderItemIn.LowerCase
        rw [hoid, hid])

theorem missing_ne_nil : missing (products.foundFor a) a ≠ [] ↔
    (∃ line ∈ a.items, products.Lacks line.oid) ∨ ¬ a.LowerCase := by
  have hmissing : missing (products.foundFor a) a ≠ [] ↔
      ∃ line ∈ a.items, (lookup (products.foundFor a) line.productId).isNone = true := by
    simp [missing, List.filter_eq_nil_iff]
  rw [hmissing]
  unfold OrderCreate.LowerCase
  push Not
  constructor
  · rintro ⟨line, hline, hnone⟩
    rcases (lookup_isNone hline).mp hnone with h | h
    · exact Or.inl ⟨line, hline, h⟩
    · exact Or.inr ⟨line, hline, h⟩
  · rintro (⟨line, hline, h⟩ | ⟨line, hline, h⟩)
    · exact ⟨line, hline, (lookup_isNone hline).mpr (Or.inl h)⟩
    · exact ⟨line, hline, (lookup_isNone hline).mpr (Or.inr h)⟩

/-- The values of the ids are the same in both spellings. -/
theorem SamePayload.lacks (h : SamePayload a b) :
    (∃ line ∈ a.items, products.Lacks line.oid) ↔ ∃ line ∈ b.items, products.Lacks line.oid := by
  have hitems := h.items
  revert hitems
  generalize a.items = xs
  generalize b.items = ys
  intro hxy
  induction hxy with
  | nil => simp
  | cons hx _ ih => simp [hx.oid, ih]

end Lookups

/-! ## The call -/

/-- `create_order` gets as far as checking the products. -/
def Reached (env : Env) (rows : List Reservation) (user : User) (payload : OrderCreate)
    (fails : Option Call) : Prop :=
  call fails .restaurant (readRestaurant env payload) = .ok () ∧
    (∀ id, payload.reservationId = some id →
      call fails .reservation (readReservation rows user id) = .ok ()) ∧
    fails ≠ some .products

/-- The answer 404 `Unknown product_id`. -/
def Unknown (e : Raised) : Prop := ∃ ids : String, e = .refused ⟨404, s!"Unknown product_id: {ids}"⟩

theorem not_unknown {status : Nat} {detail : String}
    (h : status ≠ 404 ∨ detail.toList.head? ≠ some 'U') : ¬ Unknown (.refused ⟨status, detail⟩) := by
  rintro ⟨ids, hids⟩
  obtain ⟨rfl, rfl⟩ := HTTPException.mk.inj (Raised.refused.inj hids)
  rcases h with h | h
  · exact h rfl
  · refine h ?_
    rw [String.toList_append, List.head?_append]
    rfl

section Call

variable {env : Env} {rows : List Reservation} {products : Catalogue} {now : Int} {t : Till}
  {user : User} {a b : OrderCreate} {fails : Option Call} {e : Raised}

theorem readRestaurant_known (h : call fails .restaurant (readRestaurant env a) = .error e) :
    ¬ Unknown e := by
  rcases call_eq_error.mp h with ⟨-, rfl⟩ | ⟨-, h⟩
  · exact fun ⟨_, hids⟩ => absurd hids (by simp)
  · unfold readRestaurant at h
    split at h
    · rw [← Except.error.inj h]
      exact fun ⟨_, hids⟩ => absurd hids (by simp)
    · split at h
      · rw [← Except.error.inj h]
        exact not_unknown (Or.inr (by decide))
      · exact absurd h (by simp)

theorem readReservation_known {id : Nat}
    (h : call fails .reservation (readReservation rows user id) = .error e) : ¬ Unknown e := by
  rcases call_eq_error.mp h with ⟨-, rfl⟩ | ⟨-, h⟩
  · exact fun ⟨_, hids⟩ => absurd hids (by simp)
  · unfold readReservation at h
    split at h
    · rw [← Except.error.inj h]
      exact fun ⟨_, hids⟩ => absurd hids (by simp)
    · split at h
      · rw [← Except.error.inj h]
        exact not_unknown (Or.inr (by decide))
      · split at h
        · rw [← Except.error.inj h]
          exact fun ⟨_, hids⟩ => absurd hids (by simp)
        · split at h
          · rw [← Except.error.inj h]
            exact not_unknown (Or.inl (by decide))
          · exact absurd h (by simp)

/-- **A call that does not get to the products** ends before it has looked at a line. -/
theorem prepare_unreached (products : Catalogue) (h : ¬ Reached env rows user a fails) :
    ∃ e, ¬ Unknown e ∧ ∀ b, SamePayload a b → prepare env rows products user b fails = .error e := by
  have hrestaurant : ∀ b, SamePayload a b → readRestaurant env b = readRestaurant env a := by
    intro b hab
    unfold readRestaurant
    rw [hab.restaurantId]
  unfold prepare
  cases hr : call fails .restaurant (readRestaurant env a) with
  | error e =>
    refine ⟨e, readRestaurant_known hr, fun b hab => ?_⟩
    rw [hrestaurant b hab, hr]
  | ok _ =>
    cases hs : a.reservationId.elim (.ok ()) fun id =>
        call fails .reservation (readReservation rows user id) with
    | error e =>
      have hknown : ¬ Unknown e := by
        cases hid : a.reservationId with
        | none =>
          rw [hid] at hs
          exact absurd hs (by simp)
        | some id =>
          rw [hid] at hs
          exact readReservation_known hs
      refine ⟨e, hknown, fun b hab => ?_⟩
      rw [hrestaurant b hab, hr, ← hab.reservationId, hs]
    | ok _ =>
      -- neither of the two documents is what fails, so it is the call for the products
      have hproducts : fails = some .products := by
        by_contra hf
        refine h ⟨hr, fun id hid => ?_, hf⟩
        rw [hid] at hs
        exact hs
      refine ⟨.lost .products, fun ⟨_, hids⟩ => absurd hids (by simp), fun b hab => ?_⟩
      rw [hrestaurant b hab, hr, ← hab.reservationId, hs, mapM_objectId]
      simp [call, hproducts]

theorem prepare_reached (h : Reached env rows user a fails) :
    prepare env rows products user a fails
      = (checkProducts (products.foundFor a) a).bind fun _ =>
          buildOrder (products.foundFor a) user a := by
  obtain ⟨hr, hs, hf⟩ := h
  have hs' : (a.reservationId.elim (.ok ()) fun id =>
      call fails .reservation (readReservation rows user id)) = .ok () := by
    cases hid : a.reservationId with
    | none => rfl
    | some id => exact hs id hid
  unfold prepare
  rw [hr, hs', mapM_objectId]
  simp only [call, hf, if_false]
  unfold Catalogue.foundFor
  cases checkProducts (products.find (a.items.map OrderItemIn.oid)) a with
  | error e => rfl
  | ok _ => rfl

/-- The call answers 404 `Unknown product_id`. -/
def AnswersUnknown (x : Outcome Till (Order × List OrderItem)) : Prop :=
  ∃ e, x.result = .error e ∧ Unknown e

/-- Only steps 1 and 2 give that answer. -/
theorem answersUnknown_iff :
    AnswersUnknown (createOrder env rows products now t user a fails) ↔
      ∃ e, prepare env rows products user a fails = .error e ∧ Unknown e := by
  constructor
  · rintro ⟨e, he, hunknown⟩
    generalize hx : createOrder env rows products now t user a fails = x at he
    have hcases : Ending env rows products now t user a fails x := hx ▸ createOrder_cases
    cases hcases with
    | unprepared hprep => exact ⟨e, Except.error.inj he ▸ hprep, hunknown⟩
    | unsaved hprep hend =>
      obtain rfl := Except.error.inj he
      obtain ⟨ids, hids⟩ := hunknown
      rcases hend with ⟨rfl, -⟩ | ⟨⟨x, rfl, -⟩, -⟩
      · exact absurd hids (by simp)
      · exact absurd hids (by simp)
    | unread hprep hsave hf =>
      obtain ⟨ids, hids⟩ := hunknown
      rw [← Except.error.inj he] at hids
      exact absurd hids (by simp)
    | stored hprep hsave hf hr => exact absurd he (by simp)
  · rintro ⟨e, he, hunknown⟩
    refine ⟨e, ?_, hunknown⟩
    unfold createOrder
    rw [he]

/-- The checks of step 2 give it when they miss a line. -/
theorem checkProducts_unknown {found : List Product} :
    (∃ e, (checkProducts found a).bind (fun _ => buildOrder found user a) = .error e ∧ Unknown e) ↔
      missing found a ≠ [] := by
  unfold checkProducts
  split
  · next h => exact iff_of_true ⟨_, rfl, _, rfl⟩ h
  · next h =>
    refine iff_of_false ?_ h
    rintro ⟨e, he, hunknown⟩
    split at he
    · obtain rfl := Except.error.inj he
      exact not_unknown (Or.inl (by decide)) hunknown
    · split at he
      · obtain rfl := Except.error.inj he
        exact not_unknown (Or.inl (by decide)) hunknown
      · obtain ⟨ids, rfl⟩ := hunknown
        exact buildOrder_error he _ rfl

/-- **What the code does**: a line is unknown when it lacks a product or is not in lower case. -/
theorem unknown_iff : AnswersUnknown (createOrder env rows products now t user a fails) ↔
    Reached env rows user a fails ∧
      ((∃ line ∈ a.items, products.Lacks line.oid) ∨ ¬ a.LowerCase) := by
  rw [answersUnknown_iff]
  by_cases hr : Reached env rows user a fails
  · rw [prepare_reached hr, checkProducts_unknown, missing_ne_nil]
    exact ⟨fun h => ⟨hr, h⟩, And.right⟩
  · refine iff_of_false ?_ fun h => hr h.1
    obtain ⟨e, hknown, hprep⟩ := prepare_unreached products hr
    rintro ⟨e', he', hunknown⟩
    obtain rfl := Except.error.inj ((hprep a (SamePayload.refl a)).symm.trans he')
    exact hknown hunknown

/-! ## By value -/

/-- The answer goes by the values of the ids. -/
def UnknownByValue (env : Env) (rows : List Reservation) (products : Catalogue) (now : Int)
    (t : Till) (user : User) (a : OrderCreate) (fails : Option Call) : Prop :=
  AnswersUnknown (createOrder env rows products now t user a fails) ↔
    Reached env rows user a fails ∧ ∃ line ∈ a.items, products.Lacks line.oid

/-- Two calls end in the same state, with the same result or with refusals of the same status. -/
def SameOutcome (x y : Outcome Till (Order × List OrderItem)) : Prop :=
  x.state = y.state ∧ x.committed = y.committed ∧
    (x.result = y.result ∨ ∃ e e' : HTTPException, x.result = .error (.refused e) ∧
      y.result = .error (.refused e') ∧ e.status = e'.status)

theorem SamePayload.symm (hab : SamePayload a b) : SamePayload b a where
  restaurantId := hab.restaurantId.symm
  reservationId := hab.reservationId.symm
  items := hab.items.flip.imp fun _ _ h =>
    ⟨h.oid.symm, h.quantity.symm, h.selectedAttributes.symm⟩

theorem SamePayload.reached (hab : SamePayload a b) (hr : Reached env rows user a fails) :
    Reached env rows user b fails := by
  obtain ⟨hrestaurant, hreservation, hf⟩ := hr
  refine ⟨?_, hab.reservationId ▸ hreservation, hf⟩
  unfold readRestaurant
  rw [← hab.restaurantId]
  exact hrestaurant

theorem outcome_of_error (h : prepare env rows products user a fails = .error e) :
    createOrder env rows products now t user a fails = ⟨t, false, .error e⟩ := by
  unfold createOrder
  rw [h]

/-- Calls that both miss a line end alike. -/
theorem sameOutcome_of_unknown
    (ha : AnswersUnknown (createOrder env rows products now t user a fails))
    (hb : AnswersUnknown (createOrder env rows products now t user b fails)) :
    SameOutcome (createOrder env rows products now t user a fails)
      (createOrder env rows products now t user b fails) := by
  obtain ⟨_, hprep, ids, rfl⟩ := answersUnknown_iff.mp ha
  obtain ⟨_, hprep', ids', rfl⟩ := answersUnknown_iff.mp hb
  rw [outcome_of_error hprep, outcome_of_error hprep']
  exact ⟨rfl, rfl, Or.inr ⟨_, _, rfl, rfl, rfl⟩⟩

/-- **The lookup goes by value exactly when**, once it gets to the products, one of them is missing
    anyway or both payloads are in lower case. -/
theorem lookup_by_value_iff (env : Env) (rows : List Reservation) (products : Catalogue) (now : Int)
    (t : Till) (user : User) (fails : Option Call) (a b : OrderCreate) (hab : SamePayload a b) :
    (UnknownByValue env rows products now t user a fails ∧
      UnknownByValue env rows products now t user b fails ∧
      SameOutcome (createOrder env rows products now t user a fails)
        (createOrder env rows products now t user b fails)) ↔
      (Reached env rows user a fails →
        (∃ line ∈ a.items, products.Lacks line.oid) ∨ (a.LowerCase ∧ b.LowerCase)) := by
  unfold UnknownByValue
  rw [unknown_iff, unknown_iff, ← hab.lacks]
  constructor
  · rintro ⟨ha, hb, -⟩ hr
    by_cases hlacks : ∃ line ∈ a.items, products.Lacks line.oid
    · exact Or.inl hlacks
    · refine Or.inr ⟨?_, ?_⟩
      · by_contra hlower
        exact hlacks (ha.mp ⟨hr, Or.inr hlower⟩).2
      · by_contra hlower
        exact hlacks (hb.mp ⟨hab.reached hr, Or.inr hlower⟩).2
  · intro h
    refine ⟨and_congr_right fun hr => or_iff_left_of_imp fun hlower => ?_,
      and_congr_right fun hr => or_iff_left_of_imp fun hlower => ?_, ?_⟩
    · exact (h hr).resolve_right fun hlowers => hlower hlowers.1
    · exact (h (hab.symm.reached hr)).resolve_right fun hlowers => hlower hlowers.2
    by_cases hr : Reached env rows user a fails
    · rcases h hr with hlacks | ⟨ha, hb⟩
      · exact sameOutcome_of_unknown (unknown_iff.mpr ⟨hr, Or.inl hlacks⟩)
          (unknown_iff.mpr ⟨hab.reached hr, Or.inl (hab.lacks.mp hlacks)⟩)
      · rw [hab.eq ha hb]
        exact ⟨rfl, rfl, Or.inl rfl⟩
    · obtain ⟨e, -, hprep⟩ := prepare_unreached products hr
      rw [outcome_of_error (hprep a (SamePayload.refl a)), outcome_of_error (hprep b hab)]
      exact ⟨rfl, rfl, Or.inl rfl⟩

theorem one_piece : 0 < 1 ∧ 1 ≤ 50 := by decide

/-- One curry, ordered by the id as it is spelled here. -/
def curryBy (productId : Text) (h : productId.length = 24 ∧ productId.all isHexDigit = true) :
    OrderCreate where
  restaurantId := 1
  reservationId := none
  items := [⟨productId, 1, none, h, one_piece⟩]
  restaurantId_pos := Nat.one_pos
  reservationId_pos := no_reservation
  items_length := ⟨Nat.le_refl 1, Nat.le_of_ble_eq_true rfl⟩

theorem samePayload_curryBy {x y : Text} (hx : x.length = 24 ∧ x.all isHexDigit = true)
    (hy : y.length = 24 ∧ y.all isHexDigit = true)
    (h : x.map Char.toLower = y.map Char.toLower) : SamePayload (curryBy x hx) (curryBy y hy) :=
  ⟨rfl, rfl, .cons ⟨ObjectId.eq_of_hex h, rfl, rfl⟩ .nil⟩

/-- The curry by its id. -/
def byLower : OrderCreate := curryBy "665f1a2b9c4e5d6f7a8b9c01".toList (by decide)

/-- The curry by its id in capitals. -/
def byUpper : OrderCreate := curryBy "665F1A2B9C4E5D6F7A8B9C01".toList (by decide)

theorem byLower_byUpper : SamePayload byLower byUpper := samePayload_curryBy _ _ (by decide)

/-- A curry, and a soup by an id as it is spelled here. -/
def withSoup (productId : Text) (h : productId.length = 24 ∧ productId.all isHexDigit = true) :
    OrderCreate where
  restaurantId := 1
  reservationId := none
  items := [curryId.line 1 one_piece, ⟨productId, 1, none, h, one_piece⟩]
  restaurantId_pos := Nat.one_pos
  reservationId_pos := no_reservation
  items_length := ⟨Nat.le_of_ble_eq_true rfl, Nat.le_of_ble_eq_true rfl⟩

theorem samePayload_withSoup {x y : Text} (hx : x.length = 24 ∧ x.all isHexDigit = true)
    (hy : y.length = 24 ∧ y.all isHexDigit = true)
    (h : x.map Char.toLower = y.map Char.toLower) : SamePayload (withSoup x hx) (withSoup y hy) :=
  ⟨rfl, rfl, .cons ⟨rfl, rfl, rfl⟩ (.cons ⟨ObjectId.eq_of_hex h, rfl, rfl⟩ .nil)⟩

theorem soupId_pattern : "665f1a2b9c4e5d6f7a8b9c0f".toList.length = 24 ∧
    "665f1a2b9c4e5d6f7a8b9c0f".toList.all isHexDigit = true := by decide

theorem soupId_upper_pattern : "665F1A2B9C4E5D6F7A8B9C0F".toList.length = 24 ∧
    "665F1A2B9C4E5D6F7A8B9C0F".toList.all isHexDigit = true := by decide

/-- The soup by its id. -/
def soupLower : OrderCreate := withSoup "665f1a2b9c4e5d6f7a8b9c0f".toList soupId_pattern

/-- The soup by its id in capitals. -/
def soupUpper : OrderCreate := withSoup "665F1A2B9C4E5D6F7A8B9C0F".toList soupId_upper_pattern

theorem soupLower_soupUpper : SamePayload soupLower soupUpper := samePayload_withSoup _ _ (by decide)

/-- The soup is not on the menu any more. -/
theorem menu_lacks_soup :
    ∃ line ∈ soupLower.items, (menu "THB".toList).Lacks line.oid := by
  refine ⟨_, List.mem_cons_of_mem _ (List.mem_singleton_self _), fun p hp => ?_⟩
  rcases List.mem_cons.mp hp with rfl | hp
  · decide
  · rw [List.mem_singleton.mp hp]
    decide

/-- It is unknown in either case, with a curry beside it that is known. -/
theorem gone_soup_by_value :
    UnknownByValue sample [] (menu "THB".toList) 0 emptyTill customer soupLower none ∧
      UnknownByValue sample [] (menu "THB".toList) 0 emptyTill customer soupUpper none ∧
      SameOutcome (createOrder sample [] (menu "THB".toList) 0 emptyTill customer soupLower none)
        (createOrder sample [] (menu "THB".toList) 0 emptyTill customer soupUpper none) :=
  (lookup_by_value_iff sample [] (menu "THB".toList) 0 emptyTill customer none soupLower soupUpper
    soupLower_soupUpper).mpr fun _ => Or.inl menu_lacks_soup

/-- **On the menu it is unknown in upper case**: the document is found by its value, and not by its
    text. -/
theorem upper_case_unknown :
    ¬ ∀ (env : Env) (rows : List Reservation) (products : Catalogue) (now : Int) (t : Till)
      (user : User) (fails : Option Call) (a b : OrderCreate), SamePayload a b →
      UnknownByValue env rows products now t user a fails ∧
        UnknownByValue env rows products now t user b fails ∧
        SameOutcome (createOrder env rows products now t user a fails)
          (createOrder env rows products now t user b fails) := by
  intro h
  obtain ⟨-, -, -, hcommitted, -⟩ := h sample [] (menu "THB".toList) 0 emptyTill customer none
    byLower byUpper byLower_byUpper
  exact absurd hcommitted (by decide)

end Call

end TableFlow.Checkout
