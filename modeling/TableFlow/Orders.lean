/-
  Order status: any number of staff change the status of orders at the same time.

  1. **The code** — one call of `advance_status` is five stretches:
         arrived -> read -> updating -> committing -> saved -> done        (200)
                         -> refusing -> done                               (409)
                 -> done                                                   (404)
     `SELECT .. FOR UPDATE` waits while another call holds the order's lock and then reads the
     latest committed status; the lock is held until the commit or the rollback.

  2. **The invariant** (`Inv`) — a call between its SELECT and the end of its transaction holds the
     order's lock, so the status it has read is still the committed one: its check is as good as if
     check and write were one step.

  3. **The log** — every commit appends a `Change`.  The statuses of an order are those of its
     changes, they are a path in `transitions`, and the changes correspond one to one to the calls
     that are answered with success.

  4. **Races** (`Racing`) — of calls on one order that exclude each other one succeeds.
-/
import TableFlow.Lib.Run
import TableFlow.Model
import Mathlib.Data.List.Chain

namespace TableFlow.Orders

open Lib

/-! ## Orders and their statuses -/

/-- `OrderStatus` -/
inductive OrderStatus
  | placed
  | preparing
  | ready
  | completed
  | cancelled
  deriving DecidableEq, Repr

/-- The values of `OrderStatus`. -/
def OrderStatus.value : OrderStatus → String
  | .placed => "placed"
  | .preparing => "preparing"
  | .ready => "ready"
  | .completed => "completed"
  | .cancelled => "cancelled"

/-- `TRANSITIONS`. -/
def transitions : OrderStatus → List OrderStatus
  | .placed => [.preparing, .cancelled]
  | .preparing => [.ready, .cancelled]
  | .ready => [.completed]
  | .completed => []
  | .cancelled => []

/-- One row of `orders`. -/
structure Order where
  id : Nat
  userId : Nat
  restaurantId : Nat
  reservationId : Option Nat
  status : OrderStatus
  /-- In hundredths of the currency. -/
  totalAmount : Nat
  currency : Text
  createdAt : Int
  deriving DecidableEq, Repr

/-! ## Calls of `advance_status` -/

/-- How `advance_status` answers. -/
inductive Answer
  /-- 200 with the order. -/
  | order (o : Order)
  | refused (e : HTTPException)
  | failed (e : ServerError)
  deriving DecidableEq

/-- How far a call is; between two stages others run. -/
inductive Stage
  | arrived
  /-- The status is read, the order is locked. -/
  | read (current : OrderStatus)
  /-- The rollback before the 409 is on its way. -/
  | refusing (current : OrderStatus)
  /-- The UPDATE is on its way. -/
  | updating (current : OrderStatus)
  | committing (current : OrderStatus)
  /-- The SELECT of the order is on its way. -/
  | saved
  | done (a : Answer)
  deriving DecidableEq

/-- A call of `advance_status` under way. -/
structure Call where
  orderId : Nat
  new : OrderStatus
  stage : Stage
  deriving DecidableEq

/-- A committed change of status: the call that made it, the order and its new status. -/
structure Change where
  call : Nat
  order : Nat
  after : OrderStatus
  deriving DecidableEq

/-- The table `orders` with its row locks, and the calls. -/
structure Shop where
  orders : List Order
  /-- The sequence of order ids. -/
  nextId : Nat
  /-- The locked orders and the calls that hold the locks. -/
  locks : List (Nat × Nat)
  calls : List Call
  log : List Change

namespace Shop

/-- No orders yet. -/
def start : Shop := ⟨[], 1, [], [], []⟩

/-- The order with this id. -/
def find (s : Shop) (id : Nat) : Option Order := s.orders.find? (·.id == id)

/-- Another call than `i` holds the lock of the order. -/
def lockedByOther (s : Shop) (i id : Nat) : Bool := s.locks.any fun l => l.1 == id && l.2 != i

end Shop

/-- What a stretch does to the database. -/
inductive Effect
  | none
  | lock
  | rollback
  | commit

/-- The next stretch of call `i` of `advance_status`, `none` when it waits for the lock. -/
def act (s : Shop) (i : Nat) (c : Call) : Option (Effect × Stage) :=
  match c.stage with
  | .arrived =>
    if fitsBigint c.orderId = false then some (.none, .done (.failed (.database .dataError)))
    else
      match s.find c.orderId with
      | none => some (.none, .done (.refused ⟨404, "Order not found"⟩))
      | some o => if s.lockedByOther i c.orderId then none else some (.lock, .read o.status)
  | .read current =>
    if c.new ∉ transitions current then some (.none, .refusing current)
    else some (.none, .updating current)
  | .refusing current =>
    some (.rollback,
      .done (.refused ⟨409, s!"Order is {current.value}; it cannot move to {c.new.value}"⟩))
  | .updating current => some (.none, .committing current)
  | .committing _ => some (.commit, .saved)
  | .saved =>
    match s.find c.orderId with
    | none => some (.none, .done (.failed .noRow))
    | some o => some (.none, .done (.order o))
  | .done _ => none

/-- `UPDATE orders SET status = new WHERE id = id`. -/
def updateStatus (orders : List Order) (id : Nat) (new : OrderStatus) : List Order :=
  orders.map fun o => if o.id = id then { o with status := new } else o

/-- The effect of call `i`. -/
def Shop.apply (s : Shop) (i : Nat) (c : Call) : Effect → Shop
  | .none => s
  | .lock => { s with locks := s.locks ++ [(c.orderId, i)] }
  | .rollback => { s with locks := s.locks.filter (·.2 != i) }
  | .commit =>
    { s with
      orders := updateStatus s.orders c.orderId c.new
      locks := s.locks.filter (·.2 != i)
      log := s.log ++ [⟨i, c.orderId, c.new⟩] }

/-- Call `i` has done `e` and is now at `st`. -/
def Shop.advance (s : Shop) (i : Nat) (c : Call) (e : Effect) (st : Stage) : Shop :=
  { s.apply i c e with calls := s.calls.set i { c with stage := st } }

/-- What happens next. -/
inductive Label
  /-- An order is placed; it gets the next id. -/
  | place (o : Order)
  /-- A call of `advance_status` arrives. -/
  | call (orderId : Nat) (new : OrderStatus)
  | step (i : Nat)

/-- Orders being placed and changed. -/
def kitchen : Machine Shop Label where
  step s
    | .place o =>
      some { s with
        orders := s.orders ++ [{ o with id := s.nextId, status := .placed }]
        nextId := s.nextId + 1 }
    | .call orderId new => some { s with calls := s.calls ++ [⟨orderId, new, .arrived⟩] }
    | .step i =>
      s.calls[i]?.bind fun c => (act s i c).map fun x => s.advance i c x.1 x.2

/-! ## What one step can do -/

/-- Every stretch of call `i`. -/
inductive Act (s : Shop) (i : Nat) (c : Call) : Stage → Effect → Stage → Prop
  | badId : fitsBigint c.orderId = false →
      Act s i c .arrived .none (.done (.failed (.database .dataError)))
  | missing : s.find c.orderId = none →
      Act s i c .arrived .none (.done (.refused ⟨404, "Order not found"⟩))
  | lock {o} : s.find c.orderId = some o → s.lockedByOther i c.orderId = false →
      Act s i c .arrived .lock (.read o.status)
  | reject {current} : c.new ∉ transitions current →
      Act s i c (.read current) .none (.refusing current)
  | accept {current} : c.new ∈ transitions current →
      Act s i c (.read current) .none (.updating current)
  | refuse {current} : Act s i c (.refusing current) .rollback
      (.done (.refused ⟨409, s!"Order is {current.value}; it cannot move to {c.new.value}"⟩))
  | update {current} : Act s i c (.updating current) .none (.committing current)
  | commit {current} : Act s i c (.committing current) .commit .saved
  | lost : s.find c.orderId = none → Act s i c .saved .none (.done (.failed .noRow))
  | respond {o} : s.find c.orderId = some o → Act s i c .saved .none (.done (.order o))

/-- What a label does. -/
inductive Step (s : Shop) : Label → Shop → Prop
  | place (o : Order) : Step s (.place o)
      { s with
        orders := s.orders ++ [{ o with id := s.nextId, status := .placed }]
        nextId := s.nextId + 1 }
  | call (orderId : Nat) (new : OrderStatus) : Step s (.call orderId new)
      { s with calls := s.calls ++ [⟨orderId, new, .arrived⟩] }
  | act {i : Nat} {c : Call} {e : Effect} {st : Stage} : s.calls[i]? = some c →
      Act s i c c.stage e st → Step s (.step i) (s.advance i c e st)

theorem act_cases {s : Shop} {i : Nat} {c : Call} {e : Effect} {st : Stage}
    (h : act s i c = some (e, st)) : Act s i c c.stage e st := by
  have inj : ∀ {e₀ : Effect} {st₀ : Stage}, some (e₀, st₀) = some (e, st) → e₀ = e ∧ st₀ = st :=
    fun h => Prod.mk.inj (Option.some.inj h)
  obtain ⟨id, new, stage⟩ := c
  cases stage with
  | arrived =>
    unfold act at h
    dsimp only at h
    split at h
    · next hid =>
      obtain ⟨rfl, rfl⟩ := inj h
      exact .badId hid
    · split at h
      · next hf =>
        obtain ⟨rfl, rfl⟩ := inj h
        exact .missing hf
      · next o hf =>
        split at h
        · exact absurd h (by simp)
        · next hl =>
          obtain ⟨rfl, rfl⟩ := inj h
          exact .lock hf (by simpa using hl)
  | read current =>
    unfold act at h
    dsimp only at h
    split at h
    · next hn =>
      obtain ⟨rfl, rfl⟩ := inj h
      exact .reject hn
    · next hn =>
      obtain ⟨rfl, rfl⟩ := inj h
      exact .accept (not_not.mp hn)
  | refusing current =>
    obtain ⟨rfl, rfl⟩ := inj h
    exact .refuse
  | updating current =>
    obtain ⟨rfl, rfl⟩ := inj h
    exact .update
  | committing current =>
    obtain ⟨rfl, rfl⟩ := inj h
    exact .commit
  | saved =>
    unfold act at h
    dsimp only at h
    split at h
    · next hf =>
      obtain ⟨rfl, rfl⟩ := inj h
      exact .lost hf
    · next o hf =>
      obtain ⟨rfl, rfl⟩ := inj h
      exact .respond hf
  | done a => exact absurd h (by simp [act])

theorem step_cases {s s' : Shop} {l : Label} (h : kitchen.step s l = some s') : Step s l s' := by
  cases l with
  | place o =>
    obtain rfl := Option.some.inj h
    exact .place o
  | call orderId new =>
    obtain rfl := Option.some.inj h
    exact .call orderId new
  | step i =>
    obtain ⟨c, hc, h⟩ := Option.bind_eq_some_iff.mp h
    obtain ⟨⟨e, st⟩, ha, rfl⟩ := Option.map_eq_some_iff.mp h
    exact .act hc (act_cases ha)

/-! ## The invariant -/

/-- The transaction of the call is open: it holds the order's lock. -/
def Stage.open : Stage → Bool
  | .read _ | .refusing _ | .updating _ | .committing _ => true
  | _ => false

/-- The call has committed; its answer is a success. -/
def Stage.succeeded : Stage → Bool
  | .saved | .done (.order _) => true
  | _ => false

/-- The call holds the lock, and the order still has the status it has read. -/
def Locked (s : Shop) (i : Nat) (c : Call) (current : OrderStatus) : Prop :=
  (c.orderId, i) ∈ s.locks ∧ ∃ o ∈ s.orders, o.id = c.orderId ∧ o.status = current

/-- The data of a stage. -/
def StageOk (s : Shop) (i : Nat) (c : Call) : Stage → Prop
  | .arrived => True
  | .read current => Locked s i c current
  | .refusing current => Locked s i c current ∧ c.new ∉ transitions current
  | .updating current => Locked s i c current ∧ c.new ∈ transitions current
  | .committing current => Locked s i c current ∧ c.new ∈ transitions current
  | .saved => (∃ x ∈ s.log, x.call = i) ∧ ∃ o ∈ s.orders, o.id = c.orderId
  | .done (.order _) => ∃ x ∈ s.log, x.call = i
  | .done (.refused _) => True
  | .done (.failed _) => fitsBigint c.orderId = false

/-- The statuses an order takes. -/
def statuses (log : List Change) (id : Nat) : List OrderStatus :=
  .placed :: (log.filter (·.order == id)).map (·.after)

/-- What holds of the orders, the locks and the calls in every state. -/
structure Inv (s : Shop) : Prop where
  keys : (s.orders.map Order.id).Nodup
  ids : ∀ o ∈ s.orders, o.id < s.nextId
  locksOnce : (s.locks.map Prod.fst).Nodup
  holders : ∀ l ∈ s.locks, ∃ c, s.calls[l.2]? = some c ∧ c.orderId = l.1 ∧ c.stage.open = true
  stages : ∀ i c, s.calls[i]? = some c → StageOk s i c c.stage
  /-- Every change was made by a call that has succeeded with it. -/
  logged : ∀ x ∈ s.log, ∃ c, s.calls[x.call]? = some c ∧ c.orderId = x.order ∧ c.new = x.after ∧
    c.stage.succeeded = true
  logOnce : (s.log.map Change.call).Nodup
  known : ∀ x ∈ s.log, ∃ o ∈ s.orders, o.id = x.order
  paths : ∀ o ∈ s.orders, (statuses s.log o.id).IsChain (fun a b => b ∈ transitions a) ∧
    (statuses s.log o.id).getLast? = some o.status

section Reading

variable {s : Shop} {i : Nat} {c : Call}

theorem find_some {id : Nat} {o : Order} (h : s.find id = some o) : o ∈ s.orders ∧ o.id = id :=
  ⟨List.mem_of_find?_eq_some h, by simpa using List.find?_some h⟩

theorem find_none {id : Nat} (h : s.find id = none) : ∀ o ∈ s.orders, o.id ≠ id := by
  intro o ho
  simpa using List.find?_eq_none.mp h o ho

theorem order_unique (h : Inv s) {o o' : Order} (ho : o ∈ s.orders) (ho' : o' ∈ s.orders)
    (hid : o.id = o'.id) : o = o' :=
  List.inj_on_of_nodup_map h.keys ho ho' hid

/-- A call whose transaction is not open holds no lock. -/
theorem Inv.no_lock (h : Inv s) (hc : s.calls[i]? = some c) (hop : c.stage.open = false) :
    ∀ l ∈ s.locks, l.2 ≠ i := by
  rintro l hl rfl
  obtain ⟨c', hc', -, hop'⟩ := h.holders l hl
  obtain rfl := Option.some.inj (hc.symm.trans hc')
  rw [hop] at hop'
  exact absurd hop' (by decide)

/-- The holder of an order's lock. -/
theorem Inv.holder_unique (h : Inv s) {id j k : Nat} (hj : (id, j) ∈ s.locks)
    (hk : (id, k) ∈ s.locks) : j = k :=
  (Prod.mk.inj (List.inj_on_of_nodup_map h.locksOnce hj hk rfl)).2

/-- A change of one order is the last of its statuses, and of no other's. -/
theorem statuses_concat (log : List Change) (x : Change) (id : Nat) :
    statuses (log ++ [x]) id
      = if x.order = id then statuses log id ++ [x.after] else statuses log id := by
  unfold statuses
  rw [List.filter_append, List.map_append]
  by_cases hx : x.order = id
  · rw [if_pos hx, List.filter_singleton, beq_iff_eq.mpr hx]
    simp
  · rw [if_neg hx, List.filter_singleton, beq_eq_false_iff_ne.mpr hx]
    simp

theorem mem_updateStatus {orders : List Order} {id : Nat} {new : OrderStatus} {o : Order}
    (h : o ∈ updateStatus orders id new) :
    ∃ o₀ ∈ orders, o.id = o₀.id ∧
      ((o₀.id = id ∧ o = { o₀ with status := new }) ∨ (o₀.id ≠ id ∧ o = o₀)) := by
  obtain ⟨o₀, h₀, rfl⟩ := List.mem_map.mp h
  refine ⟨o₀, h₀, ?_⟩
  by_cases hid : o₀.id = id
  · rw [if_pos hid]
    exact ⟨rfl, Or.inl ⟨hid, rfl⟩⟩
  · rw [if_neg hid]
    exact ⟨rfl, Or.inr ⟨hid, rfl⟩⟩

/-- An order of another id stays as it is. -/
theorem updateStatus_other {orders : List Order} {id : Nat} {new : OrderStatus} {o : Order}
    (h : o ∈ orders) (hid : o.id ≠ id) : o ∈ updateStatus orders id new :=
  List.mem_map.mpr ⟨o, h, if_neg hid⟩

theorem updateStatus_self {orders : List Order} {id : Nat} {new : OrderStatus} {o : Order}
    (h : o ∈ orders) (hid : o.id = id) : { o with status := new } ∈ updateStatus orders id new :=
  List.mem_map.mpr ⟨o, h, if_pos hid⟩

theorem updateStatus_ids (orders : List Order) (id : Nat) (new : OrderStatus) :
    (updateStatus orders id new).map Order.id = orders.map Order.id := by
  unfold updateStatus
  rw [List.map_map]
  refine List.map_congr_left fun o _ => ?_
  show (if o.id = id then { o with status := new } else o).id = o.id
  split <;> rfl

end Reading

/-! ## One step keeps it -/

section OneStep

variable {s : Shop} {i : Nat} {c : Call} {e : Effect} {st : Stage}

theorem calls_advance_self (hc : s.calls[i]? = some c) :
    (s.advance i c e st).calls[i]? = some { c with stage := st } :=
  List.getElem?_set_self (List.getElem?_eq_some_iff.mp hc).1

theorem calls_advance_ne {j : Nat} (hj : j ≠ i) :
    (s.advance i c e st).calls[j]? = s.calls[j]? :=
  List.getElem?_set_ne fun h => hj h.symm

/-- A call of the next shop: the one that moved, or an old one. -/
theorem call_of_advance {j : Nat} {c' : Call} (h : (s.advance i c e st).calls[j]? = some c') :
    (j = i ∧ c' = { c with stage := st }) ∨ (j ≠ i ∧ s.calls[j]? = some c') := slot_of_set h

theorem order_exists_apply {id : Nat} (h : ∃ o ∈ s.orders, o.id = id) :
    ∃ o ∈ (s.apply i c e).orders, o.id = id := by
  cases e with
  | commit =>
    have hmem : id ∈ s.orders.map Order.id := List.mem_map.mpr h
    rw [← updateStatus_ids s.orders c.orderId c.new] at hmem
    exact List.mem_map.mp hmem
  | _ => exact h

theorem mem_log_apply {x : Change} (h : x ∈ s.log) : x ∈ (s.apply i c e).log := by
  cases e with
  | commit => exact List.mem_append_left _ h
  | _ => exact h

theorem mem_locks_other {l : Nat × Nat} (hl : l.2 ≠ i) :
    l ∈ (s.apply i c e).locks ↔ l ∈ s.locks := by
  cases e with
  | lock =>
    show l ∈ s.locks ++ [(c.orderId, i)] ↔ l ∈ s.locks
    rw [List.mem_append, List.mem_singleton, or_iff_left]
    rintro rfl
    exact hl rfl
  | rollback => simp [Shop.apply, hl]
  | commit => simp [Shop.apply, hl]
  | none => exact Iff.rfl

/-- **The lock protects what was read**: another call's effect does not touch the order. -/
theorem Locked.frame (h : Inv s) (he : e = .commit → (c.orderId, i) ∈ s.locks) {j : Nat}
    (hj : j ≠ i) {c' : Call} {current : OrderStatus} (hl : Locked s j c' current) :
    Locked (s.apply i c e) j c' current := by
  obtain ⟨hlock, o, ho, hid, hst⟩ := hl
  refine ⟨(mem_locks_other hj).mpr hlock, o, ?_, hid, hst⟩
  cases e with
  | commit =>
    refine updateStatus_other ho fun hsame => hj ?_
    rw [← hid, hsame] at hlock
    exact h.holder_unique hlock (he rfl)
  | _ => exact ho

theorem StageOk.frame (h : Inv s) (he : e = .commit → (c.orderId, i) ∈ s.locks) {j : Nat}
    (hj : j ≠ i) {c' : Call} {st : Stage} (hs : StageOk s j c' st) :
    StageOk (s.apply i c e) j c' st := by
  cases st with
  | arrived => trivial
  | read current => exact Locked.frame h he hj hs
  | refusing current => exact ⟨Locked.frame h he hj hs.1, hs.2⟩
  | updating current => exact ⟨Locked.frame h he hj hs.1, hs.2⟩
  | committing current => exact ⟨Locked.frame h he hj hs.1, hs.2⟩
  | saved =>
    obtain ⟨⟨x, hx, hxj⟩, ho⟩ := hs
    exact ⟨⟨x, mem_log_apply hx, hxj⟩, order_exists_apply ho⟩
  | done a =>
    cases a with
    | order o =>
      obtain ⟨x, hx, hxj⟩ := hs
      exact ⟨x, mem_log_apply hx, hxj⟩
    | refused _ => trivial
    | failed _ => exact hs

/-- **The path goes on along an edge**: what a commit does to the statuses of all orders. -/
theorem paths_commit (h : Inv s) {current : OrderStatus} (hl : Locked s i c current)
    (hnew : c.new ∈ transitions current) : ∀ o ∈ (s.apply i c .commit).orders,
      (statuses (s.apply i c .commit).log o.id).IsChain (fun a b => b ∈ transitions a) ∧
        (statuses (s.apply i c .commit).log o.id).getLast? = some o.status := by
  intro o ho
  obtain ⟨o₀, ho₀, hid, hcase⟩ := mem_updateStatus ho
  obtain ⟨hchain, hlast⟩ := h.paths o₀ ho₀
  show (statuses (s.log ++ [⟨i, c.orderId, c.new⟩]) o.id).IsChain _ ∧ _
  rw [hid, statuses_concat]
  rcases hcase with ⟨hk, rfl⟩ | ⟨hk, rfl⟩
  · -- this is the order the call has locked
    obtain ⟨-, o₁, ho₁, hid₁, rfl⟩ := hl
    obtain rfl := order_unique h ho₀ ho₁ (hk.trans hid₁.symm)
    rw [if_pos hk.symm]
    constructor
    · refine hchain.append (List.isChain_singleton _) ?_
      intro a ha b hb
      rw [hlast] at ha
      obtain rfl := Option.some.inj ha
      obtain rfl : c.new = b := Option.some.inj hb
      exact hnew
    · show (statuses (s.log ++ [⟨i, c.orderId, c.new⟩]) o₀.id).getLast? = _
      rw [statuses_concat, if_pos hk.symm, List.getLast?_concat]
  · rw [if_neg fun heq => hk heq.symm]
    refine ⟨hchain, ?_⟩
    show (statuses (s.log ++ [⟨i, c.orderId, c.new⟩]) o.id).getLast? = _
    rw [statuses_concat, if_neg fun heq => hk heq.symm]
    exact hlast

/-- Only a free order is locked, by a call that has no lock. -/
theorem locksOnce_apply (h : Inv s) (hc : s.calls[i]? = some c)
    (hlock : e = .lock → s.lockedByOther i c.orderId = false ∧ c.stage.open = false) :
    ((s.apply i c e).locks.map Prod.fst).Nodup := by
  cases e with
  | lock =>
    obtain ⟨hfree, hop⟩ := hlock rfl
    refine nodup_map_concat h.locksOnce fun l hl hid => ?_
    have hown : l.2 = i := by simpa [hid] using List.any_eq_false.mp hfree l hl
    exact h.no_lock hc hop l hl hown
  | rollback => exact h.locksOnce.sublist (List.filter_sublist.map _)
  | commit => exact h.locksOnce.sublist (List.filter_sublist.map _)
  | none => exact h.locksOnce

/-- The change that a commit logs is the call's own. -/
theorem logged_advance (h : Inv s) (hc : s.calls[i]? = some c) (hcommit : e = .commit → st = .saved)
    (hsucc : c.stage.succeeded = true → st.succeeded = true) : ∀ x ∈ (s.apply i c e).log,
      ∃ c', (s.advance i c e st).calls[x.call]? = some c' ∧ c'.orderId = x.order ∧
        c'.new = x.after ∧ c'.stage.succeeded = true := by
  have old : ∀ x ∈ s.log, ∃ c', (s.advance i c e st).calls[x.call]? = some c' ∧
      c'.orderId = x.order ∧ c'.new = x.after ∧ c'.stage.succeeded = true := by
    intro x hx
    obtain ⟨c', hc', hid, hnew, hs⟩ := h.logged x hx
    by_cases hj : x.call = i
    · rw [hj] at hc' ⊢
      obtain rfl := Option.some.inj (hc.symm.trans hc')
      exact ⟨_, calls_advance_self hc, hid, hnew, hsucc hs⟩
    · exact ⟨c', (calls_advance_ne hj).trans hc', hid, hnew, hs⟩
  cases e with
  | commit =>
    intro x hx
    rcases List.mem_append.mp hx with hx | hx
    · exact old x hx
    · obtain rfl := List.mem_singleton.mp hx
      obtain rfl := hcommit rfl
      exact ⟨_, calls_advance_self hc, rfl, rfl, rfl⟩
  | _ => exact old

/-- A call that has not succeeded has no change in the log. -/
theorem logOnce_apply (h : Inv s) (hc : s.calls[i]? = some c)
    (hcommit : e = .commit → c.stage.succeeded = false) :
    ((s.apply i c e).log.map Change.call).Nodup := by
  cases e with
  | commit =>
    refine nodup_map_concat h.logOnce fun x hx hcall => ?_
    obtain ⟨c', hc', -, -, hs⟩ := h.logged x hx
    rw [hcall] at hc'
    obtain rfl := Option.some.inj (hc.symm.trans hc')
    rw [hcommit rfl] at hs
    exact absurd hs (by decide)
  | _ => exact h.logOnce

/-- **The step rule.** -/
theorem Inv.advance (h : Inv s) (hc : s.calls[i]? = some c)
    (hlock : e = .lock → s.lockedByOther i c.orderId = false ∧ c.stage.open = false)
    (hcommit : e = .commit → ∃ current, Locked s i c current ∧ c.new ∈ transitions current ∧
      c.stage.succeeded = false ∧ st = .saved)
    (hstage : StageOk (s.apply i c e) i { c with stage := st } st)
    (hholds : ∀ l ∈ (s.apply i c e).locks, l.2 = i → l.1 = c.orderId ∧ st.open = true)
    (hsucc : c.stage.succeeded = true → st.succeeded = true) : Inv (s.advance i c e st) where
  keys := by
    cases e with
    | commit =>
      show ((updateStatus s.orders c.orderId c.new).map Order.id).Nodup
      rw [updateStatus_ids]
      exact h.keys
    | _ => exact h.keys
  ids := by
    cases e with
    | commit =>
      intro o ho
      obtain ⟨o₀, ho₀, hid, -⟩ := mem_updateStatus ho
      rw [hid]
      exact h.ids o₀ ho₀
    | _ => exact h.ids
  locksOnce := locksOnce_apply h hc hlock
  holders := by
    intro l hl
    by_cases hi : l.2 = i
    · obtain ⟨hk, hop⟩ := hholds l hl hi
      exact ⟨{ c with stage := st }, by rw [hi]; exact calls_advance_self hc, hk.symm, hop⟩
    · obtain ⟨c', hc', hrest⟩ := h.holders l ((mem_locks_other hi).mp hl)
      exact ⟨c', (calls_advance_ne hi).trans hc', hrest⟩
  stages := by
    intro j c' hc'
    rcases call_of_advance hc' with ⟨rfl, rfl⟩ | ⟨hj, hc'⟩
    · exact hstage
    · refine StageOk.frame h (fun he => ?_) hj (h.stages j c' hc')
      obtain ⟨current, hl, -⟩ := hcommit he
      exact hl.1
  logged := logged_advance h hc (fun he => (hcommit he).choose_spec.2.2.2) hsucc
  logOnce := logOnce_apply h hc fun he => (hcommit he).choose_spec.2.2.1
  known := by
    cases e with
    | commit =>
      intro x hx
      rcases List.mem_append.mp hx with hx | hx
      · exact order_exists_apply (i := i) (e := .commit) (h.known x hx)
      · obtain rfl := List.mem_singleton.mp hx
        obtain ⟨current, ⟨-, o, ho, hid, -⟩, -⟩ := hcommit rfl
        exact order_exists_apply (i := i) (e := .commit) ⟨o, ho, hid⟩
    | _ => exact h.known
  paths := by
    cases e with
    | commit =>
      obtain ⟨current, hl, hnew, -⟩ := hcommit rfl
      exact paths_commit h hl hnew
    | _ => exact h.paths

/-- **Every stretch of a call keeps the invariant.** -/
theorem Inv.act (h : Inv s) (hc : s.calls[i]? = some c) (ha : Act s i c c.stage e st) :
    Inv (s.advance i c e st) := by
  have hs := h.stages i c hc
  have hheld : ∀ l ∈ s.locks, l.2 = i → l.1 = c.orderId := by
    rintro l hl rfl
    obtain ⟨c', hc', hid, -⟩ := h.holders l hl
    obtain rfl := Option.some.inj (hc.symm.trans hc')
    exact hid.symm
  obtain ⟨id, new, stage⟩ := c
  have free : stage.open = false → ∀ l ∈ s.locks, l.2 = i → l.1 = id ∧ st.open = true :=
    fun hop l hl hi => absurd hi (h.no_lock hc hop l hl)
  cases ha with
  | badId hid => exact h.advance hc (by simp) (by simp) hid (free rfl) (by simp [Stage.succeeded])
  | missing _ => exact h.advance hc (by simp) (by simp) trivial (free rfl) (by simp [Stage.succeeded])
  | lock hf hfree =>
    obtain ⟨ho, hid⟩ := find_some hf
    refine h.advance hc (fun _ => ⟨hfree, rfl⟩) (by simp) ?_ ?_ (by simp [Stage.succeeded])
    · exact ⟨List.mem_append_right _ (List.mem_singleton.mpr rfl), _, ho, hid, rfl⟩
    · intro l hl hi
      rcases List.mem_append.mp hl with hl | hl
      · exact ⟨hheld l hl hi, rfl⟩
      · rw [List.mem_singleton.mp hl]
        exact ⟨rfl, rfl⟩
  | reject hn =>
    exact h.advance hc (by simp) (by simp) ⟨hs, hn⟩ (fun l hl hi => ⟨hheld l hl hi, rfl⟩)
      (by simp [Stage.succeeded])
  | accept hn =>
    exact h.advance hc (by simp) (by simp) ⟨hs, hn⟩ (fun l hl hi => ⟨hheld l hl hi, rfl⟩)
      (by simp [Stage.succeeded])
  | refuse =>
    exact h.advance hc (by simp) (by simp) trivial
      (fun l hl hi => absurd hi (by simpa using (List.mem_filter.mp hl).2)) (by simp [Stage.succeeded])
  | update =>
    exact h.advance hc (by simp) (by simp) hs (fun l hl hi => ⟨hheld l hl hi, rfl⟩)
      (by simp [Stage.succeeded])
  | commit =>
    obtain ⟨hl, hnew⟩ := hs
    obtain ⟨o, ho, hid, -⟩ := hl.2
    refine h.advance hc (by simp) (fun _ => ⟨_, hl, hnew, rfl, rfl⟩) ?_
      (fun l hl hi => absurd hi (by simpa using (List.mem_filter.mp hl).2)) (by simp [Stage.succeeded])
    exact ⟨⟨_, List.mem_append_right _ (List.mem_singleton.mpr rfl), rfl⟩,
      order_exists_apply (i := i) (e := .commit) ⟨o, ho, hid⟩⟩
  | lost hf =>
    obtain ⟨-, o, ho, hid⟩ := hs
    exact absurd hid (find_none hf o ho)
  | respond hf => exact h.advance hc (by simp) (by simp) hs.1 (free rfl) (fun _ => rfl)

end OneStep

/-- **One step keeps the invariant.** -/
theorem Inv.step {s s' : Shop} {l : Label} (h : Inv s) (hst : kitchen.step s l = some s') :
    Inv s' := by
  cases step_cases hst with
  | place o =>
    have hnew : ∀ o₀ ∈ s.orders, o₀.id ≠ s.nextId := fun o₀ ho => Nat.ne_of_lt (h.ids o₀ ho)
    have hlocked : ∀ {i : Nat} {c : Call} {current : OrderStatus}, Locked s i c current →
        ∃ o' ∈ s.orders ++ [{ o with id := s.nextId, status := .placed }],
          o'.id = c.orderId ∧ o'.status = current :=
      fun ⟨_, o', ho', hrest⟩ => ⟨o', List.mem_append_left _ ho', hrest⟩
    refine ⟨?_, ?_, h.locksOnce, h.holders, ?_, h.logged, h.logOnce, ?_, ?_⟩
    · exact nodup_map_concat h.keys hnew
    · intro o' ho'
      rcases List.mem_append.mp ho' with ho' | ho'
      · exact Nat.lt_succ_of_lt (h.ids o' ho')
      · rw [List.mem_singleton.mp ho']
        exact Nat.lt_succ_self _
    · intro i c hc
      have hs := h.stages i c hc
      obtain ⟨id, new, stage⟩ := c
      cases stage with
      | arrived => trivial
      | read current => exact ⟨hs.1, hlocked hs⟩
      | refusing current => exact ⟨⟨hs.1.1, hlocked hs.1⟩, hs.2⟩
      | updating current => exact ⟨⟨hs.1.1, hlocked hs.1⟩, hs.2⟩
      | committing current => exact ⟨⟨hs.1.1, hlocked hs.1⟩, hs.2⟩
      | saved =>
        obtain ⟨hx, o', ho', hid⟩ := hs
        exact ⟨hx, o', List.mem_append_left _ ho', hid⟩
      | done a => cases a <;> exact hs
    · intro x hx
      obtain ⟨o', ho', hid⟩ := h.known x hx
      exact ⟨o', List.mem_append_left _ ho', hid⟩
    · intro o' ho'
      rcases List.mem_append.mp ho' with ho' | ho'
      · exact h.paths o' ho'
      · -- nothing has happened to the new order
        rw [List.mem_singleton.mp ho']
        have hnone : s.log.filter (·.order == s.nextId) = [] := by
          refine List.filter_eq_nil_iff.mpr fun x hx hk => ?_
          obtain ⟨o₀, ho₀, hid⟩ := h.known x hx
          exact hnew o₀ ho₀ (hid.trans (eq_of_beq hk))
        show (statuses s.log s.nextId).IsChain _ ∧ (statuses s.log s.nextId).getLast? = some .placed
        unfold statuses
        rw [hnone]
        exact ⟨List.isChain_singleton _, rfl⟩
  | call orderId new =>
    refine ⟨h.keys, h.ids, h.locksOnce, ?_, ?_, ?_, h.logOnce, h.known, h.paths⟩
    · intro l hl
      obtain ⟨c, hc, hrest⟩ := h.holders l hl
      exact ⟨c, slot_append hc _, hrest⟩
    · intro i c hc
      rcases slot_of_concat hc with hc | ⟨-, rfl⟩
      · exact h.stages i c hc
      · trivial
    · intro x hx
      obtain ⟨c, hc, hrest⟩ := h.logged x hx
      exact ⟨c, slot_append hc _, hrest⟩
  | act hc ha => exact h.act hc ha

theorem inv_start : Inv .start where
  keys := List.nodup_nil
  ids := fun _ ho => absurd ho (List.not_mem_nil)
  locksOnce := List.nodup_nil
  holders := fun _ hl => absurd hl (List.not_mem_nil)
  stages := fun _ _ hc => absurd hc (by simp [Shop.start])
  logged := fun _ hx => absurd hx (List.not_mem_nil)
  logOnce := List.nodup_nil
  known := fun _ hx => absurd hx (List.not_mem_nil)
  paths := fun _ ho => absurd ho (List.not_mem_nil)

theorem inv_of_reach {C : Shop → Label → Prop} {s s' : Shop} (h : Inv s)
    (hr : kitchen.Reach C s s') : Inv s' :=
  hr.invariant h fun _ _ _ h _ hst => h.step hst

/-! ## Final statuses -/

/-- **An order without edges to follow is never changed again.** -/
theorem final_stays {C : Shop → Label → Prop} {s s' : Shop} (h : Inv s)
    (hr : kitchen.Reach C s s') {o : Order} (ho : o ∈ s.orders) (hf : transitions o.status = []) :
    o ∈ s'.orders := by
  have := hr.invariant (I := fun s => Inv s ∧ o ∈ s.orders) ⟨h, ho⟩ ?_
  · exact this.2
  rintro s l s' ⟨h, ho⟩ - hst
  refine ⟨h.step hst, ?_⟩
  cases step_cases hst with
  | place o' => exact List.mem_append_left _ ho
  | call orderId new => exact ho
  | @act i c e st hc ha =>
    cases e with
    | commit =>
      refine updateStatus_other ho fun hid => ?_
      have hs := h.stages i c hc
      obtain ⟨id, new, stage⟩ := c
      cases ha with
      | commit =>
        obtain ⟨⟨-, o', ho', hid', rfl⟩, hnew⟩ := hs
        obtain rfl := order_unique h ho ho' (hid.trans hid'.symm)
        rw [hf] at hnew
        exact absurd hnew (List.not_mem_nil)
    | _ => exact ho

/-! ## Races -/

/-- Changes of one order from one status that exclude each other: after one of them no other is
    an edge. -/
structure Race where
  order : Nat
  current : OrderStatus
  target : OrderStatus → Prop
  sendable : fitsBigint order = true
  exits : ∀ t, target t → t ∈ transitions current
  exclusive : ∀ t t', target t → target t' → t' ∉ transitions t

namespace Race

variable (r : Race)

/-- The calls on the order that arrive during the race ask for its targets. -/
def Fair (_ : Shop) (l : Label) : Prop := ∀ new, l = .call r.order new → r.target new

/-- The race starts: the order is at the status, and no call on it is under way. -/
structure Starts (s : Shop) : Prop where
  order : ∃ o ∈ s.orders, o.id = r.order ∧ o.status = r.current
  idle : ∀ (i : Nat) (c : Call), s.calls[i]? = some c → c.orderId = r.order →
    ∃ a, c.stage = .done a

/-- A call of the race: it arrived as number `n` or later. -/
def Runs (n : Nat) (s : Shop) (i : Nat) (c : Call) : Prop :=
  n ≤ i ∧ s.calls[i]? = some c ∧ c.orderId = r.order

/-- Stages that no call of the race has reached before one of them has won. -/
def decided : Stage → Bool
  | .refusing _ | .saved | .done _ => true
  | _ => false

theorem decided_of_succeeded {st : Stage} (h : st.succeeded = true) : decided st = true := by
  cases st with
  | saved => rfl
  | done a => rfl
  | _ => exact absurd h (by simp [Stage.succeeded])

/-- The state of the race, whose calls are those from number `n` on: nobody has won and the order
    is still where the race started, or one call has won and the order is at its target. -/
structure Racing (n : Nat) (s : Shop) : Prop where
  bound : n ≤ s.calls.length
  idle : ∀ (i : Nat) (c : Call), i < n → s.calls[i]? = some c → c.orderId = r.order →
    ∃ a, c.stage = .done a
  targets : ∀ i c, r.Runs n s i c → r.target c.new
  answers : ∀ i c, r.Runs n s i c → ∀ a, c.stage = .done a →
    (∃ o, a = .order o) ∨ ∃ e, a = .refused e ∧ e.status = 409
  outcome :
    ((∃ o ∈ s.orders, o.id = r.order ∧ o.status = r.current) ∧
      ∀ i c, r.Runs n s i c → decided c.stage = false) ∨
    ((∃ o ∈ s.orders, o.id = r.order ∧ r.target o.status) ∧
      ∃ i c, r.Runs n s i c ∧ c.stage.succeeded = true ∧
        ∀ j c', r.Runs n s j c' → c'.stage.succeeded = true → j = i)

variable {r} {n : Nat} {s : Shop} {i : Nat} {c : Call} {e : Effect} {st : Stage}

theorem Racing.exists_order (h : r.Racing n s) : ∃ o ∈ s.orders, o.id = r.order := by
  rcases h.outcome with ⟨⟨o, ho, hid, -⟩, -⟩ | ⟨⟨o, ho, hid, -⟩, -⟩
  · exact ⟨o, ho, hid⟩
  · exact ⟨o, ho, hid⟩

/-- The calls of the race after a call of it has moved. -/
theorem runs_of_advance (hc : s.calls[i]? = some c) {j : Nat} {c' : Call}
    (h : r.Runs n (s.advance i c e st) j c') :
    (j = i ∧ c' = { c with stage := st } ∧ r.Runs n s i c) ∨ (j ≠ i ∧ r.Runs n s j c') := by
  obtain ⟨hn, hc', hid⟩ := h
  rcases call_of_advance hc' with ⟨rfl, rfl⟩ | ⟨hj, hc'⟩
  · exact Or.inl ⟨rfl, rfl, hn, hc, hid⟩
  · exact Or.inr ⟨hj, hn, hc', hid⟩

theorem Runs.advance_ne {j : Nat} {c' : Call} (hj : j ≠ i)
    (h : r.Runs n s j c') : r.Runs n (s.advance i c e st) j c' :=
  ⟨h.1, (calls_advance_ne hj).trans h.2.1, h.2.2⟩

theorem Runs.advance_self (h : r.Runs n s i c) :
    r.Runs n (s.advance i c e st) i { c with stage := st } :=
  ⟨h.1, calls_advance_self h.2.1, h.2.2⟩

/-- A move that is no commit on the order, and decides nothing that was not decided. -/
theorem Racing.quiet (h : r.Racing n s) (hc : s.calls[i]? = some c)
    (horders : ∀ o ∈ s.orders, o.id = r.order → o ∈ (s.apply i c e).orders)
    (hidle : i < n → c.orderId = r.order → ∃ a, st = .done a)
    (hans : r.Runs n s i c → ∀ a, st = .done a → (∃ o, a = .order o) ∨
      ∃ e, a = .refused e ∧ e.status = 409)
    (hdec : r.Runs n s i c → decided c.stage = false →
      decided st = false ∨ ∃ o ∈ s.orders, o.id = r.order ∧ o.status ≠ r.current)
    (hsucc : r.Runs n s i c → st.succeeded = c.stage.succeeded) (hinv : Inv s) :
    r.Racing n (s.advance i c e st) where
  bound := by
    show n ≤ (s.calls.set i _).length
    rw [List.length_set]
    exact h.bound
  idle := by
    intro j c' hj hc' hid
    rcases call_of_advance hc' with ⟨rfl, rfl⟩ | ⟨-, hc'⟩
    · exact hidle hj hid
    · exact h.idle j c' hj hc' hid
  targets := by
    intro j c' hr
    rcases runs_of_advance hc hr with ⟨rfl, rfl, hold⟩ | ⟨-, hold⟩
    · exact h.targets j c hold
    · exact h.targets j c' hold
  answers := by
    intro j c' hr
    rcases runs_of_advance hc hr with ⟨rfl, rfl, hold⟩ | ⟨-, hold⟩
    · exact hans hold
    · exact h.answers j c' hold
  outcome := by
    rcases h.outcome with ⟨⟨o, ho, hid, hst⟩, hund⟩ | ⟨⟨o, ho, hid, ht⟩, j, c', hr, hs, honly⟩
    · -- the order is still where the race started, so the call is not decided
      refine Or.inl ⟨⟨o, horders o ho hid, hid, hst⟩, fun j c' hr => ?_⟩
      rcases runs_of_advance hc hr with ⟨rfl, rfl, hold⟩ | ⟨-, hold⟩
      · rcases hdec hold (hund j c hold) with hd | ⟨o', ho', hid', hne⟩
        · exact hd
        · rw [order_unique hinv ho' ho (hid'.trans hid.symm)] at hne
          exact absurd hst hne
      · exact hund j c' hold
    · -- the winner stays the only one, whether it is the call that moves or another
      refine Or.inr ⟨⟨o, horders o ho hid, hid, ht⟩, ?_⟩
      have honly' : ∀ k c₁, r.Runs n (s.advance i c e st) k c₁ → c₁.stage.succeeded = true →
          k = j := by
        intro k c₁ hr₁ hs₁
        rcases runs_of_advance hc hr₁ with ⟨rfl, rfl, hold⟩ | ⟨-, hold⟩
        · exact honly k c hold ((hsucc hold).symm.trans hs₁)
        · exact honly k c₁ hold hs₁
      by_cases hj : j = i
      · subst hj
        obtain rfl := Option.some.inj (hc.symm.trans hr.2.1)
        exact ⟨j, _, hr.advance_self, (hsucc hr).trans hs, honly'⟩
      · exact ⟨j, c', hr.advance_ne hj, hs, honly'⟩

/-- **A commit on the order decides the race**: nobody has won before, and nobody will again. -/
theorem Racing.win (h : r.Racing n s) (hinv : Inv s) (hr : r.Runs n s i c)
    {current : OrderStatus} (hl : Locked s i c current) (hnew : c.new ∈ transitions current) :
    r.Racing n (s.advance i c .commit .saved) := by
  obtain ⟨hn, hc, hid⟩ := hr
  obtain ⟨-, o, ho, hoid, rfl⟩ := hl
  have htarget : r.target c.new := h.targets i c ⟨hn, hc, hid⟩
  refine ⟨?_, ?_, ?_, ?_, Or.inr ⟨?_, i, _, Runs.advance_self ⟨hn, hc, hid⟩, rfl, ?_⟩⟩
  · show n ≤ (s.calls.set i _).length
    rw [List.length_set]
    exact h.bound
  · intro j c' hj hc' hid'
    rcases call_of_advance hc' with ⟨rfl, -⟩ | ⟨-, hc'⟩
    · exact absurd hj (Nat.not_lt.mpr hn)
    · exact h.idle j c' hj hc' hid'
  · intro j c' hr'
    rcases runs_of_advance hc hr' with ⟨rfl, rfl, -⟩ | ⟨-, hr'⟩
    · exact htarget
    · exact h.targets j c' hr'
  · intro j c' hr' a ha
    rcases runs_of_advance hc hr' with ⟨rfl, rfl, -⟩ | ⟨-, hr'⟩
    · exact absurd ha (by simp)
    · exact h.answers j c' hr' a ha
  · exact ⟨_, updateStatus_self ho hoid, hoid.trans hid, htarget⟩
  · intro j c' hr' hs
    rcases runs_of_advance hc hr' with ⟨rfl, -, -⟩ | ⟨-, hr'⟩
    · rfl
    · rcases h.outcome with ⟨-, hund⟩ | ⟨⟨o', ho', hid', ht⟩, -⟩
      · exact absurd ((hund j c' hr').symm.trans (decided_of_succeeded hs)) (by decide)
      · -- after a change of the race this one is no edge
        rw [order_unique hinv ho ho' ((hoid.trans hid).trans hid'.symm)] at hnew
        exact absurd hnew (r.exclusive _ _ ht htarget)

/-- A call arrives, in the race or not. -/
theorem Racing.arrive (h : r.Racing n s) {orderId : Nat} {new : OrderStatus}
    (hC : orderId = r.order → r.target new) :
    r.Racing n { s with calls := s.calls ++ [⟨orderId, new, .arrived⟩] } := by
  have runs : ∀ {j : Nat} {c' : Call},
      r.Runs n { s with calls := s.calls ++ [⟨orderId, new, .arrived⟩] } j c' →
      r.Runs n s j c' ∨ (c' = ⟨orderId, new, .arrived⟩ ∧ orderId = r.order) := by
    rintro j c' ⟨hn, hc', hid⟩
    rcases slot_of_concat hc' with hc' | ⟨-, rfl⟩
    · exact Or.inl ⟨hn, hc', hid⟩
    · exact Or.inr ⟨rfl, hid⟩
  refine ⟨?_, ?_, ?_, ?_, ?_⟩
  · show n ≤ (s.calls ++ _).length
    rw [List.length_append]
    exact Nat.le_trans h.bound (Nat.le_add_right _ _)
  · intro j c' hj hc' hid
    by_cases hlt : j < s.calls.length
    · rw [List.getElem?_append_left hlt] at hc'
      exact h.idle j c' hj hc' hid
    · exact absurd (Nat.lt_of_lt_of_le hj h.bound) hlt
  · intro j c' hr
    rcases runs hr with hr | ⟨rfl, hid⟩
    · exact h.targets j c' hr
    · exact hC hid
  · intro j c' hr a ha
    rcases runs hr with hr | ⟨rfl, -⟩
    · exact h.answers j c' hr a ha
    · exact absurd ha (by simp)
  · rcases h.outcome with ⟨ho, hund⟩ | ⟨ho, j, c', hr, hs, honly⟩
    · refine Or.inl ⟨ho, fun j c' hr => ?_⟩
      rcases runs hr with hr | ⟨rfl, -⟩
      · exact hund j c' hr
      · rfl
    · refine Or.inr ⟨ho, j, c', ⟨hr.1, ?_, hr.2.2⟩, hs, fun k c₁ hr₁ hs₁ => ?_⟩
      · exact slot_append hr.2.1 _
      · rcases runs hr₁ with hr₁ | ⟨rfl, -⟩
        · exact honly k c₁ hr₁ hs₁
        · exact absurd hs₁ (by simp [Stage.succeeded])

/-- **A stretch of a call of the race.** -/
theorem Racing.act (h : r.Racing n s) (hinv : Inv s) (hr : r.Runs n s i c) {e : Effect}
    {st : Stage} (ha : Act s i c c.stage e st) : r.Racing n (s.advance i c e st) := by
  have hs := hinv.stages i c hr.2.1
  have quiet : ∀ {e : Effect} {st : Stage}, e ≠ .commit →
      (∀ a, st = .done a → (∃ o, a = .order o) ∨ ∃ e, a = .refused e ∧ e.status = 409) →
      (decided c.stage = false → decided st = false ∨
        ∃ o ∈ s.orders, o.id = r.order ∧ o.status ≠ r.current) →
      st.succeeded = c.stage.succeeded → r.Racing n (s.advance i c e st) := by
    intro e st he hans hdec hsucc
    refine h.quiet hr.2.1 ?_ (fun hlt => absurd hlt (Nat.not_lt.mpr hr.1)) (fun _ => hans)
      (fun _ => hdec) (fun _ => hsucc) hinv
    intro o ho _
    cases e with
    | commit => exact absurd rfl he
    | _ => exact ho
  have htarget := h.targets i c hr
  obtain ⟨id, new, stage⟩ := c
  obtain rfl : id = r.order := hr.2.2
  cases ha with
  | badId hbad =>
    rw [r.sendable] at hbad
    exact absurd hbad (by decide)
  | missing hf =>
    obtain ⟨o, ho, hoid⟩ := h.exists_order
    exact absurd hoid (find_none hf o ho)
  | lock _ _ => exact quiet (by simp) (by simp) (fun _ => Or.inl rfl) rfl
  | @reject current hnot =>
    -- every target is an edge from where the race started
    refine quiet (by simp) (by simp) (fun _ => Or.inr ?_) rfl
    obtain ⟨-, o, ho, hoid, rfl⟩ := hs
    refine ⟨o, ho, hoid, fun heq => hnot ?_⟩
    rw [heq]
    exact r.exits _ htarget
  | accept _ => exact quiet (by simp) (by simp) (fun _ => Or.inl rfl) rfl
  | refuse =>
    refine quiet (by simp) (fun a ha => Or.inr ?_) (fun hd => absurd hd (by simp [decided])) rfl
    exact ⟨_, (Stage.done.inj ha).symm, rfl⟩
  | update => exact quiet (by simp) (by simp) (fun _ => Or.inl rfl) rfl
  | commit => exact h.win hinv hr hs.1 hs.2
  | lost hf =>
    obtain ⟨o, ho, hoid⟩ := h.exists_order
    exact absurd hoid (find_none hf o ho)
  | @respond o hf =>
    exact quiet (by simp) (fun a ha => Or.inl ⟨o, (Stage.done.inj ha).symm⟩)
      (fun hd => absurd hd (by simp [decided])) rfl

/-- A stretch of a call on another order. -/
theorem Racing.act_other (h : r.Racing n s) (hinv : Inv s) (hc : s.calls[i]? = some c)
    (hid : c.orderId ≠ r.order) (e : Effect) (st : Stage) : r.Racing n (s.advance i c e st) := by
  refine h.quiet hc ?_ (fun _ h' => absurd h' hid) (fun hr => absurd hr.2.2 hid)
    (fun hr => absurd hr.2.2 hid) (fun hr => absurd hr.2.2 hid) hinv
  intro o ho hoid
  cases e with
  | commit => exact updateStatus_other ho fun heq => hid (heq.symm.trans hoid)
  | _ => exact ho

/-- **One step of the race.** -/
theorem Racing.step (h : r.Racing n s) (hinv : Inv s) {s' : Shop} {l : Label}
    (hC : r.Fair s l) (hst : kitchen.step s l = some s') : r.Racing n s' := by
  cases step_cases hst with
  | place o =>
    refine ⟨h.bound, h.idle, h.targets, h.answers, ?_⟩
    rcases h.outcome with ⟨⟨o, ho, hrest⟩, hund⟩ | ⟨⟨o, ho, hrest⟩, hwon⟩
    · exact Or.inl ⟨⟨o, List.mem_append_left _ ho, hrest⟩, hund⟩
    · exact Or.inr ⟨⟨o, List.mem_append_left _ ho, hrest⟩, hwon⟩
  | call orderId new =>
    refine h.arrive fun hid => ?_
    subst hid
    exact hC new rfl
  | @act i c e st hc ha =>
    by_cases hid : c.orderId = r.order
    · have hn : n ≤ i := by
        by_contra hlt
        obtain ⟨a, hdone⟩ := h.idle i c (Nat.lt_of_not_le hlt) hc hid
        obtain ⟨id, new, stage⟩ := c
        obtain rfl : stage = .done a := hdone
        cases ha
      exact h.act hinv ⟨hn, hc, hid⟩ ha
    · exact h.act_other hinv hc hid e st

theorem Starts.racing (h : r.Starts s) : r.Racing s.calls.length s where
  bound := Nat.le_refl _
  idle := fun i c _ => h.idle i c
  targets := fun _ _ hr => absurd (List.getElem?_eq_some_iff.mp hr.2.1).1 (Nat.not_lt.mpr hr.1)
  answers := fun _ _ hr => absurd (List.getElem?_eq_some_iff.mp hr.2.1).1 (Nat.not_lt.mpr hr.1)
  outcome := Or.inl ⟨h.order, fun _ _ hr =>
    absurd (List.getElem?_eq_some_iff.mp hr.2.1).1 (Nat.not_lt.mpr hr.1)⟩

theorem racing_of_reach {s₀ : Shop} (hinv : Inv s₀) (h : r.Starts s₀)
    (hr : kitchen.Reach r.Fair s₀ s) : r.Racing s₀.calls.length s := by
  refine hr.invariant' h.racing fun s l s' hr h hC hst => ?_
  exact h.step (inv_of_reach hinv hr) hC hst

/-- **When all calls of the race are answered, one has succeeded and the others have got 409.** -/
theorem Racing.one_winner (h : r.Racing n s)
    (hdone : ∀ (i : Nat) (c : Call), s.calls[i]? = some c → c.orderId = r.order → ∃ a, c.stage = .done a)
    (hex : ∃ i c, r.Runs n s i c) :
    ∃ i c o, r.Runs n s i c ∧ c.stage = .done (.order o) ∧
      ∀ j c', r.Runs n s j c' → j ≠ i → ∃ e, c'.stage = .done (.refused e) ∧ e.status = 409 := by
  have answered : ∀ j c', r.Runs n s j c' → (∃ o, c'.stage = .done (.order o)) ∨
      ∃ e, c'.stage = .done (.refused e) ∧ e.status = 409 := by
    intro j c' hr
    obtain ⟨a, ha⟩ := hdone j c' hr.2.1 hr.2.2
    rcases h.answers j c' hr a ha with ⟨o, rfl⟩ | ⟨e, rfl, he⟩
    · exact Or.inl ⟨o, ha⟩
    · exact Or.inr ⟨e, ha, he⟩
  rcases h.outcome with ⟨-, hund⟩ | ⟨-, i, c, hr, hs, honly⟩
  · obtain ⟨i, c, hr⟩ := hex
    obtain ⟨a, ha⟩ := hdone i c hr.2.1 hr.2.2
    have hdec := hund i c hr
    rw [ha] at hdec
    exact absurd hdec (by simp [decided])
  · rcases answered i c hr with ⟨o, ho⟩ | ⟨e, he, -⟩
    · refine ⟨i, c, o, hr, ho, fun j c' hr' hj => ?_⟩
      rcases answered j c' hr' with ⟨o', ho'⟩ | hrefused
      · exact absurd (honly j c' hr' (by rw [ho']; rfl)) hj
      · exact hrefused
    · rw [he] at hs
      exact absurd hs (by simp [Stage.succeeded])

end Race

/-! ## The result -/

/-- Only the first stretch waits. -/
theorem stuck_arrived {s : Shop} {i : Nat} {c : Call} (ha : act s i c = none)
    (hnd : ∀ a, c.stage ≠ .done a) : c.stage = .arrived ∧ ∃ j, (c.orderId, j) ∈ s.locks := by
  obtain ⟨id, new, stage⟩ := c
  unfold act at ha
  dsimp only at ha hnd ⊢
  split at ha
  · split at ha
    · exact absurd ha (by simp)
    · split at ha
      · exact absurd ha (by simp)
      · split at ha
        · next hl =>
          obtain ⟨⟨k, j⟩, hmem, hp⟩ := List.any_eq_true.mp hl
          obtain rfl : k = id := eq_of_beq (Bool.and_eq_true_iff.mp hp).1
          exact ⟨rfl, j, hmem⟩
        · exact absurd ha (by simp)
  · split at ha <;> exact absurd ha (by simp)
  · exact absurd ha (by simp)
  · exact absurd ha (by simp)
  · exact absurd ha (by simp)
  · split at ha <;> exact absurd ha (by simp)
  · next a => exact absurd rfl (hnd a)

/-- **A call that is not answered can go on, or waits for one that can.** -/
theorem progress {s : Shop} (h : Inv s) (hex : ∃ c ∈ s.calls, ∀ a, c.stage ≠ .done a) :
    ∃ i s', kitchen.step s (.step i) = some s' := by
  have go : ∀ {i : Nat} {c : Call}, s.calls[i]? = some c → act s i c ≠ none →
      ∃ i s', kitchen.step s (.step i) = some s' := by
    intro i c hc ha
    obtain ⟨x, hx⟩ := Option.ne_none_iff_exists'.mp ha
    exact ⟨i, _, Option.bind_eq_some_iff.mpr ⟨c, hc, Option.map_eq_some_iff.mpr ⟨x, hx, rfl⟩⟩⟩
  obtain ⟨c, hmem, hnd⟩ := hex
  obtain ⟨i, hc⟩ := List.mem_iff_getElem?.mp hmem
  by_cases ha : act s i c = none
  · obtain ⟨-, j, hl⟩ := stuck_arrived ha hnd
    obtain ⟨c', hc', -, hop⟩ := h.holders _ hl
    refine go hc' fun hs => ?_
    have hnd' : ∀ a, c'.stage ≠ .done a := by
      intro a hdone
      rw [hdone] at hop
      exact absurd hop (by simp [Stage.open])
    rw [(stuck_arrived hs hnd').1] at hop
    exact absurd hop (by decide)
  · exact go hc ha

/-- **Order status runs only along legal edges.**  In every state that calls of `advance_status`
    lead to, in whatever order their stretches run:
    (1) the statuses of an order, from placed on, are a path in `transitions` to its status;
    (2) each of its edges belongs to one call, which asked for it and succeeds, and no call has two;
    (3) each call that has succeeded has its edge;
    (4) a call that is answered 404 or 409 has none;
    (5) completed and cancelled are never left;
    (6) of calls that exclude each other, racing from one status, exactly one succeeds and all
        others get 409. -/
theorem status_runs_along_edges {s : Shop}
    (hr : kitchen.Reach (fun _ _ => True) .start s) :
    (∀ o ∈ s.orders, (statuses s.log o.id).IsChain (fun a b => b ∈ transitions a) ∧
      (statuses s.log o.id).getLast? = some o.status) ∧
    ((s.log.map Change.call).Nodup ∧ ∀ x ∈ s.log, ∃ c, s.calls[x.call]? = some c ∧
      c.orderId = x.order ∧ c.new = x.after ∧ (c.stage = .saved ∨ ∃ o, c.stage = .done (.order o))) ∧
    (∀ (i : Nat) (c : Call) (o : Order), s.calls[i]? = some c → c.stage = .done (.order o) →
      ∃ x ∈ s.log, x.call = i ∧ x.order = c.orderId ∧ x.after = c.new) ∧
    (∀ (i : Nat) (c : Call) (e : HTTPException), s.calls[i]? = some c → c.stage = .done (.refused e) →
      ∀ x ∈ s.log, x.call ≠ i) ∧
    (∀ s', kitchen.Reach (fun _ _ => True) s s' → ∀ o ∈ s.orders,
      o.status = .completed ∨ o.status = .cancelled → o ∈ s'.orders) ∧
    ∀ (r : Race) s', r.Starts s → kitchen.Reach r.Fair s s' →
      (∀ (i : Nat) (c : Call), s'.calls[i]? = some c → c.orderId = r.order →
        ∃ a, c.stage = .done a) →
      (∃ i c, r.Runs s.calls.length s' i c) →
      ∃ i c o, r.Runs s.calls.length s' i c ∧ c.stage = .done (.order o) ∧
        ∀ j c', r.Runs s.calls.length s' j c' → j ≠ i →
          ∃ e, c'.stage = .done (.refused e) ∧ e.status = 409 := by
  have h := inv_of_reach inv_start hr
  refine ⟨h.paths, ⟨h.logOnce, ?_⟩, ?_, ?_, ?_, ?_⟩
  · intro x hx
    obtain ⟨c, hc, hid, hnew, hs⟩ := h.logged x hx
    refine ⟨c, hc, hid, hnew, ?_⟩
    unfold Stage.succeeded at hs
    split at hs
    · exact Or.inl ‹_›
    · exact Or.inr ⟨_, ‹_›⟩
    · exact absurd hs (by decide)
  · intro i c o hc hst
    have hs := h.stages i c hc
    rw [hst] at hs
    obtain ⟨x, hx, rfl⟩ := hs
    obtain ⟨c', hc', hid, hnew, -⟩ := h.logged x hx
    obtain rfl := Option.some.inj (hc.symm.trans hc')
    exact ⟨x, hx, rfl, hid.symm, hnew.symm⟩
  · rintro i c e hc hst x hx rfl
    obtain ⟨c', hc', -, -, hs⟩ := h.logged x hx
    obtain rfl := Option.some.inj (hc.symm.trans hc')
    rw [hst] at hs
    exact absurd hs (by simp [Stage.succeeded])
  · intro s' hr' o ho hf
    refine final_stays h hr' ho ?_
    rcases hf with hf | hf <;> rw [hf] <;> rfl
  · intro r s' hstart hrace hdone hex
    exact (Race.racing_of_reach h hstart hrace).one_winner hdone hex

/-- A shop with one order, just placed. -/
def placedShop : Shop :=
  { Shop.start with orders := [⟨1, 7, 1, none, .placed, 1250, "USD".toList, 0⟩], nextId := 2 }

/-- Two of the staff start preparing it; the second waits until the first has committed. -/
def twoStaffRun : List Label :=
  [.call 1 .preparing, .call 1 .preparing] ++ List.replicate 5 (.step 0) ++
    List.replicate 3 (.step 1)

/-- The call is answered. -/
def Stage.isDone : Stage → Bool
  | .done _ => true
  | _ => false

/-- Of the two one succeeds and the other gets 409. -/
theorem one_of_two_prepares : ∃ s' : Shop, kitchen.run placedShop twoStaffRun = some s' ∧
    ∃ i c o, c.stage = .done (.order o) ∧ s'.calls[i]? = some c ∧
      ∀ (j : Nat) (c' : Call), s'.calls[j]? = some c' → j ≠ i →
        ∃ e, c'.stage = .done (.refused e) ∧ e.status = 409 := by
  have hs : kitchen.run .start [.place ⟨0, 7, 1, none, .ready, 1250, "USD".toList, 0⟩] =
      some placedShop := rfl
  obtain ⟨s', hs'⟩ : ∃ s', kitchen.run placedShop twoStaffRun = some s' :=
    Option.isSome_iff_exists.mp (by decide)
  let r : Race :=
    { order := 1
      current := .placed
      target := (· = .preparing)
      sendable := by decide
      exits := by rintro t rfl; decide
      exclusive := by rintro t t' rfl rfl; decide }
  have hall : (s'.calls.all fun c => c.orderId == 1 && c.stage.isDone) = true :=
    kitchen.run_eval (fun s' => s'.calls.all fun c => c.orderId == 1 && c.stage.isDone) hs'
      (by decide)
  have hdone : ∀ (i : Nat) (c : Call), s'.calls[i]? = some c → c.orderId = 1 ∧
      ∃ a, c.stage = .done a := by
    intro i c hc
    obtain ⟨hid, hd⟩ := Bool.and_eq_true_iff.mp
      (List.all_eq_true.mp hall c (List.mem_of_getElem? hc))
    obtain ⟨id, new, stage⟩ := c
    cases stage with
    | done a => exact ⟨eq_of_beq hid, a, rfl⟩
    | _ => exact absurd hd (by simp [Stage.isDone])
  have hfair : ∀ l ∈ twoStaffRun, ∀ s, r.Fair s l := by
    intro l hl s new hnew
    subst hnew
    show new = .preparing
    have : (.call 1 new : Label) ∈ twoStaffRun → new = .preparing := by
      cases new <;> simp [twoStaffRun]
    exact this hl
  have hfirst : ∃ c, s'.calls[0]? = some c :=
    Option.isSome_iff_exists.mp
      (kitchen.run_eval (fun s' => (s'.calls[0]?).isSome) hs' (by decide))
  obtain ⟨c₀, hc₀⟩ := hfirst
  have starts : r.Starts placedShop :=
    ⟨⟨_, List.mem_singleton.mpr rfl, rfl, rfl⟩, by simp [placedShop, Shop.start]⟩
  obtain ⟨i, c, o, hr, ho, hothers⟩ :=
    (status_runs_along_edges (.of_run hs)).2.2.2.2.2 r s' starts (.of_labels hfair hs')
      (fun i c hc _ => (hdone i c hc).2) ⟨0, c₀, Nat.le_refl _, hc₀, (hdone 0 c₀ hc₀).1⟩
  exact ⟨s', hs', i, c, o, ho, hr.2.1, fun j c' hc' hj =>
    hothers j c' ⟨Nat.zero_le _, hc', (hdone j c' hc').1⟩ hj⟩

end TableFlow.Orders
