/-
  The traffic generator in its steady mode, beside the migration that it watches.

  1. **The script** (`Steady`) — `create`, `read` and `rename` up to their `await` and behind it;
     a coroutine that waits is an entry of `calls` (`Await`).  The clock, the latencies and the text
     of the last problem are left out.
  2. **The slots** — the windows of `create` lie two hours apart, so no two of them overlap
     (`slots_apart`).
  3. **The bench** — the script and the migration under live traffic: a request of the script
     arrives, the service and the operator go on in any order, and a response is taken when it is
     there.
  4. **The verdict** — the checks of `report`, without the one on the latency.  The script's token is
     taken to last: it is handed out once, for an hour, and a run beyond that ends in 401s.
-/
import TableFlow.Rollout
import TableFlow.Authority

namespace TableFlow.Traffic

open Lib

/-! ## Names and slots -/

/-- `NAMES` -/
def names : List Text :=
  ["Ada Lovelace", "Grace Hopper", "Alan Turing", "Katherine Johnson", "Prince",
    "Mary Jane Watson", "Edsger Wybe Dijkstra", "Barbara Liskov"].map String.toList

/-- A name of the pool. -/
abbrev Name := { n : Text // n ∈ names }

theorem names_length : ∀ n ∈ names, 2 ≤ n.length ∧ n.length ≤ 120 := by decide

/-- Single spaces only, so every phase must return them exactly. -/
theorem names_joined : ∀ n ∈ names,
    joinName (some (splitGuestName n).1) (some (splitGuestName n).2) = n := by decide

/-- An hour in microseconds. -/
def hour : Int := 3600 * 1000000

/-- 90 minutes. -/
def sitting : Int := 90 * 60 * 1000000

/-- `base + timedelta(days=slot // 10, hours=(slot % 10) * 2)` -/
def slotStart (base : Int) (slot : Nat) : Int :=
  base + (slot / 10 : Nat) * (24 * hour) + (slot % 10 : Nat) * (2 * hour)

theorem slotStart_lt (base : Int) {slot slot' : Nat} (h : slot < slot') :
    slotStart base slot + 2 * hour ≤ slotStart base slot' := by
  unfold slotStart hour
  omega

/-- **Windows of different slots do not overlap.** -/
theorem slots_apart {base : Int} {slot slot' : Nat}
    (h : overlaps (slotStart base slot) (slotStart base slot + sitting) (slotStart base slot')
      (slotStart base slot' + sitting) = true) : slot = slot' := by
  simp only [overlaps, Bool.and_eq_true, decide_eq_true_eq] at h
  unfold sitting at h
  rcases Nat.lt_trichotomy slot slot' with hlt | heq | hlt
  · have := slotStart_lt base hlt
    unfold hour at this
    omega
  · exact heq
  · have := slotStart_lt base hlt
    unfold hour at this
    omega

theorem slotStart_inj {base : Int} {slot slot' : Nat}
    (h : slotStart base slot = slotStart base slot') : slot = slot' := by
  have hover : overlaps (slotStart base slot) (slotStart base slot + sitting)
      (slotStart base slot') (slotStart base slot' + sitting) = true := by
    rw [h]
    simp only [overlaps, Bool.and_eq_true, decide_eq_true_eq]
    unfold sitting
    omega
  exact slots_apart hover

/-- The driver sends the names. -/
theorem names_storable : ∀ n ∈ names, storable n = true := by decide

/-! ## What the script sends -/

/-- What the script works with: its account, the table it has picked, and its first day. -/
structure Rig where
  user : User
  table : RestaurantTable
  base : Int

theorem party_of_two : 0 < 2 ∧ 2 ≤ 20 := by decide

theorem sitting_window (t : Int) : t < t + sitting := by
  unfold sitting
  omega

theorem sitting_duration (t : Int) : t + sitting - t ≤ sixHours := by
  unfold sitting sixHours
  omega

/-- `booking_payload` of a slot. -/
def Rig.payload (K : Rig) (slot : Nat) (name : Name) : ReservationCreate where
  restaurantId := K.table.restaurantId
  restaurantTableId := K.table.id
  guestName := name.1
  partySize := 2
  startsAt := slotStart K.base slot
  endsAt := slotStart K.base slot + sitting
  guestName_length := names_length name.1 name.2
  partySize_range := party_of_two
  window := sitting_window _
  duration := sitting_duration _

theorem renameBody_length (name : Name) (n : Text) (h : some name.1 = some n) :
    2 ≤ n.length ∧ n.length ≤ 120 := Option.some.inj h ▸ names_length name.1 name.2

theorem renameBody_party (p : Nat) (h : none = some p) : 0 < p ∧ p ≤ 20 := absurd h nofun

/-- `{"guest_name": name}` -/
def renameBody (name : Name) : ReservationUpdate where
  guestName := some name.1
  partySize := none
  status := none
  guestName_length := renameBody_length name
  partySize_range := renameBody_party

/-! ## The script -/

/-- The methods the script uses. -/
inductive Method
  | post
  | get
  | patch
  deriving DecidableEq

/-- Where a coroutine waits for a response, with what it needs behind it. -/
inductive Await
  | create (slot : Nat) (name : Name)
  | read (rid : Nat)
  | rename (rid : Nat) (name : Name) (attempt : Nat)
  /-- `read` inside of `rename`, before the next attempt. -/
  | reread (rid : Nat) (name : Name) (attempt : Nat)

/-- The entry of a dictionary; a new key comes last. -/
def put {β : Type} (d : List (Nat × β)) (k : Nat) (v : β) : List (Nat × β) :=
  if k ∈ d.map Prod.fst then d.map fun e => if e.1 = k then (k, v) else e else d ++ [(k, v)]

theorem mem_of_lookup {β : Type} {d : List (Nat × β)} {k : Nat} {v : β}
    (h : d.lookup k = some v) : (k, v) ∈ d := by
  obtain ⟨l₁, l₂, rfl, -⟩ := List.lookup_eq_some_iff.mp h
  exact List.mem_append_right _ (List.mem_cons_self ..)

theorem lookup_of_mem {β : Type} {d : List (Nat × β)} {k : Nat} (h : k ∈ d.map Prod.fst) :
    ∃ v, d.lookup k = some v := by
  obtain ⟨x, hx, rfl⟩ := List.mem_map.mp h
  exact Option.isSome_iff_exists.mp (List.lookup_isSome_iff.mpr ⟨x, hx, beq_self_eq_true _⟩)

/-- **An entry is read back**, and no other one changes. -/
theorem lookup_put {β : Type} (d : List (Nat × β)) (k : Nat) (v : β) (k' : Nat) :
    (put d k v).lookup k' = if k' = k then some v else d.lookup k' := by
  unfold put
  split
  · next hmem =>
    -- the entries with the key all get the new value
    have hmap : ∀ l : List (Nat × β),
        (l.map fun x => if x.1 = k then (k, v) else x).lookup k'
          = if k' = k then (l.lookup k).map fun _ => v else l.lookup k' := by
      intro l
      induction l with
      | nil => simp
      | cons x l ih =>
        rw [List.map_cons, List.lookup_cons, ih, List.lookup_cons, List.lookup_cons]
        by_cases hx : x.1 = k
        · by_cases hk : k' = k
          · simp [hx, hk]
          · simp [hx, hk, beq_eq_false_iff_ne.mpr hk]
        · by_cases hk : k' = k
          · subst hk
            simp [hx, beq_eq_false_iff_ne.mpr (Ne.symm hx)]
          · simp [hx, hk]
    obtain ⟨v', hv'⟩ := lookup_of_mem hmem
    rw [hmap, hv']
    rfl
  · next hmem =>
    have hnone : d.lookup k = none := List.lookup_eq_none_iff.mpr fun x hx => by
      rw [bne_iff_ne]
      rintro rfl
      exact hmem (List.mem_map_of_mem hx)
    rw [List.lookup_append]
    by_cases hk : k' = k
    · rw [if_pos hk, hk, hnone, List.lookup_cons_self]
      rfl
    · rw [if_neg hk, List.lookup_cons, beq_eq_false_iff_ne.mpr hk]
      exact Option.or_none

/-- The object `Steady`, its `Stats`, and its coroutines. -/
structure Steady where
  /-- reservation id -> name it must have -/
  expected : List (Nat × Text)
  /-- reservation id -> last version seen -/
  version : List (Nat × Nat)
  /-- ids with a request in flight -/
  busy : List Nat
  slot : Nat
  codes : List (Method × Nat)
  errors : Nat
  badFields : Nat
  /-- The coroutines, by the number of the request they wait for. -/
  calls : List (Nat × Await)

/-- A coroutine goes on: it waits for another request, or ends. -/
abbrev Next := Steady × Option (Request × Await)

namespace Steady

/-- `call` behind its `await`; `none` for an `HTTPError`. -/
def record (c : Steady) (m : Method) : Option Answer → Steady
  | none => { c with errors := c.errors + 1 }
  | some a => { c with codes := (m, a.status) :: c.codes }

/-- `check_name` -/
def checkName (c : Steady) (out : ReservationOut) (want : Text) : Steady :=
  if out.guestName ≠ want then { c with badFields := c.badFields + 1 } else c

/-- `self.busy.discard(rid)` -/
def free (c : Steady) (rid : Nat) : Steady := { c with busy := c.busy.filter (· ≠ rid) }

/-- `create` up to its `await`; an instant that is no `datetime` raises an `OverflowError`. -/
def create (K : Rig) (c : Steady) (name : Name) : Next :=
  let c := { c with slot := c.slot + 1 }
  let body := K.payload c.slot name
  if fitsTimestamp body.startsAt && fitsTimestamp body.endsAt then
    (c, some (.post K.user body, .create c.slot name))
  else (c, none)

/-- The reservation answered with has this name and version from now on. -/
def note (c : Steady) (out : ReservationOut) (name : Text) : Steady :=
  { c.checkName out name with
    expected := put c.expected out.id name
    version := put c.version out.id out.version }

/-- `create` behind its `await`. -/
def created (c : Steady) (name : Text) : Option Answer → Steady
  | some (.out 201 _ out) => c.note out name
  | _ => c

/-- `read` behind its `await`. -/
def readBack (c : Steady) (rid : Nat) : Option Answer → Steady
  | some (.out 200 _ out) =>
    match c.expected.lookup rid with
    | some want => { c.checkName out want with version := put c.version rid out.version }
    | none => c
  | _ => c

/-- An attempt of `rename` up to its `await`. -/
def attempt (K : Rig) (c : Steady) (rid : Nat) (name : Name) (n : Nat) : Next :=
  match c.version.lookup rid with
  | some v =>
    (c, some (.onOne K.user rid (.patch (some (etag v)) (renameBody name)), .rename rid name n))
  | none => (c.free rid, none)

/-- The end of `rename`. -/
def renamed (c : Steady) (rid : Nat) (name : Text) : Option Answer → Steady
  | some (.out 200 _ out) =>
    { c.checkName out name with
      expected := put c.expected rid name
      version := put c.version rid out.version }
  | _ => c

/-- Someone else wrote it: re-read, retry. -/
def conflict : Option Answer → Bool
  | some a => a.status == 409 || a.status == 412
  | none => false

/-- A coroutine behind its `await`. -/
def resume (K : Rig) (c : Steady) (r : Option Answer) : Await → Next
  | .create _ name => ((c.record .post r).created name.1 r, none)
  | .read rid => (((c.record .get r).readBack rid r).free rid, none)
  | .rename rid name n =>
    if conflict r then
      (c.record .patch r, some (.onOne K.user rid .get, .reread rid name n))
    else (((c.record .patch r).renamed rid name.1 r).free rid, none)
  | .reread rid name n =>
    let c := (c.record .get r).readBack rid r
    -- `for _ in range(3)`
    if n + 1 < 3 then c.attempt K rid name (n + 1) else (c.free rid, none)

theorem checkName_eq (c : Steady) {out : ReservationOut} {want : Text}
    (h : out.guestName = want) : c.checkName out want = c := if_neg (not_not.mpr h)

theorem readBack_eq (c : Steady) {rid : Nat} {want tag : Text} {out : ReservationOut}
    (hwant : c.expected.lookup rid = some want) (h : out.guestName = want) :
    c.readBack rid (some (.out 200 tag out)) =
      { c with version := put c.version rid out.version } := by
  show (match c.expected.lookup rid with | some want => _ | none => c) = _
  rw [hwant]
  show ({ c.checkName out want with version := put c.version rid out.version } : Steady) = _
  rw [checkName_eq c h]

@[simp] theorem checkName_errors (c : Steady) (out : ReservationOut) (want : Text) :
    (c.checkName out want).errors = c.errors := by
  unfold checkName
  split <;> rfl

@[simp] theorem readBack_errors (c : Steady) (rid : Nat) (r : Option Answer) :
    (c.readBack rid r).errors = c.errors := by
  unfold readBack
  split
  · split
    · exact checkName_errors c _ _
    · rfl
  · rfl

@[simp] theorem created_errors (c : Steady) (name : Text) (r : Option Answer) :
    (c.created name r).errors = c.errors := by
  unfold created
  split
  · exact checkName_errors c _ _
  · rfl

@[simp] theorem renamed_errors (c : Steady) (rid : Nat) (name : Text) (r : Option Answer) :
    (c.renamed rid name r).errors = c.errors := by
  unfold renamed
  split
  · exact checkName_errors c _ _
  · rfl

@[simp] theorem attempt_errors (K : Rig) (c : Steady) (rid : Nat) (name : Name) (n : Nat) :
    (c.attempt K rid name n).1.errors = c.errors := by
  unfold attempt
  split <;> rfl

/-- **A coroutine that goes on** counts an error exactly when its response is lost. -/
theorem resume_errors (K : Rig) (c : Steady) (r : Option Answer) (aw : Await) :
    (c.resume K r aw).1.errors = c.errors + if r.isNone then 1 else 0 := by
  have hrecord : ∀ m, (c.record m r).errors = c.errors + if r.isNone then 1 else 0 := by
    intro m
    cases r <;> rfl
  cases aw with
  | create slot name => exact (created_errors _ _ _).trans (hrecord _)
  | read rid => exact (readBack_errors _ _ _).trans (hrecord _)
  | rename rid name n =>
    show (if conflict r then _ else _ : Next).1.errors = _
    split
    · exact hrecord _
    · exact (renamed_errors _ _ _ _).trans (hrecord _)
  | reread rid name n =>
    show (if n + 1 < 3 then _ else _ : Next).1.errors = _
    split
    · exact (attempt_errors _ _ _ _ _).trans ((readBack_errors _ _ _).trans (hrecord _))
    · exact (readBack_errors _ _ _).trans (hrecord _)

/-- `idle[-500:]` -/
def idle (c : Steady) : List Nat :=
  let l := (c.expected.map Prod.fst).filter (· ∉ c.busy)
  l.drop (l.length - 500)

/-- The object as it is made. -/
def start : Steady := ⟨[], [], [], 0, [], 0, 0, []⟩

/-! ## The verdict -/

/-- The status code begins with this digit. -/
def begins (digit : Char) (status : Nat) : Bool := (digits status).head? == some digit

/-- `conflicts`: edits answered 409 or 412. -/
def conflicts (c : Steady) : Nat :=
  c.codes.countP fun x => x.1 == .patch && (x.2 == 409 || x.2 == 412)

/-- `server_errors`: answers 5xx. -/
def serverErrors (c : Steady) : Nat := c.codes.countP fun x => begins '5' x.2

/-- `rejected`: answers 4xx but the conflicts. -/
def rejected (c : Steady) : Int := c.codes.countP (fun x => begins '4' x.2) - c.conflicts

/-- The checks of `report` on statuses and names; the one on the latency (p99) is not among them. -/
def passes (c : Steady) : Bool :=
  c.serverErrors == 0 && c.rejected == 0 && c.errors == 0 && c.badFields == 0

end Steady

/-! ## The bench -/

/-- The script and the service it runs against. -/
structure Bench where
  site : Rollout.Site
  script : Steady

/-- What is beside the script. -/
abbrev Beside := Rollout.Event

/-- What the script does next. -/
inductive Move
  /-- `one` has chosen an operation. -/
  | create (name : Name)
  | read (rid : Nat)
  | rename (rid : Nat) (name : Name)
  /-- The response to request `i` is there. -/
  | resume (i : Nat)
  /-- There is no response to request `i`: an `HTTPError`. -/
  | lose (i : Nat)
  /-- The service, its other clients, or the operator. -/
  | site (ev : Beside)

/-- The script waits for a request it has sent, or for nothing. -/
def Bench.send (b : Bench) : Next → Bench
  | (c, none) => { b with script := c }
  | (c, some (req, aw)) =>
    ⟨b.site.arrive req, { c with calls := (b.site.world.tasks.length, aw) :: c.calls }⟩

/-- The coroutine that waits for request `i` goes on. -/
def Bench.goOn (K : Rig) (b : Bench) (i : Nat) (r : Option Answer) : Option Bench :=
  (b.script.calls.lookup i).map fun aw =>
    b.send ({ b.script with calls := b.script.calls.filter (·.1 ≠ i) }.resume K r aw)

/-- The script beside the migration. -/
def bench (K : Rig) (env : Env) : Machine Bench Move where
  step b
    | .create name => some (b.send (b.script.create K name))
    | .read rid =>
      if rid ∈ b.script.idle then
        some (b.send ({ b.script with busy := rid :: b.script.busy },
          some (.onOne K.user rid .get, .read rid)))
      else none
    | .rename rid name =>
      if rid ∈ b.script.idle then
        some (b.send ({ b.script with busy := rid :: b.script.busy }.attempt K rid name 0))
      else none
    | .resume i =>
      b.site.world.tasks[i]?.bind fun t =>
        match t.stage with
        | .done a => b.goOn K i (some a)
        | _ => none
    | .lose i => b.goOn K i none
    | .site ev => ((Rollout.rollout env).step b.site ev).map fun s => { b with site := s }

/-- What a move does. -/
inductive Moved (K : Rig) (env : Env) (b : Bench) : Move → Bench → Prop
  | create (name : Name) : Moved K env b (.create name) (b.send (b.script.create K name))
  | read {rid : Nat} : rid ∈ b.script.idle →
      Moved K env b (.read rid) (b.send ({ b.script with busy := rid :: b.script.busy },
        some (.onOne K.user rid .get, .read rid)))
  | rename {rid : Nat} (name : Name) : rid ∈ b.script.idle →
      Moved K env b (.rename rid name)
        (b.send ({ b.script with busy := rid :: b.script.busy }.attempt K rid name 0))
  | resume {i : Nat} {t : Task} {a : Answer} {aw : Await} : b.site.world.tasks[i]? = some t →
      t.stage = .done a → (i, aw) ∈ b.script.calls →
      Moved K env b (.resume i)
        (b.send ({ b.script with calls := b.script.calls.filter (·.1 ≠ i) }.resume K (some a) aw))
  | lose {i : Nat} {aw : Await} : (i, aw) ∈ b.script.calls →
      Moved K env b (.lose i)
        (b.send ({ b.script with calls := b.script.calls.filter (·.1 ≠ i) }.resume K none aw))
  | site {ev : Beside} {s : Rollout.Site} : (Rollout.rollout env).step b.site ev = some s →
      Moved K env b (.site ev) { b with site := s }

theorem goOn_cases {K : Rig} {b b' : Bench} {i : Nat} {r : Option Answer}
    (h : b.goOn K i r = some b') : ∃ aw, (i, aw) ∈ b.script.calls ∧
      b' = b.send ({ b.script with calls := b.script.calls.filter (·.1 ≠ i) }.resume K r aw) := by
  obtain ⟨aw, haw, rfl⟩ := Option.map_eq_some_iff.mp h
  exact ⟨aw, mem_of_lookup haw, rfl⟩

theorem move_cases {K : Rig} {env : Env} {b b' : Bench} {m : Move}
    (h : (bench K env).step b m = some b') : Moved K env b m b' := by
  unfold bench at h
  cases m with
  | create name =>
    obtain rfl := Option.some.inj h
    exact .create name
  | read rid =>
    dsimp only at h
    split at h
    · next hidle =>
      obtain rfl := Option.some.inj h
      exact .read hidle
    · exact absurd h (by simp)
  | rename rid name =>
    dsimp only at h
    split at h
    · next hidle =>
      obtain rfl := Option.some.inj h
      exact .rename name hidle
    · exact absurd h (by simp)
  | resume i =>
    obtain ⟨t, ht, h⟩ := Option.bind_eq_some_iff.mp h
    split at h
    · next a hdone =>
      obtain ⟨aw, hmem, rfl⟩ := goOn_cases h
      exact .resume ht hdone hmem
    · exact absurd h (by simp)
  | lose i =>
    obtain ⟨aw, hmem, rfl⟩ := goOn_cases h
    exact .lose hmem
  | site ev =>
    obtain ⟨s, hs, rfl⟩ := Option.map_eq_some_iff.mp h
    exact .site hs

/-- Before the migration, with reservations in the table. -/
def Bench.start (rows : List Reservation) (nextId clock : Nat) : Bench :=
  ⟨.start rows nextId clock, .start⟩

end TableFlow.Traffic
