/-
  The booking page `BookTable.js`: the table list, the two fields it depends on, and the responses
  under way.

  Each change of the date or of the party size sends its own request, and the page takes every
  response that arrives, whichever request it belongs to.

  1. **The page** — `loadTables` with its early returns, and the two ends of its `await`
     (`Page.received`).
  2. **The browser** — the page with the requests in flight; responses arrive in any order, or fail.
  3. **When the list is the one of the window** (`Harmless`): no response of an abandoned window has
     the last word, and none fails while a table is selected (`browse_settled`).
-/
import TableFlow.Availability
import Mathlib.Data.Rat.Defs

namespace TableFlow.BookTable

open Lib Availability

/-! ## The page -/

/-- What `v-model.number` makes of the party size: the text where it is not a number. -/
inductive Field
  | number (n : ℚ)
  | text (t : Text)
  deriving DecidableEq

/-- The state of the page that `loadTables` reads and writes; `form.tableId` is `none` for `""`. -/
structure Page where
  startsAt : Text
  partySize : Field
  tableId : Option Nat
  tables : List AvailabilitySlot
  tablesBusy : Bool
  partySizeError : String
  deriving DecidableEq

/-- `Number.isInteger(n) && n >= 1 && n <= 20`. -/
def isPartySize : Field → Bool
  | .number n => n.isInt && decide (1 ≤ n) && decide (n ≤ 20)
  | .text _ => false

/-- `checkPartySize` -/
def Page.checkPartySize (p : Page) : Page × Bool :=
  let ok := isPartySize p.partySize
  ({ p with partySizeError := if ok then "" else "Enter 1 to 20 guests." }, ok)

/-- A `Date` in milliseconds, `none` beyond the times that JavaScript has. -/
def timeClip (ms : Int) : Option Int := if ms.natAbs ≤ 8640000000000000 then some ms else none

/-- `windowFor`, with `new Date(text)` as `date`; an invalid date is `none`. -/
def windowFor (date : Text → Option Int) (startsAtLocal : Text) : Option Int × Option Int :=
  let start := date startsAtLocal
  (start, start.bind fun s => timeClip (s + 90 * 60 * 1000))

/-- A request for the availability, by its query string. -/
structure Query where
  startsAt : Int
  endsAt : Int
  partySize : Field
  deriving DecidableEq

/-- `loadTables` up to its `await`: the request it sends, if any. -/
def Page.loadTables (date : Text → Option Int) (p : Page) : Page × Option Query :=
  if p.startsAt = [] then (p, none)
  else if p.checkPartySize.2 = false then
    ({ p.checkPartySize.1 with tables := [], tableId := none }, none)
  else
    match windowFor date p.startsAt with
    | (some start, some stop) =>
      ({ p.checkPartySize.1 with tablesBusy := true }, some ⟨start, stop, p.partySize⟩)
    -- `toISOString` throws inside of the `try`
    | _ => ({ p.checkPartySize.1 with tables := [], tablesBusy := false }, none)

/-- What the availability endpoint answered: the table list, or a failure. -/
abbrev Answer := Option (List AvailabilitySlot)

/-- The table is in the list and can be chosen. -/
def isAvailable (tables : List AvailabilitySlot) (id : Nat) : Bool :=
  tables.any fun t => t.restaurantTableId == id && t.available

/-- `loadTables` behind its `await`. -/
def Page.received (p : Page) : Answer → Page
  | some tables =>
    { p with tables := tables, tableId := p.tableId.filter (isAvailable tables), tablesBusy := false }
  | none => { p with tables := [], tablesBusy := false }

/-! ## The browser -/

/-- The page and its messages. -/
structure Browser where
  page : Page
  /-- `onMounted` still waits for `loadRestaurant`. -/
  mounting : Bool
  inFlight : List Query
  /-- The responses so far; the page does not keep them. -/
  answers : List (Query × Answer)
  deriving DecidableEq

/-- The page as it is opened, with the date and time of `defaultSlot`. -/
def opened (day time : Text) : Browser where
  page := ⟨day ++ 'T' :: time, .number 2, none, [], false, ""⟩
  mounting := true
  inFlight := []
  answers := []

/-- What the visitor and the network do. -/
inductive Event
  /-- The `DateTimePicker` emits a date and time. -/
  | pick (day time : Text)
  | enterPartySize (field : Field)
  /-- An option of the list is selected; a table that is taken is disabled. -/
  | select (id : Nat)
  /-- A response arrives, or the request fails. -/
  | respond (query : Query) (answer : Answer)
  | restaurantLoaded
  /-- The POST of `submit` was refused. -/
  | refused

/-- The page as it is when an event has `loadTables` run, if it does. -/
def edit (p : Page) : Event → Option Page
  | .pick day time =>
    if day ++ 'T' :: time = p.startsAt then none else some { p with startsAt := day ++ 'T' :: time }
  | .enterPartySize field =>
    if field = p.partySize then none else some { p with partySize := field }
  | .restaurantLoaded => some p
  | .refused => some p
  | _ => none

/-- The browser runs `loadTables`. -/
def Browser.load (date : Text → Option Int) (b : Browser) (p : Page) : Browser :=
  { b with page := (p.loadTables date).1, inFlight := (p.loadTables date).2.toList ++ b.inFlight }

/-- The page open in a browser, with its requests in flight. -/
def browse (date : Text → Option Int) : Machine Browser Event where
  step b
    | .select id =>
      if isAvailable b.page.tables id then
        some { b with page := { b.page with tableId := some id } }
      else none
    | .respond query answer =>
      if query ∈ b.inFlight then
        some { b with
          page := b.page.received answer
          inFlight := b.inFlight.erase query
          answers := (query, answer) :: b.answers }
      else none
    | .restaurantLoaded =>
      if b.mounting then some { b.load date b.page with mounting := false } else none
    | ev => some ((edit b.page ev).elim b (b.load date))

/-! ## The tables of the window -/

/-- The request for the window that the page would book now; `none` for an invalid input. -/
def Page.query (date : Text → Option Int) (p : Page) : Option Query :=
  if isPartySize p.partySize then
    match windowFor date p.startsAt with
    | (some start, some stop) => some ⟨start, stop, p.partySize⟩
    | _ => none
  else none

/-- The list is one that was answered for the current window: the empty list where the request
    failed or the input is invalid. -/
def Answered (date : Text → Option Int) (b : Browser) (tables : List AvailabilitySlot) : Prop :=
  match b.page.query date with
  | none => tables = []
  | some query => ∃ answer, (query, answer) ∈ b.answers ∧ tables = answer.getD []

/-- The page shows the tables of the window that it will book. -/
structure ShowsWindow (date : Text → Option Int) (b : Browser) : Prop where
  list : Answered date b b.page.tables
  choice : ∀ id, b.page.tableId = some id → isAvailable b.page.tables id = true

/-- No request is in flight. -/
def Browser.quiet (b : Browser) : Prop := b.inFlight = [] ∧ b.mounting = false

/-- A request for the current window is among these. -/
def Pending (date : Text → Option Int) (b : Browser) (queries : List Query) : Prop :=
  ∃ query ∈ queries, b.page.query date = some query

/-- **The condition on a step.**  A response comes before the one for the current window (or before
    the page loads the tables for the first time), or it is that one, or it brings a list that was
    answered for the current window; and a request that fails finds no table selected.  The same
    holds of a date that JavaScript does not read: the request fails before it is sent. -/
def Harmless (date : Text → Option Int) (b : Browser) : Event → Prop
  | .respond query answer =>
    b.mounting = true ∨ Pending date b (b.inFlight.erase query) ∨
      ((b.page.query date = some query ∨ Answered date b (answer.getD [])) ∧
        (answer = none → b.page.tableId = none))
  | .select _ => True
  | ev => ∀ p, edit b.page ev = some p →
      isPartySize p.partySize = true → p.query date = none → p.tableId = none

section Steps

variable {date : Text → Option Int} {b b' : Browser} {ev : Event}

/-- **What a step can do**: it selects a table, takes a response, loads the tables for the edited
    page, or changes nothing. -/
theorem step_cases (h : (browse date).step b ev = some b') :
    (∃ id, ev = .select id ∧ isAvailable b.page.tables id = true ∧
      b' = { b with page := { b.page with tableId := some id } }) ∨
    (∃ query answer, ev = .respond query answer ∧ query ∈ b.inFlight ∧
      b' = ⟨b.page.received answer, b.mounting, b.inFlight.erase query,
        (query, answer) :: b.answers⟩) ∨
    (∃ p m, edit b.page ev = some p ∧ b' = { b.load date p with mounting := m }) ∨
    (edit b.page ev = none ∧ (∀ query answer, ev ≠ .respond query answer) ∧ b' = b) := by
  have hedit : ∀ ev, (∀ query answer, ev ≠ .respond query answer) →
      some ((edit b.page ev).elim b (b.load date)) = some b' →
      (∃ p m, edit b.page ev = some p ∧ b' = { b.load date p with mounting := m }) ∨
      (edit b.page ev = none ∧ (∀ query answer, ev ≠ .respond query answer) ∧ b' = b) := by
    intro ev hne h
    obtain rfl := Option.some.inj h
    cases hp : edit b.page ev with
    | none => exact .inr ⟨rfl, hne, rfl⟩
    | some p => exact .inl ⟨p, b.mounting, rfl, rfl⟩
  cases ev with
  | select id =>
    obtain ⟨hid, h⟩ := Option.ite_none_right_eq_some.mp h
    exact .inl ⟨id, rfl, hid, (Option.some.inj h).symm⟩
  | respond query answer =>
    obtain ⟨hq, h⟩ := Option.ite_none_right_eq_some.mp h
    exact .inr (.inl ⟨query, answer, rfl, hq, (Option.some.inj h).symm⟩)
  | restaurantLoaded =>
    obtain ⟨-, h⟩ := Option.ite_none_right_eq_some.mp h
    exact .inr (.inr (.inl ⟨b.page, false, rfl, (Option.some.inj h).symm⟩))
  | pick day time => exact .inr (.inr (hedit (.pick day time) (fun _ _ => nofun) h))
  | enterPartySize field => exact .inr (.inr (hedit (.enterPartySize field) (fun _ _ => nofun) h))
  | refused => exact .inr (.inr (hedit .refused (fun _ _ => nofun) h))

/-- On a step that loads the tables the condition is the one on the date. -/
theorem harmless_of_edit {p : Page} (hp : edit b.page ev = some p) :
    Harmless date b ev ↔
      (isPartySize p.partySize = true → p.query date = none → p.tableId = none) := by
  have huniq : (∀ p', edit b.page ev = some p' → isPartySize p'.partySize = true →
      p'.query date = none → p'.tableId = none) ↔
      (isPartySize p.partySize = true → p.query date = none → p.tableId = none) :=
    ⟨fun h => h p hp, fun h p' hp' => Option.some.inj (hp.symm.trans hp') ▸ h⟩
  cases ev with
  | select id => exact absurd hp nofun
  | respond query answer => exact absurd hp nofun
  | _ => exact huniq

/-- A date is always there: `DateTimePicker` emits none without its `T`. -/
theorem edit_startsAt {p p' : Page} (h : edit p ev = some p') (hp : p.startsAt ≠ []) :
    p'.startsAt ≠ [] := by
  cases ev with
  | pick day time =>
    obtain ⟨-, h⟩ := Option.ite_none_left_eq_some.mp h
    obtain rfl := Option.some.inj h
    exact List.append_ne_nil_of_right_ne_nil _ (List.cons_ne_nil _ _)
  | enterPartySize field =>
    obtain ⟨-, h⟩ := Option.ite_none_left_eq_some.mp h
    obtain rfl := Option.some.inj h
    exact hp
  | select id => exact absurd h nofun
  | respond query answer => exact absurd h nofun
  | restaurantLoaded =>
    obtain rfl := Option.some.inj h
    exact hp
  | refused =>
    obtain rfl := Option.some.inj h
    exact hp

/-- `loadTables` in its three cases: an invalid party size, a date that cannot be read, a request
    for the current window. -/
theorem loadTables_cases (date : Text → Option Int) {p : Page} (h : p.startsAt ≠ []) :
    (isPartySize p.partySize = false ∧ p.query date = none ∧
      p.loadTables date = ({ p.checkPartySize.1 with tables := [], tableId := none }, none)) ∨
    (isPartySize p.partySize = true ∧ p.query date = none ∧
      p.loadTables date = ({ p.checkPartySize.1 with tables := [], tablesBusy := false }, none)) ∨
    (∃ query, p.query date = some query ∧
      p.loadTables date = ({ p.checkPartySize.1 with tablesBusy := true }, some query)) := by
  have hcheck : p.checkPartySize.2 = isPartySize p.partySize := rfl
  cases hok : isPartySize p.partySize with
  | false =>
    refine .inl ⟨rfl, ?_, ?_⟩
    · rw [Page.query, hok, if_neg Bool.false_ne_true]
    · rw [Page.loadTables, if_neg h, if_pos (hcheck.trans hok)]
  | true =>
    have hload : p.loadTables date = match windowFor date p.startsAt with
        | (some start, some stop) =>
          ({ p.checkPartySize.1 with tablesBusy := true }, some ⟨start, stop, p.partySize⟩)
        | _ => ({ p.checkPartySize.1 with tables := [], tablesBusy := false }, none) := by
      rw [Page.loadTables, if_neg h, hcheck, hok, if_neg nofun]
    have hquery : p.query date = match windowFor date p.startsAt with
        | (some start, some stop) => some ⟨start, stop, p.partySize⟩
        | _ => none := by
      rw [Page.query, hok, if_pos rfl]
    rcases hw : windowFor date p.startsAt with ⟨_ | start, _ | stop⟩
    all_goals rw [hw] at hload hquery
    · exact .inr (.inl ⟨rfl, hquery, hload⟩)
    · exact .inr (.inl ⟨rfl, hquery, hload⟩)
    · exact .inr (.inl ⟨rfl, hquery, hload⟩)
    · exact .inr (.inr ⟨_, hquery, hload⟩)

/-- Loading the tables leaves the two fields as they are. -/
theorem query_loadTables (p : Page) : (p.loadTables date).1.query date = p.query date := by
  have hcongr : ∀ p' : Page, p'.startsAt = p.startsAt → p'.partySize = p.partySize →
      p'.query date = p.query date := by
    intro p' hs hn
    rw [Page.query, Page.query, hs, hn]
  by_cases h : p.startsAt = []
  · rw [Page.loadTables, if_pos h]
  · rcases loadTables_cases date h with ⟨-, -, he⟩ | ⟨-, -, he⟩ | ⟨query, -, he⟩
    all_goals
      rw [he]
      exact hcongr _ rfl rfl

theorem query_received (p : Page) (answer : Answer) :
    (p.received answer).query date = p.query date := by
  cases answer <;> rfl

@[simp] theorem startsAt_received (p : Page) (answer : Answer) :
    (p.received answer).startsAt = p.startsAt := by
  cases answer <;> rfl

@[simp] theorem tables_received (p : Page) (answer : Answer) :
    (p.received answer).tables = answer.getD [] := by
  cases answer <;> rfl

theorem answered_none {tables : List AvailabilitySlot} (h : b.page.query date = none) :
    Answered date b tables ↔ tables = [] := by
  rw [Answered, h]

theorem answered_some {tables : List AvailabilitySlot} {query : Query}
    (h : b.page.query date = some query) :
    Answered date b tables ↔ ∃ answer, (query, answer) ∈ b.answers ∧ tables = answer.getD [] := by
  rw [Answered, h]

/-- A response adds itself to the answers, and nothing else, if it is for the current window. -/
theorem answered_received {query : Query} {answer : Answer} {m : Bool} {queries : List Query}
    {tables : List AvailabilitySlot} :
    Answered date ⟨b.page.received answer, m, queries, (query, answer) :: b.answers⟩ tables ↔
      (b.page.query date = some query ∧ tables = answer.getD []) ∨ Answered date b tables := by
  have hquery : (b.page.received answer).query date = b.page.query date := query_received ..
  cases hcur : b.page.query date with
  | none =>
    rw [answered_none hcur, answered_none (hquery.trans hcur)]
    exact ⟨.inr, fun h => h.elim (fun h => absurd h.1 nofun) id⟩
  | some current =>
    rw [answered_some hcur, answered_some (hquery.trans hcur)]
    constructor
    · rintro ⟨a, ha, he⟩
      rcases List.mem_cons.mp ha with heq | ha
      · obtain ⟨rfl, rfl⟩ := Prod.mk.inj heq
        exact .inl ⟨rfl, he⟩
      · exact .inr ⟨a, ha, he⟩
    · rintro (⟨heq, he⟩ | ⟨a, ha, he⟩)
      · obtain rfl := Option.some.inj heq
        exact ⟨answer, List.mem_cons_self .., he⟩
      · exact ⟨a, List.mem_cons_of_mem _ ha, he⟩

theorem startsAt_loadTables (p : Page) : (p.loadTables date).1.startsAt = p.startsAt := by
  by_cases h : p.startsAt = []
  · rw [Page.loadTables, if_pos h]
  · rcases loadTables_cases date h with ⟨-, -, he⟩ | ⟨-, -, he⟩ | ⟨query, -, he⟩
    all_goals rw [he]; rfl

/-! ## The invariant -/

/-- `loadTables` will run once more, or the request for the current window is under way, or the page
    shows its tables. -/
structure BrowseInv (date : Text → Option Int) (b : Browser) : Prop where
  dated : b.page.startsAt ≠ []
  settled : b.mounting = true ∨ Pending date b b.inFlight ∨ ShowsWindow date b

/-- Once nothing is in flight, the page shows the tables of its window. -/
theorem BrowseInv.shows (h : BrowseInv date b) (hq : b.quiet) : ShowsWindow date b := by
  rcases h.settled with hm | ⟨query, hmem, -⟩ | hs
  · exact absurd (hq.2.symm.trans hm) Bool.false_ne_true
  · exact absurd (hq.1 ▸ hmem) List.not_mem_nil
  · exact hs

/-- **Loading the tables** sends the request for the current window, or clears the list. -/
theorem load_settled {p : Page} (m : Bool) (hp : p.startsAt ≠ [])
    (hdate : isPartySize p.partySize = true → p.query date = none → p.tableId = none) :
    Pending date { b.load date p with mounting := m } (b.load date p).inFlight ∨
      ShowsWindow date { b.load date p with mounting := m } := by
  have hquery : (p.loadTables date).1.query date = p.query date := query_loadTables p
  rcases loadTables_cases date hp with ⟨-, hnone, he⟩ | ⟨hok, hnone, he⟩ | ⟨query, hsome, he⟩
  · refine .inr ⟨(answered_none (hquery.trans hnone)).mpr ?_, fun id hid => ?_⟩
    · show (p.loadTables date).1.tables = []
      rw [he]
    · have hid : (p.loadTables date).1.tableId = some id := hid
      rw [he] at hid
      exact absurd hid nofun
  · refine .inr ⟨(answered_none (hquery.trans hnone)).mpr ?_, fun id hid => ?_⟩
    · show (p.loadTables date).1.tables = []
      rw [he]
    · have hid : (p.loadTables date).1.tableId = some id := hid
      rw [he] at hid
      exact absurd ((hdate hok hnone).symm.trans hid) nofun
  · refine .inl ⟨query, ?_, hquery.trans hsome⟩
    show query ∈ (p.loadTables date).2.toList ++ b.inFlight
    rw [he]
    exact List.mem_cons_self ..

/-- **A step that meets the condition keeps the invariant**: one case for what a step can do. -/
theorem BrowseInv.step (h : BrowseInv date b) (hC : Harmless date b ev)
    (hst : (browse date).step b ev = some b') : BrowseInv date b' := by
  rcases step_cases hst with ⟨id, rfl, hid, rfl⟩ | ⟨query, answer, rfl, hmem, rfl⟩ |
    ⟨p, m, hp, rfl⟩ | ⟨-, -, rfl⟩
  · refine ⟨h.dated, h.settled.imp_right (Or.imp_right fun hs => ⟨hs.list, fun id' hid' => ?_⟩)⟩
    obtain rfl := Option.some.inj hid'
    exact hid
  · refine ⟨(startsAt_received ..).trans_ne h.dated, ?_⟩
    rcases hC with hm | ⟨query', hmem', hq'⟩ | ⟨hlist, hchoice⟩
    · exact .inl hm
    · exact .inr (.inl ⟨query', hmem', (query_received ..).trans hq'⟩)
    -- the last word: the list it brings is one of the current window
    · refine .inr (.inr ⟨answered_received.mpr ?_, fun id hid => ?_⟩)
      · rw [tables_received]
        exact hlist.imp_left fun hq => ⟨hq, rfl⟩
      · cases answer with
        | none => exact absurd ((hchoice rfl).symm.trans hid) nofun
        | some tables => exact (Option.filter_eq_some_iff.mp hid).2
  · refine ⟨?_, .inr (load_settled m (edit_startsAt hp h.dated) ((harmless_of_edit hp).mp hC))⟩
    show (p.loadTables date).1.startsAt ≠ []
    rw [startsAt_loadTables]
    exact edit_startsAt hp h.dated
  · exact h

/-- **The condition is exact on the step that ends in a quiet page**: if that page shows the tables
    of its window, the step has met it. -/
theorem harmless_of_shows (hst : (browse date).step b ev = some b') (hq : b'.quiet)
    (hs : ShowsWindow date b') (hdated : b.page.startsAt ≠ []) : Harmless date b ev := by
  rcases step_cases hst with ⟨id, rfl, hid, rfl⟩ | ⟨query, answer, rfl, hmem, rfl⟩ |
    ⟨p, m, hp, rfl⟩ | ⟨hp, hne, rfl⟩
  · trivial
  · refine .inr (.inr ⟨?_, ?_⟩)
    · have hlist := answered_received.mp hs.list
      rw [tables_received] at hlist
      exact hlist.imp_left And.left
    · rintro rfl
      cases hid : b.page.tableId with
      | none => rfl
      | some id => exact absurd (hs.choice id hid) Bool.false_ne_true
  · refine (harmless_of_edit hp).mpr fun hok hnone => ?_
    rcases loadTables_cases date (edit_startsAt hp hdated) with
      ⟨hbad, -, -⟩ | ⟨-, -, he⟩ | ⟨query, hsome, -⟩
    · exact absurd (hok.symm.trans hbad) nofun
    · cases hid : p.tableId with
      | none => rfl
      | some id =>
        have havail := hs.choice id (by
          show (p.loadTables date).1.tableId = some id
          rw [he]; exact hid)
        have htables : (p.loadTables date).1.tables = [] := by rw [he]
        exact absurd ((congrArg (isAvailable · id) htables).symm.trans havail) nofun
    · exact absurd (hnone.symm.trans hsome) nofun
  · cases ev with
    | respond query answer => exact absurd rfl (hne query answer)
    | select id => trivial
    | _ => exact fun p hp' => absurd (hp.symm.trans hp') nofun

end Steps

/-- `new Date` for one date and time, in UTC. -/
def augustEvening (t : Text) : Option Int :=
  if t = "2026-08-01T19:00".toList then some 1785610800000 else none

/-- The page for an evening in August. -/
def eveningPage : Browser := opened "2026-08-01".toList "19:00".toList

/-- The query of that evening. -/
def forParty (n : ℚ) : Query := ⟨1785610800000, 1785616200000, .number n⟩

/-- The small table. -/
def tableForTwo : AvailabilitySlot := ⟨1, "A1".toList, 2, true⟩

/-- The large one. -/
def tableForFour : AvailabilitySlot := ⟨2, "B1".toList, 4, true⟩

/-- A party of four instead of two: the response for two comes first. -/
def inOrder : List Event :=
  [.restaurantLoaded, .enterPartySize (.number 4),
    .respond (forParty 2) (some [tableForTwo, tableForFour]),
    .respond (forParty 4) (some [tableForFour]), .select 2]

/-- The same two responses the other way round. -/
def overtaken : List Event :=
  [.restaurantLoaded, .enterPartySize (.number 4),
    .respond (forParty 4) (some [tableForFour]),
    .respond (forParty 2) (some [tableForTwo, tableForFour])]

/-- The browser after these events. -/
def after (evs : List Event) : Browser := ((browse augustEvening).run eveningPage evs).getD eveningPage

theorem reach_inOrder :
    (browse augustEvening).Reach (Harmless augustEvening) eveningPage (after inOrder) := by
  have hstep : ∀ k, k < 5 → (browse augustEvening).step (after (inOrder.take k))
      (inOrder.getD k .refused) = some (after (inOrder.take (k + 1))) := by decide
  have hloaded : Harmless augustEvening eveningPage .restaurantLoaded :=
    (harmless_of_edit rfl).mpr fun _ _ => rfl
  have hfour : Harmless augustEvening (after (inOrder.take 1)) (.enterPartySize (.number 4)) := by
    refine (harmless_of_edit (p := { (after (inOrder.take 1)).page with partySize := .number 4 })
      (by decide)).mpr fun _ _ => by decide
  have hfirst : Harmless augustEvening (after (inOrder.take 2))
      (.respond (forParty 2) (some [tableForTwo, tableForFour])) :=
    .inr (.inl ⟨forParty 4, by decide, by decide⟩)
  have hsecond : Harmless augustEvening (after (inOrder.take 3))
      (.respond (forParty 4) (some [tableForFour])) :=
    .inr (.inr ⟨.inl (by decide), nofun⟩)
  have h1 := Machine.Reach.tail .refl hloaded (hstep 0 (by decide))
  have h2 := Machine.Reach.tail h1 hfour (hstep 1 (by decide))
  have h3 := Machine.Reach.tail h2 hfirst (hstep 2 (by decide))
  have h4 := Machine.Reach.tail h3 hsecond (hstep 3 (by decide))
  have hselect : Harmless augustEvening (after (inOrder.take 4)) (.select 2) := trivial
  exact .tail h4 hselect (hstep 4 (by decide))

/-- A request that fails empties the list and leaves the selected table. -/
example :
    let b := after [.restaurantLoaded, .respond (forParty 2) (some [tableForTwo]), .select 1,
      .enterPartySize (.number 4), .respond (forParty 4) none]
    b.quiet ∧ b.page.tables = [] ∧ b.page.tableId = some 1 := by
  exact ⟨⟨by decide, by decide⟩, by decide, by decide⟩

end TableFlow.BookTable
