/-
  No false alarm: the steady traffic passes through the whole migration.

  1. **The condition** (`Fair`) — the others leave the script's account and its windows alone; no
     answer to the script is built from other columns than those the phase reads by then; no
     booking comes too late for the backfill (`Rollout.InTime`).
  2. **One stretch** of a request of the script, for each kind of request: it is never refused but
     for its version, and what it answers is the name that the row holds.
  3. **What the script believes** (`Tracks`) — the names it expects are those of its rows, except
     where a rename of its own has committed and is not answered yet.
  4. **The bench, move by move** (`Hosting`); as long as every request is answered, all checks of
     the report pass (`no_false_alarm`).
-/
import TableFlow.Uptime

namespace TableFlow.Traffic

open Lib

/-! ## The condition -/

/-- An answer that the task builds next is built from the columns that the phase reads. -/
def Level (phase : Phase) (t : Task) : Prop :=
  ∀ l, t.stage = .reloaded (some l) ∨
    (t.stage = .loaded (some l) ∧ ∃ user id, t.request = .onOne user id .get) →
    l.columns = readColumns phase

/-- **The condition on a move.** -/
def Fair (K : Rig) (b : Bench) : Move → Prop
  | .site ev =>
    Rollout.InTime b.site ev ∧ fitsBigint b.site.world.nextId = true ∧
      (∀ req, ev = .serve (.arrive req) → K.Admits req) ∧
      ∀ i t, ev = .serve (.step i) → b.site.world.tasks[i]? = some t →
        i ∈ b.script.calls.map Prod.fst → Level b.site.world.phase t
  | _ => True

/-! ## One stretch of a request -/

/-- The answer is this reservation under this name. -/
def Says (a : Answer) (status id : Nat) (n : Text) : Prop :=
  ∃ tag out, a = .out status tag out ∧ out.id = id ∧ out.guestName = n

/-- A booking of the script on its way. -/
def Rig.Creating (K : Rig) (w : World) (slot : Nat) (name : Text) : Stage → Prop
  | .arrived | .inserting _ | .checking _ _ | .committing _ => True
  | .booking table => table = some K.table
  | .saved id => K.Holds w id slot name
  | .reloading id cs => K.Holds w id slot name ∧ Chosen w cs
  | .reloaded row => ∃ id, K.Holds w id slot name ∧ K.Loads w id name row
  | .done a => ∃ id, K.Holds w id slot name ∧ Says a 201 id name
  | _ => False

/-- A GET of a row that holds the name `n`. -/
def Rig.Reading (K : Rig) (w : World) (rid : Nat) (n : Text) : Stage → Prop
  | .arrived => True
  | .selecting cs => Chosen w cs
  | .loaded row => K.Loads w rid n row
  | .done a => Says a 200 rid n
  | _ => False

/-- A PATCH to `name` of a row that holds the name `n`, where the script expects `want`. -/
def Rig.Renaming (K : Rig) (w : World) (rid : Nat) (name want n : Text) : Stage → Prop
  | .arrived | .updating _ _ | .checking _ _ | .committing _ => n = want
  | .selecting cs => n = want ∧ Chosen w cs
  | .loaded row => n = want ∧ K.Loads w rid n row
  | .saved _ => n = name
  | .reloading _ cs => n = name ∧ Chosen w cs
  | .reloaded row => n = name ∧ K.Loads w rid n row
  | .done a => n = want ∧ (a.status = 409 ∨ a.status = 412) ∨ n = name ∧ Says a 200 rid n
  | _ => False

section Stretch

variable {K : Rig} {env : Env} {init : List Reservation} {s : Rollout.Site} {i : Nat} {t : Task}
  {e : Effect} {st : Stage}

theorem Rig.Loads.answer {w : World} {id : Nat} {n : Text} {l : Loaded}
    (h : K.Loads w id n (some l)) (hn : n ∈ names) (hcols : l.columns = readColumns w.phase)
    (status : Nat) : Says (respond w.phase status l) status id n := by
  obtain ⟨l', hl, hid, -, hreads⟩ := h
  obtain rfl := Option.some.inj hl
  obtain ⟨tag, out, hout, hname, hout'⟩ := hreads.respond hn hcols status
  exact ⟨tag, out, hout, hout'.trans hid, hname⟩

/-- **The table takes every booking of the script.** -/
theorem Rig.Fits.bookingChecks (hK : K.Fits env init) (slot : Nat) (name : Name) :
    bookingChecks (some K.table) (K.payload slot name) = .ok K.table := by
  have hplace : ¬ K.table.restaurantId ≠ (K.payload slot name).restaurantId := fun hne => hne rfl
  have hactive : ¬ K.table.isActive = false := by rw [hK.active]; decide
  have hseats : ¬ (K.payload slot name).partySize > K.table.capacity := Nat.not_lt.mpr hK.seats
  unfold TableFlow.bookingChecks
  dsimp only
  rw [if_neg hplace, if_neg hactive, if_neg hseats]

/-- **A booking of the script** goes on. -/
theorem Rig.Creating.act (hK : K.Fits env init) (h : Serving K env init s)
    (ht : s.world.tasks[i]? = some t) {slot : Nat} {name : Name}
    (hreq : t.request = .post K.user (K.payload slot name)) (hdated : K.Dated slot)
    (hlevel : Level s.world.phase t) (hc : K.Creating s.world slot name.1 t.stage)
    (ha : Act (env.at s.revision) s.world i t.request t.stage e st) :
    K.Creating (s.world.apply i e) slot name.1 st := by
  have hinv := h.rollout.inv
  have hs := hinv.stages i t ht
  obtain ⟨req, st₀⟩ := t
  obtain rfl : req = .post K.user (K.payload slot name) := hreq
  cases ha with
  | badTableId hid => exact absurd (hK.sendable.symm.trans hid) (by decide)
  | noTable _ hno => exact absurd (hK.known.symm.trans hno) (by simp)
  | lockTable _ htab _ => exact htab.symm.trans hK.known
  | refuseBooking herr =>
    rw [show _ = some K.table from hc, hK.bookingChecks] at herr
    exact absurd herr (by simp)
  | prepare _ => trivial
  | insertFails herr =>
    obtain ⟨-, user, body, p, hreq, hp, rfl⟩ := hs
    obtain ⟨rfl, rfl⟩ := Request.post.inj hreq
    rw [insertError_newReservation hp _ (names_storable name.1 name.2)] at herr
    exact absurd herr (by simp)
  | insert _ => trivial
  | violated hd _ hv =>
    obtain ⟨hmem, ho, -⟩ := draft_some hd
    have hmine := h.mine_of_books ht ⟨name, rfl⟩ hdated hmem ho
    exact absurd ((h.placed.not_violated hmem hmine.inReach).symm.trans hv) (by decide)
  | pass _ _ _ => trivial
  | commit _ =>
    obtain ⟨⟨d, hd, ho, hid⟩, -⟩ := hs
    exact h.holds_commit hd ho hid (h.mine_of_books ht ⟨name, rfl⟩ hdated hd ho)
      (h.brings ht rfl hd ho)
  | reload _ => exact ⟨hc, chosen_readColumns _⟩
  | reloadFails _ herr =>
    obtain ⟨-, p, hp, rfl⟩ := hs
    rw [reloadError_eq hp, hc.1.loadError] at herr
    exact absurd herr (by simp)
  | reloadRow _ _ => exact ⟨_, hc.1, hc.1.select h.filled hc.2⟩
  | noRow _ =>
    obtain ⟨_, -, _, hl, -⟩ := hc
    exact absurd hl (by simp)
  | respondSaved _ =>
    obtain ⟨id, hold, hload⟩ := hc
    exact ⟨id, hold, hload.answer name.2 (hlevel _ (.inl rfl)) 201⟩

/-- A SELECT by the id of a row that is there fits. -/
theorem Serving.select_fits (h : Serving K env init s) (hfits : fitsBigint s.world.nextId = true)
    {rid slot : Nat} {n : Text} (hold : K.Holds s.world rid slot n) : fitsBigint rid = true := by
  obtain ⟨r, hr, -⟩ := hold
  obtain ⟨hmem, hid⟩ := Store.lookup_some hr
  have hlt : r.id < s.world.nextId := h.rollout.inv.rowIds r hmem
  have hid : r.id = rid := hid
  unfold fitsBigint at hfits ⊢
  rw [decide_eq_true_eq] at hfits ⊢
  omega

/-- **A GET of the script** goes on. -/
theorem Rig.Reading.act (h : Serving K env init s) (hfits : fitsBigint s.world.nextId = true)
    (ht : s.world.tasks[i]? = some t) {rid slot : Nat} {n : Text} (hn : n ∈ names)
    (hold : K.Holds s.world rid slot n) (hreq : t.request = .onOne K.user rid .get)
    (hlevel : Level s.world.phase t) (hc : K.Reading s.world rid n t.stage)
    (ha : Act (env.at s.revision) s.world i t.request t.stage e st) :
    K.Reading (s.world.apply i e) rid n st := by
  have hs := h.rollout.inv.stages i t ht
  obtain ⟨req, st₀⟩ := t
  obtain rfl : req = .onOne K.user rid .get := hreq
  cases ha with
  | select => exact chosen_readColumns _
  | selectFails herr =>
    obtain ⟨p, hp, rfl⟩ := hs
    rw [selectError_eq hp _ (h.select_fits hfits hold), hold.loadError] at herr
    exact absurd herr (by simp)
  | selectRow _ => exact hold.select h.filled hc
  | refuseLoad herr =>
    obtain ⟨l, rfl, -, huser, -⟩ := hc
    exact absurd herr (by rw [show loadOwned K.user (some l) = .ok l from
      if_neg fun hno => hno.2 huser]; simp)
  | respondGet hload _ =>
    obtain rfl := loadOwned_ok hload
    exact Rig.Loads.answer hc hn (hlevel _ (.inr ⟨rfl, _, _, rfl⟩)) 200
  | refuseVersion _ hed _ => exact absurd hed (by simp [Op.edit])
  | noChange _ hed _ _ => exact absurd hed (by simp [Op.edit])
  | unsendable _ hed _ _ _ => exact absurd hed (by simp [Op.edit])
  | change _ hed _ _ _ => exact absurd hed (by simp [Op.edit])
  | _ => exact absurd hc (fun x => x)

/-- **A PATCH of the script** goes on; its commit gives the row the new name. -/
theorem Rig.Renaming.act (h : Serving K env init s) (hfits : fitsBigint s.world.nextId = true)
    (ht : s.world.tasks[i]? = some t) {rid slot v : Nat} {name : Name} {want n : Text}
    (hn : n ∈ names) (hold : K.Holds s.world rid slot n)
    (hreq : t.request = .onOne K.user rid (.patch (some (etag v)) (renameBody name)))
    (hlevel : Level s.world.phase t) (hc : K.Renaming s.world rid name.1 want n t.stage)
    (hback : (s.world.apply i e).phase.readsGuestName = true →
      s.world.phase.readsGuestName = true)
    (ha : Act (env.at s.revision) s.world i t.request t.stage e st) :
    ∃ n', n' ∈ names ∧ K.Holds (s.world.apply i e) rid slot n' ∧
      K.Renaming (s.world.apply i e) rid name.1 want n' st := by
  have hinv := h.rollout.inv
  have hs := hinv.stages i t ht
  have habout := h.about t (List.mem_of_getElem? ht) _ _ _ hreq
  -- all but the commit leave the row as it is
  have same : e ≠ .commit → K.Renaming (s.world.apply i e) rid name.1 want n st →
      ∃ n', n' ∈ names ∧ K.Holds (s.world.apply i e) rid slot n' ∧
        K.Renaming (s.world.apply i e) rid name.1 want n' st :=
    fun he hst => ⟨n, hn, h.keeps ht hback hold fun hcommit => absurd hcommit he, hst⟩
  obtain ⟨req, st₀⟩ := t
  obtain rfl : req = .onOne K.user rid (.patch (some (etag v)) (renameBody name)) := hreq
  cases ha with
  | select => exact same (by simp) ⟨hc, chosen_readColumns _⟩
  | selectFails herr =>
    obtain ⟨p, hp, rfl⟩ := hs
    rw [selectError_eq hp _ (h.select_fits hfits hold), hold.loadError] at herr
    exact absurd herr (by simp)
  | selectRow _ => exact same (by simp) ⟨hc.1, hold.select h.filled hc.2⟩
  | refuseLoad herr =>
    obtain ⟨-, l, rfl, -, huser, -⟩ := hc
    exact absurd herr (by rw [show loadOwned K.user (some l) = .ok l from
      if_neg fun hno => hno.2 huser]; simp)
  | respondGet _ hed => exact absurd hed (by simp [Op.edit])
  | refuseVersion _ hed herr =>
    obtain rfl := Option.some.inj hed
    exact same (by simp) (.inl ⟨hc.1, .inr (checkIfMatch_sent herr)⟩)
  | noChange hload hed _ hempty =>
    obtain rfl := Option.some.inj hed
    obtain rfl := loadOwned_ok hload
    obtain ⟨-, l, hl, -, -, hreads⟩ := hc
    obtain rfl := Option.some.inj hl
    exact same (by simp) (hreads.unchanged hn (hs _ rfl).1.1 hempty)
  | unsendable _ hed _ _ hsend =>
    obtain rfl := Option.some.inj hed
    have hsends : (patched s.world.phase (renameBody name)).sendable = true :=
      patched_sendable _ fun m hm => Option.some.inj hm ▸ names_storable name.1 name.2
    rw [net_sendable hsends] at hsend
    exact absurd hsend (by decide)
  | change _ _ _ _ _ => exact same (by simp) hc.1
  | staleRow _ _ => exact same (by simp) (.inl ⟨hc, .inl rfl⟩)
  | updateFails _ hr _ herr =>
    rw [updateError_eq_none hinv hs hr] at herr
    exact absurd herr (by simp)
  | update _ _ _ _ => exact same (by simp) hc
  | violated hd _ hv =>
    obtain ⟨hmem, ho, hid⟩ := draft_some hd
    have hmine := h.mine_of_holds hold hmem (hid.trans habout)
    exact absurd ((h.placed.not_violated hmem hmine.inReach).symm.trans hv) (by decide)
  | pass _ _ _ => exact same (by simp) hc
  | commit _ =>
    obtain ⟨⟨d, hd, ho, hid⟩, -⟩ := hs
    have hid := hid.trans habout
    exact ⟨name.1, name.2, h.holds_commit hd ho hid (h.mine_of_holds hold hd hid)
      (h.brings ht rfl hd ho), rfl⟩
  | reload _ => exact same (by simp) ⟨hc, chosen_readColumns _⟩
  | reloadFails _ herr =>
    obtain ⟨-, p, hp, rfl⟩ := hs
    obtain rfl := habout
    rw [reloadError_eq hp, hold.loadError] at herr
    exact absurd herr (by simp)
  | reloadRow _ _ =>
    obtain rfl := habout
    exact same (by simp) ⟨hc.1, hold.select h.filled hc.2⟩
  | noRow _ =>
    obtain ⟨-, _, hl, -⟩ := hc
    exact absurd hl (by simp)
  | respondSaved _ =>
    exact same (by simp) (.inr ⟨hc.1, hc.2.answer hn (hlevel _ (.inl rfl)) 200⟩)

end Stretch

/-! ## What the script waits for -/

/-- The reservation that the coroutine works with. -/
def Await.rid : Await → Option Nat
  | .create _ _ => none
  | .read rid | .rename rid _ _ | .reread rid _ _ => some rid

/-- The row `rid` holds a name, and the script expects one. -/
def Rig.Knows (K : Rig) (w : World) (expected : List (Nat × Text)) (rid : Nat)
    (P : Text → Text → Prop) : Prop :=
  ∃ slot n want, n ∈ names ∧ K.Holds w rid slot n ∧ expected.lookup rid = some want ∧ P want n

/-- The request that a coroutine waits for, and how far it is. -/
def Await.Ok (K : Rig) (w : World) (expected : List (Nat × Text)) (t : Task) : Await → Prop
  | .create slot name =>
    t.request = .post K.user (K.payload slot name) ∧ K.Dated slot ∧
      K.Creating w slot name.1 t.stage
  | .read rid | .reread rid _ _ =>
    t.request = .onOne K.user rid .get ∧
      K.Knows w expected rid fun _ n => K.Reading w rid n t.stage
  | .rename rid name _ =>
    (∃ v, t.request = .onOne K.user rid (.patch (some (etag v)) (renameBody name))) ∧
      K.Knows w expected rid fun want n => K.Renaming w rid name.1 want n t.stage

/-- The row `id` of this slot is one that the coroutine relies on. -/
def Await.Touches (aw : Await) (id slot : Nat) : Prop :=
  match aw with
  | .create slot' _ => slot' = slot
  | .read rid | .rename rid _ _ | .reread rid _ _ => rid = id

section Waiting

variable {K : Rig} {w w' : World} {expected : List (Nat × Text)} {t : Task} {aw : Await}
  {st : Stage}

theorem Rig.Creating.later {slot : Nat} {name : Text} (h : K.Creating w slot name st)
    (hback : w'.phase.readsGuestName = true → w.phase.readsGuestName = true)
    (hkeep : ∀ id n, K.Holds w id slot n → K.Holds w' id slot n) : K.Creating w' slot name st := by
  cases st with
  | saved id => exact hkeep id name h
  | reloading id cs => exact ⟨hkeep id name h.1, h.2.later hback⟩
  | reloaded row =>
    obtain ⟨id, hold, hload⟩ := h
    exact ⟨id, hkeep id name hold, hload.later hback⟩
  | done a =>
    obtain ⟨id, hold, hsays⟩ := h
    exact ⟨id, hkeep id name hold, hsays⟩
  | _ => exact h

theorem Rig.Reading.later {rid : Nat} {n : Text} (h : K.Reading w rid n st)
    (hback : w'.phase.readsGuestName = true → w.phase.readsGuestName = true) :
    K.Reading w' rid n st := by
  cases st with
  | selecting cs => exact Chosen.later hback h
  | loaded row => exact Rig.Loads.later hback h
  | _ => exact h

theorem Rig.Renaming.later {rid : Nat} {name want n : Text} (h : K.Renaming w rid name want n st)
    (hback : w'.phase.readsGuestName = true → w.phase.readsGuestName = true) :
    K.Renaming w' rid name want n st := by
  cases st with
  | selecting cs => exact ⟨h.1, h.2.later hback⟩
  | loaded row => exact ⟨h.1, h.2.later hback⟩
  | reloading id cs => exact ⟨h.1, h.2.later hback⟩
  | reloaded row => exact ⟨h.1, h.2.later hback⟩
  | _ => exact h

theorem Rig.Knows.imp {rid : Nat} {P Q : Text → Text → Prop} (h : K.Knows w expected rid P)
    (hkeep : ∀ slot n, K.Holds w rid slot n → K.Holds w' rid slot n)
    (himp : ∀ want n, P want n → Q want n) : K.Knows w' expected rid Q := by
  obtain ⟨slot, n, want, hn, hold, hwant, hp⟩ := h
  exact ⟨slot, n, want, hn, hkeep slot n hold, hwant, himp want n hp⟩

/-- **Whoever leaves its rows alone** does not disturb a coroutine. -/
theorem Await.Ok.later (h : aw.Ok K w expected t)
    (hback : w'.phase.readsGuestName = true → w.phase.readsGuestName = true)
    (hkeep : ∀ id slot n, aw.Touches id slot → K.Holds w id slot n → K.Holds w' id slot n) :
    aw.Ok K w' expected t := by
  cases aw with
  | create slot name =>
    obtain ⟨hreq, hdated, hc⟩ := h
    exact ⟨hreq, hdated, hc.later hback fun id n => hkeep id slot n rfl⟩
  | rename rid name k =>
    exact ⟨h.1, h.2.imp (fun slot n => hkeep rid slot n rfl) fun _ _ hc => hc.later hback⟩
  | _ => exact ⟨h.1, h.2.imp (fun slot n => hkeep _ slot n rfl) fun _ _ hc => hc.later hback⟩

/-- A request arrives beside it. -/
theorem Await.Ok.beside (h : aw.Ok K w expected t) (tasks : List Task) :
    aw.Ok K { w with tasks := tasks } expected t :=
  h.later (fun hp => hp) fun _ _ _ _ hold => hold.later (fun hp => hp) rfl

variable {env : Env} {init : List Reservation} {s : Rollout.Site} {i : Nat}

/-- What the request of a coroutine has in progress is one of the script's windows. -/
theorem Await.Ok.mine (h : Serving K env init s) (ht : s.world.tasks[i]? = some t)
    (hok : aw.Ok K s.world expected t) {d : Draft Reservation} (hd : d ∈ s.world.store.drafts)
    (ho : d.owner = i) : ∃ slot, K.Mine slot d.row := by
  have hmade := (h.rollout.inv.writes ht hd ho).1
  have nothing : ∀ rid, t.request = .onOne K.user rid .get → False := by
    intro rid hreq
    rw [hreq] at hmade
    obtain ⟨_, _, _, _, _, _, _, _, hed, -⟩ := hmade
    exact absurd hed (by simp [Op.edit])
  cases aw with
  | create slot name => exact ⟨slot, h.mine_of_books ht ⟨name, hok.1⟩ hok.2.1 hd ho⟩
  | read rid => exact (nothing rid hok.1).elim
  | reread rid name k => exact (nothing rid hok.1).elim
  | rename rid name k =>
    obtain ⟨⟨v, hreq⟩, slot, n, -, -, hold, -⟩ := hok
    refine ⟨slot, h.mine_of_holds hold hd ?_⟩
    rw [hreq] at hmade
    obtain ⟨b, p, ed, cs, v', hb, hid, -, -, -, -, hrow⟩ := hmade
    rw [hrow, apply_id]
    exact hid

end Waiting

/-! ## What the script believes -/

/-- The statuses that the report takes. -/
def Passing (x : Method × Nat) : Prop :=
  x = (.post, 201) ∨ x = (.get, 200) ∨ x = (.patch, 200) ∨ x = (.patch, 409) ∨ x = (.patch, 412)

/-- **The script against the database.** -/
structure Tracks (K : Rig) (w : World) (c : Steady) : Prop where
  slots : ∀ t ∈ w.tasks, ∀ slot, K.Books t.request slot → slot ≤ c.slot
  patches : ∀ (i : Nat) (t : Task), w.tasks[i]? = some t → ∀ rid v name,
    t.request = .onOne K.user rid (.patch (some (etag v)) (renameBody name)) →
    t.status.isSome = true ∨ ∃ k, (i, Await.rename rid name k) ∈ c.calls
  calls : ∀ x ∈ c.calls, ∃ t, w.tasks[x.1]? = some t ∧ x.2.Ok K w c.expected t
  once : ∀ x ∈ c.calls, ∀ y ∈ c.calls, x.1 = y.1 → x = y
  /-- One request per booking at a time. -/
  rids : ∀ x ∈ c.calls, ∀ y ∈ c.calls, ∀ rid, x.2.rid = some rid → y.2.rid = some rid → x = y
  busy : ∀ x ∈ c.calls, ∀ rid, x.2.rid = some rid → rid ∈ c.busy
  kept : ∀ rid want, c.expected.lookup rid = some want → ∃ slot n, n ∈ names ∧
    K.Holds w rid slot n ∧ slot ≤ c.slot ∧ (∀ x ∈ c.calls, ∀ name, x.2 ≠ .create slot name) ∧
    ((∀ x ∈ c.calls, ∀ name k, x.2 ≠ .rename rid name k) → n = want)
  codes : ∀ x ∈ c.codes, Passing x
  badFields : c.badFields = 0

section Site

variable {K : Rig} {env : Env} {init : List Reservation} {s s' : Rollout.Site} {c : Steady} {i : Nat}
  {t : Task} {e : Effect} {st : Stage}

/-- A request arrives that is not the script's. -/
theorem Tracks.beside {w : World} (h : Tracks K w c) {req : Request}
    (hbook : ∀ slot, ¬ K.Books req slot)
    (hpatch : ∀ rid v name, req ≠ .onOne K.user rid (.patch (some (etag v)) (renameBody name))) :
    Tracks K { w with tasks := w.tasks ++ [⟨req, .arrived⟩] } c := by
  refine ⟨fun t ht slot hslot => ?_, fun i t ht rid v name hreq => ?_, fun x hx => ?_, h.once,
    h.rids, h.busy, fun rid want hwant => ?_, h.codes, h.badFields⟩
  · rcases List.mem_append.mp ht with ht | ht
    · exact h.slots t ht slot hslot
    · rw [List.mem_singleton.mp ht] at hslot
      exact absurd hslot (hbook slot)
  · rcases slot_of_concat ht with ht | ⟨-, rfl⟩
    · exact h.patches i t ht rid v name hreq
    · exact absurd hreq (hpatch rid v name)
  · obtain ⟨t, ht, hok⟩ := h.calls x hx
    exact ⟨t, slot_append ht _, hok.beside _⟩
  · obtain ⟨slot, n, hn, hold, hrest⟩ := h.kept rid want hwant
    exact ⟨slot, n, hn, hold.later (fun hp => hp) rfl, hrest⟩

/-- A stretch of task `i` leaves a row its name, or it is a rename of this row. -/
def Moves (K : Rig) (w w' : World) (c : Steady) (i : Nat) : Prop :=
  ∀ id slot n, K.Holds w id slot n → K.Holds w' id slot n ∨
    (∃ n' ∈ names, K.Holds w' id slot n') ∧ ∃ name k, (i, Await.rename id name k) ∈ c.calls

/-- **A task goes on**: what the script relies on stays. -/
theorem Tracks.advance {w : World} (h : Tracks K w c) (ht : w.tasks[i]? = some t)
    (hopen : t.status = none)
    (hback : (w.apply i e).phase.readsGuestName = true → w.phase.readsGuestName = true)
    (hmoves : Moves K w (w.apply i e) c i)
    (hown : ∀ aw, (i, aw) ∈ c.calls → aw.Ok K (w.apply i e) c.expected ⟨t.request, st⟩) :
    Tracks K (w.advance i t.request e st) c := by
  refine ⟨fun t' ht' slot hslot => ?_, fun j t' ht' rid v name hreq => ?_, fun x hx => ?_, h.once,
    h.rids, h.busy, fun rid want hwant => ?_, h.codes, h.badFields⟩
  · rcases mem_tasks_advance ht' with ht' | rfl
    · exact h.slots t' ht' slot hslot
    · exact h.slots t (List.mem_of_getElem? ht) slot hslot
  · rcases task_of_advance ht' with ⟨rfl, rfl⟩ | ⟨-, ht'⟩
    · refine (h.patches j t ht rid v name hreq).imp_left fun hdone => ?_
      rw [hopen] at hdone
      exact absurd hdone (by decide)
    · exact h.patches j t' ht' rid v name hreq
  · obtain ⟨j, aw⟩ := x
    by_cases hj : j = i
    · subst hj
      exact ⟨_, advance_task_self ht, (hown aw hx).beside _⟩
    · obtain ⟨t', ht', hok⟩ := h.calls _ hx
      refine ⟨t', (advance_task_ne hj).trans ht', Await.Ok.beside (hok.later hback ?_) _⟩
      -- the row that is renamed is not one of this coroutine's
      intro id slot n htouch hold
      refine (hmoves id slot n hold).resolve_right fun ⟨_, name, k, hmem⟩ => ?_
      have other : ∀ rid, aw.rid = some rid → rid = id → False := fun rid hrid heq =>
        hj (congrArg Prod.fst (h.rids _ hx _ hmem id (heq ▸ hrid) rfl))
      cases aw with
      | create slot' name' =>
        obtain rfl : slot' = slot := htouch
        obtain ⟨t₂, -, -, -, -, want, -, -, hwant, -⟩ := h.calls _ hmem
        obtain ⟨slot₂, n₂, hn₂, hold₂, -, hcreate, -⟩ := h.kept id want hwant
        obtain rfl := hold.slot_inj hold₂
        exact hcreate _ hx name' rfl
      | read rid => exact other rid rfl htouch
      | rename rid name' k' => exact other rid rfl htouch
      | reread rid name' k' => exact other rid rfl htouch
  · obtain ⟨slot, n, hn, hold, hslot, hcreate, hname⟩ := h.kept rid want hwant
    rcases hmoves rid slot n hold with hold | ⟨⟨n', hn', hold⟩, name, k, hmem⟩
    · exact ⟨slot, n, hn, hold, hslot, hcreate, hname⟩
    · exact ⟨slot, n', hn', hold, hslot, hcreate, fun hno => absurd rfl (hno _ hmem name k)⟩

/-- **One stretch** of any request. -/
theorem Tracks.act (hK : K.Fits env init) (hs : Serving K env init s) (h : Tracks K s.world c)
    (hfits : fitsBigint s.world.nextId = true) (ht : s.world.tasks[i]? = some t)
    (hlevel : i ∈ c.calls.map Prod.fst → Level s.world.phase t)
    (hback : (s.world.apply i e).phase.readsGuestName = true →
      s.world.phase.readsGuestName = true)
    (ha : Act (env.at s.revision) s.world i t.request t.stage e st) :
    Tracks K (s.world.advance i t.request e st) c := by
  have hopen : t.status = none := by
    obtain ⟨req, st₀⟩ := t
    cases ha <;> rfl
  have moves : Moves K s.world (s.world.apply i e) c i := by
    intro id slot n hold
    by_cases hcall : ∃ name k, (i, Await.rename id name k) ∈ c.calls
    · obtain ⟨name, k, hmem⟩ := hcall
      obtain ⟨t', ht', ⟨v, hreq⟩, slot', n', want, hn', hold', -, hc⟩ := h.calls _ hmem
      obtain rfl := Option.some.inj (ht.symm.trans ht')
      obtain rfl := hold.slot_inj hold'
      obtain ⟨n'', hn'', hold'', -⟩ := Rig.Renaming.act hs hfits ht hn' hold' hreq
        (hlevel (List.mem_map_of_mem hmem)) hc hback ha
      exact .inr ⟨⟨n'', hn'', hold''⟩, name, k, hmem⟩
    · refine .inl (hs.keeps ht hback hold fun _ v name hreq => hcall ?_)
      refine ⟨name, (h.patches i t ht id v name hreq).resolve_left fun hdone => ?_⟩
      rw [hopen] at hdone
      exact absurd hdone (by decide)
  refine h.advance ht hopen hback moves fun aw hmem => ?_
  obtain ⟨t', ht', hok⟩ := h.calls _ hmem
  obtain rfl := Option.some.inj (ht.symm.trans ht')
  have hlevel := hlevel (List.mem_map_of_mem hmem)
  have reading : ∀ rid, t.request = .onOne K.user rid .get →
      (K.Knows s.world c.expected rid fun _ n => K.Reading s.world rid n t.stage) →
      K.Knows (s.world.apply i e) c.expected rid fun _ n =>
        K.Reading (s.world.apply i e) rid n st := by
    rintro rid hreq ⟨slot, n, want, hn, hold, hwant, hc⟩
    refine ⟨slot, n, want, hn, hs.keeps ht hback hold fun _ v name hpatch => ?_, hwant,
      Rig.Reading.act hs hfits ht hn hold hreq hlevel hc ha⟩
    exact absurd (hreq.symm.trans hpatch) (by simp)
  cases aw with
  | create slot name =>
    obtain ⟨hreq, hdated, hc⟩ := hok
    exact ⟨hreq, hdated, Rig.Creating.act hK hs ht hreq hdated hlevel hc ha⟩
  | read rid => exact ⟨hok.1, reading rid hok.1 hok.2⟩
  | reread rid name k => exact ⟨hok.1, reading rid hok.1 hok.2⟩
  | rename rid name k =>
    obtain ⟨⟨v, hreq⟩, slot, n, want, hn, hold, hwant, hc⟩ := hok
    obtain ⟨n', hn', hold', hc'⟩ := Rig.Renaming.act hs hfits ht hn hold hreq hlevel hc hback ha
    exact ⟨⟨v, hreq⟩, slot, n', want, hn', hold', hwant, hc'⟩

/-- **The site goes on** beside the script. -/
theorem Tracks.step (hK : K.Fits env init) (hs : Serving K env init s) (h : Tracks K s.world c)
    {ev : Beside} (hfits : fitsBigint s.world.nextId = true)
    (hadmits : ∀ req, ev = .serve (.arrive req) → K.Admits req)
    (hlevel : ∀ i t, ev = .serve (.step i) → s.world.tasks[i]? = some t →
      i ∈ c.calls.map Prod.fst → Level s.world.phase t)
    (hst : (Rollout.rollout env).step s ev = some s') : Tracks K s'.world c := by
  have hback := hs.onward.back hs.rollout hst
  cases Rollout.step_cases hst with
  | upgrade target => exact h
  | put _ => exact h.beside (fun _ ⟨_, hreq⟩ => absurd hreq nofun) fun _ _ _ => nofun
  | batch _ => exact h.beside (fun _ ⟨_, hreq⟩ => absurd hreq nofun) fun _ _ _ => nofun
  | serve hl hw =>
    cases TableFlow.step_cases hw with
    | arrive req =>
      have hadm := hadmits req rfl
      refine h.beside hadm.not_books fun rid v name hreq => ?_
      subst hreq
      rcases hadm with hget | ⟨-, hne⟩
      · exact absurd hget (by simp)
      · exact hne rfl
    | @act i t e st ht ha _ => exact h.act hK hs hfits ht (hlevel i t rfl ht) hback ha
    | @victim i rest t ht hc =>
      -- a request of the script is no victim, and another one leaves everything as it is
      have hopen : t.status = none := by
        obtain ⟨j, hj⟩ := waitCycle_head hc
        obtain ⟨-, t', ht', hw⟩ := waitsFor_iff.mp hj
        obtain rfl := Option.some.inj (ht.symm.trans ht')
        obtain ⟨req, st⟩ := t
        cases hw <;> rfl
      refine h.advance ht hopen hback (fun _ _ _ hold => .inl (hold.later (fun hp => hp) rfl))
        fun aw hmem => ?_
      obtain ⟨t', ht', hok⟩ := h.calls _ hmem
      obtain rfl := Option.some.inj (ht.symm.trans ht')
      rw [hs.no_victim ht (fun d hd ho => hok.mine hs ht hd ho) rest] at hc
      exact absurd hc (by decide)

end Site

/-! ## What the script makes of an answer -/

section Script

variable {K : Rig} {w : World} {c : Steady} {i rid slot : Nat} {n : Text} {aw : Await}

theorem Rig.Renaming.expect {name want : Text} {st : Stage} (h : K.Renaming w rid name want n st) :
    K.Renaming w rid name n n st := by
  cases st with
  | done a => exact h.imp (fun h => ⟨rfl, h.2⟩) fun h => h
  | selecting cs => exact ⟨rfl, h.2⟩
  | loaded row => exact ⟨rfl, h.2⟩
  | arrived => exact rfl
  | updating l ch => exact rfl
  | checking id todo => exact rfl
  | committing id => exact rfl
  | _ => exact h

/-- A name that the row holds may be expected. -/
theorem Await.Ok.expect {expected : List (Nat × Text)} {t : Task} (h : aw.Ok K w expected t)
    (hn : n ∈ names) (hold : K.Holds w rid slot n) : aw.Ok K w (put expected rid n) t := by
  have knows : ∀ {rid' : Nat} {P : Text → Text → Prop}, (∀ want, P want n → P n n) →
      K.Knows w expected rid' P → K.Knows w (put expected rid n) rid' P := by
    rintro rid' P hP ⟨slot', n', want, hn', hold', hwant, hp⟩
    by_cases hrid : rid' = rid
    · subst hrid
      obtain rfl := hold'.name_inj hold hn' hn
      exact ⟨slot', n', n', hn', hold', by rw [lookup_put, if_pos rfl], hP want hp⟩
    · exact ⟨slot', n', want, hn', hold', by rw [lookup_put, if_neg hrid, hwant], hp⟩
  cases aw with
  | create slot' name => exact h
  | rename rid' name k => exact ⟨h.1, knows (fun _ hc => Rig.Renaming.expect hc) h.2⟩
  | _ => exact ⟨h.1, knows (fun _ hc => hc) h.2⟩

theorem Tracks.code (h : Tracks K w c) {x : Method × Nat} (hx : Passing x) :
    Tracks K w { c with codes := x :: c.codes } :=
  { h with codes := List.forall_mem_cons.mpr ⟨hx, h.codes⟩ }

theorem Tracks.versions (h : Tracks K w c) (d : List (Nat × Nat)) :
    Tracks K w { c with version := d } := { h with }

/-- The script expects the name that the row holds. -/
theorem Tracks.expect (h : Tracks K w c) (hn : n ∈ names) (hold : K.Holds w rid slot n)
    (hslot : slot ≤ c.slot) (hcreate : ∀ x ∈ c.calls, ∀ name, x.2 ≠ .create slot name) :
    Tracks K w { c with expected := put c.expected rid n } where
  slots := h.slots
  patches := h.patches
  calls := fun x hx =>
    let ⟨t, ht, hok⟩ := h.calls x hx
    ⟨t, ht, hok.expect hn hold⟩
  once := h.once
  rids := h.rids
  busy := h.busy
  kept := by
    intro rid' want hwant
    rw [lookup_put] at hwant
    split at hwant
    · next hrid =>
      obtain rfl := Option.some.inj hwant
      subst hrid
      exact ⟨slot, n, hn, hold, hslot, hcreate, fun _ => rfl⟩
    · exact h.kept rid' want hwant
  codes := h.codes
  badFields := h.badFields

/-- The coroutines besides the one that goes on. -/
theorem mem_others {calls : List (Nat × Await)} {x : Nat × Await} :
    x ∈ calls.filter (fun y => y.1 ≠ i) ↔ x ∈ calls ∧ x.1 ≠ i := by
  rw [List.mem_filter, decide_eq_true_eq]

/-- **A coroutine has its response**; a rename only goes on if its row holds the name expected. -/
theorem Tracks.drop (h : Tracks K w c) (hmem : (i, aw) ∈ c.calls)
    (hdone : ∀ t, w.tasks[i]? = some t → t.status.isSome = true)
    (hname : ∀ rid name k, aw = .rename rid name k →
      K.Knows w c.expected rid fun want n => n = want) :
    Tracks K w { c with calls := c.calls.filter fun x => x.1 ≠ i } where
  slots := h.slots
  patches := by
    intro j t ht rid v name hreq
    rcases h.patches j t ht rid v name hreq with hst | ⟨k, hk⟩
    · exact .inl hst
    · by_cases hj : j = i
      · subst hj
        exact .inl (hdone t ht)
      · exact .inr ⟨k, mem_others.mpr ⟨hk, hj⟩⟩
  calls := fun x hx => h.calls x (mem_others.mp hx).1
  once := fun x hx y hy => h.once x (mem_others.mp hx).1 y (mem_others.mp hy).1
  rids := fun x hx y hy => h.rids x (mem_others.mp hx).1 y (mem_others.mp hy).1
  busy := fun x hx => h.busy x (mem_others.mp hx).1
  kept := by
    intro rid want hwant
    obtain ⟨slot, n, hn, hold, hslot, hcreate, heq⟩ := h.kept rid want hwant
    refine ⟨slot, n, hn, hold, hslot, fun x hx => hcreate x (mem_others.mp hx).1, fun hno => ?_⟩
    by_cases hren : ∃ name k, aw = .rename rid name k
    · obtain ⟨name, k, hren⟩ := hren
      obtain ⟨slot', n', want', hn', hold', hwant', rfl⟩ := hname rid name k hren
      obtain rfl := Option.some.inj (hwant.symm.trans hwant')
      exact hold.name_inj hold' hn hn'
    · refine heq fun x hx name k hx' => ?_
      by_cases hxi : x.1 = i
      · obtain rfl := h.once x hx _ hmem hxi
        exact hren ⟨name, k, hx'⟩
      · exact hno x (mem_others.mpr ⟨hx, hxi⟩) name k hx'
  codes := h.codes
  badFields := h.badFields

/-- Its booking has no other request. -/
theorem Tracks.alone (h : Tracks K w c) (hmem : (i, aw) ∈ c.calls) (hrid : aw.rid = some rid) :
    ∀ x ∈ c.calls.filter (fun y => y.1 ≠ i), x.2.rid ≠ some rid := by
  intro x hx hx'
  obtain ⟨hx, hne⟩ := mem_others.mp hx
  exact hne (congrArg Prod.fst (h.rids x hx _ hmem rid hx' hrid))

theorem Tracks.free (h : Tracks K w c) (hno : ∀ x ∈ c.calls, x.2.rid ≠ some rid) :
    Tracks K w (c.free rid) :=
  { h with
    busy := fun x hx rid' hrid' => List.mem_filter.mpr ⟨h.busy x hx rid' hrid', by
      rw [decide_eq_true_eq]
      rintro rfl
      exact hno x hx hrid'⟩ }

/-- Without a request on it a row holds the name expected. -/
theorem Tracks.knows (h : Tracks K w c) (hmem : rid ∈ c.expected.map Prod.fst)
    (hno : ∀ x ∈ c.calls, x.2.rid ≠ some rid) :
    K.Knows w c.expected rid fun want n => n = want := by
  obtain ⟨want, hwant⟩ := lookup_of_mem hmem
  obtain ⟨slot, n, hn, hold, -, -, heq⟩ := h.kept rid want hwant
  refine ⟨slot, n, want, hn, hold, hwant, heq fun x hx name k hx' => hno x hx ?_⟩
  rw [hx']
  rfl

end Script

/-! ## What the script sends -/

/-- The request is one of the script's and meets what its coroutine relies on. -/
structure Sendable (K : Rig) (w : World) (c : Steady) (req : Request) (aw : Await) : Prop where
  sends : K.Sends req
  ok : aw.Ok K w c.expected ⟨req, .arrived⟩
  alone : ∀ rid, aw.rid = some rid → rid ∈ c.busy ∧ ∀ x ∈ c.calls, x.2.rid ≠ some rid
  slot : ∀ slot, K.Books req slot → slot ≤ c.slot ∧ ∀ t ∈ w.tasks, ¬ K.Books t.request slot
  patch : ∀ rid v name, req = .onOne K.user rid (.patch (some (etag v)) (renameBody name)) →
    ∃ k, aw = .rename rid name k
  create : ∀ slot name, aw = .create slot name → ∀ rid want, c.expected.lookup rid = some want →
    ∀ slot' n, K.Holds w rid slot' n → slot' ≠ slot

/-- A coroutine goes on as it may. -/
def Goes (K : Rig) (w : World) (next : Next) : Prop :=
  Tracks K w next.1 ∧ ∀ req aw, next.2 = some (req, aw) → Sendable K w next.1 req aw

/-- A coroutine ends. -/
theorem Tracks.goes {K : Rig} {w : World} {c : Steady} (h : Tracks K w c) : Goes K w (c, none) :=
  ⟨h, fun _ _ hnone => absurd hnone nofun⟩

/-- **The invariant of the bench.** -/
structure Hosting (K : Rig) (env : Env) (init : List Reservation) (b : Bench) : Prop where
  serving : Serving K env init b.site
  tracks : Tracks K b.site.world b.script

section Sending

variable {K : Rig} {env : Env} {init : List Reservation} {w : World} {c : Steady}

/-- **The script waits for what it has sent.** -/
theorem Tracks.send (h : Tracks K w c) {req : Request} {aw : Await}
    (hs : Sendable K w c req aw) :
    Tracks K { w with tasks := w.tasks ++ [⟨req, .arrived⟩] }
      { c with calls := (w.tasks.length, aw) :: c.calls } where
  slots := by
    intro t ht slot hslot
    rcases List.mem_append.mp ht with ht | ht
    · exact h.slots t ht slot hslot
    · rw [List.mem_singleton.mp ht] at hslot
      exact (hs.slot slot hslot).1
  patches := by
    intro i t ht rid v name hreq
    rcases slot_of_concat ht with ht | ⟨rfl, rfl⟩
    · exact (h.patches i t ht rid v name hreq).imp_right fun ⟨k, hk⟩ =>
        ⟨k, List.mem_cons_of_mem _ hk⟩
    · obtain ⟨k, rfl⟩ := hs.patch rid v name hreq
      exact .inr ⟨k, List.mem_cons_self ..⟩
  calls := by
    intro x hx
    rcases List.mem_cons.mp hx with rfl | hx
    · exact ⟨_, List.getElem?_concat_length, hs.ok.beside _⟩
    · obtain ⟨t, ht, hok⟩ := h.calls x hx
      exact ⟨t, slot_append ht _, hok.beside _⟩
  once := by
    -- the new request has a new number
    have new : ∀ x ∈ c.calls, x.1 ≠ w.tasks.length := fun x hx hlen => by
      obtain ⟨t, ht, -⟩ := h.calls x hx
      have := (List.getElem?_eq_some_iff.mp ht).1
      omega
    intro x hx y hy heq
    rcases List.mem_cons.mp hx with rfl | hx
    · rcases List.mem_cons.mp hy with rfl | hy
      · rfl
      · exact absurd heq.symm (new y hy)
    · rcases List.mem_cons.mp hy with rfl | hy
      · exact absurd heq (new x hx)
      · exact h.once x hx y hy heq
  rids := by
    intro x hx y hy rid hxr hyr
    rcases List.mem_cons.mp hx with rfl | hx
    · rcases List.mem_cons.mp hy with rfl | hy
      · rfl
      · exact absurd hyr ((hs.alone rid hxr).2 y hy)
    · rcases List.mem_cons.mp hy with rfl | hy
      · exact absurd hxr ((hs.alone rid hyr).2 x hx)
      · exact h.rids x hx y hy rid hxr hyr
  busy := by
    intro x hx rid hrid
    rcases List.mem_cons.mp hx with rfl | hx
    · exact (hs.alone rid hrid).1
    · exact h.busy x hx rid hrid
  kept := by
    intro rid want hwant
    obtain ⟨slot, n, hn, hold, hslot, hcreate, heq⟩ := h.kept rid want hwant
    refine ⟨slot, n, hn, hold.later (fun hp => hp) rfl, hslot, fun x hx name hx' => ?_,
      fun hno => heq fun x hx => hno x (List.mem_cons_of_mem _ hx)⟩
    rcases List.mem_cons.mp hx with rfl | hx
    · exact hs.create slot name hx' rid want hwant slot n hold rfl
    · exact hcreate x hx name hx'
  codes := h.codes
  badFields := h.badFields

/-- **The bench after a coroutine has gone on.** -/
theorem Hosting.send {b : Bench} (hs : Serving K env init b.site) {next : Next}
    (h : Goes K b.site.world next) : Hosting K env init (b.send next) := by
  obtain ⟨c, r⟩ := next
  obtain ⟨htracks, hsend⟩ := h
  cases r with
  | none => exact ⟨hs, htracks⟩
  | some x =>
    obtain ⟨req, aw⟩ := x
    have hok := hsend req aw rfl
    exact ⟨hs.send hok.sends fun t ht slot hslot => (hok.slot slot hslot).2 t ht, htracks.send hok⟩

/-- A request for one reservation, as long as it is the only one. -/
theorem goes_onOne (h : Tracks K w c) {rid : Nat} {op : Op} {aw : Await} (hrid : aw.rid = some rid)
    (hbusy : rid ∈ c.busy) (hno : ∀ x ∈ c.calls, x.2.rid ≠ some rid)
    (hsends : K.Sends (.onOne K.user rid op))
    (hok : aw.Ok K w c.expected ⟨.onOne K.user rid op, .arrived⟩)
    (hpatch : ∀ v name, op = .patch (some (etag v)) (renameBody name) → ∃ k, aw = .rename rid name k) :
    Goes K w (c, some (.onOne K.user rid op, aw)) := by
  refine ⟨h, fun req aw' heq => ?_⟩
  obtain ⟨rfl, rfl⟩ := Prod.mk.inj (Option.some.inj heq)
  refine ⟨hsends, hok, fun rid' hrid' => ?_, fun slot ⟨_, hbook⟩ => absurd hbook nofun,
    fun rid' v name hreq => ?_, fun slot name hcreate => ?_⟩
  · obtain rfl := Option.some.inj (hrid.symm.trans hrid')
    exact ⟨hbusy, hno⟩
  · obtain ⟨-, rfl, hop⟩ := Request.onOne.inj hreq
    exact hpatch v name hop
  · rw [hcreate] at hrid
    exact absurd hrid nofun

/-- **An attempt of `rename`.** -/
theorem goes_attempt (h : Tracks K w c) {rid : Nat} (hbusy : rid ∈ c.busy)
    (hno : ∀ x ∈ c.calls, x.2.rid ≠ some rid)
    (hknows : K.Knows w c.expected rid fun want n => n = want) (name : Name) (k : Nat) :
    Goes K w (c.attempt K rid name k) := by
  unfold Steady.attempt
  cases c.version.lookup rid with
  | none => exact (h.free hno).goes
  | some v =>
    refine goes_onOne h rfl hbusy hno (.patch rid v name) ⟨⟨v, rfl⟩, hknows⟩ fun v' name' hop => ?_
    obtain ⟨-, hbody⟩ := Op.patch.inj hop
    have hname : name.1 = name'.1 := Option.some.inj (congrArg ReservationUpdate.guestName hbody)
    obtain rfl := Subtype.ext hname
    exact ⟨k, rfl⟩

/-- **A GET of one reservation**, for `read` or before the next attempt. -/
theorem goes_read (h : Tracks K w c) {rid : Nat} {aw : Await}
    (haw : aw = .read rid ∨ ∃ name k, aw = .reread rid name k) (hbusy : rid ∈ c.busy)
    (hno : ∀ x ∈ c.calls, x.2.rid ≠ some rid)
    (hknows : K.Knows w c.expected rid fun want n => n = want) :
    Goes K w (c, some (.onOne K.user rid .get, aw)) := by
  have hreads : K.Knows w c.expected rid fun _ n => K.Reading w rid n .arrived :=
    hknows.imp (fun _ _ hold => hold) fun _ _ _ => trivial
  rcases haw with rfl | ⟨name, k, rfl⟩
  · exact goes_onOne h rfl hbusy hno (.get rid) ⟨rfl, hreads⟩ nofun
  · exact goes_onOne h rfl hbusy hno (.get rid) ⟨rfl, hreads⟩ nofun

/-- **`create`** takes the next slot. -/
theorem goes_create (h : Tracks K w c) (name : Name) : Goes K w (c.create K name) := by
  have hnext : Tracks K w { c with slot := c.slot + 1 } :=
    { h with
      slots := fun t ht slot hslot => Nat.le_succ_of_le (h.slots t ht slot hslot)
      kept := fun rid want hwant =>
        let ⟨slot, n, hn, hold, hslot, hrest⟩ := h.kept rid want hwant
        ⟨slot, n, hn, hold, Nat.le_succ_of_le hslot, hrest⟩ }
  unfold Steady.create
  dsimp only
  split
  · next hfits =>
    have hdated : K.Dated (c.slot + 1) := Bool.and_eq_true_iff.mp hfits
    refine ⟨hnext, fun req aw heq => ?_⟩
    obtain ⟨rfl, rfl⟩ := Prod.mk.inj (Option.some.inj heq)
    refine ⟨.post _ name, ⟨rfl, hdated, trivial⟩, fun rid hrid => absurd hrid nofun,
      fun slot hslot => ?_, fun _ _ _ => nofun, fun slot name' hcreate => ?_⟩
    · obtain rfl := hslot.unique ⟨name, rfl⟩
      refine ⟨Nat.le_refl _, fun t ht hbook => ?_⟩
      have := h.slots t ht _ hbook
      omega
    · obtain ⟨rfl, -⟩ := Await.create.inj hcreate
      intro rid want hwant slot' n hold
      obtain ⟨slot, n', -, hold', hslot, -⟩ := h.kept rid want hwant
      obtain rfl := hold.slot_inj hold'
      omega
  · exact hnext.goes

/-- What `read` does with its response. -/
theorem Tracks.reads (h : Tracks K w c) {i rid : Nat} {aw : Await} (hmem : (i, aw) ∈ c.calls)
    (hdone : ∀ t, w.tasks[i]? = some t → t.status.isSome = true)
    (haw : aw = .read rid ∨ ∃ name k, aw = .reread rid name k) {a : Answer}
    (hreads : K.Knows w c.expected rid fun _ n => Says a 200 rid n) :
    ∃ d, (({ c with calls := c.calls.filter fun x => x.1 ≠ i } : Steady).record .get
        (some a)).readBack rid (some a)
      = { c with
          calls := c.calls.filter fun x => x.1 ≠ i
          codes := (.get, 200) :: c.codes
          version := d } ∧
      Tracks K w { c with
          calls := c.calls.filter fun x => x.1 ≠ i
          codes := (.get, 200) :: c.codes
          version := d } := by
  have hrid : aw.rid = some rid := by
    rcases haw with rfl | ⟨name, k, rfl⟩ <;> rfl
  have hnot : ∀ rid' name k, aw ≠ .rename rid' name k := by
    rcases haw with rfl | ⟨name, k, rfl⟩ <;> exact nofun
  obtain ⟨slot, n, want, hn, hold, hwant, tag, out, rfl, -, hout⟩ := hreads
  -- the row holds the name expected, as no rename of it is under way
  have hname : out.guestName = want := by
    obtain ⟨slot', n', hn', hold', -, -, heq⟩ := h.kept rid want hwant
    refine hout.trans ((hold.name_inj hold' hn hn').trans (heq fun x hx name k hx' => ?_))
    have hxrid : x.2.rid = some rid := by
      rw [hx']
      rfl
    obtain rfl := h.rids x hx _ hmem rid hxrid hrid
    exact hnot rid name k hx'
  refine ⟨put c.version rid out.version, ?_, ((h.drop hmem hdone fun rid' name k heq =>
    absurd heq (hnot rid' name k)).code (.inr (.inl rfl))).versions _⟩
  exact Steady.readBack_eq _ hwant hname

section Answered

variable {i : Nat} {t : Task}

/-- The end of `create`. -/
theorem goes_created (hplaced : K.Placed w) (h : Tracks K w c) {slot id : Nat} {name : Name}
    (hmem : (i, Await.create slot name) ∈ c.calls) (ht : w.tasks[i]? = some t)
    (hdone : ∀ t, w.tasks[i]? = some t → t.status.isSome = true)
    (hreq : t.request = .post K.user (K.payload slot name)) (hold : K.Holds w id slot name.1)
    {a : Answer} (ha : Says a 201 id name.1) :
    Goes K w (({ c with calls := c.calls.filter fun x => x.1 ≠ i } : Steady).resume K
      (some a) (.create slot name)) := by
  obtain ⟨tag, out, rfl, rfl, hname⟩ := ha
  have hslot := h.slots t (List.mem_of_getElem? ht) slot ⟨name, hreq⟩
  -- no other booking of the script is for this slot
  have hcreate : ∀ x ∈ c.calls.filter (fun y => y.1 ≠ i), ∀ name', x.2 ≠ .create slot name' := by
    intro x hx name' hx'
    obtain ⟨hx, hne⟩ := mem_others.mp hx
    obtain ⟨t₂, ht₂, hok₂⟩ := h.calls x hx
    rw [hx'] at hok₂
    exact hne (hplaced.slots x.1 i t₂ t ht₂ ht slot ⟨name', hok₂.1⟩ ⟨name, hreq⟩)
  have hpost : Passing (.post, 201) := .inl rfl
  have htracks := (((h.drop hmem hdone fun _ _ _ => nofun).code hpost).expect name.2 hold hslot
    hcreate).versions (put c.version out.id out.version)
  show Goes K w (Steady.note _ out name.1, none)
  unfold Steady.note
  rw [Steady.checkName_eq _ hname]
  exact htracks.goes

/-- A PATCH that comes too late is read again: the row holds the name expected still. -/
theorem goes_conflict (h : Tracks K w c) {rid slot k : Nat} {name : Name} {want : Text}
    (hmem : (i, Await.rename rid name k) ∈ c.calls)
    (hdone : ∀ t, w.tasks[i]? = some t → t.status.isSome = true) (hn : want ∈ names)
    (hold : K.Holds w rid slot want) (hwant : c.expected.lookup rid = some want) {a : Answer}
    (ha : a.status = 409 ∨ a.status = 412) :
    Goes K w (({ c with calls := c.calls.filter fun x => x.1 ≠ i } : Steady).resume K
      (some a) (.rename rid name k)) := by
  have hconflict : Steady.conflict (some a) = true := by
    unfold Steady.conflict
    rcases ha with h409 | h412
    · simp [h409]
    · simp [h412]
  have hpass : Passing (.patch, a.status) := by
    rcases ha with h409 | h412
    · exact .inr (.inr (.inr (.inl (by rw [h409]))))
    · exact .inr (.inr (.inr (.inr (by rw [h412]))))
  have hknows : K.Knows w c.expected rid fun want n => n = want :=
    ⟨slot, want, want, hn, hold, hwant, rfl⟩
  have htracks := (h.drop hmem hdone fun rid' name' k' heq => by
    obtain ⟨rfl, -, -⟩ := Await.rename.inj heq
    exact hknows).code hpass
  show Goes K w (if Steady.conflict (some a) then _ else _)
  rw [if_pos hconflict]
  exact goes_read htracks (.inr ⟨name, k, rfl⟩) (h.busy _ hmem rid rfl) (h.alone hmem rfl) hknows

/-- The end of `rename`: the row holds the new name. -/
theorem goes_renamed (h : Tracks K w c) {rid slot k : Nat} {name : Name} {want : Text}
    (hmem : (i, Await.rename rid name k) ∈ c.calls)
    (hdone : ∀ t, w.tasks[i]? = some t → t.status.isSome = true)
    (hold : K.Holds w rid slot name.1) (hwant : c.expected.lookup rid = some want) {a : Answer}
    (ha : Says a 200 rid name.1) :
    Goes K w (({ c with calls := c.calls.filter fun x => x.1 ≠ i } : Steady).resume K
      (some a) (.rename rid name k)) := by
  show Goes K w (if Steady.conflict (some a) then _ else _)
  obtain ⟨tag, out, rfl, -, hname⟩ := ha
  obtain ⟨slot', n', -, hold', hslot, hcreate, -⟩ := h.kept rid want hwant
  obtain rfl := hold.slot_inj hold'
  have hpatch : Passing (.patch, 200) := .inr (.inr (.inl rfl))
  have hexpect := h.expect name.2 hold hslot hcreate
  have htracks := ((hexpect.drop hmem hdone fun rid' name' k' heq => by
    obtain ⟨rfl, -, -⟩ := Await.rename.inj heq
    exact ⟨slot, name.1, name.1, name.2, hold, by rw [lookup_put, if_pos rfl], rfl⟩).code
      hpatch).versions (put c.version rid out.version)
  have hconflict : ¬ Steady.conflict (some (.out 200 tag out)) = true := Bool.false_ne_true
  rw [if_neg hconflict]
  show Goes K w (Steady.free { Steady.checkName _ out name.1 with
    expected := put _ rid name.1, version := put _ rid out.version } rid, none)
  rw [Steady.checkName_eq _ hname]
  exact (htracks.free (h.alone hmem rfl)).goes

end Answered

/-- **A response is there**: the coroutine goes on, and nothing is wrong. -/
theorem goes_resume (hplaced : K.Placed w) (h : Tracks K w c) {i : Nat} {aw : Await}
    (hmem : (i, aw) ∈ c.calls) {t : Task} (ht : w.tasks[i]? = some t) {a : Answer}
    (hst : t.stage = .done a) :
    Goes K w (({ c with calls := c.calls.filter fun x => x.1 ≠ i } : Steady).resume K
      (some a) aw) := by
  have hdone : ∀ t, w.tasks[i]? = some t → t.status.isSome = true := by
    intro t' ht'
    obtain rfl := Option.some.inj (ht.symm.trans ht')
    unfold Task.status
    rw [hst]
    rfl
  obtain ⟨t', ht', hok⟩ := h.calls _ hmem
  obtain rfl := Option.some.inj (ht.symm.trans ht')
  cases aw with
  | create slot name =>
    obtain ⟨hreq, -, hc⟩ := hok
    rw [hst] at hc
    obtain ⟨id, hold, ha⟩ := hc
    exact goes_created hplaced h hmem ht hdone hreq hold ha
  | read rid =>
    obtain ⟨-, hreads⟩ := hok
    rw [hst] at hreads
    obtain ⟨d, heq, htracks⟩ := h.reads hmem hdone (.inl rfl) hreads
    show Goes K w (Steady.free _ rid, none)
    rw [heq]
    exact (htracks.free (h.alone hmem rfl)).goes
  | reread rid name k =>
    obtain ⟨-, hreads⟩ := hok
    rw [hst] at hreads
    obtain ⟨d, heq, htracks⟩ := h.reads hmem hdone (.inr ⟨name, k, rfl⟩) hreads
    have hno := h.alone hmem rfl
    show Goes K w (if k + 1 < 3 then _ else _)
    rw [heq]
    split
    · obtain ⟨-, -, want, -, -, hwant, -⟩ := hreads
      have hkey : rid ∈ c.expected.map Prod.fst := List.mem_map_of_mem (mem_of_lookup hwant)
      exact goes_attempt htracks (h.busy _ hmem rid rfl) hno (htracks.knows hkey hno) name (k + 1)
    · exact (htracks.free hno).goes
  | rename rid name k =>
    obtain ⟨-, slot, n, want, hn, hold, hwant, hc⟩ := hok
    rw [hst] at hc
    rcases hc with ⟨rfl, hstatus⟩ | ⟨rfl, ha⟩
    · exact goes_conflict h hmem hdone hn hold hwant hstatus
    · exact goes_renamed h hmem hdone hold hwant ha

end Sending

/-! ## The bench, move by move -/

section Bench

variable {K : Rig} {env : Env} {init : List Reservation} {b b' : Bench}

theorem Bench.send_errors (b : Bench) (next : Next) :
    (b.send next).script.errors = next.1.errors := by
  obtain ⟨c, r⟩ := next
  cases r <;> rfl

theorem idle_free {c : Steady} {rid : Nat} (h : rid ∈ c.idle) :
    rid ∈ c.expected.map Prod.fst ∧ rid ∉ c.busy := by
  have hmem := List.mem_filter.mp (List.mem_of_mem_drop h)
  exact ⟨hmem.1, of_decide_eq_true hmem.2⟩

/-- `one` takes a booking that no other coroutine works with. -/
theorem Tracks.takes {w : World} {c : Steady} (h : Tracks K w c) {rid : Nat} (hidle : rid ∈ c.idle) :
    Tracks K w { c with busy := rid :: c.busy } ∧ (∀ x ∈ c.calls, x.2.rid ≠ some rid) ∧
      K.Knows w c.expected rid fun want n => n = want := by
  obtain ⟨hmem, hfree⟩ := idle_free hidle
  have hno : ∀ x ∈ c.calls, x.2.rid ≠ some rid := fun x hx hrid => hfree (h.busy x hx rid hrid)
  exact ⟨{ h with busy := fun x hx rid' hrid => List.mem_cons_of_mem _ (h.busy x hx rid' hrid) },
    hno, h.knows hmem hno⟩

/-- **One move of the bench.** -/
theorem Hosting.step (hK : K.Fits env init) (h : Hosting K env init b) {m : Move}
    (hfair : Fair K b m) (hst : (bench K env).step b m = some b') (herr : b'.script.errors = 0) :
    Hosting K env init b' := by
  cases move_cases hst with
  | create name => exact .send h.serving (goes_create h.tracks name)
  | read hidle =>
    obtain ⟨htracks, hno, hknows⟩ := h.tracks.takes hidle
    exact .send h.serving (goes_read htracks (.inl rfl) (List.mem_cons_self ..) hno hknows)
  | rename name hidle =>
    obtain ⟨htracks, hno, hknows⟩ := h.tracks.takes hidle
    exact .send h.serving (goes_attempt htracks (List.mem_cons_self ..) hno hknows name 0)
  | resume ht hdone hmem =>
    exact .send h.serving (goes_resume h.serving.placed h.tracks hmem ht hdone)
  | lose _ =>
    rw [Bench.send_errors, Steady.resume_errors, Option.isNone_none, if_pos rfl] at herr
    omega
  | site hs =>
    obtain ⟨htime, hfits, hadmits, hlevel⟩ := hfair
    exact ⟨h.serving.step htime hadmits hs,
      h.tracks.step hK h.serving hfits hadmits hlevel hs⟩

/-- No error is taken back. -/
theorem errors_step {m : Move} (hst : (bench K env).step b m = some b') :
    b.script.errors ≤ b'.script.errors := by
  cases move_cases hst with
  | create name =>
    rw [Bench.send_errors]
    unfold Steady.create
    dsimp only
    split <;> exact Nat.le_refl _
  | read _ => exact Nat.le_refl _
  | rename name _ =>
    rw [Bench.send_errors, Steady.attempt_errors]
  | resume _ _ _ =>
    rw [Bench.send_errors, Steady.resume_errors]
    exact Nat.le_add_right _ _
  | lose _ =>
    rw [Bench.send_errors, Steady.resume_errors]
    exact Nat.le_add_right _ _
  | site _ => exact Nat.le_refl _

/-- Before the first move. -/
theorem hosting_start {rows : List Reservation} {nextId clock : Nat}
    (hready : Ready (env.at .r0001) .legacy rows nextId clock)
    (hold : ∀ r ∈ rows, r.firstName = none) (hK : K.Fits env rows) :
    Hosting K env rows (.start rows nextId clock) := by
  have noTask : ∀ {t : Task}, t ∈ (World.start .legacy rows nextId clock).tasks → False :=
    fun ht => List.not_mem_nil ht
  have noSlot : ∀ {i : Nat} {t : Task},
      (World.start .legacy rows nextId clock).tasks[i]? = some t → False :=
    fun ht => noTask (List.mem_of_getElem? ht)
  -- nothing is booked from the first day on
  have noRow : ∀ {x : Reservation}, Present (.start .legacy rows nextId clock) x →
      K.InReach x.restaurantTableId x.endsAt → False := by
    rintro x (hx | ⟨d, hd, -⟩) ⟨htab, hlt⟩
    · have := hK.before x hx htab
      omega
    · exact List.not_mem_nil hd
  refine ⟨⟨Rollout.rolloutInv_start hready hold, guarded_start, fun t ht => (noTask ht).elim,
    fun hp => absurd hp (show ¬ true = false by decide), fun _ => ⟨.start, fun t ht => (noTask ht).elim,
      fun t ht => (noTask ht).elim⟩, ⟨fun i j t t' ht => (noSlot ht).elim,
      fun t ht => (noTask ht).elim⟩, ⟨fun i j t t' ht => (noSlot ht).elim,
      fun t ht => (noTask ht).elim, fun x hx hr => (noRow hx hr).elim,
      fun x y hx hy hr => (noRow hx hr).elim⟩, fun t ht => (noTask ht).elim⟩, ?_⟩
  exact ⟨fun t ht => (noTask ht).elim, fun i t ht => (noSlot ht).elim,
    fun x hx => absurd hx List.not_mem_nil, fun x hx => absurd hx List.not_mem_nil,
    fun x hx => absurd hx List.not_mem_nil, fun x hx => absurd hx List.not_mem_nil,
    fun rid want hwant => absurd hwant nofun, fun x hx => absurd hx List.not_mem_nil, rfl⟩

/-- What the report asks of the codes. -/
theorem Passing.fine {x : Method × Nat} (h : Passing x) :
    Steady.begins '5' x.2 = false ∧
      Steady.begins '4' x.2 = (x.1 == .patch && (x.2 == 409 || x.2 == 412)) := by
  rcases h with rfl | rfl | rfl | rfl | rfl <;> decide

theorem Tracks.passes {w : World} {c : Steady} (h : Tracks K w c) (herr : c.errors = 0) :
    c.passes = true := by
  have hserver : c.serverErrors = 0 := by
    refine List.countP_eq_zero.mpr fun x hx => ?_
    rw [(h.codes x hx).fine.1]
    exact Bool.false_ne_true
  have hrejected : c.rejected = 0 := by
    have hcount : c.codes.countP (fun x => Steady.begins '4' x.2) = c.conflicts :=
      List.countP_congr fun x hx => by rw [(h.codes x hx).fine.2]
    unfold Steady.rejected
    rw [hcount]
    omega
  unfold Steady.passes
  rw [hserver, hrejected, herr, h.badFields]
  rfl

/-- **No false alarm**: as long as every request of the steady traffic is answered, the checks of its
    report on statuses and names pass, and a booking without a request in flight holds the name
    expected. -/
theorem no_false_alarm {rows : List Reservation} {nextId clock : Nat}
    (hready : Ready (env.at .r0001) .legacy rows nextId clock)
    (hold : ∀ r ∈ rows, r.firstName = none) (hK : K.Fits env rows)
    (hr : (bench K env).Reach (Fair K) (.start rows nextId clock) b) (herr : b.script.errors = 0) :
    b.script.passes = true ∧
      ∀ rid want, b.script.expected.lookup rid = some want → rid ∉ b.script.busy →
        ∃ r ∈ b.site.world.store.rows, r.id = rid ∧ Rollout.HoldsName want r := by
  have h : b.script.errors = 0 → Hosting K env rows b :=
    hr.invariant (I := fun b => b.script.errors = 0 → Hosting K env rows b)
      (fun _ => hosting_start hready hold hK) fun b m b' ih hfair hst herr =>
        (ih (by have := errors_step hst; omega)).step hK hfair hst herr
  have htracks := (h herr).tracks
  refine ⟨htracks.passes herr, fun rid want hwant hfree => ?_⟩
  have hkey : rid ∈ b.script.expected.map Prod.fst := List.mem_map_of_mem (mem_of_lookup hwant)
  obtain ⟨slot, n, want', -, ⟨r, hrow, -, hname, -⟩, hwant', rfl⟩ :=
    htracks.knows hkey fun x hx hrid => hfree (htracks.busy x hx rid hrid)
  obtain rfl := Option.some.inj (hwant.symm.trans hwant')
  exact ⟨r, (Store.lookup_some hrow).1, (Store.lookup_some hrow).2, hname⟩

end Bench

/-! ## One run through the whole migration -/

/-- The condition as a run checks it, when nobody else sends a request. -/
def calm (b : Bench) : Move → Bool
  | .site (.serve (.arrive _)) => false
  | .site (.serve (.step i)) =>
    fitsBigint b.site.world.nextId &&
      match b.site.world.tasks[i]? with
      | none => true
      | some ⟨.put target, .accepted⟩ =>
        target.readsGuestName || b.site.world.store.rows.all fun r => r.firstName.isSome
      | some ⟨.post _ _, .committing _⟩ => b.site.world.phase.readsGuestName
      | some ⟨_, .reloaded (some l)⟩ => l.columns == readColumns b.site.world.phase
      | some ⟨_, .loaded (some l)⟩ => l.columns == readColumns b.site.world.phase
      | some _ => true
  | .site _ => fitsBigint b.site.world.nextId
  | _ => true

theorem fair_of_calm (K : Rig) {b : Bench} {m : Move} (h : calm b m = true) : Fair K b m := by
  cases m with
  | site ev =>
    cases ev with
    | run a => exact ⟨trivial, h, fun _ => nofun, fun _ _ => nofun⟩
    | serve l =>
      cases l with
      | arrive req => exact absurd h Bool.false_ne_true
      | victim cycle => exact ⟨trivial, h, fun _ => nofun, fun _ _ => nofun⟩
      | step i =>
        obtain ⟨hfits, h⟩ := Bool.and_eq_true_iff.mp h
        refine ⟨fun t ht => ⟨fun target hreq hst hp r hr => ?_, fun user body id hreq hst hp => ?_⟩,
          hfits, fun _ => nofun, fun j t hj ht _ l hl => ?_⟩
        · obtain ⟨req, st⟩ := t
          obtain rfl : req = .put target := hreq
          obtain rfl : st = .accepted := hst
          rw [ht] at h
          have hall := (Bool.or_eq_true_iff.mp h).resolve_left (by rw [hp]; decide)
          exact Option.isSome_iff_ne_none.mp (List.all_eq_true.mp hall r hr)
        · obtain ⟨req, st⟩ := t
          obtain rfl : req = .post user body := hreq
          obtain rfl : st = .committing id := hst
          rw [ht] at h
          exact absurd (hp.symm.trans h) Bool.false_ne_true
        · obtain rfl := Label.step.inj (Rollout.Event.serve.inj hj)
          obtain ⟨req, st⟩ := t
          rw [ht] at h
          rcases hl with hl | ⟨hl, -⟩
          · obtain rfl : st = .reloaded (some l) := hl
            cases req <;> exact eq_of_beq h
          · obtain rfl : st = .loaded (some l) := hl
            cases req <;> exact eq_of_beq h
  | _ => trivial

theorem prince_known : "Prince".toList ∈ names := by decide

theorem ada_known : "Ada Lovelace".toList ∈ names := by decide

/-- A name without a last name. -/
def prince : Name := ⟨"Prince".toList, prince_known⟩

/-- A name with one. -/
def ada : Name := ⟨"Ada Lovelace".toList, ada_known⟩

/-- The script at the one table of the small restaurant. -/
def evenings : Rig := ⟨customer, ⟨7, 1, 4, true⟩, 0⟩

theorem evenings_fits : evenings.Fits sample [] where
  known := rfl
  sendable := by decide
  active := rfl
  seats := by decide
  before := fun _ hr => absurd hr List.not_mem_nil

/-- A request goes on this many times. -/
def onward (i k : Nat) : List Move := List.replicate k (.site (.serve (.step i)))

/-- A booking before the migration is read in `dual_write`, filled by the backfill and renamed in
    `read_new`; the version the script has seen is stale by then. -/
def wholeMigration : List Move :=
  .create prince :: onward 0 8 ++
    [.resume 0, .site (.run (.upgrade .r0002)), .site (.run (.put .dualWrite))] ++ onward 1 4 ++
    .read 1 :: onward 2 3 ++ [.resume 2, .site (.run (.batch 0 500))] ++ onward 3 4 ++
    .site (.run (.put .readNew)) :: onward 4 4 ++ .rename 1 ada :: onward 5 3 ++
    .resume 5 :: onward 6 3 ++ .resume 6 :: onward 7 9 ++
    [.resume 7, .site (.run (.upgrade .r0003)), .site (.run (.put .newOnly))] ++ onward 8 4

/-- The bench after these moves. -/
def benchAfter (ms : List Move) : Bench :=
  ((bench evenings sample).run (.start [] 1 1) ms).getD (.start [] 1 1)

theorem reach_wholeMigration : (bench evenings sample).Reach (Fair evenings) (.start [] 1 1)
    (benchAfter wholeMigration) := by
  have hcalm : (bench evenings sample).AllSteps (fun b m => calm b m = true) (.start [] 1 1)
      wholeMigration := by decide +kernel
  obtain ⟨b, hb⟩ : ∃ b, (bench evenings sample).run (.start [] 1 1) wholeMigration = some b :=
    Option.isSome_iff_exists.mp (by decide +kernel)
  have hafter : benchAfter wholeMigration = b := by
    unfold benchAfter
    rw [hb]
    rfl
  rw [hafter]
  exact (hcalm.mono fun _ _ => fair_of_calm evenings).reach hb

/-- **The report of that run passes**, and the new name is there. -/
theorem migration_unnoticed : (benchAfter wholeMigration).script.passes = true ∧
    ∃ r ∈ (benchAfter wholeMigration).site.world.store.rows, r.id = 1 ∧
      Rollout.HoldsName "Ada Lovelace".toList r := by
  have h := no_false_alarm Rollout.empty_ready (fun _ hr => absurd hr List.not_mem_nil)
    evenings_fits reach_wholeMigration (by decide +kernel)
  exact ⟨h.1, h.2 1 _ (by decide +kernel) (by decide +kernel)⟩

end TableFlow.Traffic
