/-
  Editing: no update is lost.

  1. **Every committed change is the one its client asked for** (`named_version`): a PATCH whose
     If-Match holds no star is applied to a row whose version its If-Match names, and what it
     leaves is its changes applied to that row (`Made`).

  2. **The changes of one row form a chain** (`Store.Tracked`): each starts from the row its
     predecessor left, versions only grow, so no two start from the same one.

  3. **Counting** (`Looping`): when every PATCH of a row asks for one guest more than an answer its
     client has seen, under that answer's ETag, the party grows by one with each PATCH that is
     answered 200.  The version named in the ETag IS the row that was seen
     (`Store.Tracked.version_inj`), so "one more than seen" is "one more than before"; and a PATCH
     that has committed is answered 200, as the row it reads back has the columns it needs.
-/
import TableFlow.Waiting

namespace TableFlow

open Lib

/-! ## The version an edit starts from -/

/-- A PATCH, as a request on one reservation. -/
def Request.isPatch : Request → Bool
  | .onOne _ _ (.patch _ _) => true
  | _ => false

/-- **A change made by a PATCH starts from a version its If-Match names.** -/
theorem named_version {env : Env} {user : User} {id : Nat} {ifMatch : Option Text}
    {body : ReservationUpdate} {before : Option Reservation} {after : Reservation}
    (h : Made env (.onOne user id (.patch ifMatch body)) before after) :
    ∃ b header, before = some b ∧ b.id = id ∧ ifMatch = some header ∧
      (['*'] ∈ ifMatchSeen header ∨ digits b.version ∈ ifMatchSeen header) := by
  obtain ⟨b, p, ed, cs, v, hb, hid, -, hop, hm, -⟩ := h
  obtain rfl := Option.some.inj hop
  rcases checkIfMatch_eq_none.mp hm with ⟨-, hreq⟩ | ⟨header, hh, hseen⟩
  · exact absurd hreq (by simp)
  · exact ⟨b, header, hb, hid, hh, hseen⟩

/-- A change of party size made by a PATCH is the one its body asks for. -/
theorem made_partySize {env : Env} {user : User} {id : Nat} {ifMatch : Option Text}
    {body : ReservationUpdate} {b after : Reservation}
    (h : Made env (.onOne user id (.patch ifMatch body)) (some b) after) :
    after.partySize = body.partySize.getD b.partySize := by
  obtain ⟨b', p, ed, cs, v, hb, -, -, hop, -, -, rfl⟩ := h
  obtain rfl := Option.some.inj hb
  obtain rfl := Option.some.inj hop
  exact net_apply_partySize (patched p body) ⟨b, cs⟩ v

/-- The other requests leave the party size of an existing row. -/
theorem made_partySize_other {env : Env} {req : Request} (hreq : req.isPatch = false)
    {b after : Reservation} (h : Made env req (some b) after) : after.partySize = b.partySize := by
  cases req with
  | post user body => exact absurd h.1 (by simp)
  | onOne user id op =>
    obtain ⟨b', p, ed, cs, v, hb, -, -, hop, -, -, rfl⟩ := h
    obtain rfl := Option.some.inj hb
    cases op with
    | get => exact absurd hop (by simp [Op.edit])
    | patch ifMatch body => exact absurd hreq (by simp [Request.isPatch])
    | delete ifMatch =>
      obtain rfl := Option.some.inj hop
      exact net_apply_partySize cancelled ⟨b, cs⟩ v
  | batch lastId size =>
    obtain ⟨b', v, hb, -, rfl⟩ := h
    obtain rfl := Option.some.inj hb
    rfl
  | list user limit => exact absurd h (fun x => x)
  | put target => exact absurd h (fun x => x)

/-- No change empties the name of a row. -/
theorem made_guestName {env : Env} {req : Request} {b after : Reservation}
    (h : Made env req (some b) after) (hb : b.guestName ≠ none) : after.guestName ≠ none := by
  cases req with
  | post user body => exact absurd h.1 (by simp)
  | onOne user id op =>
    obtain ⟨b', p, ed, cs, v, hb', -, -, -, -, -, rfl⟩ := h
    obtain rfl := Option.some.inj hb'
    have := apply_get (ed.changes.net ⟨b, cs⟩) b v .guestName
    show ((ed.changes.net ⟨b, cs⟩).apply b v).get .guestName ≠ none
    rw [this]
    exact get_assignNames_ne_none (Or.inl hb)
  | batch lastId size =>
    obtain ⟨b', v, hb', -, rfl⟩ := h
    obtain rfl := Option.some.inj hb'
    exact hb
  | list user limit => exact absurd h (fun x => x)
  | put target => exact absurd h (fun x => x)

/-! ## Clients that count -/

/-- The answer was built from a version of its row, in phase `p`. -/
def Observed (init : List Reservation) (p : Phase) (w : World) (tag : Text)
    (out : ReservationOut) : Prop :=
  ∃ l : Loaded, l.row ∈ Store.versionsOf reservations init w.store l.row.id ∧
    toOut p l = .ok out ∧ tag = etag l.row.version ∧ loads l.row = true

/-- A PATCH of the row `k`. -/
def patches (k : Nat) : Request → Bool
  | .onOne _ id (.patch _ _) => id == k
  | _ => false

/-- What may arrive: no phase change, and no PATCH of the row `k` but those that ask for one guest
    more than an answer seen before, under that answer's ETag. -/
def Counting (k : Nat) (w : World) (l : Label) : Prop :=
  ∀ req, l = .arrive req →
    (∀ target, req ≠ .put target) ∧
    ∀ user ifMatch body, req = .onOne user k (.patch ifMatch body) →
      ∃ t ∈ w.tasks, ∃ status tag out, t.stage = .done (.out status tag out) ∧ out.id = k ∧
        ifMatch = some tag ∧ body.partySize = some (out.partySize + 1)

/-- An edit at this stage has committed. -/
def Stage.hasCommitted : Stage → Bool
  | .saved _ | .reloading _ _ | .reloaded _ => true
  | .done a => a.status == 200
  | _ => false

/-- A PATCH of `k` that has committed. -/
def committed (k : Nat) (t : Task) : Bool := patches k t.request && t.stage.hasCommitted

/-- The columns a stage has loaded are those of phase `p`. -/
def LoadedIn (p : Phase) : Stage → Prop
  | .selecting cs => cs = readColumns p
  | .loaded row => ∀ l, row = some l → l.columns = readColumns p
  | .updating l _ => l.columns = readColumns p
  | .reloading _ cs => cs = readColumns p
  | .reloaded row => ∀ l, row = some l → l.columns = readColumns p
  | _ => True

/-- The driver has loaded the row that the stage has. -/
def LoadsIn : Stage → Prop
  | .loaded row | .reloaded row => ∀ l, row = some l → loads l.row = true
  | _ => True

/-- What the client of a PATCH of `k` has seen: a version of the row, readable in phase `p`. -/
def SeenBy (init : List Reservation) (k : Nat) (p : Phase) (w : World) (req : Request) : Prop :=
  ∀ user ifMatch body, req = .onOne user k (.patch ifMatch body) →
    ∃ r ∈ Store.versionsOf reservations init w.store k, ifMatch = some (etag r.version) ∧
      body.partySize = some (r.partySize + 1) ∧ (p.readsGuestName = true → r.guestName ≠ none) ∧
      loads r = true

/-- The request behind a committed change of `k` is a PATCH. -/
def byPatch (k : Nat) (w : World) (e : Lib.Entry Reservation) : Bool :=
  (w.tasks[e.owner]?).any fun t => patches k t.request

/-- The state of the clients that count, in phase `p`. -/
structure Looping (init : List Reservation) (k : Nat) (p : Phase) (w : World) : Prop where
  unswitched : w.phase = p
  noPut : ∀ t ∈ w.tasks, ∀ target, t.request ≠ .put target
  columns : ∀ t ∈ w.tasks, LoadedIn p t.stage
  loaded : ∀ t ∈ w.tasks, LoadsIn t.stage
  answers : ∀ t ∈ w.tasks, ∀ status tag out, t.stage = .done (.out status tag out) →
    Observed init p w tag out
  clients : ∀ t ∈ w.tasks, SeenBy init k p w t.request
  /-- What a PATCH of `k` has read back has a name to read. -/
  named : ∀ t ∈ w.tasks, patches k t.request = true → ∀ l, t.stage = .reloaded (some l) →
    p.readsGuestName = true → l.row.guestName ≠ none
  counted : (Store.changesOf reservations k w.store.history).countP (byPatch k w)
    = w.tasks.countP (committed k)

section Loop

variable {env : Env} {init : List Reservation} {k : Nat} {p : Phase} {w : World}

/-- A row that was readable once stays readable. -/
theorem readable_lasts (h : Inv env init w) {r r' : Reservation}
    (hr : r ∈ Store.versionsOf reservations init w.store k) (hn : r.guestName ≠ none)
    (hr' : r' ∈ w.store.rows) (hid : r'.id = k) : r'.guestName ≠ none := by
  have hrow : Store.lookup reservations w.store.rows k = some r' := by
    rw [← hid]
    exact Store.lookup_mem h.sound.keys hr'
  refine (h.tracked.linked k).last_of (P := fun r => r.guestName ≠ none) ?_ ⟨r, hr, hn⟩ r' hrow
  intro e he b hb hbn
  obtain ⟨t, -, hmade⟩ := h.made e (List.mem_filter.mp he).1
  rw [hb] at hmade
  exact made_guestName hmade hbn

/-- The row a counting client's PATCH is applied to is the one the client has seen. -/
theorem seen_row (h : Inv env init w) (hl : Looping init k p w) {t : Task} (ht : t ∈ w.tasks)
    {user : User} {ifMatch : Option Text} {body : ReservationUpdate}
    (hreq : t.request = .onOne user k (.patch ifMatch body)) {b : Reservation}
    (hb : b ∈ Store.versionsOf reservations init w.store k)
    (hm : checkIfMatch b.version ifMatch true = none) :
    body.partySize = some (b.partySize + 1) := by
  obtain ⟨r, hr, him, hparty, -⟩ := hl.clients t ht user ifMatch body hreq
  rcases checkIfMatch_eq_none.mp hm with ⟨-, hno⟩ | ⟨header, hh, hseen⟩
  · exact absurd hno (by simp)
  · obtain rfl : etag r.version = header := Option.some.inj (him.symm.trans hh)
    rw [ifMatchSeen_etag, List.mem_singleton, List.mem_singleton] at hseen
    rcases hseen with hstar | hv
    · -- a version has no star in it
      have hmem : '*' ∈ digits r.version := by rw [← hstar]; exact List.mem_singleton.mpr rfl
      exact absurd (isDigit_of_mem_digits hmem) (by decide)
    · rw [h.tracked.version_inj hb hr (digits_inj hv)]
      exact hparty

theorem patches_iff {req : Request} : patches k req = true ↔
    ∃ user ifMatch body, req = .onOne user k (.patch ifMatch body) := by
  cases req with
  | onOne user id op => cases op <;> simp [patches]
  | _ => simp [patches]

theorem respond_out {status : Nat} {l : Loaded} {status' : Nat} {tag : Text} {out : ReservationOut}
    (h : respond p status l = .out status' tag out) :
    toOut p l = .ok out ∧ tag = etag l.row.version := by
  unfold respond at h
  split at h
  · next o ho =>
    obtain ⟨-, rfl, rfl⟩ := Answer.out.inj h
    exact ⟨ho, rfl⟩
  · exact absurd h (by simp)

theorem dbAnswer_ne_out {req : Request} {e : DbError} {status : Nat} {tag : Text}
    {out : ReservationOut} : dbAnswer req e ≠ .out status tag out := by
  unfold dbAnswer
  split
  · split <;> simp
  · simp

/-- Nothing but a response built from a loaded row is an answer with a reservation. -/
theorem observed_of_act (h : Inv env init w) (hl : Looping init k p w) {i : Nat} {t : Task}
    (ht : w.tasks[i]? = some t) {e : Effect} {status : Nat} {tag : Text} {out : ReservationOut}
    (ha : Act env w i t.request t.stage e (.done (.out status tag out))) :
    Observed init p w tag out := by
  have hs := h.stages i t ht
  obtain ⟨req, st⟩ := t
  generalize hst' : Stage.done (.out status tag out) = st' at ha
  cases ha with
  | respondGet hload _ =>
    have hout := respond_out (Stage.done.inj hst').symm
    rw [hl.unswitched] at hout
    have hloads := hl.loaded _ (List.mem_of_getElem? ht) _ (loadOwned_ok hload)
    exact ⟨_, (hs _ (loadOwned_ok hload)).1.2, hout.1, hout.2, hloads⟩
  | respondSaved _ =>
    obtain ⟨l, hl', hload⟩ := hs
    obtain rfl := Option.some.inj hl'
    have hout := respond_out (Stage.done.inj hst').symm
    rw [hl.unswitched] at hout
    exact ⟨_, hload.2, hout.1, hout.2, hl.loaded _ (List.mem_of_getElem? ht) _ rfl⟩
  | insertFails _ => exact absurd (Stage.done.inj hst').symm dbAnswer_ne_out
  | violated _ _ _ => exact absurd (Stage.done.inj hst').symm dbAnswer_ne_out
  | listRespond =>
    have := Stage.done.inj hst'
    unfold respondList at this
    split at this <;> exact absurd this (by simp)
  | pass _ _ _ =>
    unfold Request.afterCheck at hst'
    split at hst' <;> exact absurd hst' (by simp)
  | _ => simp at hst'

/-- The columns a task has loaded stay those of the phase. -/
theorem Act.loadedIn {i : Nat} {req : Request} {st st' : Stage} {e : Effect}
    (ha : Act env w i req st e st') (hp : w.phase = p) (hs : LoadedIn p st) : LoadedIn p st' := by
  have hsel : ∀ {cs : List Column} {id : Nat} {l : Loaded}, cs = readColumns p →
      selectReservations cs w.store.rows id = some l → l.columns = readColumns p := by
    intro cs id l hcs h
    obtain ⟨r, -, rfl⟩ := Option.map_eq_some_iff.mp h
    exact hcs
  cases ha with
  | select => exact congrArg readColumns hp
  | selectRow _ => exact fun l h => hsel hs h
  | change hload _ _ _ _ => exact hs _ (loadOwned_ok hload)
  | pass _ _ _ =>
    unfold Request.afterCheck
    split <;> trivial
  | reload _ => exact congrArg readColumns hp
  | reloadRow _ _ => exact fun l h => hsel hs h
  | _ => trivial

/-- A SELECT that does not fail has loaded its row. -/
theorem Act.loadsIn {i : Nat} {req : Request} {st st' : Stage} {e : Effect}
    (ha : Act env w i req st e st') : LoadsIn st' := by
  have hsel : ∀ {cs : List Column} {id : Nat} {l : Loaded},
      reloadError env.schema cs w.store.rows id = none →
      selectReservations cs w.store.rows id = some l → loads l.row = true := by
    intro cs id l hno h
    obtain ⟨r, hr, rfl⟩ := Option.map_eq_some_iff.mp h
    exact loadError_eq_none.mp (Option.or_eq_none_iff.mp hno).2 r hr
  cases ha with
  | selectRow hno =>
    refine fun l h => hsel ?_ h
    unfold selectError at hno
    split at hno
    · exact absurd hno (by simp)
    · exact hno
  | reloadRow _ hno => exact fun l h => hsel hno h
  | pass _ _ _ =>
    unfold Request.afterCheck
    split <;> trivial
  | _ => trivial

/-- A commit is what makes an edit committed. -/
theorem hasCommitted_of_commit {i : Nat} {user : User} {id : Nat} {op : Op} {st st' : Stage}
    (ha : Act env w i (.onOne user id op) st .commit st') :
    st.hasCommitted = false ∧ st'.hasCommitted = true := by
  cases ha
  exact ⟨rfl, rfl⟩

/-- **Nothing else does**, for the PATCH of a counting client: it is not answered 200 before its
    commit, and not otherwise after it. -/
theorem hasCommitted_stays (h : Inv env init w) (hl : Looping init k p w) {i : Nat} {user : User}
    {ifMatch : Option Text} {body : ReservationUpdate} {st st' : Stage} {e : Effect}
    (ht : w.tasks[i]? = some ⟨.onOne user k (.patch ifMatch body), st⟩)
    (habout : AboutRow (.onOne user k (.patch ifMatch body)) st)
    (ha : Act env w i (.onOne user k (.patch ifMatch body)) st e st') (he : e ≠ .commit) :
    st'.hasCommitted = st.hasCommitted := by
  have hmem := List.mem_of_getElem? ht
  have hs := h.stages i _ ht
  have hcols := hl.columns _ hmem
  cases ha with
  | commit _ => exact absurd rfl he
  | refuseLoad hload => rcases loadOwned_error hload with hx | hx <;> exact (congrArg (· == 200) hx)
  | refuseVersion _ _ hm =>
    rcases checkIfMatch_status hm with ⟨hx, -⟩ | hx <;> exact (congrArg (· == 200) hx)
  | respondGet _ hop => exact absurd hop (by simp [Op.edit])
  | @noChange _ _ _ _ l ed hload hop hm hempty =>
    -- one guest more than the loaded row has is a change
    obtain ⟨hrow, hid⟩ := hs _ (loadOwned_ok hload)
    obtain rfl := Option.some.inj hop
    have hk : l.row.id = k := hid _ _ _ rfl
    rw [← hk] at hl hmem
    have hparty := seen_row h hl hmem rfl hrow.2 hm
    have hnet : ((patched w.phase body).net l).partySize = some (l.row.partySize + 1) := by
      show body.partySize.filter _ = _
      rw [hparty]
      simp
    rw [Changes.isEmpty, hnet] at hempty
    exact absurd hempty (by simp)
  | @reloadFails _ id _ _ _ hfail =>
    obtain ⟨-, q, hq, rfl⟩ := hs
    obtain ⟨r, hr, -, -, -, hloads⟩ := hl.clients _ hmem user ifMatch body rfl
    obtain rfl : id = k := habout user k _ rfl
    rw [reloadError_eq hq, loadError_of_version h hr hloads] at hfail
    exact absurd hfail (by simp)
  | noRow _ =>
    obtain ⟨l, hl, -⟩ := hs
    exact absurd hl (by simp)
  | @respondSaved _ l _ =>
    have hread : Readable w.phase l := by
      rw [hl.unswitched]
      refine ⟨fun c hc => by rw [hcols l rfl]; exact hc, ?_⟩
      exact hl.named _ hmem (patches_iff.mpr ⟨user, ifMatch, body, rfl⟩) l rfl
    exact beq_iff_eq.mpr (respond_status hread 200)
  | _ => rfl

/-- What a PATCH of a counting client reads back has a name. -/
theorem named_of_act (h : Inv env init w) (hl : Looping init k p w) {i : Nat} {user : User}
    {ifMatch : Option Text} {body : ReservationUpdate} {st : Stage} {e : Effect} {l : Loaded}
    (ht : w.tasks[i]? = some ⟨.onOne user k (.patch ifMatch body), st⟩)
    (habout : AboutRow (.onOne user k (.patch ifMatch body)) st)
    (ha : Act env w i (.onOne user k (.patch ifMatch body)) st e (.reloaded (some l)))
    (hp : p.readsGuestName = true) : l.row.guestName ≠ none := by
  obtain ⟨r, hr, -, -, hseen, -⟩ := hl.clients _ (List.mem_of_getElem? ht) user ifMatch body rfl
  have hrow := habout user k _ rfl
  generalize hst' : Stage.reloaded (some l) = st' at ha
  cases ha with
  | reloadRow _ _ =>
    obtain ⟨r', hr', rfl⟩ := Option.map_eq_some_iff.mp (Stage.reloaded.inj hst').symm
    obtain ⟨hmem, hid⟩ := Store.lookup_some hr'
    exact readable_lasts h hr (hseen hp) hmem (hid.trans hrow)
  | pass _ _ _ => exact absurd hst' (by simp [Request.afterCheck, Request.onReservation])
  | _ => simp at hst'

/-! ## The count, step by step -/

/-- Who made a change does not depend on how far he got. -/
theorem byPatch_advance {i : Nat} {t : Task} (ht : w.tasks[i]? = some t) (e : Effect) (st : Stage)
    (en : Lib.Entry Reservation) : byPatch k (w.advance i t.request e st) en = byPatch k w en := by
  unfold byPatch
  by_cases ho : en.owner = i
  · rw [ho, advance_task_self ht, ht]
    rfl
  · rw [advance_task_ne ho]

/-- The changes of `k` a task commits: one, if it is a PATCH of `k`, and none by a PATCH else. -/
theorem count_commit (h : Inv env init w) {i : Nat} {t : Task} (ht : w.tasks[i]? = some t)
    (habout : AboutRow t.request t.stage) {st : Stage}
    (ha : Act env w i t.request t.stage .commit st) :
    (Store.changesOf reservations k (w.store.commit reservations i).history).countP (byPatch k w)
      = (Store.changesOf reservations k w.store.history).countP (byPatch k w)
        + if patches k t.request then 1 else 0 := by
  rw [Store.changesOf_commit, List.countP_append]
  congr 1
  have hby : ∀ d ∈ w.store.drafts, d.owner = i → byPatch k w d.entry = patches k t.request := by
    intro d _ ho
    show (w.tasks[d.owner]?).any _ = _
    rw [ho, ht]
    rfl
  cases hk : patches k t.request with
  | false =>
    refine List.countP_eq_zero.mpr fun en hen => ?_
    obtain ⟨d, hd, rfl⟩ := List.mem_map.mp hen
    obtain ⟨hd, ho⟩ := Store.mem_own.mp (List.mem_filter.mp hd).1
    rw [hby d hd ho, hk]
    exact Bool.false_ne_true
  | true =>
    -- the row version it has in progress is the one of its check
    have hs := h.stages i t ht
    obtain ⟨user, ifMatch, body, hreq⟩ := patches_iff.mp hk
    obtain ⟨req, st₀⟩ := t
    obtain rfl : req = .onOne user k (.patch ifMatch body) := hreq
    cases ha with
    | commit _ =>
      obtain ⟨⟨d, hd, ho, hid⟩, -⟩ := hs
      have hidk : reservations.key d.row = k := hid.trans (habout user k _ rfl)
      have hnd : ((w.store.own i).map fun d => reservations.key d.row).Nodup :=
        h.sound.draftKeys.sublist (List.filter_sublist.map _)
      rw [← hidk, Store.filter_key_eq_singleton hnd (Store.mem_own.mpr ⟨hd, ho⟩), hidk]
      show [d.entry].countP (byPatch k w) = 1
      rw [List.countP_singleton, hby d hd ho, hk]
      rfl

theorem Looping.seenBy_mono {w' : World} {req : Request}
    (hver : ∀ r, r ∈ Store.versionsOf reservations init w.store k →
      r ∈ Store.versionsOf reservations init w'.store k)
    (hs : SeenBy init k p w req) : SeenBy init k p w' req := by
  intro user ifMatch body hreq
  obtain ⟨r, hr, hrest⟩ := hs user ifMatch body hreq
  exact ⟨r, hver r hr, hrest⟩

/-- **The step rule of the counting clients.** -/
theorem Looping.advance (hl : Looping init k p w) {i : Nat} {t : Task}
    (ht : w.tasks[i]? = some t) {e : Effect} {st : Stage} (hphase : ∀ q, e ≠ .setPhase q)
    (hcols : LoadedIn p st) (hloads : LoadsIn st)
    (hans : ∀ status tag out, st = .done (.out status tag out) → Observed init p w tag out)
    (hnamed : patches k t.request = true → ∀ l, st = .reloaded (some l) →
      p.readsGuestName = true → l.row.guestName ≠ none)
    (hcount : (Store.changesOf reservations k (w.apply i e).store.history).countP (byPatch k w)
      = (w.advance i t.request e st).tasks.countP (committed k)) :
    Looping init k p (w.advance i t.request e st) where
  unswitched := by
    cases e with
    | setPhase q => exact absurd rfl (hphase q)
    | _ => exact hl.unswitched
  noPut := by
    intro t' ht'
    rcases mem_tasks_advance ht' with ht' | rfl
    · exact hl.noPut t' ht'
    · exact hl.noPut t (List.mem_of_getElem? ht)
  columns := by
    intro t' ht'
    rcases mem_tasks_advance ht' with ht' | rfl
    · exact hl.columns t' ht'
    · exact hcols
  loaded := by
    intro t' ht'
    rcases mem_tasks_advance ht' with ht' | rfl
    · exact hl.loaded t' ht'
    · exact hloads
  answers := by
    have hobs : ∀ {tag out}, Observed init p w tag out →
        Observed init p (w.advance i t.request e st) tag out :=
      fun ⟨l, hrow, hrest⟩ => ⟨l, mem_versions_apply hrow, hrest⟩
    intro t' ht' status tag out hst
    rcases mem_tasks_advance ht' with ht' | rfl
    · exact hobs (hl.answers t' ht' status tag out hst)
    · exact hobs (hans status tag out hst)
  clients := by
    intro t' ht'
    rcases mem_tasks_advance ht' with ht' | rfl
    · exact Looping.seenBy_mono (fun _ => mem_versions_apply) (hl.clients t' ht')
    · exact Looping.seenBy_mono (fun _ => mem_versions_apply)
        (hl.clients t (List.mem_of_getElem? ht))
  named := by
    intro t' ht'
    rcases mem_tasks_advance ht' with ht' | rfl
    · exact hl.named t' ht'
    · exact hnamed
  counted := by
    rw [← hcount]
    refine List.countP_congr fun en _ => ?_
    rw [byPatch_advance ht]

/-- Every stretch of every task keeps the count. -/
theorem Looping.act (hl : Looping init k p w) (h : Inv env init w) {i : Nat} {t : Task}
    (ht : w.tasks[i]? = some t) (habout : AboutRow t.request t.stage) {e : Effect} {st : Stage}
    (ha : Act env w i t.request t.stage e st) : Looping init k p (w.advance i t.request e st) := by
  have hcols := ha.loadedIn hl.unswitched (hl.columns t (List.mem_of_getElem? ht))
  refine hl.advance ht ?_ hcols ha.loadsIn ?_ ?_ ?_
  · rintro q rfl
    obtain ⟨req, st₀⟩ := t
    cases ha
    exact hl.noPut _ (List.mem_of_getElem? ht) _ rfl
  · rintro status tag out rfl
    exact observed_of_act h hl ht ha
  · rintro hk l rfl
    obtain ⟨user, ifMatch, body, hreq⟩ := patches_iff.mp hk
    obtain ⟨req, st₀⟩ := t
    obtain rfl : req = .onOne user k (.patch ifMatch body) := hreq
    exact named_of_act h hl ht habout ha
  · -- a commit by a PATCH of `k` counts on both sides, everything else on none
    have hcom : ∀ st, committed k ⟨t.request, st⟩ = (patches k t.request && st.hasCommitted) :=
      fun _ => rfl
    have hcom₀ : committed k t = (patches k t.request && t.stage.hasCommitted) := rfl
    by_cases he : e = .commit
    · subst he
      show (Store.changesOf reservations k (w.store.commit reservations i).history).countP _ = _
      rw [count_commit h ht habout ha, hl.counted]
      cases hk : patches k t.request with
      | false =>
        rw [countP_advance ht (by rw [hcom, hcom₀, hk]; rfl)]
        rfl
      | true =>
        have hflip : t.stage.hasCommitted = false ∧ st.hasCommitted = true := by
          obtain ⟨user, ifMatch, body, hreq⟩ := patches_iff.mp hk
          rw [hreq] at ha
          exact hasCommitted_of_commit ha
        rw [countP_advance_succ ht (by rw [hcom₀, hflip.1, Bool.and_false])
          (by rw [hcom, hk, hflip.2]; rfl)]
        rfl
    · have hhist : (w.apply i e).store.history = w.store.history := by
        cases e with
        | commit => exact absurd rfl he
        | _ => rfl
      rw [hhist, hl.counted]
      refine (countP_advance ht ?_).symm
      cases hk : patches k t.request with
      | false => rw [hcom, hcom₀, hk]; rfl
      | true =>
        rw [hcom, hcom₀]
        obtain ⟨user, ifMatch, body, hreq⟩ := patches_iff.mp hk
        obtain ⟨req, st₀⟩ := t
        obtain rfl : req = .onOne user k (.patch ifMatch body) := hreq
        rw [hasCommitted_stays h hl ht habout ha he]

/-- A victim of a deadlock had not committed. -/
theorem not_committed_of_waits {i j : Nat} {req : Request} {st : Stage}
    (hw : Waits env w i j req st) : st.hasCommitted = false := by
  cases hw <;> rfl

theorem Looping.victim (hl : Looping init k p w) {i : Nat} {t : Task} (ht : w.tasks[i]? = some t)
    {rest : List Nat} (hc : waitCycle env w i (i :: rest) = true) :
    Looping init k p (w.advance i t.request .abort (.done deadlock)) := by
  obtain ⟨j, hj⟩ := waitCycle_head hc
  obtain ⟨-, t', ht', hw⟩ := waitsFor_iff.mp hj
  obtain rfl := Option.some.inj (ht.symm.trans ht')
  refine hl.advance ht (by simp) trivial trivial ?_ ?_ ?_
  · intro status tag out hst
    exact absurd (Stage.done.inj hst) (by simp [deadlock])
  · intro _ l hst
    exact absurd hst (by simp)
  · refine hl.counted.trans (countP_advance ht ?_).symm
    show (patches k t.request && false) = (patches k t.request && t.stage.hasCommitted)
    rw [not_committed_of_waits hw]

theorem Looping.arrive (hl : Looping init k p w) (h : Inv env init w) {req : Request}
    (hC : Counting k w (.arrive req)) :
    Looping init k p { w with tasks := w.tasks ++ [⟨req, .arrived⟩] } := by
  obtain ⟨hput, hpatch⟩ := hC req rfl
  have hmem : ∀ {t' : Task}, t' ∈ w.tasks ++ [⟨req, .arrived⟩] →
      t' ∈ w.tasks ∨ t' = ⟨req, .arrived⟩ := by
    intro t' ht'
    rcases List.mem_append.mp ht' with ht' | ht'
    · exact Or.inl ht'
    · exact Or.inr (List.mem_singleton.mp ht')
  refine ⟨hl.unswitched, ?_, ?_, ?_, ?_, ?_, ?_, ?_⟩
  · intro t ht
    rcases hmem ht with ht | rfl
    · exact hl.noPut t ht
    · exact hput
  · intro t ht
    rcases hmem ht with ht | rfl
    · exact hl.columns t ht
    · trivial
  · intro t ht
    rcases hmem ht with ht | rfl
    · exact hl.loaded t ht
    · trivial
  · intro t ht status tag out hst
    rcases hmem ht with ht | rfl
    · exact hl.answers t ht status tag out hst
    · exact absurd hst (by simp)
  · intro t ht
    rcases hmem ht with ht | rfl
    · exact hl.clients t ht
    · -- the answer it counts on was built from a version of the row
      intro user ifMatch body hreq
      obtain ⟨t', ht', status, tag, out, hst, hid, him, hparty⟩ := hpatch user ifMatch body hreq
      obtain ⟨l, hrow, hout, htag, hloads⟩ := hl.answers t' ht' status tag out hst
      obtain ⟨hoid, -, hop, -⟩ := toOut_row hout
      have hlk : l.row.id = k := hoid.symm.trans hid
      refine ⟨l.row, hlk ▸ hrow, by rw [him, htag], by rw [hparty, hop], ?_, hloads⟩
      exact (toOut_ok_iff.mp ⟨out, hout⟩).2
  · intro t ht
    rcases hmem ht with ht | rfl
    · exact hl.named t ht
    · intro _ l hst
      exact absurd hst (by simp)
  · have hnew : committed k ⟨req, .arrived⟩ = false := Bool.and_false _
    show _ = (w.tasks ++ [(⟨req, .arrived⟩ : Task)]).countP (committed k)
    rw [List.countP_append, List.countP_singleton, hnew, ← hl.counted]
    refine List.countP_congr fun en hen => ?_
    obtain ⟨t, ht, -⟩ := h.made en (List.mem_filter.mp hen).1
    unfold byPatch
    show ((w.tasks ++ _)[en.owner]?).any _ = true ↔ _
    rw [List.getElem?_append_left (List.getElem?_eq_some_iff.mp ht).1]

theorem looping_start {nextId clock : Nat} :
    Looping init k p (.start p init nextId clock) where
  unswitched := rfl
  noPut := fun _ ht => absurd ht (List.not_mem_nil)
  columns := fun _ ht => absurd ht (List.not_mem_nil)
  loaded := fun _ ht => absurd ht (List.not_mem_nil)
  answers := fun _ ht => absurd ht (List.not_mem_nil)
  clients := fun _ ht => absurd ht (List.not_mem_nil)
  named := fun _ ht => absurd ht (List.not_mem_nil)
  counted := rfl

/-- **Every world of the counting clients keeps their count.** -/
theorem looping_of_reach {nextId clock : Nat} (hready : Ready env p init nextId clock)
    (hr : (service env).Reach (Counting k) (.start p init nextId clock) w) :
    Looping init k p w := by
  refine hr.invariant' looping_start ?_
  intro w l w' hr hl hC hst
  have h := inv_of_reach hready hr
  cases step_cases hst with
  | arrive req => exact hl.arrive h hC
  | act ht ha _ => exact hl.act h ht (aboutRow_of_reach hr _ (List.mem_of_getElem? ht)) ha
  | victim ht hc => exact hl.victim ht hc

/-- **The party has grown by one with each PATCH that has committed.** -/
theorem Looping.partySize (hl : Looping init k p w) (h : Inv env init w) {r₀ : Reservation}
    (hr₀ : Store.lookup reservations init k = some r₀) :
    ∃ r, Store.lookup reservations w.store.rows k = some r ∧
      r.partySize = r₀.partySize + w.tasks.countP (committed k) := by
  have hchain := h.tracked.linked k
  obtain ⟨r, hr⟩ := Option.ne_none_iff_exists'.mp (hchain.last_ne_none
    ⟨r₀, List.mem_append_left _ (by rw [hr₀]; exact List.mem_singleton.mpr rfl)⟩)
  refine ⟨r, hr, ?_⟩
  rw [← hl.counted]
  rw [hr₀, hr] at hchain
  refine hchain.count (f := Reservation.partySize) fun en hen b hb => ?_
  obtain ⟨hmem, hk⟩ := List.mem_filter.mp hen
  obtain ⟨t, ht, hmade⟩ := h.made en hmem
  have hby : byPatch k w en = patches k t.request := by
    unfold byPatch
    rw [ht]
    rfl
  rw [hb] at hmade
  have hid : b.id = k := hmade.place.1.symm.trans (eq_of_beq hk)
  rw [hby]
  cases hpk : patches k t.request with
  | true =>
    obtain ⟨user, ifMatch, body, hreq⟩ := patches_iff.mp hpk
    rw [hreq] at hmade
    obtain ⟨b', q, ed, cs, v, hb', -, -, hop, hm, -⟩ := id hmade
    obtain rfl := Option.some.inj hb'
    obtain rfl := Option.some.inj hop
    have hver : b ∈ Store.versionsOf reservations init w.store k := by
      have := (h.tracked.linked k).before_mem en hen b hb
      exact this
    rw [made_partySize hmade, seen_row h hl (List.mem_of_getElem? ht) hreq hver hm]
    rfl
  | false =>
    rw [if_neg (by decide), Nat.add_zero]
    refine made_partySize_other ?_ hmade
    -- a PATCH of another row does not change this one
    cases hreq : t.request with
    | onOne user id op =>
      cases op with
      | patch ifMatch body =>
        rw [hreq] at hmade hpk
        obtain ⟨b', q, ed, cs, v, hb', hid', -⟩ := hmade
        obtain rfl := Option.some.inj hb'
        have : id ≠ k := by simpa [patches] using hpk
        exact absurd (hid'.symm.trans hid) this
      | _ => rfl
    | _ => rfl

end Loop

/-! ## The result -/

/-- **No update is lost.**  Whatever requests run in whatever order:
    (1) a change made by a PATCH without a star starts from a version its If-Match names;
    (2) every committed change is what its request makes of the row it starts from, the changes of
    a row lead one after the other from the first row to the last, and no two of them start from
    the same version;
    (3) when every PATCH of a row asks for one guest more than an answer it has the ETag of, and
    all of them are answered, the party has grown by the number of answers 200. -/
theorem edits_lose_no_update {env : Env} {phase : Phase} {rows : List Reservation}
    {nextId clock : Nat} (hready : Ready env phase rows nextId clock) :
    (∀ w, (service env).Reach (fun _ _ => True) (.start phase rows nextId clock) w →
      (∀ e ∈ w.store.history, ∀ t user id header body, w.tasks[e.owner]? = some t →
        t.request = .onOne user id (.patch (some header) body) → ['*'] ∉ ifMatchSeen header →
        ∃ b, e.before = some b ∧ b.id = id ∧ digits b.version ∈ ifMatchSeen header ∧
          ∀ v, ifMatchSeen header = [digits v] → b.version = v) ∧
      (∀ e ∈ w.store.history, ∃ t, w.tasks[e.owner]? = some t ∧
        Made env t.request e.before e.after) ∧
      ∀ k, Store.Linked (Store.lookup reservations rows k)
          (Store.changesOf reservations k w.store.history)
          (Store.lookup reservations w.store.rows k) ∧
        (Store.changesOf reservations k w.store.history).Pairwise fun e e' =>
          ∀ r r', e.before = some r → e'.before = some r' → r.version ≠ r'.version) ∧
    ∀ k r₀ w, Store.lookup reservations rows k = some r₀ →
      (service env).Reach (Counting k) (.start phase rows nextId clock) w →
      (∀ t ∈ w.tasks, patches k t.request = true → ∃ a, t.stage = .done a) →
      ∃ r, Store.lookup reservations w.store.rows k = some r ∧
        r.partySize = r₀.partySize +
          w.tasks.countP fun t => patches k t.request && t.answered 200 := by
  constructor
  · intro w hr
    have h := inv_of_reach hready hr
    refine ⟨?_, h.made, fun k => ⟨h.tracked.linked k, ?_⟩⟩
    · intro e he t user id header body ht hreq hstar
      obtain ⟨t', ht', hmade⟩ := h.made e he
      obtain rfl := Option.some.inj (ht.symm.trans ht')
      rw [hreq] at hmade
      obtain ⟨b, header', hb, hid, hh, hseen⟩ := named_version hmade
      obtain rfl := Option.some.inj hh
      have hv := hseen.resolve_left hstar
      refine ⟨b, hb, hid, hv, fun v hone => digits_inj ?_⟩
      rw [hone] at hv
      exact List.mem_singleton.mp hv
    · have hlt := (h.tracked.linked k).before_pairwise_lt (h.tracked.growing_of k)
      exact hlt.imp fun hlt r r' hr hr' => Nat.ne_of_lt (hlt r r' hr hr')
  · intro k r₀ w hr₀ hr hdone
    obtain ⟨r, hrow, hparty⟩ :=
      (looping_of_reach hready hr).partySize (inv_of_reach hready hr) hr₀
    refine ⟨r, hrow, hparty.trans (congrArg _ (List.countP_congr fun t ht => ?_))⟩
    unfold committed
    cases hk : patches k t.request with
    | false => rfl
    | true =>
      obtain ⟨a, ha⟩ := hdone t ht hk
      rw [answered_of_done ha, ha]
      rfl

/-- A reservation of the small restaurant's table at noon. -/
def lunch (id partySize version : Nat) (status : ReservationStatus) : Reservation where
  id := id
  userId := 1
  restaurantId := 1
  restaurantTableId := 7
  guestName := some annLee
  firstName := some "Ann".toList
  lastName := some "Lee".toList
  partySize := partySize
  startsAt := 12 * 3600000000
  endsAt := 14 * 3600000000
  status := status
  createdAt := 0
  version := version

/-- The small restaurant with one reservation. -/
theorem lunch_ready : Ready sample .legacy [lunch 1 2 1 .confirmed] 2 2 where
  fits := sample_fits _
  keys := by decide
  ids := by decide
  versions := by decide
  ok := by
    intro r hr
    rw [List.mem_singleton.mp hr]
    exact rowError_eq_none.mp (by decide)
  apart := by
    intro a ha b hb hne
    rw [List.mem_singleton.mp ha, List.mem_singleton.mp hb] at hne
    exact absurd rfl hne

/-- The task is answered with the reservation 1 as it was at the start. -/
def sawLunch (t : Task) : Bool :=
  match t.stage with
  | .done (.out _ tag out) => out.id == 1 && tag == etag 1 && out.partySize == 2
  | _ => false

theorem three_guests : 0 < 3 ∧ 3 ≤ 20 := by decide

theorem four_guests : 0 < 4 ∧ 4 ≤ 20 := by decide

/-- A PATCH that asks for one guest more than there were at the start. -/
def oneMore (user : User) : Request :=
  .onOne user 1 (.patch (some (etag 1)) (setParty 3 three_guests))

theorem counting_oneMore {w : World} (user : User) (hsaw : w.tasks.any sawLunch = true) :
    Counting 1 w (.arrive (oneMore user)) := by
  rintro req hreq
  obtain rfl := Label.arrive.inj hreq
  refine ⟨by simp [oneMore], fun user ifMatch body hreq => ?_⟩
  obtain ⟨-, -, hop⟩ := Request.onOne.inj hreq
  obtain ⟨rfl, rfl⟩ := Op.patch.inj hop
  obtain ⟨t, ht, hsee⟩ := List.any_eq_true.mp hsaw
  unfold sawLunch at hsee
  split at hsee
  · next status tag out hst =>
    simp only [Bool.and_eq_true, beq_iff_eq] at hsee
    obtain ⟨⟨hid, rfl⟩, hparty⟩ := hsee
    exact ⟨t, ht, status, _, out, hst, hid, rfl, by rw [hparty]; rfl⟩
  · exact absurd hsee (by decide)

/-- Staff of the restaurant. -/
def waiter : User := ⟨3, .staff⟩

/-- The guest and the waiter read the reservation. -/
def bothRead : List Label :=
  [.arrive (.onOne customer 1 .get), .arrive (.onOne waiter 1 .get), .step 0, .step 1, .step 0, .step 1,
    .step 0, .step 1]

/-- Their PATCHes run side by side. -/
def bothWrite : List Label :=
  [.step 2, .step 3, .step 2, .step 3, .step 2, .step 3, .step 2, .step 2, .step 2, .step 2, .step 2,
    .step 2, .step 3]

/-- Both ask for one guest more under the version they have read; one of them is counted. -/
theorem lunch_one_more :
    ∃ w, (service sample).Reach (Counting 1) (.start .legacy [lunch 1 2 1 .confirmed] 2 2) w ∧
      w.tasks.map Task.status = [some 200, some 200, some 200, some 409] ∧
      ∃ r, Store.lookup reservations w.store.rows 1 = some r ∧
        r.partySize = 2 + w.tasks.countP fun t => patches 1 t.request && t.answered 200 := by
  let s₀ := World.start .legacy [lunch 1 2 1 .confirmed] 2 2
  obtain ⟨w₁, h₁⟩ : ∃ w, (service sample).run s₀ bothRead = some w :=
    Option.isSome_iff_exists.mp (by decide)
  obtain ⟨w, h⟩ : ∃ w, (service sample).run s₀
      (bothRead ++ .arrive (oneMore customer) :: .arrive (oneMore waiter) :: bothWrite) = some w :=
    Option.isSome_iff_exists.mp (by decide)
  have hread : (service sample).Reach (Counting 1) s₀ w₁ := by
    refine Machine.Reach.of_labels (fun l hl s req hreq => ?_) h₁
    subst hreq
    have hget : ∃ user, req = .onOne user 1 .get := by
      simp only [bothRead, List.mem_cons, Label.arrive.injEq, reduceCtorEq, List.not_mem_nil,
        or_false] at hl
      rcases hl with rfl | rfl <;> exact ⟨_, rfl⟩
    obtain ⟨user, rfl⟩ := hget
    exact ⟨by simp, by simp⟩
  have hsaw : w₁.tasks.any sawLunch = true :=
    (service sample).run_eval (fun w => w.tasks.any sawLunch) h₁ (by decide)
  have hstatus : w.tasks.map Task.status = [some 200, some 200, some 200, some 409] :=
    (service sample).run_eval (fun w => w.tasks.map Task.status) h (by decide)
  have hdone : (w.tasks.all fun t => t.status.isSome) = true :=
    (service sample).run_eval (fun w => w.tasks.all fun t => t.status.isSome) h (by decide)
  rw [Machine.run_append, h₁, Option.bind_some] at h
  have hasks : (service sample).Reach (Counting 1) s₀ _ :=
    (hread.tail (counting_oneMore customer hsaw) rfl).tail
      (counting_oneMore waiter (by
        show (w₁.tasks ++ [_]).any sawLunch = true
        rw [List.any_append, hsaw, Bool.true_or])) rfl
  have hwrite : (service sample).Reach (Counting 1) s₀ w := by
    refine hasks.trans (Machine.Reach.of_labels (fun l hl s req hreq => ?_) h)
    subst hreq
    exact absurd hl (by simp [bothWrite])
  exact ⟨w, hwrite, hstatus, (edits_lose_no_update lunch_ready).2 1 _ w rfl hwrite fun t ht _ =>
    done_of_status (List.all_eq_true.mp hdone t ht)⟩

end TableFlow
