/-
  Whose hand a reservation changes by.

  1. **Terms** — who booked, where, which table, which window and since when.  `Made.terms`: no
     change touches them, so all versions of a row have the same ones (`terms_of_versions`).
  2. **Permission** — a booking belongs to its caller; a PATCH or a DELETE of a customer only ever
     starts from a row of its own, as `_load_owned` has let it through and the row an UPDATE finds
     is the row that was loaded; a batch fills names and nothing else (`Permitted`).
  3. **Answers** — a customer is only ever sent its own reservations, also when other requests run
     between the check and the answer: the row that is reloaded after a commit has the owner it had
     before (`Owned`).
  4. **Strangers** — in a run of other customers, phase switches and batches, the reservations of a
     user stay as they were but for names filled in.

  `Guarded` holds 2 and 3 together, as one invariant of the service.
-/
import TableFlow.Editing
import TableFlow.Seating

namespace TableFlow

open Lib

/-! ## Terms -/

/-- What a reservation is about, and no request changes. -/
structure Terms where
  id : Nat
  userId : Nat
  restaurantId : Nat
  restaurantTableId : Nat
  startsAt : Int
  endsAt : Int
  createdAt : Int
  deriving DecidableEq

/-- What was agreed on when the reservation was made. -/
def Reservation.terms (r : Reservation) : Terms where
  id := r.id
  userId := r.userId
  restaurantId := r.restaurantId
  restaurantTableId := r.restaurantTableId
  startsAt := r.startsAt
  endsAt := r.endsAt
  createdAt := r.createdAt

theorem apply_terms (ch : Changes) (r : Reservation) (v : Nat) :
    (ch.apply r v).terms = r.terms :=
  assignNames_keeps Reservation.terms (fun _ c _ => by cases c <;> rfl) ch.names r

/-- **No request changes the terms of a reservation.** -/
theorem Made.terms {env : Env} {req : Request} {b r : Reservation} (h : Made env req (some b) r) :
    r.terms = b.terms := by
  cases req with
  | post user body => exact absurd h.1 (by simp)
  | onOne user id op =>
    obtain ⟨b', p, ed, cs, v, hb, -, -, -, -, -, rfl⟩ := h
    obtain rfl := Option.some.inj hb
    exact apply_terms _ _ _
  | batch lastId size =>
    obtain ⟨b', v, hb, -, rfl⟩ := h
    obtain rfl := Option.some.inj hb
    rfl
  | list user limit => exact absurd h (fun x => x)
  | put target => exact absurd h (fun x => x)

section Versions

variable {env : Env} {init : List Reservation} {w : World}

/-- The row of today has the terms of any of its versions. -/
theorem terms_of_version (h : Inv env init w) {k : Nat} {r r' : Reservation}
    (hr : r ∈ Store.versionsOf reservations init w.store k)
    (hr' : Store.lookup reservations w.store.rows k = some r') : r'.terms = r.terms := by
  refine (h.tracked.linked k).last_of (P := fun x => x.terms = r.terms) ?_ ⟨r, hr, rfl⟩ r' hr'
  intro e he b hb hP
  obtain ⟨t, -, hmade⟩ := h.made e (List.mem_filter.mp he).1
  rw [hb] at hmade
  exact hmade.terms.trans hP

/-- **All versions of a reservation have the same terms.** -/
theorem terms_of_versions (h : Inv env init w) {k : Nat} {r r' : Reservation}
    (hr : r ∈ Store.versionsOf reservations init w.store k)
    (hr' : r' ∈ Store.versionsOf reservations init w.store k) : r'.terms = r.terms := by
  obtain ⟨x, hx, hk⟩ := h.tracked.exists_row hr
  have hrow : Store.lookup reservations w.store.rows k = some x := hk ▸ Store.lookup_mem h.sound.keys hx
  exact (terms_of_version h hr' hrow).symm.trans (terms_of_version h hr hrow)

end Versions

/-! ## Permission -/

/-- The rows `_load_owned` lets a caller through to. -/
def Reaches (user : User) (userId : Nat) : Prop := user.role = .customer → userId = user.id

theorem loadOwned_reaches {user : User} {row : Option Loaded} {l : Loaded}
    (h : loadOwned user row = .ok l) : Reaches user l.row.userId := by
  obtain rfl := loadOwned_ok h
  intro hrole
  by_contra hne
  rw [show loadOwned user (some l) = .error notYours from if_pos ⟨hrole, hne⟩] at h
  exact absurd h (by simp)

/-- The reservations of this user are ones the request may answer with. -/
def Request.mayShow : Request → Nat → Prop
  | .post user _, userId => userId = user.id
  | .onOne user _ _, userId => Reaches user userId
  | .list user _, userId => userId = user.id
  | .put _, _ => True
  | .batch _ _, _ => True

/-- The row has the terms and the party its booking asks for. -/
structure Asked (user : User) (body : ReservationCreate) (r : Reservation) : Prop where
  userId : r.userId = user.id
  restaurantId : r.restaurantId = body.restaurantId
  restaurantTableId : r.restaurantTableId = body.restaurantTableId
  startsAt : r.startsAt = body.startsAt
  endsAt : r.endsAt = body.endsAt
  partySize : r.partySize = body.partySize
  status : r.status = .confirmed

theorem asked_inserted (env : Env) (p : Phase) (user : User) (body : ReservationCreate)
    (id v : Nat) : Asked user body (inserted env (newReservation p user body) id v) where
  userId := assignNames_userId _ _
  restaurantId := assignNames_restaurantId _ _
  restaurantTableId := assignNames_restaurantTableId _ _
  startsAt := assignNames_startsAt _ _
  endsAt := assignNames_endsAt _ _
  partySize := assignNames_partySize _ _
  status := assignNames_status _ _

/-- **The request has the right to the change**: from `before` to `after`. -/
def Permitted (req : Request) (before : Option Reservation) (after : Reservation) : Prop :=
  match req with
  | .post user body => before = none ∧ Asked user body after
  | .onOne user id _ =>
    ∃ b, before = some b ∧ b.id = id ∧ Reaches user b.userId ∧ after.terms = b.terms
  | .batch _ _ =>
    ∃ b v, before = some b ∧ b.firstName = none ∧
      after = fill b (splitGuestName (b.guestName.getD [])) v
  | _ => False

/-- Whoever may make a change may be shown the row it leaves. -/
theorem Permitted.mayShow {req : Request} {before : Option Reservation} {after : Reservation}
    (h : Permitted req before after) : req.mayShow after.userId := by
  cases req with
  | post user body => exact h.2.userId
  | onOne user id op =>
    obtain ⟨b, -, -, hreach, hterms⟩ := h
    have hid : after.userId = b.userId := congrArg Terms.userId hterms
    show Reaches user after.userId
    rw [hid]
    exact hreach
  | batch lastId size => trivial
  | list user limit => exact absurd h (fun x => x)
  | put target => trivial

/-! ## The invariant -/

/-- The committed row `id` is one that the request may show. -/
def Shows (w : World) (req : Request) (id : Nat) : Prop :=
  ∃ r ∈ w.store.rows, r.id = id ∧ req.mayShow r.userId

/-- The answer holds no reservation that the request may not show. -/
def Answer.Within (req : Request) : Answer → Prop
  | .out _ _ body => req.mayShow body.userId
  | .listed items => ∀ item ∈ items, req.mayShow item.userId
  | _ => True

/-- The rows a request holds at this stage are ones it may show. -/
def Owned (w : World) (req : Request) : Stage → Prop
  | .updating l _ => req.mayShow l.row.userId
  | .saved id => Shows w req id
  | .reloading id _ => Shows w req id
  | .reloaded row => ∀ l, row = some l → req.mayShow l.row.userId
  | .listed rows => ∀ x ∈ rows, req.mayShow x.1.row.userId
  | .done a => a.Within req
  | _ => True

/-- **Every change is permitted, and nobody holds what is not its own.** -/
structure Guarded (w : World) : Prop where
  written : Written Permitted w
  owned : ∀ t ∈ w.tasks, Owned w t.request t.stage

section Stretch

variable {env : Env} {init : List Reservation} {w w' : World} {i : Nat} {l : Label}

/-- A row that may be shown may be shown afterwards. -/
theorem Shows.apply {req : Request} {id : Nat} (h : Shows w req id) (hinv : Inv env init w)
    (j : Nat) (e : Effect) : Shows (w.apply j e) req id := by
  obtain ⟨r, hr, hid, hshow⟩ := h
  obtain ⟨r', hr', href⟩ := apply_keeps_reference hinv j e hr
  refine ⟨r', hr', href.id.trans hid, ?_⟩
  rw [href.userId]
  exact hshow

/-- The other requests do not change what a request may show. -/
theorem Owned.apply {req : Request} {st : Stage} (h : Owned w req st) (hinv : Inv env init w)
    (j : Nat) (e : Effect) : Owned (w.apply j e) req st := by
  cases st with
  | saved id => exact Shows.apply h hinv j e
  | reloading id cs => exact Shows.apply h hinv j e
  | _ => exact h

/-- The row behind a loaded one, as it is now. -/
theorem shows_of_loaded (h : Inv env init w) {row : Loaded} (hload : LoadedOk env init w row)
    {req : Request} (hshow : req.mayShow row.row.userId) : Shows w req row.row.id := by
  obtain ⟨r, hr, hid⟩ := h.tracked.exists_row hload.2
  have hrow : Store.lookup reservations w.store.rows row.row.id = some r :=
    hid ▸ Store.lookup_mem h.sound.keys hr
  have hterms := terms_of_version h hload.2 hrow
  refine ⟨r, hr, hid, ?_⟩
  rw [show r.userId = row.row.userId from congrArg Terms.userId hterms]
  exact hshow

theorem toOut_userId {p : Phase} {row : Loaded} {out : ReservationOut}
    (h : toOut p row = .ok out) : out.userId = row.row.userId := by
  unfold toOut at h
  cases hn : responseName p row with
  | error e =>
    rw [hn] at h
    exact absurd h (by simp [bind, Except.bind])
  | ok n =>
    rw [hn] at h
    obtain rfl := Except.ok.inj h
    rfl

theorem toListItem_userId {p : Phase} {x : Loaded × Text} {item : ReservationListItem}
    (h : toListItem p x = .ok item) : item.userId = x.1.row.userId := by
  unfold toListItem at h
  cases hout : toOut p x.1 with
  | error e =>
    rw [hout] at h
    exact absurd h (by simp [bind, Except.bind])
  | ok out =>
    rw [hout] at h
    obtain rfl := Except.ok.inj h
    exact toOut_userId hout

theorem mem_selectMyBookings_userId {cs : List Column} {rows : List Reservation}
    {userId limit : Nat} {x : Loaded × Text}
    (h : x ∈ selectMyBookings env cs rows userId limit) : x.1.row.userId = userId := by
  have h' := (List.mem_insertionSort _).mp (List.mem_of_mem_take h)
  obtain ⟨r, hr, hx⟩ := List.mem_filterMap.mp h'
  obtain ⟨y, -, rfl⟩ := Option.map_eq_some_iff.mp hx
  exact beq_iff_eq.mp (List.mem_filter.mp hr).2

theorem respond_within {req : Request} {p : Phase} {status : Nat} {row : Loaded}
    (h : req.mayShow row.row.userId) : (respond p status row).Within req := by
  unfold respond
  split
  · next out hout =>
    show req.mayShow out.userId
    rw [toOut_userId hout]
    exact h
  · trivial

theorem dbAnswer_within (req req' : Request) (e : DbError) : (dbAnswer req e).Within req' := by
  unfold dbAnswer
  split
  · split <;> trivial
  · trivial

theorem respondList_within {req : Request} {p : Phase} {rows : List (Loaded × Text)}
    (h : ∀ x ∈ rows, req.mayShow x.1.row.userId) : (respondList p rows).Within req := by
  cases hr : respondList p rows with
  | listed items =>
    have hall := respondList_eq_listed.mp hr
    clear hr
    induction hall with
    | nil => exact fun _ hitem => absurd hitem List.not_mem_nil
    | cons hx _ ih =>
      rw [List.forall_mem_cons] at h
      refine List.forall_mem_cons.mpr ⟨?_, ih h.2⟩
      rw [toListItem_userId hx]
      exact h.1
  | out status tag out =>
    unfold respondList at hr
    split at hr <;> exact absurd hr (by simp)
  | _ => trivial

/-- **One stretch** goes on with rows that its request may show. -/
theorem Guarded.owned_act (h : Guarded w) (hinv : Inv env init w) {t : Task}
    (ht : w.tasks[i]? = some t) {e : Effect} {st : Stage}
    (ha : Act env w i t.request t.stage e st) : Owned (w.apply i e) t.request st := by
  have hown := h.owned t (List.mem_of_getElem? ht)
  have hs := hinv.stages i t ht
  obtain ⟨req, st₀⟩ := t
  cases ha with
  | insertFails _ => exact dbAnswer_within _ _ _
  | respondGet hload _ => exact respond_within (loadOwned_reaches hload)
  | noChange hload _ _ _ =>
    exact shows_of_loaded hinv (hs _ (loadOwned_ok hload)).1 (loadOwned_reaches hload)
  | change hload _ _ _ => exact loadOwned_reaches hload
  | violated _ _ _ => exact dbAnswer_within _ _ _
  | pass _ _ _ =>
    unfold Request.afterCheck
    split <;> trivial
  | commit _ =>
    -- the row that is committed is the one the task has written, with permission
    obtain ⟨⟨d, hd, ho, hid⟩, -⟩ := hs
    refine ⟨d.row, Store.mem_seen.mpr (Or.inr ⟨d, hd, ho, rfl⟩), hid, ?_⟩
    exact (h.written.drafts d hd _ (ho ▸ ht)).mayShow
  | reload _ => exact hown
  | @reloadRow _ id cs _ _ =>
    intro row hrow
    obtain ⟨r, hr, hid, hshow⟩ := hown
    have hlook : Store.lookup reservations w.store.rows id = some r :=
      hid ▸ Store.lookup_mem hinv.sound.keys hr
    unfold selectReservations at hrow
    rw [hlook] at hrow
    obtain rfl := Option.some.inj hrow
    exact hshow
  | respondSaved _ => exact respond_within (hown _ rfl)
  | listRows _ => exact fun x hx => (mem_selectMyBookings_userId hx)
  | listRespond => exact respondList_within hown
  | _ => trivial

/-- **What a stretch writes is permitted.** -/
theorem Guarded.write (h : Guarded w) (hinv : Inv env init w) {t : Task}
    (ht : w.tasks[i]? = some t) {before : Option Reservation} {row : Reservation} {st : Stage}
    (ha : Act env w i t.request t.stage (.write before row) st) :
    Permitted t.request before row := by
  have hown := h.owned t (List.mem_of_getElem? ht)
  have hs := hinv.stages i t ht
  have hl := legal_of_act hinv ht ha
  obtain ⟨req, st₀⟩ := t
  cases ha with
  | insert _ =>
    obtain ⟨-, user', body', p, hreq, -, rfl⟩ := hs
    obtain ⟨rfl, rfl⟩ := Request.post.inj hreq
    exact ⟨rfl, asked_inserted env p _ _ _ _⟩
  | @update user id op row₀ ch r _ hr hv _ =>
    obtain rfl := loaded_row_eq hinv hs.1 hr hv
    obtain ⟨-, user', op', p, ed, hreq, -⟩ := hs
    obtain ⟨-, hid, -⟩ := Request.onOne.inj hreq
    exact ⟨_, rfl, hid.symm, hown, apply_terms _ _ _⟩
  | fillRow hr hnull =>
    obtain ⟨b, v, hb, hfirst, hrow⟩ := hl.2.2.2.2
    exact ⟨b, v, hb, hfirst, hrow⟩

theorem Guarded.advance (h : Guarded w) (hinv : Inv env init w) {t : Task} {e : Effect}
    {st : Stage}
    (hwritten : Written Permitted (w.advance i t.request e st))
    (hst : Owned (w.apply i e) t.request st) : Guarded (w.advance i t.request e st) where
  written := hwritten
  owned := by
    intro t' ht'
    rcases mem_tasks_advance ht' with ht' | rfl
    · exact (h.owned t' ht').apply hinv i e
    · exact hst

/-- **One step of the service.** -/
theorem Guarded.step (h : Guarded w) (hinv : Inv env init w)
    (hst : (service env).step w l = some w') : Guarded w' := by
  cases step_cases hst with
  | arrive req =>
    refine ⟨h.written.arrive hinv req, fun t ht => ?_⟩
    rcases List.mem_append.mp ht with ht | ht
    · exact h.owned t ht
    · rw [List.mem_singleton.mp ht]
      trivial
  | act ht ha _ =>
    refine h.advance hinv (h.written.act ht ha fun before row he => ?_) (h.owned_act hinv ht ha)
    subst he
    exact h.write hinv ht ha
  | victim ht _ => exact h.advance hinv (h.written.abort ht deadlock) trivial

end Stretch

section Reachable

variable {env : Env} {phase : Phase} {rows : List Reservation} {nextId clock : Nat}

theorem guarded_start : Guarded (.start phase rows nextId clock) where
  written := .start
  owned := fun _ ht => absurd ht List.not_mem_nil

theorem guarded_of_reach {C : World → Label → Prop} {w : World}
    (hready : Ready env phase rows nextId clock)
    (hr : (service env).Reach C (.start phase rows nextId clock) w) : Guarded w :=
  hr.invariant' guarded_start fun _ _ _ hr h _ hst => h.step (inv_of_reach hready hr) hst

/-! ## Every run -/

/-- **Every change is made by one who may make it, and the terms of a reservation never change.** -/
theorem changes_permitted {w : World} (hready : Ready env phase rows nextId clock)
    (hr : (service env).Reach (fun _ _ => True) (.start phase rows nextId clock) w) :
    (∀ e ∈ w.store.history, ∃ t, w.tasks[e.owner]? = some t ∧
      Permitted t.request e.before e.after) ∧
    ∀ k, ∀ r ∈ Store.versionsOf reservations rows w.store k,
      ∀ r' ∈ Store.versionsOf reservations rows w.store k, r'.terms = r.terms := by
  have hinv := inv_of_reach hready hr
  have h := guarded_of_reach hready hr
  refine ⟨fun e he => ?_, fun k r hr r' hr' => terms_of_versions hinv hr hr'⟩
  obtain ⟨t, ht, -⟩ := hinv.made e he
  exact ⟨t, ht, h.written.history e he t ht⟩

/-- The customer with the number 2. -/
def neighbour : User := ⟨2, .customer⟩

/-- The owner cancels its lunch, and another customer tries to. -/
def twoCancels : List Label :=
  whole 0 9 (.onOne customer 1 (.delete none)) ++ whole 1 3 (.onOne neighbour 1 (.delete none))

theorem lunch_cancelled_by_owner :
    ∃ w, (service sample).run (.start .legacy [lunch 1 2 1 .confirmed] 2 2) twoCancels = some w ∧
      w.store.history.length = 1 ∧
      ∀ e ∈ w.store.history, ∃ t, w.tasks[e.owner]? = some t ∧
        Permitted t.request e.before e.after := by
  obtain ⟨w, hw⟩ : ∃ w, (service sample).run
      (.start .legacy [lunch 1 2 1 .confirmed] 2 2) twoCancels = some w :=
    Option.isSome_iff_exists.mp (by decide)
  have hlen : w.store.history.length = 1 :=
    (service sample).run_eval (fun w => w.store.history.length) hw (by decide)
  exact ⟨w, hw, hlen, (changes_permitted lunch_ready (Machine.Reach.of_run hw)).1⟩

/-- **Nobody is answered with a reservation it may not see**: a customer only with its own, whatever
    runs beside its request. -/
theorem answers_within {w : World} (hready : Ready env phase rows nextId clock)
    (hr : (service env).Reach (fun _ _ => True) (.start phase rows nextId clock) w) :
    ∀ t ∈ w.tasks, ∀ a, t.stage = .done a → a.Within t.request := by
  intro t ht a ha
  have hown := (guarded_of_reach hready hr).owned t ht
  rw [ha] at hown
  exact hown

/-- Both customers ask for the reservation. -/
def twoReads : List Label :=
  whole 0 3 (.onOne customer 1 .get) ++ whole 1 3 (.onOne neighbour 1 .get)

theorem lunch_shown_to_owner :
    ∃ w, (service sample).run (.start .legacy [lunch 1 2 1 .confirmed] 2 2) twoReads = some w ∧
      w.tasks.map Task.status = [some 200, some 403] ∧
      ∀ t ∈ w.tasks, ∀ a, t.stage = .done a → a.Within t.request := by
  obtain ⟨w, hw⟩ : ∃ w, (service sample).run
      (.start .legacy [lunch 1 2 1 .confirmed] 2 2) twoReads = some w :=
    Option.isSome_iff_exists.mp (by decide)
  have hstatus : w.tasks.map Task.status = [some 200, some 403] :=
    (service sample).run_eval (fun w => w.tasks.map Task.status) hw (by decide)
  exact ⟨w, hw, hstatus, answers_within lunch_ready (Machine.Reach.of_run hw)⟩

/-! ## Strangers -/

/-- A request that could only be about others: not of the user, and not of staff or an admin who
    may edit any reservation. -/
def Stranger (userId : Nat) : Request → Prop
  | .post user _ => user.id ≠ userId
  | .onOne user _ _ => user.role = .customer ∧ user.id ≠ userId
  | _ => True

/-- Only such requests arrive. -/
def Strangers (userId : Nat) (_ : World) (l : Label) : Prop :=
  ∀ req, l = .arrive req → Stranger userId req

/-- What a batch makes of a row without a first name. -/
def NamesFilled (r₀ r : Reservation) : Prop :=
  r₀.firstName = none ∧ ∃ v, r = fill r₀ (splitGuestName (r₀.guestName.getD [])) v

/-- All a stranger does to a reservation is to fill in its names. -/
theorem Permitted.filled {userId : Nat} {req : Request} (hreq : Stranger userId req)
    {b after : Reservation} (h : Permitted req (some b) after) (hb : b.userId = userId) :
    NamesFilled b after := by
  cases req with
  | post user body => exact absurd h.1 (by simp)
  | onOne user id op =>
    obtain ⟨b', hb', -, hreach, -⟩ := h
    obtain rfl := Option.some.inj hb'
    exact absurd ((hreach hreq.1).symm.trans hb) hreq.2
  | batch lastId size =>
    obtain ⟨b', v, hb', hnull, hafter⟩ := h
    obtain rfl := Option.some.inj hb'
    exact ⟨hnull, v, hafter⟩
  | list user limit => exact absurd h (fun x => x)
  | put target => exact absurd h (fun x => x)

/-- A stranger books for itself. -/
theorem Permitted.booked {userId : Nat} {req : Request} (hreq : Stranger userId req)
    {after : Reservation} (h : Permitted req none after) : after.userId ≠ userId := by
  cases req with
  | post user body =>
    rw [h.2.userId]
    exact hreq
  | onOne user id op => exact absurd h.choose_spec.1 (by simp)
  | batch lastId size => exact absurd h.choose_spec.choose_spec.1 (by simp)
  | list user limit => exact absurd h (fun x => x)
  | put target => exact absurd h (fun x => x)

theorem strangers_of_reach {userId : Nat} {w : World}
    (hr : (service env).Reach (Strangers userId) (.start phase rows nextId clock) w) :
    ∀ t ∈ w.tasks, Stranger userId t.request := by
  refine hr.invariant (I := fun w => ∀ t ∈ w.tasks, Stranger userId t.request)
    (fun _ ht => absurd ht List.not_mem_nil) fun w l w' h hl hst t ht => ?_
  cases step_cases hst with
  | arrive req =>
    rcases List.mem_append.mp ht with ht | ht
    · exact h t ht
    · rw [List.mem_singleton.mp ht]
      exact hl req rfl
  | act ht₀ _ _ =>
    rcases mem_tasks_advance ht with ht | rfl
    · exact h t ht
    · have hold := h _ (List.mem_of_getElem? ht₀)
      exact hold
  | victim ht₀ _ =>
    rcases mem_tasks_advance ht with ht | rfl
    · exact h t ht
    · have hold := h _ (List.mem_of_getElem? ht₀)
      exact hold

/-- **One reservation in a run of strangers.**  It is filled at most once: a filled row has a first
    name. -/
theorem row_left_alone {userId : Nat} {w : World} (hready : Ready env phase rows nextId clock)
    (hr : (service env).Reach (Strangers userId) (.start phase rows nextId clock) w)
    {r₀ r : Reservation} (hr₀ : r₀ ∈ rows) (huser : r₀.userId = userId)
    (hrow : Store.lookup reservations w.store.rows r₀.id = some r) : r = r₀ ∨ NamesFilled r₀ r := by
  have hinv := inv_of_reach hready hr
  have hwritten := (guarded_of_reach hready hr).written
  have hinit : Store.lookup reservations rows r₀.id = some r₀ := Store.lookup_mem hready.keys hr₀
  have hlinked := hinv.tracked.linked r₀.id
  rw [hinit] at hlinked
  refine hlinked.last_of (P := fun r => r = r₀ ∨ NamesFilled r₀ r) ?_
    ⟨r₀, List.mem_append_left _ (List.mem_singleton.mpr rfl), Or.inl rfl⟩ r hrow
  intro e he b hb hP
  have hmem := (List.mem_filter.mp he).1
  obtain ⟨t, ht, -⟩ := hinv.made e hmem
  have hperm := hwritten.history e hmem t ht
  have hstranger := strangers_of_reach hr t (List.mem_of_getElem? ht)
  rw [hb] at hperm
  rcases hP with rfl | ⟨-, v, rfl⟩
  · exact Or.inr (hperm.filled hstranger huser)
  · -- a row that a batch has filled has a first name
    exact absurd (hperm.filled hstranger huser).1 (Option.some_ne_none _)

/-- **Strangers leave a user's reservations alone**: none is added, none is lost, and at most the
    names of one are filled in. -/
theorem strangers_leave_alone {userId : Nat} {w : World}
    (hready : Ready env phase rows nextId clock)
    (hr : (service env).Reach (Strangers userId) (.start phase rows nextId clock) w) :
    (∀ r₀ ∈ rows, r₀.userId = userId → ∃ r ∈ w.store.rows, r = r₀ ∨ NamesFilled r₀ r) ∧
    ∀ r ∈ w.store.rows, r.userId = userId → ∃ r₀ ∈ rows, r = r₀ ∨ NamesFilled r₀ r := by
  have hinv := inv_of_reach hready hr
  have hwritten := (guarded_of_reach hready hr).written
  constructor
  · intro r₀ hr₀ huser
    have hversion : r₀ ∈ Store.versionsOf reservations rows w.store r₀.id := by
      refine List.mem_append_left _ ?_
      rw [show Store.lookup reservations rows r₀.id = some r₀ from
        Store.lookup_mem hready.keys hr₀]
      exact List.mem_singleton.mpr rfl
    obtain ⟨r, hr', hid⟩ := hinv.tracked.exists_row hversion
    have hrow : Store.lookup reservations w.store.rows r₀.id = some r :=
      hid ▸ Store.lookup_mem hinv.sound.keys hr'
    exact ⟨r, hr', row_left_alone hready hr hr₀ huser hrow⟩
  · intro r hr' huser
    have hrow : Store.lookup reservations w.store.rows r.id = some r :=
      Store.lookup_mem hinv.sound.keys hr'
    cases hinit : Store.lookup reservations rows r.id with
    | some r₀ =>
      obtain ⟨hr₀, hid⟩ := Store.lookup_some hinit
      have hversion : r₀ ∈ Store.versionsOf reservations rows w.store r.id := by
        refine List.mem_append_left _ ?_
        rw [hinit]
        exact List.mem_singleton.mpr rfl
      have hterms := terms_of_version hinv hversion hrow
      have huser₀ : r₀.userId = userId := (congrArg Terms.userId hterms).symm.trans huser
      refine ⟨r₀, hr₀, row_left_alone hready hr hr₀ huser₀ ?_⟩
      rw [show r₀.id = r.id from hid]
      exact hrow
    | none =>
      -- the row is new: the first change of its chain is a booking
      have hlinked := hinv.tracked.linked r.id
      rw [hinit, hrow] at hlinked
      cases hes : Store.changesOf reservations r.id w.store.history with
      | nil =>
        rw [hes] at hlinked
        exact absurd hlinked (by simp [Store.Linked])
      | cons e es =>
        have hmem : e ∈ Store.changesOf reservations r.id w.store.history := by
          rw [hes]
          exact List.mem_cons_self ..
        rw [hes] at hlinked
        obtain ⟨t, ht, -⟩ := hinv.made e (List.mem_filter.mp hmem).1
        have hperm := hwritten.history e (List.mem_filter.mp hmem).1 t ht
        rw [hlinked.1] at hperm
        have hother := hperm.booked (strangers_of_reach hr t (List.mem_of_getElem? ht))
        have hversion : e.after ∈ Store.versionsOf reservations rows w.store r.id :=
          List.mem_append_right _ (List.mem_map_of_mem hmem)
        have hterms := terms_of_version hinv hversion hrow
        exact absurd ((congrArg Terms.userId hterms).symm.trans huser) hother

/-- Another customer tries to cancel the lunch, while a batch runs. -/
def strangersRun : List Label :=
  whole 0 3 (.onOne neighbour 1 (.delete none)) ++ whole 1 2 (.batch 0 10)

theorem lunch_left_alone :
    ∃ w, (service sample).run (.start .legacy [lunch 1 2 1 .confirmed] 2 2) strangersRun = some w ∧
      (∀ r₀ ∈ [lunch 1 2 1 .confirmed], r₀.userId = 1 →
        ∃ r ∈ w.store.rows, r = r₀ ∨ NamesFilled r₀ r) ∧
      ∀ r ∈ w.store.rows, r.userId = 1 →
        ∃ r₀ ∈ [lunch 1 2 1 .confirmed], r = r₀ ∨ NamesFilled r₀ r := by
  obtain ⟨w, hw⟩ : ∃ w, (service sample).run
      (.start .legacy [lunch 1 2 1 .confirmed] 2 2) strangersRun = some w :=
    Option.isSome_iff_exists.mp (by decide)
  refine ⟨w, hw, strangers_leave_alone lunch_ready
    (Machine.Reach.of_labels (fun l hl s req hreq => ?_) hw)⟩
  subst hreq
  have : req = .onOne neighbour 1 (.delete none) ∨ req = .batch 0 10 := by
    simpa [strangersRun, whole] using hl
  rcases this with rfl | rfl
  · exact ⟨rfl, by decide⟩
  · trivial

end Reachable

end TableFlow
