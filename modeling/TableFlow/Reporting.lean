/-
  What a PATCH that changed its reservation is answered.

  `update_reservation` commits and then reads the reservation again, in a new transaction; the
  answer is built from what that second SELECT returns.

      PATCH A   .. committing, saved                       reloading, reloaded, done
      PATCH B                       loaded, .., committing

  1. **The answer to A** has A's version and A's values if A's change is still the last one of the
     reservation when the SELECT runs, and the phase gives back the name A has set (`GivesBack`).
  2. **Otherwise it has not** (`Lost`): versions grow along the changes of a reservation, so the row
     A reads is in another version than the one its own UPDATE has left.

  So along a run whose PATCHes are all answered 200, every answer reports the request's own change
  exactly when no step of the run is a SELECT of the second kind (`reports_own_iff`).
-/
import TableFlow.Steady

namespace TableFlow

open Lib

/-! ## Own changes and what is reported of them -/

/-- The phase answers with `guest_name`, or splitting and joining gives the name back. -/
def GivesBack (p : Phase) (n : Text) : Prop :=
  p.readsGuestName = true ∨ joinName (some (splitGuestName n).1) (some (splitGuestName n).2) = n

instance (p : Phase) (n : Text) : Decidable (GivesBack p n) := inferInstanceAs (Decidable (_ ∨ _))

/-- Task `i`, a PATCH of `id` with this body, is at the stage `st` and has committed `e`. -/
structure OwnChange (w : World) (i id : Nat) (body : ReservationUpdate) (e : Lib.Entry Reservation)
    (st : Stage) : Prop where
  task : ∃ user ifMatch, w.tasks[i]? = some ⟨.onOne user id (.patch ifMatch body), st⟩
  committed : e ∈ w.store.history
  owner : e.owner = i

/-- The answer is the reservation in the version that `e` made, with the values of the body. -/
def Reports (body : ReservationUpdate) (e : Lib.Entry Reservation) (a : Answer) : Prop :=
  ∃ tag out, a = .out 200 tag out ∧ tag = etag e.after.version ∧ out.version = e.after.version ∧
    (∀ n, body.guestName = some n → out.guestName = n) ∧
    (∀ k, body.partySize = some k → out.partySize = k) ∧
    ∀ s, body.status = some s → out.status = s

/-- Every PATCH that is answered 200 and has changed its reservation reports that change. -/
def ReportsOwn (w : World) : Prop :=
  ∀ i id body e a, OwnChange w i id body e (.done a) → a.status = 200 → Reports body e a

/-- No PATCH reads its reservation again after another request has committed a change of it, nor
    in a phase that does not give back the name it has set. -/
def Undisturbed (w : World) (l : Label) : Prop :=
  ∀ i id body e id' columns, l = .step i → OwnChange w i id body e (.reloading id' columns) →
    (Store.changesOf reservations id w.store.history).getLast? = some e ∧
      ∀ n, body.guestName = some n → GivesBack w.phase n

section Answer

variable {p : Phase} {user : User} {id : Nat} {ifMatch : Option Text} {body : ReservationUpdate}
  {e : Lib.Entry Reservation}

/-- The name of an answer, when the row has the name `n` in the columns the phase writes. -/
theorem toOut_guestName {r : Reservation} {n : Text} {out : ReservationOut}
    (hset : ∀ c ∈ writeColumns p, r.get c = some (nameValue n c))
    (h : toOut p ⟨r, readColumns p⟩ = .ok out) : out.guestName = n ↔ GivesBack p n := by
  have hname : responseName p ⟨r, readColumns p⟩ = .ok out.guestName := by
    unfold toOut at h
    cases hn : responseName p ⟨r, readColumns p⟩ with
    | error e => rw [hn] at h; exact absurd h (by simp [bind, Except.bind])
    | ok n => rw [hn] at h; obtain rfl := Except.ok.inj h; rfl
  have old : .guestName ∈ writeColumns p → readColumns p = [.guestName] →
      (out.guestName = n ↔ GivesBack p n) := by
    intro hw hr
    have hg : r.guestName = some n := hset _ hw
    unfold responseName at hname
    rw [hr, if_pos (by decide), loaded_get_of_mem (List.mem_singleton.mpr rfl)] at hname
    have hout : n = out.guestName := by
      simpa [Reservation.get, hg, bind, Except.bind] using hname
    exact ⟨fun _ => Or.inl (by unfold Phase.readsGuestName; rw [hr]; rfl), fun _ => hout.symm⟩
  have new : .firstName ∈ writeColumns p → .lastName ∈ writeColumns p →
      readColumns p = [.firstName, .lastName] → (out.guestName = n ↔ GivesBack p n) := by
    intro hf hl hr
    have hfirst : r.firstName = some (splitGuestName n).1 := hset _ hf
    have hlast : r.lastName = some (splitGuestName n).2 := hset _ hl
    unfold responseName at hname
    rw [hr, if_neg (by decide), loaded_get_of_mem (by simp), loaded_get_of_mem (by simp)] at hname
    have hout : joinName (some (splitGuestName n).1) (some (splitGuestName n).2)
        = out.guestName := by
      simpa [Reservation.get, hfirst, hlast, bind, Except.bind] using hname
    have hno : p.readsGuestName = false := by unfold Phase.readsGuestName; rw [hr]; rfl
    unfold GivesBack
    rw [hno, hout]
    simp
  -- a phase answers from one side only, whatever it writes
  cases p with
  | legacy => exact old (by decide) rfl
  | dualWrite => exact old (by decide) rfl
  | readNew => exact new (by decide) (by decide) rfl
  | newOnly => exact new (by decide) (by decide) rfl

/-- **A PATCH that reads back the row it has left reports its own change**, if the phase gives the
    name back. -/
theorem reports_own (hset : Sets p (.onOne user id (.patch ifMatch body)) e.after)
    (hback : ∀ n, body.guestName = some n → GivesBack p n)
    (h200 : (respond p 200 ⟨e.after, readColumns p⟩).status = 200) :
    Reports body e (respond p 200 ⟨e.after, readColumns p⟩) := by
  unfold respond at h200 ⊢
  split
  · next out hout =>
    obtain ⟨-, hversion, hparty, hstatus⟩ := toOut_row hout
    refine ⟨_, out, rfl, rfl, hversion, fun n hn => ?_, fun k hk => ?_, fun s hs => ?_⟩
    · exact (toOut_guestName (hset.name n hn) hout).mpr (hback n hn)
    · exact hparty.trans (hset.partySize k hk)
    · exact hstatus.trans (hset.status s hs)
  · next err herr =>
    rw [herr] at h200
    exact absurd h200 (by show ¬ (500 = 200); decide)

/-- What a PATCH reads if its answer reports its own change. -/
theorem version_of_reports {l : Loaded} (h : Reports body e (respond p 200 l)) :
    l.row.version = e.after.version := by
  obtain ⟨tag, out, ha, -, hversion, -⟩ := h
  exact (toOut_row (respond_out ha).1).2.1.symm.trans hversion

theorem givesBack_of_reports (hset : Sets p (.onOne user id (.patch ifMatch body)) e.after)
    (h : Reports body e (respond p 200 ⟨e.after, readColumns p⟩)) :
    ∀ n, body.guestName = some n → GivesBack p n := by
  obtain ⟨tag, out, ha, -, -, hname, -⟩ := h
  exact fun n hn => (toOut_guestName (hset.name n hn) (respond_out ha).1).mp (hname n hn)

end Answer

/-! ## One step -/

/-- What is known of every world reached without a phase change. -/
structure Known (env : Env) (init : List Reservation) (p : Phase) (w : World) : Prop where
  inv : Inv env init w
  steady : Steady p w
  about : ∀ t ∈ w.tasks, AboutRow t.request t.stage
  untouched : Untouched w

/-- Where task `i`, a PATCH that has committed its change, is after a step. -/
inductive OwnNext (w : World) (l : Label) (i : Nat) : Stage → Stage → Prop
  | stays {st} : l ≠ .step i → OwnNext w l i st st
  | fails {st a} : a.status ≠ 200 → OwnNext w l i st (.done a)
  | reload {id} : OwnNext w l i (.saved id) (.reloading id (readColumns w.phase))
  | reads {id columns} : l = .step i →
      OwnNext w l i (.reloading id columns)
        (.reloaded (selectReservations columns w.store.rows id))
  | answers {row} : OwnNext w l i (.reloaded (some row)) (.done (respond w.phase 200 row))

section Step

variable {env : Env} {init : List Reservation} {p : Phase} {w w' : World} {l : Label} {i id : Nat}
  {body : ReservationUpdate} {e : Lib.Entry Reservation} {st st' : Stage}

theorem OwnChange.stage_eq (h : OwnChange w i id body e st) (h' : OwnChange w i id body e st') :
    st = st' := by
  obtain ⟨user, ifMatch, ht⟩ := h.task
  obtain ⟨user', ifMatch', ht'⟩ := h'.task
  exact congrArg Task.stage (Option.some.inj (ht.symm.trans ht'))

theorem OwnChange.afterCommit (h : OwnChange w i id body e st) (hu : Untouched w) :
    st.afterCommit = true := by
  obtain ⟨user, ifMatch, ht⟩ := h.task
  by_contra hno
  exact hu i _ ht rfl (Bool.eq_false_iff.mpr hno) e h.committed h.owner

/-- The change of a PATCH is a change of the reservation it is about. -/
theorem OwnChange.mem_changes (h : OwnChange w i id body e st) (hinv : Inv env init w) :
    e ∈ Store.changesOf reservations id w.store.history := by
  obtain ⟨user, ifMatch, ht⟩ := h.task
  obtain ⟨t, ht', hmade⟩ := hinv.made e h.committed
  rw [h.owner] at ht'
  obtain rfl := Option.some.inj (ht.symm.trans ht')
  have hplace := hmade
  obtain ⟨b, -, -, -, -, hb, hid, -⟩ := hmade
  rw [hb] at hplace
  exact List.mem_filter.mpr ⟨h.committed, beq_iff_eq.mpr (hplace.place.1.trans hid)⟩

/-- **A PATCH that has committed its change goes on to its answer**, and to nothing else. -/
theorem OwnChange.next (h : OwnChange w i id body e st) (hu : Untouched w)
    (hst : (service env).step w l = some w') :
    ∃ st', OwnChange w' i id body e st' ∧ OwnNext w l i st st' := by
  -- after its commit a request can only reload the row and answer
  have hafter := h.afterCommit hu
  obtain ⟨⟨user, ifMatch, ht⟩, hcom, howner⟩ := h
  cases step_cases hst with
  | arrive req =>
    exact ⟨st, ⟨⟨user, ifMatch, slot_append ht _⟩, hcom, howner⟩, .stays (by simp)⟩
  | @act j t eff st' ht' ha _ =>
    by_cases hj : j = i
    · subst hj
      obtain rfl := Option.some.inj (ht'.symm.trans ht)
      refine ⟨st', ⟨⟨user, ifMatch, advance_task_self ht⟩, history_grows hcom, howner⟩, ?_⟩
      have h500 : ¬ 500 = 200 := by decide
      cases ha with
      | reload _ => exact .reload
      | reloadFails _ _ => exact .fails h500
      | reloadRow _ _ => exact .reads rfl
      | noRow _ => exact .fails h500
      | respondSaved _ => exact .answers
      | _ => exact absurd hafter (by simp [Stage.afterCommit])
    · refine ⟨st, ⟨⟨user, ifMatch, ?_⟩, history_grows hcom, howner⟩, .stays fun hl => ?_⟩
      · exact (advance_task_ne (Ne.symm hj)).trans ht
      · exact hj (Label.step.inj hl)
  | @victim j rest t ht' hc =>
    by_cases hj : j = i
    · subst hj
      obtain rfl := Option.some.inj (ht'.symm.trans ht)
      exact ⟨_, ⟨⟨user, ifMatch, advance_task_self ht⟩, hcom, howner⟩, .fails (by decide)⟩
    · exact ⟨st, ⟨⟨user, ifMatch, (advance_task_ne (Ne.symm hj)).trans ht⟩, hcom, howner⟩,
        .stays (by simp)⟩

/-- A change that is committed after a step was so before, or has just been. -/
theorem OwnChange.before (h : OwnChange w' i id body e st) (hinv : Inv env init w)
    (hst : (service env).step w l = some w') :
    (∃ id', st = .saved id') ∨ ∃ st₀, OwnChange w i id body e st₀ := by
  obtain ⟨⟨user, ifMatch, ht⟩, hcom, howner⟩ := h
  have old : e ∈ w.store.history →
      (∃ id', st = .saved id') ∨ ∃ st₀, OwnChange w i id body e st₀ := by
    intro hold
    obtain ⟨t₀, ht₀, -⟩ := hinv.made e hold
    rw [howner] at ht₀
    obtain ⟨req, st₀⟩ := t₀
    have hreq : req = .onOne user id (.patch ifMatch body) := by
      cases step_cases hst with
      | arrive req' =>
        exact congrArg Task.request (Option.some.inj ((slot_append ht₀ _).symm.trans ht))
      | act ht' _ _ =>
        obtain ⟨t'', ht'', hreq⟩ := request_before ht' ht
        rw [← Option.some.inj (ht₀.symm.trans ht'')] at hreq
        exact hreq
      | victim ht' _ =>
        obtain ⟨t'', ht'', hreq⟩ := request_before ht' ht
        rw [← Option.some.inj (ht₀.symm.trans ht'')] at hreq
        exact hreq
    subst hreq
    exact Or.inr ⟨st₀, ⟨user, ifMatch, ht₀⟩, hold, howner⟩
  cases step_cases hst with
  | arrive req => exact old hcom
  | @act j t eff st' ht' ha _ =>
    by_cases hold : e ∈ w.store.history
    · exact old hold
    · -- a change that was not there yet has been committed by this step
      obtain rfl : i = j := howner.symm.trans ((mem_history_apply hcom).resolve_left hold)
      obtain ⟨req, st₀⟩ := t
      obtain ⟨rfl, rfl⟩ := Task.mk.inj (Option.some.inj ((advance_task_self ht').symm.trans ht))
      cases eff with
      | commit => cases ha with | commit _ => exact Or.inl ⟨_, rfl⟩
      | _ => exact absurd hcom hold
  | victim ht' _ => exact old hcom

/-- The row a PATCH has read back is the one its change has left, and gives its name back. -/
def ReadsOwn (p : Phase) (body : ReservationUpdate) (e : Lib.Entry Reservation) (row : Option Loaded) :
    Prop :=
  row = some ⟨e.after, readColumns p⟩ ∧ ∀ n, body.guestName = some n → GivesBack p n

/-- Where a PATCH with a change of its own is on the way to report it. -/
def OwnAt (p : Phase) (body : ReservationUpdate) (e : Lib.Entry Reservation) : Stage → Prop
  | .reloaded row => ReadsOwn p body e row
  | .done a => a.status = 200 → Reports body e a
  | _ => True

/-- Where it is on the way to report something else. -/
def Lost (p : Phase) (body : ReservationUpdate) (e : Lib.Entry Reservation) : Stage → Prop
  | .reloaded row => ¬ ReadsOwn p body e row
  | .done a => a.status = 200 → ¬ Reports body e a
  | _ => False

/-- **The SELECT finds the change of the PATCH exactly when it is the last one.** -/
theorem reads_own_iff (hk : Known env init p w) {columns : List Column} {id' : Nat}
    (h : OwnChange w i id body e (.reloading id' columns)) :
    ReadsOwn p body e (selectReservations columns w.store.rows id') ↔
      (Store.changesOf reservations id w.store.history).getLast? = some e ∧
        ∀ n, body.guestName = some n → GivesBack w.phase n := by
  have hmem := h.mem_changes hk.inv
  obtain ⟨user, ifMatch, ht⟩ := h.task
  have ht' := List.mem_of_getElem? ht
  obtain rfl : id' = id := hk.about _ ht' user id _ rfl
  obtain rfl : columns = readColumns p := hk.steady.columns _ ht'
  unfold ReadsOwn selectReservations
  rw [hk.inv.tracked.getLast?_iff hmem, hk.steady.phase]
  refine and_congr_left fun _ => ?_
  cases hr : Store.lookup reservations w.store.rows id' with
  | none => simp
  | some r => simp

/-- **The answer reports the change exactly when the row that was read is the one it has left.** -/
theorem answers_own_iff (hk : Known env init p w) {l : Loaded}
    (h : OwnChange w i id body e (.reloaded (some l)))
    (h200 : (respond w.phase 200 l).status = 200) :
    Reports body e (respond w.phase 200 l) ↔ ReadsOwn p body e (some l) := by
  have hmem := h.mem_changes hk.inv
  obtain ⟨user, ifMatch, ht⟩ := h.task
  have ht' := List.mem_of_getElem? ht
  have hset : Sets p (.onOne user id (.patch ifMatch body)) e.after :=
    hk.steady.written.history e h.committed _ (by rw [h.owner]; exact ht)
  obtain ⟨row, columns⟩ := l
  obtain rfl : columns = readColumns p := hk.steady.columns _ ht' _ rfl
  obtain ⟨l', hl', -, hversions⟩ := hk.inv.stages i _ ht
  obtain rfl := Option.some.inj hl'
  obtain rfl : row.id = id := hk.about _ ht' user _ _ rfl _ rfl
  rw [hk.steady.phase] at h200 ⊢
  constructor
  · intro hrep
    -- the version an answer reports is the version of one row only
    have hafter : e.after ∈ Store.versionsOf reservations init w.store row.id :=
      List.mem_append_right _ (List.mem_map.mpr ⟨e, hmem, rfl⟩)
    obtain rfl : row = e.after :=
      hk.inv.tracked.version_inj hversions hafter (version_of_reports hrep)
    exact ⟨rfl, givesBack_of_reports hset hrep⟩
  · rintro ⟨hrow, hback⟩
    obtain ⟨rfl, -⟩ := Loaded.mk.inj (Option.some.inj hrow)
    exact reports_own hset hback h200

/-- **An undisturbed step leaves every PATCH on the way to report its change.** -/
theorem ownAt_step (hk : Known env init p w) (hC : Undisturbed w l)
    (hown : ∀ i id body e st, OwnChange w i id body e st → OwnAt p body e st)
    (hst : (service env).step w l = some w') (h : OwnChange w' i id body e st') :
    OwnAt p body e st' := by
  rcases h.before hk.inv hst with ⟨id', rfl⟩ | ⟨st, h₀⟩
  · trivial
  obtain ⟨st'', h'', hnext⟩ := h₀.next hk.untouched hst
  obtain rfl := h.stage_eq h''
  cases hnext with
  | stays _ => exact hown _ _ _ _ _ h₀
  | fails hne => exact fun h200 => absurd h200 hne
  | reload => trivial
  | reads hl => exact (reads_own_iff hk h₀).mpr (hC _ _ _ _ _ _ hl h₀)
  | answers => exact fun h200 => (answers_own_iff hk h₀ h200).mpr (hown _ _ _ _ _ h₀)

/-- **A disturbed step leaves a PATCH on the way to report something else.** -/
theorem lost_of_disturbed (hk : Known env init p w) (hC : ¬ Undisturbed w l)
    (hst : (service env).step w l = some w') :
    ∃ i id body e st, OwnChange w' i id body e st ∧ Lost p body e st := by
  unfold Undisturbed at hC
  push Not at hC
  obtain ⟨i, id, body, e, id', columns, hl, h, hC⟩ := hC
  obtain ⟨st', h', hnext⟩ := h.next hk.untouched hst
  refine ⟨i, id, body, e, st', h', ?_⟩
  cases hnext with
  | stays hno => exact absurd hl hno
  | fails hne => exact fun h200 => absurd h200 hne
  | reads _ =>
    intro hreads
    obtain ⟨hlast, hback⟩ := (reads_own_iff hk h).mp hreads
    obtain ⟨n, hn, hno⟩ := hC hlast
    exact hno (hback n hn)

/-- **There is no way back.** -/
theorem Lost.step (hk : Known env init p w) (hst : (service env).step w l = some w')
    (h : OwnChange w i id body e st) (hlost : Lost p body e st) :
    ∃ st', OwnChange w' i id body e st' ∧ Lost p body e st' := by
  obtain ⟨st', h', hnext⟩ := h.next hk.untouched hst
  refine ⟨st', h', ?_⟩
  cases hnext with
  | stays _ => exact hlost
  | fails hne => exact fun h200 => absurd h200 hne
  | reload => exact hlost
  | reads _ => exact absurd hlost (fun x => x)
  | answers => exact fun h200 hrep => hlost ((answers_own_iff hk h h200).mp hrep)

end Step

/-! ## Runs -/

section Runs

variable {env : Env} {p : Phase} {rows : List Reservation} {nextId clock : Nat} {w : World}

theorem known_of_reach {C : World → Label → Prop} (hC : ∀ w l, C w l → NoSwitch w l)
    (hready : Ready env p rows nextId clock)
    (hr : (service env).Reach C (.start p rows nextId clock) w) : Known env rows p w where
  inv := inv_of_reach hready hr
  steady := steady_of_reach hC hready hr
  about := aboutRow_of_reach hr
  untouched := by
    refine hr.invariant' (fun j t ht => absurd ht (by simp [World.start])) ?_
    exact fun w l w' hr h _ hst => h.step (inv_of_reach hready hr) hst

/-- **A successful edit reports its own result** when nothing comes between its commit and its
    SELECT.  Whatever requests run, in whatever order, in one phase:
    (1) if no step of a run reads a reservation again after another request has changed it, or in a
    phase that does not give the name back, then in every state reached every PATCH that is
    answered 200 and has changed its reservation reports the version of its own UPDATE and the
    values it has set;
    (2) along a run at whose end all of these PATCHes are answered 200, every answer is of that kind
    exactly when every step is. -/
theorem reports_own_iff (hready : Ready env p rows nextId clock) :
    (∀ w, (service env).Reach (fun w l => NoSwitch w l ∧ Undisturbed w l)
      (.start p rows nextId clock) w → ReportsOwn w) ∧
    ∀ ls w, (∀ l ∈ ls, ∀ target, l ≠ .arrive (.put target)) →
      (service env).run (.start p rows nextId clock) ls = some w →
      (∀ i id body e st, OwnChange w i id body e st → ∃ a, st = .done a ∧ a.status = 200) →
      ((service env).AllStates ReportsOwn (.start p rows nextId clock) ls ↔
        (service env).AllSteps Undisturbed (.start p rows nextId clock) ls) := by
  have hstart : ∀ i id body e st, OwnChange (.start p rows nextId clock) i id body e st →
      OwnAt p body e st := fun i id body e st h => absurd h.committed (List.not_mem_nil)
  have reports : ∀ {w}, (∀ i id body e st, OwnChange w i id body e st → OwnAt p body e st) →
      ReportsOwn w := fun hown i id body e a h => hown i id body e _ h
  constructor
  · intro w hr
    refine reports (hr.invariant'
      (I := fun w => ∀ i id body e st, OwnChange w i id body e st → OwnAt p body e st) hstart
      fun w l w' hr hown hC hst i id body e st h => ?_)
    exact ownAt_step (known_of_reach (fun _ _ hC => hC.1) hready hr) hC.2 hown hst h
  · intro ls w hput hrun hall
    have hreach : ∀ w l w', (∀ target, l ≠ .arrive (.put target)) →
        (service env).Reach NoSwitch (.start p rows nextId clock) w →
        (service env).step w l = some w' →
        (service env).Reach NoSwitch (.start p rows nextId clock) w' :=
      fun w l w' hl hr hst => hr.tail hl hst
    have known : ∀ {w}, (service env).Reach NoSwitch (.start p rows nextId clock) w →
        Known env rows p w := known_of_reach (fun _ _ h => h) hready
    constructor
    · intro hstates
      -- a disturbed step loses an owner's own change for good; the answer comes later, with 200
      refine (Machine.allSteps_of_not (J := (service env).Reach NoSwitch _)
        (B := fun w => ∃ i id body e st, OwnChange w i id body e st ∧ Lost p body e st)
        hreach ?_ ?_ hput .refl hrun ?_).2
      · exact fun w l w' _ hr hC hst => lost_of_disturbed (known hr) hC hst
      · rintro w l w' - hr ⟨i, id, body, e, st, h, hlost⟩ hst
        obtain ⟨st', h', hlost'⟩ := hlost.step (known hr) hst h
        exact ⟨i, id, body, e, st', h', hlost'⟩
      · rintro ⟨i, id, body, e, st, h, hlost⟩
        obtain ⟨a, rfl, h200⟩ := hall i id body e st h
        exact hlost h200 (hstates.last hrun i id body e a h h200)
    · intro hsteps
      refine (Machine.AllSteps.allStates
        (I := fun w => (service env).Reach NoSwitch (.start p rows nextId clock) w ∧
          ∀ i id body e st, OwnChange w i id body e st → OwnAt p body e st)
        ?_ hput ⟨.refl, hstart⟩ hsteps).mono fun w h => reports h.2
      rintro w l w' hl ⟨hr, hown⟩ hC hst
      exact ⟨hreach w l w' hl hr hst, fun i id body e st h => ownAt_step (known hr) hC hown hst h⟩

end Runs

/-! ## Two clients -/

/-- `Undisturbed`, as far as it is needed to follow a run. -/
def undisturbed (w : World) : Label → Bool
  | .step i =>
    match w.tasks[i]? with
    | some ⟨.onOne _ id (.patch _ body), .reloading _ _⟩ =>
      w.store.history.all fun e => e.owner != i ||
        (Store.changesOf reservations id w.store.history).getLast? == some e &&
          body.guestName.all fun n => decide (GivesBack w.phase n)
    | _ => true
  | _ => true

theorem undisturbed_sound {w : World} {l : Label} (h : undisturbed w l = true) :
    Undisturbed w l := by
  rintro i id body e id' columns rfl ⟨⟨user, ifMatch, ht⟩, hcom, howner⟩
  unfold undisturbed at h
  simp only [ht] at h
  have he := List.all_eq_true.mp h e hcom
  rw [howner, bne_self_eq_false, Bool.false_or, Bool.and_eq_true, beq_iff_eq] at he
  refine ⟨he.1, fun n hn => ?_⟩
  have hback := he.2
  rw [hn] at hback
  exact of_decide_eq_true hback

/-- The first client asks for three guests. -/
def forThree : Request := .onOne customer 1 (.patch (some (etag 1)) (setParty 3 three_guests))

/-- The second one asks for four, whatever the version is. -/
def forFour : Request := .onOne customer 1 (.patch (some ['*']) (setParty 4 four_guests))

/-- The lunch, and no requests yet. -/
def lunchAlone : World := .start .legacy [lunch 1 2 1 .confirmed] 2 2

/-- The second client's whole transaction lies between the first one's commit and its SELECT. -/
def overtakenRun : List Label :=
  whole 0 6 forThree ++ whole 1 9 forFour ++ List.replicate 3 (.step 0)

/-- Every PATCH is answered 200. -/
def allAnswered (w : World) : Bool := w.tasks.all fun t => t.answered 200

theorem answered_of_all {w : World} (h : allAnswered w = true) {i id : Nat}
    {body : ReservationUpdate} {e : Lib.Entry Reservation} {st : Stage}
    (ho : OwnChange w i id body e st) : ∃ a, st = .done a ∧ a.status = 200 := by
  obtain ⟨user, ifMatch, ht⟩ := ho.task
  have h200 := List.all_eq_true.mp h _ (List.mem_of_getElem? ht)
  obtain ⟨a, ha⟩ := done_of_status (by rw [eq_of_beq h200]; rfl)
  rw [answered_of_done ha] at h200
  exact ⟨a, ha, eq_of_beq h200⟩

/-- A client that nobody comes between is told of its own change. -/
theorem alone_reports_own :
    (service sample).AllStates ReportsOwn lunchAlone (whole 0 9 forThree) := by
  obtain ⟨w, hw⟩ : ∃ w, (service sample).run lunchAlone (whole 0 9 forThree) = some w :=
    Option.isSome_iff_exists.mp (by decide)
  have hsteps : (service sample).AllSteps (fun w l => undisturbed w l = true) lunchAlone
      (whole 0 9 forThree) := by decide
  exact ((reports_own_iff lunch_ready).2 _ w (by simp [whole, forThree]) hw fun i id body e st ho =>
      answered_of_all ((service sample).run_eval allAnswered hw (by decide)) ho).mpr
    (hsteps.mono fun _ _ => undisturbed_sound)

/-- The first task is answered with another version than the one it has made. -/
def reportsOther (w : World) : Bool :=
  match (w.tasks[0]? : Option Task) with
  | some ⟨.onOne _ _ (.patch _ _), .done (.out 200 _ out)⟩ =>
    w.store.history.any fun e => e.owner == 0 && e.after.version != out.version
  | _ => false

theorem not_reportsOwn {w : World} (h : reportsOther w = true) : ¬ ReportsOwn w := by
  intro hown
  unfold reportsOther at h
  split at h
  · next user id ifMatch body tag out ht =>
    obtain ⟨e, he, hne⟩ := List.any_eq_true.mp h
    obtain ⟨ho, hne⟩ := Bool.and_eq_true_iff.mp hne
    obtain ⟨tag', out', ha, -, hversion, -⟩ :=
      hown 0 id body e _ ⟨⟨user, ifMatch, ht⟩, he, eq_of_beq ho⟩ rfl
    obtain ⟨-, -, rfl⟩ := Answer.out.inj ha
    rw [hversion, bne_self_eq_false] at hne
    exact absurd hne (by decide)
  · exact absurd h (by decide)

/-- **The first client is told of the second one's change**: party, version and ETag. -/
theorem overtaken_reports_other : ¬ ∀ (env : Env) (p : Phase) (rows : List Reservation)
    (nextId clock : Nat), Ready env p rows nextId clock → ∀ ls w,
    (∀ l ∈ ls, ∀ req, l = .arrive req →
      ∃ user ifMatch body, req = .onOne user 1 (.patch ifMatch body)) →
    (service env).run (.start p rows nextId clock) ls = some w → ReportsOwn w := by
  intro h
  obtain ⟨w, hw⟩ : ∃ w, (service sample).run lunchAlone overtakenRun = some w :=
    Option.isSome_iff_exists.mp (by decide)
  refine not_reportsOwn ((service sample).run_eval reportsOther hw (by decide))
    (h sample .legacy _ 2 2 lunch_ready overtakenRun w ?_ hw)
  rintro l hl req rfl
  obtain rfl | rfl : req = forThree ∨ req = forFour := by
    simpa [overtakenRun, whole] using hl
  · exact ⟨_, _, _, rfl⟩
  · exact ⟨_, _, _, rfl⟩

end TableFlow
