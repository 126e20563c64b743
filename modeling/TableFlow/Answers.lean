/-
  What requests are answered, and when the answer is a 500.

  1. **One stretch** (`Breaks`): the situations in which a reservation request is answered 500.
     There are four kinds of them:
       - the driver raises its `DataError`: an id beyond `bigint` or a name with U+0000 is not sent,
         and a row with an instant that is no `datetime` is not loaded;
       - the exclusion constraint fails for a PATCH: `_commit_versioned` catches `StaleDataError`
         only, while `create_reservation` maps the same `IntegrityError` to 409;
       - the phase is read again when the answer is built, and by then it reads other columns than
         the SELECT has loaded, or a `guest_name` that is NULL (`Answerable`);
       - the request is the victim of a deadlock.
     `act_status` says that these are all: any other answer has a documented status.

  2. **Whole runs**: every answer is a documented one along a run exactly when no step of the run
     is in one of the situations, for all reservation requests (`answers_documented_iff`) and for
     edits, where a failed edit moreover leaves no trace (`edits_answered_iff`).
-/
import TableFlow.Waiting

namespace TableFlow

open Lib

/-! ## Documented answers -/

/-- PATCH and DELETE. -/
def Request.isEdit : Request → Bool
  | .onOne _ _ (.patch _ _) | .onOne _ _ (.delete _) => true
  | _ => false

/-- The success and the 4xx codes of each request. -/
def Request.documented : Request → List Nat
  | .post _ _ => [201, 400, 404, 409]
  | .onOne _ _ .get => [200, 403, 404]
  | .onOne _ _ _ => [200, 403, 404, 409, 412, 428]
  | .list _ _ => [200]
  | .put _ => [200, 409]
  | .batch _ _ => [200]

theorem documented_of_edit (user : User) (id : Nat) {op : Op} {p : Phase} {ed : Edit}
    (h : op.edit p = some ed) :
    (Request.onOne user id op).documented = [200, 403, 404, 409, 412, 428] := by
  cases op with
  | get => exact absurd h (by simp [Op.edit])
  | patch ifMatch body => rfl
  | delete ifMatch => rfl

/-- The row was loaded with the columns that phase `p` reads, and has the name it reads. -/
def Answerable (p : Phase) (l : Loaded) : Prop :=
  l.columns = readColumns p ∧ (p.readsGuestName = true → l.row.guestName ≠ none)

/-- A SELECT has loaded the columns of some phase: if they include those of `p`, they are those
    of `p`. -/
theorem readable_iff_answerable {env : Env} {p : Phase} {l : Loaded} (hl : Columns env l.columns) :
    Readable p l ↔ Answerable p l := by
  refine and_congr_left fun _ => ?_
  obtain ⟨q, -, hq⟩ := hl
  rw [hq]
  cases p <;> cases q <;> simp [readColumns]

/-! ## One stretch -/

/-- The committed row `id` cannot be loaded: its window has an instant that is no `datetime`. -/
def Unloadable (w : World) (id : Nat) : Prop :=
  ∃ r, Store.lookup reservations w.store.rows id = some r ∧ loads r = false

/-- The next stretch of task `i` ends it with a 500. -/
def Breaks (env : Env) (w : World) (i : Nat) : Request → Stage → Prop
  | .post _ body, .arrived => fitsBigint body.restaurantTableId = false
  | .post _ _, .inserting r => sendsNames r = false
  | .onOne _ id _, .selecting _ => fitsBigint id = false ∨ Unloadable w id
  | .onOne user _ .get, .loaded row => ∃ l, loadOwned user row = .ok l ∧ ¬ Answerable w.phase l
  | .onOne user _ op, .loaded row => ∃ l, loadOwned user row = .ok l ∧ ∃ ed,
      op.edit w.phase = some ed ∧ checkIfMatch l.row.version ed.ifMatch ed.required = none ∧
      (ed.changes.net l).sendable = false
  | .onOne _ _ _, .checking id _ => ∃ d, w.draft i id = some d ∧
      w.store.blocked reservations d = false ∧ w.store.violated reservations d = true
  | .post _ _, .reloading id _ | .onOne _ _ _, .reloading id _ => Unloadable w id
  | .post _ _, .reloaded row | .onOne _ _ _, .reloaded row =>
    ∃ l, row = some l ∧ ¬ Answerable w.phase l
  | .list user limit, .listing cs =>
    ∃ x ∈ selectMyBookings env cs w.store.rows user.id limit, loads x.1.row = false
  | .list _ _, .listed rows => ∃ x ∈ rows, ¬ Answerable w.phase x.1
  | _, _ => False

section Stretch

variable {env : Env} {init : List Reservation} {w : World} {i : Nat}

/-- **The table takes every UPDATE of the service**, as far as the row itself goes. -/
theorem updateError_eq_none (h : Inv env init w) {req : Request} {l : Loaded} {ch : Changes}
    (hs : StageOk env init w i req (.updating l ch)) {r : Reservation}
    (hr : Store.lookup reservations w.store.rows l.row.id = some r) (v : Nat) :
    updateError env.schema ch (ch.apply r v) = none := by
  obtain ⟨-, user, op, p, ed, -, hp, hop, -, -, rfl⟩ := hs
  obtain ⟨hvalid, hcols⟩ := edit_valid hop
  have hrow : RowOk env.schema ((ed.changes.net l).apply r v) :=
    (hvalid.net l).apply_ok (h.rowsOk r (Store.lookup_some hr).1) v
  unfold updateError
  rw [rowError_eq_none.mpr hrow, Option.or_none]
  refine undefinedColumn_eq_none fun c hc => hp.columns c (List.mem_append_left _ ?_)
  obtain ⟨a, ha, rfl⟩ := List.mem_map.mp hc
  exact hcols a (List.mem_filter.mp ha).1

/-- A new reservation that is refused has a name that is not sent. -/
theorem insertError_eq_some {schema : Schema} {p : Phase} (hp : Fits schema p) {user : User}
    {body : ReservationCreate} {e : DbError}
    (h : insertError schema (newReservation p user body) = some e) :
    sendsNames (newReservation p user body) = false ∧ e = .dataError := by
  rw [insertError_eq hp] at h
  split at h
  · next hsend => exact ⟨hsend, (Option.some.inj h).symm⟩
  · exact absurd h (by simp)

theorem sends_of_insertError {schema : Schema} {r : Reservation} (h : insertError schema r = none) :
    sendsNames r = true := by
  unfold insertError at h
  split at h
  · exact absurd h (by simp)
  · next hsend => simpa using hsend

/-- A SELECT finds no row that cannot be loaded exactly when it does not fail for one. -/
theorem not_unloadable_iff {id : Nat} : ¬ Unloadable w id ↔ loadError w.store.rows id = none := by
  rw [loadError_eq_none]
  exact ⟨fun h r hr => Bool.not_eq_false _ ▸ fun hl => h ⟨r, hr, hl⟩,
    fun h ⟨r, hr, hl⟩ => by rw [h r hr] at hl; exact absurd hl (by decide)⟩

/-- An answer built from a loaded row is the success or a 500. -/
theorem status_respond {p : Phase} {l : Loaded} (hl : Columns env l.columns) (status : Nat) :
    (Answerable p l → (respond p status l).status = status) ∧
      (¬ Answerable p l → (respond p status l).status = 500) := by
  rw [← readable_iff_answerable hl]
  refine ⟨fun h => respond_status h status, fun h => ?_⟩
  unfold respond
  cases ho : toOut p l with
  | ok o => exact absurd (toOut_ok_iff.mp ⟨o, ho⟩) h
  | error e => rfl

theorem status_respondList {p : Phase} {rows : List (Loaded × Text)}
    (hl : ∀ x ∈ rows, Columns env x.1.columns) :
    ((∀ x ∈ rows, Answerable p x.1) → (respondList p rows).status = 200) ∧
      ((∃ x ∈ rows, ¬ Answerable p x.1) → (respondList p rows).status = 500) := by
  have hiff : (∀ x ∈ rows, Readable p x.1) ↔ ∀ x ∈ rows, Answerable p x.1 :=
    forall₂_congr fun x hx => readable_iff_answerable (hl x hx)
  constructor
  · intro h
    obtain ⟨items, hitems⟩ := respondList_listed_iff.mpr (hiff.mpr h)
    rw [hitems]
    rfl
  · rintro ⟨x, hx, hbad⟩
    exact status_respondList_failed fun h => hbad (hiff.mp h x hx)

/-- A row that was loaded was loaded with the columns of some phase. -/
theorem loaded_columns {req : Request} {row : Option Loaded} {l : Loaded}
    (hs : StageOk env init w i req (.loaded row)) (hl : row = some l) : Columns env l.columns :=
  (hs l hl).1.1

/-- What a stretch answers: a 500 in the situations of `Breaks`, and a documented status in all
    others. -/
def AnswersOk (env : Env) (w : World) (i : Nat) (req : Request) (st₀ st : Stage) : Prop :=
  (Breaks env w i req st₀ → ∃ a, st = .done a ∧ a.status = 500) ∧
    (¬ Breaks env w i req st₀ → ∀ a, st = .done a → a.status ∈ req.documented)

section Exits

variable {req : Request} {st₀ : Stage}

/-- The request goes on. -/
theorem AnswersOk.goes {st : Stage} (hb : ¬ Breaks env w i req st₀) (hnd : ∀ a, st ≠ .done a) :
    AnswersOk env w i req st₀ st :=
  ⟨fun hb' => absurd hb' hb, fun _ a ha => absurd ha (hnd a)⟩

/-- It ends with a documented answer. -/
theorem AnswersOk.ends {b : Answer} (hb : ¬ Breaks env w i req st₀) (hmem : b.status ∈ req.documented) :
    AnswersOk env w i req st₀ (.done b) :=
  ⟨fun hb' => absurd hb' hb, fun _ _ ha => Stage.done.inj ha ▸ hmem⟩

/-- It fails. -/
theorem AnswersOk.fails {b : Answer} (hb : Breaks env w i req st₀) (h500 : b.status = 500) :
    AnswersOk env w i req st₀ (.done b) :=
  ⟨fun _ => ⟨_, rfl, h500⟩, fun hnb => absurd hb hnb⟩

end Exits

/-- A PATCH or DELETE that has its row fails for a name only that it is about to send. -/
theorem breaks_edit_iff {user : User} {id : Nat} {op : Op} {ed : Edit} {row : Option Loaded}
    {l : Loaded} (hl : loadOwned user row = .ok l) (hop : op.edit w.phase = some ed) :
    Breaks env w i (.onOne user id op) (.loaded row) ↔
      checkIfMatch l.row.version ed.ifMatch ed.required = none ∧
        (ed.changes.net l).sendable = false := by
  have key : (∃ l, loadOwned user row = .ok l ∧ ∃ ed, op.edit w.phase = some ed ∧
      checkIfMatch l.row.version ed.ifMatch ed.required = none ∧
        (ed.changes.net l).sendable = false) ↔
      checkIfMatch l.row.version ed.ifMatch ed.required = none ∧
        (ed.changes.net l).sendable = false := by
    constructor
    · rintro ⟨l', hl', ed', hop', hbad⟩
      obtain rfl := Except.ok.inj (hl.symm.trans hl')
      obtain rfl := Option.some.inj (hop.symm.trans hop')
      exact hbad
    · exact fun hbad => ⟨l, hl, ed, hop, hbad⟩
  cases op with
  | get => exact absurd hop (by simp [Op.edit])
  | patch _ _ => exact key
  | delete _ => exact key

theorem refuseLoad_answersOk {user : User} {id : Nat} {op : Op} {row : Option Loaded}
    {e : HTTPException} (he : loadOwned user row = .error e) :
    AnswersOk env w i (.onOne user id op) (.loaded row) (.done (.refused e)) := by
  refine .ends (fun hb => ?_) ?_
  · cases op with
    | get =>
      obtain ⟨l, hl, -⟩ := hb
      rw [he] at hl
      exact absurd hl (by simp)
    | patch _ _ =>
      obtain ⟨l, hl, -⟩ := hb
      rw [he] at hl
      exact absurd hl (by simp)
    | delete _ =>
      obtain ⟨l, hl, -⟩ := hb
      rw [he] at hl
      exact absurd hl (by simp)
  · rcases loadOwned_error he with h4 | h4 <;>
      cases op <;> simp [Request.documented, Answer.status, h4]

theorem respondGet_answersOk {user : User} {id : Nat} {op : Op} {row : Option Loaded} {l : Loaded}
    (hs : StageOk env init w i (.onOne user id op) (.loaded row))
    (hl : loadOwned user row = .ok l) (hop : op.edit w.phase = none) :
    AnswersOk env w i (.onOne user id op) (.loaded row) (.done (respond w.phase 200 l)) := by
  cases op with
  | get =>
    obtain ⟨hok, hbad⟩ := status_respond (p := w.phase) (loaded_columns hs (loadOwned_ok hl)) 200
    by_cases hans : Answerable w.phase l
    · refine .ends ?_ (by rw [hok hans]; exact List.mem_cons_self ..)
      rintro ⟨l', hl', hno⟩
      obtain rfl := Except.ok.inj (hl.symm.trans hl')
      exact hno hans
    · exact .fails ⟨l, hl, hans⟩ (hbad hans)
  | patch _ _ => exact absurd hop (by simp [Op.edit])
  | delete _ => exact absurd hop (by simp [Op.edit])

theorem violated_answersOk {req : Request} (hapi : req.isApi = true) {id : Nat}
    {todo : List (Nat × Text × Text)} {d : Draft Reservation}
    (hwrites : ∀ d ∈ w.store.drafts, d.owner = i → Made env req d.before d.row)
    (hd : w.draft i id = some d) (hb : w.store.blocked reservations d = false)
    (hv : w.store.violated reservations d = true) :
    AnswersOk env w i req (.checking id todo) (.done (dbAnswer req .exclusionViolation)) := by
  cases req with
  | post user body => exact .ends (fun hb => hb) (show 409 ∈ [201, 400, 404, 409] by decide)
  | onOne user id op => exact .fails ⟨d, hd, hb, hv⟩ rfl
  | list user limit =>
    obtain ⟨hmem, ho, -⟩ := draft_some hd
    exact absurd (hwrites d hmem ho) (fun x => x)
  | put target => exact absurd hapi (by simp [Request.isApi])
  | batch lastId size => exact absurd hapi (by simp [Request.isApi])

theorem pass_answersOk {req : Request} {id : Nat} {todo : List (Nat × Text × Text)}
    {d : Draft Reservation} (hd : w.draft i id = some d)
    (hv : w.store.violated reservations d = false) :
    AnswersOk env w i req (.checking id todo) (req.afterCheck id todo) := by
  refine .goes (fun hbr => ?_) (fun a => ?_)
  · cases req with
    | onOne user id op =>
      obtain ⟨d', hd', -, hv'⟩ := hbr
      obtain rfl := Option.some.inj (hd.symm.trans hd')
      rw [hv] at hv'
      exact absurd hv' (by simp)
    | _ => exact hbr
  · unfold Request.afterCheck
    split <;> simp

theorem respondSaved_answersOk {req : Request} (hreq : req.onReservation = true) {l : Loaded}
    (hs : StageOk env init w i req (.reloaded (some l))) :
    AnswersOk env w i req (.reloaded (some l)) (.done (respond w.phase req.okStatus l)) := by
  obtain ⟨l', hl', hload⟩ := hs
  obtain rfl := Option.some.inj hl'
  obtain ⟨hok, hbad⟩ := status_respond (p := w.phase) hload.1 req.okStatus
  have hiff : Breaks env w i req (.reloaded (some l)) ↔ ¬ Answerable w.phase l := by
    cases req with
    | post _ _ => simp [Breaks]
    | onOne _ _ _ => simp [Breaks]
    | _ => exact absurd hreq (by simp [Request.onReservation])
  by_cases hans : Answerable w.phase l
  · refine .ends (fun hb => hiff.mp hb hans) ?_
    rw [hok hans]
    cases req with
    | post _ _ => exact List.mem_cons_self ..
    | onOne _ _ op => cases op <;> exact List.mem_cons_self ..
    | _ => exact absurd hreq (by simp [Request.onReservation])
  · exact .fails (hiff.mpr hans) (hbad hans)

theorem listRespond_answersOk {user : User} {limit : Nat} {rows : List (Loaded × Text)}
    (hs : StageOk env init w i (.list user limit) (.listed rows)) :
    AnswersOk env w i (.list user limit) (.listed rows) (.done (respondList w.phase rows)) := by
  obtain ⟨hok, hbad⟩ := status_respondList (p := w.phase) hs
  by_cases hans : ∀ x ∈ rows, Answerable w.phase x.1
  · refine .ends ?_ (by rw [hok hans]; exact List.mem_cons_self ..)
    rintro ⟨x, hx, hno⟩
    exact hno (hans x hx)
  · have hex : ∃ x ∈ rows, ¬ Answerable w.phase x.1 := by
      simpa using hans
    exact .fails hex (hbad hex)

/-- **What a stretch answers.** -/
theorem act_status (h : Inv env init w) {t : Task} (ht : w.tasks[i]? = some t)
    (hapi : t.request.isApi = true) {e : Effect} {st : Stage}
    (ha : Act env w i t.request t.stage e st) : AnswersOk env w i t.request t.stage st := by
  have hs := h.stages i t ht
  have hwrites : ∀ d ∈ w.store.drafts, d.owner = i → Made env t.request d.before d.row :=
    fun d hd ho => (h.writes ht hd ho).1
  obtain ⟨req, st₀⟩ := t
  cases ha with
  | badTableId hid => exact .fails hid rfl
  | noTable hid _ => exact .goes (by simp [Breaks, hid]) (by simp)
  | lockTable hid _ _ => exact .goes (by simp [Breaks, hid]) (by simp)
  | refuseBooking he =>
    refine .ends (fun hb => hb) ?_
    rcases bookingChecks_error he with h4 | h4
    · simp [Request.documented, Answer.status, h4]
    · simp [Request.documented, Answer.status, h4]
  | prepare _ => exact .goes (fun hb => hb) (by simp)
  | insertFails he =>
    obtain ⟨-, user', body', p, -, hp, rfl⟩ := hs
    obtain ⟨hbad, rfl⟩ := insertError_eq_some hp he
    exact .fails hbad rfl
  | insert he => exact .goes (by simp [Breaks, sends_of_insertError he]) (by simp)
  | select => exact .goes (fun hb => hb) (by simp)
  | @selectFails user id op cs e he =>
    obtain ⟨p, hp, rfl⟩ := hs
    refine .fails ?_ rfl
    by_contra hno
    obtain ⟨hid, hload⟩ := not_or.mp hno
    rw [selectError_eq hp _ (Bool.not_eq_false _ ▸ hid), not_unloadable_iff.mp hload] at he
    exact absurd he (by simp)
  | @selectRow user id op cs he =>
    obtain ⟨p, hp, rfl⟩ := hs
    refine .goes (fun hb => ?_) (by simp)
    rcases hb with hid | hload
    · rw [selectError, if_pos hid] at he
      exact absurd he (by simp)
    · refine not_unloadable_iff.mpr ?_ hload
      unfold selectError at he
      split at he
      · exact absurd he (by simp)
      · rwa [reloadError_eq hp] at he
  | refuseLoad he => exact refuseLoad_answersOk he
  | respondGet hl hop => exact respondGet_answersOk hs hl hop
  | @refuseVersion user id op row l ed e hl hop hm =>
    refine .ends (fun hb => ?_) ?_
    · rw [((breaks_edit_iff hl hop).mp hb).1] at hm
      exact absurd hm (by simp)
    rw [documented_of_edit user id hop]
    rcases checkIfMatch_status hm with ⟨h4, -⟩ | h4 <;> simp [Answer.status, h4]
  | noChange hl hop _ hn =>
    refine .goes (fun hb => ?_) (by simp)
    have hsend := ((breaks_edit_iff hl hop).mp hb).2
    rw [sendable_of_isEmpty hn] at hsend
    exact absurd hsend (by simp)
  | unsendable hl hop hm _ hsend => exact .fails ((breaks_edit_iff hl hop).mpr ⟨hm, hsend⟩) rfl
  | change hl hop _ _ hsend =>
    refine .goes (fun hb => ?_) (by simp)
    rw [((breaks_edit_iff hl hop).mp hb).2] at hsend
    exact absurd hsend (by simp)
  | staleRow _ _ =>
    obtain ⟨-, user', op', p, ed, hreq, -, hop, -⟩ := hs
    obtain ⟨-, -, rfl⟩ := Request.onOne.inj hreq
    refine .ends (fun hb => hb) ?_
    rw [documented_of_edit _ _ hop]
    decide
  | updateFails _ hr _ he =>
    rw [updateError_eq_none h hs hr] at he
    exact absurd he (by simp)
  | update _ _ _ _ => exact .goes (fun hb => hb) (by simp)
  | violated hd hb hv => exact violated_answersOk hapi hwrites hd hb hv
  | pass hd _ hv => exact pass_answersOk hd hv
  | @commit req id hreq => exact .goes (fun hb => by cases req <;> exact hb) (by simp)
  | @reload req id hreq => exact .goes (fun hb => by cases req <;> exact hb) (by simp)
  | @reloadFails req id cs e hreq he =>
    obtain ⟨-, p, hp, rfl⟩ := hs
    rw [reloadError_eq hp] at he
    obtain ⟨-, r, hr, hl⟩ := loadError_eq_some he
    refine .fails ?_ rfl
    cases req with
    | post _ _ => exact ⟨r, hr, hl⟩
    | onOne _ _ _ => exact ⟨r, hr, hl⟩
    | _ => exact absurd hreq (by simp [Request.onReservation])
  | @reloadRow req id cs hreq he =>
    obtain ⟨-, p, hp, rfl⟩ := hs
    rw [reloadError_eq hp] at he
    refine .goes (fun hb => ?_) (by simp)
    cases req with
    | post _ _ => exact not_unloadable_iff.mpr he hb
    | onOne _ _ _ => exact not_unloadable_iff.mpr he hb
    | _ => exact absurd hreq (by simp [Request.onReservation])
  | noRow _ =>
    obtain ⟨l, hl, -⟩ := hs
    exact absurd hl (by simp)
  | respondSaved hreq => exact respondSaved_answersOk hreq hs
  | listSelect => exact .goes (fun hb => hb) (by simp)
  | listFails he =>
    obtain ⟨p, hp, rfl⟩ := hs
    refine .fails ?_ rfl
    by_contra hno
    rw [(listError_eq_none hp).mpr fun x hx => Bool.not_eq_false _ ▸ fun hl => hno ⟨x, hx, hl⟩] at he
    exact absurd he (by simp)
  | listRows he =>
    obtain ⟨p, hp, rfl⟩ := hs
    refine .goes (fun hb => ?_) (by simp)
    obtain ⟨x, hx, hl⟩ := hb
    rw [(listError_eq_none hp).mp he x hx] at hl
    exact absurd hl (by simp)
  | listRespond => exact listRespond_answersOk hs
  | _ => exact absurd hapi (by simp [Request.isApi])

end Stretch

/-! ## One step -/

/-- The step is one that a request of the kind `q` is answered 500 by. -/
def BreaksOff (env : Env) (q : Request → Bool) (w : World) : Label → Prop
  | .arrive _ => False
  | .step i => ∃ t, w.tasks[i]? = some t ∧ q t.request = true ∧ Breaks env w i t.request t.stage
  | .victim [] => False
  | .victim (i :: _) => ∃ t, w.tasks[i]? = some t ∧ q t.request = true

section OneStep

variable {env : Env} {init : List Reservation} {w w' : World} {l : Label}

/-- **Where an answer comes from**: it was there, it ends a stretch, or it is a deadlock's. -/
theorem answer_cases (hst : (service env).step w l = some w') {j : Nat} {t : Task}
    (ht : w'.tasks[j]? = some t) {a : Answer} (ha : t.stage = .done a) :
    w.tasks[j]? = some t ∨
      (∃ t₀ e, l = .step j ∧ w.tasks[j]? = some t₀ ∧ t₀.request = t.request ∧
        Act env w j t₀.request t₀.stage e (.done a) ∧ w'.store = (w.apply j e).store) ∨
      ∃ rest t₀, l = .victim (j :: rest) ∧ w.tasks[j]? = some t₀ ∧ t₀.request = t.request := by
  cases step_cases hst with
  | arrive req =>
    rcases slot_of_concat ht with ht | ⟨-, rfl⟩
    · exact Or.inl ht
    · exact absurd ha (by simp)
  | @act i t₀ e st ht₀ hact _ =>
    rcases task_of_advance ht with ⟨rfl, rfl⟩ | ⟨-, ht⟩
    · obtain rfl : st = .done a := ha
      exact Or.inr (Or.inl ⟨t₀, e, rfl, ht₀, rfl, hact, rfl⟩)
    · exact Or.inl ht
  | @victim i rest t₀ ht₀ hc =>
    rcases task_of_advance ht with ⟨rfl, rfl⟩ | ⟨-, ht⟩
    · exact Or.inr (Or.inr ⟨rest, t₀, rfl, ht₀, rfl⟩)
    · exact Or.inl ht

/-- **A step of that kind ends its request with a 500.** -/
theorem breaksOff_500 (h : Inv env init w) {q : Request → Bool}
    (hq : ∀ req, q req = true → req.isApi = true) (hb : BreaksOff env q w l)
    (hst : (service env).step w l = some w') :
    ∃ (j : Nat) (t : Task) (a : Answer), w'.tasks[j]? = some t ∧ q t.request = true ∧
      t.stage = .done a ∧ a.status = 500 := by
  cases step_cases hst with
  | arrive req => exact absurd hb (fun x => x)
  | @act i t e st ht ha _ =>
    obtain ⟨t', ht', hqt, hbr⟩ := hb
    obtain rfl := Option.some.inj (ht.symm.trans ht')
    obtain ⟨a, rfl, h500⟩ := (act_status h ht (hq _ hqt) ha).1 hbr
    exact ⟨i, _, a, advance_task_self ht, hqt, rfl, h500⟩
  | @victim i rest t ht hc =>
    obtain ⟨t', ht', hqt⟩ := hb
    obtain rfl := Option.some.inj (ht.symm.trans ht')
    exact ⟨i, _, deadlock, advance_task_self ht, hqt, rfl, rfl⟩

/-- **Any other step answers as documented.** -/
theorem answered_documented (h : Inv env init w) {q : Request → Bool}
    (hq : ∀ req, q req = true → req.isApi = true) (hnb : ¬ BreaksOff env q w l)
    (hst : (service env).step w l = some w') {j : Nat} {t : Task} (ht : w'.tasks[j]? = some t)
    (hqt : q t.request = true) {a : Answer} (ha : t.stage = .done a) :
    w.tasks[j]? = some t ∨
      (∃ t₀ e, l = .step j ∧ w.tasks[j]? = some t₀ ∧ t₀.request = t.request ∧
        ¬ Breaks env w j t₀.request t₀.stage ∧
        Act env w j t₀.request t₀.stage e (.done a) ∧ w'.store = (w.apply j e).store) ∧
      a.status ∈ t.request.documented := by
  rcases answer_cases hst ht ha with
    hold | ⟨t₀, e, rfl, ht₀, hreq, hact, hstore⟩ | ⟨rest, t₀, rfl, ht₀, hreq⟩
  · exact Or.inl hold
  · rw [← hreq] at hqt ⊢
    have hno : ¬ Breaks env w j t₀.request t₀.stage := fun hb => hnb ⟨t₀, ht₀, hqt, hb⟩
    exact Or.inr ⟨⟨t₀, e, rfl, ht₀, rfl, hno, hact, hstore⟩,
      (act_status h ht₀ (hq _ hqt) hact).2 hno a rfl⟩
  · exact absurd ⟨t₀, ht₀, hreq ▸ hqt⟩ hnb

end OneStep

/-! ## All requests -/

/-- Every reservation request that is answered has got a documented status. -/
def AnswersDocumented (w : World) : Prop :=
  ∀ (j : Nat) (t : Task), w.tasks[j]? = some t → t.request.isApi = true →
    ∀ a, t.stage = .done a → a.status ∈ t.request.documented

theorem not_documented_500 {req : Request} : 500 ∉ req.documented := by
  cases req with
  | onOne user id op => cases op <;> simp [Request.documented]
  | _ => simp [Request.documented]

section Runs

variable {env : Env} {phase : Phase} {rows : List Reservation} {nextId clock : Nat}

/-- **Along a run, every answer is a documented one exactly when no step breaks a request off.** -/
theorem answers_documented_iff (hready : Ready env phase rows nextId clock) (ls : List Label) :
    (service env).AllStates AnswersDocumented (.start phase rows nextId clock) ls ↔
      (service env).AllSteps (fun w l => ¬ BreaksOff env Request.isApi w l)
        (.start phase rows nextId clock) ls := by
  refine Machine.allStates_iff_allSteps (A := fun _ => True) (J := Inv env rows) ?_ ?_ ls _
    (fun _ _ => trivial) hready.inv fun j t ht => absurd ht (by simp [World.start])
  · intro w l w' _ h hP hC hst
    refine ⟨h.step hst, fun j t ht hapi a ha => ?_⟩
    rcases answered_documented h (fun _ hq => hq) hC hst ht hapi ha with hold | ⟨-, hdoc⟩
    · exact hP j t hold hapi a ha
    · exact hdoc
  · intro w l w' _ h _ hC hst hP'
    obtain ⟨j, t, a, ht, hapi, ha, h500⟩ :=
      breaksOff_500 h (fun _ hq => hq) (not_not.mp hC) hst
    have hdoc := hP' j t ht hapi a ha
    rw [h500] at hdoc
    exact not_documented_500 hdoc

end Runs

/-- A GET has chosen its columns in dual_write; the phase is switched to read_new while its SELECT
    is on the way. -/
def switchRun : List Label :=
  whole 0 8 (.post customer lunchForTwo) ++
  whole 1 1 (.onOne customer 1 .get) ++ whole 2 4 (.put .readNew) ++ [.step 1, .step 1]

/-- A 500 found by looking through the tasks. -/
theorem find_500 {w : World} {q : Request → Bool}
    (h : (w.tasks.any fun t => q t.request && t.answered 500) = true) :
    ∃ (j : Nat) (t : Task) (a : Answer), w.tasks[j]? = some t ∧ q t.request = true ∧
      t.stage = .done a ∧ a.status = 500 := by
  obtain ⟨t, ht, h⟩ := List.any_eq_true.mp h
  obtain ⟨hq, h500⟩ := Bool.and_eq_true_iff.mp h
  obtain ⟨j, hj⟩ := List.mem_iff_getElem?.mp ht
  have hst : t.status = some 500 := eq_of_beq h500
  obtain ⟨a, ha⟩ := done_of_status (by rw [hst]; rfl)
  rw [answered_of_done ha] at h500
  exact ⟨j, t, a, hj, hq, ha, eq_of_beq h500⟩

theorem switchRun_500 {w : World}
    (hw : (service sample).run (.start .dualWrite [] 1 1) switchRun = some w) :
    ¬ AnswersDocumented w := by
  intro hdoc
  obtain ⟨j, t, a, ht, hapi, ha, h500⟩ := find_500 (q := Request.isApi)
    ((service sample).run_eval (fun w => w.tasks.any fun t => t.request.isApi && t.answered 500) hw
      (by decide))
  have := hdoc j t ht hapi a ha
  rw [h500] at this
  exact not_documented_500 this

/-- **The phase switch breaks the GET off**: it is answered 500. -/
theorem switch_breaks_get : ¬ ∀ (env : Env) (phase : Phase) (rows : List Reservation)
    (nextId clock : Nat), env.revision = .r0003 → Ready env phase rows nextId clock →
    ∀ w, (service env).Reach (fun _ _ => True) (.start phase rows nextId clock) w →
      AnswersDocumented w := by
  intro h
  obtain ⟨w, hw⟩ : ∃ w, (service sample).run (.start .dualWrite [] 1 1) switchRun = some w :=
    Option.isSome_iff_exists.mp (by decide)
  exact switchRun_500 hw (h sample .dualWrite [] 1 1 rfl (sample_ready _) w (Machine.Reach.of_run hw))

/-- A step of that run meets the GET at the wrong moment. -/
theorem switch_meets_get :
    ¬ (service sample).AllSteps (fun w l => ¬ BreaksOff sample Request.isApi w l)
      (.start .dualWrite [] 1 1) switchRun := by
  intro hall
  obtain ⟨w, hw⟩ : ∃ w, (service sample).run (.start .dualWrite [] 1 1) switchRun = some w :=
    Option.isSome_iff_exists.mp (by decide)
  exact switchRun_500 hw (((answers_documented_iff (sample_ready _) switchRun).mpr hall).last hw)

/-! ## Edits -/

/-- What the API documents for edits, and nothing of an edit that is not answered 200 is left in
    the history of the table. -/
def EditsAnswered (w : World) : Prop :=
  ∀ (j : Nat) (t : Task), w.tasks[j]? = some t → t.request.isEdit = true →
    ∀ a, t.stage = .done a → a.status ∈ [200, 403, 404, 409, 412, 428] ∧
      (a.status ≠ 200 → ∀ e ∈ w.store.history, e.owner ≠ j)

/-- Before its commit a request has changed nothing. -/
def Stage.afterCommit : Stage → Bool
  | .saved _ | .reloading _ _ | .reloaded _ | .done _ => true
  | _ => false

/-- The history holds nothing of an edit that has not committed yet. -/
def Untouched (w : World) : Prop :=
  ∀ (j : Nat) (t : Task), w.tasks[j]? = some t → t.request.isEdit = true →
    t.stage.afterCommit = false → ∀ e ∈ w.store.history, e.owner ≠ j

section Edits

variable {w w' : World} {l : Label}

theorem isApi_of_isEdit {req : Request} (h : req.isEdit = true) : req.isApi = true := by
  cases req with
  | onOne user id op => rfl
  | _ => exact absurd h (by simp [Request.isEdit])

theorem documented_of_isEdit {req : Request} (h : req.isEdit = true) :
    req.documented = [200, 403, 404, 409, 412, 428] := by
  cases req with
  | onOne user id op =>
    cases op with
    | get => exact absurd h (by simp [Request.isEdit])
    | _ => rfl
  | _ => exact absurd h (by simp [Request.isEdit])

/-- A stretch that ends before the commit started before it. -/
theorem afterCommit_act {i : Nat} {user : User} {id : Nat} {op : Op} {st st' : Stage} {e : Effect}
    (ha : Act env w i (.onOne user id op) st e st') (hst' : st'.afterCommit = false) :
    st.afterCommit = false ∧ e ≠ .commit := by
  cases ha with
  | commit _ => exact absurd hst' (by simp [Stage.afterCommit])
  | _ => first | exact ⟨rfl, by simp⟩ | exact absurd hst' (by simp [Stage.afterCommit])

/-- An edit that is answered without a 200, and not broken off, has not committed. -/
theorem afterCommit_refused {i : Nat} {user : User} {id : Nat} {op : Op} {st : Stage} {e : Effect}
    {a : Answer} {init : List Reservation} (h : Inv env init w)
    (ht : w.tasks[i]? = some ⟨.onOne user id op, st⟩)
    (hnb : ¬ Breaks env w i (.onOne user id op) st)
    (ha : Act env w i (.onOne user id op) st e (.done a)) (hne : a.status ≠ 200) :
    st.afterCommit = false ∧ e ≠ .commit := by
  have hs := h.stages i _ ht
  generalize hst' : Stage.done a = st' at ha
  cases ha with
  | reloadFails _ he =>
    obtain ⟨-, p, hp, rfl⟩ := hs
    rw [reloadError_eq hp, not_unloadable_iff.mp hnb] at he
    exact absurd he (by simp)
  | noRow _ =>
    obtain ⟨l, hl, -⟩ := hs
    exact absurd hl (by simp)
  | @respondSaved _ l _ =>
    obtain ⟨l', hl', hload⟩ := hs
    obtain rfl := Option.some.inj hl'
    have hans : Answerable w.phase l := by
      by_contra hno
      exact hnb ⟨l, rfl, hno⟩
    have h200 := (status_respond (p := w.phase) hload.1 200).1 hans
    rw [Stage.done.inj hst'] at hne
    exact absurd h200 hne
  | commit _ => exact absurd hst' (by simp)
  | _ => first | exact ⟨rfl, by simp⟩ | exact absurd hst' (by simp)

theorem history_apply {i : Nat} {e : Effect} (he : e ≠ .commit) :
    (w.apply i e).store.history = w.store.history := by
  cases e with
  | commit => exact absurd rfl he
  | _ => rfl

/-- A step adds to the history only changes of the task that moves. -/
theorem mem_history_apply {i : Nat} {e : Effect} {en : Lib.Entry Reservation}
    (hen : en ∈ (w.apply i e).store.history) : en ∈ w.store.history ∨ en.owner = i := by
  cases e with
  | commit =>
    rcases Store.mem_commit_history.mp hen with hen | ⟨d, -, ho, rfl⟩
    · exact Or.inl hen
    · exact Or.inr ho
  | _ => exact Or.inl hen

/-- A committed change stays committed. -/
theorem history_grows {i : Nat} {e : Effect} {en : Lib.Entry Reservation}
    (hen : en ∈ w.store.history) : en ∈ (w.apply i e).store.history := by
  cases e with
  | commit => exact Store.mem_commit_history.mpr (Or.inl hen)
  | _ => exact hen

/-- Once it is answered, a request adds nothing to the history. -/
theorem history_of_done (hst : (service env).step w l = some w') {j : Nat} {t : Task}
    (ht : w.tasks[j]? = some t) {a : Answer} (ha : t.stage = .done a) {en : Lib.Entry Reservation}
    (hen : en ∈ w'.store.history) (ho : en.owner = j) : en ∈ w.store.history := by
  cases step_cases hst with
  | arrive req => exact hen
  | @act i t₀ e st ht₀ hact _ =>
    rcases mem_history_apply hen with hen | hi
    · exact hen
    · obtain rfl : i = j := hi.symm.trans ho
      obtain rfl := Option.some.inj (ht₀.symm.trans ht)
      obtain ⟨req, st₀⟩ := t₀
      obtain rfl : st₀ = .done a := ha
      cases hact
  | victim _ _ => exact hen

theorem Untouched.step {init : List Reservation} (hu : Untouched w) (h : Inv env init w)
    (hst : (service env).step w l = some w') : Untouched w' := by
  intro j t ht hedit hbefore
  cases step_cases hst with
  | arrive req =>
    rcases slot_of_concat ht with ht | ⟨hj, -⟩
    · exact hu j t ht hedit hbefore
    · -- nobody with this number has made a change yet
      intro en hen ho
      obtain ⟨t', ht', -⟩ := h.made en hen
      rw [ho, hj] at ht'
      exact absurd (List.getElem?_eq_some_iff.mp ht').1 (Nat.lt_irrefl _)
  | @act i t₀ e st ht₀ ha _ =>
    intro en hen
    rcases task_of_advance ht with ⟨rfl, rfl⟩ | ⟨hne, ht⟩
    · obtain ⟨req, st₀⟩ := t₀
      cases req with
      | onOne user id op =>
        obtain ⟨hb, he⟩ := afterCommit_act ha hbefore
        have hen : en ∈ (w.apply j e).store.history := hen
        rw [history_apply he] at hen
        exact hu j _ ht₀ hedit hb en hen
      | _ => exact absurd hedit (by simp [Request.isEdit])
    · rcases mem_history_apply hen with hen | ho
      · exact hu j t ht hedit hbefore en hen
      · rw [ho]
        exact fun hi => hne hi.symm
  | @victim i rest t₀ ht₀ hc =>
    rcases task_of_advance ht with ⟨rfl, rfl⟩ | ⟨-, ht⟩
    · exact absurd hbefore (by simp [Stage.afterCommit])
    · exact hu j t ht hedit hbefore

end Edits

section Runs

variable {env : Env} {phase : Phase} {rows : List Reservation} {nextId clock : Nat}

/-- **Along a run, every edit is answered as documented, and leaves no trace unless it is answered
    200, exactly when no step breaks an edit off.** -/
theorem edits_answered_iff (hready : Ready env phase rows nextId clock) (ls : List Label) :
    (service env).AllStates EditsAnswered (.start phase rows nextId clock) ls ↔
      (service env).AllSteps (fun w l => ¬ BreaksOff env Request.isEdit w l)
        (.start phase rows nextId clock) ls := by
  refine Machine.allStates_iff_allSteps (A := fun _ => True)
    (J := fun w => Inv env rows w ∧ Untouched w) ?_ ?_ ls _ (fun _ _ => trivial)
    ⟨hready.inv, fun j t ht => absurd ht (by simp [World.start])⟩
    fun j t ht => absurd ht (by simp [World.start])
  · rintro w l w' - ⟨h, hu⟩ hP hC hst
    refine ⟨⟨h.step hst, hu.step h hst⟩, fun j t ht hedit a ha => ?_⟩
    rcases answered_documented h (fun _ hq => isApi_of_isEdit hq) hC hst ht hedit ha with
      hold | ⟨⟨t₀, e, -, ht₀, hreq, hno, hact, hstore⟩, hdoc⟩
    · obtain ⟨hdoc, htrace⟩ := hP j t hold hedit a ha
      exact ⟨hdoc, fun hne en hen ho =>
        htrace hne en (history_of_done hst hold ha hen ho) ho⟩
    · rw [documented_of_isEdit hedit] at hdoc
      refine ⟨hdoc, fun hne en hen => ?_⟩
      obtain ⟨req, st₀⟩ := t₀
      rw [← hreq] at hedit
      cases req with
      | onOne user id op =>
        obtain ⟨hb, he⟩ := afterCommit_refused h ht₀ hno hact hne
        rw [hstore, history_apply he] at hen
        exact hu j _ ht₀ hedit hb en hen
      | _ => exact absurd hedit (by simp [Request.isEdit])
  · rintro w l w' - ⟨h, -⟩ - hC hst hP'
    obtain ⟨j, t, a, ht, hedit, ha, h500⟩ :=
      breaksOff_500 h (fun _ hq => isApi_of_isEdit hq) (not_not.mp hC) hst
    have hdoc := (hP' j t ht hedit a ha).1
    rw [h500] at hdoc
    exact absurd hdoc (by decide)

end Runs

/-- A slot is booked, cancelled, and booked again; then the first booking is set back to
    confirmed. -/
def reconfirmRun : List Label :=
  whole 0 8 (.post customer lunchForTwo) ++
  whole 1 9 (.onOne customer 1 (.delete none)) ++
  whole 2 8 (.post customer lunchForFour) ++
  whole 3 5 (.onOne customer 1 (.patch (some (etag 2)) (setStatus .confirmed)))

theorem reconfirmRun_500 {w : World}
    (hw : (service sample).run (.start .legacy [] 1 1) reconfirmRun = some w) :
    ¬ EditsAnswered w := by
  intro hdoc
  obtain ⟨j, t, a, ht, hedit, ha, h500⟩ := find_500 (q := Request.isEdit)
    ((service sample).run_eval (fun w => w.tasks.any fun t => t.request.isEdit && t.answered 500) hw
      (by decide))
  have := (hdoc j t ht hedit a ha).1
  rw [h500] at this
  exact absurd this (by decide)

/-- **Setting a cancelled reservation back to confirmed** is answered 500 when its slot has been
    booked since. -/
theorem reconfirm_fails : ¬ ∀ (env : Env) (phase : Phase) (rows : List Reservation)
    (nextId clock : Nat), Ready env phase rows nextId clock →
    ∀ w, (service env).Reach (fun _ _ => True) (.start phase rows nextId clock) w →
      EditsAnswered w := by
  intro h
  obtain ⟨w, hw⟩ : ∃ w, (service sample).run (.start .legacy [] 1 1) reconfirmRun = some w :=
    Option.isSome_iff_exists.mp (by decide)
  exact reconfirmRun_500 hw (h sample .legacy [] 1 1 (sample_ready _) w (Machine.Reach.of_run hw))

/-- A step of that run finds the slot taken. -/
theorem reconfirm_meets_booking :
    ¬ (service sample).AllSteps (fun w l => ¬ BreaksOff sample Request.isEdit w l)
      (.start .legacy [] 1 1) reconfirmRun := by
  intro hall
  obtain ⟨w, hw⟩ : ∃ w, (service sample).run (.start .legacy [] 1 1) reconfirmRun = some w :=
    Option.isSome_iff_exists.mp (by decide)
  exact reconfirmRun_500 hw (((edits_answered_iff (sample_ready _) reconfirmRun).mpr hall).last hw)

end TableFlow
