/-
  `dual_write`: names written by requests, and names filled in by the backfill.

  A rename and a batch may both have read a row before either of them writes it.

      PATCH   selecting, loaded                                   updating -> 409 | checking, ..
      batch              arrived -> filling, checking, .., done

  1. **The copies agree** (`Consistent`) — a request that brings a name writes all three columns
     (`Sets`), a batch fills the new columns of a row it has locked with the split of the
     `guest_name` that row still has (`TodoOk`), and nothing else writes them.
  2. **The last name wins** — along the history of a row `guest_name` is the name last committed, as
     a batch keeps it.  A request that brings a name is answered with success exactly when it has
     committed a change that can be loaded again (`Settled`): in `dual_write` the new columns are not
     loaded, so a flush always assigns them, also when the name is the one the row has.  A booking
     whose reload fails (`Unread`) is committed, but no success.
  3. **A batch leaves filled rows alone** — it asks for NULL again in the UPDATE, of rows that
     nobody else can write by then.
-/
import TableFlow.PhaseGuard
import TableFlow.Rollout
import TableFlow.Steady

namespace TableFlow

open Lib

/-! ## The two copies of a name -/

/-- The new columns are not filled, or they are the split of `guest_name`. -/
def Consistent (r : Reservation) : Prop :=
  r.firstName = none ∨ r.firstName = some (splitGuestName (r.guestName.getD [])).1 ∧
    r.lastName = some (splitGuestName (r.guestName.getD [])).2

instance (r : Reservation) : Decidable (Consistent r) := inferInstanceAs (Decidable (_ ∨ _))

section Change

variable {env : Env} {req : Request} {b r : Reservation}

/-- A request that brings a name leaves it in all three columns. -/
theorem Sets.names {n : Text} (h : Sets .dualWrite req r) (hn : req.guestName = some n) :
    r.guestName = some n ∧ r.firstName = some (splitGuestName n).1 ∧
      r.lastName = some (splitGuestName n).2 :=
  ⟨h.name n hn .guestName (by decide), h.name n hn .firstName (by decide),
    h.name n hn .lastName (by decide)⟩

theorem Sets.consistent {n : Text} (h : Sets .dualWrite req r) (hn : req.guestName = some n) :
    Consistent r := by
  obtain ⟨hg, hf, hl⟩ := h.names hn
  refine Or.inr ?_
  rw [hg]
  exact ⟨hf, hl⟩

/-- **A change that brings no name** keeps the names of its row, or fills them in. -/
theorem made_unnamed (hm : Made env req (some b) r) (hn : req.guestName = none) :
    (∀ c, r.get c = b.get c) ∨
      b.firstName = none ∧ r.guestName = b.guestName ∧
        r.firstName = some (splitGuestName (b.guestName.getD [])).1 ∧
        r.lastName = some (splitGuestName (b.guestName.getD [])).2 := by
  cases req with
  | post user body => exact absurd hn (by simp [Request.guestName])
  | onOne user id op =>
    obtain ⟨b', p, ed, cs, v, hb, -, -, hop, -, -, rfl⟩ := hm
    obtain rfl := Option.some.inj hb
    refine Or.inl fun c => ?_
    have hname : op.guestName = none := hn
    have := edit_apply hop ⟨b, cs⟩ v
    rw [hname] at this
    rw [this]
    cases c <;> rfl
  | batch lastId size =>
    obtain ⟨b', v, hb, hnone, rfl⟩ := hm
    obtain rfl := Option.some.inj hb
    exact Or.inr ⟨hnone, rfl, rfl, rfl⟩
  | list user limit => exact absurd hm (fun x => x)
  | put target => exact absurd hm (fun x => x)

/-- **Every change of a consistent row leaves a consistent row.** -/
theorem Consistent.change (hb : Consistent b) (hm : Made env req (some b) r)
    (hs : Sets .dualWrite req r) : Consistent r := by
  cases hn : req.guestName with
  | some n => exact hs.consistent hn
  | none =>
    rcases made_unnamed hm hn with hget | ⟨-, hg, hf, hl⟩
    · have hg : r.guestName = b.guestName := hget .guestName
      have hf : r.firstName = b.firstName := hget .firstName
      have hl : r.lastName = b.lastName := hget .lastName
      unfold Consistent
      rw [hg, hf, hl]
      exact hb
    · refine Or.inr ?_
      rw [hg]
      exact ⟨hf, hl⟩

/-- What makes a row brings a name. -/
theorem made_new (hm : Made env req none r) : ∃ n, req.guestName = some n := by
  cases req with
  | post user body => exact ⟨_, rfl⟩
  | onOne user id op =>
    obtain ⟨b, -, -, -, -, hb, -⟩ := hm
    exact absurd hb (by simp)
  | batch lastId size =>
    obtain ⟨b, -, hb, -⟩ := hm
    exact absurd hb (by simp)
  | list user limit => exact absurd hm (fun x => x)
  | put target => exact absurd hm (fun x => x)

end Change

section History

variable {env : Env} {init : List Reservation} {w : World} {r : Reservation}

/-- What is known of a committed change. -/
theorem change_known (hinv : Inv env init w) (hs : Steady .dualWrite w) {k : Nat}
    {e : Lib.Entry Reservation} (he : e ∈ Store.changesOf reservations k w.store.history) :
    ∃ t, w.tasks[e.owner]? = some t ∧ Made env t.request e.before e.after ∧
      Sets .dualWrite t.request e.after := by
  have he := (List.mem_filter.mp he).1
  obtain ⟨t, ht, hm⟩ := hinv.made e he
  exact ⟨t, ht, hm, hs.written.history e he t ht⟩

/-- **The copies of every row agree**, if they did when the row was there at the start. -/
theorem consistent_row (hinv : Inv env init w) (hs : Steady .dualWrite w)
    (hr : r ∈ w.store.rows) (hinit : ∀ r₀ ∈ init, r₀.id = r.id → Consistent r₀) :
    Consistent r := by
  have hrow : Store.lookup reservations w.store.rows r.id = some r :=
    Store.lookup_mem hinv.sound.keys hr
  have hchain := hinv.tracked.linked r.id
  refine hchain.last_of ?_ ?_ r hrow
  · intro e he b hb hcb
    obtain ⟨t, -, hm, hset⟩ := change_known hinv hs he
    rw [hb] at hm
    exact hcb.change hm hset
  · -- the first version of the row: one of the start, or a booking
    cases hfirst : Store.lookup reservations init r.id with
    | some r₀ =>
      obtain ⟨hmem, hid⟩ := Store.lookup_some hfirst
      exact ⟨r₀, List.mem_append_left _ (List.mem_singleton.mpr rfl), hinit r₀ hmem hid⟩
    | none =>
      rw [hfirst, hrow] at hchain
      cases hes : Store.changesOf reservations r.id w.store.history with
      | nil =>
        rw [hes] at hchain
        exact absurd hchain (by simp [Store.Linked])
      | cons e es =>
        have he : e ∈ Store.changesOf reservations r.id w.store.history := by
          rw [hes]
          exact List.mem_cons_self ..
        rw [hes] at hchain
        obtain ⟨t, -, hm, hset⟩ := change_known hinv hs he
        rw [hchain.1] at hm
        obtain ⟨n, hn⟩ := made_new hm
        exact ⟨e.after, List.mem_append_right _ (List.mem_cons_self ..), hset.consistent hn⟩

/-- **Every row's `guest_name` is the name last committed for it.** -/
theorem guestName_row (hinv : Inv env init w) (hs : Steady .dualWrite w)
    (hr : r ∈ w.store.rows) : r.guestName = Rollout.lastName init w r.id := by
  have named : ∀ {e}, e ∈ Store.changesOf reservations r.id w.store.history →
      ∃ req, Rollout.committedName w e = req.guestName ∧ Made env req e.before e.after ∧
        Sets .dualWrite req e.after := by
    intro e he
    obtain ⟨t, ht, hm, hset⟩ := change_known hinv hs he
    refine ⟨t.request, ?_, hm, hset⟩
    unfold Rollout.committedName
    rw [ht]
    rfl
  obtain ⟨v, hv, hguest⟩ := (hinv.tracked.linked r.id).latest
    (f := fun e => (Rollout.committedName w e).map some) (P := fun v r => r.guestName = v)
    ((Store.lookup reservations init r.id).map (·.guestName))
    (fun r₀ hr₀ => ⟨_, by rw [hr₀]; rfl, rfl⟩)
    -- a change by a request with a name leaves that name in `guest_name`
    (fun e he v hv => by
      obtain ⟨req, hname, -, hset⟩ := named he
      obtain ⟨n, hn, rfl⟩ := Option.map_eq_some_iff.mp hv
      exact (hset.names (hname.symm.trans hn)).1)
    -- any other change, a batch's for one, leaves `guest_name` alone
    (fun e he hnone => by
      obtain ⟨req, hname, hm, -⟩ := named he
      have hn := hname.symm.trans (Option.map_eq_none_iff.mp hnone)
      cases hb : e.before with
      | none =>
        rw [hb] at hm
        obtain ⟨n, hn'⟩ := made_new hm
        exact absurd (hn.symm.trans hn') (by simp)
      | some b =>
        rw [hb] at hm
        refine ⟨b, rfl, fun v hv => ?_⟩
        rcases made_unnamed hm hn with hget | ⟨-, hg, -⟩
        · exact (hget .guestName).trans hv
        · exact hg.trans hv)
    r (Store.lookup_mem hinv.sound.keys hr)
  rw [hguest]
  unfold Rollout.lastName
  rw [← List.map_filterMap, List.getLast?_map] at hv
  cases hlast : ((Store.changesOf reservations r.id w.store.history).filterMap
      (Rollout.committedName w)).getLast? with
  | some n =>
    rw [hlast] at hv
    exact (Option.some.inj hv).symm
  | none =>
    rw [hlast] at hv
    obtain ⟨r₀, hr₀, rfl⟩ := Option.map_eq_some_iff.mp hv
    rw [hr₀]
    rfl

end History

/-! ## Success and commit -/

/-- Task `i` has committed a change. -/
def HasChanged (w : World) (i : Nat) : Prop := ∃ e ∈ w.store.history, e.owner = i

/-- Task `i` has committed a change that the driver can load. -/
def HasLoadable (w : World) (i : Nat) : Prop :=
  ∃ e ∈ w.store.history, e.owner = i ∧ loads e.after = true

theorem HasLoadable.changed {w : World} {i : Nat} (h : HasLoadable w i) : HasChanged w i :=
  have ⟨e, he, ho, _⟩ := h
  ⟨e, he, ho⟩

/-- How far a request that brings a name has got, and what it has committed by then. -/
def SettledAt (w : World) (i : Nat) (req : Request) : Stage → Prop
  | .saved id | .reloading id _ =>
    HasChanged w i ∧ ∀ e ∈ w.store.history, e.owner = i → e.after.id = id
  | .reloaded row => HasLoadable w i ∧ ∀ l, row = some l → l.row.guestName ≠ none
  | .done a => a.status = req.okStatus ↔ HasLoadable w i
  | _ => ¬ HasChanged w i

/-- **Answered with success is committed, and loaded again**, for requests that bring a name. -/
def Settled (w : World) : Prop :=
  ∀ (i : Nat) (t : Task), w.tasks[i]? = some t → t.request.guestName.isSome = true →
    SettledAt w i t.request t.stage

section Success

variable {env : Env} {init : List Reservation} {w w' : World} {i : Nat} {req : Request}
  {st st' : Stage} {e : Effect}

/-- It depends on the request's own changes only. -/
theorem SettledAt.congr (h : SettledAt w i req st)
    (hsame : ∀ en : Lib.Entry Reservation, en.owner = i →
      (en ∈ w'.store.history ↔ en ∈ w.store.history)) : SettledAt w' i req st := by
  have hiff : HasChanged w' i ↔ HasChanged w i :=
    exists_congr fun en => ⟨fun ⟨hen, ho⟩ => ⟨(hsame en ho).mp hen, ho⟩,
      fun ⟨hen, ho⟩ => ⟨(hsame en ho).mpr hen, ho⟩⟩
  have hiff' : HasLoadable w' i ↔ HasLoadable w i :=
    exists_congr fun en => ⟨fun ⟨hen, ho, hl⟩ => ⟨(hsame en ho).mp hen, ho, hl⟩,
      fun ⟨hen, ho, hl⟩ => ⟨(hsame en ho).mpr hen, ho, hl⟩⟩
  cases st with
  | saved id => exact ⟨hiff.mpr h.1, fun en hen ho => h.2 en ((hsame en ho).mp hen) ho⟩
  | reloading id columns =>
    exact ⟨hiff.mpr h.1, fun en hen ho => h.2 en ((hsame en ho).mp hen) ho⟩
  | reloaded row => exact ⟨hiff'.mpr h.1, h.2⟩
  | done a => exact Iff.trans h hiff'.symm
  | _ => exact fun hc => h (hiff.mp hc)

/-- A failure that leaves nothing behind. -/
theorem settled_fails {a : Answer} (h : ¬ HasChanged w i) (hne : a.status ≠ req.okStatus) :
    SettledAt w i req (.done a) := ⟨fun hs => absurd hs hne, fun hc => absurd hc.changed h⟩

/-- What a task has committed of one row can be loaded exactly when the row can. -/
theorem loads_committed (hinv : Inv env init w) {id : Nat}
    (hid : ∀ e ∈ w.store.history, e.owner = i → e.after.id = id) {r : Reservation}
    (hr : Store.lookup reservations w.store.rows id = some r) {e : Lib.Entry Reservation}
    (he : e ∈ w.store.history) (ho : e.owner = i) : loads r = loads e.after := by
  refine loads_of_version hinv (List.mem_append_right _ (List.mem_map.mpr ⟨e, ?_, rfl⟩)) hr
  exact List.mem_filter.mpr ⟨he, beq_iff_eq.mpr (hid e he ho)⟩

theorem failed_not_ok (req : Request) : 500 ≠ req.okStatus := by
  cases req <;> simp [Request.okStatus]

theorem dbAnswer_fails (req : Request) (err : DbError) :
    (dbAnswer req err).status ≠ req.okStatus := by
  cases req with
  | post user body =>
    cases err with
    | exclusionViolation => exact show ¬ 409 = 201 by decide
    | _ => first | exact show ¬ 400 = 201 by decide | exact show ¬ 500 = 201 by decide
  | _ => exact failed_not_ok _

/-- **In `dual_write` a name is always a change**: the columns it assigns are not all loaded. -/
theorem name_is_change {op : Op} {ed : Edit} {n : Text} {l : Loaded} (hn : op.guestName = some n)
    (hop : op.edit .dualWrite = some ed) (hl : l.columns = readColumns .dualWrite) :
    (ed.changes.net l).isEmpty = false := by
  cases op with
  | patch ifMatch body =>
    obtain rfl := Option.some.inj hop
    have hn : body.guestName = some n := hn
    have hfirst : (Column.firstName, nameValue n .firstName)
        ∈ ((patched .dualWrite body).net l).names := by
      refine List.mem_filter.mpr ⟨?_, ?_⟩
      · show _ ∈ body.guestName.elim [] (nameAssignments .dualWrite)
        rw [hn]
        exact List.mem_cons_of_mem _ (List.mem_cons_self ..)
      · rw [hl]
        rfl
    unfold Changes.isEmpty
    cases hnames : ((patched .dualWrite body).net l).names with
    | nil => rw [hnames] at hfirst; exact absurd hfirst (List.not_mem_nil)
    | cons a as => rfl
  | _ => exact absurd hn (by simp [Op.guestName])

/-- A stretch other than a commit. -/
theorem SettledAt.act (hinv : Inv env init w) (hs : Steady .dualWrite w)
    (ht : w.tasks[i]? = some ⟨req, st⟩) (hn : req.guestName.isSome = true)
    (h : SettledAt w i req st) (ha : Act env w i req st e st') (he : e ≠ .commit) :
    SettledAt w i req st' := by
  have hcols := hs.columns _ (List.mem_of_getElem? ht)
  have hst := hinv.stages i _ ht
  cases ha with
  | commit _ => exact absurd rfl he
  -- what ends before the commit is no success
  | badTableId _ => exact settled_fails h (failed_not_ok _)
  | refuseBooking herr =>
    refine settled_fails h fun hok => ?_
    rcases bookingChecks_error herr with hx | hx <;>
      exact absurd (hx.symm.trans hok) (show ¬ _ = 201 by decide)
  | insertFails _ => exact settled_fails h (dbAnswer_fails _ _)
  | selectFails _ => exact settled_fails h (failed_not_ok _)
  | refuseLoad herr =>
    refine settled_fails h fun hok => ?_
    rcases loadOwned_error herr with hx | hx <;>
      exact absurd (hx.symm.trans hok) (show ¬ _ = 200 by decide)
  | @respondGet _ _ op _ _ _ hop =>
    cases op with
    | get => exact absurd hn (by simp [Request.guestName, Op.guestName])
    | _ => exact absurd hop (by simp [Op.edit])
  | refuseVersion _ _ hm =>
    refine settled_fails h fun hok => ?_
    rcases checkIfMatch_status hm with ⟨hx, -⟩ | hx <;>
      exact absurd (hx.symm.trans hok) (show ¬ _ = 200 by decide)
  | noChange hload hop _ hempty =>
    -- an edit without a change would be answered 200 with nothing committed
    obtain ⟨n, hn⟩ := Option.isSome_iff_exists.mp hn
    rw [hs.phase] at hop
    rw [name_is_change hn hop (hcols _ (loadOwned_ok hload))] at hempty
    exact absurd hempty (by decide)
  | staleRow _ _ => exact settled_fails h (show ¬ 409 = 200 by decide)
  | updateFails _ _ _ _ => exact settled_fails h (failed_not_ok _)
  | violated _ _ _ => exact settled_fails h (dbAnswer_fails _ _)
  | pass _ _ _ =>
    unfold Request.afterCheck
    split <;> exact h
  | reload _ => exact h
  | reloadFails _ hfail =>
    -- the row it has committed cannot be loaded
    obtain ⟨-, q, hq, rfl⟩ := hst
    rw [reloadError_eq hq] at hfail
    obtain ⟨-, r, hr, hload⟩ := loadError_eq_some hfail
    refine ⟨fun hok => absurd hok (failed_not_ok _), ?_⟩
    rintro ⟨en, hen, ho, hl⟩
    rw [← loads_committed hinv h.2 hr hen ho, hload] at hl
    exact absurd hl (by decide)
  | reloadRow _ hfound =>
    obtain ⟨⟨en, hen, ho⟩, hids⟩ := h
    have hid := hids en hen ho
    obtain ⟨-, q, hq, rfl⟩ := hst
    rw [reloadError_eq hq] at hfound
    obtain ⟨r₁, hr₁, hid₁⟩ := hinv.tracked.exists_row
      (List.mem_append_right _ (List.mem_map.mpr ⟨en, List.mem_filter.mpr
        ⟨hen, beq_iff_eq.mpr hid⟩, rfl⟩))
    have hlookup : Store.lookup reservations w.store.rows _ = some r₁ :=
      hid₁ ▸ Store.lookup_mem hinv.sound.keys hr₁
    have hload := loadError_eq_none.mp hfound r₁ hlookup
    rw [loads_committed hinv hids hlookup hen ho] at hload
    refine ⟨⟨en, hen, ho, hload⟩, fun l hl => ?_⟩
    obtain ⟨n, hn⟩ := Option.isSome_iff_exists.mp hn
    have hset := hs.written.history en hen _ (by rw [ho]; exact ht)
    obtain ⟨r, hr, rfl⟩ := Option.map_eq_some_iff.mp hl
    obtain ⟨hmem, hrid⟩ := Store.lookup_some hr
    -- the name it has written is not lost before it is read back
    refine readable_lasts hinv (List.mem_append_right _ (List.mem_map.mpr ⟨en, ?_, rfl⟩)) ?_ hmem hrid
    · exact List.mem_filter.mpr ⟨hen, beq_iff_eq.mpr hid⟩
    · rw [(hset.names hn).1]
      exact Option.some_ne_none _
  | noRow _ =>
    obtain ⟨l, hl, -⟩ := hst
    exact absurd hl (by simp)
  | @respondSaved _ l _ =>
    have hread : Readable w.phase l := by
      rw [hs.phase]
      exact ⟨fun c hc => by rw [hcols l rfl]; exact hc, fun _ => h.2 l rfl⟩
    exact ⟨fun _ => h.1, fun _ => respond_status hread _⟩
  -- the other stretches before the commit
  | noTable _ _ => exact h
  | lockTable _ _ _ => exact h
  | prepare _ => exact h
  | insert _ => exact h
  | select => exact h
  | selectRow _ => exact h
  | unsendable _ _ _ _ _ => exact settled_fails h (failed_not_ok _)
  | change _ _ _ _ _ => exact h
  | update _ _ _ _ => exact h
  | _ => exact absurd hn (by simp [Request.guestName])

/-- **Every step keeps success and commit together.** -/
theorem Settled.step {l : Label} (h : Settled w) (hinv : Inv env init w)
    (hs : Steady .dualWrite w) (hst : (service env).step w l = some w') : Settled w' := by
  intro j t ht hn
  cases step_cases hst with
  | arrive req =>
    rcases slot_of_concat ht with ht | ⟨rfl, rfl⟩
    · exact h j t ht hn
    · -- nobody with this number has made a change yet
      rintro ⟨en, hen, ho⟩
      obtain ⟨t', ht', -⟩ := hinv.made en hen
      rw [ho] at ht'
      exact absurd (List.getElem?_eq_some_iff.mp ht').1 (Nat.lt_irrefl _)
  | @act i t₀ e st ht₀ ha _ =>
    rcases task_of_advance ht with ⟨rfl, rfl⟩ | ⟨hne, ht⟩
    · have hold := h j t₀ ht₀ hn
      by_cases he : e = .commit
      · subst he
        have hstage := hinv.stages j t₀ ht₀
        obtain ⟨req, st₀⟩ := t₀
        cases ha with
        | commit _ =>
          obtain ⟨⟨d, hd, ho, hid⟩, -⟩ := hstage
          refine ⟨⟨d.entry, Store.mem_commit_history.mpr (Or.inr ⟨d, hd, ho, rfl⟩), ho⟩, ?_⟩
          -- it has written nothing else
          intro en hen ho'
          rcases Store.mem_commit_history.mp hen with hen | ⟨d', hd', ho'', rfl⟩
          · exact absurd ⟨en, hen, ho'⟩ hold
          · exact (hinv.writes ht₀ hd' ho'').2.1
        | batchCommit => exact absurd hn (by simp [Request.guestName])
      · refine (hold.act hinv hs ht₀ hn ha he).congr fun en _ => ?_
        show en ∈ (w.apply j e).store.history ↔ _
        rw [history_apply he]
    · refine (h j t ht hn).congr fun en ho => ⟨fun hen => ?_, history_grows⟩
      exact (mem_history_apply hen).resolve_right fun hi => hne (ho.symm.trans hi)
  | @victim i rest t₀ ht₀ hc =>
    rcases task_of_advance ht with ⟨rfl, rfl⟩ | ⟨-, ht⟩
    · obtain ⟨k, hk⟩ := waitCycle_head hc
      obtain ⟨-, t', ht', hw⟩ := waitsFor_iff.mp hk
      obtain rfl := Option.some.inj (ht₀.symm.trans ht')
      have hold := h j t₀ ht₀ hn
      obtain ⟨req, st₀⟩ := t₀
      -- only before its commit can a request be waiting
      have hno : ¬ HasChanged w j := by cases hw <;> exact hold
      exact settled_fails hno (failed_not_ok _)
    · exact h j t ht hn

end Success

/-! ## Batches -/

section Batch

variable {env : Env} {init : List Reservation} {w w' : World} {i : Nat}

/-- **A batch does not change a row whose new columns are filled.** -/
theorem batch_keeps_filled (hinv : Inv env init w) {t : Task} (ht : w.tasks[i]? = some t)
    {lastId size : Nat} (hreq : t.request = .batch lastId size) {l : Label}
    (hl : l = .step i ∨ ∃ rest, l = .victim (i :: rest))
    (hst : (service env).step w l = some w') {r : Reservation} (hr : r ∈ w.store.rows)
    (hfilled : r.firstName ≠ none) : r ∈ w'.store.rows := by
  cases step_cases hst with
  | arrive req => exact hr
  | victim _ _ => exact hr
  | @act j t' e st ht' ha _ =>
    obtain rfl : j = i := by simpa using hl
    cases e with
    | commit =>
      refine Store.mem_seen.mpr (Or.inl ⟨hr, Store.overwrites_eq_false.mpr fun d hd ho hid => ?_⟩)
      -- what the batch has written replaces a row that was not filled
      obtain ⟨t'', ht'', hmade, -⟩ := hinv.writers d hd
      rw [ho] at ht''
      obtain rfl := Option.some.inj (ht.symm.trans ht'')
      rw [hreq] at hmade
      obtain ⟨b, v, hb, hnone, -⟩ := hmade
      have hbase := hinv.sound.base d hd
      rw [hid, hb] at hbase
      obtain rfl := Option.some.inj ((Store.lookup_mem hinv.sound.keys hr).symm.trans hbase)
      exact hfilled hnone
    | _ => exact hr

end Batch

/-! ## The result -/

/-- What is asked of the names in a world. -/
structure NamesKept (env : Env) (init : List Reservation) (w : World) : Prop where
  /-- The copies of every row agree, if they did when the row was there at the start. -/
  copies : ∀ r ∈ w.store.rows, (∀ r₀ ∈ init, r₀.id = r.id → Consistent r₀) → Consistent r
  /-- `guest_name` is the name last committed for the row. -/
  latest : ∀ r ∈ w.store.rows, r.guestName = Rollout.lastName init w r.id
  /-- No step of a batch changes a row whose `first_name` is not NULL. -/
  filled : ∀ i t lastId size, w.tasks[i]? = some t → t.request = .batch lastId size →
    ∀ l w', (l = .step i ∨ ∃ rest, l = .victim (i :: rest)) →
      (service env).step w l = some w' →
      ∀ r ∈ w.store.rows, r.firstName ≠ none → r ∈ w'.store.rows

/-- A request that brings a name is answered with success exactly when it has committed. -/
def SuccessCommits (w : World) : Prop :=
  ∀ i t a, w.tasks[i]? = some t → t.request.guestName.isSome = true → t.stage = .done a →
    (a.status = t.request.okStatus ↔ ∃ e ∈ w.store.history, e.owner = i)

/-- The step is the reload of a request that brings a name, and the row that it has committed cannot
    be loaded. -/
def Unread (w : World) : Label → Prop
  | .step i => ∃ t id cs, w.tasks[i]? = some t ∧ t.request.guestName.isSome = true ∧
      t.stage = .reloading id cs ∧ Unloadable w id
  | _ => False

/-- The same, computed. -/
def unread (w : World) : Label → Bool
  | .step i => (w.tasks[i]?).any fun t => t.request.guestName.isSome &&
      match t.stage with
      | .reloading id _ => (Store.lookup reservations w.store.rows id).any fun r => !loads r
      | _ => false
  | _ => false

theorem not_unread {w : World} {l : Label} (h : unread w l = false) : ¬ Unread w l := by
  intro hbad
  cases l with
  | step i =>
    obtain ⟨t, id, cs, ht, hn, hstage, r, hr, hload⟩ := hbad
    have htrue : unread w (.step i) = true := by
      simp [unread, ht, hn, hstage, hr, hload]
    rw [htrue] at h
    exact absurd h (by decide)
  | _ => exact hbad

section Result

variable {env : Env} {init : List Reservation} {w w' : World} {l : Label}

theorem namesKept (hinv : Inv env init w) (hs : Steady .dualWrite w) : NamesKept env init w where
  copies := fun _ hr => consistent_row hinv hs hr
  latest := fun _ hr => guestName_row hinv hs hr
  filled := fun _ _ _ _ ht hreq _ _ hl hst _ hr hfilled =>
    batch_keeps_filled hinv ht hreq hl hst hr hfilled

/-- **Success and commit stay together** in a step that reads back what has been committed. -/
theorem SuccessCommits.step (h : SuccessCommits w) (hinv : Inv env init w) (hset : Settled w)
    (hset' : Settled w') (hread : ¬ Unread w l) (hst : (service env).step w l = some w') :
    SuccessCommits w' := by
  intro j t a ht hn ha
  have hsettled : a.status = t.request.okStatus ↔ HasLoadable w' j := by
    have := hset' j t ht hn
    rwa [ha] at this
  refine ⟨fun hok => (hsettled.mp hok).changed, fun hchanged => ?_⟩
  rcases answer_cases hst ht ha with hold | ⟨t₀, e, rfl, ht₀, hreq, hact, hstore⟩ |
    ⟨rest, t₀, rfl, ht₀, hreq⟩
  · obtain ⟨en, hen, ho⟩ := hchanged
    exact (h j t a hold hn ha).mpr ⟨en, history_of_done hst hold ha hen ho, ho⟩
  · have hold := hset j t₀ ht₀ (hreq ▸ hn)
    have hcommit : e ≠ .commit := by
      rintro rfl
      obtain ⟨req, st₀⟩ := t₀
      generalize hdone : Stage.done a = st at hact
      cases hact with
      | commit _ => exact absurd hdone (by simp)
      | batchCommit =>
        rw [← hreq] at hn
        exact absurd hn (by simp [Request.guestName])
    have hnow : HasChanged w j := by
      obtain ⟨en, hen, ho⟩ := hchanged
      rw [hstore, history_apply hcommit] at hen
      exact ⟨en, hen, ho⟩
    obtain ⟨req, st₀⟩ := t₀
    obtain ⟨req', st'⟩ := t
    obtain rfl : req = req' := hreq
    cases st₀ with
    | saved id => cases hact
    | reloading id cs =>
      generalize hdone : Stage.done a = st at hact
      cases hact with
      | reloadFails _ hfail =>
        have hstage := hinv.stages j _ ht₀
        obtain ⟨-, q, hq, rfl⟩ := hstage
        rw [reloadError_eq hq] at hfail
        obtain ⟨-, r, hr, hload⟩ := loadError_eq_some hfail
        exact absurd ⟨_, id, _, ht₀, hn, rfl, r, hr, hload⟩ hread
      | reloadRow _ _ => exact absurd hdone (by simp)
    | reloaded row =>
      obtain ⟨⟨en, hen, ho, hl⟩, -⟩ := hold
      refine hsettled.mpr ⟨en, ?_, ho, hl⟩
      rw [hstore, history_apply hcommit]
      exact hen
    | done a' => cases hact
    | _ => exact absurd hnow hold
  · -- only before its commit can a request be waiting
    have hold := hset j t₀ ht₀ (hreq ▸ hn)
    obtain ⟨req, st₀⟩ := t₀
    cases step_cases hst with
    | victim ht₁ hc =>
      obtain ⟨k, hk⟩ := waitCycle_head hc
      obtain ⟨-, t', ht', hw⟩ := waitsFor_iff.mp hk
      obtain rfl : ⟨req, st₀⟩ = t' := Option.some.inj (ht₀.symm.trans ht')
      have hno : ¬ HasChanged w j := by cases hw <;> exact hold
      exact absurd hchanged hno

/-- **A booking that cannot be read back is no success**, though it is committed. -/
theorem Unread.not_success (hinv : Inv env init w) (hset : Settled w) (hbad : Unread w l)
    (hst : (service env).step w l = some w') : ¬ SuccessCommits w' := by
  intro h
  cases step_cases hst with
  | arrive req => exact hbad
  | victim _ _ => exact hbad
  | @act i t e st ht ha _ =>
    obtain ⟨t', id, cs, ht', hn, hstage, r, hr, hload⟩ := hbad
    obtain rfl := Option.some.inj (ht.symm.trans ht')
    have hchanged := hset i t ht hn
    have hknown := hinv.stages i t ht
    obtain ⟨req, st₀⟩ := t
    obtain rfl : st₀ = .reloading id cs := hstage
    obtain ⟨-, q, hq, rfl⟩ := hknown
    have herror : reloadError env.schema (readColumns q) w.store.rows id ≠ none := by
      rw [reloadError_eq hq]
      exact fun hnone => absurd ((loadError_eq_none.mp hnone r hr).symm.trans hload) (by decide)
    cases ha with
    | reloadRow _ hnone => exact herror hnone
    | reloadFails _ _ =>
      have hok := (h i _ _ (advance_task_self ht) hn rfl).mpr hchanged.1
      exact failed_not_ok _ hok

end Result

/-- **Backfill and dual writes do not corrupt each other.**  In every world that requests and
    batches reach in `dual_write`, in any order of their steps, the copies of the names agree,
    `guest_name` is the name last committed, and batches leave filled rows alone.  Along a run a
    request that brings a name is answered with success whenever it has committed, and only then,
    exactly when no booking is committed that the driver cannot load at its reload. -/
theorem dual_write_keeps_names_iff {env : Env} {rows : List Reservation} {nextId clock : Nat}
    (hready : Ready env .dualWrite rows nextId clock) :
    (∀ w, (service env).Reach NoSwitch (.start .dualWrite rows nextId clock) w →
      NamesKept env rows w) ∧
    ∀ ls : List Label, (∀ l ∈ ls, ∀ target, l ≠ .arrive (.put target)) →
      ((service env).AllStates (fun w => NamesKept env rows w ∧ SuccessCommits w)
          (.start .dualWrite rows nextId clock) ls ↔
        (service env).AllSteps (fun w l => ¬ Unread w l)
          (.start .dualWrite rows nextId clock) ls) := by
  refine ⟨fun w hr => namesKept (inv_of_reach hready hr)
    (steady_of_reach (fun _ _ h => h) hready hr), fun ls hls => ?_⟩
  refine Machine.allStates_iff_allSteps (A := fun l => ∀ target, l ≠ .arrive (.put target))
    (J := fun w => Inv env rows w ∧ Steady .dualWrite w ∧ Settled w) ?_ ?_ ls _ hls ?_ ?_
  · rintro w l w' hl ⟨hinv, hs, hset⟩ ⟨-, hsuccess⟩ hread hst
    have hinv' := hinv.step hst
    have hs' := hs.step hinv hl hst
    have hset' := hset.step hinv hs hst
    exact ⟨⟨hinv', hs', hset'⟩, namesKept hinv' hs', hsuccess.step hinv hset hset' hread hst⟩
  · rintro w l w' - ⟨hinv, -, hset⟩ - hbad hst ⟨-, hsuccess⟩
    exact (not_not.mp hbad).not_success hinv hset hst hsuccess
  · exact ⟨hready.inv, steady_start, fun i t ht => absurd ht (by simp [World.start])⟩
  · exact ⟨namesKept hready.inv steady_start, fun i t a ht => absurd ht (by simp [World.start])⟩

/-- The lunch as it was booked in `legacy`. -/
def oldLunch : Reservation := { lunch 1 2 1 .confirmed with firstName := none, lastName := none }

theorem oldLunch_ready : Ready sample .dualWrite [oldLunch] 2 2 where
  fits := sample_fits _
  keys := by decide
  ids := by decide
  versions := by decide
  ok := by
    intro r hr
    rw [List.mem_singleton.mp hr]
    exact rowError_eq_none.mp (by decide)
  apart := by
    intro a ha b hb hne
    rw [List.mem_singleton.mp ha, List.mem_singleton.mp hb] at hne
    exact absurd rfl hne

/-- A PATCH of the name. -/
def renameLunch (ifMatch : Text) : Request :=
  .onOne customer 1 (.patch (some ifMatch) (Deployment.setName "Bea Ray".toList (by decide)))

/-- A batch and a rename have both read the row when the batch writes it; the rename is refused,
    and tried again. -/
def crossingRun : List Label :=
  whole 0 1 (.batch 0 10) ++ whole 1 3 (renameLunch (etag 1)) ++ List.replicate 3 (.step 0) ++
    .step 1 :: whole 2 9 (renameLunch (etag 2))

theorem crossing_keeps_names :
    ∃ w, (service sample).run (.start .dualWrite [oldLunch] 2 2) crossingRun
      = some w ∧ (w.tasks.map Task.status = [some 200, some 409, some 200]) ∧
    NamesKept sample [oldLunch] w ∧ SuccessCommits w := by
  obtain ⟨w, hw⟩ :
      ∃ w, (service sample).run (.start .dualWrite [oldLunch] 2 2) crossingRun = some w :=
    Option.isSome_iff_exists.mp (by decide)
  obtain ⟨w, hw⟩ :
      ∃ w, (service sample).run (.start .dualWrite [oldLunch] 2 2) crossingRun = some w :=
    Option.isSome_iff_exists.mp (by decide)
  have hread : (service sample).AllSteps (fun w l => unread w l = false)
      (.start .dualWrite [oldLunch] 2 2) crossingRun := by decide
  have hlabels : ∀ l ∈ crossingRun, ∀ target, l ≠ .arrive (.put target) := by
    rintro l hl target rfl
    exact absurd hl (by simp [crossingRun, whole, renameLunch])
  have hall := ((dual_write_keeps_names_iff oldLunch_ready).2 crossingRun hlabels).mpr
    (hread.mono fun _ _ => not_unread)
  exact ⟨w, hw, (service sample).run_eval (fun w => w.tasks.map Task.status) hw (by decide),
    hall.last hw⟩

/-- A lunch in the year 10000. -/
def farLunch : ReservationCreate := booking 70389528 2 lunchForTwo.partySize_range

/-- **A booking for the year 10000**: it is stored with its name, and answered 500. -/
theorem farLunch_stored : ¬ ∀ (env : Env) (rows : List Reservation) (nextId clock : Nat),
    Ready env .dualWrite rows nextId clock → ∀ w,
    (service env).Reach NoSwitch (.start .dualWrite rows nextId clock) w →
      NamesKept env rows w ∧ SuccessCommits w := by
  intro h
  obtain ⟨w, hw⟩ : ∃ w, (service sample).run (.start .dualWrite [] 1 1)
      (whole 0 7 (.post customer farLunch)) = some w :=
    Option.isSome_iff_exists.mp (by decide)
  have hreach : (service sample).Reach NoSwitch (.start .dualWrite [] 1 1) w := by
    refine .of_labels (fun l hl _ target he => ?_) hw
    subst he
    exact absurd hl (by simp [whole])
  obtain ⟨-, hsuccess⟩ := h sample [] 1 1 (sample_ready _) w hreach
  have htasks : w.tasks = [⟨.post customer farLunch, .done (.failed (.database .dataError))⟩] :=
    (service sample).run_eval World.tasks hw rfl
  have howner : w.store.history.map (·.owner) = [0] :=
    (service sample).run_eval (fun w => w.store.history.map (·.owner)) hw rfl
  -- the booking is in the history, and answered 500
  have hcommitted : ∃ e ∈ w.store.history, e.owner = 0 := by
    have hmem : 0 ∈ w.store.history.map (·.owner) := by rw [howner]; exact List.mem_singleton.mpr rfl
    exact List.mem_map.mp hmem
  have h201 := (hsuccess 0 _ _ (by rw [htasks]; rfl) rfl rfl).mpr hcommitted
  exact absurd h201 (by decide)

end TableFlow
