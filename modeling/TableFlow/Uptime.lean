/-
  What the steady traffic can rely on while the migration runs.

  1. **Its rows** (`Rig.Holds`) hold the names it has given them, whatever phase reads them
     (`ReadsAs`).
  2. **The old column** (`Spelled`) is kept up with as long as it is read, and the runbook has no
     way back to it (`Onward`).
  3. **Its windows are its own** (`Placed`) — a row version in one of them has been inserted by the
     one booking for that slot, so no check of the script fails, and none waits.
  4. **The service beside it** (`Serving`) — other requests leave its rows their names, and none of
     its requests is the victim of a deadlock.
-/
import TableFlow.Traffic
import TableFlow.Answers
import TableFlow.Booking
import TableFlow.Waiting

namespace TableFlow.Traffic

open Lib

/-! ## What the script is promised -/

/-- What `pick_table` has found. -/
structure Rig.Fits (K : Rig) (env : Env) (init : List Reservation) : Prop where
  known : env.table K.table.id = some K.table
  sendable : fitsBigint K.table.id = true
  active : K.table.isActive = true
  seats : 2 ≤ K.table.capacity
  /-- Nothing is booked from the first day on. -/
  before : ∀ r ∈ init, r.restaurantTableId = K.table.id → r.endsAt ≤ K.base

/-- What others may ask for: they do not book the script's table for a window that ends after the
    script's first slot has begun, and only customers with another account edit, so staff do not. -/
def Rig.Admits (K : Rig) : Request → Prop
  | .post _ body => body.restaurantTableId = K.table.id → body.endsAt ≤ K.base
  | .onOne user _ op => op = .get ∨ (user.role = .customer ∧ user.id ≠ K.user.id)
  | _ => True

/-! ## Rows and their names -/

/-- The instants of the slot are `datetime`s: the script makes no others. -/
def Rig.Dated (K : Rig) (slot : Nat) : Prop :=
  fitsTimestamp (slotStart K.base slot) = true ∧
    fitsTimestamp (slotStart K.base slot + sitting) = true

/-- The row is the script's booking of the slot. -/
structure Rig.Mine (K : Rig) (slot : Nat) (r : Reservation) : Prop where
  user : r.userId = K.user.id
  table : r.restaurantTableId = K.table.id
  startsAt : r.startsAt = slotStart K.base slot
  endsAt : r.endsAt = slotStart K.base slot + sitting
  dated : K.Dated slot

/-- The committed row `id` is the script's and holds this name, for the phases to come as well. -/
def Rig.Holds (K : Rig) (w : World) (id slot : Nat) (n : Text) : Prop :=
  ∃ r, Store.lookup reservations w.store.rows id = some r ∧ K.Mine slot r ∧
    Rollout.HoldsName n r ∧ (w.phase.readsGuestName = true → r.guestName = some n)

/-- A loaded row that is answered with this name, if its columns are those the phase reads. -/
def ReadsAs (w : World) (l : Loaded) (n : Text) : Prop :=
  Rollout.HoldsName n l.row ∧
    (.guestName ∈ l.columns → w.phase.readsGuestName = true → l.row.guestName = some n) ∧
    (.firstName ∈ l.columns → l.row.firstName ≠ none)

/-- The SELECT has found the row `id` of the script, and it is answered with this name. -/
def Rig.Loads (K : Rig) (w : World) (id : Nat) (n : Text) (row : Option Loaded) : Prop :=
  ∃ l, row = some l ∧ l.row.id = id ∧ l.row.userId = K.user.id ∧ ReadsAs w l n

/-- The new columns are asked for only when the phase reads them. -/
def Chosen (w : World) (cs : List Column) : Prop :=
  .firstName ∈ cs → w.phase.readsGuestName = false

/-- Every row has the columns that the phase reads. -/
def Filled (w : World) : Prop :=
  w.phase.readsGuestName = false → ∀ r ∈ w.store.rows, r.firstName ≠ none

section Rows

variable {K : Rig} {w : World} {id slot : Nat} {n : Text}

theorem chosen_readColumns (w : World) : Chosen w (readColumns w.phase) := by
  unfold Chosen
  cases w.phase <;> decide

/-- **A SELECT of a row that holds a name** loads a row that is answered with it. -/
theorem Rig.Holds.select (h : K.Holds w id slot n) (hfilled : Filled w) {cs : List Column}
    (hcs : Chosen w cs) : K.Loads w id n (selectReservations cs w.store.rows id) := by
  obtain ⟨r, hr, hmine, hname, hguest⟩ := h
  refine ⟨⟨r, cs⟩, congrArg (Option.map _) hr, (Store.lookup_some hr).2, hmine.user, hname,
    fun _ hp => hguest hp, fun hmem => ?_⟩
  exact hfilled (hcs hmem) r (Store.lookup_some hr).1

/-- **The answer with such a row** has the name. -/
theorem ReadsAs.respond {l : Loaded} (h : ReadsAs w l n) (hn : n ∈ names)
    (hcols : l.columns = readColumns w.phase) (status : Nat) :
    ∃ tag out, respond w.phase status l = .out status tag out ∧ out.guestName = n ∧
      out.id = l.row.id := by
  obtain ⟨hname, hguest, hfirst⟩ := h
  have hresp : responseName w.phase l = .ok n := by
    unfold responseName
    cases hp : w.phase.readsGuestName with
    | true =>
      have hreads : (readColumns w.phase).contains .guestName = true := hp
      have hmem : Column.guestName ∈ readColumns w.phase := List.contains_iff_mem.mp hreads
      rw [if_pos hreads, loaded_get_of_mem (hcols ▸ hmem), show l.row.get .guestName = some n from
        hguest (hcols ▸ hmem) hp]
      rfl
    | false =>
      have hreads : ¬ (readColumns w.phase).contains .guestName = true :=
        fun hreads => absurd (hp.symm.trans hreads) (by decide)
      have hcs : readColumns w.phase = [.firstName, .lastName] := by
        revert hp
        cases w.phase <;> decide
      have hf : Column.firstName ∈ l.columns := by rw [hcols, hcs]; decide
      have hl : Column.lastName ∈ l.columns := by rw [hcols, hcs]; decide
      obtain ⟨h1, h2⟩ := hname.new (hfirst hf)
      rw [if_neg hreads, loaded_get_of_mem hf, loaded_get_of_mem hl, show l.row.get .firstName = _ from h1,
        show l.row.get .lastName = _ from h2]
      show Except.ok (joinName _ _) = _
      rw [names_joined n hn]
  unfold TableFlow.respond toOut
  rw [hresp]
  exact ⟨_, _, rfl, rfl, rfl⟩

/-- A rename that has nothing to write is to the name that the row has. -/
theorem ReadsAs.unchanged {l : Loaded} (h : ReadsAs w l n) (hn : n ∈ names) {env : Env}
    (hcols : Columns env l.columns) {name : Name}
    (hempty : ((patched w.phase (renameBody name)).net l).isEmpty = true) : n = name.1 := by
  obtain ⟨hname, hguest, hfirst⟩ := h
  -- every column that would be written is loaded and has the new value
  have hall : ∀ c ∈ writeColumns w.phase, c ∈ l.columns ∧
      l.row.get c = some (nameValue name.1 c) := by
    intro c hc
    have hnil := List.isEmpty_iff.mp (Bool.and_eq_true_iff.mp (Bool.and_eq_true_iff.mp hempty).1).1
    have hmem : (c, nameValue name.1 c) ∈ nameAssignments w.phase name.1 := List.mem_map.mpr ⟨c, hc, rfl⟩
    have hdrop := (List.filter_eq_nil_iff.mp hnil) _ hmem
    simp only [Bool.not_eq_true', Bool.not_eq_false, Bool.and_eq_true, List.contains_iff_mem,
      beq_iff_eq] at hdrop
    exact hdrop
  obtain ⟨q, -, hq⟩ := hcols
  cases hp : w.phase with
  | legacy =>
    rw [hp] at hall hguest
    obtain ⟨hmem, hval⟩ := hall .guestName (by decide)
    exact Option.some.inj ((hguest hmem (by decide)).symm.trans hval)
  | newOnly =>
    rw [hp] at hall
    obtain ⟨hmem, hval⟩ := hall .firstName (by decide)
    obtain ⟨-, hval'⟩ := hall .lastName (by decide)
    obtain ⟨h1, h2⟩ := hname.new (hfirst hmem)
    have hf := Option.some.inj (h1.symm.trans hval)
    have hl := Option.some.inj (h2.symm.trans hval')
    rw [← names_joined n hn, ← names_joined name.1 name.2, hf, hl]
    rfl
  | _ =>
    -- a SELECT loads the old column or the new ones
    rw [hp] at hall
    have h1 := (hall .guestName (by decide)).1
    have h2 := (hall .firstName (by decide)).1
    rw [hq] at h1 h2
    cases q <;> simp [readColumns] at h1 h2

/-- **A row holds one name of the script's.** -/
theorem name_inj {r : Reservation} {n n' : Text} (h : Rollout.HoldsName n r)
    (h' : Rollout.HoldsName n' r) (hn : n ∈ names) (hn' : n' ∈ names) : n = n' := by
  by_cases hf : r.firstName = none
  · exact Option.some.inj ((h.old hf).symm.trans (h'.old hf))
  · obtain ⟨h1, h2⟩ := h.new hf
    obtain ⟨h1', h2'⟩ := h'.new hf
    have hf := Option.some.inj (h1.symm.trans h1')
    have hl := Option.some.inj (h2.symm.trans h2')
    rw [← names_joined n hn, ← names_joined n' hn', hf, hl]

theorem Rig.Holds.name_inj (h : K.Holds w id slot n) {slot' : Nat} {n' : Text}
    (h' : K.Holds w id slot' n') (hn : n ∈ names) (hn' : n' ∈ names) : n = n' := by
  obtain ⟨r, hr, -, hname, -⟩ := h
  obtain ⟨r', hr', -, hname', -⟩ := h'
  obtain rfl := Option.some.inj (hr.symm.trans hr')
  exact Traffic.name_inj hname hname' hn hn'

theorem Rig.Holds.slot_inj (h : K.Holds w id slot n) {slot' : Nat} {n' : Text}
    (h' : K.Holds w id slot' n') : slot = slot' := by
  obtain ⟨r, hr, hmine, -⟩ := h
  obtain ⟨r', hr', hmine', -⟩ := h'
  obtain rfl := Option.some.inj (hr.symm.trans hr')
  exact slotStart_inj (hmine.startsAt.symm.trans hmine'.startsAt)

section Later

variable {w' : World} (hback : w'.phase.readsGuestName = true → w.phase.readsGuestName = true)

include hback

theorem ReadsAs.later {l : Loaded} (h : ReadsAs w l n) : ReadsAs w' l n :=
  ⟨h.1, fun hmem hp => h.2.1 hmem (hback hp), h.2.2⟩

theorem Rig.Loads.later {row : Option Loaded} (h : K.Loads w id n row) : K.Loads w' id n row :=
  let ⟨l, hrow, hid, huser, hreads⟩ := h
  ⟨l, hrow, hid, huser, hreads.later hback⟩

theorem Chosen.later {cs : List Column} (h : Chosen w cs) : Chosen w' cs := by
  intro hmem
  by_contra hp
  have hold := hback (Bool.not_eq_false _ ▸ hp)
  rw [h hmem] at hold
  exact Bool.false_ne_true hold

/-- The row is left as it is, or by one that holds the name. -/
theorem Rig.Holds.later (h : K.Holds w id slot n)
    (hrow : Store.lookup reservations w'.store.rows id = Store.lookup reservations w.store.rows id) :
    K.Holds w' id slot n := by
  obtain ⟨r, hr, hmine, hname, hguest⟩ := h
  exact ⟨r, hrow.trans hr, hmine, hname, fun hp => hguest (hback hp)⟩

end Later

end Rows

/-! ## The old column, while it is read -/

/-- A change writes the name its request brings into `guest_name`, or keeps what is there. -/
def Spells (req : Request) (before : Option Reservation) (after : Reservation) : Prop :=
  match req.guestName with
  | some n => after.guestName = some n
  | none => ∃ b, before = some b ∧ after.guestName = b.guestName

/-- So do all changes, and what requests are about to write. -/
structure Spelled (w : World) : Prop where
  written : Written Spells w
  inserting : ∀ t ∈ w.tasks, ∀ r, t.stage = .inserting r →
    ∀ n, t.request.guestName = some n → r.guestName = some n
  updating : ∀ t ∈ w.tasks, ∀ l ch, t.stage = .updating l ch →
    ∀ v, Spells t.request (some l.row) (ch.apply l.row v)

section Old

variable {env : Env} {init : List Reservation} {w : World} {i : Nat}

theorem writes_of_reads {p : Phase} (hp : p.readsGuestName = true) :
    Column.guestName ∈ writeColumns p := by
  revert hp
  cases p <;> decide

theorem spells_edit {user : User} {id : Nat} {op : Op} {p : Phase} {ed : Edit}
    (hp : p.readsGuestName = true) (hed : op.edit p = some ed) (l : Loaded) (v : Nat) :
    Spells (.onOne user id op) (some l.row) ((ed.changes.net l).apply l.row v) := by
  have hrow : ((ed.changes.net l).apply l.row v).guestName
      = (op.guestName.elim l.row (writeName p l.row)).guestName := by
    rw [edit_apply hed l v]
  unfold Spells
  show match op.guestName with | some n => _ | none => _
  cases hn : op.guestName with
  | none =>
    rw [hn] at hrow
    exact ⟨l.row, rfl, hrow⟩
  | some n =>
    rw [hn] at hrow
    refine hrow.trans ((get_writeName p l.row n .guestName).trans ?_)
    rw [if_pos (writes_of_reads hp)]
    rfl

/-- **Every row version that a stretch writes.** -/
theorem Spelled.write (h : Spelled w) (hinv : Inv env init w) {t : Task}
    (ht : w.tasks[i]? = some t) {before : Option Reservation} {row : Reservation} {st : Stage}
    (ha : Act env w i t.request t.stage (.write before row) st) :
    Spells t.request before row := by
  have hmem := List.mem_of_getElem? ht
  have hmade := (legal_of_act hinv ht ha).2.2.2.2
  have hs := hinv.stages i t ht
  have hins := h.inserting t hmem
  have hupd := h.updating t hmem
  obtain ⟨req, st₀⟩ := t
  cases ha with
  | @insert user body r _ => exact hins r rfl body.guestName rfl
  | @update user id op l ch r _ hr hv _ =>
    obtain rfl := loaded_row_eq hinv hs.1 hr hv
    exact hupd l ch rfl _
  | fillRow _ _ =>
    obtain ⟨b, v, hb, -, hrow⟩ := hmade
    rw [hrow]
    exact ⟨b, hb, rfl⟩

/-- **One stretch** while `guest_name` is read. -/
theorem Spelled.act (h : Spelled w) (hinv : Inv env init w) (hp : w.phase.readsGuestName = true)
    {t : Task} (ht : w.tasks[i]? = some t) {e : Effect} {st : Stage}
    (ha : Act env w i t.request t.stage e st) : Spelled (w.advance i t.request e st) := by
  refine ⟨h.written.act ht ha fun before row he => ?_, fun t' ht' r hr n hn => ?_,
    fun t' ht' l ch hst v => ?_⟩
  · subst he
    exact h.write hinv ht ha
  · rcases mem_tasks_advance ht' with ht' | rfl
    · exact h.inserting t' ht' r hr n hn
    · have hr : st = .inserting r := hr
      obtain ⟨req, st₀⟩ := t
      cases ha with
      | @prepare user body _ _ _ =>
        obtain rfl := Stage.inserting.inj hr
        refine (newReservation_get w.phase user body .guestName).trans ?_
        rw [if_pos (writes_of_reads hp)]
        exact hn
      | pass _ _ _ => exact absurd hr (by unfold Request.afterCheck; split <;> simp)
      | _ => exact absurd hr (by simp)
  · rcases mem_tasks_advance ht' with ht' | rfl
    · exact h.updating t' ht' l ch hst v
    · have hst : st = .updating l ch := hst
      obtain ⟨req, st₀⟩ := t
      cases ha with
      | change _ hed _ _ =>
        obtain ⟨rfl, rfl⟩ := Stage.updating.inj hst
        exact spells_edit hp hed _ v
      | pass _ _ _ => exact absurd hst (by unfold Request.afterCheck; split <;> simp)
      | _ => exact absurd hst (by simp)

theorem Spelled.abort (h : Spelled w) {t : Task} (ht : w.tasks[i]? = some t) (a : Answer) :
    Spelled (w.advance i t.request .abort (.done a)) := by
  refine ⟨h.written.abort ht a, fun t' ht' r hr => ?_, fun t' ht' l ch hst => ?_⟩
  · rcases mem_tasks_advance ht' with ht' | rfl
    · exact h.inserting t' ht' r hr
    · exact absurd hr (by simp)
  · rcases mem_tasks_advance ht' with ht' | rfl
    · exact h.updating t' ht' l ch hst
    · exact absurd hst (by simp)

theorem Spelled.arrive (h : Spelled w) (hinv : Inv env init w) (req : Request) :
    Spelled { w with tasks := w.tasks ++ [⟨req, .arrived⟩] } := by
  have hmem : ∀ {t : Task}, t ∈ w.tasks ++ [⟨req, .arrived⟩] → t ∈ w.tasks ∨ t = ⟨req, .arrived⟩ :=
    fun ht => (List.mem_append.mp ht).imp_right List.mem_singleton.mp
  refine ⟨h.written.arrive hinv req, fun t ht r hr => ?_, fun t ht l ch hst => ?_⟩
  · rcases hmem ht with ht | rfl
    · exact h.inserting t ht r hr
    · exact absurd hr (by simp)
  · rcases hmem ht with ht | rfl
    · exact h.updating t ht l ch hst
    · exact absurd hst (by simp)

end Old

/-! ## The runbook has no way back -/

/-- One step of the runbook at a time; `dual_write` is put in `legacy` only. -/
structure Onward (s : Rollout.Site) : Prop where
  once : ∀ (i j : Nat) (t t' : Task), s.world.tasks[i]? = some t → s.world.tasks[j]? = some t' →
    t.request.isApi = false → t'.request.isApi = false → t.status = none → t'.status = none → i = j
  dual : ∀ t ∈ s.world.tasks, t.request = .put .dualWrite → t.status = none →
    s.world.phase = .legacy

section Onward

variable {env : Env} {init : List Reservation} {s s' : Rollout.Site} {ev : Beside}

/-- **From the new columns there is no step back to `guest_name`.** -/
theorem Onward.back (h : Onward s) (hinv : Rollout.RolloutInv env init s)
    (hst : (Rollout.rollout env).step s ev = some s')
    (hp : s'.world.phase.readsGuestName = true) : s.world.phase.readsGuestName = true := by
  cases Rollout.step_cases hst with
  | upgrade target => exact hp
  | put _ => exact hp
  | batch _ => exact hp
  | serve _ hw =>
    cases step_cases hw with
    | arrive req => exact hp
    | victim _ _ => exact hp
    | @act i t e st ht ha _ =>
      rcases Rollout.apply_phase (w := s.world) (i := i) (e := e) with hsame | ⟨p, rfl, hset⟩
      · rw [← hsame]
        exact hp
      · have hreads : (s.world.apply i (.setPhase p)).phase.readsGuestName = true := hp
        rw [hset] at hreads
        have hno := hinv.noLegacy i t ht
        have hdual := h.dual t (List.mem_of_getElem? ht)
        obtain ⟨req, st₀⟩ := t
        cases ha with
        | setPhase =>
          cases p with
          | legacy => exact absurd rfl hno
          | dualWrite =>
            rw [hdual rfl rfl]
            rfl
          | _ => exact absurd hreads (by decide)

theorem quiet_iff : s.quiet = true ↔
    ∀ t ∈ s.world.tasks, t.request.isApi = true ∨ t.status.isSome = true := by
  unfold Rollout.Site.quiet
  rw [List.all_eq_true]
  simp only [Bool.or_eq_true]

/-- A step of the runbook begins when no other is under way. -/
theorem Onward.begins (h : Onward s) {req : Request} (hquiet : s.quiet = true)
    (hdual : req = .put .dualWrite → s.world.phase = .legacy) : Onward (s.arrive req) := by
  rw [quiet_iff] at hquiet
  have old : ∀ {i : Nat} {t : Task}, s.world.tasks[i]? = some t → t.request.isApi = false →
      t.status = none → False := by
    intro i t ht hapi hopen
    rcases hquiet t (List.mem_of_getElem? ht) with h1 | h1
    · exact absurd (hapi.symm.trans h1) (by decide)
    · rw [hopen] at h1
      exact absurd h1 (by decide)
  refine ⟨fun i j t t' ht ht' ha ha' ho ho' => ?_, fun t ht hreq ho => ?_⟩
  · rcases slot_of_concat ht with ht | ⟨hi, -⟩
    · exact (old ht ha ho).elim
    · rcases slot_of_concat ht' with ht' | ⟨hj, -⟩
      · exact (old ht' ha' ho').elim
      · exact hi.trans hj.symm
  · rcases List.mem_append.mp ht with ht | ht
    · exact h.dual t ht hreq ho
    · rw [List.mem_singleton.mp ht] at hreq
      exact hdual hreq

/-- A request on reservations arrives at any time. -/
theorem Onward.arrive (h : Onward s) {req : Request} (hapi : req.isApi = true) :
    Onward (s.arrive req) := by
  have old : ∀ {i : Nat} {t : Task}, (s.world.tasks ++ [⟨req, .arrived⟩])[i]? = some t →
      t.request.isApi = false → s.world.tasks[i]? = some t := by
    intro i t ht ha
    rcases slot_of_concat ht with ht | ⟨-, rfl⟩
    · exact ht
    · exact absurd (ha.symm.trans hapi) (by decide)
  refine ⟨fun i j t t' ht ht' ha ha' => h.once i j t t' (old ht ha) (old ht' ha') ha ha',
    fun t ht hreq => ?_⟩
  rcases List.mem_append.mp ht with ht | ht
  · exact h.dual t ht hreq
  · rw [List.mem_singleton.mp ht] at hreq
    rw [show req = _ from hreq] at hapi
    exact absurd hapi (by decide)

/-- A task moves on, and sets no phase that another one might. -/
theorem Onward.advance (h : Onward s) {i : Nat} {t : Task} (ht : s.world.tasks[i]? = some t)
    (hopen : t.status = none) {e : Effect} {st : Stage}
    (hset : ∀ p, e = .setPhase p → t.request.isApi = false ∧ ∃ a, st = .done a) :
    Onward { s with world := s.world.advance i t.request e st } := by
  -- a task that is not done has not been done before
  have old : ∀ {j : Nat} {t' : Task}, (s.world.advance i t.request e st).tasks[j]? = some t' →
      t'.status = none → ∃ t'', s.world.tasks[j]? = some t'' ∧ t''.request = t'.request ∧
        t''.status = none := by
    intro j t' ht' ho
    rcases task_of_advance ht' with ⟨rfl, rfl⟩ | ⟨-, ht'⟩
    · exact ⟨t, ht, rfl, hopen⟩
    · exact ⟨t', ht', rfl, ho⟩
  refine ⟨fun j k t₁ t₂ h₁ h₂ ha₁ ha₂ ho₁ ho₂ => ?_, fun t' ht' hreq ho => ?_⟩
  · obtain ⟨t₁', h₁, hr₁, ho₁⟩ := old h₁ ho₁
    obtain ⟨t₂', h₂, hr₂, ho₂⟩ := old h₂ ho₂
    exact h.once j k t₁' t₂' h₁ h₂ (by rw [hr₁]; exact ha₁) (by rw [hr₂]; exact ha₂) ho₁ ho₂
  · obtain ⟨j, hj⟩ := List.mem_iff_getElem?.mp ht'
    obtain ⟨t'', ht'', hr, ho''⟩ := old hj ho
    have hlegacy := h.dual t'' (List.mem_of_getElem? ht'') (hr.trans hreq) ho''
    rcases Rollout.apply_phase (w := s.world) (i := i) (e := e) with hsame | ⟨p, he, -⟩
    · exact hsame.trans hlegacy
    · -- the task that sets the phase is the one step under way, and is done
      obtain ⟨hapi, a, rfl⟩ := hset p he
      have hput : t''.request.isApi = false := by
        rw [hr, hreq]
        rfl
      have heq := h.once i j t t'' ht ht'' hapi hput hopen ho''
      subst heq
      rw [advance_task_self ht] at hj
      obtain rfl := Option.some.inj hj
      exact absurd ho (by simp [Task.status])

theorem Onward.step (h : Onward s) (hst : (Rollout.rollout env).step s ev = some s') :
    Onward s' := by
  cases ev with
  | run a =>
    obtain ⟨hcond, hst⟩ := Option.ite_none_right_eq_some.mp hst
    obtain ⟨hquiet, hnext⟩ := Bool.and_eq_true_iff.mp hcond
    obtain rfl := Option.some.inj hst
    cases a with
    | upgrade target => exact ⟨h.once, h.dual⟩
    | put target =>
      refine h.begins hquiet fun hreq => ?_
      obtain rfl := Request.put.inj hreq
      exact eq_of_beq (Bool.and_eq_true_iff.mp hnext).2
    | batch lastId size => exact h.begins hquiet nofun
  | serve l =>
    cases Rollout.step_cases hst with
    | serve hl hw =>
      cases step_cases hw with
      | arrive req => exact h.arrive hl
      | @act i t e st ht ha hact =>
        refine h.advance ht ?_ fun p hp => ?_
        · obtain ⟨req, st₀⟩ := t
          cases ha <;> rfl
        · subst hp
          obtain ⟨req, st₀⟩ := t
          cases ha
          exact ⟨rfl, _, rfl⟩
      | @victim i rest t ht hc =>
        obtain ⟨j, hj⟩ := waitCycle_head hc
        obtain ⟨-, t', ht', hw⟩ := waitsFor_iff.mp hj
        obtain rfl := Option.some.inj (ht.symm.trans ht')
        refine h.advance ht ?_ nofun
        obtain ⟨req, st₀⟩ := t
        cases hw <;> rfl

end Onward

/-! ## The script's windows -/

/-- A row version of the table, committed or in progress. -/
def Present (w : World) (x : Reservation) : Prop :=
  x ∈ w.store.rows ∨ ∃ d ∈ w.store.drafts, d.row = x

/-- A booking at this stage has sent its INSERT. -/
def hasInserted : Stage → Bool
  | .checking _ _ | .committing _ | .saved _ | .reloading _ _ | .reloaded _ | .done _ => true
  | _ => false

/-- The request is the script's booking of the slot. -/
def Rig.Books (K : Rig) (req : Request) (slot : Nat) : Prop :=
  ∃ name, req = .post K.user (K.payload slot name)

/-- On the script's table, behind the start of its first day. -/
def Rig.InReach (K : Rig) (tableId : Nat) (endsAt : Int) : Prop :=
  tableId = K.table.id ∧ K.base < endsAt

/-- **Every window of the script is booked once**, and taken by that booking only. -/
structure Rig.Placed (K : Rig) (w : World) : Prop where
  slots : ∀ (i j : Nat) (t t' : Task), w.tasks[i]? = some t → w.tasks[j]? = some t' →
    ∀ slot, K.Books t.request slot → K.Books t'.request slot → i = j
  bookings : ∀ t ∈ w.tasks, ∀ user body, t.request = .post user body →
    K.InReach body.restaurantTableId body.endsAt → ∃ slot, K.Books t.request slot
  source : ∀ x, Present w x → K.InReach x.restaurantTableId x.endsAt →
    ∃ (i : Nat) (t : Task) (slot : Nat), w.tasks[i]? = some t ∧ K.Books t.request slot ∧
      hasInserted t.stage = true ∧ x.startsAt = slotStart K.base slot ∧
      x.endsAt = slotStart K.base slot + sitting
  single : ∀ x y, Present w x → Present w y → K.InReach x.restaurantTableId x.endsAt →
    K.InReach y.restaurantTableId y.endsAt → x.startsAt = y.startsAt → x.id = y.id

section Windows

variable {K : Rig} {env : Env} {init : List Reservation} {w : World} {i : Nat}

theorem present_apply {e : Effect} {x : Reservation} (h : Present (w.apply i e) x) :
    Present w x ∨ ∃ before, e = .write before x := by
  rcases h with hx | ⟨d, hd, rfl⟩
  · rcases mem_apply_rows hx with hx | ⟨d, hd, -, rfl⟩
    · exact .inl (.inl hx)
    · exact .inl (.inr ⟨d, hd, rfl⟩)
  · rcases mem_apply_drafts hd with ⟨d₀, hd₀, -, -, hr⟩ | ⟨before, row, rfl, rfl⟩
    · exact .inl (.inr ⟨d₀, hd₀, hr.symm⟩)
    · exact .inr ⟨before, rfl⟩

/-- A stretch of a booking that has sent its INSERT leads to one that has. -/
theorem hasInserted_act {user : User} {body : ReservationCreate} {st st' : Stage} {e : Effect}
    (ha : Act env w i (.post user body) st e st') (h : hasInserted st = true) :
    hasInserted st' = true := by
  cases ha with
  | pass _ _ _ => rfl
  | prepare _ => exact absurd h Bool.false_ne_true
  | noTable _ _ => exact absurd h Bool.false_ne_true
  | lockTable _ _ _ => exact absurd h Bool.false_ne_true
  | _ => rfl

/-- A booking in reach that is about to be inserted is the script's. -/
theorem Rig.Placed.insert_slot (h : K.Placed w) {user : User} {body : ReservationCreate}
    {st : Stage} (ht : w.tasks[i]? = some ⟨.post user body, st⟩) {x : Reservation}
    (hasked : Asked user body x) (hx : K.InReach x.restaurantTableId x.endsAt) :
    ∃ slot, K.Books (.post user body) slot ∧ x.startsAt = slotStart K.base slot ∧
      x.endsAt = slotStart K.base slot + sitting := by
  rw [hasked.restaurantTableId, hasked.endsAt] at hx
  obtain ⟨slot, name, hreq⟩ := h.bookings _ (List.mem_of_getElem? ht) user body rfl hx
  obtain ⟨rfl, rfl⟩ := Request.post.inj hreq
  exact ⟨slot, ⟨name, rfl⟩, hasked.startsAt, hasked.endsAt⟩

/-- **A stretch keeps the windows apart.** -/
theorem Rig.Placed.act (h : K.Placed w) (hinv : Inv env init w) {t : Task}
    (ht : w.tasks[i]? = some t) {e : Effect} {st : Stage}
    (ha : Act env w i t.request t.stage e st) : K.Placed (w.advance i t.request e st) := by
  -- a row version that is written: it replaces a committed one, or a booking inserts it
  have written : ∀ before x, e = .write before x →
      (∃ b ∈ w.store.rows, x.id = b.id ∧ x.restaurantTableId = b.restaurantTableId ∧
        x.startsAt = b.startsAt ∧ x.endsAt = b.endsAt) ∨
      (hasInserted t.stage = false ∧ hasInserted st = true ∧
        (K.InReach x.restaurantTableId x.endsAt → ∃ slot, K.Books t.request slot ∧
          x.startsAt = slotStart K.base slot ∧ x.endsAt = slotStart K.base slot + sitting)) := by
    rintro before x rfl
    have hlegal := legal_of_act hinv ht ha
    have hbase := hlegal.1.base _ (List.mem_singleton.mpr rfl)
    have hmade := hlegal.2.2.2.2
    cases before with
    | some b => exact .inl ⟨b, (Store.lookup_some hbase).1, hmade.place⟩
    | none =>
      have hs := hinv.stages i t ht
      obtain ⟨req, st₀⟩ := t
      cases ha with
      | @insert user body r _ =>
        obtain ⟨-, user', body', p, hreq, -, rfl⟩ := hs
        obtain ⟨rfl, rfl⟩ := Request.post.inj hreq
        exact .inr ⟨rfl, rfl, h.insert_slot ht (asked_inserted env p _ _ _ _)⟩
  have source : ∀ x, Present (w.apply i e) x → K.InReach x.restaurantTableId x.endsAt →
      ∃ (j : Nat) (t' : Task) (slot : Nat), (w.advance i t.request e st).tasks[j]? = some t' ∧
        K.Books t'.request slot ∧ hasInserted t'.stage = true ∧
        x.startsAt = slotStart K.base slot ∧ x.endsAt = slotStart K.base slot + sitting := by
    have old : ∀ x, Present w x → K.InReach x.restaurantTableId x.endsAt →
        ∃ (j : Nat) (t' : Task) (slot : Nat), (w.advance i t.request e st).tasks[j]? = some t' ∧
          K.Books t'.request slot ∧ hasInserted t'.stage = true ∧
          x.startsAt = slotStart K.base slot ∧ x.endsAt = slotStart K.base slot + sitting := by
      intro x hx hreach
      obtain ⟨j, t', slot, ht', hbooks, hins, hwin⟩ := h.source x hx hreach
      by_cases hj : j = i
      · subst hj
        obtain rfl := Option.some.inj (ht.symm.trans ht')
        obtain ⟨name, hreq⟩ := id hbooks
        refine ⟨j, _, slot, advance_task_self ht, hbooks, ?_, hwin⟩
        rw [hreq] at ha
        exact hasInserted_act ha hins
      · exact ⟨j, t', slot, (advance_task_ne hj).trans ht', hbooks, hins, hwin⟩
    intro x hx hreach
    rcases present_apply hx with hx | ⟨before, he⟩
    · exact old x hx hreach
    · rcases written before x he with ⟨b, hb, -, htab, hstart, hend⟩ | ⟨-, hins, hslot⟩
      · rw [htab, hend] at hreach
        rw [hstart, hend]
        exact old b (.inl hb) hreach
      · obtain ⟨slot, hbooks, hwin⟩ := hslot hreach
        exact ⟨i, _, slot, advance_task_self ht, hbooks, hins, hwin⟩
  -- the new row version against those that were there
  have single : ∀ before x y, e = .write before x → Present w y →
      K.InReach x.restaurantTableId x.endsAt → K.InReach y.restaurantTableId y.endsAt →
      x.startsAt = y.startsAt → x.id = y.id := by
    intro before x y he hy hx hy' hxy
    rcases written before x he with ⟨b, hb, hid, htab, hstart, hend⟩ | ⟨hno, -, hslot⟩
    · rw [htab, hend] at hx
      exact hid.trans (h.single b y (.inl hb) hy hx hy' (hstart.symm.trans hxy))
    · obtain ⟨slot, hbooks, hstart, -⟩ := hslot hx
      obtain ⟨j, t', slot', ht', hbooks', hins, hstart', -⟩ := h.source y hy hy'
      obtain rfl : slot = slot' :=
        slotStart_inj (hstart.symm.trans (hxy.trans hstart'))
      obtain rfl := h.slots i j t t' ht ht' slot hbooks hbooks'
      obtain rfl := Option.some.inj (ht.symm.trans ht')
      exact absurd (hno.symm.trans hins) (by decide)
  refine ⟨fun j k t₁ t₂ h₁ h₂ slot hb₁ hb₂ => ?_, fun t' ht' user body hreq hreach => ?_, source,
    fun x y hx hy hxr hyr hxy => ?_⟩
  · obtain ⟨t₁', h₁', hr₁⟩ := request_before ht h₁
    obtain ⟨t₂', h₂', hr₂⟩ := request_before ht h₂
    exact h.slots j k t₁' t₂' h₁' h₂' slot (hr₁ ▸ hb₁) (hr₂ ▸ hb₂)
  · rcases mem_tasks_advance ht' with ht' | rfl
    · exact h.bookings t' ht' user body hreq hreach
    · exact h.bookings t (List.mem_of_getElem? ht) user body hreq hreach
  · rcases present_apply hx with hx | ⟨before, hx⟩
    · rcases present_apply hy with hy | ⟨before, hy⟩
      · exact h.single x y hx hy hxr hyr hxy
      · exact (single before y x hy hx hyr hxr hxy.symm).symm
    · rcases present_apply hy with hy | ⟨before', hy⟩
      · exact single before x y hx hy hxr hyr hxy
      · rw [hx] at hy
        rw [(Effect.write.inj hy).2]

theorem Rig.Placed.abort (h : K.Placed w) {t : Task} (ht : w.tasks[i]? = some t) (a : Answer) :
    K.Placed (w.advance i t.request .abort (.done a)) := by
  have present : ∀ {x}, Present (w.apply i .abort) x → Present w x :=
    fun hx => (present_apply hx).resolve_right nofun
  refine ⟨fun j k t₁ t₂ h₁ h₂ slot hb₁ hb₂ => ?_, fun t' ht' user body hreq hreach => ?_,
    fun x hx hreach => ?_, fun x y hx hy => h.single x y (present hx) (present hy)⟩
  · obtain ⟨t₁', h₁', hr₁⟩ := request_before ht h₁
    obtain ⟨t₂', h₂', hr₂⟩ := request_before ht h₂
    exact h.slots j k t₁' t₂' h₁' h₂' slot (hr₁ ▸ hb₁) (hr₂ ▸ hb₂)
  · rcases mem_tasks_advance ht' with ht' | rfl
    · exact h.bookings t' ht' user body hreq hreach
    · exact h.bookings t (List.mem_of_getElem? ht) user body hreq hreach
  · obtain ⟨j, t', slot, ht', hbooks, hins, hwin⟩ := h.source x (present hx) hreach
    by_cases hj : j = i
    · subst hj
      obtain rfl := Option.some.inj (ht.symm.trans ht')
      exact ⟨j, _, slot, advance_task_self ht, hbooks, rfl, hwin⟩
    · exact ⟨j, t', slot, (advance_task_ne hj).trans ht', hbooks, hins, hwin⟩

/-- A request arrives: none in reach, or the booking of a new slot. -/
theorem Rig.Placed.arrive (h : K.Placed w) {req : Request}
    (hreach : ∀ user body, req = .post user body → K.InReach body.restaurantTableId body.endsAt →
      ∃ slot, K.Books req slot)
    (hnew : ∀ t ∈ w.tasks, ∀ slot, K.Books req slot → ¬ K.Books t.request slot) :
    K.Placed { w with tasks := w.tasks ++ [⟨req, .arrived⟩] } := by
  refine ⟨fun i j t t' ht ht' slot hb hb' => ?_, fun t ht user body hreq hr => ?_,
    fun x hx hr => ?_, h.single⟩
  · rcases slot_of_concat ht with ht | ⟨hi, rfl⟩
    · rcases slot_of_concat ht' with ht' | ⟨-, rfl⟩
      · exact h.slots i j t t' ht ht' slot hb hb'
      · exact absurd hb (hnew t (List.mem_of_getElem? ht) slot hb')
    · rcases slot_of_concat ht' with ht' | ⟨hj, -⟩
      · exact absurd hb' (hnew t' (List.mem_of_getElem? ht') slot hb)
      · exact hi.trans hj.symm
  · rcases List.mem_append.mp ht with ht | ht
    · exact h.bookings t ht user body hreq hr
    · rw [List.mem_singleton.mp ht] at hreq ⊢
      exact hreach user body hreq hr
  · obtain ⟨i, t, slot, ht, hrest⟩ := h.source x hx hr
    exact ⟨i, t, slot, slot_append ht _, hrest⟩

/-- **Row versions in reach that would clash are versions of one reservation.** -/
theorem Rig.Placed.same_id (h : K.Placed w) {x y : Reservation} (hx : Present w x)
    (hy : Present w y) (hreach : K.InReach x.restaurantTableId x.endsAt)
    (hc : doubleBooking x y = true) : x.id = y.id := by
  obtain ⟨-, -, hslot⟩ := (doubleBooking_iff _ _).mp hc
  obtain ⟨htab, hover⟩ := Bool.and_eq_true_iff.mp hslot
  obtain ⟨i, t, slot, -, hbooks, -, hs, he⟩ := h.source x hx hreach
  -- the slots begin behind the first day, so the other window ends in reach
  have hyreach : K.InReach y.restaurantTableId y.endsAt := by
    refine ⟨(eq_of_beq htab).symm.trans hreach.1, ?_⟩
    simp only [overlaps, Bool.and_eq_true, decide_eq_true_eq] at hover
    have hle : K.base ≤ slotStart K.base slot := by
      unfold slotStart hour
      omega
    omega
  obtain ⟨j, t', slot', -, hbooks', -, hs', he'⟩ := h.source y hy hyreach
  rw [hs, he, hs', he'] at hover
  refine h.single x y hx hy hreach hyreach ?_
  rw [hs, hs', slots_apart hover]

/-- **No check of a row version in reach fails.** -/
theorem Rig.Placed.not_violated (h : K.Placed w) {d : Draft Reservation}
    (hd : d ∈ w.store.drafts) (hreach : K.InReach d.row.restaurantTableId d.row.endsAt) :
    w.store.violated reservations d = false := by
  by_contra hv
  obtain ⟨r, hr, hne, hc⟩ := Store.violated_iff.mp (Bool.not_eq_false _ ▸ hv)
  have hpresent : Present w r := by
    rcases Store.mem_seen.mp hr with ⟨hr, -⟩ | ⟨d', hd', -, rfl⟩
    · exact .inl hr
    · exact .inr ⟨d', hd', rfl⟩
  exact hne (h.same_id (.inr ⟨d, hd, rfl⟩) hpresent hreach hc).symm

/-- **And none waits for it**, or makes it wait. -/
theorem Rig.Placed.not_blocked (h : K.Placed w) (hinv : Inv env init w) {d d' : Draft Reservation}
    (hd : d ∈ w.store.drafts) (hd' : d' ∈ w.store.drafts)
    (hreach : K.InReach d.row.restaurantTableId d.row.endsAt ∨
      K.InReach d'.row.restaurantTableId d'.row.endsAt) :
    Store.blocks reservations d d' = false := by
  by_contra hb
  obtain ⟨hne, hc⟩ := Bool.and_eq_true_iff.mp (Bool.not_eq_false _ ▸ hb)
  have huniq : d.row.id = d'.row.id → False := by
    intro hid
    rw [Store.draft_unique hinv.sound.draftKeys hd hd' hid] at hne
    exact absurd hne (by simp)
  have hp : Present w d.row := .inr ⟨d, hd, rfl⟩
  have hp' : Present w d'.row := .inr ⟨d', hd', rfl⟩
  rcases Bool.or_eq_true_iff.mp hc with hc | hc
  · rcases hreach with hreach | hreach
    · exact huniq (h.same_id hp hp' hreach hc)
    · exact huniq (h.same_id hp' hp hreach ((doubleBooking_comm _ _).trans hc)).symm
  · -- the row that the other one replaces is in the same window
    obtain ⟨b, hbef, hc⟩ := (Option.any_eq_true _ _).mp hc
    have hbase := hinv.sound.base d' hd'
    rw [hbef] at hbase
    have hb : Present w b := .inl (Store.lookup_some hbase).1
    obtain ⟨t, -, hmade, -⟩ := hinv.writers d' hd'
    rw [hbef] at hmade
    obtain ⟨hid, htab, -, hend⟩ := hmade.place
    rcases hreach with hreach | hreach
    · exact huniq ((h.same_id hp hb hreach hc).trans hid.symm)
    · rw [htab, hend] at hreach
      exact huniq ((h.same_id hb hp hreach ((doubleBooking_comm _ _).trans hc)).symm.trans hid.symm)

end Windows

/-! ## The service beside the script -/

/-- A request that the script sends. -/
inductive Rig.Sends (K : Rig) : Request → Prop
  | post (slot : Nat) (name : Name) : K.Sends (.post K.user (K.payload slot name))
  | get (rid : Nat) : K.Sends (.onOne K.user rid .get)
  | patch (rid v : Nat) (name : Name) :
      K.Sends (.onOne K.user rid (.patch (some (etag v)) (renameBody name)))

/-- What holds of the site, whatever the script waits for. -/
structure Serving (K : Rig) (env : Env) (init : List Reservation) (s : Rollout.Site) : Prop where
  rollout : Rollout.RolloutInv env init s
  guarded : Guarded s.world
  about : ∀ t ∈ s.world.tasks, AboutRow t.request t.stage
  filled : Filled s.world
  spelled : s.world.phase.readsGuestName = true → Spelled s.world
  onward : Onward s
  placed : K.Placed s.world
  sent : ∀ t ∈ s.world.tasks, K.Sends t.request ∨ K.Admits t.request

section Site

variable {K : Rig} {env : Env} {init : List Reservation} {s s' : Rollout.Site}

theorem Rig.Books.inReach {req : Request} {slot : Nat} (h : K.Books req slot) {user : User}
    {body : ReservationCreate} (hreq : req = .post user body) :
    K.InReach body.restaurantTableId body.endsAt := by
  obtain ⟨name, hbook⟩ := h
  obtain ⟨-, rfl⟩ := Request.post.inj (hreq.symm.trans hbook)
  refine ⟨rfl, ?_⟩
  show K.base < slotStart K.base slot + sitting
  unfold slotStart hour sitting
  omega

theorem Rig.Books.unique {req : Request} {slot slot' : Nat} (h : K.Books req slot)
    (h' : K.Books req slot') : slot = slot' := by
  obtain ⟨name, hreq⟩ := h
  obtain ⟨name', hreq'⟩ := h'
  have hbody := (Request.post.inj (hreq.symm.trans hreq')).2
  exact slotStart_inj (show slotStart K.base slot = slotStart K.base slot' from
    congrArg ReservationCreate.startsAt hbody)

/-- Nobody else books a slot. -/
theorem Rig.Admits.not_books {req : Request} (h : K.Admits req) (slot : Nat) :
    ¬ K.Books req slot := by
  intro hbook
  obtain ⟨name, rfl⟩ := id hbook
  have hreach := hbook.inReach rfl
  have hend : (K.payload slot name).endsAt ≤ K.base := h hreach.1
  have hlt : K.base < (K.payload slot name).endsAt := hreach.2
  omega

/-- **A request arrives**, the next booking of the script or one that books no slot. -/
theorem Serving.arrive (h : Serving K env init s) {req : Request}
    (hinv : Rollout.RolloutInv env init (s.arrive req)) (honward : Onward (s.arrive req))
    (hsent : K.Sends req ∨ K.Admits req)
    (hnew : ∀ t ∈ s.world.tasks, ∀ slot, K.Books req slot → ¬ K.Books t.request slot) :
    Serving K env init (s.arrive req) := by
  have hmem : ∀ {t : Task}, t ∈ s.world.tasks ++ [⟨req, .arrived⟩] →
      t ∈ s.world.tasks ∨ t = ⟨req, .arrived⟩ :=
    fun ht => (List.mem_append.mp ht).imp_right List.mem_singleton.mp
  refine ⟨hinv, ⟨h.guarded.written.arrive h.rollout.inv req, fun t ht => ?_⟩, fun t ht => ?_,
    h.filled, fun hp => (h.spelled hp).arrive h.rollout.inv req, honward,
    h.placed.arrive (fun user body hreq hreach => ?_) hnew, fun t ht => ?_⟩
  · rcases hmem ht with ht | rfl
    · exact h.guarded.owned t ht
    · trivial
  · rcases hmem ht with ht | rfl
    · exact h.about t ht
    · exact fun _ _ _ _ => trivial
  · rcases hsent with hsent | hsent
    · cases hsent with
      | post slot name => exact ⟨slot, name, rfl⟩
      | get rid => exact absurd hreq (by simp)
      | patch rid v name => exact absurd hreq (by simp)
    · subst hreq
      have hend : body.endsAt ≤ K.base := hsent hreach.1
      have hlt : K.base < body.endsAt := hreach.2
      omega
  · rcases hmem ht with ht | rfl
    · exact h.sent t ht
    · exact hsent

/-- The script sends a request. -/
theorem Serving.send (h : Serving K env init s) {req : Request} (hsent : K.Sends req)
    (hnew : ∀ t ∈ s.world.tasks, ∀ slot, K.Books req slot → ¬ K.Books t.request slot) :
    Serving K env init (s.arrive req) := by
  have hapi : req.isApi = true := by cases hsent <;> rfl
  refine h.arrive (h.rollout.arrive ?_ fun _ lastId size => ?_) (h.onward.arrive hapi) (.inl hsent)
    hnew
  · rintro rfl
    exact absurd hapi (by decide)
  · rintro rfl
    exact absurd hapi Bool.false_ne_true

/-- **The site goes on.** -/
theorem Serving.step (h : Serving K env init s) {ev : Beside} (htime : Rollout.InTime s ev)
    (hadmits : ∀ req, ev = .serve (.arrive req) → K.Admits req)
    (hst : (Rollout.rollout env).step s ev = some s') : Serving K env init s' := by
  have hinv := h.rollout.step hst
  have honward := h.onward.step hst
  have hfilled := (Rollout.carried_iff hinv).mp
    (Rollout.Carried.step h.rollout ((Rollout.carried_iff h.rollout).mpr h.filled) htime hst)
  have hback := h.onward.back h.rollout hst
  cases Rollout.step_cases hst with
  | upgrade target =>
    exact ⟨hinv, h.guarded, h.about, h.filled, h.spelled, honward, h.placed, h.sent⟩
  | put _ => exact h.arrive hinv honward (.inr trivial) fun _ _ _ ⟨_, hreq⟩ => absurd hreq nofun
  | batch _ => exact h.arrive hinv honward (.inr trivial) fun _ _ _ ⟨_, hreq⟩ => absurd hreq nofun
  | serve hl hw =>
    have hguarded := h.guarded.step h.rollout.inv hw
    cases step_cases hw with
    | arrive req =>
      have hadm := hadmits req rfl
      exact h.arrive hinv honward (.inr hadm) fun _ _ slot hbook => absurd hbook (hadm.not_books slot)
    | @act i t e st ht ha _ =>
      refine ⟨hinv, hguarded, fun t' ht' => ?_, hfilled, fun hp => ?_, honward,
        h.placed.act h.rollout.inv ht ha, fun t' ht' => ?_⟩
      · rcases mem_tasks_advance ht' with ht' | rfl
        · exact h.about t' ht'
        · exact ha.aboutRow (h.about _ (List.mem_of_getElem? ht))
      · exact (h.spelled (hback hp)).act h.rollout.inv (hback hp) ht ha
      · rcases mem_tasks_advance ht' with ht' | rfl
        · exact h.sent t' ht'
        · exact h.sent t (List.mem_of_getElem? ht)
    | @victim i rest t ht _ =>
      refine ⟨hinv, hguarded, fun t' ht' => ?_, hfilled, fun hp => (h.spelled hp).abort ht _,
        honward, h.placed.abort ht _, fun t' ht' => ?_⟩
      · rcases mem_tasks_advance ht' with ht' | rfl
        · exact h.about t' ht'
        · exact fun _ _ _ _ => trivial
      · rcases mem_tasks_advance ht' with ht' | rfl
        · exact h.sent t' ht'
        · exact h.sent t (List.mem_of_getElem? ht)

end Site

/-! ## Its rows keep their names -/

section Keeping

variable {K : Rig} {env : Env} {init : List Reservation} {s : Rollout.Site} {i : Nat} {t : Task}
  {d : Draft Reservation} {id slot : Nat} {n : Text}

theorem Rig.Mine.terms {r r' : Reservation} (h : K.Mine slot r) (heq : r'.terms = r.terms) :
    K.Mine slot r' where
  user := (congrArg Terms.userId heq).trans h.user
  table := (congrArg Terms.restaurantTableId heq).trans h.table
  startsAt := (congrArg Terms.startsAt heq).trans h.startsAt
  endsAt := (congrArg Terms.endsAt heq).trans h.endsAt
  dated := h.dated

/-- The driver loads the script's bookings. -/
theorem Rig.Mine.loads {r : Reservation} (h : K.Mine slot r) : loads r = true := by
  unfold TableFlow.loads
  rw [h.startsAt, h.endsAt, h.dated.1, h.dated.2]
  rfl

theorem Rig.Mine.inReach {r : Reservation} (h : K.Mine slot r) :
    K.InReach r.restaurantTableId r.endsAt := by
  refine ⟨h.table, ?_⟩
  rw [h.endsAt]
  unfold slotStart hour sitting
  omega

/-- The row that a row version of `id` replaces. -/
theorem Serving.before (h : Serving K env init s) (hold : K.Holds s.world id slot n)
    (hd : d ∈ s.world.store.drafts) (hid : d.row.id = id) :
    ∃ r, d.before = some r ∧ K.Mine slot r ∧ Rollout.HoldsName n r ∧
      (s.world.phase.readsGuestName = true → r.guestName = some n) := by
  obtain ⟨r, hr, hrest⟩ := hold
  have hbase := h.rollout.inv.sound.base d hd
  rw [show reservations.key d.row = id from hid, hr] at hbase
  exact ⟨r, hbase.symm, hrest⟩

/-- The reload, or a SELECT, of a row of the script does not fail. -/
theorem Rig.Holds.loadError {w : World} (hold : K.Holds w id slot n) :
    loadError w.store.rows id = none := by
  obtain ⟨r, hr, hmine, -⟩ := hold
  exact loadError_of_lookup hr hmine.loads

theorem Serving.mine_of_holds (h : Serving K env init s) (hold : K.Holds s.world id slot n)
    (hd : d ∈ s.world.store.drafts) (hid : d.row.id = id) : K.Mine slot d.row := by
  obtain ⟨r, hbefore, hmine, -⟩ := h.before hold hd hid
  obtain ⟨t, -, hmade, -⟩ := h.rollout.inv.writers d hd
  rw [hbefore] at hmade
  exact hmine.terms hmade.terms

theorem Serving.mine_of_books (h : Serving K env init s) (ht : s.world.tasks[i]? = some t)
    (hbook : K.Books t.request slot) (hdated : K.Dated slot) (hd : d ∈ s.world.store.drafts)
    (ho : d.owner = i) : K.Mine slot d.row := by
  obtain ⟨name, hreq⟩ := hbook
  have hperm := h.guarded.written.drafts d hd t (ho ▸ ht)
  rw [hreq] at hperm
  obtain ⟨-, hasked⟩ := hperm
  exact ⟨hasked.userId, hasked.restaurantTableId, hasked.startsAt, hasked.endsAt, hdated⟩

/-- What a request that brings a name has in progress holds this name. -/
theorem Serving.brings (h : Serving K env init s) (ht : s.world.tasks[i]? = some t)
    (hn : t.request.guestName = some n) (hd : d ∈ s.world.store.drafts) (ho : d.owner = i) :
    Rollout.HoldsName n d.row ∧
      (s.world.phase.readsGuestName = true → d.row.guestName = some n) := by
  have hcarries := h.rollout.names.drafts d hd t (ho ▸ ht)
  unfold Rollout.Carries at hcarries
  rw [hn] at hcarries
  refine ⟨hcarries, fun hp => ?_⟩
  have hspells := (h.spelled hp).written.drafts d hd t (ho ▸ ht)
  unfold Spells at hspells
  rw [hn] at hspells
  exact hspells

/-- What one that brings none has in progress keeps the name of the row. -/
theorem Serving.brings_none (h : Serving K env init s) (ht : s.world.tasks[i]? = some t)
    (hn : t.request.guestName = none) (hd : d ∈ s.world.store.drafts) (ho : d.owner = i)
    {r : Reservation} (hr : d.before = some r) (hname : Rollout.HoldsName n r)
    (hguest : s.world.phase.readsGuestName = true → r.guestName = some n) :
    Rollout.HoldsName n d.row ∧
      (s.world.phase.readsGuestName = true → d.row.guestName = some n) := by
  have hcarries := h.rollout.names.drafts d hd t (ho ▸ ht)
  unfold Rollout.Carries at hcarries
  rw [hn, hr] at hcarries
  obtain ⟨b, hb, hkeeps⟩ := hcarries
  obtain rfl := Option.some.inj hb
  refine ⟨hkeeps n hname, fun hp => ?_⟩
  have hspells := (h.spelled hp).written.drafts d hd t (ho ▸ ht)
  unfold Spells at hspells
  rw [hn, hr] at hspells
  obtain ⟨b, hb, hsame⟩ := hspells
  obtain rfl := Option.some.inj hb
  exact hsame.trans (hguest hp)

/-- **The row after a commit** is the row version that was in progress. -/
theorem Serving.holds_commit (h : Serving K env init s) (hd : d ∈ s.world.store.drafts)
    (ho : d.owner = i) (hid : d.row.id = id) (hmine : K.Mine slot d.row)
    (hname : Rollout.HoldsName n d.row ∧
      (s.world.phase.readsGuestName = true → d.row.guestName = some n)) :
    K.Holds (s.world.apply i .commit) id slot n := by
  subst ho hid
  exact ⟨d.row, Store.lookup_seen_of_draft hd h.rollout.inv.sound.draftKeys, hmine, hname⟩

/-- Nobody else names a row of the script. -/
theorem Serving.unnamed (h : Serving K env init s) (ht : s.world.tasks[i]? = some t)
    (hold : K.Holds s.world id slot n) (hd : d ∈ s.world.store.drafts) (ho : d.owner = i)
    (hid : d.row.id = id)
    (hnot : ∀ v name, t.request ≠ .onOne K.user id (.patch (some (etag v)) (renameBody name))) :
    t.request.guestName = none := by
  obtain ⟨r, hbefore, hmine, -⟩ := h.before hold hd hid
  have hmade := (h.rollout.inv.writes ht hd ho).1
  have hperm := h.guarded.written.drafts d hd t (ho ▸ ht)
  have hsent := h.sent t (List.mem_of_getElem? ht)
  rw [hbefore] at hmade hperm
  obtain ⟨req, st⟩ := t
  cases req with
  | post user body => exact absurd hmade.1 (by simp)
  | list user limit => rfl
  | put target => rfl
  | batch lastId size => rfl
  | onOne user id' op =>
    obtain ⟨b, hb, hkey, hreach, hterms⟩ := hperm
    obtain rfl := Option.some.inj hb
    obtain rfl : id = id' := hid.symm.trans ((congrArg Terms.id hterms).trans hkey)
    rcases hsent with hsent | rfl | ⟨hrole, hne⟩
    · cases hsent with
      | get => rfl
      | patch _ v name => exact absurd rfl (hnot v name)
    · rfl
    · exact absurd (hmine.user.symm.trans (hreach hrole)).symm hne

/-- **A stretch of another request leaves the script's row its name.** -/
theorem Serving.keeps (h : Serving K env init s) (ht : s.world.tasks[i]? = some t) {e : Effect}
    (hback : (s.world.apply i e).phase.readsGuestName = true →
      s.world.phase.readsGuestName = true)
    (hold : K.Holds s.world id slot n)
    (hnot : e = .commit →
      ∀ v name, t.request ≠ .onOne K.user id (.patch (some (etag v)) (renameBody name))) :
    K.Holds (s.world.apply i e) id slot n := by
  cases e with
  | commit =>
    cases hov : s.world.store.overwrites reservations i id with
    | false => exact hold.later hback (lookup_apply_of_not hov)
    | true =>
      obtain ⟨d, hd, ho, hid⟩ := Store.overwrites_iff.mp hov
      obtain ⟨r, hbefore, -, hname, hguest⟩ := h.before hold hd hid
      have hnone := h.unnamed ht hold hd ho hid (hnot rfl)
      exact h.holds_commit hd ho hid (h.mine_of_holds hold hd hid)
        (h.brings_none ht hnone hd ho hbefore hname hguest)
  | _ => exact hold.later hback rfl

/-- **A request of the script is no victim**, as nobody waits for a row version in reach. -/
theorem Serving.no_victim (h : Serving K env init s) (ht : s.world.tasks[i]? = some t)
    (hown : ∀ d ∈ s.world.store.drafts, d.owner = i → ∃ slot, K.Mine slot d.row)
    (rest : List Nat) : waitCycle (env.at s.revision) s.world i (i :: rest) = false := by
  by_contra hc
  have hc := Bool.not_eq_false _ ▸ hc
  obtain ⟨j, hj⟩ := waitCycle_head hc
  obtain ⟨-, t', ht', hw⟩ := waitsFor_iff.mp hj
  obtain rfl := Option.some.inj (ht.symm.trans ht')
  have hinv := h.rollout.inv
  have hopen := owner_of_waitCycle hc
  obtain ⟨req, st⟩ := t
  cases hw with
  | table _ _ _ =>
    rcases hopen with ⟨res, hres⟩ | ⟨d, hd, ho⟩
    · exact hinv.no_lock ht rfl res hres
    · exact hinv.no_draft ht (fun _ hw => hw) d hd ho
  | row _ =>
    rcases hopen with ⟨res, hres⟩ | ⟨d, hd, ho⟩
    · exact hinv.no_lock ht rfl res hres
    · exact hinv.no_draft ht (fun _ hw => hw) d hd ho
  | conflict hd hd' _ hb =>
    obtain ⟨hmem, ho, -⟩ := draft_some hd
    obtain ⟨slot, hmine⟩ := hown _ hmem ho
    rw [h.placed.not_blocked hinv hmem hd' (.inl hmine.inReach)] at hb
    exact Bool.false_ne_true hb

end Keeping

end TableFlow.Traffic
