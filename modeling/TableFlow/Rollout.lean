/-
  The forward migration under live traffic.

  The service runs as before, while an operator works through the runbook:

      upgrade 0002 -> PUT dual_write -> backfill -> PUT read_new -> upgrade 0003 -> PUT new_only

  A step of the runbook begins when the one before it has ended; requests on reservations arrive
  and go on at any time, so a request may choose its columns in one phase and commit in a later one.

  1. **Names** — every committed change either writes a name or keeps the one its row had
     (`Carries`).  So along the history of a row its columns hold the name last committed for it
     (`HoldsName`): the new ones, if they are filled, and else `guest_name`.
  2. **Old choices** — in `legacy` no row has new columns (`Untouched`).  A rename that chose its
     columns there meets, by its version, a row that still has none.
  3. **The gap** — a booking that chose its columns in `legacy` has no row yet that the backfill
     could fill and the guard could count.  If it commits after the guard of `read_new` has counted,
     its name is lost; `names_carried_iff` says that nothing else loses one.
-/
import TableFlow.Invariant

namespace TableFlow

open Lib

namespace Rollout

/-! ## The machine -/

/-- The revision of the schema, and the service with its database. -/
structure Site where
  revision : Revision
  world : World

/-- The steps of the runbook; a backfill is any number of batches. -/
inductive Action
  | upgrade (target : Revision)
  | put (target : Phase)
  | batch (lastId batchSize : Nat)

/-- What happens next. -/
inductive Event
  /-- A request on reservations arrives, or some request goes on. -/
  | serve (l : Label)
  | run (a : Action)

/-- No step of the runbook is under way. -/
def Site.quiet (s : Site) : Bool := s.world.tasks.all fun t => t.request.isApi || t.status.isSome

/-- The steps that are next in the runbook. -/
def Site.next (s : Site) : Action → Bool
  | .upgrade .r0001 | .put .legacy => false
  | .upgrade .r0002 => s.revision == .r0001 && s.world.phase == .legacy
  | .put .dualWrite => s.revision == .r0002 && s.world.phase == .legacy
  | .batch _ _ | .put .readNew => s.revision == .r0002 && s.world.phase == .dualWrite
  | .upgrade .r0003 => s.revision == .r0002 && s.world.phase == .readNew
  | .put .newOnly => s.revision == .r0003 && s.world.phase == .readNew

/-- The label belongs to a request of the API. -/
def Label.isTraffic : Label → Bool
  | .arrive req => req.isApi
  | .step _ | .victim _ => true

/-- A request arrives. -/
def Site.arrive (s : Site) (req : Request) : Site :=
  { s with world := { s.world with tasks := s.world.tasks ++ [⟨req, .arrived⟩] } }

/-- A step of the runbook begins; an upgrade is done at once. -/
def Site.begin (s : Site) : Action → Site
  | .upgrade target => { s with revision := s.revision.upgrade target }
  | .put target => s.arrive (.put target)
  | .batch lastId batchSize => s.arrive (.batch lastId batchSize)

/-- The service under traffic and the operator at the runbook. -/
def rollout (env : Env) : Machine Site Event where
  step s
    | .serve l =>
      if Label.isTraffic l then
        ((service (env.at s.revision)).step s.world l).map fun w => { s with world := w }
      else none
    | .run a => if s.quiet && s.next a then some (s.begin a) else none

/-- Before the migration. -/
def Site.start (rows : List Reservation) (nextId clock : Nat) : Site :=
  ⟨.r0001, .start .legacy rows nextId clock⟩

/-- What an event does. -/
inductive Step (env : Env) (s : Site) : Event → Site → Prop
  | serve {l : Label} {w : World} : Label.isTraffic l = true →
      (service (env.at s.revision)).step s.world l = some w →
      Step env s (.serve l) { s with world := w }
  | upgrade (target : Revision) :
      Step env s (.run (.upgrade target)) { s with revision := s.revision.upgrade target }
  | put {target : Phase} : target ≠ .legacy →
      Step env s (.run (.put target)) (s.arrive (.put target))
  | batch {lastId batchSize : Nat} : s.world.phase ≠ .legacy →
      Step env s (.run (.batch lastId batchSize)) (s.arrive (.batch lastId batchSize))

theorem step_cases {env : Env} {s s' : Site} {ev : Event}
    (h : (rollout env).step s ev = some s') : Step env s ev s' := by
  cases ev with
  | serve l =>
    unfold rollout at h
    dsimp only at h
    split at h
    · next hl =>
      obtain ⟨w, hw, rfl⟩ := Option.map_eq_some_iff.mp h
      exact .serve hl hw
    · exact absurd h (by simp)
  | run a =>
    unfold rollout at h
    dsimp only at h
    split at h
    · next hnext =>
      obtain rfl := Option.some.inj h
      have hnext := (Bool.and_eq_true_iff.mp hnext).2
      cases a with
      | upgrade target => exact .upgrade target
      | put target => exact .put (by rintro rfl; exact absurd hnext (by simp [Site.next]))
      | batch lastId batchSize =>
        refine .batch fun hp => ?_
        rw [Site.next, hp] at hnext
        exact absurd (Bool.and_eq_true_iff.mp hnext).2 (by decide)
    · exact absurd h (by simp)

/-! ## An upgrade keeps the invariant -/

section Upgrade

variable {env : Env} {rev : Revision} {init : List Reservation} {w : World}

theorem columns_upgrade (target : Revision) {cs : List Column} (h : Columns (env.at rev) cs) :
    Columns (env.at (rev.upgrade target)) cs := by
  obtain ⟨p, hp, rfl⟩ := h
  exact ⟨p, hp.upgrade target, rfl⟩

theorem made_upgrade (target : Revision) {req : Request} {b : Option Reservation} {r : Reservation}
    (h : Made (env.at rev) req b r) : Made (env.at (rev.upgrade target)) req b r := by
  cases req with
  | post user body =>
    obtain ⟨hb, p, id, v, hp, hr⟩ := h
    exact ⟨hb, p, id, v, hp.upgrade target, hr⟩
  | onOne user id op =>
    obtain ⟨b', p, ed, cs, v, hb, hid, hp, hrest⟩ := h
    exact ⟨b', p, ed, cs, v, hb, hid, hp.upgrade target, hrest⟩
  | _ => exact h

theorem stageOk_upgrade (target : Revision) {i : Nat} {req : Request} {st : Stage}
    (h : StageOk (env.at rev) init w i req st) :
    StageOk (env.at (rev.upgrade target)) init w i req st := by
  have hload : ∀ l, LoadedOk (env.at rev) init w l → LoadedOk (env.at (rev.upgrade target)) init w l :=
    fun l hl => ⟨columns_upgrade target hl.1, hl.2⟩
  cases st with
  | inserting r =>
    obtain ⟨hlock, user, body, p, hreq, hp, hr⟩ := h
    exact ⟨hlock, user, body, p, hreq, hp.upgrade target, hr⟩
  | selecting cs => exact columns_upgrade target h
  | loaded row => exact fun l hl => ⟨hload l (h l hl).1, (h l hl).2⟩
  | updating l ch =>
    obtain ⟨hl, user, op, p, ed, hreq, hp, hrest⟩ := h
    exact ⟨hload l hl, user, op, p, ed, hreq, hp.upgrade target, hrest⟩
  | reloading id cs => exact ⟨h.1, columns_upgrade target h.2⟩
  | reloaded row =>
    obtain ⟨l, hl, hok⟩ := h
    exact ⟨l, hl, hload l hok⟩
  | listing cs => exact columns_upgrade target h
  | listed rows => exact fun x hx => columns_upgrade target (h x hx)
  | accepted => exact fun p hp => (h p hp).upgrade target
  | _ => exact h

/-- **An upgrade breaks nothing that is under way.** -/
theorem inv_upgrade (target : Revision) (h : Inv (env.at rev) init w) :
    Inv (env.at (rev.upgrade target)) init w where
  sound := h.sound
  tracked := h.tracked
  rowIds := h.rowIds
  draftIds := h.draftIds
  rowsOk := fun r hr => (h.rowsOk r hr).upgrade target
  draftsOk := fun d hd => (h.draftsOk d hd).upgrade target
  fits := h.fits.upgrade target
  writers := by
    intro d hd
    obtain ⟨t, ht, hmade, hw⟩ := h.writers d hd
    exact ⟨t, ht, made_upgrade target hmade, hw⟩
  made := by
    intro e he
    obtain ⟨t, ht, hmade⟩ := h.made e he
    exact ⟨t, ht, made_upgrade target hmade⟩
  holders := h.holders
  locksOnce := h.locksOnce
  rowLocks := h.rowLocks
  stages := fun i t ht => stageOk_upgrade target (h.stages i t ht)

end Upgrade

/-! ## Names -/

/-- The row holds the name `n`: in its new columns, or in the old one while they are not filled. -/
structure HoldsName (n : Text) (r : Reservation) : Prop where
  old : r.firstName = none → r.guestName = some n
  new : r.firstName ≠ none →
    r.firstName = some (splitGuestName n).1 ∧ r.lastName = some (splitGuestName n).2

theorem HoldsName.congr {n : Text} {r r' : Reservation} (h : HoldsName n r)
    (hget : ∀ c, r'.get c = r.get c) : HoldsName n r' := by
  have hg : r'.guestName = r.guestName := hget .guestName
  have hf : r'.firstName = r.firstName := hget .firstName
  have hl : r'.lastName = r.lastName := hget .lastName
  constructor
  · rw [hf, hg]
    exact h.old
  · rw [hf, hl]
    exact h.new

/-- **A row holds the name that is written into it**, except if `legacy` writes the old column of a
    row that has new ones. -/
theorem holdsName_writeName {p : Phase} {r : Reservation} (h : p = .legacy → r.firstName = none)
    (n : Text) : HoldsName n (writeName p r n) := by
  have hg := get_writeName p r n .guestName
  have hf := get_writeName p r n .firstName
  have hl := get_writeName p r n .lastName
  cases p with
  | legacy =>
    have hnone : (writeName .legacy r n).firstName = none := Eq.trans hf (h rfl)
    exact ⟨fun _ => hg, fun hne => absurd hnone hne⟩
  | _ => exact ⟨fun hnone => absurd (hf.symm.trans hnone) (by simp [writeColumns]), fun _ => ⟨hf, hl⟩⟩

/-- **Filling a row keeps the name it holds.** -/
theorem HoldsName.fill {n : Text} {r : Reservation} (h : HoldsName n r) (hnone : r.firstName = none)
    (v : Nat) : HoldsName n (fill r (splitGuestName (r.guestName.getD [])) v) := by
  rw [h.old hnone]
  exact ⟨fun h' => absurd h' (by simp [TableFlow.fill]), fun _ => ⟨rfl, rfl⟩⟩

/-- A change writes the name its request brings, or keeps the name its row has. -/
def Carries (req : Request) (before : Option Reservation) (after : Reservation) : Prop :=
  match req.guestName with
  | some n => HoldsName n after
  | none => ∃ b, before = some b ∧ ∀ n, HoldsName n b → HoldsName n after

/-- Every change, committed or in progress, carries names; and an UPDATE that is on its way will. -/
structure Names (w : World) : Prop where
  history : ∀ e ∈ w.store.history, ∀ t, w.tasks[e.owner]? = some t →
    Carries t.request e.before e.after
  drafts : ∀ d ∈ w.store.drafts, ∀ t, w.tasks[d.owner]? = some t →
    Carries t.request d.before d.row
  updates : ∀ (i : Nat) (t : Task), w.tasks[i]? = some t → ∀ l ch, t.stage = .updating l ch →
    ∀ v, Carries t.request (some l.row) (ch.apply l.row v)

theorem Names.written {w : World} (h : Names w) : Written Carries w := ⟨h.history, h.drafts⟩

/-- What requests are about to write in `legacy` leaves the new columns alone. -/
def LeavesNew : Stage → Prop
  | .inserting r => r.firstName = none
  | .updating _ ch => ∀ a ∈ ch.names, a.1 = .guestName
  | _ => True

/-- In `legacy` nothing has new columns, and nothing is about to. -/
structure Untouched (init : List Reservation) (w : World) : Prop where
  init : ∀ r ∈ init, r.firstName = none
  history : ∀ e ∈ w.store.history, e.after.firstName = none
  drafts : ∀ d ∈ w.store.drafts, d.row.firstName = none
  stages : ∀ (i : Nat) (t : Task), w.tasks[i]? = some t → LeavesNew t.stage
  noBatch : ∀ (i : Nat) (t : Task), w.tasks[i]? = some t →
    ∀ lastId size, t.request ≠ .batch lastId size

section Stretch

variable {env : Env} {init : List Reservation} {w : World} {i : Nat}

/-- A row version of a reservation without new columns. -/
theorem Untouched.version (h : Untouched init w) {k : Nat} {r : Reservation}
    (hr : r ∈ Store.versionsOf reservations init w.store k) : r.firstName = none := by
  rcases List.mem_append.mp hr with hr | hr
  · exact h.init r (Store.lookup_some (Option.mem_toList.mp hr)).1
  · obtain ⟨e, he, rfl⟩ := List.mem_map.mp hr
    exact h.history e (List.mem_filter.mp he).1

/-- The names an edit writes into the row it has loaded. -/
theorem carries_edit {user : User} {id : Nat} {op : Op} {p : Phase} {ed : Edit} {l : Loaded}
    (hed : op.edit p = some ed) (h : p = .legacy → l.row.firstName = none) (v : Nat) :
    Carries (.onOne user id op) (some l.row) ((ed.changes.net l).apply l.row v) := by
  have hget : ∀ c, ((ed.changes.net l).apply l.row v).get c
      = (op.guestName.elim l.row (writeName p l.row)).get c := by
    intro c
    rw [edit_apply hed l v]
    cases c <;> rfl
  unfold Carries
  show match op.guestName with | some n => _ | none => _
  cases hn : op.guestName with
  | none =>
    rw [hn] at hget
    exact ⟨l.row, rfl, fun n hold => hold.congr hget⟩
  | some n =>
    rw [hn] at hget
    exact (holdsName_writeName h n).congr hget

/-- **Every row version a stretch writes carries names.** -/
theorem carries_write (h : Names w) (hinv : Inv env init w) {t : Task}
    (ht : w.tasks[i]? = some t) {before : Option Reservation} {row : Reservation} {st' : Stage}
    (ha : Act env w i t.request t.stage (.write before row) st') :
    Carries t.request before row := by
  have hmade := (legal_of_act hinv ht ha).2.2.2.2
  have hs := hinv.stages i t ht
  have hupd := h.updates i t ht
  obtain ⟨req, st⟩ := t
  cases ha with
  | insert _ =>
    obtain ⟨-, user, body, p, hreq, -, rfl⟩ := hs
    obtain ⟨rfl, rfl⟩ := Request.post.inj hreq
    exact (holdsName_writeName (fun _ => rfl) _).congr fun c => inserted_get env _ _ _ c
  | @update user id op l ch r _ hr hv _ =>
    obtain rfl := loaded_row_eq hinv hs.1 hr hv
    exact hupd l ch rfl _
  | fillRow _ _ =>
    obtain ⟨b, v, hb, hnone, hrow⟩ := hmade
    rw [hrow]
    exact ⟨b, hb, fun n hold => hold.fill hnone v⟩

/-- **A stretch keeps the names.** -/
theorem Names.act (h : Names w) (hinv : Inv env init w)
    (hold : w.phase = .legacy → Untouched init w) {t : Task} (ht : w.tasks[i]? = some t)
    {e : Effect} {st : Stage} (ha : Act env w i t.request t.stage e st) :
    Names (w.advance i t.request e st) := by
  obtain ⟨hhist, hdrafts⟩ := h.written.act ht ha fun before row he => by
    subst he
    exact carries_write h hinv ht ha
  refine ⟨hhist, hdrafts, ?_⟩
  intro j t' ht' l ch hst v
  rcases task_of_advance ht' with ⟨-, rfl⟩ | ⟨-, ht'⟩
  · have hst : st = .updating l ch := hst
    have hs := hinv.stages i t ht
    obtain ⟨req, st₀⟩ := t
    cases ha with
    | change hl hed _ _ =>
      obtain ⟨rfl, rfl⟩ := Stage.updating.inj hst
      obtain rfl := loadOwned_ok hl
      exact carries_edit hed (fun hp => (hold hp).version (hs _ rfl).1.2) v
    | pass _ _ _ => exact absurd hst (by unfold Request.afterCheck; split <;> simp)
    | _ => exact absurd hst (by simp)
  · exact h.updates j t' ht' l ch hst v

/-- In `legacy` an edit assigns the old column only. -/
theorem edit_legacy {op : Op} {ed : Edit} (h : op.edit .legacy = some ed) (l : Loaded) :
    ∀ a ∈ (ed.changes.net l).names, a.1 = .guestName := by
  intro a ha
  have ha := (List.mem_filter.mp ha).1
  cases op with
  | get => exact absurd h (by simp [Op.edit])
  | delete ifMatch =>
    obtain rfl := Option.some.inj h
    exact absurd ha List.not_mem_nil
  | patch ifMatch body =>
    obtain rfl := Option.some.inj h
    have ha : a ∈ body.guestName.elim [] (nameAssignments .legacy) := ha
    cases hn : body.guestName with
    | none =>
      rw [hn] at ha
      exact absurd ha List.not_mem_nil
    | some n =>
      rw [hn] at ha
      rw [List.mem_singleton.mp (show a ∈ [(Column.guestName, n)] from ha)]

/-- **In `legacy` no stretch writes a new column.** -/
theorem untouched_write (h : Untouched init w) (hinv : Inv env init w) {t : Task}
    (ht : w.tasks[i]? = some t) {before : Option Reservation} {row : Reservation} {st' : Stage}
    (ha : Act env w i t.request t.stage (.write before row) st') : row.firstName = none := by
  have hs := hinv.stages i t ht
  have hnew := h.stages i t ht
  have hbatch := h.noBatch i t ht
  obtain ⟨req, st⟩ := t
  cases ha with
  | insert _ => exact hnew
  | @update user id op l ch r _ hr hv _ =>
    obtain rfl := loaded_row_eq hinv hs.1 hr hv
    show (ch.apply l.row w.store.clock).get .firstName = none
    rw [apply_get]
    cases hget : (assignNames l.row ch.names).get .firstName with
    | none => rfl
    | some v =>
      rcases get_assignNames hget with hold | hassigned
      · exact absurd (hold.symm.trans (h.version hs.1.2)) (by simp)
      · exact absurd (hnew _ hassigned) (by simp)
  | fillRow _ _ => exact absurd rfl (hbatch _ _)

/-- **A stretch in `legacy` leaves the new columns alone.** -/
theorem Untouched.act (h : Untouched init w) (hinv : Inv env init w) (hp : w.phase = .legacy)
    {t : Task} (ht : w.tasks[i]? = some t) {e : Effect} {st : Stage}
    (ha : Act env w i t.request t.stage e st) : Untouched init (w.advance i t.request e st) where
  init := h.init
  history := by
    intro en hen
    cases e with
    | commit =>
      rcases Store.mem_commit_history.mp hen with hen | ⟨d, hd, -, rfl⟩
      · exact h.history en hen
      · exact h.drafts d hd
    | _ => exact h.history en hen
  drafts := by
    intro d hd
    rcases mem_apply_drafts hd with ⟨d₀, hd₀, -, -, hr⟩ | ⟨before, row, rfl, rfl⟩
    · rw [hr]
      exact h.drafts d₀ hd₀
    · exact untouched_write h hinv ht ha
  stages := by
    intro j t' ht'
    rcases task_of_advance ht' with ⟨-, rfl⟩ | ⟨-, ht'⟩
    · show LeavesNew st
      obtain ⟨req, st₀⟩ := t
      cases ha with
      | @prepare user body _ _ _ =>
        have hf := newReservation_get w.phase user body .firstName
        rw [hp] at hf ⊢
        exact hf
      | change _ hed _ _ =>
        rw [hp] at hed
        exact edit_legacy hed _
      | pass _ _ _ =>
        unfold Request.afterCheck
        split <;> trivial
      | _ => trivial
    · exact h.stages j t' ht'
  noBatch := by
    intro j t' ht'
    rcases task_of_advance ht' with ⟨-, rfl⟩ | ⟨-, ht'⟩
    · exact h.noBatch i t ht
    · exact h.noBatch j t' ht'

end Stretch

/-! ## The invariant -/

/-- What holds of the migration in every state. -/
structure RolloutInv (env : Env) (init : List Reservation) (s : Site) : Prop where
  /-- The rows the migration starts with have their names in the old column. -/
  initial : ∀ r ∈ init, r.firstName = none ∧ r.guestName ≠ none
  inv : Inv (env.at s.revision) init s.world
  names : Names s.world
  untouched : s.world.phase = .legacy → Untouched init s.world
  /-- The runbook never goes back. -/
  noLegacy : ∀ (i : Nat) (t : Task), s.world.tasks[i]? = some t → t.request ≠ .put .legacy

section Runs

variable {env : Env} {init : List Reservation} {s s' : Site}

/-- A request arrives. -/
theorem RolloutInv.arrive (h : RolloutInv env init s) {req : Request} (hput : req ≠ .put .legacy)
    (hbatch : s.world.phase = .legacy → ∀ lastId size, req ≠ .batch lastId size) :
    RolloutInv env init (s.arrive req) := by
  have new : ∀ {i : Nat} {t : Task}, (s.world.tasks ++ [⟨req, .arrived⟩])[i]? = some t →
      s.world.tasks[i]? = some t ∨ t = ⟨req, .arrived⟩ :=
    fun ht => (slot_of_concat ht).imp_right And.right
  obtain ⟨hhist, hdrafts⟩ := h.names.written.arrive h.inv req
  refine ⟨h.initial, h.inv.arrive req, ⟨hhist, hdrafts, ?_⟩, fun hp => ?_, ?_⟩
  · intro i t ht l ch hst
    rcases new ht with ht | rfl
    · exact h.names.updates i t ht l ch hst
    · exact absurd hst (by simp)
  · have hu := h.untouched hp
    refine ⟨hu.init, hu.history, hu.drafts, fun i t ht => ?_, fun i t ht => ?_⟩
    · rcases new ht with ht | rfl
      · exact hu.stages i t ht
      · trivial
    · rcases new ht with ht | rfl
      · exact hu.noBatch i t ht
      · exact hbatch hp
  · intro i t ht
    rcases new ht with ht | rfl
    · exact h.noLegacy i t ht
    · exact hput

/-- A victim ends without having changed anything. -/
theorem Names.abort {w : World} (h : Names w) {i : Nat} {t : Task} (ht : w.tasks[i]? = some t)
    (a : Answer) : Names (w.advance i t.request .abort (.done a)) := by
  obtain ⟨hhist, hdrafts⟩ := h.written.abort ht a
  refine ⟨hhist, hdrafts, fun j t' ht' l ch hst => ?_⟩
  rcases task_of_advance ht' with ⟨-, rfl⟩ | ⟨-, ht'⟩
  · exact absurd hst (by simp)
  · exact h.updates j t' ht' l ch hst

theorem Untouched.abort {w : World} (h : Untouched init w) {i : Nat} {t : Task}
    (ht : w.tasks[i]? = some t) (a : Answer) :
    Untouched init (w.advance i t.request .abort (.done a)) := by
  refine ⟨h.init, h.history, fun d hd => h.drafts d (Store.mem_abort.mp hd).1, ?_, ?_⟩
  · intro j t' ht'
    rcases task_of_advance ht' with ⟨-, rfl⟩ | ⟨-, ht'⟩
    · trivial
    · exact h.stages j t' ht'
  · intro j t' ht'
    rcases task_of_advance ht' with ⟨-, rfl⟩ | ⟨-, ht'⟩
    · exact h.noBatch i t ht
    · exact h.noBatch j t' ht'

/-- The phase after an effect: only a PUT changes it. -/
theorem apply_phase {w : World} {i : Nat} {e : Effect} :
    (w.apply i e).phase = w.phase ∨ ∃ p, e = .setPhase p ∧ (w.apply i e).phase = p := by
  cases e with
  | setPhase p => exact Or.inr ⟨p, rfl, rfl⟩
  | _ => exact Or.inl rfl

/-- **Every event keeps the invariant.** -/
theorem RolloutInv.step (h : RolloutInv env init s) {ev : Event}
    (hst : (rollout env).step s ev = some s') : RolloutInv env init s' := by
  cases step_cases hst with
  | upgrade target => exact ⟨h.initial, inv_upgrade target h.inv, h.names, h.untouched, h.noLegacy⟩
  | put hne => exact h.arrive (by simpa using hne) fun _ _ _ => by simp
  | batch hp => exact h.arrive (by simp) fun hp' => absurd hp' hp
  | @serve l w hl hw =>
    have hinv := h.inv.step hw
    cases TableFlow.step_cases hw with
    | arrive req =>
      refine h.arrive ?_ fun _ lastId size => ?_
      · rintro rfl
        exact absurd hl (by decide)
      · rintro rfl
        exact absurd hl (by simp [Label.isTraffic, Request.isApi])
    | @act i t e st ht ha _ =>
      refine ⟨h.initial, hinv, h.names.act h.inv h.untouched ht ha, fun hp => ?_, ?_⟩
      · refine (h.untouched ?_).act h.inv ?_ ht ha
        all_goals
          rcases apply_phase (w := s.world) (i := i) (e := e) with hsame | ⟨p, rfl, hset⟩
          · exact hsame.symm.trans hp
          · -- the runbook does not go back to `legacy`
            obtain rfl : p = .legacy := hset.symm.trans hp
            have hno := h.noLegacy i t ht
            obtain ⟨req, st₀⟩ := t
            cases ha
            exact absurd rfl hno
      · intro j t' ht'
        rcases task_of_advance ht' with ⟨-, rfl⟩ | ⟨-, ht'⟩
        · exact h.noLegacy i t ht
        · exact h.noLegacy j t' ht'
    | @victim i rest t ht _ =>
      refine ⟨h.initial, hinv, h.names.abort ht _, fun hp => (h.untouched hp).abort ht _, ?_⟩
      intro j t' ht'
      rcases task_of_advance ht' with ⟨-, rfl⟩ | ⟨-, ht'⟩
      · exact h.noLegacy i t ht
      · exact h.noLegacy j t' ht'

/-! ## The name last committed -/

/-- The name a committed change brought. -/
def committedName (w : World) (e : Lib.Entry Reservation) : Option Text :=
  w.tasks[e.owner]?.bind fun t => t.request.guestName

/-- The name last committed for a reservation; before any change that brings one it is the one the
    migration started with. -/
def lastName (init : List Reservation) (w : World) (k : Nat) : Option Text :=
  ((Store.changesOf reservations k w.store.history).filterMap (committedName w)).getLast?.or
    ((Store.lookup reservations init k).bind (·.guestName))

/-- **Every row holds the name last committed for it.** -/
theorem holds_lastName (h : RolloutInv env init s) {r : Reservation}
    (hr : r ∈ s.world.store.rows) :
    ∃ n, lastName init s.world r.id = some n ∧ HoldsName n r := by
  -- an entry that commits a name has it in its row; one that commits none keeps the row's
  have carries : ∀ e ∈ Store.changesOf reservations r.id s.world.store.history,
      ∃ req, committedName s.world e = req.guestName ∧ Carries req e.before e.after := by
    intro e he
    have he := (List.mem_filter.mp he).1
    obtain ⟨t, ht, -⟩ := h.inv.made e he
    refine ⟨t.request, ?_, h.names.history e he t ht⟩
    unfold committedName
    rw [ht]
    rfl
  refine (h.inv.tracked.linked r.id).latest (f := committedName s.world) (P := HoldsName) _
    ?_ ?_ ?_ r (Store.lookup_mem h.inv.sound.keys hr)
  · intro r₀ hr₀
    obtain ⟨hnone, hguest⟩ := h.initial r₀ (Store.lookup_some hr₀).1
    obtain ⟨g, hg⟩ := Option.ne_none_iff_exists'.mp hguest
    rw [hr₀]
    exact ⟨g, hg, fun _ => hg, fun hne => absurd hnone hne⟩
  · intro e he n hn
    obtain ⟨req, heq, hc⟩ := carries e he
    unfold Carries at hc
    rw [← heq, hn] at hc
    exact hc
  · intro e he hn
    obtain ⟨req, heq, hc⟩ := carries e he
    unfold Carries at hc
    rw [← heq, hn] at hc
    exact hc

/-! ## What is lost, and when -/

/-- In a phase that reads the new columns every row's new columns are the split of the name last
    committed for it. -/
def Carried (init : List Reservation) (s : Site) : Prop :=
  s.world.phase.readsGuestName = false → ∀ r ∈ s.world.store.rows,
    ∃ n, lastName init s.world r.id = some n ∧
      r.firstName = some (splitGuestName n).1 ∧ r.lastName = some (splitGuestName n).2

/-- Only a row without new columns can have lost its name. -/
theorem carried_iff (h : RolloutInv env init s) :
    Carried init s ↔
      (s.world.phase.readsGuestName = false → ∀ r ∈ s.world.store.rows, r.firstName ≠ none) := by
  constructor
  · intro hc hp r hr
    obtain ⟨n, -, hf, -⟩ := hc hp r hr
    rw [hf]
    exact Option.some_ne_none _
  · intro hf hp r hr
    obtain ⟨n, hn, hold⟩ := holds_lastName h hr
    exact ⟨n, hn, hold.new (hf hp r hr)⟩

/-- **The condition**: when a PUT sets a phase that reads the new columns, every row has them, as
    its guard has found; and from then on no booking commits that chose its columns in `legacy`. -/
def InTime (s : Site) : Event → Prop
  | .serve (.step i) => ∀ t, s.world.tasks[i]? = some t →
    (∀ target, t.request = .put target → t.stage = .accepted → target.readsGuestName = false →
      ∀ r ∈ s.world.store.rows, r.firstName ≠ none) ∧
    (∀ user body id, t.request = .post user body → t.stage = .committing id →
      s.world.phase.readsGuestName = false →
      ∀ d ∈ s.world.store.drafts, d.owner = i → d.row.firstName ≠ none)
  | _ => True

/-- **A commit in time leaves no row without new columns.** -/
theorem filled_commit {w : World} (hinv : Inv env init w) {i : Nat} {t : Task}
    (ht : w.tasks[i]? = some t) (hf : ∀ r ∈ w.store.rows, r.firstName ≠ none)
    (hpost : ∀ user body, t.request = .post user body →
      ∀ d ∈ w.store.drafts, d.owner = i → d.row.firstName ≠ none) :
    ∀ r ∈ (w.apply i .commit).store.rows, r.firstName ≠ none := by
  intro r hr
  rcases Store.mem_seen.mp hr with ⟨hr, -⟩ | ⟨d, hd, ho, rfl⟩
  · exact hf r hr
  · have hmade := (hinv.writes ht hd ho).1
    -- an UPDATE starts from a row of the table
    have hbase : ∀ b, d.before = some b → b.firstName ≠ none := fun b hb =>
      hf b (Store.lookup_some ((hinv.sound.base d hd).trans hb)).1
    obtain ⟨req, st⟩ := t
    cases req with
    | post user body => exact hpost user body rfl d hd ho
    | onOne user id op =>
      obtain ⟨b, p, ed, cs, v, hb, -, -, -, -, -, hrow⟩ := hmade
      show d.row.get .firstName ≠ none
      rw [hrow, apply_get]
      exact get_assignNames_ne_none (Or.inl (hbase b hb))
    | batch lastId size =>
      obtain ⟨b, v, -, -, hrow⟩ := hmade
      rw [hrow]
      exact Option.some_ne_none _
    | list user limit => exact absurd hmade fun x => x
    | put target => exact absurd hmade fun x => x

/-- **One event in time loses no name.** -/
theorem Carried.step (h : RolloutInv env init s) (hc : Carried init s) {ev : Event}
    (hC : InTime s ev) (hst : (rollout env).step s ev = some s') : Carried init s' := by
  rw [carried_iff h] at hc
  rw [carried_iff (h.step hst)]
  cases step_cases hst with
  | upgrade target => exact hc
  | put _ => exact hc
  | batch _ => exact hc
  | serve _ hw =>
    cases TableFlow.step_cases hw with
    | arrive req => exact hc
    | victim _ _ => exact hc
    | @act i t e st ht ha _ =>
      obtain ⟨hput, hpost⟩ := hC t ht
      intro hp
      cases e with
      | commit =>
        refine filled_commit h.inv ht (hc hp) fun user body hreq => ?_
        obtain ⟨req, st₀⟩ := t
        cases ha with
        | commit _ => exact hpost user body _ hreq rfl hp
        | batchCommit => exact absurd hreq (by simp)
      | setPhase p =>
        obtain ⟨req, st₀⟩ := t
        cases ha with
        | setPhase => exact hput p rfl rfl hp
      | _ => exact hc hp

/-- **An event too late loses a name.** -/
theorem not_carried_step (h : RolloutInv env init s) {ev : Event} (hC : ¬ InTime s ev)
    (hst : (rollout env).step s ev = some s') : ¬ Carried init s' := by
  rw [carried_iff (h.step hst)]
  cases ev with
  | run a => exact absurd trivial hC
  | serve l =>
    cases l with
    | arrive req => exact absurd trivial hC
    | victim cycle => exact absurd trivial hC
    | step i =>
      obtain ⟨t, hC⟩ := not_forall.mp hC
      obtain ⟨ht, hC⟩ := Classical.not_imp.mp hC
      cases step_cases hst with
      | serve _ hw =>
        cases TableFlow.step_cases hw with
        | @act _ t' e st ht' ha _ =>
          obtain rfl := Option.some.inj (ht.symm.trans ht')
          intro hf
          refine hC ⟨fun target hreq hstage hp r hr => ?_,
            fun user body id hreq hstage hp d hd ho => ?_⟩
          · obtain ⟨req, st₀⟩ := t
            obtain rfl : req = .put target := hreq
            obtain rfl : st₀ = .accepted := hstage
            cases ha
            exact hf hp r hr
          · obtain ⟨req, st₀⟩ := t
            obtain rfl : req = .post user body := hreq
            obtain rfl : st₀ = .committing id := hstage
            cases ha
            exact hf hp d.row (Store.mem_seen.mpr (Or.inr ⟨d, hd, ho, rfl⟩))

/-! ## Every run -/

theorem rolloutInv_start {nextId clock : Nat}
    (hready : Ready (env.at .r0001) .legacy init nextId clock)
    (hold : ∀ r ∈ init, r.firstName = none) :
    RolloutInv env init (.start init nextId clock) where
  initial := fun r hr => ⟨hold r hr, (hready.ok r hr).filled .guestName ⟨false⟩ rfl rfl⟩
  inv := hready.inv
  names := ⟨fun _ he => absurd he List.not_mem_nil, fun _ hd => absurd hd List.not_mem_nil,
    fun i t ht => absurd ht (by simp [Site.start, World.start])⟩
  untouched := fun _ => ⟨hold, fun _ he => absurd he List.not_mem_nil,
    fun _ hd => absurd hd List.not_mem_nil, fun i t ht => absurd ht (by simp [Site.start, World.start]),
    fun i t ht => absurd ht (by simp [Site.start, World.start])⟩
  noLegacy := fun i t ht => absurd ht (by simp [Site.start, World.start])

/-- **The migration loses no name along a run exactly when no booking from `legacy` comes too
    late.** -/
theorem names_carried_iff {nextId clock : Nat}
    (hready : Ready (env.at .r0001) .legacy init nextId clock)
    (hold : ∀ r ∈ init, r.firstName = none) (evs : List Event) :
    (rollout env).AllStates (Carried init) (.start init nextId clock) evs ↔
      (rollout env).AllSteps InTime (.start init nextId clock) evs := by
  refine Machine.allStates_iff_allSteps (A := fun _ => True) (J := RolloutInv env init) ?_ ?_ evs _
    (fun _ _ => trivial) (rolloutInv_start hready hold)
    fun h => absurd (show Phase.readsGuestName .legacy = false from h) (by decide)
  · intro s ev s' _ h hc hC hst
    exact ⟨h.step hst, Carried.step h hc hC hst⟩
  · intro s ev s' _ h _ hC hst
    exact not_carried_step h hC hst

/-- A booking chooses its columns before `dual_write` and is sent after `read_new`. -/
def lateRun : List Event :=
  [Event.run (.upgrade .r0002), .serve (.arrive (.post customer lunchForTwo))] ++
    List.replicate 2 (Event.serve (.step 0)) ++
    Event.run (.put .dualWrite) :: List.replicate 4 (Event.serve (.step 1)) ++
    Event.run (.batch 0 500) :: List.replicate 2 (Event.serve (.step 2)) ++
    Event.run (.put .readNew) :: List.replicate 4 (Event.serve (.step 3)) ++
    List.replicate 3 (Event.serve (.step 0))

theorem empty_ready : Ready (sample.at .r0001) .legacy [] 1 1 where
  fits := fits_of_refusal (show refusal .legacy (stateOf Revision.r0001.schema none (some 0) none)
    = none from rfl)
  keys := List.nodup_nil
  ids := fun _ hr => absurd hr List.not_mem_nil
  versions := fun _ hr => absurd hr List.not_mem_nil
  ok := fun _ hr => absurd hr List.not_mem_nil
  apart := fun _ hr => absurd hr List.not_mem_nil

theorem lateRun_lost {s : Site} (h : (rollout sample).run (.start [] 1 1) lateRun = some s) :
    ¬ Carried [] s := by
  have hphase : s.world.phase = .readNew := Machine.run_eval _ (fun s => s.world.phase) h (by decide)
  have hrows : s.world.store.rows.map (fun r => r.firstName) = [none] :=
    Machine.run_eval _ (fun s => s.world.store.rows.map fun r => r.firstName) h (by decide)
  intro hc
  obtain ⟨r, hr, hf⟩ := List.mem_map.mp (hrows ▸ List.mem_singleton.mpr rfl :
    none ∈ s.world.store.rows.map fun r => r.firstName)
  obtain ⟨n, -, hsome, -⟩ := hc (by rw [hphase]; rfl) r hr
  exact absurd (hf.symm.trans hsome) (by simp)

/-- **A booking that commits after the guard has counted loses its name.** -/
theorem late_booking_loses_name : ¬ ∀ (env : Env) (rows : List Reservation) (nextId clock : Nat),
    Ready (env.at .r0001) .legacy rows nextId clock → (∀ r ∈ rows, r.firstName = none) →
    ∀ (evs : List Event) (s : Site), (rollout env).run (.start rows nextId clock) evs = some s →
      Carried rows s := by
  intro h
  obtain ⟨s, hs⟩ : ∃ s, (rollout sample).run (.start [] 1 1) lateRun = some s :=
    Option.isSome_iff_exists.mp (by decide)
  exact lateRun_lost hs (h sample [] 1 1 empty_ready (fun _ hr => absurd hr List.not_mem_nil)
    lateRun s hs)

/-- A step of that run is too late. -/
theorem late_booking_not_in_time :
    ¬ (rollout sample).AllSteps InTime (.start [] 1 1) lateRun := by
  intro hall
  obtain ⟨s, hs⟩ : ∃ s, (rollout sample).run (.start [] 1 1) lateRun = some s :=
    Option.isSome_iff_exists.mp (by decide)
  exact lateRun_lost hs (((names_carried_iff empty_ready
    (fun _ hr => absurd hr List.not_mem_nil) lateRun).mpr hall).last hs)

end Runs

end Rollout

end TableFlow
