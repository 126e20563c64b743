/-
  The way back over revision 0003 after any history: `downgrade` never fails on the data.

  The deployment lives on without a plan: bookings and renames run concurrently, the phase goes to
  wherever the guard lets it, batches of the backfill run at any time, the schema is upgraded and the
  process restarted in between.

  1. **What a row without `guest_name` holds** (`Rebuildable`) — it was booked in `new_only`, so its
     new columns are the split of one name of at most 120 characters; a rename splits a name again,
     and a batch fills only rows that have a `guest_name`.
  2. **So it can be rebuilt** — the split of one name fits `guest_name` (`length_rebuilt`), although
     the two columns together could hold a character more (`downgrade_never_fails`).
-/
import TableFlow.Downgrade
import TableFlow.Rollback
import TableFlow.Rollout

namespace TableFlow.Lifetime

open Lib Alembic

/-! ## The machine -/

/-- The revision of the schema, and the service on it. -/
abbrev Site := Rollout.Site

/-- What happens to a deployment from its first phase on. -/
inductive Event
  /-- A request, a phase change or a batch arrives, or one of those under way goes on. -/
  | serve (l : Label)
  | upgrade (target : Revision)
  /-- The process starts again, configured with a phase. -/
  | restart (configured : Phase)

/-- No request of the process is under way; the backfill is another process. -/
def stopped (s : Site) : Bool :=
  s.world.tasks.all fun t =>
    match t.request with
    | .batch _ _ => true
    | _ => t.status.isSome

/-- The process starts in the phase that `reconcile_with_schema` finds. -/
def restart (env : Env) (s : Site) (configured : Phase) : Site :=
  { s with world := { s.world with
    phase := reconcile configured (schemaState env.sql s.revision.schema s.world.store.rows) } }

/-- The service, its upgrades and its restarts, in any order. -/
def lifetime (env : Env) : Machine Site Event where
  step s
    | .serve l =>
      ((service (env.at s.revision)).step s.world l).map fun w => { s with world := w }
    | .upgrade target => some { s with revision := s.revision.upgrade target }
    | .restart configured => if stopped s then some (restart env s configured) else none

/-- The database as a migration finds it. -/
def db (s : Site) : Db where
  version := Deployment.version s.revision
  schema := s.revision.schema
  checks := []
  backfillIndex := decide (s.revision ≠ .r0001)
  rows := s.world.store.rows
  clock := s.world.store.clock

/-! ## Rows that can be rebuilt -/

/-- A row without `guest_name` has the split of a name that would fit it. -/
def Rebuildable (r : Reservation) : Prop :=
  r.guestName = none → ∃ n : Text, n.length ≤ 120 ∧ r.firstName = some (splitGuestName n).1 ∧
    r.lastName = some (splitGuestName n).2

theorem Rebuildable.congr {r r' : Reservation} (h : Rebuildable r) (hget : ∀ c, r'.get c = r.get c) :
    Rebuildable r' := by
  have hguest : r'.guestName = r.guestName := hget .guestName
  have hfirst : r'.firstName = r.firstName := hget .firstName
  have hlast : r'.lastName = r.lastName := hget .lastName
  unfold Rebuildable
  rw [hguest, hfirst, hlast]
  exact h

/-- **A name that is written makes a row rebuildable**, whatever it held. -/
theorem rebuildable_writeName (p : Phase) (r : Reservation) {n : Text} (hn : n.length ≤ 120) :
    Rebuildable (writeName p r n) := by
  intro hnone
  have hguest := get_writeName p r n .guestName
  have hfirst := get_writeName p r n .firstName
  have hlast := get_writeName p r n .lastName
  cases p with
  | newOnly => exact ⟨n, hn, hfirst, hlast⟩
  | _ => exact absurd (hguest.symm.trans hnone) (by simp [writeColumns])

/-- **What a request makes of a rebuildable row is one.** -/
theorem Rebuildable.made {env : Env} {req : Request} {before : Option Reservation} {r : Reservation}
    (hbefore : ∀ b, before = some b → Rebuildable b) (h : Made env req before r) :
    Rebuildable r := by
  cases req with
  | post user body =>
    obtain ⟨-, p, id, v, -, rfl⟩ := h
    have hnew : Rebuildable (newReservation p user body) :=
      rebuildable_writeName p _ body.guestName_length.2
    exact hnew.congr fun c => inserted_get env _ id v c
  | onOne user id op =>
    obtain ⟨b, p, ed, cs, v, hb, -, -, hed, -, -, rfl⟩ := h
    have hget : ∀ c, ((ed.changes.net ⟨b, cs⟩).apply b v).get c
        = (op.guestName.elim b (writeName p b)).get c := by
      intro c
      have happly := edit_apply hed ⟨b, cs⟩ v
      dsimp only at happly
      rw [happly]
      cases c <;> rfl
    cases hn : op.guestName with
    | none =>
      rw [hn] at hget
      exact (hbefore b hb).congr hget
    | some n =>
      rw [hn] at hget
      exact (rebuildable_writeName p b (Deployment.guestName_length hn)).congr hget
  | batch lastId size =>
    obtain ⟨b, v, hb, hnone, rfl⟩ := h
    intro hguest
    -- a row without a first name has a `guest_name`
    obtain ⟨n, -, hfirst, -⟩ := hbefore b hb hguest
    exact absurd (hfirst.symm.trans hnone) (by simp)
  | list user limit => exact absurd h (fun x => x)
  | put target => exact absurd h (fun x => x)

/-! ## The invariant -/

/-- What holds in every state, of committed row versions and of those in progress. -/
structure LifetimeInv (env : Env) (init : List Reservation) (s : Site) : Prop where
  inv : Inv (env.at s.revision) init s.world
  rows : ∀ r ∈ s.world.store.rows, Rebuildable r
  drafts : ∀ d ∈ s.world.store.drafts, Rebuildable d.row

section Steps

variable {env : Env} {init : List Reservation} {s s' : Site}

/-- A stretch writes rebuildable rows. -/
theorem LifetimeInv.act (h : LifetimeInv env init s) {i : Nat} {t : Task} {e : Effect} {st : Stage}
    (ht : s.world.tasks[i]? = some t) (ha : Act (env.at s.revision) s.world i t.request t.stage e st) :
    LifetimeInv env init { s with world := s.world.advance i t.request e st } := by
  refine ⟨h.inv.act ht ha, fun r hr => ?_, fun d hd => ?_⟩
  · rcases mem_apply_rows hr with hr | ⟨d, hd, -, rfl⟩
    · exact h.rows r hr
    · exact h.drafts d hd
  · rcases mem_apply_drafts hd with ⟨d₀, hd₀, -, -, hrow⟩ | ⟨before, row, rfl, rfl⟩
    · rw [hrow]
      exact h.drafts d₀ hd₀
    · obtain ⟨hfresh, -, -, -, hmade⟩ := legal_of_act h.inv ht ha
      refine Rebuildable.made (fun b hb => ?_) hmade
      -- the row version starts from the committed row
      have hbase := hfresh.base _ (List.mem_singleton.mpr rfl)
      exact h.rows b (Store.lookup_some (hbase.trans hb)).1

/-- The process never starts in a phase the schema does not fit. -/
theorem LifetimeInv.fits_restart (h : LifetimeInv env init s) (configured : Phase) :
    Fits s.revision.schema (restart env s configured).world.phase := by
  rcases reconcile_cases configured
    (schemaState env.sql s.revision.schema s.world.store.rows) with hok | ⟨hnone, -⟩
  · exact fits_of_refusal hok
  · by_cases hrev : s.revision = .r0003
    · rw [hrev]
      exact fits_r0003 _
    · -- before the last revision `legacy` is always allowed
      have hnames : ∀ r ∈ s.world.store.rows, r.guestName ≠ none := by
        intro r hr
        obtain ⟨i, hi, hn⟩ := guestName_column s.revision
        exact (h.inv.rowsOk r hr).filled .guestName i hi (hn.resolve_right hrev)
      have hlegacy : refusal .legacy
          ((⟨s.revision, .legacy, s.world.store.rows, 0, 0, []⟩ : Deployment.Site).state env) = none :=
        Deployment.allowed_legacy hnames
      exact absurd hlegacy (hnone .legacy)

/-- **Every event keeps the invariant.** -/
theorem LifetimeInv.step (h : LifetimeInv env init s) {ev : Event}
    (hst : (lifetime env).step s ev = some s') : LifetimeInv env init s' := by
  cases ev with
  | serve l =>
    obtain ⟨w, hw, rfl⟩ := Option.map_eq_some_iff.mp hst
    cases step_cases hw with
    | arrive req => exact ⟨h.inv.arrive req, h.rows, h.drafts⟩
    | act ht ha _ => exact h.act ht ha
    | victim ht _ =>
      exact ⟨h.inv.advance_abort ht trivial, h.rows,
        fun d hd => h.drafts d (Store.mem_abort.mp hd).1⟩
  | upgrade target =>
    obtain rfl := Option.some.inj hst
    exact ⟨Rollout.inv_upgrade target h.inv, h.rows, h.drafts⟩
  | restart configured =>
    obtain rfl := Option.some.inj (Option.ite_none_right_eq_some.mp hst).2
    exact ⟨{ h.inv with fits := h.fits_restart configured }, h.rows, h.drafts⟩

end Steps

/-! ## The script -/

/-- Nothing migrated, with the reservations of the old schema. -/
def start (rows : List Reservation) (nextId clock : Nat) : Site :=
  ⟨.r0001, .start .legacy rows nextId clock⟩

section Script

variable {env : Env} {rows : List Reservation} {nextId clock : Nat}

theorem lifetimeInv_start (h : Ready (env.at .r0001) .legacy rows nextId clock) :
    LifetimeInv env rows (start rows nextId clock) where
  inv := h.inv
  rows := by
    intro r hr hnone
    -- the old column is NOT NULL
    obtain ⟨i, hi, hn⟩ := guestName_column .r0001
    exact absurd hnone ((h.ok r hr).filled .guestName i hi (hn.resolve_right (by decide)))
  drafts := fun _ hd => absurd hd List.not_mem_nil

/-- **Downgrading 0003 never fails on the data**: from whatever the deployment has come to, the
    script completes, and every `guest_name` is there and fits its column. -/
theorem downgrade_never_fails (h : Ready (env.at .r0001) .legacy rows nextId clock) {s : Site}
    (hreach : (lifetime env).Reach (fun _ _ => True) (start rows nextId clock) s)
    (hrev : s.revision = .r0003) :
    ∃ t, (db s).downgrade0003 = .ok t ∧
      ∀ r ∈ t.rows, ∃ n, r.guestName = some n ∧ n.length ≤ 120 := by
  have hinv : LifetimeInv env rows s :=
    hreach.invariant (lifetimeInv_start h) fun _ _ _ hi _ hst => hi.step hst
  let site : Deployment.Site :=
    ⟨s.revision, s.world.phase, s.world.store.rows, s.world.nextId, s.world.store.clock, []⟩
  have hfit : ∀ r ∈ site.rows, r.guestName = none →
      (rebuilt r.firstName r.lastName).length ≤ 120 := by
    intro r hr hnone
    obtain ⟨n, hn, hfirst, hlast⟩ := hinv.rows r hr hnone
    rw [hfirst, hlast]
    exact length_rebuilt hn
  obtain ⟨t, ht, hrows⟩ := Deployment.downgrade0003_ok (show site.revision = .r0003 from hrev) hfit
  refine ⟨t, ht, fun r hr => ?_⟩
  rw [hrows] at hr
  obtain ⟨x, hx, rfl⟩ := List.mem_map.mp hr
  unfold Deployment.restored
  cases hguest : x.guestName with
  | none => exact ⟨_, rfl, hfit x hx hguest⟩
  | some n => exact ⟨n, hguest, (hinv.inv.rowsOk x hx).short .guestName n hguest⟩

end Script

/-! ## A long name

Two words of 60 and 59 letters: with the space between them the name has 120 characters, as many as
`guest_name` can hold. -/

/-- A first name that fills its column, and a last name that nearly does. -/
def longName : Text := List.replicate 60 'a' ++ ' ' :: List.replicate 59 'b'

/-- A booking under it. -/
def longLunch : ReservationCreate :=
  { lunchForTwo with guestName := longName, guestName_length := by decide }

/-- Both upgrades, then `new_only`, and a booking there. -/
def longRun : List Event :=
  [.upgrade .r0003, .serve (.arrive (.put .newOnly))] ++ List.replicate 4 (.serve (.step 0)) ++
    .serve (.arrive (.post customer longLunch)) :: List.replicate 8 (.serve (.step 1))

/-- The script completes on it. -/
theorem longName_downgraded : ∃ s t, (lifetime sample).run (start [] 1 1) longRun = some s ∧
    s.world.store.rows.length = 1 ∧ (db s).downgrade0003 = .ok t ∧
    ∀ r ∈ t.rows, ∃ n, r.guestName = some n ∧ n.length ≤ 120 := by
  obtain ⟨s, hs⟩ : ∃ s, (lifetime sample).run (start [] 1 1) longRun = some s :=
    Option.isSome_iff_exists.mp (by decide)
  have hrev : s.revision = .r0003 := Machine.run_eval _ (fun s => s.revision) hs (by decide)
  have hrow : s.world.store.rows.length = 1 :=
    Machine.run_eval _ (fun s => s.world.store.rows.length) hs (by decide)
  obtain ⟨t, ht, hnames⟩ := downgrade_never_fails Rollout.empty_ready (.of_run hs) hrev
  exact ⟨s, t, hs, hrow, ht, hnames⟩

end TableFlow.Lifetime
