/-
  The way back over revision 0003: `downgrade` fills in the names that are missing, no others.

  1. **The same database** — an upgrade of the deployment is the migration script on its table
     (`db_upgrade0002`, `db_upgrade0003`).
  2. **What is missing** (`Missing`) — a row without `guest_name` has been written in `new_only`, and
     its new columns are the split of its name.  So the script completes, and those rows are right.
  3. **What is there** (`rollback_restores_iff`) — a `guest_name` that is left from before `new_only`
     is taken as it is.  The names are right after `downgrade`, all along a run, exactly when no
     reservation that has a `guest_name` is renamed in `new_only`.
-/
import TableFlow.Alembic

namespace TableFlow.Deployment

open Lib Alembic

/-! ## The deployment's database -/

/-- The version stamp of a revision. -/
def version : Revision → Version
  | .r0001 => .r0001
  | .r0002 => .r0002
  | .r0003 => .r0003

/-- The database of the deployment. -/
def Site.db (s : Site) : Db where
  version := version s.revision
  schema := s.schema
  checks := []
  backfillIndex := decide (s.revision ≠ .r0001)
  rows := s.rows
  clock := s.clock

/-- **Expand is its script.** -/
theorem db_upgrade0002 {s : Site} (h : s.revision = .r0001) :
    s.db.upgrade0002 = .ok ({ s with revision := .r0002 } : Site).db := by
  obtain ⟨revision, phase, rows, nextId, clock, names⟩ := s
  obtain rfl : revision = .r0001 := h
  rfl

/-- **Contract, part one, is its script.** -/
theorem db_upgrade0003 {s : Site} (h : s.revision = .r0002) :
    s.db.upgrade0003 = .ok ({ s with revision := .r0003 } : Site).db := by
  obtain ⟨revision, phase, rows, nextId, clock, names⟩ := s
  obtain rfl : revision = .r0002 := h
  rfl

/-! ## The script -/

/-- The row after `downgrade`. -/
def restored (r : Reservation) (version : Nat) : Reservation :=
  if r.guestName.isNone then rebuildRow r version else r

/-- **`downgrade` of 0003 completes** when the names it rebuilds fit `guest_name`. -/
theorem downgrade0003_ok {s : Site} (h : s.revision = .r0003)
    (hfit : ∀ r ∈ s.rows, r.guestName = none → (rebuilt r.firstName r.lastName).length ≤ 120) :
    ∃ t, s.db.downgrade0003 = .ok t ∧ t.rows = s.rows.map (restored · s.clock) := by
  have hcolumns : ∀ c, (s.db.schema.column c).isSome = true := by
    intro c
    show ((s.revision.schema).column c).isSome = true
    rw [h]
    cases c <;> rfl
  have herror : ∀ r ∈ s.db.rows, rebuilds true r = true → rebuildError s.db r = none := by
    intro r hr hw
    have hnone : r.guestName = none := by simpa [rebuilds] using hw
    exact rebuildError_of_length rfl (hfit r hr hnone)
  let t : Db := { s.db with rows := s.rows.map (restored · s.clock), clock := s.clock + 1 }
  have hrebuild : exec (.rebuild true) s.db = .ok t := by
    refine (exec_ok_iff.mpr (.rebuild hcolumns herror)).trans (congrArg Except.ok ?_)
    refine congrArg (fun rows => ({ s.db with rows := rows, clock := s.clock + 1 } : Db)) ?_
    exact List.map_congr_left fun r _ => by simp [rebuilds, restored, Site.db]
  have hnull : t.hasNull .guestName = false := by
    refine List.any_eq_false.mpr fun r hr => ?_
    obtain ⟨x, -, rfl⟩ := List.mem_map.mp hr
    unfold restored
    split
    · exact Bool.false_ne_true
    · next hx => exact hx
  have hrequired : Executed t (.setNotNull .guestName) (t.required .guestName) :=
    .setNotNull (hcolumns .guestName) hnull
  have hset := exec_ok_iff.mpr hrequired
  refine ⟨{ t.required .guestName with version := .r0002 }, ?_, rfl⟩
  unfold Db.downgrade0003 Db.migrate
  rw [transaction_ok hrebuild, transaction_ok hset]
  rfl

/-! ## Histories -/

/-- A row without `guest_name` holds the split of the name last written for it. -/
def Missing (s : Site) : Prop :=
  ∀ r ∈ s.rows, ∀ n, s.lastName r.id = some n → r.guestName = none →
    (n.length ≤ 120 ∧ FitsColumns n) ∧
      r.firstName = some (splitGuestName n).1 ∧ r.lastName = some (splitGuestName n).2

/-- A row with a `guest_name` has the name last written for it there. -/
def Current (s : Site) : Prop :=
  ∀ r ∈ s.rows, ∀ n, s.lastName r.id = some n → ∀ g, r.guestName = some g →
    normaliseName g = normaliseName n

/-- After `downgrade` of 0003, which completes, every `guest_name` is the name last written. -/
def Restores (s : Site) : Prop :=
  s.revision = .r0003 → ∃ t, s.db.downgrade0003 = .ok t ∧
    ∀ r ∈ t.rows, ∀ n, s.lastName r.id = some n →
      ∃ g, r.guestName = some g ∧ normaliseName g = normaliseName n

theorem restored_id (r : Reservation) (v : Nat) : (restored r v).id = r.id := by
  unfold restored
  split <;> rfl

/-- A missing name is rebuilt. -/
theorem Missing.rebuilt_eq {s : Site} (h : Missing s) {r : Reservation} (hr : r ∈ s.rows) {n : Text}
    (hn : s.lastName r.id = some n) (hnone : r.guestName = none) :
    rebuilt r.firstName r.lastName = normaliseName n ∧ (normaliseName n).length ≤ 120 := by
  obtain ⟨⟨hlen, hfit⟩, hf, hl⟩ := h r hr n hn hnone
  rw [hf, hl, rebuilt_split hfit]
  exact ⟨rfl, (length_normalise_le isSpace_space n).trans hlen⟩

/-- **The script restores what is missing, and takes over what is there.** -/
theorem restores_iff {s : Site} (hinv : Inv s) (hm : Missing s) (hrev : s.revision = .r0003) :
    Restores s ↔ Current s := by
  obtain ⟨t, ht, hrows⟩ := downgrade0003_ok hrev fun r hr hnone => by
    obtain ⟨n, hn⟩ := hinv.named r hr
    obtain ⟨heq, hlen⟩ := hm.rebuilt_eq hr hn hnone
    rw [heq]
    exact hlen
  constructor
  · intro h r hr n hn g hg
    obtain ⟨t', ht', hall⟩ := h hrev
    obtain rfl := Except.ok.inj (ht'.symm.trans ht)
    have hmem : restored r s.clock ∈ t'.rows := by
      rw [hrows]
      exact List.mem_map_of_mem hr
    obtain ⟨g', hg', hgn⟩ := hall _ hmem n (by rw [restored_id]; exact hn)
    unfold restored at hg'
    rw [hg, if_neg (by simp), hg] at hg'
    rw [Option.some.inj hg']
    exact hgn
  · intro h _
    refine ⟨t, ht, fun r hr n hn => ?_⟩
    rw [hrows] at hr
    obtain ⟨x, hx, rfl⟩ := List.mem_map.mp hr
    rw [restored_id] at hn
    unfold restored
    cases hg : x.guestName with
    | none =>
      obtain ⟨heq, -⟩ := hm.rebuilt_eq hx hn hg
      refine ⟨_, rfl, ?_⟩
      rw [heq]
      exact (normaliseName_eq_iff _ _).mpr (words_normalise isSpace_space n)
    | some g => exact ⟨g, hg, h x hx n hn g hg⟩

/-! ### One event -/

/-- **The condition**: a name that is changed in `new_only` is that of a row without `guest_name`, or
    it is the `guest_name` again. -/
def KeepsOld (s : Site) : Event → Prop
  | .edit user id op => ∀ n, op.guestName = some n → s.phase = .newOnly → s.Accepts user id op →
      ∀ r ∈ s.rows, r.id = id → ∀ g, r.guestName = some g → normaliseName g = normaliseName n
  | _ => True

theorem guestName_length {op : Op} {n : Text} (h : op.guestName = some n) : n.length ≤ 120 := by
  cases op with
  | get => exact absurd h (by simp [Op.guestName])
  | delete ifMatch => exact absurd h (by simp [Op.guestName])
  | patch ifMatch body => exact (body.guestName_length n h).2

/-- A row is left without `guest_name` in `new_only` only. -/
theorem newOnly_of_missing {p : Phase} {r : Reservation} {n : Text}
    (h : (writeName p r n).guestName = none) : p = .newOnly := by
  rw [writeName_guestName] at h
  by_contra hp
  rw [if_neg hp] at h
  exact absurd h (by simp)

theorem Origin.missing {s s' : Site} {ev : Event} {r' : Reservation} (ho : Origin s ev s' r')
    (h : Missing s) (hfit : NamesFit ev) {n : Text} (hn : s'.lastName r'.id = some n)
    (hnone : r'.guestName = none) : (n.length ≤ 120 ∧ FitsColumns n) ∧
      r'.firstName = some (splitGuestName n).1 ∧ r'.lastName = some (splitGuestName n).2 := by
  have written : ∀ r : Reservation, (∀ c, r'.get c = (writeName s.phase r n).get c) →
      r'.firstName = some (splitGuestName n).1 ∧ r'.lastName = some (splitGuestName n).2 := by
    intro r hget
    have hold : (writeName s.phase r n).guestName = none := (hget .guestName).symm.trans hnone
    have hnew := writeName_new (p := s.phase) (by rw [newOnly_of_missing hold]; rfl) r n
    exact ⟨(hget .firstName).trans hnew.1, (hget .lastName).trans hnew.2⟩
  cases ho with
  | @kept r hr hget hname =>
    have hf : r'.firstName = r.firstName := hget .firstName
    have hl : r'.lastName = r.lastName := hget .lastName
    rw [hf, hl]
    exact h r hr n (hname.symm.trans hn) ((hget .guestName).symm.trans hnone)
  | @booked user body hev hget hname =>
    subst hev
    obtain rfl := Option.some.inj (hname.symm.trans hn)
    exact ⟨⟨body.guestName_length.2, hfit⟩, written _ hget⟩
  | @renamed user id op m r hev hop _ _ _ hget hname =>
    subst hev
    obtain rfl := Option.some.inj (hname.symm.trans hn)
    exact ⟨⟨guestName_length hop, hfit m hop⟩, written r hget⟩
  | @filled _ _ v r _ hr hfirst heq hname =>
    subst heq
    -- without either name there would be nothing to fill it from
    obtain ⟨-, hf, -⟩ := h r hr n (hname.symm.trans hn) hnone
    exact absurd (hfirst.symm.trans hf) (by simp)

theorem Origin.current {s s' : Site} {ev : Event} {r' : Reservation} (ho : Origin s ev s' r')
    (h : Current s) (hC : KeepsOld s ev) {n g : Text} (hn : s'.lastName r'.id = some n)
    (hg : r'.guestName = some g) : normaliseName g = normaliseName n := by
  cases ho with
  | @kept r hr hget hname =>
    exact h r hr n (hname.symm.trans hn) g ((hget .guestName).symm.trans hg)
  | @booked user body hev hget hname =>
    obtain rfl := Option.some.inj (hname.symm.trans hn)
    have hw := (hget .guestName).symm.trans hg
    rw [newReservation_get] at hw
    split at hw
    · rw [← Option.some.inj hw]
      rfl
    · exact absurd hw (by simp)
  | @renamed user id op m r hev hop hacc hr hid hget hname =>
    subst hev
    obtain rfl := Option.some.inj (hname.symm.trans hn)
    have hw : (writeName s.phase r m).guestName = some g := (hget .guestName).symm.trans hg
    rw [writeName_guestName] at hw
    split at hw
    · next hp => exact hC m hop hp hacc r hr hid g hw
    · rw [Option.some.inj hw]
  | @filled _ _ v r _ hr _ heq hname =>
    subst heq
    exact h r hr n (hname.symm.trans hn) g hg

/-- What holds along every run in which the names fit. -/
structure Restorable (s : Site) : Prop where
  inv : Inv s
  missing : Missing s
  current : s.revision ≠ .r0003 → Current s

/-- `new_only` needs the last revision. -/
theorem Inv.revision {s : Site} (h : Inv s) (hp : s.phase = .newOnly) : s.revision = .r0003 := by
  obtain ⟨i, hi, hn⟩ := guestName_column s.revision
  refine hn.resolve_left fun hfalse => ?_
  have hnull := h.fits.nullable .guestName (by rw [hp]; decide) i hi
  rw [hfalse] at hnull
  exact absurd hnull (by decide)

theorem Inv.keepsOld {s : Site} (h : Inv s) (hrev : s.revision ≠ .r0003) (ev : Event) :
    KeepsOld s ev := by
  cases ev with
  | edit user id op => exact fun n _ hp => absurd (h.revision hp) hrev
  | create user body => trivial
  | backfill startAfter batchSize => trivial
  | upgrade target => trivial
  | put target => trivial
  | restart configured => trivial

theorem Current.step {env : Env} {s s' : Site} {ev : Event} (h : Current s) (hinv : Inv s)
    (hC : KeepsOld s ev) (hst : (deployment env).step s ev = some s') : Current s' :=
  fun _ hr' _ hn _ hg => (origin hinv hst hr').current h hC hn hg

/-- An upgrade does not go back. -/
theorem revision_kept {env : Env} {s s' : Site} {ev : Event} (hinv : Inv s)
    (hst : (deployment env).step s ev = some s') (h : s.revision = .r0003) :
    s'.revision = .r0003 := by
  cases step_cases hinv.ids hst with
  | idle _ => exact h
  | create _ _ => exact h
  | keep _ _ => exact h
  | edit _ _ _ _ => exact h
  | backfill _ => exact h
  | upgrade target => exact (congrArg (fun rev => rev.upgrade target) h).trans rfl
  | put _ => exact h
  | restart configured => exact h

theorem Restorable.step {env : Env} {s s' : Site} {ev : Event} (h : Restorable s)
    (hfit : NamesFit ev) (hst : (deployment env).step s ev = some s') : Restorable s' where
  inv := h.inv.step hst
  missing := fun _ hr' _ hn hnone => (origin h.inv hst hr').missing h.missing hfit hn hnone
  current := by
    intro hrev
    have hrev' : s.revision ≠ .r0003 := fun hold => hrev (revision_kept h.inv hst hold)
    exact (h.current hrev').step h.inv (h.inv.keepsOld hrev' ev) hst

theorem Restorable.restores_iff {s : Site} (h : Restorable s) : Restores s ↔ Current s := by
  by_cases hrev : s.revision = .r0003
  · exact Deployment.restores_iff h.inv h.missing hrev
  · exact iff_of_true (fun hr => absurd hr hrev) (h.current hrev)

/-- **A reservation that has a `guest_name` and is renamed in `new_only` is not restored.** -/
theorem not_current_step {env : Env} {s s' : Site} {ev : Event} (hinv : Inv s)
    (hC : ¬ KeepsOld s ev) (hst : (deployment env).step s ev = some s') : ¬ Current s' := by
  cases ev with
  | edit user id op =>
    simp only [KeepsOld, Classical.not_forall] at hC
    obtain ⟨n, hn, hp, hacc, x, hx, hid, g, hg, hne⟩ := hC
    obtain rfl := Option.some.inj hst
    obtain ⟨r, hr, hrid, r', hr', hrid', hget, hname⟩ := hacc.written hn
    obtain rfl : r = x := List.inj_on_of_nodup_map hinv.ids hr hx (hrid.trans hid.symm)
    intro hcur
    refine hne (hcur r' hr' n (by rw [hrid']; exact hname) g ?_)
    have hold : r'.guestName = (writeName s.phase r n).guestName := hget .guestName
    rw [hold, writeName_guestName, if_pos hp, hg]
  | create user body => exact absurd trivial hC
  | backfill startAfter batchSize => exact absurd trivial hC
  | upgrade target => exact absurd trivial hC
  | put target => exact absurd trivial hC
  | restart configured => exact absurd trivial hC

/-! ### Every run -/

theorem restorable_start : Restorable .start where
  inv := inv_start
  missing := fun _ hr => absurd hr List.not_mem_nil
  current := fun _ _ hr => absurd hr List.not_mem_nil

/-- **Rolling 0003 back restores the names, all along a run, exactly when no reservation that has a
    `guest_name` gets another name in `new_only`.** -/
theorem rollback_restores_iff (env : Env) (evs : List Event) (hfit : ∀ ev ∈ evs, NamesFit ev) :
    (deployment env).AllStates Restores .start evs ↔
      (deployment env).AllSteps KeepsOld .start evs := by
  refine Machine.allStates_iff_allSteps (A := NamesFit) (J := Restorable) ?_ ?_ evs .start hfit
    restorable_start (restorable_start.restores_iff.mpr fun _ hr => absurd hr List.not_mem_nil)
  · intro s ev s' hev h hres hC hst
    have h' := h.step hev hst
    exact ⟨h', h'.restores_iff.mpr ((h.restores_iff.mp hres).step h.inv hC hst)⟩
  · intro s ev s' hev h _ hC hst hres
    exact not_current_step h.inv hC hst ((h.step hev hst).restores_iff.mp hres)

/-- The whole migration up to `new_only`, with a booking before and one after it. -/
def bookedRun : List Event :=
  [.create customer lunchForTwo, .upgrade .r0002, .put .dualWrite, .backfill 0 500,
    .put .readNew, .upgrade .r0003, .put .newOnly, .create customer dinnerForTwo]

/-- **Bookings of all phases are restored.** -/
theorem bookedRun_restored : (deployment sample).AllStates Restores .start bookedRun := by
  have hev : ∀ ev ∈ bookedRun, NamesFit ev ∧ ∀ s, KeepsOld s ev := by
    intro ev hev
    simp only [bookedRun, List.mem_cons, List.not_mem_nil, or_false] at hev
    rcases hev with rfl | rfl | rfl | rfl | rfl | rfl | rfl | rfl
    · exact ⟨fits_annLee, fun _ => trivial⟩
    all_goals first | exact ⟨trivial, fun _ => trivial⟩ | exact ⟨fits_annLee, fun _ => trivial⟩
  exact (rollback_restores_iff sample bookedRun fun ev h => (hev ev h).1).mpr
    (.of_labels (fun ev h => (hev ev h).2) _)

/-- **A booking from before `new_only` that is renamed there gets its old name back.** -/
theorem rollback_restores_old_name : ¬ ∀ (env : Env) (evs : List Event) (s : Site),
    (∀ ev ∈ evs, NamesFit ev) → (deployment env).run .start evs = some s → Restores s := by
  intro h
  obtain ⟨s, hs⟩ : ∃ s, (deployment sample).run .start renamedRun = some s :=
    Option.isSome_iff_exists.mp (by decide)
  have hfit : ∀ ev ∈ renamedRun, NamesFit ev :=
    fun ev hev => staleRun_fits ev (List.mem_append_left _ hev)
  have hreach : (deployment sample).Reach (fun _ ev => NamesFit ev) .start s :=
    .of_labels (fun ev hev _ => hfit ev hev) hs
  have hrestorable : Restorable s :=
    hreach.invariant restorable_start fun _ _ _ h hev hst => h.step hev hst
  have hrows : s.rows.map (fun r => (r.id, r.guestName)) = [(1, some annLee)] :=
    Machine.run_eval _ (fun s => s.rows.map fun r => (r.id, r.guestName)) hs (by decide)
  have hname : s.lastName 1 = some bobRay :=
    Machine.run_eval _ (fun s => s.lastName 1) hs (by decide)
  obtain ⟨r, hr, hval⟩ := List.mem_map.mp (hrows ▸ List.mem_singleton.mpr rfl :
    (1, some annLee) ∈ s.rows.map fun r => (r.id, r.guestName))
  obtain ⟨hid, hguest⟩ := Prod.mk.inj hval
  have hcurrent := hrestorable.restores_iff.mp (h sample renamedRun s hfit hs)
  exact absurd (hcurrent r hr bobRay (by rw [hid]; exact hname) annLee hguest) (by decide)

end TableFlow.Deployment
