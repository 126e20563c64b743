/-
  One name, two spellings: `guest_name`, and `first_name` with `last_name`.

  1. **In Python** — a name written in one phase is read in another, if the first has filled the
     columns the second reads.  The old column keeps the name as it is; the new ones keep it
     exactly when its first word and its remainder fit them (`survives_iff`).
  2. **In SQL** — the check of the new columns against the old one agrees with the split of a name
     exactly when the name also is `SqlClean` (`nameMismatch_split`).
  3. **On the way forward** — while the deployment goes from `legacy` to the new columns, every row
     whose new columns are filled holds the split of its `guest_name` there (`Twin`).  So the guard
     of `read_new` counts exactly the rows whose names are not clean or do not fit.
-/
import TableFlow.PhaseGuard

namespace TableFlow

open Lib

/-! ## Python: written in one phase, read in another -/

/-- A row whose name is written in `p` is answered with that name in `q`, up to trimming and
    collapsing whitespace. -/
def Survives (p q : Phase) (n : Text) : Prop :=
  ∀ r : Reservation, ∃ o, toOut q ⟨writeName p r n, readColumns q⟩ = .ok o ∧
    normaliseName o.guestName = normaliseName n

section Survives

variable {p q : Phase} {n : Text}

theorem survives_iff_readsBack :
    Survives p q n ↔ ∀ r, Deployment.ReadsBack q (writeName p r n) n :=
  forall_congr' fun r =>
    Deployment.readsBack_iff (s := { Deployment.Site.start with phase := q }) (r := writeName p r n)

theorem get_writeName_of_mem {c : Column} (hc : c ∈ writeColumns p) (r : Reservation) :
    (writeName p r n).get c = some (nameValue n c) := by
  rw [get_writeName, if_pos hc]

/-- The new columns, if `p` has filled them. -/
theorem new_of_filled (hq : ∀ c ∈ readColumns q, c ∈ writeColumns p)
    (hnew : q.readsGuestName = false) (r : Reservation) :
    (writeName p r n).firstName = some (splitGuestName n).1 ∧
      (writeName p r n).lastName = some (splitGuestName n).2 := by
  have hcols : .firstName ∈ readColumns q ∧ .lastName ∈ readColumns q := by
    cases q with
    | legacy => exact absurd hnew (by decide)
    | dualWrite => exact absurd hnew (by decide)
    | readNew => decide
    | newOnly => decide
  exact ⟨get_writeName_of_mem (hq _ hcols.1) r, get_writeName_of_mem (hq _ hcols.2) r⟩

/-- **A name survives** in `guest_name`, and in the new columns if it fits them. -/
theorem survives_of_fits (hq : ∀ c ∈ readColumns q, c ∈ writeColumns p)
    (h : q.readsGuestName = true ∨ FitsColumns n) : Survives p q n := by
  refine survives_iff_readsBack.mpr fun r => ⟨fun hold => ?_, fun hnew => ?_⟩
  · have hcol : .guestName ∈ readColumns q := List.contains_iff_mem.mp hold
    exact ⟨n, get_writeName_of_mem (hq _ hcol) r, rfl⟩
  · obtain ⟨hf, hl⟩ := new_of_filled hq hnew r
    have hfit : FitsColumns n := h.resolve_left (by rw [hnew]; decide)
    rw [hf, hl, joinName_split hfit]
    exact (normaliseName_eq_iff _ _).mpr (words_normalise isSpace_space n)

/-- **Only a name that fits survives in the new columns.** -/
theorem fits_of_survives (hq : ∀ c ∈ readColumns q, c ∈ writeColumns p) (h : Survives p q n) :
    q.readsGuestName = true ∨ FitsColumns n := by
  cases hnew : q.readsGuestName with
  | true => exact Or.inl rfl
  | false =>
    let r := newReservation .legacy customer lunchForTwo
    have hback := (survives_iff_readsBack.mp h r).new hnew
    obtain ⟨hf, hl⟩ := new_of_filled hq hnew r
    rw [hf, hl, normaliseName_eq_iff, words_joinName] at hback
    exact Or.inr ((fitsColumns_iff n).mpr hback)

end Survives

/-- Every phase fills the columns it reads. -/
theorem reads_filled (p : Phase) : ∀ c ∈ readColumns p, c ∈ writeColumns p := by
  cases p <;> decide

/-- **A name that is booked is read back** in its own phase, and in every other whose columns are
    filled, exactly when that phase reads `guest_name` or the name fits the new columns. -/
theorem name_survives_iff (body : ReservationCreate) :
    (∀ p : Phase, Survives p p body.guestName ↔
      p.readsGuestName = true ∨ FitsColumns body.guestName) ∧
    ∀ p q : Phase, (∀ c ∈ readColumns q, c ∈ writeColumns p) →
      (Survives p q body.guestName ↔ q.readsGuestName = true ∨ FitsColumns body.guestName) :=
  ⟨fun p => ⟨fits_of_survives (reads_filled p), survives_of_fits (reads_filled p)⟩,
    fun _ _ hq => ⟨fits_of_survives hq, survives_of_fits hq⟩⟩

/-- A lunch for two under the name `n`. -/
def lunchFor (n : Text) (h : 2 ≤ n.length ∧ n.length ≤ 120) : ReservationCreate :=
  { lunchForTwo with guestName := n, guestName_length := h }

/-- What is written in `dual_write` is read after the migration. -/
theorem annLee_survives : Survives .dualWrite .newOnly annLee :=
  ((name_survives_iff lunchForTwo).2 .dualWrite .newOnly (by decide)).mpr
    (Or.inr Deployment.fits_annLee)

/-- One word of 61 letters. -/
def longName : Text := List.replicate 61 'a'

theorem longName_cut : ¬ FitsColumns longName := by
  intro h
  have hwords : words isSpace longName = [longName] := by decide
  exact absurd (h _ _ hwords).1 (by decide)

/-- **A long word is cut**: the answer to its own booking gives another name. -/
theorem long_name_is_cut :
    ¬ ∀ (body : ReservationCreate) (p : Phase), Survives p p body.guestName := by
  intro h
  have hfits := fits_of_survives (reads_filled .newOnly) (h (lunchFor longName (by decide)) .newOnly)
  exact longName_cut (hfits.resolve_left (by decide))

/-! ## SQL: the check of the new columns against the old one -/

/-- **A row that holds the split of its `guest_name` is not counted** exactly when the name is clean
    and fits. -/
theorem nameMismatch_twin {sql : SqlSpace} {r : Reservation} {n : Text}
    (hg : r.guestName = some n) (hf : r.firstName = some (splitGuestName n).1)
    (hl : r.lastName = some (splitGuestName n).2) :
    nameMismatch sql r = false ↔ SqlClean sql n ∧ FitsColumns n := by
  rw [Deployment.nameMismatch_split hf hl, ← rebuilt_split_eq_legacy_iff, hg]
  exact ⟨fun h => h n rfl, fun h g hg => by rw [← Option.some.inj hg]; exact h⟩

/-! ## On the way forward -/

namespace Deployment

/-- The row has its `guest_name` and, if they are filled, the split of it in the new columns. -/
def Twin (r : Reservation) : Prop :=
  ∃ n, r.guestName = some n ∧
    (r.firstName = none ∨
      r.firstName = some (splitGuestName n).1 ∧ r.lastName = some (splitGuestName n).2)

/-- Neither back to `legacy` nor on to `new_only`. -/
def Onward (s : Site) (p : Phase) : Prop := p = s.phase ∨ p = .dualWrite ∨ p = .readNew

/-- What is run on the way to the new columns: bookings, edits and upgrades at any time, and the
    backfill once new names are written to both copies. -/
def Forward (env : Env) (s : Site) : Event → Prop
  | .create _ _ | .edit _ _ _ | .upgrade _ => True
  | .backfill _ _ => s.phase ≠ .legacy
  | .put target => Onward s target
  | .restart configured => Onward s (reconcile configured (s.state env))

/-- Every row is a twin; in `legacy` none has been filled yet. -/
structure Synced (s : Site) : Prop where
  phase : s.phase ≠ .newOnly
  twins : ∀ r ∈ s.rows, Twin r
  unfilled : s.phase = .legacy → ∀ r ∈ s.rows, r.firstName = none

/-- A row is still as the phase needs it when only its other columns change. -/
theorem Twin.congr {r r' : Reservation} (h : Twin r) (hget : ∀ c, r'.get c = r.get c) : Twin r' := by
  obtain ⟨n, hg, hnew⟩ := h
  have hg' : r'.guestName = r.guestName := hget .guestName
  have hf' : r'.firstName = r.firstName := hget .firstName
  have hl' : r'.lastName = r.lastName := hget .lastName
  exact ⟨n, hg'.trans hg, by rw [hf', hl']; exact hnew⟩

/-- **Writing a name leaves a twin**: outside `new_only`, and in `legacy` if nothing is filled. -/
theorem twin_writeName {p : Phase} (hp : p ≠ .newOnly) {r : Reservation}
    (hr : p = .legacy → r.firstName = none) (n : Text) : Twin (writeName p r n) := by
  refine ⟨n, by rw [writeName_guestName, if_neg hp], ?_⟩
  cases p with
  | legacy => exact Or.inl (hr rfl)
  | dualWrite => exact Or.inr ⟨rfl, rfl⟩
  | readNew => exact Or.inr ⟨rfl, rfl⟩
  | newOnly => exact absurd rfl hp

/-- In `legacy` writing a name fills nothing. -/
theorem writeName_unfilled {p : Phase} (hp : p = .legacy) {r : Reservation}
    (hr : r.firstName = none) (n : Text) : (writeName p r n).firstName = none := by
  rw [hp]
  exact hr

theorem Synced.move {s : Site} (h : Synced s) {p : Phase} (hp : Onward s p) :
    Synced { s with phase := p } := by
  rcases hp with rfl | rfl | rfl
  · exact h
  · exact ⟨nofun, h.twins, nofun⟩
  · exact ⟨nofun, h.twins, nofun⟩

/-- A row is a twin wherever it comes from, and in `legacy` it is not filled. -/
theorem Origin.twin {env : Env} {s s' : Site} {ev : Event} {r' : Reservation}
    (ho : Origin s ev s' r') (h : Synced s) (hfor : Forward env s ev) :
    Twin r' ∧ (s.phase = .legacy → r'.firstName = none) := by
  cases ho with
  | @kept r hr hget _ =>
    have hfirst : r'.firstName = r.firstName := hget .firstName
    rw [hfirst]
    exact ⟨(h.twins r hr).congr hget, fun hl => h.unfilled hl r hr⟩
  | booked _ hget _ =>
    exact ⟨(twin_writeName h.phase (fun _ => rfl) _).congr hget,
      fun hl => (hget .firstName).trans (writeName_unfilled hl rfl _)⟩
  | @renamed _ _ _ n r _ _ _ hr _ hget _ =>
    have hnone := fun hl => h.unfilled hl r hr
    exact ⟨(twin_writeName h.phase hnone n).congr hget,
      fun hl => (hget .firstName).trans (writeName_unfilled hl (hnone hl) n)⟩
  | @filled _ _ v r hev hr _ heq _ =>
    subst hev heq
    obtain ⟨n, hg, -⟩ := h.twins r hr
    exact ⟨⟨n, hg, Or.inr (by rw [hg]; exact ⟨rfl, rfl⟩)⟩, fun hl => absurd hl hfor⟩

/-- **One event on the way forward keeps the copies in step.** -/
theorem Synced.step {env : Env} {s s' : Site} {ev : Event} (h : Synced s) (hinv : Inv s)
    (hfor : Forward env s ev) (hst : (deployment env).step s ev = some s') : Synced s' := by
  rcases phase_kept hinv hst with hp | ⟨target, rfl, -, rfl⟩ | ⟨configured, rfl, rfl⟩
  · have hrow := fun r' (hr' : r' ∈ s'.rows) => (origin hinv hst hr').twin h hfor
    exact ⟨hp ▸ h.phase, fun r' hr' => (hrow r' hr').1,
      fun hl r' hr' => (hrow r' hr').2 (hp ▸ hl)⟩
  · exact h.move hfor
  · exact h.move hfor

theorem synced_start : Synced .start where
  phase := by decide
  twins := fun _ h => absurd h List.not_mem_nil
  unfilled := fun _ _ h => absurd h List.not_mem_nil

/-- **On the way forward the copies stay in step.** -/
theorem synced_reach {env : Env} {s : Site}
    (h : (deployment env).Reach (Forward env) .start s) : Inv s ∧ Synced s := by
  refine h.invariant (I := fun s => Inv s ∧ Synced s) ⟨inv_start, synced_start⟩ ?_
  rintro s ev s' ⟨hinv, hs⟩ hfor hst
  exact ⟨hinv.step hst, hs.step hinv hfor hst⟩

/-- Every name that has been split in the table is clean and fits its columns. -/
def SplitsClean (sql : SqlSpace) (rows : List Reservation) : Prop :=
  ∀ r ∈ rows, r.firstName ≠ none → ∀ n, r.guestName = some n → SqlClean sql n ∧ FitsColumns n

/-- **The check of a twin.** -/
theorem Twin.mismatch_iff {sql : SqlSpace} {r : Reservation} (h : Twin r) :
    nameMismatch sql r = false ↔
      (r.firstName ≠ none → ∀ n, r.guestName = some n → SqlClean sql n ∧ FitsColumns n) := by
  obtain ⟨n, hg, hnone | ⟨hf, hl⟩⟩ := h
  · exact ⟨fun _ hne => absurd hnone hne, fun _ => by unfold nameMismatch; rw [hnone]⟩
  · rw [nameMismatch_twin hg hf hl, hf, hg]
    exact ⟨fun h _ m hm => Option.some.inj hm ▸ h, fun h => h (Option.some_ne_none _) n rfl⟩

theorem Synced.consistent_iff {sql : SqlSpace} {s : Site} (h : Synced s) :
    (∀ r ∈ s.rows, nameMismatch sql r = false) ↔ SplitsClean sql s.rows :=
  forall₂_congr fun r hr => (h.twins r hr).mismatch_iff

/-- After the first revision the names are counted. -/
theorem mismatched_eq {env : Env} {s : Site} (hrev : s.revision ≠ .r0001) :
    (s.state env).mismatched = some (s.rows.countP (nameMismatch env.sql)) := by
  unfold Site.state Site.schema
  cases hr : s.revision with
  | r0001 => exact absurd hr hrev
  | r0002 => rfl
  | r0003 => rfl

theorem Synced.mismatched_iff {env : Env} {s : Site} (h : Synced s) (hrev : s.revision ≠ .r0001) :
    (s.state env).mismatched = some 0 ↔ SplitsClean env.sql s.rows := by
  rw [mismatched_eq hrev, ← h.consistent_iff, Option.some_inj, List.countP_eq_zero]
  simp only [Bool.not_eq_true]

theorem Synced.allowed_iff {env : Env} {s : Site} (h : Synced s) (hrev : s.revision ≠ .r0001)
    (hfilled : ∀ r ∈ s.rows, r.firstName ≠ none) :
    refusal .readNew (s.state env) = none ↔ SplitsClean env.sql s.rows := by
  have hcolumns : s.schema.guestName.isSome ∧ s.schema.hasNew := by
    unfold Site.schema
    cases hr : s.revision with
    | r0001 => exact absurd hr hrev
    | r0002 => exact ⟨rfl, rfl, rfl⟩
    | r0003 => exact ⟨rfl, rfl, rfl⟩
  rw [← h.consistent_iff]
  constructor
  · intro hok
    exact ((refusal_eq_none_iff _).mp hok).consistent rfl hcolumns.1
  · intro hok
    exact (refusal_eq_none_iff _).mpr ⟨fun _ => hcolumns.1, fun _ => hcolumns.2,
      fun hp => absurd hp (by decide), fun _ => hfilled, fun _ _ => hok, nofun⟩

/-- **SQL agrees with the splitter on a name exactly when the name is clean and fits its columns.**
    So on the way forward nothing is counted, and a finished backfill lets `read_new` in, exactly
    when all names that have been split are so. -/
theorem check_agrees_with_split_iff (env : Env) :
    (∀ (r : Reservation) (n : Text), r.guestName = some n →
      r.firstName = some (splitGuestName n).1 → r.lastName = some (splitGuestName n).2 →
      (nameMismatch env.sql r = false ↔ SqlClean env.sql n ∧ FitsColumns n)) ∧
    ∀ s : Site, (deployment env).Reach (Forward env) .start s → s.revision ≠ .r0001 →
      ((s.state env).mismatched = some 0 ↔ SplitsClean env.sql s.rows) ∧
      ((∀ r ∈ s.rows, r.firstName ≠ none) →
        (refusal .readNew (s.state env) = none ↔ SplitsClean env.sql s.rows)) := by
  refine ⟨fun r n hg hf hl => nameMismatch_twin hg hf hl, fun s hs hrev => ?_⟩
  have h := (synced_reach hs).2
  exact ⟨h.mismatched_iff hrev, h.allowed_iff hrev⟩

theorem clean_annLee : SqlClean .cLocale annLee where
  blanks := by
    intro c hc hsp
    have hall : annLee.all (fun c => !isSpace c || SqlSpace.cLocale.isSpace c) = true := by decide
    simpa [hsp] using List.all_eq_true.mp hall c hc
  first := fun c hc => by
    obtain rfl := Option.some.inj ((show (btrim annLee).head? = some 'A' by decide).symm.trans hc)
    decide
  last := fun c hc => by
    obtain rfl := Option.some.inj ((show (btrim annLee).getLast? = some 'e' by decide).symm.trans hc)
    decide

/-- A booking in `legacy`, the new columns, and `dual_write`. -/
def expandRun : List Event := [.create customer lunchForTwo, .upgrade .r0002, .put .dualWrite]

/-- **After the backfill of a clean name that fits, `read_new` is not refused.** -/
theorem annLee_not_refused : ∃ s, (deployment sample).run .start (expandRun ++ [.backfill 0 500])
    = some s ∧ refusal .readNew (s.state sample) = none := by
  obtain ⟨s₀, h₀⟩ : ∃ s, (deployment sample).run .start expandRun = some s :=
    Option.isSome_iff_exists.mp (by decide)
  have hrun : (deployment sample).run .start (expandRun ++ [.backfill 0 500])
      = some (s₀.backfill 0 500) := by
    rw [Machine.run_append, h₀, Option.bind_some, Machine.run_cons _ rfl, Machine.run_nil]
  refine ⟨_, hrun, ?_⟩
  have hphase : s₀.phase = .dualWrite := Machine.run_eval _ (fun s => s.phase) h₀ (by decide)
  have hreach₀ : (deployment sample).Reach (Forward sample) .start s₀ := by
    refine .of_labels (fun ev hev s => ?_) h₀
    simp only [expandRun, List.mem_cons, List.not_mem_nil, or_false] at hev
    rcases hev with rfl | rfl | rfl
    · exact trivial
    · exact trivial
    · exact Or.inr (Or.inl rfl)
  have hreach : (deployment sample).Reach (Forward sample) .start (s₀.backfill 0 500) := by
    refine hreach₀.tail (l := .backfill 0 500) ?_ rfl
    show s₀.phase ≠ .legacy
    rw [hphase]
    decide
  have hrev : (s₀.backfill 0 500).revision = .r0002 :=
    Machine.run_eval _ (fun s => s.revision) hrun (by decide)
  have hrows : (s₀.backfill 0 500).rows.map (fun r => (r.guestName, r.firstName.isSome))
      = [(some annLee, true)] :=
    Machine.run_eval _ (fun s => s.rows.map fun r => (r.guestName, r.firstName.isSome)) hrun
      (by decide)
  have hrow : ∀ r ∈ (s₀.backfill 0 500).rows, r.guestName = some annLee ∧ r.firstName ≠ none := by
    intro r hr
    have hmem := List.mem_map_of_mem (f := fun r => (r.guestName, r.firstName.isSome)) hr
    rw [hrows, List.mem_singleton] at hmem
    obtain ⟨hg, hf⟩ := Prod.mk.inj hmem
    exact ⟨hg, Option.isSome_iff_ne_none.mp hf⟩
  refine (((check_agrees_with_split_iff sample).2 _ hreach (by rw [hrev]; decide)).2
    fun r hr => (hrow r hr).2).mpr fun r hr _ n hn => ?_
  obtain rfl := Option.some.inj ((hrow r hr).1.symm.trans hn)
  exact ⟨clean_annLee, fits_annLee⟩

/-- A name after a tab, as it may be pasted from a table. -/
def tabAnn : Text := "\tAnn".toList

/-- **A name behind a tab is counted**: `btrim` leaves the tab, and it is collapsed to a space. -/
theorem tab_is_counted : ¬ ∀ (sql : SqlSpace) (user : User) (body : ReservationCreate),
    nameMismatch sql (newReservation .dualWrite user body) = false := by
  intro h
  exact absurd (h .cLocale customer (lunchFor tabAnn (by decide))) (by decide)

end Deployment

end TableFlow
