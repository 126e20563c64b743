/-
  The guards of the phase changes, over the lifetime of a deployment.

  1. **Copies** — every phase reads back what it writes (`readsBack_writeName`).  The two copies of
     a name drift apart while only one of them is written: in `legacy` the old one, in `new_only`
     the new ones.
  2. **Soundness of the guard** (`guards_sound_iff`) — on the way to the new columns the guard
     counts the rows whose copies differ.  On the way back it only counts the rows without
     `guest_name`, so a row renamed in `new_only` is read stale.  Along a run, every name is read
     back exactly when every way back finds both copies of every row in step (`KeepsCopies`).
  3. **The current phase stays allowed** (`own_phase_allowed_iff`) — as long as what is written in a
     phase that reads the new columns agrees with `guest_name` in the eyes of SQL (`Agrees`).  A
     name changed in `new_only` does not, nor does one that is cut to its columns.
-/
import TableFlow.Deployment

namespace TableFlow.Deployment

open Lib

/-! ## Reading a name back -/

/-- Reading the row in phase `p` gives the name `n`, up to trimming and collapsing whitespace. -/
structure ReadsBack (p : Phase) (r : Reservation) (n : Text) : Prop where
  old : p.readsGuestName = true →
    ∃ g, r.guestName = some g ∧ normaliseName g = normaliseName n
  new : p.readsGuestName = false →
    normaliseName (joinName r.firstName r.lastName) = normaliseName n

/-- The name in the answer with a row that has just been loaded. -/
theorem responseName_load (s : Site) (r : Reservation) :
    responseName s.phase (s.load r) =
      if s.phase.readsGuestName = true then r.guestName.elim (.error .missingName) .ok
      else .ok (joinName r.firstName r.lastName) := by
  unfold responseName Site.load
  cases s.phase with
  | legacy => cases hg : r.guestName <;> simp [readColumns, Loaded.get, Reservation.get, hg,
      Phase.readsGuestName, bind, Except.bind]
  | dualWrite => cases hg : r.guestName <;> simp [readColumns, Loaded.get, Reservation.get, hg,
      Phase.readsGuestName, bind, Except.bind]
  | readNew => simp [readColumns, Loaded.get, Reservation.get, Phase.readsGuestName, bind,
      Except.bind]
  | newOnly => simp [readColumns, Loaded.get, Reservation.get, Phase.readsGuestName, bind,
      Except.bind]

/-- **What `to_out` makes of a row.** -/
theorem readsBack_iff {s : Site} {r : Reservation} {n : Text} :
    (∃ o, toOut s.phase (s.load r) = .ok o ∧ normaliseName o.guestName = normaliseName n) ↔
      ReadsBack s.phase r n := by
  have hname : (∃ o, toOut s.phase (s.load r) = .ok o ∧
        normaliseName o.guestName = normaliseName n) ↔
      ∃ m, responseName s.phase (s.load r) = .ok m ∧ normaliseName m = normaliseName n := by
    unfold toOut
    cases responseName s.phase (s.load r) <;> simp [bind, Except.bind]
  rw [hname, responseName_load]
  constructor
  · rintro ⟨m, hm, hn⟩
    constructor
    · intro hread
      rw [if_pos hread] at hm
      cases hg : r.guestName with
      | none => exact absurd hm (by simp [hg])
      | some g =>
        rw [hg] at hm
        exact ⟨g, rfl, by rw [Except.ok.inj hm, hn]⟩
    · intro hread
      rw [if_neg (by rw [hread]; decide)] at hm
      rw [Except.ok.inj hm, hn]
  · intro h
    by_cases hread : s.phase.readsGuestName = true
    · obtain ⟨g, hg, hn⟩ := h.old hread
      rw [if_pos hread, hg]
      exact ⟨g, rfl, hn⟩
    · rw [if_neg hread]
      exact ⟨_, rfl, h.new (by simpa using hread)⟩

/-- Reading only depends on the name columns. -/
theorem ReadsBack.congr {p : Phase} {r r' : Reservation} {n : Text} (h : ReadsBack p r n)
    (hget : ∀ c, r'.get c = r.get c) : ReadsBack p r' n where
  old := by
    show p.readsGuestName = true → ∃ g, r'.get .guestName = some g ∧ _
    rw [hget]
    exact h.old
  new := by
    show p.readsGuestName = false → normaliseName (joinName (r'.get .firstName) (r'.get .lastName)) = _
    rw [hget, hget]
    exact h.new

/-- Phases that read the same columns read the same names. -/
theorem ReadsBack.phase {p p' : Phase} {r : Reservation} {n : Text} (h : ReadsBack p r n)
    (hp : p'.readsGuestName = p.readsGuestName) : ReadsBack p' r n where
  old := by
    rw [hp]
    exact h.old
  new := by
    rw [hp]
    exact h.new

theorem writes_old {p : Phase} (h : p.readsGuestName = true) : .guestName ∈ writeColumns p := by
  cases p with
  | legacy => decide
  | dualWrite => decide
  | readNew => exact absurd h (by decide)
  | newOnly => exact absurd h (by decide)

theorem writes_new {p : Phase} (h : p.readsGuestName = false) :
    .firstName ∈ writeColumns p ∧ .lastName ∈ writeColumns p := by
  cases p with
  | legacy => exact absurd h (by decide)
  | dualWrite => exact absurd h (by decide)
  | readNew => decide
  | newOnly => decide

/-- The new columns after a name is written in a phase that reads them. -/
theorem writeName_new {p : Phase} (h : p.readsGuestName = false) (r : Reservation) (n : Text) :
    (writeName p r n).firstName = some (splitGuestName n).1 ∧
      (writeName p r n).lastName = some (splitGuestName n).2 := by
  obtain ⟨hf, hl⟩ := writes_new h
  have h1 := get_writeName p r n .firstName
  have h2 := get_writeName p r n .lastName
  rw [if_pos hf] at h1
  rw [if_pos hl] at h2
  exact ⟨h1, h2⟩

/-- **Every phase reads back what it writes.** -/
theorem readsBack_writeName {n : Text} (hn : FitsColumns n) (p : Phase) (r : Reservation) :
    ReadsBack p (writeName p r n) n where
  old := by
    intro h
    have hg := get_writeName p r n .guestName
    rw [if_pos (writes_old h)] at hg
    exact ⟨n, hg, rfl⟩
  new := by
    intro h
    obtain ⟨hf, hl⟩ := writeName_new h r n
    rw [hf, hl, joinName_split hn]
    exact (normaliseName_eq_iff _ _).mpr (words_normalise isSpace_space n)

/-! ## The guard is sound on the way to the new columns -/

/-- Reading any reservation gives the name last written for it. -/
def Sound (s : Site) : Prop :=
  ∀ r ∈ s.rows, ∀ n, s.lastName r.id = some n →
    ∃ o, toOut s.phase (s.load r) = .ok o ∧ normaliseName o.guestName = normaliseName n

theorem sound_iff {s : Site} :
    Sound s ↔ ∀ r ∈ s.rows, ∀ n, s.lastName r.id = some n → ReadsBack s.phase r n := by
  unfold Sound
  simp only [readsBack_iff]

/-- Both copies of the row's name are there and the same. -/
def Copied (r : Reservation) : Prop :=
  ∃ g, r.guestName = some g ∧ normaliseName g = normaliseName (joinName r.firstName r.lastName)

/-- A phase that reads the new columns has no row without them. -/
def FilledIn (s : Site) : Prop :=
  s.phase.readsGuestName = false → ∀ r ∈ s.rows, r.firstName ≠ none

/-- Going to `target` is not a way back, or it finds all copies in step. -/
def WayBack (s : Site) (target : Phase) : Prop :=
  s.phase.readsGuestName = false → target.readsGuestName = true → ∀ r ∈ s.rows, Copied r

/-- **Rows the guard finds consistent are.** -/
theorem readsBack_of_allowed {env : Env} {s : Site} {target : Phase} {r : Reservation} {n : Text}
    (h : Allowed env.sql target s.schema s.rows) (hnew : target.readsGuestName = false)
    (hr : r ∈ s.rows) (hold : ReadsBack s.phase r n) (hread : s.phase.readsGuestName = true) :
    ReadsBack target r n where
  old := fun h' => absurd (hnew.symm.trans h') (by decide)
  new := by
    intro _
    obtain ⟨g, hg, hgn⟩ := hold.old hread
    obtain ⟨f, hf⟩ := Option.ne_none_iff_exists'.mp (h.filled hnew r hr)
    obtain ⟨i, hi, -⟩ := guestName_column s.revision
    have hcons := h.consistent hnew (Option.isSome_iff_exists.mpr ⟨i, hi⟩) r hr
    unfold nameMismatch at hcons
    rw [hf, hg] at hcons
    have hsame : rebuilt (some f) r.lastName = legacy env.sql g := by simpa using hcons
    rw [hf, ← hgn, normaliseName_eq_iff]
    exact words_eq_of_rebuilt_eq hsame

/-- **A phase change keeps the names**, if it is accepted or at least no way to the new columns. -/
theorem Sound.move {env : Env} {s : Site} {target : Phase} (h : Sound s) (hf : FilledIn s)
    (hok : s.phase.readsGuestName = true → refusal target (s.state env) = none)
    (hback : WayBack s target) :
    FilledIn { s with phase := target } ∧ Sound { s with phase := target } := by
  rw [sound_iff] at h
  rw [sound_iff]
  by_cases hsame : target.readsGuestName = s.phase.readsGuestName
  · exact ⟨fun hnew => hf (hsame.symm.trans hnew), fun r hr n hn => (h r hr n hn).phase hsame⟩
  · cases hread : s.phase.readsGuestName with
    | true =>
      -- to the new columns: the guard has counted
      have hnew : target.readsGuestName = false := by simpa [hread] using hsame
      have hallowed := (refusal_eq_none_iff target).mp (hok hread)
      exact ⟨fun _ => hallowed.filled hnew,
        fun r hr n hn => readsBack_of_allowed hallowed hnew hr (h r hr n hn) hread⟩
    | false =>
      -- back to the old column
      have hold : target.readsGuestName = true := by simpa [hread] using hsame
      refine ⟨fun hnew => absurd (hold.symm.trans hnew) (by decide), fun r hr n hn => ⟨fun _ => ?_,
        fun h' => absurd (hold.symm.trans h') (by decide)⟩⟩
      obtain ⟨g, hg, hgn⟩ := hback hread hold r hr
      exact ⟨g, hg, hgn.trans ((h r hr n hn).new hread)⟩

/-- A restart while the old column is read finds an allowed phase: `legacy` is one. -/
theorem refusal_restart {env : Env} {s : Site} (h : Sound s) (hinv : Inv s) (configured : Phase)
    (hread : s.phase.readsGuestName = true) :
    refusal (reconcile configured (s.state env)) (s.state env) = none := by
  rcases reconcile_cases configured (s.state env) with hok | ⟨hnone, -⟩
  · exact hok
  · refine absurd (allowed_legacy fun r hr => ?_) (hnone .legacy)
    obtain ⟨n, hn⟩ := hinv.named r hr
    obtain ⟨g, hg, -⟩ := (sound_iff.mp h r hr n hn).old hread
    rw [hg]
    exact Option.some_ne_none g

/-! ### One event -/

/-- Both parts of every name that the event brings fit their columns. -/
def NamesFit : Event → Prop
  | .create _ body => FitsColumns body.guestName
  | .edit _ _ op => ∀ n, op.guestName = some n → FitsColumns n
  | _ => True

/-- **The condition**: a phase change or a restart leads back to `guest_name` only when every row's
    `guest_name` is there and is the name in its new columns. -/
def KeepsCopies (env : Env) (s : Site) : Event → Prop
  | .put target => refusal target (s.state env) = none → WayBack s target
  | .restart configured => WayBack s (reconcile configured (s.state env))
  | _ => True

/-- The names of a row after an edit: those that `write_name` leaves, if the edit brings a name. -/
theorem get_edited {s : Site} {op : Op} {ed : Edit} (h : op.edit s.phase = some ed)
    (r : Reservation) (v : Nat) (c : Column) :
    ((ed.changes.net (s.load r)).apply r v).get c
      = (op.guestName.elim r (writeName s.phase r)).get c := by
  have happly := edit_apply h (s.load r) v
  rw [Site.load_row] at happly
  rw [happly]
  cases c <;> rfl

/-- An edit without net changes leaves the names as they are, also those it brings. -/
theorem get_kept {s : Site} {op : Op} {ed : Edit} (h : op.edit s.phase = some ed)
    {r : Reservation} (he : (ed.changes.net (s.load r)).isEmpty = true) (c : Column) :
    r.get c = (op.guestName.elim r (writeName s.phase r)).get c := by
  rw [← get_edited h r 0 c, apply_get]
  obtain ⟨⟨hn, -⟩, -⟩ : (_ ∧ _) ∧ _ := by
    simpa only [Changes.isEmpty, Bool.and_eq_true, List.isEmpty_iff] using he
  rw [hn]
  rfl

/-- The edit is answered with the row it asks for: it has nothing to change, or goes through. -/
def Site.Accepts (s : Site) (user : User) (id : Nat) (op : Op) : Prop :=
  (∃ l ch, s.editRow user id op = .ok (l, ch) ∧ ch.isEmpty = true) ∨ s.Flushes user id op

/-- **Where a row comes from**, and with it the name last written for it. -/
inductive Origin (s : Site) (ev : Event) (s' : Site) (r' : Reservation) : Prop
  | kept {r : Reservation} : r ∈ s.rows → (∀ c, r'.get c = r.get c) →
      s'.lastName r'.id = s.lastName r.id → Origin s ev s' r'
  | booked {user : User} {body : ReservationCreate} : ev = .create user body →
      (∀ c, r'.get c = (newReservation s.phase user body).get c) →
      s'.lastName r'.id = some body.guestName → Origin s ev s' r'
  | renamed {user : User} {id : Nat} {op : Op} {n : Text} {r : Reservation} :
      ev = .edit user id op → op.guestName = some n → s.Accepts user id op → r ∈ s.rows →
      r.id = id → (∀ c, r'.get c = (writeName s.phase r n).get c) →
      s'.lastName r'.id = some n → Origin s ev s' r'
  | filled {startAfter batchSize v : Nat} {r : Reservation} :
      ev = .backfill startAfter batchSize → r ∈ s.rows → r.firstName = none →
      r' = fill r (splitGuestName (r.guestName.getD [])) v →
      s'.lastName r'.id = s.lastName r.id → Origin s ev s' r'

/-- A row that an edit has gone over. -/
theorem origin_edited {s s' : Site} {user : User} {id : Nat} {op : Op} {r r' : Reservation}
    (hacc : s.Accepts user id op) (hr : r ∈ s.rows) (hid : r.id = id)
    (hget : ∀ c, r'.get c = (op.guestName.elim r (writeName s.phase r)).get c)
    (hname : s'.lastName r'.id = op.guestName.or (s.lastName r.id)) :
    Origin s (.edit user id op) s' r' := by
  cases hop : op.guestName with
  | none =>
    rw [hop] at hget hname
    exact .kept hr hget hname
  | some n =>
    rw [hop] at hget hname
    exact .renamed rfl hop hacc hr hid hget hname

/-- **Every row of the next state has an origin.** -/
theorem origin {env : Env} {s s' : Site} {ev : Event} (hinv : Inv s)
    (hst : (deployment env).step s ev = some s') {r' : Reservation} (hr' : r' ∈ s'.rows) :
    Origin s ev s' r' := by
  cases step_cases hinv.ids hst with
  | idle _ => exact .kept hr' (fun _ => rfl) rfl
  | @create user body r hr _ =>
    obtain ⟨-, -, rfl⟩ := bookingRow_ok hr
    rcases mem_booked.mp hr' with hold | rfl
    · refine .kept hold (fun _ => rfl) ?_
      have hne : (inserted env (newReservation s.phase user body) s.nextId s.clock).id ≠ r'.id :=
        Nat.ne_of_gt (hinv.bound r' hold)
      rw [lastName_booked, if_neg hne]
    · refine .booked rfl (fun c => inserted_get env _ _ _ c) ?_
      rw [lastName_booked, if_pos rfl]
  | @keep user id op l ch hrow he =>
    have hacc : s.Accepts user id op := Or.inl ⟨l, ch, hrow, he⟩
    obtain ⟨r, hr, ed, hid, rfl, hed, rfl⟩ := editRow_ok hrow
    by_cases hrr : r.id = r'.id
    · obtain rfl : r = r' := List.inj_on_of_nodup_map hinv.ids hr hr' hrr
      refine origin_edited hacc hr hid (get_kept hed he) ?_
      rw [lastName_named, Site.load_row, if_pos rfl]
    · refine .kept hr' (fun _ => rfl) ?_
      rw [lastName_named, Site.load_row, if_neg hrr]
  | @edit user id op l ch hrow hne hupd hclash =>
    have hacc : s.Accepts user id op := Or.inr ⟨l, ch, hrow, hne, hupd, hclash⟩
    obtain ⟨r, hr, ed, hid, rfl, hed, rfl⟩ := editRow_ok hrow
    rcases mem_replaced.mp hr' with ⟨hold, hother⟩ | rfl
    · refine .kept hold (fun _ => rfl) ?_
      rw [lastName_named, Site.load_row, if_neg fun heq => hother (heq.symm.trans (apply_id ..).symm)]
      rfl
    · refine origin_edited hacc hr hid (get_edited hed r s.clock) ?_
      rw [lastName_named, Site.load_row, if_pos (apply_id ..).symm, apply_id]
      rfl
  | backfill hfilled =>
    obtain ⟨r, hr, rfl | ⟨hnone, v, rfl⟩⟩ := hfilled.mem hr'
    · exact .kept hr (fun _ => rfl) rfl
    · exact .filled rfl hr hnone rfl rfl
  | upgrade target => exact .kept hr' (fun _ => rfl) rfl
  | put _ => exact .kept hr' (fun _ => rfl) rfl
  | restart configured => exact .kept hr' (fun _ => rfl) rfl

/-- **A name that an accepted edit brings is written**, and is the last one then. -/
theorem Site.Accepts.written {s : Site} {user : User} {id : Nat} {op : Op} {n : Text}
    (h : s.Accepts user id op) (hn : op.guestName = some n) :
    ∃ r ∈ s.rows, r.id = id ∧ ∃ r' ∈ (s.edit user id op).1.rows, r'.id = id ∧
      (∀ c, r'.get c = (writeName s.phase r n).get c) ∧
      (s.edit user id op).1.lastName id = some n := by
  rcases h with ⟨l, ch, hrow, he⟩ | ⟨l, ch, hrow, hne, hupd, hclash⟩
  · obtain ⟨r, hr, ed, rfl, rfl, hed, rfl⟩ := editRow_ok hrow
    have hget := get_kept hed he
    unfold Site.edit
    rw [hrow]
    dsimp only
    rw [if_pos he]
    refine ⟨r, hr, rfl, r, hr, rfl, fun c => ?_, ?_⟩
    · rw [hget c, hn]
      rfl
    · rw [lastName_named, Site.load_row, if_pos rfl, hn]
      rfl
  · obtain ⟨r, hr, ed, rfl, rfl, hed, rfl⟩ := editRow_ok hrow
    have hget := get_edited hed r s.clock
    unfold Site.edit
    rw [hrow]
    dsimp only
    rw [if_neg (by rw [hne]; decide), hupd]
    dsimp only
    rw [if_neg (by rw [hclash]; decide)]
    refine ⟨r, hr, rfl, _, mem_replaced.mpr (Or.inr rfl), apply_id .., fun c => ?_, ?_⟩
    · rw [Site.load_row, hget c, hn]
      rfl
    · rw [lastName_named, Site.load_row, if_pos rfl, hn]
      rfl

theorem edit_phase (s : Site) (user : User) (id : Nat) (op : Op) :
    (s.edit user id op).1.phase = s.phase := by
  unfold Site.edit
  split
  · rfl
  · split
    · rfl
    · split
      · rfl
      · split <;> rfl

/-- Only a phase change and a restart move the phase. -/
theorem phase_kept {env : Env} {s s' : Site} {ev : Event} (hinv : Inv s)
    (hst : (deployment env).step s ev = some s') :
    s'.phase = s.phase ∨
      (∃ target, ev = .put target ∧ refusal target (s.state env) = none ∧
        s' = { s with phase := target }) ∨
      ∃ configured, ev = .restart configured ∧ s' = s.restart env configured := by
  cases step_cases hinv.ids hst with
  | idle _ => exact Or.inl rfl
  | create _ _ => exact Or.inl rfl
  | keep _ _ => exact Or.inl rfl
  | edit _ _ _ _ => exact Or.inl rfl
  | backfill _ => exact Or.inl rfl
  | upgrade target => exact Or.inl rfl
  | @put target hok => exact Or.inr (Or.inl ⟨target, rfl, hok, rfl⟩)
  | restart configured => exact Or.inr (Or.inr ⟨configured, rfl, rfl⟩)

/-- A row that is read back, or whose new columns are filled, is so wherever it comes from. -/
theorem Origin.readsBack {s s' : Site} {ev : Event} {r' : Reservation} (ho : Origin s ev s' r')
    (h : Sound s) (hf : FilledIn s) (hfit : NamesFit ev) :
    (s.phase.readsGuestName = false → r'.firstName ≠ none) ∧
      ∀ n, s'.lastName r'.id = some n → ReadsBack s.phase r' n := by
  have hread := sound_iff.mp h
  cases ho with
  | @kept r hr hget hname =>
    have hfirst : r'.firstName = r.firstName := hget .firstName
    rw [hname, hfirst]
    exact ⟨fun hnew => hf hnew r hr, fun n hn => (hread r hr n hn).congr hget⟩
  | @booked user body hev hget hname =>
    subst hev
    have hfirst : r'.firstName = (newReservation s.phase user body).firstName := hget .firstName
    refine ⟨fun hnew => ?_, fun n hn => ?_⟩
    · rw [hfirst]
      exact (writeName_new hnew _ _).1 ▸ Option.some_ne_none _
    · obtain rfl := Option.some.inj (hname.symm.trans hn)
      exact (readsBack_writeName hfit s.phase _).congr hget
  | @renamed user id op m r hev hop _ _ _ hget hname =>
    subst hev
    have hfirst : r'.firstName = (writeName s.phase r m).firstName := hget .firstName
    refine ⟨fun hnew => ?_, fun n hn => ?_⟩
    · rw [hfirst, (writeName_new hnew r m).1]
      exact Option.some_ne_none _
    · obtain rfl := Option.some.inj (hname.symm.trans hn)
      exact (readsBack_writeName (hfit m hop) s.phase r).congr hget
  | @filled _ _ v r _ hr hnone heq hname =>
    subst heq
    refine ⟨fun _ => Option.some_ne_none _, fun n hn => ?_⟩
    rw [hname] at hn
    -- a filled row keeps its old column, and no other is read
    exact ⟨(hread r hr n hn).old, fun hnew => absurd hnone (hf hnew r hr)⟩

/-- **One event keeps every name readable**, unless it is a way back that loses one. -/
theorem Sound.step {env : Env} {s s' : Site} {ev : Event} (h : Sound s) (hinv : Inv s)
    (hf : FilledIn s) (hfit : NamesFit ev) (hC : KeepsCopies env s ev)
    (hst : (deployment env).step s ev = some s') : FilledIn s' ∧ Sound s' := by
  rcases phase_kept hinv hst with hp | ⟨target, rfl, hok, rfl⟩ | ⟨configured, rfl, rfl⟩
  · have hrow := fun r' (hr' : r' ∈ s'.rows) => (origin hinv hst hr').readsBack h hf hfit
    refine ⟨fun hnew r' hr' => ?_, sound_iff.mpr fun r' hr' => ?_⟩
    · exact (hrow r' hr').1 (hp ▸ hnew)
    · rw [hp]
      exact (hrow r' hr').2
  · exact h.move hf (fun _ => hok) (hC hok)
  · exact h.move hf (refusal_restart h hinv configured) hC

/-- **A way back over differing copies loses a name.** -/
theorem not_sound_of_wayBack {s : Site} {target : Phase} (h : Sound s) (hinv : Inv s)
    (hback : ¬ WayBack s target) : ¬ Sound { s with phase := target } := by
  intro h'
  refine hback fun hnew hold r hr => ?_
  obtain ⟨n, hn⟩ := hinv.named r hr
  obtain ⟨g, hg, hgn⟩ := (sound_iff.mp h' r hr n hn).old hold
  exact ⟨g, hg, hgn.trans ((sound_iff.mp h r hr n hn).new hnew).symm⟩

theorem not_sound_step {env : Env} {s s' : Site} {ev : Event} (h : Sound s) (hinv : Inv s)
    (hC : ¬ KeepsCopies env s ev) (hst : (deployment env).step s ev = some s') : ¬ Sound s' := by
  cases ev with
  | put target =>
    obtain ⟨hok, hback⟩ := Classical.not_imp.mp hC
    obtain rfl := Option.some.inj hst
    unfold Site.put
    rw [hok]
    exact not_sound_of_wayBack h hinv hback
  | restart configured =>
    obtain rfl := Option.some.inj hst
    exact not_sound_of_wayBack h hinv hC
  | create user body => exact absurd trivial hC
  | edit user id op => exact absurd trivial hC
  | backfill startAfter batchSize => exact absurd trivial hC
  | upgrade target => exact absurd trivial hC

/-! ### Every run -/

/-- **The guards keep every name readable along a run exactly when no way back loses one.** -/
theorem guards_sound_iff (env : Env) (evs : List Event) (hfit : ∀ ev ∈ evs, NamesFit ev) :
    (deployment env).AllStates Sound .start evs ↔
      (deployment env).AllSteps (KeepsCopies env) .start evs := by
  refine Machine.allStates_iff_allSteps (A := NamesFit) (J := fun s => Inv s ∧ FilledIn s) ?_ ?_
    evs .start hfit ⟨inv_start, fun h => absurd h (by decide)⟩ fun r hr => absurd hr List.not_mem_nil
  · rintro s ev s' hev ⟨hinv, hf⟩ h hC hst
    obtain ⟨hf', h'⟩ := h.step hinv hf hev hC hst
    exact ⟨⟨hinv.step hst, hf'⟩, h'⟩
  · rintro s ev s' - ⟨hinv, -⟩ h hC hst
    exact not_sound_step h hinv hC hst

/-- A PATCH of the name. -/
def setName (n : Text) (h : 2 ≤ n.length ∧ n.length ≤ 120) : ReservationUpdate where
  guestName := some n
  partySize := none
  status := none
  guestName_length := fun m hm => by rw [← Option.some.inj hm]; exact h
  partySize_range := no_party

/-- The name after the edit. -/
def bobRay : Text := "Bob Ray".toList

/-- A booking in `legacy`, the whole migration up to `new_only`, and then a new name for it. -/
def renamedRun : List Event :=
  [.create customer lunchForTwo, .upgrade .r0002, .put .dualWrite, .backfill 0 500,
    .put .readNew, .upgrade .r0003, .put .newOnly,
    .edit customer 1 (.patch (some ['*']) (setName bobRay (by decide)))]

/-- The way back to `legacy` is accepted: no `guest_name` is missing. -/
def staleRun : List Event := renamedRun ++ [.put .legacy]

theorem fits_annLee : FitsColumns annLee := by
  intro w ws h
  obtain ⟨rfl, rfl⟩ := List.cons.inj (h.symm.trans (show words isSpace annLee =
    ["Ann".toList, "Lee".toList] by decide))
  decide

theorem fits_bobRay : FitsColumns bobRay := by
  intro w ws h
  obtain ⟨rfl, rfl⟩ := List.cons.inj (h.symm.trans (show words isSpace bobRay =
    ["Bob".toList, "Ray".toList] by decide))
  decide

theorem staleRun_fits : ∀ ev ∈ staleRun, NamesFit ev := by
  intro ev hev
  simp only [staleRun, renamedRun, List.cons_append, List.nil_append, List.mem_cons,
    List.not_mem_nil, or_false] at hev
  rcases hev with rfl | rfl | rfl | rfl | rfl | rfl | rfl | rfl | rfl
  · exact fits_annLee
  all_goals first | exact trivial | skip
  intro n hn
  obtain rfl := Option.some.inj hn
  exact fits_bobRay

theorem staleRun_lost {s : Site} (h : (deployment sample).run .start staleRun = some s) :
    ¬ Sound s := by
  have hphase : s.phase = .legacy := Machine.run_eval _ (fun s => s.phase) h (by decide)
  have hrows : s.rows.map (fun r => (r.id, r.guestName)) = [(1, some annLee)] :=
    Machine.run_eval _ (fun s => s.rows.map fun r => (r.id, r.guestName)) h (by decide)
  have hname : s.lastName 1 = some bobRay :=
    Machine.run_eval _ (fun s => s.lastName 1) h (by decide)
  intro hsound
  obtain ⟨r, hr, hval⟩ := List.mem_map.mp (hrows ▸ List.mem_singleton.mpr rfl :
    (1, some annLee) ∈ s.rows.map fun r => (r.id, r.guestName))
  obtain ⟨hid, hguest⟩ := Prod.mk.inj hval
  obtain ⟨g, hg, hgn⟩ := (sound_iff.mp hsound r hr bobRay (by rw [hid]; exact hname)).old
    (by rw [hphase]; rfl)
  obtain rfl := Option.some.inj (hg.symm.trans hguest)
  exact absurd hgn (by decide)

/-- **A name changed in `new_only` is read stale after an accepted way back.** -/
theorem way_back_reads_stale : ¬ ∀ (env : Env) (evs : List Event) (s : Site),
    (∀ ev ∈ evs, NamesFit ev) → (deployment env).run .start evs = some s → Sound s := by
  intro h
  obtain ⟨s, hs⟩ : ∃ s, (deployment sample).run .start staleRun = some s :=
    Option.isSome_iff_exists.mp (by decide)
  exact staleRun_lost hs (h sample staleRun s staleRun_fits hs)

/-- A step of that run finds the copies apart. -/
theorem way_back_finds_copies_apart :
    ¬ (deployment sample).AllSteps (KeepsCopies sample) .start staleRun := by
  intro hall
  obtain ⟨s, hs⟩ : ∃ s, (deployment sample).run .start staleRun = some s :=
    Option.isSome_iff_exists.mp (by decide)
  exact staleRun_lost hs (((guards_sound_iff sample staleRun staleRun_fits).mpr hall).last hs)

/-! ## The current phase stays allowed -/

/-- The phase is an allowed one, the state lists it as such, a restart that is configured with it
    keeps it, and so some phase is allowed. -/
structure Settled (env : Env) (s : Site) : Prop where
  own : refusal s.phase (s.state env) = none
  listed : s.phase ∈ allowedPhases (s.state env)
  kept : (s.restart env s.phase).phase = s.phase
  anyAllowed : ∃ p, refusal p (s.state env) = none

theorem settled_iff {env : Env} {s : Site} :
    Settled env s ↔ Allowed env.sql s.phase s.schema s.rows := by
  rw [← refusal_eq_none_iff]
  constructor
  · exact Settled.own
  · intro h
    exact ⟨h, List.mem_filter.mpr ⟨by cases s.phase <;> decide, Option.isNone_iff_eq_none.mpr h⟩,
      if_pos h, s.phase, h⟩

/-- SQL finds the split of the name `n` equal to the old column `g`. -/
def Agrees (sql : SqlSpace) (n g : Text) : Prop :=
  rebuilt (some (splitGuestName n).1) (some (splitGuestName n).2) = legacy sql g

instance (sql : SqlSpace) (n g : Text) : Decidable (Agrees sql n g) :=
  inferInstanceAs (Decidable (_ = _))

/-- **The condition**: a name that is written in a phase that reads the new columns agrees with the
    `guest_name` its row has then: itself in `read_new`, and the one left behind in `new_only`. -/
def KeepsAgreement (env : Env) (s : Site) : Event → Prop
  | .create user body =>
    s.phase = .readNew → (∃ r, s.bookingRow env user body = .ok r ∧ s.clashes r = false) →
      Agrees env.sql body.guestName body.guestName
  | .edit user id op =>
    ∀ n, op.guestName = some n → s.Flushes user id op →
      (s.phase = .readNew → Agrees env.sql n n) ∧
      (s.phase = .newOnly → ∀ r ∈ s.rows, r.id = id → ∀ g, r.guestName = some g →
        Agrees env.sql n g)
  | _ => True

/-- **When a row's new columns are the split of `n`, the guard compares `n`.** -/
theorem nameMismatch_split {sql : SqlSpace} {r : Reservation} {n : Text}
    (hf : r.firstName = some (splitGuestName n).1) (hl : r.lastName = some (splitGuestName n).2) :
    nameMismatch sql r = false ↔ ∀ g, r.guestName = some g → Agrees sql n g := by
  unfold nameMismatch Agrees
  rw [hf, hl]
  cases r.guestName <;> simp

theorem nameMismatch_congr {sql : SqlSpace} {r r' : Reservation} (h : ∀ c, r'.get c = r.get c) :
    nameMismatch sql r' = nameMismatch sql r := by
  have hg : r'.guestName = r.guestName := h .guestName
  have hf : r'.firstName = r.firstName := h .firstName
  have hl : r'.lastName = r.lastName := h .lastName
  unfold nameMismatch
  rw [hg, hf, hl]

/-- The old column after a name is written. -/
theorem writeName_guestName (p : Phase) (r : Reservation) (n : Text) :
    (writeName p r n).guestName = if p = .newOnly then r.guestName else some n := by
  have h := get_writeName p r n .guestName
  cases p <;> exact h

/-- **What is written agrees** exactly when the condition says so. -/
theorem nameMismatch_writeName {sql : SqlSpace} {p : Phase} (hp : p.readsGuestName = false)
    (r : Reservation) (n : Text) :
    nameMismatch sql (writeName p r n) = false ↔
      (p = .readNew → Agrees sql n n) ∧
      (p = .newOnly → ∀ g, r.guestName = some g → Agrees sql n g) := by
  obtain ⟨hf, hl⟩ := writeName_new hp r n
  rw [nameMismatch_split hf hl, writeName_guestName]
  cases p with
  | legacy => exact absurd hp (by decide)
  | dualWrite => exact absurd hp (by decide)
  | readNew => simp
  | newOnly => simp

/-- A row after a name is written in the phase, fit for the phase again. -/
theorem fit_written {sql : SqlSpace} {p : Phase} {r r' : Reservation} {n : Text}
    (hget : ∀ c, r'.get c = (writeName p r n).get c)
    (hagree : p.readsGuestName = false → nameMismatch sql (writeName p r n) = false) :
    (p.readsGuestName = true → r'.guestName ≠ none) ∧
      (p.readsGuestName = false → r'.firstName ≠ none ∧ nameMismatch sql r' = false) := by
  constructor
  · intro hp
    have hg : r'.guestName = (writeName p r n).guestName := hget .guestName
    rw [hg, writeName_guestName, if_neg (by rintro rfl; exact absurd hp (by decide))]
    exact Option.some_ne_none n
  · intro hp
    have hf : r'.firstName = (writeName p r n).firstName := hget .firstName
    rw [hf, (writeName_new hp r n).1, nameMismatch_congr hget]
    exact ⟨Option.some_ne_none _, hagree hp⟩

/-! ### One event -/

/-- **One event keeps the phase allowed**, if what it writes agrees. -/
theorem Settled.step {env : Env} {s s' : Site} {ev : Event} (h : Settled env s) (hinv : Inv s)
    (hC : KeepsAgreement env s ev) (hst : (deployment env).step s ev = some s') :
    Settled env s' := by
  have hallowed := settled_iff.mp h
  cases step_cases hinv.ids hst with
  | idle _ => exact settled_iff.mpr hallowed
  | @create user body r hr hclash =>
    have hC := fun hp => hC hp ⟨r, hr, hclash⟩
    obtain ⟨-, -, rfl⟩ := bookingRow_ok hr
    refine settled_iff.mpr (hallowed.of_rows fun x hx => (mem_booked.mp hx).imp_right ?_)
    rintro rfl
    refine fit_written (fun c => inserted_get env _ _ _ c) fun hp => ?_
    refine (nameMismatch_writeName hp _ _).mpr ⟨hC, fun _ g hg => ?_⟩
    exact absurd hg (by simp)
  | keep _ _ => exact settled_iff.mpr hallowed
  | @edit user id op l ch hrow hne hupd hclash =>
    have hC := fun n hn => hC n hn ⟨l, ch, hrow, hne, hupd, hclash⟩
    obtain ⟨r, hr, ed, hid, rfl, hed, rfl⟩ := editRow_ok hrow
    have hget := get_edited hed r s.clock
    refine settled_iff.mpr (hallowed.of_rows fun x hx => (mem_replaced.mp hx).imp And.left ?_)
    rintro rfl
    cases hop : op.guestName with
    | none =>
      -- the names of the row are the old ones
      rw [hop] at hget
      refine ⟨fun hp => ?_, fun hp => ⟨?_, ?_⟩⟩
      · show Reservation.get _ .guestName ≠ none
        rw [Site.load_row, hget]
        exact hallowed.noMissing hp r hr
      · show Reservation.get _ .firstName ≠ none
        rw [Site.load_row, hget]
        exact hallowed.filled hp r hr
      · obtain ⟨i, hi, -⟩ := guestName_column s.revision
        rw [Site.load_row, nameMismatch_congr hget]
        exact hallowed.consistent hp (Option.isSome_iff_exists.mpr ⟨i, hi⟩) r hr
    | some n =>
      rw [hop] at hget
      obtain ⟨hread, hnew⟩ := hC n hop
      exact fit_written hget fun hp =>
        (nameMismatch_writeName hp r n).mpr ⟨hread, fun hp => hnew hp r hr hid⟩
  | backfill hfilled =>
    -- a phase that reads the new columns has none to fill
    refine settled_iff.mpr (hallowed.of_rows fun x' hx' => ?_)
    obtain ⟨x, hx, rfl | ⟨hnone, v, rfl⟩⟩ := hfilled.mem hx'
    · exact Or.inl hx
    · exact Or.inr ⟨fun hp => hallowed.noMissing hp x hx,
        fun hp => absurd hnone (hallowed.filled hp x hx)⟩
  | upgrade target => exact settled_iff.mpr (hallowed.upgrade target)
  | put hok => exact settled_iff.mpr ((refusal_eq_none_iff _).mp hok)
  | restart configured =>
    rcases reconcile_cases configured (s.state env) with hok | ⟨hnone, -⟩
    · exact settled_iff.mpr ((refusal_eq_none_iff _).mp hok)
    · exact absurd h.own (hnone s.phase)

/-- A row the guard counts in a phase that reads the new columns takes the phase away. -/
theorem not_settled_of_mismatch {env : Env} {s : Site} (hp : s.phase.readsGuestName = false)
    {r : Reservation} (hr : r ∈ s.rows) (h : nameMismatch env.sql r ≠ false) : ¬ Settled env s := by
  intro hs
  obtain ⟨i, hi, -⟩ := guestName_column s.revision
  exact h ((settled_iff.mp hs).consistent hp (Option.isSome_iff_exists.mpr ⟨i, hi⟩) r hr)

/-- **A name that is written and does not agree takes the current phase away.** -/
theorem not_settled_step {env : Env} {s s' : Site} {ev : Event} (hinv : Inv s)
    (hC : ¬ KeepsAgreement env s ev) (hst : (deployment env).step s ev = some s') :
    ¬ Settled env s' := by
  cases ev with
  | create user body =>
    obtain ⟨hp, hC⟩ := Classical.not_imp.mp hC
    obtain ⟨⟨r, hr, hclash⟩, hC⟩ := Classical.not_imp.mp hC
    obtain rfl := Option.some.inj hst
    unfold Site.create
    rw [hr]
    dsimp only
    rw [if_neg (by rw [hclash]; decide)]
    obtain ⟨-, -, rfl⟩ := bookingRow_ok hr
    have hread : s.phase.readsGuestName = false := by rw [hp]; rfl
    refine not_settled_of_mismatch hread (mem_booked.mpr (Or.inr rfl)) ?_
    rw [nameMismatch_congr fun c => inserted_get env _ _ _ c]
    exact fun hmis => hC (((nameMismatch_writeName hread _ _).mp hmis).1 hp)
  | edit user id op =>
    obtain ⟨n, hC⟩ := not_forall.mp hC
    obtain ⟨hn, hC⟩ := Classical.not_imp.mp hC
    obtain ⟨hflush, hC⟩ := Classical.not_imp.mp hC
    obtain rfl := Option.some.inj hst
    have hread : s.phase.readsGuestName = false := by
      by_contra hread
      refine hC ⟨fun hp => ?_, fun hp => ?_⟩ <;> rw [hp] at hread <;> exact absurd rfl hread
    have hacc : s.Accepts user id op := Or.inr hflush
    obtain ⟨r, hr, rfl, r', hr', -, hget, -⟩ := hacc.written hn
    have hsame := edit_phase s user r.id op
    refine not_settled_of_mismatch (hsame ▸ hread) hr' ?_
    rw [nameMismatch_congr hget]
    intro hmis
    obtain ⟨h1, h2⟩ := (nameMismatch_writeName hread r n).mp hmis
    refine hC ⟨h1, fun hp x hx hxid => ?_⟩
    obtain rfl := List.inj_on_of_nodup_map hinv.ids hx hr hxid
    exact h2 hp
  | put target => exact absurd trivial hC
  | restart configured => exact absurd trivial hC
  | backfill startAfter batchSize => exact absurd trivial hC
  | upgrade target => exact absurd trivial hC

theorem settled_start (env : Env) : Settled env .start :=
  settled_iff.mpr ⟨fun _ => rfl, fun h => absurd rfl h, fun _ _ h => absurd h List.not_mem_nil,
    fun h => absurd h (by decide), fun h => absurd h (by decide), fun h => absurd h (by decide)⟩

/-! ### Every run -/

/-- **The current phase stays allowed along a run exactly when every name that is written in a phase
    that reads the new columns agrees with `guest_name`.** -/
theorem own_phase_allowed_iff (env : Env) (evs : List Event) :
    (deployment env).AllStates (Settled env) .start evs ↔
      (deployment env).AllSteps (KeepsAgreement env) .start evs := by
  refine Machine.allStates_iff_allSteps (A := fun _ => True) (J := Inv) ?_ ?_ evs .start
    (fun _ _ => trivial) inv_start (settled_start env)
  · intro s ev s' _ hinv h hC hst
    exact ⟨hinv.step hst, h.step hinv hC hst⟩
  · intro s ev s' _ hinv _ hC hst
    exact not_settled_step hinv hC hst

/-- **A new name in `new_only` takes the phase away**: its row still has the old `guest_name`. -/
theorem rename_takes_phase_away : ¬ ∀ (env : Env) (evs : List Event) (s : Site),
    (deployment env).run .start evs = some s → refusal s.phase (s.state env) = none := by
  intro h
  obtain ⟨s, hs⟩ : ∃ s, (deployment sample).run .start renamedRun = some s :=
    Option.isSome_iff_exists.mp (by decide)
  have hrefused : (refusal s.phase (s.state sample)).isSome = true :=
    Machine.run_eval _ (fun s => (refusal s.phase (s.state sample)).isSome) hs (by decide)
  rw [h sample renamedRun s hs] at hrefused
  exact absurd hrefused (by decide)

end TableFlow.Deployment
