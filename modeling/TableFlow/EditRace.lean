/-
  A race of edits: of any number of PATCHes that start from one version, exactly one is saved.

  1. **The race** (`EditRace`) — the contenders send the ETag of one reservation that is not
     cancelled, and each changes something.  Beside them run reads, and whatever leaves the table
     alone: bookings of other tables, and edits of all reservations that are not on the table.  One
     phase holds throughout, and no batch of the backfill runs.
  2. **The version decides** — every change of the row starts from the row of the start
     (`before_eq`), as nobody names another version; versions grow along the row's chain, so there
     is at most one change (`change_unique`).
  3. **Nothing else stands in the way** — a contender that has written its row version keeps the
     window the row had, so its check neither waits nor fails (`not_blocked`, `not_violated`), and
     it is never the victim of a deadlock (`no_victim`).
  4. **What contenders are told** (`Told`) — the winner the row it has made, all others 409 or
     412, and nobody anything before the winner has committed.

  `Racing` is the invariant; the count of committed contenders is the length of the row's history.
-/
import TableFlow.Authority
import TableFlow.Answers
import TableFlow.Booking

namespace TableFlow

open Lib

/-- Edits of `row` that are sent while other tables' reservations change.  The driver loads the row
    and sends the names. -/
structure EditRace (env : Env) (init : List Reservation) (phase : Phase) where
  row : Reservation
  edit : User → ReservationUpdate → Prop
  mem : row ∈ init
  sendable : fitsBigint row.id = true
  active : row.status ≠ .cancelled
  loaded : loads row = true
  named : phase.readsGuestName = true → row.guestName ≠ none
  reaches : ∀ user body, edit user body → Reaches user row.userId
  changes : ∀ user body, edit user body →
    ((patched phase body).net ⟨row, readColumns phase⟩).isEmpty = false
  storable : ∀ user body, edit user body → ∀ n, body.guestName = some n → storable n = true

namespace EditRace

variable {env : Env} {init : List Reservation} {phase : Phase} (K : EditRace env init phase)

/-- The reservation at stake. -/
abbrev key : Nat := K.row.id

/-- What may arrive: contenders, reads, and requests that leave the table alone.  An id that is not
    in use at the start is that of a booking made meanwhile, or of nothing. -/
def Admits : Request → Prop
  | .post _ body => body.restaurantTableId ≠ K.row.restaurantTableId
  | .onOne user id op =>
    op = .get ∨
    (id = K.key ∧ ∃ body, op = .patch (some (etag K.row.version)) body ∧ K.edit user body) ∨
    ∀ r ∈ init, r.id = id → r.restaurantTableId ≠ K.row.restaurantTableId
  | .list _ _ => True
  | .put _ => False
  | .batch _ _ => False

/-- Every arriving request is admitted. -/
def Fair (_ : World) (l : Label) : Prop := ∀ req, l = .arrive req → K.Admits req

/-- The task is a contender. -/
def contender (t : Task) : Bool := patches K.key t.request

/-- The changes of the reservation so far. -/
abbrev changesOf (w : World) : List (Lib.Entry Reservation) :=
  Store.changesOf reservations K.key w.store.history

/-- Task `i` has changed the reservation. -/
def WonBy (w : World) (i : Nat) : Prop := ∃ e ∈ K.changesOf w, e.owner = i

/-- The reservation as it is now. -/
abbrev Now (w : World) (r : Reservation) : Prop :=
  Store.lookup reservations w.store.rows K.key = some r

/-- **What contender `i` is told**: the winner its row, the others a conflict. -/
def Told (w : World) (i : Nat) (a : Answer) : Prop :=
  (K.WonBy w i ∧ ∃ r tag out, a = .out 200 tag out ∧ K.Now w r ∧
    toOut phase ⟨r, readColumns phase⟩ = .ok out ∧ tag = etag r.version) ∨
  ((∃ j, K.WonBy w j) ∧ (a.status = 409 ∨ a.status = 412))

/-- The data of contender `i`'s stage. -/
def ContenderOk (w : World) (i : Nat) : Stage → Prop
  | .loaded row => row ≠ none
  | .saved _ => K.WonBy w i
  | .reloading _ _ => K.WonBy w i
  | .reloaded row => K.WonBy w i ∧ ∀ l, row = some l → K.Now w l.row
  | .done a => K.Told w i a
  | _ => True

/-- **The state of the race.** -/
structure Racing (w : World) : Prop where
  unswitched : w.phase = phase
  requests : ∀ t ∈ w.tasks, K.Admits t.request
  columns : ∀ t ∈ w.tasks, LoadedIn phase t.stage
  stages : ∀ (i : Nat) (t : Task), w.tasks[i]? = some t → K.contender t = true →
    K.ContenderOk w i t.stage
  counted : w.tasks.countP (committed K.key) = (K.changesOf w).length

variable {K} {w : World}

/-! ## The row at stake -/

theorem contender_iff {t : Task} : K.contender t = true ↔
    ∃ user ifMatch body, t.request = .onOne user K.key (.patch ifMatch body) := patches_iff

/-- A request on the reservation that may edit it is a contender. -/
theorem admitted_edit {user : User} {op : Op}
    (hadm : K.Admits (.onOne user K.key op)) (hop : op ≠ .get) :
    ∃ body, op = .patch (some (etag K.row.version)) body ∧ K.edit user body := by
  rcases hadm with hget | ⟨-, h⟩ | hother
  · exact absurd hget hop
  · exact h
  · exact absurd rfl (hother K.row K.mem rfl)

section Row

variable (hready : ∃ nextId clock, Ready env phase init nextId clock)
include hready

theorem row_at_start : Store.lookup reservations init K.key = some K.row := by
  obtain ⟨nextId, clock, h⟩ := hready
  exact Store.lookup_mem h.keys K.mem

/-- The row of the start is a version of the reservation. -/
theorem row_version : K.row ∈ Store.versionsOf reservations init w.store K.key := by
  refine List.mem_append_left _ ?_
  rw [row_at_start hready]
  exact List.mem_singleton.mpr rfl

/-- The reservation has a committed row. -/
theorem exists_now (hinv : Inv env init w) : ∃ r, K.Now w r := by
  obtain ⟨r, hr, hid⟩ := hinv.tracked.exists_row (row_version hready)
  refine ⟨r, ?_⟩
  show Store.lookup reservations w.store.rows K.key = some r
  rw [← show reservations.key r = K.key from hid]
  exact Store.lookup_mem hinv.sound.keys hr

/-- A version whose number the ETag names is the row of the start. -/
theorem named_row (hinv : Inv env init w) {b : Reservation}
    (hb : b ∈ Store.versionsOf reservations init w.store K.key)
    (hm : checkIfMatch b.version (some (etag K.row.version)) true = none) : b = K.row := by
  rcases checkIfMatch_eq_none.mp hm with ⟨hno, -⟩ | ⟨header, hh, hseen⟩
  · exact absurd hno (by simp)
  · obtain rfl := Option.some.inj hh
    rw [ifMatchSeen_etag, List.mem_singleton, List.mem_singleton] at hseen
    rcases hseen with hstar | hv
    · -- a version has no star in it
      have hmem : '*' ∈ digits K.row.version := hstar ▸ List.mem_singleton.mpr rfl
      exact absurd (isDigit_of_mem_digits hmem) (by decide)
    · exact hinv.tracked.version_inj hb (row_version hready) (digits_inj hv)

/-- **A change that an admitted request makes of the reservation starts from the row of the
    start**, and a contender makes it. -/
theorem made_from_row (hinv : Inv env init w) {t : Task} (hadm : K.Admits t.request)
    {before : Option Reservation} {after : Reservation} (hmade : Made env t.request before after)
    (hid : after.id = K.key) (hbefore : before ≠ none)
    (hver : ∀ b, before = some b → b ∈ Store.versionsOf reservations init w.store K.key) :
    before = some K.row ∧ K.contender t = true := by
  obtain ⟨req, st⟩ := t
  cases req with
  | post user body => exact absurd hmade.1 hbefore
  | onOne user id op =>
    have hplace := hmade
    obtain ⟨b, p, ed, cs, v, rfl, hb, -, hop, hm, -⟩ := hmade
    have hk : id = K.key := hb.symm.trans (hplace.place.1.symm.trans hid)
    subst hk
    have hne : op ≠ .get := by
      rintro rfl
      exact absurd hop (by simp [Op.edit])
    obtain ⟨body, rfl, -⟩ := admitted_edit hadm hne
    obtain rfl := Option.some.inj hop
    exact ⟨congrArg some (named_row hready hinv (hver b rfl) hm),
      contender_iff.mpr ⟨user, _, body, rfl⟩⟩
  | batch lastId size => exact absurd hadm (fun x => x)
  | list user limit => exact absurd hmade (fun x => x)
  | put target => exact absurd hmade (fun x => x)

/-! ## At most one change -/

/-- **Every change of the reservation starts from the row of the start.** -/
theorem Racing.before_eq (h : K.Racing w) (hinv : Inv env init w) {e : Lib.Entry Reservation}
    (he : e ∈ K.changesOf w) : e.before = some K.row := by
  obtain ⟨hmem, hid⟩ := List.mem_filter.mp he
  obtain ⟨t, ht, hmade⟩ := hinv.made e hmem
  have hlinked := hinv.tracked.linked K.key
  rw [row_at_start hready] at hlinked
  refine (made_from_row hready hinv (h.requests t (List.mem_of_getElem? ht)) hmade
    (beq_iff_eq.mp hid) (hlinked.before_ne_none e he) fun b hb => ?_).1
  have hver := hlinked.before_mem e he b hb
  rw [← row_at_start hready] at hver
  exact hver

/-- There is at most one. -/
theorem Racing.change_unique (h : K.Racing w) (hinv : Inv env init w) :
    (K.changesOf w).length ≤ 1 := by
  have hlt : (K.changesOf w).Pairwise _ :=
    (hinv.tracked.linked K.key).before_pairwise_lt (hinv.tracked.growing_of K.key)
  have heq : ∀ e ∈ K.changesOf w, e.before = some K.row := fun e he => h.before_eq hready hinv he
  match hes : K.changesOf w with
  | [] => exact Nat.zero_le _
  | [_] => exact Nat.le_refl _
  | e :: e' :: es =>
    rw [hes] at hlt heq
    have hpair := (List.pairwise_cons.mp hlt).1 e' (List.mem_cons_self ..) K.row K.row
      (heq e (List.mem_cons_self ..)) (heq e' (List.mem_cons_of_mem _ (List.mem_cons_self ..)))
    exact absurd hpair (Nat.lt_irrefl _)

/-- After a change the reservation is no longer the row of the start. -/
theorem Racing.changed_row (h : K.Racing w) (hinv : Inv env init w) {j : Nat}
    (hwon : K.WonBy w j) : ∃ e, K.changesOf w = [e] ∧ e.owner = j ∧ K.Now w e.after ∧
      K.row.version < e.after.version := by
  obtain ⟨e, he, ho⟩ := hwon
  have hone : K.changesOf w = [e] := by
    match hes : K.changesOf w with
    | [] => rw [hes] at he; exact absurd he List.not_mem_nil
    | [e'] => rw [hes] at he; rw [List.mem_singleton.mp he]
    | _ :: _ :: _ =>
      have := h.change_unique hready hinv
      rw [hes] at this
      exact absurd this (by simp)
  refine ⟨e, hone, ho, ?_, ?_⟩
  · refine (hinv.tracked.getLast?_iff he).mp ?_
    show (K.changesOf w).getLast? = some e
    rw [hone]
    rfl
  · exact hinv.tracked.growing e (List.mem_filter.mp he).1 K.row (h.before_eq hready hinv he)

/-! ## Row versions in progress -/

/-- **A row version of the reservation that is in progress** is a contender's, and no change has
    been committed yet. -/
theorem Racing.draft_of_key (h : K.Racing w) (hinv : Inv env init w) {d : Draft Reservation}
    (hd : d ∈ w.store.drafts) (hid : d.row.id = K.key) :
    d.before = some K.row ∧ K.Now w K.row ∧ (∀ j, ¬ K.WonBy w j) ∧
      ∃ t, w.tasks[d.owner]? = some t ∧ K.contender t = true := by
  obtain ⟨t, ht, hmade, -⟩ := hinv.writers d hd
  obtain ⟨r, hnow⟩ := exists_now (K := K) hready hinv
  have hbase := hinv.sound.base d hd
  rw [show reservations.key d.row = K.key from hid, hnow] at hbase
  obtain ⟨hrow, hcont⟩ := made_from_row hready hinv (h.requests t (List.mem_of_getElem? ht)) hmade
    hid (by rw [← hbase]; exact Option.some_ne_none _) fun b hb => by
      obtain rfl := Option.some.inj (hbase.trans hb)
      exact hinv.tracked.lookup_mem_versions hnow
  obtain rfl := Option.some.inj (hbase.trans hrow)
  refine ⟨hrow, hnow, fun j hwon => ?_, t, ht, hcont⟩
  obtain ⟨e, -, -, hnow', hlt⟩ := h.changed_row hready hinv hwon
  rw [Option.some.inj (hnow.symm.trans hnow')] at hlt
  exact Nat.lt_irrefl _ hlt

omit hready in
/-- **What is on the table has been there at the start**: nobody books it. -/
theorem Racing.old_row (h : K.Racing w) (hinv : Inv env init w) {r : Reservation}
    (hr : r ∈ w.store.rows) (htab : r.restaurantTableId = K.row.restaurantTableId) :
    ∃ r₀ ∈ init, r₀.id = r.id := by
  by_contra hnew
  have hnone : Store.lookup reservations init r.id = none :=
    Store.lookup_none.mpr fun r₀ hr₀ hid => hnew ⟨r₀, hr₀, hid⟩
  have hlinked := hinv.tracked.linked r.id
  rw [hnone, show Store.lookup reservations w.store.rows r.id = some r from
    Store.lookup_mem hinv.sound.keys hr] at hlinked
  have hmade : ∀ e ∈ Store.changesOf reservations r.id w.store.history, ∃ t ∈ w.tasks,
      Made env t.request e.before e.after := by
    intro e he
    obtain ⟨t, ht, hmade⟩ := hinv.made e (List.mem_filter.mp he).1
    exact ⟨t, List.mem_of_getElem? ht, hmade⟩
  -- it was inserted on another table, and no change moves it
  refine hlinked.last_of (P := fun x => x.restaurantTableId ≠ K.row.restaurantTableId) ?_ ?_ r rfl
    htab
  · intro e he b hb hP
    obtain ⟨t, -, hmade⟩ := hmade e he
    rw [hb] at hmade
    rw [hmade.place.2.1]
    exact hP
  · cases hes : Store.changesOf reservations r.id w.store.history with
    | nil =>
      rw [hes] at hlinked
      exact absurd (show none = some r from hlinked) (by simp)
    | cons e es =>
      have he : e ∈ Store.changesOf reservations r.id w.store.history := hes ▸ List.mem_cons_self ..
      refine ⟨e.after, by simp, ?_⟩
      rw [hes] at hlinked
      obtain ⟨t, ht, hmade⟩ := hmade e he
      rw [hlinked.1] at hmade
      have hadm := h.requests t ht
      obtain ⟨req, st⟩ := t
      cases req with
      | post user body =>
        obtain ⟨-, p, id, v, -, hafter⟩ := hmade
        rw [hafter]
        exact fun htab => hadm ((newReservation_slot p user body).1.symm.trans htab)
      | onOne user id op =>
        obtain ⟨b, p, ed, cs, v, hb, -⟩ := hmade
        exact absurd hb (by simp)
      | batch lastId size => exact absurd hadm (fun x => x)
      | list user limit => exact absurd hmade (fun x => x)
      | put target => exact absurd hmade (fun x => x)

/-- A row version on the table that is in progress is one of the reservation. -/
theorem Racing.draft_on_table (h : K.Racing w) (hinv : Inv env init w) {d : Draft Reservation}
    (hd : d ∈ w.store.drafts) (htab : d.row.restaurantTableId = K.row.restaurantTableId) :
    d.row.id = K.key := by
  obtain ⟨t, ht, hmade, -⟩ := hinv.writers d hd
  have hadm := h.requests t (List.mem_of_getElem? ht)
  have hbase := hinv.sound.base d hd
  obtain ⟨req, st⟩ := t
  cases req with
  | post user body =>
    obtain ⟨-, p, id, v, -, hrow⟩ := hmade
    rw [hrow] at htab
    exact absurd ((newReservation_slot p user body).1.symm.trans htab) hadm
  | onOne user id op =>
    have hplace := hmade
    obtain ⟨b, p, ed, cs, v, hb, hbid, -, hop, -⟩ := hmade
    rw [hb] at hplace hbase
    rcases hadm with rfl | ⟨hid, -⟩ | hother
    · exact absurd hop (by simp [Op.edit])
    · exact hplace.place.1.trans (hbid.trans hid)
    · -- the row is one of another table, and its table does not change
      obtain ⟨nextId, clock, hready⟩ := hready
      have hb : b ∈ w.store.rows := (Store.lookup_some hbase).1
      obtain ⟨r, hr, hrid⟩ := h.old_row hinv hb (hplace.place.2.1.symm.trans htab)
      have hid : r.id = id := hrid.trans hbid
      have hne := hother r hr hid
      have hkey : reservations.key d.row = r.id := hplace.place.1.trans (hbid.trans hid.symm)
      rw [hkey] at hbase
      have hversion : r ∈ Store.versionsOf reservations init w.store r.id := by
        refine List.mem_append_left _ ?_
        rw [show Store.lookup reservations init r.id = some r from
          Store.lookup_mem hready.keys hr]
        exact List.mem_singleton.mpr rfl
      have hterms := congrArg Terms.restaurantTableId (terms_of_version hinv hversion hbase)
      exact absurd (hterms.symm.trans (hplace.place.2.1.symm.trans htab)) hne
  | batch lastId size => exact absurd hadm (fun x => x)
  | list user limit => exact absurd hmade (fun x => x)
  | put target => exact absurd hmade (fun x => x)

/-- The row a contender has written keeps its place. -/
theorem Racing.draft_place (h : K.Racing w) (hinv : Inv env init w) {d : Draft Reservation}
    (hd : d ∈ w.store.drafts) (hid : d.row.id = K.key) {r : Reservation}
    (hc : doubleBooking d.row r = true) : doubleBooking K.row r = true := by
  obtain ⟨hbefore, -⟩ := h.draft_of_key hready hinv hd hid
  obtain ⟨t, -, hmade, -⟩ := hinv.writers d hd
  rw [hbefore] at hmade
  obtain ⟨-, htab, hstart, hend⟩ := hmade.place
  obtain ⟨-, hcr, hslot⟩ := (doubleBooking_iff _ _).mp hc
  refine (doubleBooking_iff _ _).mpr ⟨K.active, hcr, ?_⟩
  show sameSlot K.row r = true
  rw [← show sameSlot d.row r = sameSlot K.row r by unfold sameSlot; rw [htab, hstart, hend]]
  exact hslot

/-- **A contender's check finds nothing in its way.** -/
theorem Racing.not_violated (h : K.Racing w) (hinv : Inv env init w) {d : Draft Reservation}
    (hd : d ∈ w.store.drafts) (hid : d.row.id = K.key) : w.store.violated reservations d = false := by
  by_contra hv
  obtain ⟨r, hr, hne, hc⟩ := Store.violated_iff.mp (Bool.not_eq_false _ ▸ hv)
  have hclash := h.draft_place hready hinv hd hid hc
  obtain ⟨-, hnow, -, t, ht, hcont⟩ := h.draft_of_key hready hinv hd hid
  rcases Store.mem_seen.mp hr with ⟨hr, -⟩ | ⟨d', hd', ho, rfl⟩
  · -- the committed row was apart from it
    have hne' : reservations.key K.row ≠ reservations.key r :=
      fun hk => hne (hk.symm.trans (show K.row.id = d.row.id from hid.symm))
    have := hinv.sound.apart K.row (Store.lookup_some hnow).1 r hr hne'
    rw [reservations_clash, hclash] at this
    exact absurd this (by decide)
  · -- it has written nothing else
    obtain ⟨-, hslot⟩ := (doubleBooking_iff _ _).mp hclash
    have htab := (Bool.and_eq_true_iff.mp hslot.2).1
    have hkey := h.draft_on_table hready hinv hd' (eq_of_beq htab).symm
    exact hne (hkey.trans hid.symm)

/-- **A contender's check waits for nobody.** -/
theorem Racing.not_blocked (h : K.Racing w) (hinv : Inv env init w) {d d' : Draft Reservation}
    (hd : d ∈ w.store.drafts) (hid : d.row.id = K.key) (hd' : d' ∈ w.store.drafts) :
    Store.blocks reservations d d' = false := by
  by_contra hb
  obtain ⟨hne, hc⟩ := Bool.and_eq_true_iff.mp (Bool.not_eq_false _ ▸ hb)
  have hslot : ∀ r : Reservation, doubleBooking d.row r = true →
      r.restaurantTableId = K.row.restaurantTableId := by
    intro r hr
    obtain ⟨-, -, hs⟩ := (doubleBooking_iff _ _).mp (h.draft_place hready hinv hd hid hr)
    exact (eq_of_beq (Bool.and_eq_true_iff.mp hs).1).symm
  have htab : d'.row.restaurantTableId = K.row.restaurantTableId := by
    rcases Bool.or_eq_true_iff.mp hc with hc | hc
    · exact hslot _ hc
    · obtain ⟨b, hbef, hc⟩ := (Option.any_eq_true _ _).mp hc
      obtain ⟨t, -, hmade, -⟩ := hinv.writers d' hd'
      rw [hbef] at hmade
      exact hmade.place.2.1.trans (hslot b hc)
  have hid' := h.draft_on_table hready hinv hd' htab
  rw [Store.draft_unique hinv.sound.draftKeys hd' hd (hid'.trans hid.symm)] at hne
  exact absurd hne (by simp)

end Row

/-! ## What others rely on -/

/-- Whoever has won stays the winner. -/
theorem WonBy.apply {i j : Nat} (h : K.WonBy w j) (e : Effect) : K.WonBy (w.apply i e) j := by
  obtain ⟨en, hen, ho⟩ := h
  refine ⟨en, ?_, ho⟩
  cases e with
  | commit =>
    show en ∈ Store.changesOf reservations K.key (w.store.commit reservations i).history
    rw [Store.changesOf_commit]
    exact List.mem_append_left _ hen
  | _ => exact hen

/-- The commit of a contender adds one change. -/
theorem changesOf_commit_contender (hinv : Inv env init w) {i : Nat} {t : Task}
    (ht : w.tasks[i]? = some t) {id : Nat} (hst : t.stage = .committing id) (hid : id = K.key) :
    ∃ d ∈ w.store.drafts, d.owner = i ∧
      K.changesOf (w.apply i .commit) = K.changesOf w ++ [d.entry] := by
  have hs := hinv.stages i t ht
  rw [hst] at hs
  obtain ⟨⟨d, hd, ho, hdid⟩, -⟩ := hs
  refine ⟨d, hd, ho, ?_⟩
  show Store.changesOf reservations K.key (w.store.commit reservations i).history = _
  rw [Store.changesOf_commit]
  have hnd : ((w.store.own i).map fun d => reservations.key d.row).Nodup :=
    hinv.sound.draftKeys.sublist (List.filter_sublist.map _)
  have hk : reservations.key d.row = K.key := hdid.trans hid
  have hfilter := Store.filter_key_eq_singleton hnd (Store.mem_own.mpr ⟨hd, ho⟩)
  rw [hk] at hfilter
  rw [hfilter]
  rfl

section Steps

variable (hready : ∃ nextId clock, Ready env phase init nextId clock)
include hready

/-- After the change the reservation stays as it is. -/
theorem Racing.settled (h : K.Racing w) (hinv : Inv env init w) {i j : Nat} (hwon : K.WonBy w j)
    (e : Effect) {r : Reservation} (hr : K.Now w r) : K.Now (w.apply i e) r := by
  show Store.lookup reservations (w.apply i e).store.rows K.key = some r
  rw [lookup_apply_of_not]
  · exact hr
  · refine Store.overwrites_eq_false.mpr fun d hd _ hid => ?_
    exact (h.draft_of_key hready hinv hd hid).2.2.1 j hwon

theorem Racing.told_apply (h : K.Racing w) (hinv : Inv env init w) {i j : Nat} {a : Answer}
    (ha : K.Told w j a) (e : Effect) : K.Told (w.apply i e) j a := by
  rcases ha with ⟨hwon, r, tag, out, ha, hr, hout⟩ | ⟨⟨k, hwon⟩, hstatus⟩
  · exact Or.inl ⟨hwon.apply e, r, tag, out, ha, h.settled hready hinv hwon e hr, hout⟩
  · exact Or.inr ⟨⟨k, hwon.apply e⟩, hstatus⟩

/-- The data of a contender's stage survive what others do. -/
theorem Racing.contenderOk_apply (h : K.Racing w) (hinv : Inv env init w) {i j : Nat} {st : Stage}
    (hs : K.ContenderOk w j st) (e : Effect) : K.ContenderOk (w.apply i e) j st := by
  cases st with
  | saved id => exact WonBy.apply hs e
  | reloading id cs => exact WonBy.apply hs e
  | reloaded row =>
    exact ⟨hs.1.apply e, fun l hl => h.settled hready hinv hs.1 e (hs.2 l hl)⟩
  | done a => exact h.told_apply hready hinv hs e
  | _ => exact hs

/-! ## The history, step by step -/

/-- Only the commit of a contender changes the reservation. -/
theorem Racing.changesOf_apply (h : K.Racing w) (hinv : Inv env init w) {i : Nat} {t : Task}
    (ht : w.tasks[i]? = some t) {e : Effect} (hno : e = .commit → K.contender t = false) :
    K.changesOf (w.apply i e) = K.changesOf w := by
  cases e with
  | commit =>
    show Store.changesOf reservations K.key (w.store.commit reservations i).history = _
    rw [Store.changesOf_commit]
    have hnone : ((w.store.own i).filter fun d => reservations.key d.row == K.key) = [] := by
      refine List.filter_eq_nil_iff.mpr fun d hd hk => ?_
      obtain ⟨hd, ho⟩ := Store.mem_own.mp hd
      obtain ⟨-, -, -, t', ht', hcont⟩ := h.draft_of_key hready hinv hd (beq_iff_eq.mp hk)
      rw [ho, ht] at ht'
      obtain rfl := Option.some.inj ht'
      rw [hno rfl] at hcont
      exact absurd hcont (by decide)
    rw [hnone, List.map_nil, List.append_nil]
  | _ => rfl

/-- A version besides the row of the start has been made by somebody. -/
theorem won_of_version {b : Reservation}
    (hb : b ∈ Store.versionsOf reservations init w.store K.key) (hne : b ≠ K.row) :
    ∃ j, K.WonBy w j := by
  rcases List.mem_append.mp hb with hb | hb
  · rw [row_at_start hready] at hb
    exact absurd (List.mem_singleton.mp hb) hne
  · obtain ⟨e, he, -⟩ := List.mem_map.mp hb
    exact ⟨e.owner, e, he, rfl⟩

/-! ## A contender's stretch -/

/-- What a contender's stretch does to the count: it commits, or it stays what it was. -/
def Advances (st₀ : Stage) (e : Effect) (st : Stage) : Prop :=
  (e = .commit ∧ st₀.hasCommitted = false ∧ st.hasCommitted = true) ∨
  (e ≠ .commit ∧ st.hasCommitted = st₀.hasCommitted)

omit hready in
/-- A contender in front of a loaded row. -/
theorem Racing.loaded_row (h : K.Racing w) (hinv : Inv env init w) {i : Nat} {user : User}
    {op : Op} {row : Option Loaded}
    (ht : w.tasks[i]? = some ⟨.onOne user K.key op, .loaded row⟩) {l : Loaded} (hl : row = some l) :
    l.row ∈ Store.versionsOf reservations init w.store K.key ∧ l.columns = readColumns phase := by
  have hs := hinv.stages i _ ht l hl
  refine ⟨?_, h.columns _ (List.mem_of_getElem? ht) l hl⟩
  rw [← hs.2 user K.key op rfl]
  exact hs.1.2

/-- Its caller may edit the reservation. -/
theorem loadOwned_version (hinv : Inv env init w) {user : User} {body : ReservationUpdate}
    (hedit : K.edit user body) {l : Loaded}
    (hl : l.row ∈ Store.versionsOf reservations init w.store K.key) :
    loadOwned user (some l) = .ok l := by
  have hterms := terms_of_versions hinv (row_version hready) hl
  have huser : l.row.userId = K.row.userId := congrArg Terms.userId hterms
  refine if_neg fun ⟨hrole, hne⟩ => hne ?_
  rw [huser]
  exact K.reaches user body hedit hrole

/-- **Before its UPDATE** a contender has loaded the row of the start, or it is told that the
    reservation has changed. -/
theorem Racing.load_act (h : K.Racing w) (hinv : Inv env init w) {i : Nat} {user : User}
    {body : ReservationUpdate} (hedit : K.edit user body) {row : Option Loaded}
    (ht : w.tasks[i]? = some
      ⟨.onOne user K.key (.patch (some (etag K.row.version)) body), .loaded row⟩)
    (hrow : row ≠ none) {e : Effect} {st : Stage}
    (ha : Act env w i (.onOne user K.key (.patch (some (etag K.row.version)) body)) (.loaded row)
      e st) : K.ContenderOk (w.apply i e) i st ∧ e ≠ .commit ∧ st.hasCommitted = false := by
  obtain ⟨l, rfl⟩ := Option.ne_none_iff_exists'.mp hrow
  obtain ⟨hver, hcols⟩ := h.loaded_row hinv ht rfl
  have hload := loadOwned_version hready hinv hedit hver
  have hok : ∀ {x}, loadOwned user (some l) = .ok x → l = x :=
    fun hx => Except.ok.inj (hload.symm.trans hx)
  cases ha with
  | refuseLoad he =>
    rw [hload] at he
    exact absurd he (by simp)
  | respondGet _ hop => exact absurd hop (by simp [Op.edit])
  | refuseVersion hx hop hm =>
    obtain rfl := hok hx
    obtain rfl := Option.some.inj hop
    have h412 := checkIfMatch_sent hm
    have hne : l.row ≠ K.row := by
      intro heq
      have hpass : checkIfMatch K.row.version (some (etag K.row.version)) true = none :=
        checkIfMatch_eq_none.mpr (Or.inr ⟨_, rfl, Or.inr (by
          rw [ifMatchSeen_etag]
          exact List.mem_singleton.mpr rfl)⟩)
      rw [heq] at hm
      exact absurd (hpass.symm.trans hm) (by simp)
    refine ⟨Or.inr ⟨won_of_version hready hver hne, Or.inr h412⟩, by simp, ?_⟩
    show (_ == 200) = false
    rw [show Answer.status (.refused _) = 412 from h412]
    rfl
  | noChange hx hop hm hempty =>
    -- what a contender asks for changes the row of the start
    obtain rfl := hok hx
    obtain rfl := Option.some.inj hop
    have heq := named_row hready hinv hver hm
    have hchange := K.changes user body hedit
    have hl : l = ⟨K.row, readColumns phase⟩ := by
      obtain ⟨r, cs⟩ := l
      rw [show r = K.row from heq, show cs = readColumns phase from hcols]
    rw [hl, h.unswitched, hchange] at hempty
    exact absurd hempty (by decide)
  | unsendable hx hop hm _ hsend =>
    -- a contender's name can be sent
    obtain rfl := Option.some.inj hop
    have hsends := patched_sendable w.phase (K.storable user body hedit)
    rw [net_sendable hsends] at hsend
    exact absurd hsend (by decide)
  | change _ _ _ _ _ => exact ⟨trivial, by simp, rfl⟩

/-- **At its UPDATE** a contender writes its row version, or it is told that the reservation has
    changed. -/
theorem update_act (hinv : Inv env init w) {i : Nat} {user : User}
    {body : ReservationUpdate} {l : Loaded} {ch : Changes}
    (ht : w.tasks[i]? = some
      ⟨.onOne user K.key (.patch (some (etag K.row.version)) body), .updating l ch⟩)
    {e : Effect} {st : Stage}
    (ha : Act env w i (.onOne user K.key (.patch (some (etag K.row.version)) body)) (.updating l ch)
      e st) : K.ContenderOk (w.apply i e) i st ∧ e ≠ .commit ∧ st.hasCommitted = false := by
  have hs := hinv.stages i _ ht
  obtain ⟨r, hnow⟩ := exists_now (K := K) hready hinv
  have hrow : l.row = K.row := by
    obtain ⟨⟨-, hver⟩, user', op', p, ed, hreq, -, hop, hm, -⟩ := hs
    obtain ⟨-, hid, rfl⟩ := Request.onOne.inj hreq
    obtain rfl := Option.some.inj hop
    rw [← hid] at hver
    exact named_row hready hinv hver hm
  have hid : l.row.id = K.key := congrArg Reservation.id hrow
  cases ha with
  | staleRow _ hstale =>
    have hne : r ≠ K.row := by
      rintro rfl
      exact hstale K.row (hid ▸ hnow) (congrArg Reservation.version hrow.symm)
    exact ⟨Or.inr ⟨won_of_version hready (hinv.tracked.lookup_mem_versions hnow) hne, Or.inl rfl⟩,
      by simp, rfl⟩
  | updateFails _ hr _ he =>
    rw [updateError_eq_none hinv hs hr] at he
    exact absurd he (by simp)
  | update _ _ _ _ => exact ⟨trivial, by simp, rfl⟩

/-- **After its commit** a contender reads its row and is told about it. -/
theorem Racing.save_act (h : K.Racing w) (hinv : Inv env init w) {i : Nat} {user : User} {op : Op}
    {st₀ : Stage} (ht : w.tasks[i]? = some ⟨.onOne user K.key op, st₀⟩)
    (habout : AboutRow (.onOne user K.key op) st₀) (hok : K.ContenderOk w i st₀)
    (hcom : st₀.hasCommitted = true) {e : Effect} {st : Stage}
    (ha : Act env w i (.onOne user K.key op) st₀ e st) :
    K.ContenderOk (w.apply i e) i st ∧ e ≠ .commit ∧ st.hasCommitted = true := by
  have hs := hinv.stages i _ ht
  have hcols := h.columns _ (List.mem_of_getElem? ht)
  cases ha with
  | reload _ => exact ⟨hok, by simp, rfl⟩
  | reloadFails _ he =>
    obtain ⟨-, p, hp, rfl⟩ := hs
    obtain rfl := habout user K.key op rfl
    rw [reloadError_eq hp, loadError_of_version hinv (row_version hready) K.loaded] at he
    exact absurd he (by simp)
  | @reloadRow _ id cs _ _ =>
    refine ⟨⟨hok, fun l hl => ?_⟩, by simp, rfl⟩
    obtain ⟨r, hr, rfl⟩ := Option.map_eq_some_iff.mp hl
    obtain rfl : id = K.key := habout user K.key op rfl
    exact hr
  | noRow _ =>
    obtain ⟨l, hl, -⟩ := hs
    exact absurd hl (by simp)
  | @respondSaved _ l _ =>
    obtain ⟨hwon, hnow⟩ := hok
    have hnow := hnow l rfl
    have hl : l = ⟨l.row, readColumns phase⟩ := by rw [← hcols l rfl]
    have hread : Readable phase l := by
      refine ⟨fun c hc => by rw [hcols l rfl]; exact hc, fun hg => ?_⟩
      exact readable_lasts hinv (row_version hready) (K.named hg) (Store.lookup_some hnow).1
        (Store.lookup_some hnow).2
    obtain ⟨out, hout⟩ := toOut_ok_iff.mpr hread
    have hans : respond w.phase 200 l = .out 200 (etag l.row.version) out := by
      unfold respond
      rw [h.unswitched, hout]
    show K.Told _ i (respond w.phase 200 l) ∧ _ ∧ Stage.hasCommitted (.done (respond w.phase 200 l)) = true
    rw [hans]
    rw [hl] at hout
    exact ⟨Or.inl ⟨hwon, l.row, _, out, rfl, hnow, hout, rfl⟩, by simp, rfl⟩
  | _ => exact absurd hcom (by simp [Stage.hasCommitted])

/-- **A contender's stretch, case by case.** -/
theorem Racing.contender_act (h : K.Racing w) (hinv : Inv env init w) {i : Nat} {t : Task}
    (ht : w.tasks[i]? = some t) (habout : AboutRow t.request t.stage)
    (hcont : K.contender t = true) {e : Effect} {st : Stage}
    (ha : Act env w i t.request t.stage e st) :
    K.ContenderOk (w.apply i e) i st ∧ Advances t.stage e st := by
  have hok := h.stages i t ht hcont
  have hs := hinv.stages i t ht
  have hadm := h.requests t (List.mem_of_getElem? ht)
  obtain ⟨user, ifMatch, body, hreq⟩ := contender_iff.mp hcont
  obtain ⟨req, st₀⟩ := t
  obtain rfl : req = .onOne user K.key (.patch ifMatch body) := hreq
  obtain ⟨body', hop, hedit⟩ := admitted_edit hadm (by simp)
  obtain ⟨rfl, rfl⟩ := Op.patch.inj hop
  -- the stretches before and after the UPDATE, and those that go back to an earlier lemma
  have early : st₀.hasCommitted = false →
      K.ContenderOk (w.apply i e) i st ∧ e ≠ .commit ∧ st.hasCommitted = false →
      K.ContenderOk (w.apply i e) i st ∧ Advances st₀ e st :=
    fun h0 ⟨h1, h2, h3⟩ => ⟨h1, Or.inr ⟨h2, h3.trans h0.symm⟩⟩
  have late : st₀.hasCommitted = true →
      K.ContenderOk (w.apply i e) i st ∧ Advances st₀ e st := fun h0 =>
    have ⟨h1, h2, h3⟩ := h.save_act hready hinv ht habout hok h0 ha
    ⟨h1, Or.inr ⟨h2, h3.trans h0.symm⟩⟩
  cases st₀ with
  | loaded row => exact early rfl (h.load_act hready hinv hedit ht hok ha)
  | updating l ch => exact early rfl (update_act hready hinv ht ha)
  | saved id => exact late rfl
  | reloading id cs => exact late rfl
  | reloaded row => exact late rfl
  | arrived =>
    cases ha
    exact early rfl ⟨trivial, by simp, rfl⟩
  | selecting cs =>
    cases ha with
    | selectFails he =>
      obtain ⟨p, hp, rfl⟩ := hs
      rw [selectError_eq hp _ K.sendable,
        loadError_of_version hinv (row_version hready) K.loaded] at he
      exact absurd he (by simp)
    | selectRow _ =>
      obtain ⟨r, hnow⟩ := exists_now (K := K) hready hinv
      refine early rfl ⟨?_, by simp, rfl⟩
      show selectReservations _ _ _ ≠ none
      unfold selectReservations
      rw [hnow]
      simp
  | checking id todo =>
    have hid : id = K.key := habout user K.key _ rfl
    cases ha with
    | violated hd _ hv =>
      obtain ⟨hmem, -, hdid⟩ := draft_some hd
      rw [h.not_violated hready hinv hmem (hdid.trans hid)] at hv
      exact absurd hv (by decide)
    | pass _ _ _ => exact early rfl ⟨trivial, by simp, rfl⟩
  | committing id =>
    have hid : id = K.key := habout user K.key _ rfl
    cases ha with
    | commit _ =>
      obtain ⟨d, hd, ho, hchanges⟩ := changesOf_commit_contender (K := K) hinv ht rfl hid
      refine ⟨⟨d.entry, ?_, ho⟩, Or.inl ⟨rfl, rfl, rfl⟩⟩
      rw [hchanges]
      exact List.mem_append_right _ (List.mem_singleton.mpr rfl)
  | _ => cases ha

/-! ## The invariant, step by step -/

omit hready in
theorem committed_eq (t : Task) : committed K.key t = (K.contender t && t.stage.hasCommitted) := rfl

/-- **The step rule of the race.** -/
theorem Racing.advance (h : K.Racing w) (hinv : Inv env init w) {i : Nat} {t : Task}
    (ht : w.tasks[i]? = some t) {e : Effect} {st : Stage} (hphase : ∀ p, e ≠ .setPhase p)
    (hcols : LoadedIn phase st)
    (hcont : K.contender t = true → K.ContenderOk (w.apply i e) i st ∧ Advances t.stage e st)
    (hcommit : e = .commit → K.contender t = true → ∃ id, t.stage = .committing id ∧ id = K.key) :
    K.Racing (w.advance i t.request e st) where
  unswitched := by
    cases e with
    | setPhase p => exact absurd rfl (hphase p)
    | _ => exact h.unswitched
  requests := by
    intro t' ht'
    rcases mem_tasks_advance ht' with ht' | rfl
    · exact h.requests t' ht'
    · exact h.requests t (List.mem_of_getElem? ht)
  columns := by
    intro t' ht'
    rcases mem_tasks_advance ht' with ht' | rfl
    · exact h.columns t' ht'
    · exact hcols
  stages := by
    intro j t' ht' hc
    rcases task_of_advance ht' with ⟨rfl, rfl⟩ | ⟨-, ht'⟩
    · exact (hcont hc).1
    · exact h.contenderOk_apply hready hinv (h.stages j t' ht' hc) e
  counted := by
    show _ = (K.changesOf (w.apply i e)).length
    cases hc : K.contender t with
    | false =>
      rw [h.changesOf_apply hready hinv ht fun _ => hc, ← h.counted]
      refine countP_advance ht ?_
      rw [committed_eq, committed_eq, hc, show K.contender ⟨t.request, st⟩ = false from hc]
      rfl
    | true =>
      have hnew : K.contender ⟨t.request, st⟩ = true := hc
      rcases (hcont hc).2 with ⟨rfl, h0, h1⟩ | ⟨hne, heq⟩
      · obtain ⟨id, hst, hid⟩ := hcommit rfl hc
        obtain ⟨d, -, -, hchanges⟩ := changesOf_commit_contender hinv ht hst hid
        rw [hchanges, List.length_append, ← h.counted]
        refine countP_advance_succ ht ?_ ?_
        · rw [committed_eq, h0, Bool.and_false]
        · rw [committed_eq, hnew, h1]
          rfl
      · rw [h.changesOf_apply hready hinv ht fun he => absurd he hne, ← h.counted]
        refine countP_advance ht ?_
        rw [committed_eq, committed_eq, hc, hnew, heq]

theorem Racing.act (h : K.Racing w) (hinv : Inv env init w) {i : Nat} {t : Task}
    (ht : w.tasks[i]? = some t) (habout : AboutRow t.request t.stage) {e : Effect} {st : Stage}
    (ha : Act env w i t.request t.stage e st) : K.Racing (w.advance i t.request e st) := by
  have hmem := List.mem_of_getElem? ht
  refine h.advance hready hinv ht ?_ (ha.loadedIn h.unswitched (h.columns t hmem))
    (fun hc => h.contender_act hready hinv ht habout hc ha) ?_
  · rintro p rfl
    have hadm := h.requests t hmem
    obtain ⟨req, st₀⟩ := t
    cases ha
    exact hadm
  · rintro rfl hc
    obtain ⟨user, ifMatch, body, hreq⟩ := contender_iff.mp hc
    obtain ⟨req, st₀⟩ := t
    obtain rfl : req = .onOne user K.key (.patch ifMatch body) := hreq
    cases ha with
    | commit _ => exact ⟨_, rfl, habout user K.key _ rfl⟩

/-- A contender waits for another one's row version only, before it has written its own. -/
theorem Racing.waits (h : K.Racing w) (hinv : Inv env init w) {i j : Nat} {t : Task}
    (ht : w.tasks[i]? = some t) (habout : AboutRow t.request t.stage)
    (hcont : K.contender t = true) (hw : Waits env w i j t.request t.stage) :
    t.stage.open = false ∧ (∀ d, ¬ Writes t.request t.stage d) ∧
      ((Resource.row K.key, j) ∈ w.locks ∨
        ∃ d ∈ w.store.drafts, d.row.id = K.key ∧ d.owner = j) := by
  obtain ⟨user, ifMatch, body, hreq⟩ := contender_iff.mp hcont
  obtain ⟨req, st⟩ := t
  obtain rfl : req = .onOne user K.key (.patch ifMatch body) := hreq
  cases hw with
  | @row _ _ _ l ch hrow =>
    have hid : l.row.id = K.key := habout user K.key _ rfl
    rw [hid] at hrow
    exact ⟨rfl, fun _ x => x, hrow⟩
  | @conflict _ _ _ d d' hd hd' _ hbl =>
    obtain ⟨hmem, -, hid⟩ := draft_some hd
    rw [h.not_blocked hready hinv hmem (hid.trans (habout user K.key _ rfl)) hd'] at hbl
    exact absurd hbl (by decide)

/-- **A contender is never the victim of a deadlock.** -/
theorem Racing.no_victim (h : K.Racing w) (hinv : Inv env init w) {i : Nat} {t : Task}
    (ht : w.tasks[i]? = some t) (habout : AboutRow t.request t.stage)
    (hcont : K.contender t = true) {rest : List Nat} : waitCycle env w i (i :: rest) = false := by
  by_contra hc
  have hc := Bool.not_eq_false _ ▸ hc
  obtain ⟨j, hj⟩ := waitCycle_head hc
  obtain ⟨-, t', ht', hw⟩ := waitsFor_iff.mp hj
  obtain rfl := Option.some.inj (ht.symm.trans ht')
  obtain ⟨hopen, hwrites, -⟩ := h.waits hready hinv ht habout hcont hw
  rcases owner_of_waitCycle hc with ⟨res, hres⟩ | ⟨d, hd, ho⟩
  · exact hinv.no_lock ht hopen res hres
  · exact hinv.no_draft ht hwrites d hd ho

omit hready in
theorem racing_start {nextId clock : Nat} : K.Racing (.start phase init nextId clock) where
  unswitched := rfl
  requests := fun _ ht => absurd ht List.not_mem_nil
  columns := fun _ ht => absurd ht List.not_mem_nil
  stages := fun _ _ ht => absurd ht (by simp [World.start])
  counted := rfl

omit hready in
theorem Racing.arrive (h : K.Racing w) {req : Request} (hadm : K.Admits req) :
    K.Racing { w with tasks := w.tasks ++ [⟨req, .arrived⟩] } := by
  have hmem : ∀ {t : Task}, t ∈ w.tasks ++ [⟨req, .arrived⟩] → t ∈ w.tasks ∨ t = ⟨req, .arrived⟩ :=
    fun ht => (List.mem_append.mp ht).imp_right List.mem_singleton.mp
  refine ⟨h.unswitched, fun t ht => ?_, fun t ht => ?_, fun i t ht hc => ?_, ?_⟩
  · rcases hmem ht with ht | rfl
    · exact h.requests t ht
    · exact hadm
  · rcases hmem ht with ht | rfl
    · exact h.columns t ht
    · trivial
  · rcases slot_of_concat ht with ht | ⟨-, rfl⟩
    · exact h.stages i t ht hc
    · trivial
  · show (w.tasks ++ [(⟨req, .arrived⟩ : Task)]).countP _ = _
    rw [List.countP_append, h.counted, List.countP_singleton, committed_eq]
    show _ + (if (_ && false) = true then 1 else 0) = _
    rw [Bool.and_false]
    rfl

/-- **The race never stops** before its contenders are answered. -/
theorem Racing.progress (h : K.Racing w) (hinv : Inv env init w)
    (hvisits : ∀ t ∈ w.tasks, Visits t.request t.stage = true)
    (habout : ∀ t ∈ w.tasks, AboutRow t.request t.stage)
    (hex : ∃ t ∈ w.tasks, K.contender t = true ∧ ∀ a, t.stage ≠ .done a) :
    ∃ i t, w.tasks[i]? = some t ∧ K.contender t = true ∧
      ∃ w', (service env).step w (.step i) = some w' := by
  have go : ∀ {i : Nat} {t : Task}, w.tasks[i]? = some t → TableFlow.act env w i t ≠ none →
      ∃ w', (service env).step w (.step i) = some w' := by
    intro i t ht hact
    obtain ⟨x, hx⟩ := Option.ne_none_iff_exists'.mp hact
    exact ⟨_, Option.bind_eq_some_iff.mpr ⟨t, ht, Option.map_eq_some_iff.mpr ⟨x, hx, rfl⟩⟩⟩
  have stuck : ∀ {i : Nat} {t : Task}, w.tasks[i]? = some t → K.contender t = true →
      (∀ a, t.stage ≠ .done a) → TableFlow.act env w i t = none →
      (∀ d, ¬ Writes t.request t.stage d) ∧ ∃ j, ((Resource.row K.key, j) ∈ w.locks ∨
        ∃ d ∈ w.store.drafts, d.row.id = K.key ∧ d.owner = j) := by
    intro i t ht hcont hnd hs
    have hmem := List.mem_of_getElem? ht
    obtain ⟨j, hj⟩ := waits_of_stuck hinv ht (hvisits t hmem) hnd hs
    obtain ⟨-, t', ht', hw⟩ := waitsFor_iff.mp hj
    obtain rfl := Option.some.inj (ht.symm.trans ht')
    obtain ⟨-, hwrites, hheld⟩ := h.waits hready hinv ht (habout t hmem) hcont hw
    exact ⟨hwrites, j, hheld⟩
  obtain ⟨t, hmem, hcont, hnd⟩ := hex
  obtain ⟨i, ht⟩ := List.mem_iff_getElem?.mp hmem
  by_cases hact : TableFlow.act env w i t = none
  · obtain ⟨-, j, hlock | ⟨d, hd, hid, rfl⟩⟩ := stuck ht hcont hnd hact
    · -- rows are locked by batches only, and none is admitted
      obtain ⟨t', ht', -, hreq⟩ := hinv.holders _ hlock
      have hadm := h.requests t' (List.mem_of_getElem? ht')
      obtain ⟨req, st⟩ := t'
      cases req with
      | batch lastId size => exact absurd hadm (fun x => x)
      | _ => exact absurd hreq (fun x => x)
    · -- the writer of the row version is a contender that waits for nobody
      obtain ⟨-, -, -, t', ht', hcont'⟩ := h.draft_of_key hready hinv hd hid
      have hwrites := (hinv.writes ht' hd rfl).2
      have hnd' : ∀ a, t'.stage ≠ .done a := by
        intro a ha
        rw [ha] at hwrites
        exact hwrites
      exact ⟨d.owner, t', ht', hcont',
        go ht' fun hs => (stuck ht' hcont' hnd' hs).1 d hwrites⟩
  · exact ⟨i, t, ht, hcont, go ht hact⟩

/-- **The outcome of a race**: when all contenders are answered, one of them has changed the
    reservation, and is told the row it made. -/
theorem Racing.one_winner (h : K.Racing w) (hinv : Inv env init w)
    (hdone : ∀ t ∈ w.tasks, K.contender t = true → ∃ a, t.stage = .done a)
    (hex : ∃ t ∈ w.tasks, K.contender t = true) :
    w.tasks.countP (fun t => K.contender t && t.answered 200) = 1 ∧
    w.tasks.countP (fun t => K.contender t && (t.answered 409 || t.answered 412)) + 1
      = w.tasks.countP K.contender ∧
    ∃ t ∈ w.tasks, ∃ r out, K.contender t = true ∧ t.stage = .done (.out 200 (etag r.version) out) ∧
      Made env t.request (some K.row) r ∧ K.Now w r ∧
      toOut phase ⟨r, readColumns phase⟩ = .ok out ∧ K.row.version < r.version := by
  have htold : ∀ t ∈ w.tasks, K.contender t = true → ∃ i a, w.tasks[i]? = some t ∧
      t.stage = .done a ∧ K.Told w i a := by
    intro t ht hc
    obtain ⟨a, ha⟩ := hdone t ht hc
    obtain ⟨i, hi⟩ := List.mem_iff_getElem?.mp ht
    have hok := h.stages i t hi hc
    rw [ha] at hok
    exact ⟨i, a, hi, ha, hok⟩
  have hstatus : ∀ t ∈ w.tasks, K.contender t = true →
      ∃ a, t.stage = .done a ∧ (a.status = 200 ∨ a.status = 409 ∨ a.status = 412) := by
    intro t ht hc
    obtain ⟨i, a, -, ha, ⟨-, r, tag, out, rfl, -⟩ | ⟨-, hs⟩⟩ := htold t ht hc
    · exact ⟨_, ha, Or.inl rfl⟩
    · exact ⟨a, ha, Or.inr hs⟩
  -- somebody has won: whoever is answered has won, or is told that another one has
  obtain ⟨j, hwon⟩ : ∃ j, K.WonBy w j := by
    obtain ⟨t, ht, hc⟩ := hex
    obtain ⟨i, a, -, -, ⟨hwon, -⟩ | ⟨hwon, -⟩⟩ := htold t ht hc
    · exact ⟨i, hwon⟩
    · exact hwon
  obtain ⟨e, hone, ho, hnow, hlt⟩ := h.changed_row hready hinv hwon
  have hcount : w.tasks.countP (fun t => K.contender t && t.answered 200) = 1 := by
    have hlen : w.tasks.countP (committed K.key) = 1 := by
      rw [h.counted, hone]
      rfl
    rw [← hlen]
    refine List.countP_congr fun t ht => ?_
    rw [committed_eq]
    cases hc : K.contender t with
    | false => rfl
    | true =>
      obtain ⟨a, ha, -⟩ := hstatus t ht hc
      rw [answered_of_done ha, ha]
      rfl
  refine ⟨hcount, ?_, ?_⟩
  · have hsplit : ∀ ts : List Task, (∀ t ∈ ts, K.contender t = true →
          ∃ a, t.stage = .done a ∧ (a.status = 200 ∨ a.status = 409 ∨ a.status = 412)) →
        ts.countP (fun t => K.contender t && (t.answered 409 || t.answered 412)) +
          ts.countP (fun t => K.contender t && t.answered 200) = ts.countP K.contender := by
      intro ts
      induction ts with
      | nil => intro _; rfl
      | cons t ts ih =>
        intro hts
        have ih := ih fun t' ht' => hts t' (List.mem_cons_of_mem _ ht')
        simp only [List.countP_cons]
        cases hc : K.contender t with
        | false => simpa [hc] using ih
        | true =>
          obtain ⟨a, ha, hs⟩ := hts t (List.mem_cons_self ..) hc
          rw [answered_of_done ha, answered_of_done ha, answered_of_done ha]
          rcases hs with hs | hs | hs <;> rw [hs] <;> simp <;> omega
    rw [← hsplit w.tasks hstatus, hcount]
  · -- the one that is answered 200 is the one that has made the change
    obtain ⟨t, ht, hp⟩ := List.countP_pos_iff.mp (by rw [hcount]; exact Nat.one_pos)
    obtain ⟨hc, h200⟩ := Bool.and_eq_true_iff.mp hp
    obtain ⟨i, a, hi, ha, ⟨⟨e', he', ho'⟩, r, tag, out, rfl, hr, hout, rfl⟩ | ⟨-, hs⟩⟩ := htold t ht hc
    · have heq : e' = e := by
        rw [hone] at he'
        exact List.mem_singleton.mp he'
      subst heq
      obtain rfl : r = e'.after := Option.some.inj (hr.symm.trans hnow)
      obtain ⟨t', ht', hmade⟩ := hinv.made e' (List.mem_filter.mp he').1
      rw [ho', hi] at ht'
      obtain rfl := Option.some.inj ht'
      rw [h.before_eq hready hinv he'] at hmade
      exact ⟨t, ht, e'.after, out, hc, ha, hmade, hnow, hout, hlt⟩
    · rw [answered_of_done ha, beq_iff_eq] at h200
      rw [h200] at hs
      exact absurd hs (by decide)

end Steps

/-- **Every world of the race satisfies its invariant.** -/
theorem racing_of_reach {nextId clock : Nat} (hready : Ready env phase init nextId clock)
    (hr : (service env).Reach K.Fair (.start phase init nextId clock) w) : K.Racing w := by
  refine hr.invariant' racing_start ?_
  intro w l w' hr h hC hst
  have hinv := inv_of_reach hready hr
  have habout := aboutRow_of_reach hr
  cases step_cases hst with
  | arrive req => exact h.arrive (hC req rfl)
  | act ht ha _ => exact h.act ⟨_, _, hready⟩ hinv ht (habout _ (List.mem_of_getElem? ht)) ha
  | @victim i rest t ht hc =>
    have hno : K.contender t = true → False := by
      intro hcont
      rw [h.no_victim ⟨_, _, hready⟩ hinv ht (habout t (List.mem_of_getElem? ht)) hcont] at hc
      exact absurd hc (by decide)
    exact h.advance ⟨_, _, hready⟩ hinv ht (by simp) trivial (fun hcont => (hno hcont).elim)
      fun _ hcont => (hno hcont).elim

end EditRace

/-- **Of the edits that start from one version exactly one is saved.**  While a contender is not
    answered one of them can go on; when all are answered one has got 200, with the row it made and
    its new version, and all others have got 409 or 412. -/
theorem one_edit_wins {env : Env} {phase : Phase} {rows : List Reservation} {nextId clock : Nat}
    (hready : Ready env phase rows nextId clock) (K : EditRace env rows phase) {w : World}
    (hr : (service env).Reach K.Fair (.start phase rows nextId clock) w) :
    ((∃ t ∈ w.tasks, K.contender t = true ∧ ∀ a, t.stage ≠ .done a) →
      ∃ i t, w.tasks[i]? = some t ∧ K.contender t = true ∧
        ∃ w', (service env).step w (.step i) = some w') ∧
    ((∀ t ∈ w.tasks, K.contender t = true → ∃ a, t.stage = .done a) →
      (∃ t ∈ w.tasks, K.contender t = true) →
      w.tasks.countP (fun t => K.contender t && t.answered 200) = 1 ∧
      w.tasks.countP (fun t => K.contender t && (t.answered 409 || t.answered 412)) + 1
        = w.tasks.countP K.contender ∧
      ∃ t ∈ w.tasks, ∃ r out, K.contender t = true ∧
        t.stage = .done (.out 200 (etag r.version) out) ∧ Made env t.request (some K.row) r ∧
        Store.lookup reservations w.store.rows K.row.id = some r ∧
        toOut phase ⟨r, readColumns phase⟩ = .ok out ∧ K.row.version < r.version) := by
  have hinv := inv_of_reach hready hr
  have h := EditRace.racing_of_reach hready hr
  exact ⟨h.progress ⟨_, _, hready⟩ hinv (visits_of_reach hr) (aboutRow_of_reach hr),
    h.one_winner ⟨_, _, hready⟩ hinv⟩

/-- One tab asks for three. -/
def firstTab : Request := .onOne customer 1 (.patch (some (etag 1)) (setParty 3 three_guests))

/-- The other one for four. -/
def secondTab : Request := .onOne customer 1 (.patch (some (etag 1)) (setParty 4 four_guests))

/-- Two tabs edit the lunch for two. -/
def lunchRace : EditRace sample [lunch 1 2 1 .confirmed] .legacy where
  row := lunch 1 2 1 .confirmed
  edit := fun user body =>
    user = customer ∧ (body = setParty 3 three_guests ∨ body = setParty 4 four_guests)
  mem := List.mem_singleton.mpr rfl
  sendable := by decide
  active := by decide
  loaded := by decide
  named := fun _ => by decide
  reaches := by
    rintro user body ⟨rfl, -⟩ -
    rfl
  changes := by
    rintro user body ⟨rfl, rfl | rfl⟩ <;> rfl
  storable := by
    rintro user body ⟨rfl, rfl | rfl⟩ n hn <;> exact absurd hn (by simp [setParty])

/-- Both load the lunch, the second one saves; then the first one tries, and a late one. -/
def tabsRun : List Label :=
  [.arrive firstTab, .step 0, .step 0, .step 0] ++ whole 1 9 secondTab ++ [.step 0] ++
    whole 2 3 firstTab

theorem lunch_one_edit :
    ∃ w, (service sample).run (.start .legacy [lunch 1 2 1 .confirmed] 2 2) tabsRun = some w ∧
      w.tasks.map Task.status = [some 409, some 200, some 412] ∧
      w.tasks.countP (fun t => lunchRace.contender t && t.answered 200) = 1 := by
  obtain ⟨w, hw⟩ : ∃ w, (service sample).run
      (.start .legacy [lunch 1 2 1 .confirmed] 2 2) tabsRun = some w :=
    Option.isSome_iff_exists.mp (by decide)
  have hreach : (service sample).Reach lunchRace.Fair
      (.start .legacy [lunch 1 2 1 .confirmed] 2 2) w := by
    refine Machine.Reach.of_labels ?_ hw
    rintro l hl s req rfl
    have hreq : req = firstTab ∨ req = secondTab := by
      simp [tabsRun, whole] at hl
      tauto
    rcases hreq with rfl | rfl
    · exact Or.inr (Or.inl ⟨rfl, _, rfl, rfl, Or.inl rfl⟩)
    · exact Or.inr (Or.inl ⟨rfl, _, rfl, rfl, Or.inr rfl⟩)
  have hstatus : w.tasks.map Task.status = [some 409, some 200, some 412] :=
    (service sample).run_eval (fun w => w.tasks.map Task.status) hw (by decide)
  have hdone : (w.tasks.all fun t => t.status.isSome) = true :=
    (service sample).run_eval (fun w => w.tasks.all fun t => t.status.isSome) hw (by decide)
  have hany : w.tasks.any lunchRace.contender = true :=
    (service sample).run_eval (fun w => w.tasks.any lunchRace.contender) hw (by decide)
  exact ⟨w, hw, hstatus, ((one_edit_wins lunch_ready lunchRace hreach).2
    (fun t ht _ => done_of_status (List.all_eq_true.mp hdone t ht))
    (List.any_eq_true.mp hany)).1⟩

end TableFlow
