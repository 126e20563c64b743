/-
  A name that is read is not always one that can be written.

  `split_guest_name` cuts the remainder of a name after 60 characters, also behind a space
  (`BlankCut`), and the column then ends with that space.

  1. **Python keeps it**, SQL strips it: the two rebuild the same name exactly where nothing is cut
     behind a space (`responseName_eq_rebuilt_iff`).
  2. **Splitting again loses it**: the columns stay as they are exactly where nothing is cut behind
     a space (`split_joinName_iff`).
  3. **The API** — an answered name can be sent back in a PATCH exactly when the phase answers with
     `guest_name`, or the name is not cut behind a space and has two characters left when its blanks
     are collapsed (`writes_back_iff`).
-/
import TableFlow.Downgrade
import TableFlow.Editing
import TableFlow.PhaseGuard

namespace TableFlow

open Lib

/-! ## The cut -/

/-- The cut falls behind a space: the remainder of the name has one in its 60th place. -/
def BlankCut (n : Text) : Prop :=
  ∃ w ws, words isSpace n = w :: ws ∧ (join ' ' ws)[59]? = some ' '

section Cut

variable {n : Text}

/-- The words behind the first one, joined, begin and end with a letter. -/
theorem rest_letters {w : Text} {ws : List Text} (h : words isSpace n = w :: ws) :
    ∀ v ∈ ws, v ≠ [] ∧ ∀ c ∈ v, isSpace c = false :=
  fun v hv => words_valid n v (by rw [h]; exact List.mem_cons_of_mem _ hv)

/-- The last name ends with the space. -/
theorem blankCut_iff : BlankCut n ↔ (splitGuestName n).2.getLast? = some ' ' := by
  cases hn : words isSpace n with
  | nil =>
    rw [splitGuestName_blank hn]
    exact ⟨fun ⟨w, ws, h, _⟩ => absurd (hn.symm.trans h) (by simp), fun h => absurd h (by simp)⟩
  | cons w ws =>
    have hcut : BlankCut n ↔ (join ' ' ws)[59]? = some ' ' := by
      refine ⟨fun ⟨w', ws', h, hc⟩ => ?_, fun hc => ⟨w, ws, hn, hc⟩⟩
      obtain ⟨-, rfl⟩ := List.cons.inj (hn.symm.trans h)
      exact hc
    have hlast : (join ' ' ws).getLast? ≠ some ' ' := fun hc =>
      absurd (join_getLast (rest_letters hn) hc) (by decide)
    rw [hcut, splitGuestName_words hn]
    dsimp only
    rcases Nat.lt_or_ge (join ' ' ws).length 60 with hshort | hlong
    · rw [List.getElem?_eq_none (by omega), List.take_of_length_le (by omega)]
      simp [hlast]
    · rw [List.getLast?_eq_getElem?, List.length_take, Nat.min_eq_left hlong,
        List.getElem?_take_of_lt (by omega)]

/-- The last name begins with a letter. -/
theorem split_head {c : Char} (h : (splitGuestName n).2.head? = some c) : isSpace c = false := by
  cases hn : words isSpace n with
  | nil =>
    rw [splitGuestName_blank hn] at h
    exact absurd h (by simp)
  | cons w ws =>
    rw [splitGuestName_words hn, List.head?_take, if_neg (by decide)] at h
    exact join_head (rest_letters hn) h

/-- The first name has letters only. -/
theorem split_letters {c : Char} (h : c ∈ (splitGuestName n).1) : isSpace c = false := by
  cases hn : words isSpace n with
  | nil =>
    rw [splitGuestName_blank hn] at h
    exact absurd h List.not_mem_nil
  | cons w ws =>
    rw [splitGuestName_words hn] at h
    exact (words_valid n w (by rw [hn]; exact List.mem_cons_self ..)).2 c (List.mem_of_mem_take h)

/-- Without a first name there is no last name. -/
theorem split_nil (h : (splitGuestName n).1 = []) : (splitGuestName n).2 = [] := by
  cases hn : words isSpace n with
  | nil => rw [splitGuestName_blank hn]
  | cons w ws =>
    have hw := (words_valid n w (by rw [hn]; exact List.mem_cons_self ..)).1
    rw [splitGuestName_words hn, List.take_eq_nil_iff] at h
    exact absurd (h.resolve_left (by decide)) hw

/-! ## Two ways to rebuild -/

/-- Python leaves the space between the parts out when there is no last name. -/
theorem joinName_parts (first last : Text) (h : first = [] → last = []) :
    joinName (some first) (some last) = if last = [] then first else first ++ ' ' :: last := by
  unfold joinName
  cases last with
  | nil => cases first <;> simp
  | cons c last =>
    have hfirst : first.isEmpty = false := by
      cases first with
      | nil => exact absurd (h rfl) (by simp)
      | cons d first => rfl
    simp [hfirst, join_cons_cons]

/-- **SQL rebuilds what Python rebuilds exactly when the last name does not end with a space.** -/
theorem joinName_split_eq_rebuilt_iff :
    joinName (some (splitGuestName n).1) (some (splitGuestName n).2)
      = rebuilt (some (splitGuestName n).1) (some (splitGuestName n).2) ↔ ¬ BlankCut n := by
  have hspace : ∀ c, isSpace c = false → (c == ' ') = false := fun c hc =>
    beq_false_of_ne fun h => by rw [h] at hc; exact absurd hc (by decide)
  rw [blankCut_iff, joinName_parts _ _ split_nil]
  unfold rebuilt btrim
  rw [Alembic.concatWs_split]
  by_cases hlast : (splitGuestName n).2 = []
  · -- the space at the end is the one between the parts
    have hstrip : strip (· == ' ') ((splitGuestName n).1 ++ [' ']) = (splitGuestName n).1 := by
      rw [strip_concat (by decide)]
      exact strip_eq_self (fun c hc => hspace c (split_letters (List.mem_of_head? hc)))
        fun c hc => hspace c (split_letters (List.mem_of_getLast? hc))
    rw [hlast, if_pos rfl, hstrip]
    simp
  · rw [if_neg hlast]
    have hend : ((splitGuestName n).1 ++ ' ' :: (splitGuestName n).2).getLast?
        = (splitGuestName n).2.getLast? := by
      rw [List.getLast?_append, List.getLast?_cons, List.getLast?_eq_some_getLast hlast]
      rfl
    constructor
    · intro heq hblank
      have hc := hend.trans hblank
      rw [heq] at hc
      exact absurd (strip_getLast hc) (by decide)
    · intro hblank
      refine (strip_eq_self (fun c hc => ?_) fun c hc => ?_).symm
      · have hfirst : (splitGuestName n).1 ≠ [] := fun h => hlast (split_nil h)
        rw [List.head?_append_of_ne_nil _ hfirst] at hc
        exact hspace c (split_letters (List.mem_of_head? hc))
      · rw [hend] at hc
        exact beq_false_of_ne fun h => hblank (h ▸ hc)

/-! ## Splitting again -/

/-- The last name is in its normal form exactly when it does not end with a space. -/
theorem normalise_split_iff :
    normaliseName (splitGuestName n).2 = (splitGuestName n).2 ↔ ¬ BlankCut n := by
  rw [blankCut_iff]
  constructor
  · intro heq hblank
    rw [← heq] at hblank
    exact absurd (normalise_getLast hblank) (by decide)
  · intro hblank
    have hpart : (splitGuestName n).2 <:+: (splitGuestName n).1 ++ ' ' :: (splitGuestName n).2 :=
      ⟨(splitGuestName n).1 ++ [' '], [], by simp⟩
    have hsep : ∀ c ∈ (splitGuestName n).2, isSpace c = true → c = ' ' :=
      fun c hc => Alembic.mem_split (hpart.subset hc)
    have hlast : ∀ c, (splitGuestName n).2.getLast? = some c → isSpace c = false := by
      intro c hc
      by_contra hsp
      have := hsep c (List.mem_of_getLast? hc) (eq_true_of_ne_false hsp)
      exact hblank (this ▸ hc)
    have hcollapse : collapse isSpace ' ' (splitGuestName n).2 = (splitGuestName n).2 :=
      collapse_eq_self hsep ((Alembic.spaced_split n).part hpart)
    have hnormal : collapse isSpace ' ' (splitGuestName n).2 = normaliseName (splitGuestName n).2 :=
      collapse_eq_normalise (fun _ _ => rfl) (fun _ => split_head) hlast
    exact hnormal.symm.trans hcollapse

/-- Putting a split name together and splitting it again brings the last name into its normal
    form. -/
theorem split_joinName (n : Text) :
    splitGuestName (joinName (some (splitGuestName n).1) (some (splitGuestName n).2))
      = ((splitGuestName n).1, normaliseName (splitGuestName n).2) := by
  cases hn : words isSpace n with
  | nil =>
    rw [splitGuestName_blank hn]
    rfl
  | cons w ws =>
    have hwords := words_joinName (some (splitGuestName n).1) (some (splitGuestName n).2)
    rw [splitGuestName_parts_words hn] at hwords
    rw [splitGuestName_words hwords, splitGuestName_words hn, List.take_take, Nat.min_self]
    refine Prod.ext rfl ?_
    have hlen := length_normalise_le isSpace_space ((join ' ' ws).take 60)
    exact List.take_of_length_le (hlen.trans (List.length_take_le _ _))

/-- **Splitting again gives the same columns exactly when the name is not cut behind a space.** -/
theorem split_joinName_iff :
    splitGuestName (joinName (some (splitGuestName n).1) (some (splitGuestName n).2))
      = splitGuestName n ↔ ¬ BlankCut n := by
  rw [split_joinName, ← normalise_split_iff]
  exact ⟨fun h => congrArg Prod.snd h, fun h => Prod.ext rfl h⟩

/-- **What is put together has two characters exactly when the name has**, with its blanks
    collapsed. -/
theorem two_le_joinName_iff :
    2 ≤ (joinName (some (splitGuestName n).1) (some (splitGuestName n).2)).length ↔
      2 ≤ (normaliseName n).length := by
  unfold normaliseName normalise
  rw [joinName_parts _ _ split_nil]
  cases hn : words isSpace n with
  | nil =>
    rw [splitGuestName_blank hn]
    rfl
  | cons w ws =>
    have hw : 0 < w.length :=
      List.length_pos_iff.mpr (words_valid n w (by rw [hn]; exact List.mem_cons_self ..)).1
    rw [splitGuestName_words hn]
    cases ws with
    | nil =>
      rw [join_nil, List.take_nil, if_pos rfl, join_singleton, List.length_take]
      omega
    | cons v vs =>
      have hrest : (join ' ' (v :: vs)).take 60 ≠ [] := by
        rw [Ne, List.take_eq_nil_iff]
        have hv := (rest_letters hn v (List.mem_cons_self ..)).1
        exact fun h => join_ne_nil hv vs (h.resolve_left (by decide))
      have hpos := List.length_pos_iff.mpr hrest
      rw [if_neg hrest, join_cons_cons, List.length_append, List.length_append, List.length_cons,
        List.length_cons, List.length_take]
      rw [List.length_take] at hpos
      omega

/-- What is put together is not longer than the name. -/
theorem length_joinName_split (n : Text) :
    (joinName (some (splitGuestName n).1) (some (splitGuestName n).2)).length ≤ n.length := by
  have hnormal := length_normalise_le isSpace_space n
  unfold normalise at hnormal
  rw [joinName_parts _ _ split_nil]
  cases hn : words isSpace n with
  | nil =>
    rw [splitGuestName_blank hn]
    exact Nat.zero_le _
  | cons w ws =>
    rw [hn] at hnormal
    rw [splitGuestName_words hn]
    cases ws with
    | nil =>
      rw [join_singleton] at hnormal
      rw [join_nil, List.take_nil, if_pos rfl, List.length_take]
      omega
    | cons v vs =>
      rw [join_cons_cons, List.length_append, List.length_cons] at hnormal
      split
      · rw [List.length_take]
        omega
      · rw [List.length_append, List.length_cons, List.length_take, List.length_take]
        omega

end Cut

/-! ## The name in the answer -/

/-- The phases that read the new columns answer with what Python puts together. -/
theorem responseName_new {p : Phase} (hp : p.readsGuestName = false) (r : Reservation) :
    responseName p ⟨r, readColumns p⟩ = .ok (joinName r.firstName r.lastName) := by
  cases p with
  | legacy => exact absurd hp (by decide)
  | dualWrite => exact absurd hp (by decide)
  | readNew => rfl
  | newOnly => rfl

/-- **Python and SQL rebuild the same name exactly when it is not cut behind a space.** -/
theorem responseName_eq_rebuilt_iff {p : Phase} (hp : p.readsGuestName = false) {r : Reservation}
    {n : Text} (hfirst : r.firstName = some (splitGuestName n).1)
    (hlast : r.lastName = some (splitGuestName n).2) :
    responseName p ⟨r, readColumns p⟩ = .ok (rebuilt r.firstName r.lastName) ↔ ¬ BlankCut n := by
  rw [responseName_new hp, hfirst, hlast, ← joinName_split_eq_rebuilt_iff]
  exact ⟨Except.ok.inj, congrArg _⟩

/-- The remainder is one of 59 letters, a space and a letter: the cut falls behind the space. -/
def cutName : Text := "A ".toList ++ List.replicate 59 'b' ++ " c".toList

/-- A row with this name, in every column. -/
def cutRow : Reservation where
  id := 1
  userId := 1
  restaurantId := 1
  restaurantTableId := 7
  guestName := some cutName
  firstName := some (splitGuestName cutName).1
  lastName := some (splitGuestName cutName).2
  partySize := 2
  startsAt := 0
  endsAt := 1
  status := .confirmed
  createdAt := 0
  version := 1

/-- Python answers with a space at the end, SQL rebuilds the name without it. -/
theorem cut_name_rebuilt_apart : ¬ ∀ (p : Phase) (r : Reservation) (n : Text), n.length ≤ 120 →
    p.readsGuestName = false → r.firstName = some (splitGuestName n).1 →
    r.lastName = some (splitGuestName n).2 →
      responseName p ⟨r, readColumns p⟩ = .ok (rebuilt r.firstName r.lastName) := by
  intro h
  have heq := h .readNew cutRow cutName (by decide) rfl rfl rfl
  have hstrip : (rebuilt cutRow.firstName cutRow.lastName).getLast? ≠ some ' ' := fun hc =>
    absurd (strip_getLast hc) (by decide)
  rw [responseName_new rfl] at heq
  rw [← Except.ok.inj heq] at hstrip
  exact hstrip (by decide)

/-- Ann's name is rebuilt alike. -/
theorem annLee_rebuilt_alike :
    responseName .newOnly ⟨writeName .newOnly cutRow annLee, readColumns .newOnly⟩
      = .ok (rebuilt (some "Ann".toList) (some "Lee".toList)) :=
  (responseName_eq_rebuilt_iff rfl (n := annLee) rfl rfl).mpr
    (by rw [blankCut_iff]; decide)

/-! ## Writing it back -/

namespace Deployment

theorem one_name {n : Text} (h : 2 ≤ n.length ∧ n.length ≤ 120) :
    ∀ m, some n = some m → 2 ≤ m.length ∧ m.length ≤ 120 := by
  intro m hm
  rw [← Option.some.inj hm]
  exact h

/-- A PATCH of the name. -/
def rename (n : Text) (h : 2 ≤ n.length ∧ n.length ≤ 120) : ReservationUpdate where
  guestName := some n
  partySize := none
  status := none
  guestName_length := one_name h
  partySize_range := no_party

/-- The new columns of a row. -/
def Site.newColumns (s : Site) (id : Nat) : Option (Option Text × Option Text) :=
  (Store.lookup reservations s.rows id).map fun r => (r.firstName, r.lastName)

/-- The name of an answer can be sent back: PATCH takes it, the new columns stay as they are, and
    the answer has it again. -/
def WritesBack (s : Site) (user : User) (tag : Text) (out : ReservationOut) : Prop :=
  ∃ h : 2 ≤ out.guestName.length ∧ out.guestName.length ≤ 120, ∃ s' tag' out',
    s.edit user out.id (.patch (some tag) (rename out.guestName h)) = (s', .out 200 tag' out') ∧
      s'.newColumns out.id = s.newColumns out.id ∧ out'.guestName = out.guestName

section Rename

variable {s : Site} {r : Reservation} {user : User} {n : Text}

/-- The owner's PATCH of the name, with the version of the row, gets to its flush. -/
theorem editRow_rename (hinv : Inv s) (hr : r ∈ s.rows) (huser : r.userId = user.id)
    (hid : fitsBigint r.id = true) (hloads : loads r = true) (h : 2 ≤ n.length ∧ n.length ≤ 120) :
    s.editRow user r.id (.patch (some (etag r.version)) (rename n h))
      = .ok (s.load r, (patched s.phase (rename n h)).net (s.load r)) := by
  have hlookup : Store.lookup reservations s.rows r.id = some r :=
    Store.lookup_mem (R := reservations) hinv.ids hr
  have hload : selectReservations (readColumns s.phase) s.rows r.id = some (s.load r) :=
    congrArg (Option.map s.load) hlookup
  have herror : selectError s.schema (readColumns s.phase) s.rows r.id = none := by
    rw [selectError_eq hinv.fits _ hid]
    exact loadError_of_lookup hlookup hloads
  have howned : loadOwned user (some (s.load r)) = .ok (s.load r) :=
    if_neg fun hno => hno.2 huser
  have hcurrent : checkIfMatch r.version (some (etag r.version)) true = none :=
    checkIfMatch_eq_none.mpr (Or.inr ⟨_, rfl, Or.inr (by rw [ifMatchSeen_etag]; simp)⟩)
  unfold Site.editRow
  rw [herror, hload, howned]
  simp only [Op.edit, Site.load_row, hcurrent]

/-- **A PATCH of the name alone is never refused**, and leaves what `write_name` leaves. -/
theorem edit_rename (hinv : Inv s) (hr : r ∈ s.rows) (huser : r.userId = user.id)
    (hid : fitsBigint r.id = true) (hloads : loads r = true) (hfree : s.clashes r = false)
    (hsent : storable n = true) (h : 2 ≤ n.length ∧ n.length ≤ 120) :
    ∃ s' r', s.edit user r.id (.patch (some (etag r.version)) (rename n h))
        = (s', s'.reload 200 r.id) ∧
      s'.phase = s.phase ∧ s'.revision = s.revision ∧
      Store.lookup reservations s'.rows r.id = some r' ∧ loads r' = true ∧
      ∀ c, r'.get c = (writeName s.phase r n).get c := by
  have hop : (Op.patch (some (etag r.version)) (rename n h)).edit s.phase
      = some ⟨some (etag r.version), true, patched s.phase (rename n h)⟩ := rfl
  have hlookup : Store.lookup reservations s.rows r.id = some r :=
    Store.lookup_mem (R := reservations) hinv.ids hr
  unfold Site.edit
  rw [editRow_rename hinv hr huser hid hloads h]
  dsimp only
  cases hempty : ((patched s.phase (rename n h)).net (s.load r)).isEmpty with
  | true =>
    exact ⟨s.named r.id (some n), r, rfl, rfl, rfl, hlookup, hloads,
      fun c => get_kept hop hempty c⟩
  | false =>
    have hvalid := edit_valid hop
    have hupdate : updateError s.schema ((patched s.phase (rename n h)).net (s.load r))
        (((patched s.phase (rename n h)).net (s.load r)).apply (s.load r).row s.clock) = none := by
      have hok : RowOk s.schema (((patched s.phase (rename n h)).net (s.load r)).apply
          (s.load r).row s.clock) := (hvalid.1.net _).apply_ok (hinv.rowsOk r hr) _
      unfold updateError
      rw [rowError_eq_none.mpr hok, Option.or_none]
      refine undefinedColumn_eq_none fun c hc => ?_
      obtain ⟨a, ha, rfl⟩ := List.mem_map.mp hc
      exact hinv.fits.columns _
        (List.mem_append_left _ (hvalid.2 a (List.mem_filter.mp ha).1))
    have hflush : flushError s.schema ((patched s.phase (rename n h)).net (s.load r))
        (((patched s.phase (rename n h)).net (s.load r)).apply (s.load r).row s.clock) = none :=
      flushError_eq_none.mpr ⟨net_sendable (patched_sendable s.phase fun m hm => by
        rwa [← Option.some.inj hm]) _, hupdate⟩
    -- the window is the one that was booked
    have hstill : s.clashes (((patched s.phase (rename n h)).net (s.load r)).apply
        (s.load r).row s.clock) = s.clashes r := by
      simp [Site.clashes, doubleBooking, sameSlot, patched, rename, Changes.net]
    rw [if_neg (by decide), hflush]
    dsimp only
    rw [hstill, hfree, if_neg (by decide)]
    refine ⟨_, _, rfl, rfl, rfl, ?_, (apply_loads ..).trans hloads,
      fun c => get_edited hop r s.clock c⟩
    refine (Store.lookup_append_right fun x hx => ?_).trans (List.find?_cons_of_pos (by simp))
    simpa using (List.mem_filter.mp hx).2

end Rename

/-- The name `_fields` gives a row. -/
def readName (p : Phase) (r : Reservation) : Option Text :=
  if p.readsGuestName = true then r.guestName else some (joinName r.firstName r.lastName)

theorem responseName_eq_ok {p : Phase} {r : Reservation} {m : Text} :
    responseName p ⟨r, readColumns p⟩ = .ok m ↔ readName p r = some m := by
  cases hp : p.readsGuestName with
  | false =>
    unfold readName
    rw [responseName_new hp, hp, if_neg (by decide)]
    exact ⟨fun h => congrArg some (Except.ok.inj h), fun h => congrArg _ (Option.some.inj h)⟩
  | true =>
    have hload := responseName_load ⟨.r0003, p, [], 0, 0, []⟩ r
    unfold readName
    rw [show responseName p ⟨r, readColumns p⟩ = _ from hload, if_pos hp, if_pos hp]
    cases r.guestName <;> simp

theorem readName_congr {p : Phase} {r r' : Reservation} (h : ∀ c, r'.get c = r.get c) :
    readName p r' = readName p r := by
  have hguest : r'.guestName = r.guestName := h .guestName
  have hfirst : r'.firstName = r.firstName := h .firstName
  have hlast : r'.lastName = r.lastName := h .lastName
  unfold readName
  rw [hguest, hfirst, hlast]

/-- A name that has been written is read: as it is, or split and put together. -/
theorem readName_writeName (p : Phase) (r : Reservation) (n : Text) :
    readName p (writeName p r n) = some (if p.readsGuestName = true then n
      else joinName (some (splitGuestName n).1) (some (splitGuestName n).2)) := by
  cases p <;> rfl

theorem toOut_ok {p : Phase} {r : Reservation} {out : ReservationOut}
    (h : toOut p ⟨r, readColumns p⟩ = .ok out) :
    out.id = r.id ∧ readName p r = some out.guestName := by
  refine ⟨(toOut_row h).1, responseName_eq_ok.mp ?_⟩
  unfold toOut at h
  cases hn : responseName p ⟨r, readColumns p⟩ with
  | error e => rw [hn] at h; exact absurd h (by simp [bind, Except.bind])
  | ok n => rw [hn] at h; obtain rfl := Except.ok.inj h; rfl

/-- A name that is read from columns that can be sent can be sent. -/
theorem storable_readName {p : Phase} {r : Reservation}
    (hr : ∀ c v, r.get c = some v → storable v = true) {m : Text} (h : readName p r = some m) :
    storable m = true := by
  unfold readName at h
  split at h
  · exact hr .guestName m h
  · obtain rfl := Option.some.inj h
    have hparts : ∀ t ∈ [r.firstName, r.lastName].filterMap id, Char.ofNat 0 ∉ t := by
      intro t ht
      have hcol : r.firstName = some t ∨ r.lastName = some t := by
        simpa [eq_comm] using ht
      have hsent : storable t = true := hcol.elim (hr .firstName t) (hr .lastName t)
      simpa [storable] using hsent
    have hnul : Char.ofNat 0 ∉ joinName r.firstName r.lastName := by
      intro hmem
      rcases mem_join hmem with hc | ⟨t, ht, hc⟩
      · exact absurd hc (by decide)
      · exact hparts t (List.mem_filter.mp ht).1 hc
    simpa [storable] using hnul

/-- What is answered after the reload of a row. -/
theorem reload_row {s : Site} (hfits : Fits s.schema s.phase) {r : Reservation} {id : Nat}
    (hrow : Store.lookup reservations s.rows id = some r) (hloads : loads r = true) {m : Text}
    (hname : readName s.phase r = some m) (status : Nat) :
    ∃ tag out, s.reload status id = .out status tag out ∧ out.guestName = m := by
  have herror : reloadError s.schema (readColumns s.phase) s.rows id = none := by
    rw [reloadError_eq hfits]
    exact loadError_of_lookup hrow hloads
  have hload : selectReservations (readColumns s.phase) s.rows id = some (s.load r) :=
    congrArg (Option.map s.load) hrow
  unfold Site.reload respond toOut
  rw [herror, hload]
  dsimp only [Site.load]
  rw [responseName_eq_ok.mpr hname]
  exact ⟨_, _, rfl, rfl⟩

theorem newColumns_of_lookup {s : Site} {id : Nat} {r : Reservation}
    (h : Store.lookup reservations s.rows id = some r) :
    s.newColumns id = some (r.firstName, r.lastName) := by
  rw [Site.newColumns, h]
  rfl

/-- **What a PATCH of the name answers**, and what it leaves. -/
theorem rename_out {s : Site} {r : Reservation} {user : User} {n : Text} (hinv : Inv s)
    (hr : r ∈ s.rows) (huser : r.userId = user.id) (hid : fitsBigint r.id = true)
    (hloads : loads r = true) (hfree : s.clashes r = false) (hsent : storable n = true)
    (h : 2 ≤ n.length ∧ n.length ≤ 120) :
    ∃ (s' : Site) (r' : Reservation) (tag : Text) (out : ReservationOut),
      s.edit user r.id (.patch (some (etag r.version)) (rename n h)) = (s', .out 200 tag out) ∧
      s'.newColumns r.id = some (r'.firstName, r'.lastName) ∧
      (∀ c, r'.get c = (writeName s.phase r n).get c) ∧
      readName s.phase (writeName s.phase r n) = some out.guestName := by
  obtain ⟨s', r', hedit, hphase, hrevision, hrow, hloads', hget⟩ :=
    edit_rename hinv hr huser hid hloads hfree hsent h
  have hfits : Fits s'.schema s'.phase := by
    unfold Site.schema
    rw [hphase, hrevision]
    exact hinv.fits
  have hread := readName_writeName s.phase r n
  have hread' := (readName_congr hget).trans hread
  rw [← hphase] at hread'
  obtain ⟨tag, out, hreload, hout⟩ := reload_row hfits hrow hloads' hread' 200
  exact ⟨s', r', tag, out, by rw [hedit, hreload], newColumns_of_lookup hrow, hget,
    by rw [hread, hout, hphase]⟩

/-- **A booking that is answered** is in the table, without a clash, the driver has sent its names
    and loaded it, and the answer is its row. -/
theorem create_out {env : Env} {s s' : Site} {user : User} {body : ReservationCreate} {tag : Text}
    {out : ReservationOut} (hinv : Inv s) (h : s.create env user body = (s', .out 201 tag out)) :
    ∃ r, r = inserted env (newReservation s.phase user body) s.nextId s.clock ∧
      s' = s.booked r body.guestName ∧ s'.clashes r = false ∧
      (∀ c ∈ writeColumns s.phase, storable (nameValue body.guestName c) = true) ∧
      loads r = true ∧ tag = etag r.version ∧
      out.id = r.id ∧ readName s.phase r = some out.guestName := by
  unfold Site.create at h
  split at h
  · next a ha =>
    -- an answer without a row
    obtain ⟨-, rfl⟩ := Prod.mk.inj h
    unfold Site.bookingRow at ha
    split at ha
    · exact absurd (Except.error.inj ha) (by simp)
    · split at ha
      · exact absurd (Except.error.inj ha) (by simp)
      · split at ha
        · exact absurd (Except.error.inj ha) dbAnswer_ne_out
        · exact absurd ha (by simp)
  · next r hr =>
    obtain ⟨-, hins, rfl⟩ := bookingRow_ok hr
    split at h
    · exact absurd (Prod.mk.inj h).2 dbAnswer_ne_out
    · next hclash =>
      obtain ⟨rfl, hreload⟩ := Prod.mk.inj h
      refine ⟨_, rfl, rfl, ?_, (insertError_eq_none_iff hinv.fits user body).mp hins, ?_⟩
      · unfold Site.clashes at hclash ⊢
        change (s.rows ++ [_]).any _ = false
        rw [List.any_append]
        simpa using hclash
      · unfold Site.reload at hreload
        split at hreload
        · exact absurd hreload (by simp)
        · next herror =>
          split at hreload
          · exact absurd hreload (by simp)
          · next l hl =>
            obtain ⟨x, hx, rfl⟩ := Option.map_eq_some_iff.mp hl
            have hloads : loads x = true := by
              have hload := Option.or_eq_none_iff.mp herror
              exact loadError_eq_none.mp hload.2 x hx
            have hfresh : ∀ y ∈ s.rows, y.id ≠ s.nextId := fun y hy => Nat.ne_of_lt (hinv.bound y hy)
            obtain rfl := Option.some.inj (hx.symm.trans ((Store.lookup_append_right hfresh).trans
              (List.find?_cons_of_pos (beq_self_eq_true s.nextId))))
            obtain ⟨hout, rfl⟩ := respond_out hreload
            exact ⟨hloads, rfl, toOut_ok hout⟩

/-! ## Which names can be written back -/

/-- The name `m` that a row is answered with can be written to it: its length fits, the new columns
    stay as they are, and it is answered again. -/
structure Rewrites (p : Phase) (r : Reservation) (m : Text) : Prop where
  length : 2 ≤ m.length ∧ m.length ≤ 120
  firstName : (writeName p r m).get .firstName = r.get .firstName
  lastName : (writeName p r m).get .lastName = r.get .lastName
  read : readName p (writeName p r m) = some m

section Rewrites

variable {p : Phase} {r : Reservation} {n m : Text}

/-- **Where `guest_name` is read**, the answer has the name that was sent, and writing it again
    changes nothing. -/
theorem rewrites_old (hp : p.readsGuestName = true)
    (hwritten : ∀ c ∈ writeColumns p, r.get c = some (nameValue n c))
    (hlen : 2 ≤ n.length ∧ n.length ≤ 120) (hname : readName p r = some m) : Rewrites p r m := by
  have hguest : r.guestName = some n :=
    hwritten .guestName (by revert hp; cases p <;> decide)
  have hsame : m = n := by
    rw [readName, if_pos hp, hguest] at hname
    exact (Option.some.inj hname).symm
  subst hsame
  have hkept : ∀ c, (writeName p r m).get c = r.get c := by
    intro c
    rw [get_writeName]
    split
    · next hc => exact (hwritten c hc).symm
    · rfl
  exact ⟨hlen, hkept .firstName, hkept .lastName, (readName_congr hkept).trans hname⟩

/-- **Where the new columns are read**, the answer is the name that they make up, and it is that name
    which is split again. -/
theorem rewrites_new_iff (hp : p.readsGuestName = false)
    (hwritten : ∀ c ∈ writeColumns p, r.get c = some (nameValue n c))
    (hlen : n.length ≤ 120) (hname : readName p r = some m) :
    Rewrites p r m ↔ 2 ≤ (normaliseName n).length ∧ ¬ BlankCut n := by
  have hnew : .firstName ∈ writeColumns p ∧ .lastName ∈ writeColumns p := by
    revert hp
    cases p <;> decide
  have hfirst : r.firstName = some (splitGuestName n).1 := hwritten .firstName hnew.1
  have hlast : r.lastName = some (splitGuestName n).2 := hwritten .lastName hnew.2
  have hjoin : m = joinName (some (splitGuestName n).1) (some (splitGuestName n).2) := by
    rw [readName, hp, if_neg (by decide), hfirst, hlast] at hname
    exact (Option.some.inj hname).symm
  have hfirst' : (writeName p r m).get .firstName = some (splitGuestName m).1 := by
    rw [get_writeName, if_pos hnew.1]
    rfl
  have hlast' : (writeName p r m).get .lastName = some (splitGuestName m).2 := by
    rw [get_writeName, if_pos hnew.2]
    rfl
  have hread : readName p (writeName p r m)
      = some (joinName (some (splitGuestName m).1) (some (splitGuestName m).2)) := by
    rw [readName_writeName, hp]
    rfl
  have htwo : 2 ≤ m.length ↔ 2 ≤ (normaliseName n).length := by
    rw [hjoin]
    exact two_le_joinName_iff
  have hsplit : splitGuestName m = splitGuestName n ↔ ¬ BlankCut n := by
    rw [hjoin]
    exact split_joinName_iff
  constructor
  · intro h
    refine ⟨htwo.mp h.length.1, hsplit.mp (Prod.ext ?_ ?_)⟩
    · exact Option.some.inj (hfirst'.symm.trans (h.firstName.trans hfirst))
    · exact Option.some.inj (hlast'.symm.trans (h.lastName.trans hlast))
  · rintro ⟨hmin, hblank⟩
    have heq := hsplit.mpr hblank
    refine ⟨⟨htwo.mpr hmin, ?_⟩, ?_, ?_, by rw [hread, heq, ← hjoin]⟩
    · rw [hjoin]
      exact (length_joinName_split _).trans hlen
    · rw [hfirst', heq]
      exact hfirst.symm
    · rw [hlast', heq]
      exact hlast.symm

end Rewrites

section WritesBack

variable {env : Env} {s s' : Site} {user : User} {body : ReservationCreate} {tag : Text}
  {out : ReservationOut}

/-- **What a PATCH of the answered name comes to**: it is accepted by its length alone, and leaves
    the split of that name. -/
theorem writesBack_iff_rename (hinv : Inv s) (hid : fitsBigint s.nextId = true)
    (h : s.create env user body = (s', .out 201 tag out)) :
    ∃ r, (∀ c, r.get c = (newReservation s.phase user body).get c) ∧
      readName s.phase r = some out.guestName ∧
      (WritesBack s' user tag out ↔ Rewrites s.phase r out.guestName) := by
  obtain ⟨r, hr, hs, hfree, hnames, hloads, rfl, hout, hname⟩ := create_out hinv h
  have hinv' : Inv s' := by
    refine hinv.step (show (deployment env).step s (.create user body) = some s' from ?_)
    exact congrArg some (congrArg Prod.fst h)
  have hphase : s'.phase = s.phase := by rw [hs]; rfl
  have hmem : r ∈ s'.rows := by rw [hs]; exact mem_booked.mpr (Or.inr rfl)
  have huser : r.userId = user.id := by rw [hr]; exact assignNames_userId ..
  have hbig : fitsBigint r.id = true := by rw [hr]; exact hid
  have hlookup : Store.lookup reservations s'.rows r.id = some r :=
    Store.lookup_mem (R := reservations) hinv'.ids hmem
  -- the answered name is made of names that have been sent
  have hsent : storable out.guestName = true := by
    refine storable_readName (fun c v hv => ?_) hname
    rw [hr, inserted_get, newReservation_get] at hv
    split at hv
    · next hc => exact Option.some.inj hv ▸ hnames c hc
    · exact absurd hv (by simp)
  refine ⟨r, fun c => by rw [hr]; exact inserted_get env _ _ _ c, hname, ?_⟩
  unfold WritesBack
  rw [hout, ← hphase]
  have hpatch := fun hlen => rename_out (n := out.guestName) hinv' hmem huser hbig hloads hfree
    hsent hlen
  have hcolumns := newColumns_of_lookup hlookup
  constructor
  · rintro ⟨hlen, s₂, tag₂, out₂, hedit, hkept, hback⟩
    obtain ⟨s₁, r₁, tag₁, out₁, hedit₁, hcolumns₁, hget, hread⟩ := hpatch hlen
    rw [hedit₁] at hedit
    obtain ⟨rfl, hanswer⟩ := Prod.mk.inj hedit
    obtain ⟨-, -, rfl⟩ := Answer.out.inj hanswer
    rw [hcolumns₁, hcolumns] at hkept
    obtain ⟨hfirst, hlast⟩ := Prod.mk.inj (Option.some.inj hkept)
    exact ⟨hlen, (hget .firstName).symm.trans hfirst, (hget .lastName).symm.trans hlast,
      hread.trans (congrArg some hback)⟩
  · rintro ⟨hlen, hfirst, hlast, hread⟩
    obtain ⟨s₁, r₁, tag₁, out₁, hedit₁, hcolumns₁, hget, hread₁⟩ := hpatch hlen
    refine ⟨hlen, s₁, tag₁, out₁, hedit₁, ?_, Option.some.inj (hread₁.symm.trans hread)⟩
    rw [hcolumns₁, hcolumns, show r₁.firstName = r.firstName from (hget .firstName).trans hfirst,
      show r₁.lastName = r.lastName from (hget .lastName).trans hlast]

/-- **A name that was read can be written back** exactly when it is the one that was sent, or the
    name is not cut behind a space and keeps two characters when its blanks are collapsed. -/
theorem writes_back_iff (env : Env) (hinv : Inv s) (hid : fitsBigint s.nextId = true)
    (h : s.create env user body = (s', .out 201 tag out)) :
    WritesBack s' user tag out ↔ s.phase.readsGuestName = true ∨
      2 ≤ (normaliseName body.guestName).length ∧ ¬ BlankCut body.guestName := by
  obtain ⟨r, hget, hname, hiff⟩ := writesBack_iff_rename hinv hid h
  have hwritten : ∀ c ∈ writeColumns s.phase, r.get c = some (nameValue body.guestName c) :=
    fun c hc => by rw [hget, newReservation_get, if_pos hc]
  rw [hiff]
  cases hp : s.phase.readsGuestName with
  | true => exact iff_of_true (rewrites_old hp hwritten body.guestName_length hname) (.inl rfl)
  | false =>
    rw [rewrites_new_iff hp hwritten body.guestName_length.2 hname]
    exact ⟨.inr, fun h => h.resolve_left (by decide)⟩

end WritesBack

/-- No reservation yet, everything migrated. -/
def migrated : Site := ⟨.r0003, .newOnly, [], 1, 1, []⟩

theorem inv_migrated : Inv migrated :=
  ⟨List.nodup_nil, fun _ h => absurd h List.not_mem_nil, fits_r0003 _,
    fun _ h => absurd h List.not_mem_nil, fun _ h => absurd h List.not_mem_nil⟩

/-- A lunch for a guest of this name. -/
def lunchOf (n : Text) (h : 2 ≤ n.length ∧ n.length ≤ 120) : ReservationCreate :=
  { lunchForTwo with guestName := n, guestName_length := h }

/-- Ann's name can be written back. -/
theorem annLee_written_back : ∃ s tag out,
    migrated.create sample customer lunchForTwo = (s, .out 201 tag out) ∧
      WritesBack s customer tag out := by
  have hname : migrated.phase.readsGuestName = true ∨
      2 ≤ (normaliseName lunchForTwo.guestName).length ∧ ¬ BlankCut lunchForTwo.guestName :=
    Or.inr ⟨by decide, by rw [blankCut_iff]; decide⟩
  refine ⟨_, _, _, rfl, ?_⟩
  exact (writes_back_iff sample inv_migrated rfl rfl).mpr hname

/-- A letter and a blank are a name for `ReservationCreate`; the answer has the letter only, and
    that is none for `ReservationUpdate`. -/
theorem short_name_not_written_back : ¬ ∀ (env : Env) (s s' : Site) (user : User)
    (body : ReservationCreate) (tag : Text) (out : ReservationOut), Inv s →
    fitsBigint s.nextId = true → s.create env user body = (s', .out 201 tag out) →
      WritesBack s' user tag out := by
  intro h
  obtain ⟨⟨htwo, -⟩, -⟩ := h sample migrated _ customer (lunchOf "A ".toList (by decide)) _ _
    inv_migrated rfl rfl
  exact absurd htwo (by decide)

end Deployment

end TableFlow
