/-
  The way back over revision 0004: `downgrade` rebuilds every `guest_name` from the new columns.

  1. **What is rebuilt** — the new columns hold the split of a name.  Put together they are spaced
     (`spaced_split`), so what SQL rebuilds is already in the form SQL compares (`legacy_rebuilt`),
     even where the split has cut a part.  It fits: both parts and the space between them come from
     one name of at most 120 characters (`length_rebuilt`).
  2. **The script** — on a table that 0004 has contracted every statement of `downgrade` is executed
     (`Contracted.downgrade`).
  3. **There and back** — the table is as it was before 0004, but for `guest_name`, and every phase
     is allowed (`downgrade_undoes_contract`).
-/
import TableFlow.Contract

namespace TableFlow.Alembic

open Lib

/-! ## What is rebuilt -/

section Split

variable {n : Text}

/-- The parts of a split name, and the space between them, are spaced. -/
theorem spaced_split (n : Text) :
    Spaced isSpace ((splitGuestName n).1 ++ ' ' :: (splitGuestName n).2) := by
  cases hn : words isSpace n with
  | nil =>
    rw [splitGuestName_blank hn]
    exact List.isChain_singleton _
  | cons w ws =>
    have hws : ∀ v ∈ ws, v ≠ [] ∧ ∀ c ∈ v, isSpace c = false :=
      fun v hv => words_valid n v (by rw [hn]; exact List.mem_cons_of_mem _ hv)
    have hw := (words_valid n w (by rw [hn]; exact List.mem_cons_self ..)).2
    rw [splitGuestName_words hn]
    refine Spaced.separate (fun c hc => hw c (List.mem_of_mem_take hc)) ((spaced_join hws).take 60)
      fun c hc => ?_
    rw [List.head?_take, if_neg (by decide)] at hc
    exact join_head hws hc

/-- Their only blank is the space. -/
theorem mem_split {c : Char} (h : c ∈ (splitGuestName n).1 ++ ' ' :: (splitGuestName n).2)
    (hc : isSpace c = true) : c = ' ' := by
  cases hn : words isSpace n with
  | nil =>
    rw [splitGuestName_blank hn] at h
    exact List.mem_singleton.mp h
  | cons w ws =>
    have hletter : ∀ v ∈ w :: ws, c ∉ v := by
      intro v hv hcv
      have hno : isSpace c = false := (words_valid n v (by rw [hn]; exact hv)).2 c hcv
      exact absurd (hno.symm.trans hc) (by decide)
    rw [splitGuestName_words hn] at h
    rcases List.mem_append.mp h with h | h
    · exact absurd (List.mem_of_mem_take h) (hletter w (List.mem_cons_self ..))
    · rcases List.mem_cons.mp h with h | h
      · exact h
      · refine (mem_join (List.mem_of_mem_take h)).resolve_right ?_
        rintro ⟨v, hv, hcv⟩
        exact hletter v (List.mem_cons_of_mem _ hv) hcv

theorem concatWs_split (n : Text) : concatWs [some (splitGuestName n).1, some (splitGuestName n).2]
    = (splitGuestName n).1 ++ ' ' :: (splitGuestName n).2 := by
  show join ' ' [(splitGuestName n).1, (splitGuestName n).2] = _
  rw [join_cons_cons, join_singleton]

/-- **What is rebuilt is compared as it is.** -/
theorem legacy_rebuilt (sql : SqlSpace) (n : Text) :
    legacy sql (rebuilt (some (splitGuestName n).1) (some (splitGuestName n).2))
      = rebuilt (some (splitGuestName n).1) (some (splitGuestName n).2) := by
  have hpart : rebuilt (some (splitGuestName n).1) (some (splitGuestName n).2) <:+:
      (splitGuestName n).1 ++ ' ' :: (splitGuestName n).2 := by
    unfold rebuilt btrim
    rw [concatWs_split]
    exact strip_isInfix _ _
  have hspaced := (spaced_split n).part hpart
  unfold legacy
  rw [show btrim (rebuilt (some (splitGuestName n).1) (some (splitGuestName n).2))
      = rebuilt (some (splitGuestName n).1) (some (splitGuestName n).2) from strip_strip _ _]
  refine collapse_eq_self (fun c hc hsql => mem_split (hpart.subset hc) (sql.white c hsql)) ?_
  exact hspaced.imp fun a b hab hsql => hab ⟨sql.white a hsql.1, sql.white b hsql.2⟩

/-- **What is rebuilt fits `guest_name`**, although the two columns could hold more. -/
theorem length_rebuilt (h : n.length ≤ 120) :
    (rebuilt (some (splitGuestName n).1) (some (splitGuestName n).2)).length ≤ 120 := by
  have hstrip : (rebuilt (some (splitGuestName n).1) (some (splitGuestName n).2)).length
      ≤ (splitGuestName n).1.length + ((splitGuestName n).2.length + 1) := by
    unfold rebuilt btrim
    rw [concatWs_split]
    refine (length_strip_le _ _).trans ?_
    rw [List.length_append, List.length_cons]
  have hnormal := length_normalise_le isSpace_space n
  unfold normalise at hnormal
  cases hn : words isSpace n with
  | nil =>
    rw [splitGuestName_blank hn] at hstrip ⊢
    exact hstrip.trans (by decide)
  | cons w ws =>
    rw [splitGuestName_words hn, List.length_take, List.length_take] at hstrip
    rw [splitGuestName_words hn]
    rw [hn] at hnormal
    cases ws with
    | nil =>
      rw [join_nil, List.length_nil] at hstrip
      exact hstrip.trans (by omega)
    | cons v vs =>
      rw [join_cons_cons, List.length_append, List.length_cons] at hnormal
      exact hstrip.trans (by omega)

end Split

/-! ## The script -/

/-- **`downgrade` of 0004 completes** on a contracted table whose rebuilt names fit. -/
theorem Contracted.downgrade {rows : List Reservation} {t : Db} (h : Contracted rows t)
    (hindex : t.backfillIndex = false)
    (hfit : ∀ r ∈ rows, (rebuilt r.firstName r.lastName).length ≤ 120) :
    t.downgrade0004 = .ok (Db.relaxed (rows.map (rebuildRow · t.clock)) (t.clock + 1)) := by
  obtain ⟨version, schema, checks, index, rows', clock⟩ := t
  obtain ⟨rfl, rfl, rfl, rfl⟩ := h
  obtain rfl := hindex
  let added : Db := ⟨.r0004, ⟨some ⟨true⟩, some ⟨false⟩, some ⟨false⟩⟩, [], false,
    rows.map (clear · .guestName), clock⟩
  have herror : ∀ r ∈ added.rows, rebuilds false r = true → rebuildError added r = none := by
    intro r hr _
    obtain ⟨x, hx, rfl⟩ := List.mem_map.mp hr
    exact rebuildError_of_length rfl (hfit x hx)
  have hexecuted : Executed added (.rebuild false) _ :=
    .rebuild (fun c => by cases c <;> rfl) herror
  have hrebuild := exec_ok_iff.mpr hexecuted
  have hrows : (added.rows.map fun r => if rebuilds false r then rebuildRow r added.clock else r)
      = rows.map (rebuildRow · clock) := by
    rw [List.map_map]
    rfl
  rw [hrows] at hrebuild
  unfold Db.downgrade0004 Db.migrate
  rw [transaction_ok (show exec (.addColumn .guestName) _ = .ok added from rfl),
    transaction_ok hrebuild]
  rfl

/-! ## There and back -/

/-- The new columns of every row hold the split of a name that `guest_name` could hold. -/
def Split (rows : List Reservation) : Prop :=
  ∀ r ∈ rows, ∃ n : Text, n.length ≤ 120 ∧ r.firstName = some (splitGuestName n).1 ∧
    r.lastName = some (splitGuestName n).2

theorem Split.fits {rows : List Reservation} (h : Split rows) :
    ∀ r ∈ rows, (rebuilt r.firstName r.lastName).length ≤ 120 := by
  intro r hr
  obtain ⟨n, hn, hf, hl⟩ := h r hr
  rw [hf, hl]
  exact length_rebuilt hn

/-- **Every phase is allowed** when every `guest_name` is the rebuilt one. -/
theorem Split.allowed {rows : List Reservation} (h : Split rows) (sql : SqlSpace) (v : Nat)
    (p : Phase) :
    refusal p (schemaState sql Revision.r0003.schema (rows.map (rebuildRow · v))) = none := by
  refine (refusal_eq_none_iff p).mpr ⟨fun _ => rfl, fun _ => ⟨rfl, rfl⟩, fun _ r hr => ?_,
    fun _ r hr => ?_, fun _ _ r hr => ?_, fun _ i hi => ?_⟩
  · obtain ⟨x, -, rfl⟩ := List.mem_map.mp hr
    exact Option.some_ne_none _
  · obtain ⟨x, hx, rfl⟩ := List.mem_map.mp hr
    obtain ⟨n, -, hf, -⟩ := h x hx
    show x.firstName ≠ none
    rw [hf]
    exact Option.some_ne_none _
  · obtain ⟨x, hx, rfl⟩ := List.mem_map.mp hr
    obtain ⟨n, -, hf, hl⟩ := h x hx
    unfold nameMismatch rebuildRow
    dsimp only
    rw [hf, hl]
    simp [legacy_rebuilt]
  · obtain rfl : (⟨true⟩ : ColumnInfo) = i := Option.some.inj hi
    rfl

/-- **Downgrading 0004 undoes it**: both scripts complete, the table is at 0003 again, each row is
    what it was but for the `guest_name` that is rebuilt, and every phase is allowed. -/
theorem downgrade_undoes_contract (sql : SqlSpace) (rows : List Reservation) (clock : Nat)
    (h : Split rows) :
    ∃ t u, (Db.relaxed rows clock).upgrade0004 = (t, none) ∧ t.downgrade0004 = .ok u ∧
      u = Db.relaxed u.rows u.clock ∧
      u.rows = (rows.map fun r => { r with
        guestName := some (btrim (concatWs [r.firstName, r.lastName])), version := clock }) ∧
      (∀ r ∈ u.rows, ∀ n, r.guestName = some n → n.length ≤ 120) ∧
      ∀ p, refusal p (schemaState sql u.schema u.rows) = none := by
  have hfilled : ∀ r ∈ rows, r.firstName ≠ none ∧ r.lastName ≠ none := by
    intro r hr
    obtain ⟨n, -, hf, hl⟩ := h r hr
    rw [hf, hl]
    exact ⟨Option.some_ne_none _, Option.some_ne_none _⟩
  obtain ⟨t, ht, hcontracted, hindex, hclock⟩ := (ready_relaxed clock hfilled).upgrade_index
  have hdown := hcontracted.downgrade hindex h.fits
  obtain rfl : t.clock = clock := hclock
  refine ⟨t, _, ht, hdown, rfl, rfl, fun r hr n hn => ?_, h.allowed sql t.clock⟩
  obtain ⟨x, hx, rfl⟩ := List.mem_map.mp hr
  rw [← Option.some.inj hn]
  exact h.fits x hx

/-- The booking of Ann Lee is the same after both. -/
theorem annLee_back : ∃ t u, (Db.relaxed bookedRows 2).upgrade0004 = (t, none) ∧
    t.downgrade0004 = .ok u ∧ u.rows.map Reservation.guestName = [some annLee] := by
  have hsplit : Split bookedRows := by
    intro r hr
    rw [List.mem_singleton.mp hr]
    exact ⟨annLee, by decide, rfl, rfl⟩
  obtain ⟨t, u, ht, hu, -, hrows, -⟩ := downgrade_undoes_contract .cLocale bookedRows 2 hsplit
  refine ⟨t, u, ht, hu, ?_⟩
  rw [hrows]
  decide

end TableFlow.Alembic
