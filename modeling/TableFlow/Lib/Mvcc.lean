/-
  A table with an exclusion constraint, written by concurrent transactions.

  The rows of the table carry a KEY, a VERSION and a symmetric CLASH relation (`RowSpec`): no two
  committed rows may clash.  A transaction changes the table in small steps that other
  transactions interleave with:

  1. `write`  — put new row versions into the table as DRAFTS, visible to nobody else yet.  The
                writer holds the lock of every row it has drafted, so one key has one draft;
  2. `pass`   — the exclusion constraint was checked for one draft: nothing the writer can see
                clashes with it (`violated`), and no transaction in progress might
                (`blocked`: the check WAITS for those, it does not guess how they end);
  3. `commit` — the drafts replace the committed rows of their keys;
  4. `abort`  — the drafts vanish.

  **The invariant** (`Sound`) is the usual one for "check, then publish later" schemes: a draft
  that has passed clashes neither with a committed row nor with another passed draft.  The
  waiting is what makes it inductive: whoever comes after a passed draft waits for it, so nothing
  that clashes can pass between its check and its commit.  `Sound.apart` is the constraint itself.

  **The history** lists the committed changes, oldest first.  `Linked` says that the changes of
  one key form a chain, each starting from the row its predecessor left; as versions only grow
  along the chain (`Linked.pairwise_lt`), no two changes ever start from the same version.
-/
import Mathlib.Tactic.Common
import Mathlib.Data.List.Nodup

namespace TableFlow.Lib

/-- What the store has to know of a row. -/
structure RowSpec (ρ : Type) where
  key : ρ → Nat
  version : ρ → Nat
  /-- The two rows must not be committed together. -/
  clash : ρ → ρ → Bool
  clash_symm : ∀ a b, clash a b = clash b a

/-- A row version written by a transaction that is still in progress. -/
structure Draft (ρ : Type) where
  owner : Nat
  /-- The committed row it replaces, `none` for an insert. -/
  before : Option ρ
  row : ρ
  /-- The exclusion constraint has been checked for it. -/
  passed : Bool

/-- A committed change: who made it, the row it started from and the row it left. -/
structure Entry (ρ : Type) where
  owner : Nat
  before : Option ρ
  after : ρ
  deriving DecidableEq

/-- What a commit records of a draft. -/
def Draft.entry {ρ : Type} (d : Draft ρ) : Entry ρ := ⟨d.owner, d.before, d.row⟩

/-- The table: committed rows, drafts in progress, and the changes committed so far. -/
structure Store (ρ : Type) where
  rows : List ρ
  drafts : List (Draft ρ)
  history : List (Entry ρ)
  /-- The next version number. -/
  clock : Nat

namespace Store

variable {ρ : Type} (R : RowSpec ρ)

/-! ## Reading the table -/

/-- The committed row of a key. -/
def lookup (rows : List ρ) (k : Nat) : Option ρ := rows.find? fun r => R.key r == k

/-- The drafts of transaction `t`. -/
def own (s : Store ρ) (t : Nat) : List (Draft ρ) := s.drafts.filter fun d => d.owner == t

/-- Has transaction `t` drafted a row of key `k`? -/
def overwrites (s : Store ρ) (t k : Nat) : Bool := (s.own t).any fun d => R.key d.row == k

/-- The table as transaction `t` sees it: its own drafts in place of the rows they replace. -/
def seen (s : Store ρ) (t : Nat) : List ρ :=
  s.rows.filter (fun r => !s.overwrites R t (R.key r)) ++ (s.own t).map (·.row)

/-- `d'` belongs to another transaction and touches a row that clashes with `d`: the check of `d`
    cannot tell yet whether that row will stay. -/
def blocks (d d' : Draft ρ) : Bool :=
  d'.owner != d.owner && (R.clash d.row d'.row || d'.before.any (R.clash d.row))

/-- The check of `d` has to wait for some transaction in progress. -/
def blocked (s : Store ρ) (d : Draft ρ) : Bool := s.drafts.any (blocks R d)

/-- A row of another key that the writer of `d` sees clashes with `d`. -/
def violated (s : Store ρ) (d : Draft ρ) : Bool :=
  (s.seen R d.owner).any fun r => R.key r != R.key d.row && R.clash d.row r

/-! ## Changing the table -/

/-- Write the drafts `ds`; they carry the version number of this step. -/
def write (s : Store ρ) (ds : List (Draft ρ)) : Store ρ :=
  { s with drafts := s.drafts ++ ds, clock := s.clock + 1 }

/-- The check of the draft of key `k` has passed. -/
def pass (s : Store ρ) (k : Nat) : Store ρ :=
  { s with drafts := s.drafts.map fun d => if R.key d.row = k then { d with passed := true } else d }

/-- Publish the drafts of `t`. -/
def commit (s : Store ρ) (t : Nat) : Store ρ :=
  { s with
    rows := s.seen R t
    drafts := s.drafts.filter fun d => d.owner != t
    history := s.history ++ (s.own t).map Draft.entry }

/-- Drop the drafts of `t`. -/
def abort (s : Store ρ) (t : Nat) : Store ρ :=
  { s with drafts := s.drafts.filter fun d => d.owner != t }

/-! ## Membership -/

variable {R}

@[simp] theorem mem_own {s : Store ρ} {t : Nat} {d : Draft ρ} :
    d ∈ s.own t ↔ d ∈ s.drafts ∧ d.owner = t := by
  simp [own]

theorem overwrites_iff {s : Store ρ} {t k : Nat} :
    s.overwrites R t k = true ↔ ∃ d ∈ s.drafts, d.owner = t ∧ R.key d.row = k := by
  simp [overwrites, and_assoc]

theorem overwrites_eq_false {s : Store ρ} {t k : Nat} :
    s.overwrites R t k = false ↔ ∀ d ∈ s.drafts, d.owner = t → R.key d.row ≠ k := by
  rw [← Bool.not_eq_true, overwrites_iff]
  push Not
  rfl

theorem mem_seen {s : Store ρ} {t : Nat} {r : ρ} :
    r ∈ s.seen R t ↔ (r ∈ s.rows ∧ s.overwrites R t (R.key r) = false) ∨
      ∃ d ∈ s.drafts, d.owner = t ∧ d.row = r := by
  simp [seen, and_assoc]

theorem mem_abort {s : Store ρ} {t : Nat} {d : Draft ρ} :
    d ∈ (s.abort t).drafts ↔ d ∈ s.drafts ∧ d.owner ≠ t := by
  simp [abort]

theorem mem_commit {s : Store ρ} {t : Nat} {d : Draft ρ} :
    d ∈ (s.commit R t).drafts ↔ d ∈ s.drafts ∧ d.owner ≠ t := by
  simp [commit]

/-- The drafts after a check: the same ones, one of them possibly marked. -/
theorem mem_pass {s : Store ρ} {k : Nat} {d : Draft ρ} (hd : d ∈ (s.pass R k).drafts) :
    ∃ d₀ ∈ s.drafts, d.owner = d₀.owner ∧ d.before = d₀.before ∧ d.row = d₀.row ∧
      (d.passed = true → d₀.passed = true ∨ R.key d₀.row = k) := by
  obtain ⟨d₀, h0, rfl⟩ := List.mem_map.mp hd
  refine ⟨d₀, h0, ?_⟩
  by_cases hk : R.key d₀.row = k
  · rw [if_pos hk]
    exact ⟨rfl, rfl, rfl, fun _ => Or.inr hk⟩
  · rw [if_neg hk]
    exact ⟨rfl, rfl, rfl, fun h => Or.inl h⟩

theorem blocked_eq_false {s : Store ρ} {d : Draft ρ} (h : s.blocked R d = false)
    {d' : Draft ρ} (hd' : d' ∈ s.drafts) (hne : d'.owner ≠ d.owner) :
    R.clash d.row d'.row = false := by
  have hb : blocks R d d' = false := by
    have := List.any_eq_false.mp h d' hd'
    simpa using this
  have hne' : (d'.owner != d.owner) = true := by simpa using hne
  simp only [blocks, hne', Bool.true_and, Bool.or_eq_false_iff] at hb
  exact hb.1

theorem violated_eq_false {s : Store ρ} {d : Draft ρ} (h : s.violated R d = false)
    {r : ρ} (hr : r ∈ s.seen R d.owner) (hne : R.key r ≠ R.key d.row) :
    R.clash d.row r = false := by
  have := List.any_eq_false.mp h r hr
  simpa [hne] using this

theorem violated_iff {s : Store ρ} {d : Draft ρ} :
    s.violated R d = true ↔
      ∃ r ∈ s.seen R d.owner, R.key r ≠ R.key d.row ∧ R.clash d.row r = true := by
  simp [violated]

/-! ## Lookup -/

theorem lookup_some {rows : List ρ} {k : Nat} {r : ρ} (h : lookup R rows k = some r) :
    r ∈ rows ∧ R.key r = k :=
  ⟨List.mem_of_find?_eq_some h, by simpa using List.find?_some h⟩

theorem lookup_none {rows : List ρ} {k : Nat} : lookup R rows k = none ↔ ∀ r ∈ rows, R.key r ≠ k := by
  simp [lookup]

/-- With distinct keys, a row is found under its own key. -/
theorem lookup_mem {rows : List ρ} (hnd : (rows.map R.key).Nodup) {r : ρ} (hr : r ∈ rows) :
    lookup R rows (R.key r) = some r := by
  induction rows with
  | nil => exact absurd hr (List.not_mem_nil)
  | cons r' rows ih =>
    rw [List.map_cons, List.nodup_cons] at hnd
    by_cases hk : R.key r' = R.key r
    · have hrr : r = r' := by
        rcases List.mem_cons.mp hr with h | h
        · exact h
        · exact absurd (List.mem_map.mpr ⟨r, h, hk.symm⟩) hnd.1
      rw [hrr]
      simp [lookup]
    · have hr' : r ∈ rows := by
        rcases List.mem_cons.mp hr with rfl | h
        · exact absurd rfl hk
        · exact h
      have := ih hnd.2 hr'
      unfold lookup at this ⊢
      rw [List.find?_cons_of_neg (by simpa using hk)]
      exact this

/-- The order of the rows does not matter to a lookup. -/
theorem lookup_perm {rows rows' : List ρ} (h : rows.Perm rows') (hnd : (rows.map R.key).Nodup)
    (k : Nat) : lookup R rows k = lookup R rows' k := by
  cases hl : lookup R rows' k with
  | none => exact lookup_none.mpr fun r hr => lookup_none.mp hl r (h.mem_iff.mp hr)
  | some r =>
    obtain ⟨hr, rfl⟩ := lookup_some hl
    exact lookup_mem hnd (h.mem_iff.mpr hr)

theorem lookup_append_left {rows rows' : List ρ} {k : Nat} (h : ∀ r ∈ rows', R.key r ≠ k) :
    lookup R (rows ++ rows') k = lookup R rows k := by
  have h' : rows'.find? (fun r => R.key r == k) = none := lookup_none.mpr h
  unfold lookup
  rw [List.find?_append, h', Option.or_none]

theorem lookup_append_right {rows rows' : List ρ} {k : Nat} (h : ∀ r ∈ rows, R.key r ≠ k) :
    lookup R (rows ++ rows') k = lookup R rows' k := by
  have h' : rows.find? (fun r => R.key r == k) = none := lookup_none.mpr h
  unfold lookup
  rw [List.find?_append, h', Option.none_or]

/-- A key the transaction has not drafted is found as before. -/
theorem lookup_seen_of_not {s : Store ρ} {t k : Nat} (h : s.overwrites R t k = false) :
    lookup R (s.seen R t) k = lookup R s.rows k := by
  unfold seen
  rw [lookup_append_left]
  · unfold lookup
    rw [List.find?_filter]
    congr 1
    funext r
    by_cases hk : R.key r = k
    · simp [hk, h]
    · simp [hk]
  · intro r hr hk
    obtain ⟨d, hd, rfl⟩ := List.mem_map.mp hr
    obtain ⟨hd, ho⟩ := mem_own.mp hd
    exact overwrites_eq_false.mp h d hd ho hk

/-- A key the transaction has drafted is found as drafted. -/
theorem lookup_seen_of_draft {s : Store ρ} {d : Draft ρ} (hd : d ∈ s.drafts)
    (hnd : (s.drafts.map fun d => R.key d.row).Nodup) :
    lookup R (s.seen R d.owner) (R.key d.row) = some d.row := by
  unfold seen
  rw [lookup_append_right]
  · have hsub : ((s.own d.owner).map fun d => R.key d.row).Nodup :=
      hnd.sublist ((List.filter_sublist).map _)
    refine lookup_mem ?_ (List.mem_map.mpr ⟨d, mem_own.mpr ⟨hd, rfl⟩, rfl⟩)
    rw [List.map_map]
    exact hsub
  · intro r hr hk
    have hov := (List.mem_filter.mp hr).2
    rw [hk, overwrites_iff.mpr ⟨d, hd, rfl, rfl⟩] at hov
    exact absurd hov (by decide)

/-- With distinct draft keys, a draft is known by its key. -/
theorem draft_unique {s : Store ρ} (hnd : (s.drafts.map fun d => R.key d.row).Nodup)
    {d d' : Draft ρ} (hd : d ∈ s.drafts) (hd' : d' ∈ s.drafts)
    (hk : R.key d.row = R.key d'.row) : d = d' :=
  List.inj_on_of_nodup_map hnd hd hd' hk

/-! ## The invariant -/

variable (R) in
/-- What holds of the table whatever the transactions do. -/
structure Sound (s : Store ρ) : Prop where
  /-- Committed rows have distinct keys. -/
  keys : (s.rows.map R.key).Nodup
  /-- One key has at most one draft: its writer holds the row's lock. -/
  draftKeys : (s.drafts.map fun d => R.key d.row).Nodup
  /-- A draft still replaces the row it was made from: nobody else could change that row. -/
  base : ∀ d ∈ s.drafts, lookup R s.rows (R.key d.row) = d.before
  /-- A draft is newer than the row it replaces. -/
  newer : ∀ d ∈ s.drafts, ∀ r, d.before = some r → R.version r < R.version d.row
  rowClock : ∀ r ∈ s.rows, R.version r < s.clock
  draftClock : ∀ d ∈ s.drafts, R.version d.row < s.clock
  /-- **The exclusion constraint.** -/
  apart : ∀ a ∈ s.rows, ∀ b ∈ s.rows, R.key a ≠ R.key b → R.clash a b = false
  /-- A draft that has passed clashes with no committed row its writer still sees. -/
  passedRow : ∀ d ∈ s.drafts, d.passed = true → ∀ r ∈ s.rows, R.key r ≠ R.key d.row →
    s.overwrites R d.owner (R.key r) = false → R.clash d.row r = false
  /-- Two drafts that have passed do not clash. -/
  passedPair : ∀ d ∈ s.drafts, ∀ d' ∈ s.drafts, d.passed = true → d'.passed = true →
    R.key d.row ≠ R.key d'.row → R.clash d.row d'.row = false

/-- Rows without drafts are sound as soon as their keys are distinct, their versions old and no
    two of them clash. -/
theorem Sound.of_rows {s : Store ρ} (hd : s.drafts = []) (hkeys : (s.rows.map R.key).Nodup)
    (hclock : ∀ r ∈ s.rows, R.version r < s.clock)
    (hapart : ∀ a ∈ s.rows, ∀ b ∈ s.rows, R.key a ≠ R.key b → R.clash a b = false) :
    Sound R s where
  keys := hkeys
  draftKeys := by rw [hd]; exact List.nodup_nil
  base := by rw [hd]; intro d h; exact absurd h (List.not_mem_nil)
  newer := by rw [hd]; intro d h; exact absurd h (List.not_mem_nil)
  rowClock := hclock
  draftClock := by rw [hd]; intro d h; exact absurd h (List.not_mem_nil)
  apart := hapart
  passedRow := by rw [hd]; intro d h; exact absurd h (List.not_mem_nil)
  passedPair := by rw [hd]; intro d h; exact absurd h (List.not_mem_nil)

/-- What a writer has to see to before it writes the drafts `ds`. -/
structure Fresh (R : RowSpec ρ) (s : Store ρ) (ds : List (Draft ρ)) : Prop where
  /-- The rows are not locked by anyone, and no row is written twice. -/
  keys : ((s.drafts ++ ds).map fun d => R.key d.row).Nodup
  base : ∀ d ∈ ds, lookup R s.rows (R.key d.row) = d.before
  version : ∀ d ∈ ds, R.version d.row = s.clock
  unchecked : ∀ d ∈ ds, d.passed = false

/-- **Writing keeps the invariant**: the new drafts have passed nothing yet. -/
theorem Sound.write {s : Store ρ} (h : Sound R s) {ds : List (Draft ρ)} (hds : Fresh R s ds) :
    Sound R (s.write ds) where
  keys := h.keys
  draftKeys := hds.keys
  base := by
    intro d hd
    rcases List.mem_append.mp hd with hd | hd
    · exact h.base d hd
    · exact hds.base d hd
  newer := by
    intro d hd r hr
    rcases List.mem_append.mp hd with hd | hd
    · exact h.newer d hd r hr
    · rw [hds.version d hd]
      exact h.rowClock r (lookup_some ((hds.base d hd).trans hr)).1
  rowClock := fun r hr => Nat.lt_succ_of_lt (h.rowClock r hr)
  draftClock := by
    intro d hd
    rcases List.mem_append.mp hd with hd | hd
    · exact Nat.lt_succ_of_lt (h.draftClock d hd)
    · rw [hds.version d hd]
      exact Nat.lt_succ_self _
  apart := h.apart
  passedRow := by
    intro d hd hp r hr hk hov
    rcases List.mem_append.mp hd with hd | hd
    · refine h.passedRow d hd hp r hr hk ?_
      rw [overwrites_eq_false] at hov ⊢
      exact fun e he => hov e (List.mem_append_left _ he)
    · rw [hds.unchecked d hd] at hp
      exact absurd hp (by decide)
  passedPair := by
    intro d hd d' hd' hp hp' hk
    rcases List.mem_append.mp hd with hd | hd
    · rcases List.mem_append.mp hd' with hd' | hd'
      · exact h.passedPair d hd d' hd' hp hp' hk
      · rw [hds.unchecked d' hd'] at hp'
        exact absurd hp' (by decide)
    · rw [hds.unchecked d hd] at hp
      exact absurd hp (by decide)

theorem overwrites_pass {s : Store ρ} {k t k' : Nat} :
    (s.pass R k).overwrites R t k' = s.overwrites R t k' := by
  rw [Bool.eq_iff_iff, overwrites_iff, overwrites_iff]
  constructor
  · rintro ⟨d, hd, ho, hk⟩
    obtain ⟨d₀, h0, ho', -, hr, -⟩ := mem_pass hd
    exact ⟨d₀, h0, ho' ▸ ho, hr ▸ hk⟩
  · rintro ⟨d, hd, ho, hk⟩
    refine ⟨_, List.mem_map.mpr ⟨d, hd, rfl⟩, ?_⟩
    split
    · exact ⟨ho, hk⟩
    · exact ⟨ho, hk⟩

/-- A draft that is neither blocked nor violated clashes with no other draft. -/
theorem checked_apart {s : Store ρ} {d : Draft ρ} (hb : s.blocked R d = false)
    (hv : s.violated R d = false) {e : Draft ρ} (he : e ∈ s.drafts)
    (hk : R.key e.row ≠ R.key d.row) : R.clash d.row e.row = false := by
  by_cases ho : e.owner = d.owner
  · exact violated_eq_false hv (mem_seen.mpr (Or.inr ⟨e, he, ho, rfl⟩)) hk
  · exact blocked_eq_false hb he ho

theorem pass_keys (s : Store ρ) (k : Nat) : (s.pass R k).drafts.map (fun d => R.key d.row)
    = s.drafts.map fun d => R.key d.row := by
  unfold Store.pass
  rw [List.map_map]
  refine List.map_congr_left fun e _ => ?_
  show R.key (if _ then _ else _ : Draft ρ).row = _
  split <;> rfl

/-- **Passing keeps the invariant**: a draft that is neither blocked nor violated clashes with
    nothing that is committed or has passed. -/
theorem Sound.pass {s : Store ρ} (h : Sound R s) {d : Draft ρ} (hd : d ∈ s.drafts)
    (hb : s.blocked R d = false) (hv : s.violated R d = false) :
    Sound R (s.pass R (R.key d.row)) where
  keys := h.keys
  draftKeys := by
    rw [pass_keys]
    exact h.draftKeys
  base := by
    intro e he
    obtain ⟨e₀, h0, -, hbf, hr, -⟩ := mem_pass he
    rw [hbf, hr]
    exact h.base e₀ h0
  newer := by
    intro e he r hbr
    obtain ⟨e₀, h0, -, hbf, hr, -⟩ := mem_pass he
    rw [hr]
    exact h.newer e₀ h0 r (hbf ▸ hbr)
  rowClock := h.rowClock
  draftClock := by
    intro e he
    obtain ⟨e₀, h0, -, -, hr, -⟩ := mem_pass he
    rw [hr]
    exact h.draftClock e₀ h0
  apart := h.apart
  passedRow := by
    intro e he hp r hrow hk hov
    rw [overwrites_pass] at hov
    obtain ⟨e₀, h0, ho, -, hr, hpass⟩ := mem_pass he
    rw [hr] at hk ⊢
    rw [ho] at hov
    rcases hpass hp with hp0 | hke
    · exact h.passedRow e₀ h0 hp0 r hrow hk hov
    · -- the draft that passes now
      obtain rfl := draft_unique h.draftKeys h0 hd hke
      exact violated_eq_false hv (mem_seen.mpr (Or.inl ⟨hrow, hov⟩)) hk
  passedPair := by
    intro e he f hf hp hp' hk
    obtain ⟨e₀, h0, -, -, hr, hpass⟩ := mem_pass he
    obtain ⟨f₀, h0', -, -, hr', hpass'⟩ := mem_pass hf
    rw [hr, hr'] at hk ⊢
    rcases hpass hp with hp0 | hke
    · rcases hpass' hp' with hp0' | hkf
      · exact h.passedPair e₀ h0 f₀ h0' hp0 hp0' hk
      · obtain rfl := draft_unique h.draftKeys h0' hd hkf
        rw [R.clash_symm]
        exact checked_apart hb hv h0 hk
    · obtain rfl := draft_unique h.draftKeys h0 hd hke
      exact checked_apart hb hv h0' fun hkf => hk hkf.symm

/-- A draft of another transaction keeps the row it was made from when `t` commits. -/
theorem Sound.lookup_commit {s : Store ρ} (h : Sound R s) {t : Nat} {d : Draft ρ}
    (hd : d ∈ s.drafts) (ho : d.owner ≠ t) :
    lookup R (s.commit R t).rows (R.key d.row) = lookup R s.rows (R.key d.row) := by
  refine lookup_seen_of_not (overwrites_eq_false.mpr fun e he hoe hk => ho ?_)
  rw [← hoe, draft_unique h.draftKeys he hd hk]

/-- What a transaction sees has distinct keys: its drafts hide the rows they replace. -/
theorem Sound.seen_keys {s : Store ρ} (h : Sound R s) (t : Nat) : ((s.seen R t).map R.key).Nodup := by
  unfold seen
  rw [List.map_append, List.nodup_append]
  refine ⟨h.keys.sublist ((List.filter_sublist).map _), ?_, ?_⟩
  · rw [List.map_map]
    exact h.draftKeys.sublist ((List.filter_sublist).map _)
  · intro k hk k' hk' hkk
    obtain ⟨r, hr, rfl⟩ := List.mem_map.mp hk
    obtain ⟨r', hr', rfl⟩ := List.mem_map.mp hk'
    obtain ⟨d, hd, rfl⟩ := List.mem_map.mp hr'
    obtain ⟨hd, ho⟩ := mem_own.mp hd
    have hov := (List.mem_filter.mp hr).2
    rw [overwrites_iff.mpr ⟨d, hd, ho, hkk.symm⟩] at hov
    exact absurd hov (by decide)

/-- A row that another transaction has not replaced was not replaced before the commit. -/
theorem overwrites_commit {s : Store ρ} {t u k : Nat} (hu : u ≠ t)
    (hov : (s.commit R t).overwrites R u k = false) : s.overwrites R u k = false := by
  rw [overwrites_eq_false] at hov ⊢
  intro d hd ho
  exact hov d (mem_commit.mpr ⟨hd, fun h => hu (ho ▸ h)⟩) ho

/-- **Committing keeps the invariant**, provided every draft of `t` has passed. -/
theorem Sound.commit {s : Store ρ} (h : Sound R s) {t : Nat}
    (hp : ∀ d ∈ s.drafts, d.owner = t → d.passed = true) : Sound R (s.commit R t) where
  keys := h.seen_keys t
  draftKeys := h.draftKeys.sublist ((List.filter_sublist).map _)
  base := by
    intro d hd
    obtain ⟨hd, ho⟩ := mem_commit.mp hd
    rw [h.lookup_commit hd ho]
    exact h.base d hd
  newer := fun d hd => h.newer d (mem_commit.mp hd).1
  rowClock := by
    intro r hr
    rcases mem_seen.mp hr with ⟨hr, -⟩ | ⟨d, hd, -, rfl⟩
    · exact h.rowClock r hr
    · exact h.draftClock d hd
  draftClock := fun d hd => h.draftClock d (mem_commit.mp hd).1
  apart := by
    -- old/old by the constraint, old/new and new/new because the new ones had passed
    intro a ha b hb hk
    rcases mem_seen.mp ha with ⟨ha, hova⟩ | ⟨d, hd, ho, rfl⟩
    · rcases mem_seen.mp hb with ⟨hb, -⟩ | ⟨d', hd', ho', rfl⟩
      · exact h.apart a ha b hb hk
      · rw [R.clash_symm]
        exact h.passedRow d' hd' (hp d' hd' ho') a ha hk (ho'.symm ▸ hova)
    · rcases mem_seen.mp hb with ⟨hb, hovb⟩ | ⟨d', hd', ho', rfl⟩
      · exact h.passedRow d hd (hp d hd ho) b hb (fun e => hk e.symm) (ho.symm ▸ hovb)
      · exact h.passedPair d hd d' hd' (hp d hd ho) (hp d' hd' ho') hk
  passedRow := by
    -- a row committed just now was a draft that had passed
    intro d hd hpd r hr hk hovr
    obtain ⟨hd, ho⟩ := mem_commit.mp hd
    rcases mem_seen.mp hr with ⟨hr, -⟩ | ⟨d', hd', ho', rfl⟩
    · exact h.passedRow d hd hpd r hr hk (overwrites_commit ho hovr)
    · exact h.passedPair d hd d' hd' hpd (hp d' hd' ho') fun e => hk e.symm
  passedPair := fun d hd d' hd' => h.passedPair d (mem_commit.mp hd).1 d' (mem_commit.mp hd').1

/-- **Aborting keeps the invariant.** -/
theorem Sound.abort {s : Store ρ} (h : Sound R s) (t : Nat) : Sound R (s.abort t) := by
  refine ⟨h.keys, h.draftKeys.sublist ((List.filter_sublist).map _),
    fun d hd => h.base d (mem_abort.mp hd).1, fun d hd => h.newer d (mem_abort.mp hd).1,
    h.rowClock, fun d hd => h.draftClock d (mem_abort.mp hd).1, h.apart, ?_,
    fun d hd d' hd' => h.passedPair d (mem_abort.mp hd).1 d' (mem_abort.mp hd').1⟩
  intro d hd hp r hr hk hov
  obtain ⟨hd, ho⟩ := mem_abort.mp hd
  refine h.passedRow d hd hp r hr hk ?_
  rw [overwrites_eq_false] at hov ⊢
  intro e he hoe
  exact hov e (mem_abort.mpr ⟨he, fun het => ho (hoe ▸ het)⟩) hoe

/-! ## The history of one key -/

variable (R) in
/-- The changes of one key, oldest first. -/
def changesOf (k : Nat) (es : List (Entry ρ)) : List (Entry ρ) :=
  es.filter fun e => R.key e.after == k

/-- The changes `es` lead from the row `a` to the row `b`, each starting from the row the one
    before it left. -/
def Linked : Option ρ → List (Entry ρ) → Option ρ → Prop
  | a, [], b => a = b
  | a, e :: es, b => e.before = a ∧ Linked (some e.after) es b

theorem Linked.concat {es : List (Entry ρ)} {e : Entry ρ} :
    ∀ {a b : Option ρ}, Linked a es b → e.before = b → Linked a (es ++ [e]) (some e.after) := by
  induction es with
  | nil =>
    intro a b h hb
    exact ⟨hb.trans h.symm, rfl⟩
  | cons e' es ih =>
    intro a b h hb
    exact ⟨h.1, ih h.2 hb⟩

variable (R) in
/-- Every change made the version of its row grow. -/
def Growing (es : List (Entry ρ)) : Prop :=
  ∀ e ∈ es, ∀ r, e.before = some r → R.version r < R.version e.after

/-- **Versions strictly grow along a chain of changes.** -/
theorem Linked.pairwise_lt {es : List (Entry ρ)} : ∀ {a b : Option ρ}, Linked a es b →
    Growing R es →
    (a.toList ++ es.map (·.after)).Pairwise fun r r' => R.version r < R.version r' := by
  induction es with
  | nil =>
    intro a b _ _
    cases a with
    | none => exact List.Pairwise.nil
    | some r => exact List.pairwise_singleton _ _
  | cons e es ih =>
    intro a b h hg
    have hrest := ih h.2 fun e' he' => hg e' (List.mem_cons_of_mem _ he')
    cases a with
    | none => exact hrest
    | some r =>
      have hlt : R.version r < R.version e.after := hg e (List.mem_cons_self ..) r h.1
      refine List.Pairwise.cons (fun r' hr' => ?_) hrest
      rcases List.mem_cons.mp hr' with rfl | hr'
      · exact hlt
      · exact Nat.lt_trans hlt ((List.pairwise_cons.mp hrest).1 r' hr')

/-- The row a change of the chain starts from is the start of the chain or was left by an earlier
    change of it. -/
theorem Linked.before_mem {es : List (Entry ρ)} : ∀ {a b : Option ρ}, Linked a es b →
    ∀ e ∈ es, ∀ r, e.before = some r → r ∈ a.toList ++ es.map (·.after) := by
  induction es with
  | nil => intro a b _ e he; exact absurd he (List.not_mem_nil)
  | cons e' es ih =>
    intro a b h e he r hr
    rcases List.mem_cons.mp he with rfl | he
    · refine List.mem_append_left _ ?_
      rw [← h.1, hr]
      exact List.mem_singleton.mpr rfl
    · refine List.mem_append_right _ ?_
      simpa using ih h.2 e he r hr

/-- Where the chain ends is the start of the chain or was left by one of its changes. -/
theorem Linked.last_mem {es : List (Entry ρ)} : ∀ {a b : Option ρ}, Linked a es b →
    ∀ r, b = some r → r ∈ a.toList ++ es.map (·.after) := by
  induction es with
  | nil =>
    intro a b h r hr
    rw [h, hr]
    exact List.mem_append_left _ (List.mem_singleton.mpr rfl)
  | cons e es ih =>
    intro a b h r hr
    refine List.mem_append_right _ ?_
    simpa using ih h.2 r hr

/-- **No two changes of a chain start from the same version.** -/
theorem Linked.before_pairwise_lt {es : List (Entry ρ)} : ∀ {a b : Option ρ}, Linked a es b →
    Growing R es →
    es.Pairwise fun e e' => ∀ r r', e.before = some r → e'.before = some r' →
      R.version r < R.version r' := by
  induction es with
  | nil => intro a b _ _; exact List.Pairwise.nil
  | cons e es ih =>
    intro a b h hg
    have hg' : Growing R es := fun e' he' => hg e' (List.mem_cons_of_mem _ he')
    refine List.Pairwise.cons (fun e' he' r r' hr hr' => ?_) (ih h.2 hg')
    have hlt : R.version r < R.version e.after := hg e (List.mem_cons_self ..) r hr
    have hmem := h.2.before_mem e' he' r' hr'
    rcases List.mem_cons.mp hmem with rfl | hmem
    · exact hlt
    · exact Nat.lt_trans hlt ((List.pairwise_cons.mp (h.2.pairwise_lt hg')).1 r' hmem)

/-- A chain that starts from a row inserts none. -/
theorem Linked.before_ne_none {es : List (Entry ρ)} : ∀ {a : ρ} {b : Option ρ}, Linked (some a) es b →
    ∀ e ∈ es, e.before ≠ none := by
  induction es with
  | nil => intro a b _ e he; exact absurd he (List.not_mem_nil)
  | cons e' es ih =>
    intro a b h e he
    rcases List.mem_cons.mp he with rfl | he
    · rw [h.1]
      exact Option.some_ne_none a
    · exact ih h.2 e he

/-- **A row is inserted once.** -/
theorem Linked.insert_unique {es : List (Entry ρ)} {a b : Option ρ} (h : Linked a es b)
    {e e' : Entry ρ} (he : e ∈ es) (he' : e' ∈ es) (hnone : e.before = none)
    (hnone' : e'.before = none) : e = e' := by
  cases es with
  | nil => exact absurd he (List.not_mem_nil)
  | cons e₀ es =>
    have hfirst : ∀ e₁ ∈ e₀ :: es, e₁.before = none → e₁ = e₀ := by
      intro e₁ he₁ hnone₁
      rcases List.mem_cons.mp he₁ with rfl | he₁
      · rfl
      · exact absurd hnone₁ (h.2.before_ne_none e₁ he₁)
    rw [hfirst e he hnone, hfirst e' he' hnone']

variable (R) in
/-- The history accounts for the table: the changes of every key lead from the row it had at the
    start to the row it has now, through growing versions. -/
structure Tracked (init : List ρ) (s : Store ρ) : Prop where
  linked : ∀ k, Linked (lookup R init k) (changesOf R k s.history) (lookup R s.rows k)
  growing : Growing R s.history

theorem mem_commit_history {s : Store ρ} {t : Nat} {e : Entry ρ} :
    e ∈ (s.commit R t).history ↔ e ∈ s.history ∨ ∃ d ∈ s.drafts, d.owner = t ∧ d.entry = e := by
  simp [commit, and_assoc]

/-- The drafts of one key, out of drafts with distinct keys. -/
theorem filter_key_eq_singleton {ds : List (Draft ρ)} (hnd : (ds.map fun d => R.key d.row).Nodup)
    {d : Draft ρ} (hd : d ∈ ds) : ds.filter (fun e => R.key e.row == R.key d.row) = [d] := by
  induction ds with
  | nil => exact absurd hd (List.not_mem_nil)
  | cons e ds ih =>
    rw [List.map_cons, List.nodup_cons] at hnd
    rcases List.mem_cons.mp hd with rfl | hd
    · have hrest : ds.filter (fun e => R.key e.row == R.key d.row) = [] := by
        refine List.filter_eq_nil_iff.mpr fun e he hk => hnd.1 ?_
        exact List.mem_map.mpr ⟨e, he, by simpa using hk⟩
      rw [List.filter_cons_of_pos (by simp), hrest]
    · have hne : ¬ (R.key e.row == R.key d.row) = true := by
        intro hk
        exact hnd.1 (List.mem_map.mpr ⟨d, hd, (by simpa using hk : R.key e.row = _).symm⟩)
      rw [List.filter_cons, if_neg hne]
      exact ih hnd.2 hd

/-- What a commit appends to the history of one key: the draft of that key, if there is one. -/
theorem changesOf_commit (s : Store ρ) (t k : Nat) :
    changesOf R k (s.commit R t).history
      = changesOf R k s.history ++ ((s.own t).filter fun d => R.key d.row == k).map Draft.entry := by
  unfold changesOf
  show (s.history ++ (s.own t).map Draft.entry).filter _ = _
  rw [List.filter_append, List.filter_map]
  rfl

/-- **Committing extends the chain of every key it changes by one link.** -/
theorem Tracked.commit {init : List ρ} {s : Store ρ} (ht : Tracked R init s) (hs : Sound R s)
    (t : Nat) : Tracked R init (s.commit R t) where
  linked := by
    intro k
    rw [changesOf_commit]
    by_cases hov : s.overwrites R t k = true
    · obtain ⟨d, hd, rfl, rfl⟩ := overwrites_iff.mp hov
      have hsub : ((s.own d.owner).map fun d => R.key d.row).Nodup :=
        hs.draftKeys.sublist ((List.filter_sublist).map _)
      rw [filter_key_eq_singleton hsub (mem_own.mpr ⟨hd, rfl⟩)]
      have hrow : lookup R (s.commit R d.owner).rows (R.key d.row) = some d.row :=
        lookup_seen_of_draft hd hs.draftKeys
      rw [hrow]
      exact (ht.linked (R.key d.row)).concat (e := d.entry) (hs.base d hd).symm
    · have hov' : s.overwrites R t k = false := by simpa using hov
      have hnone : (s.own t).filter (fun d => R.key d.row == k) = [] := by
        refine List.filter_eq_nil_iff.mpr fun d hd hk => ?_
        obtain ⟨hd, ho⟩ := mem_own.mp hd
        exact overwrites_eq_false.mp hov' d hd ho (by simpa using hk)
      have hrow : lookup R (s.commit R t).rows k = lookup R s.rows k := lookup_seen_of_not hov'
      rw [hnone, hrow, List.map_nil, List.append_nil]
      exact ht.linked k
  growing := by
    intro e he r hr
    rcases mem_commit_history.mp he with he | ⟨d, hd, -, rfl⟩
    · exact ht.growing e he r hr
    · exact hs.newer d hd r hr

theorem Tracked.insert_unique {init : List ρ} {s : Store ρ} (ht : Tracked R init s) {e e' : Entry ρ}
    (he : e ∈ s.history) (he' : e' ∈ s.history) (hnone : e.before = none) (hnone' : e'.before = none)
    (hkey : R.key e.after = R.key e'.after) : e = e' :=
  (ht.linked (R.key e'.after)).insert_unique (List.mem_filter.mpr ⟨he, beq_iff_eq.mpr hkey⟩)
    (List.mem_filter.mpr ⟨he', beq_self_eq_true _⟩) hnone hnone'

theorem Tracked.start {s : Store ρ} (h : s.history = []) : Tracked R s.rows s where
  linked := by
    intro k
    rw [h]
    exact rfl
  growing := by
    rw [h]
    intro e he
    exact absurd he (List.not_mem_nil)

variable (R) in
/-- Every row version a key ever had: the one it started with and those the changes left. -/
def versionsOf (init : List ρ) (s : Store ρ) (k : Nat) : List ρ :=
  (lookup R init k).toList ++ (changesOf R k s.history).map (·.after)

theorem Tracked.lookup_mem_versions {init : List ρ} {s : Store ρ} (ht : Tracked R init s)
    {k : Nat} {r : ρ} (h : lookup R s.rows k = some r) : r ∈ versionsOf R init s k :=
  (ht.linked k).last_mem r h

/-- What every change of a chain keeps, once it holds, holds at the end. -/
theorem Linked.last_of {es : List (Entry ρ)} {P : ρ → Prop} : ∀ {a b : Option ρ}, Linked a es b →
    (∀ e ∈ es, ∀ r, e.before = some r → P r → P e.after) →
    (∃ r ∈ a.toList ++ es.map (·.after), P r) → ∀ r, b = some r → P r := by
  induction es with
  | nil =>
    rintro a b rfl - ⟨r, hr, hP⟩ r' rfl
    obtain rfl := List.mem_singleton.mp hr
    exact hP
  | cons e es ih =>
    rintro a b h hkeep ⟨r, hr, hP⟩
    refine ih h.2 (fun e' he' => hkeep e' (List.mem_cons_of_mem _ he')) ?_
    rcases List.mem_append.mp hr with hr | hr
    · have ha : a = some r := by simpa using hr
      exact ⟨e.after, List.mem_cons_self .., hkeep e (List.mem_cons_self ..) r (h.1.trans ha) hP⟩
    · exact ⟨r, hr, hP⟩

/-- A number that some changes of a chain raise by one, and the others leave, counts them. -/
theorem Linked.count {es : List (Entry ρ)} {f : ρ → Nat} {p : Entry ρ → Bool} :
    ∀ {a b : ρ}, Linked (some a) es (some b) →
      (∀ e ∈ es, ∀ r, e.before = some r → f e.after = f r + if p e then 1 else 0) →
      f b = f a + es.countP p := by
  induction es with
  | nil =>
    intro a b h _
    rw [Option.some.inj h]
    rfl
  | cons e es ih =>
    intro a b h hstep
    have he := hstep e (List.mem_cons_self ..) a h.1
    rw [ih h.2 fun e' he' => hstep e' (List.mem_cons_of_mem _ he'), he, List.countP_cons]
    omega

/-- **The value written last along a chain** is what its end satisfies `P` for: a change writes the
    value `f` gives it, or keeps the one its row had. -/
theorem Linked.latest {β : Type} {es : List (Entry ρ)} {f : Entry ρ → Option β} {P : β → ρ → Prop} :
    ∀ {a b : Option ρ} (v₀ : Option β), Linked a es b →
      (∀ r, a = some r → ∃ v, v₀ = some v ∧ P v r) →
      (∀ e ∈ es, ∀ v, f e = some v → P v e.after) →
      (∀ e ∈ es, f e = none → ∃ r, e.before = some r ∧ ∀ v, P v r → P v e.after) →
      ∀ r, b = some r → ∃ v, (es.filterMap f).getLast?.or v₀ = some v ∧ P v r := by
  induction es with
  | nil =>
    rintro a b v₀ rfl hstart - - r hr
    exact hstart r hr
  | cons e es ih =>
    intro a b v₀ h hstart hwrite hkeep r hr
    have hafter : ∃ v, (f e).or v₀ = some v ∧ P v e.after := by
      cases hf : f e with
      | some v => exact ⟨v, rfl, hwrite e (List.mem_cons_self ..) v hf⟩
      | none =>
        obtain ⟨r₀, hr₀, hk⟩ := hkeep e (List.mem_cons_self ..) hf
        obtain ⟨v, hv, hP⟩ := hstart r₀ (h.1.symm.trans hr₀)
        exact ⟨v, hv, hk v hP⟩
    obtain ⟨v, hv, hP⟩ := ih ((f e).or v₀) h.2
      (fun r' hr' => by obtain rfl := Option.some.inj hr'; exact hafter)
      (fun e' he' => hwrite e' (List.mem_cons_of_mem _ he'))
      (fun e' he' => hkeep e' (List.mem_cons_of_mem _ he')) r hr
    refine ⟨v, ?_, hP⟩
    rw [← hv, List.filterMap_cons]
    cases f e with
    | none => rfl
    | some v' =>
      cases hl : es.filterMap f with
      | nil => rfl
      | cons x xs => simp [List.getLast?_cons]

/-- A chain that has passed through a row ends in a row. -/
theorem Linked.last_ne_none {es : List (Entry ρ)} : ∀ {a b : Option ρ}, Linked a es b →
    (∃ r, r ∈ a.toList ++ es.map (·.after)) → b ≠ none := by
  induction es with
  | nil =>
    rintro a b rfl ⟨r, hr⟩ rfl
    exact absurd hr (by simp)
  | cons e es ih =>
    rintro a b h -
    exact ih h.2 ⟨e.after, List.mem_append_left _ (List.mem_singleton.mpr rfl)⟩

/-- **A key that had a version has a committed row.** -/
theorem Tracked.exists_row {init : List ρ} {s : Store ρ} (ht : Tracked R init s) {k : Nat} {r : ρ}
    (hr : r ∈ versionsOf R init s k) : ∃ r' ∈ s.rows, R.key r' = k := by
  obtain ⟨r', hr'⟩ := Option.ne_none_iff_exists'.mp ((ht.linked k).last_ne_none ⟨r, hr⟩)
  exact ⟨r', lookup_some hr'⟩

theorem Tracked.growing_of {init : List ρ} {s : Store ρ} (ht : Tracked R init s) (k : Nat) :
    Growing R (changesOf R k s.history) :=
  fun e he => ht.growing e (List.mem_filter.mp he).1

/-- **The version number determines the row**: two row versions of one key with the same version
    number are the same row. -/
theorem Tracked.version_inj {init : List ρ} {s : Store ρ} (ht : Tracked R init s) {k : Nat}
    {r r' : ρ} (hr : r ∈ versionsOf R init s k) (hr' : r' ∈ versionsOf R init s k)
    (h : R.version r = R.version r') : r = r' := by
  have hlt := (ht.linked k).pairwise_lt (ht.growing_of k)
  have hnd : ((versionsOf R init s k).map R.version).Nodup := by
    refine List.Pairwise.map R.version (fun a b hab => ?_) hlt
    exact Nat.ne_of_lt hab
  exact List.inj_on_of_nodup_map hnd hr hr' h

/-- The last change of a chain leaves the row the chain ends in. -/
theorem Linked.last_after {es : List (Entry ρ)} {e : Entry ρ} :
    ∀ {a b : Option ρ}, Linked a es b → es.getLast? = some e → b = some e.after := by
  induction es with
  | nil => exact fun _ h => absurd h (by simp)
  | cons e' es ih =>
    intro a b h hlast
    cases es with
    | nil =>
      obtain rfl : e' = e := Option.some.inj hlast
      exact h.2.symm
    | cons e'' es => exact ih h.2 (by simpa using hlast)

/-- **A change is the last one of its key exactly when the row it left is the committed one.** -/
theorem Tracked.getLast?_iff {init : List ρ} {s : Store ρ} (ht : Tracked R init s) {k : Nat}
    {e : Entry ρ} (he : e ∈ changesOf R k s.history) :
    (changesOf R k s.history).getLast? = some e ↔ lookup R s.rows k = some e.after := by
  refine ⟨(ht.linked k).last_after, fun hrow => ?_⟩
  obtain ⟨e', he'⟩ := Option.isSome_iff_exists.mp
    (List.getLast?_isSome.mpr (List.ne_nil_of_mem he))
  -- versions grow, so the change that left the same row is the same change
  have hsame : e'.after = e.after :=
    Option.some.inj (((ht.linked k).last_after he').symm.trans hrow)
  have hlt := ((List.pairwise_append.mp ((ht.linked k).pairwise_lt (ht.growing_of k))).2.1)
  have hnd : ((changesOf R k s.history).map fun e => R.version e.after).Nodup :=
    (List.pairwise_map.mp hlt).map _ fun _ _ hab => Nat.ne_of_lt hab
  rw [he', List.inj_on_of_nodup_map hnd (List.mem_of_getLast? he') he (congrArg R.version hsame)]

end Store

end TableFlow.Lib
