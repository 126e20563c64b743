/-
  The name migration: schema revisions, phases, and the guard between them.

      phase        writes                      reads                 needs
      -----------  --------------------------  --------------------  ---------------------------
      legacy       guest_name                  guest_name            guest_name
      dual_write   guest_name + first + last   guest_name            first/last columns (0002)
      read_new     guest_name + first + last   first + last          backfill finished
      new_only     first + last                first + last          guest_name nullable (0003)

  `refusal` is the guard of a phase change.  It sees the schema and three counts over the rows
  (`SchemaState`), nothing else; `refusal_eq_none_iff` reads it back as conditions on the table
  itself, one for each branch, and every later argument goes through that reading.
-/
import TableFlow.Name

namespace TableFlow

open Lib

/-! ## Phases -/

/-- `Phase` -/
inductive Phase
  | legacy
  | dualWrite
  | readNew
  | newOnly
  deriving DecidableEq, Repr

/-- `WRITE_COLUMNS`. -/
def writeColumns : Phase → List Column
  | .legacy => [.guestName]
  | .dualWrite => [.guestName, .firstName, .lastName]
  | .readNew => [.guestName, .firstName, .lastName]
  | .newOnly => [.firstName, .lastName]

/-- `READ_COLUMNS`. -/
def readColumns : Phase → List Column
  | .legacy => [.guestName]
  | .dualWrite => [.guestName]
  | .readNew => [.firstName, .lastName]
  | .newOnly => [.firstName, .lastName]

/-- The phase answers with `guest_name`; the other phases with `first_name` and `last_name`. -/
def Phase.readsGuestName (p : Phase) : Bool := (readColumns p).contains .guestName

/-! ## The schema -/

/-- What is known of a column. -/
structure ColumnInfo where
  nullable : Bool
  deriving DecidableEq, Repr

/-- The name columns of the table `reservations`, as `inspect(..).get_columns` reports them. -/
structure Schema where
  guestName : Option ColumnInfo
  firstName : Option ColumnInfo
  lastName : Option ColumnInfo
  deriving DecidableEq, Repr

/-- The column, if the table has it. -/
def Schema.column (s : Schema) : Column → Option ColumnInfo
  | .guestName => s.guestName
  | .firstName => s.firstName
  | .lastName => s.lastName

/-- Revision 0001: `guest_name NOT NULL` only. -/
def Schema.initial : Schema := ⟨some ⟨false⟩, none, none⟩

/-- 0002, Expand: add both columns, nullable and without a default. -/
def upgrade0002 (s : Schema) : Schema :=
  { s with firstName := some ⟨true⟩, lastName := some ⟨true⟩ }

/-- 0003, Contract part one: make `guest_name` nullable. -/
def upgrade0003 (s : Schema) : Schema := { s with guestName := s.guestName.map fun _ => ⟨true⟩ }

/-- The revisions in which `guest_name` exists. -/
inductive Revision
  | r0001
  | r0002
  | r0003
  deriving DecidableEq, Repr

/-- The schema a revision leaves. -/
def Revision.schema : Revision → Schema
  | .r0001 => .initial
  | .r0002 => upgrade0002 .initial
  | .r0003 => upgrade0003 (upgrade0002 .initial)

/-- `alembic upgrade`: it runs the migrations up to `target` and none that has been run. -/
def Revision.upgrade : Revision → Revision → Revision
  | .r0001, target => target
  | .r0002, .r0003 => .r0003
  | .r0002, _ => .r0002
  | .r0003, _ => .r0003

/-! ## What the guard sees -/

/-- `SchemaState`: what the guard of a phase change looks at. -/
structure SchemaState where
  guestNamePresent : Bool
  guestNameNullable : Bool
  newColumnsPresent : Bool
  /-- rows with `first_name IS NULL` -/
  awaitingBackfill : Option Nat
  /-- rows whose first + last disagree with `guest_name` -/
  mismatched : Option Nat
  /-- rows with `guest_name IS NULL` -/
  missingLegacy : Option Nat
  deriving DecidableEq, Repr

/-- `name_mismatch`: true when first + last does not match `guest_name`. -/
def nameMismatch (sql : SqlSpace) (r : Reservation) : Bool :=
  match r.firstName, r.guestName with
  | some f, some n => decide (rebuilt (some f) r.lastName ≠ legacy sql n)
  | _, _ => false

/-- The three counts `schema_state` asks for, one query each; each only uses columns that exist. -/
def countAwaiting (schema : Schema) (rows : List Reservation) : Option Nat :=
  if schema.firstName.isSome && schema.lastName.isSome then
    some (rows.countP (·.firstName.isNone))
  else none

/-- Rows with `guest_name IS NULL`. -/
def countMissing (schema : Schema) (rows : List Reservation) : Option Nat :=
  if schema.guestName.isSome then some (rows.countP (·.guestName.isNone)) else none

/-- Rows whose names disagree, as SQL compares them. -/
def countMismatched (sql : SqlSpace) (schema : Schema) (rows : List Reservation) : Option Nat :=
  if schema.firstName.isSome && schema.lastName.isSome && schema.guestName.isSome then
    some (rows.countP (nameMismatch sql))
  else none

/-- The state assembled from the schema and the counts. -/
def stateOf (schema : Schema) (awaiting missing mismatched : Option Nat) : SchemaState where
  guestNamePresent := schema.guestName.isSome
  guestNameNullable := schema.guestName.any (·.nullable)
  newColumnsPresent := schema.firstName.isSome && schema.lastName.isSome
  awaitingBackfill := awaiting
  mismatched := mismatched
  missingLegacy := missing

/-- `schema_state`, when nothing happens between its queries. -/
def schemaState (sql : SqlSpace) (schema : Schema) (rows : List Reservation) : SchemaState :=
  stateOf schema (countAwaiting schema rows) (countMissing schema rows)
    (countMismatched sql schema rows)

/-- Python's truth value of a count: `None` and `0` are false. -/
def truthy : Option Nat → Bool
  | none => false
  | some n => n != 0

/-! ## The guard -/

/-- `refusal`: the reason `target` is not allowed now, or `none` if it is. -/
def refusal (target : Phase) (state : SchemaState) : Option String :=
  let writes := writeColumns target
  let reads := readColumns target
  if (writes ++ reads).contains .guestName && !state.guestNamePresent then
    some "guest_name has been dropped (0004); only new_only is possible"
  else if (writes ++ reads).contains .firstName && !state.newColumnsPresent then
    some "first_name / last_name do not exist yet; run alembic upgrade 0002"
  else if reads.contains .guestName && truthy state.missingLegacy then
    some s!"{state.missingLegacy.getD 0} reservations have no guest_name (written in new_only); reading guest_name would return null"
  else if reads.contains .firstName && truthy state.awaitingBackfill then
    some s!"{state.awaitingBackfill.getD 0} reservations still await backfill; run scripts/backfill_names.py first"
  -- Catches names changed after going back to legacy.
  else if reads.contains .firstName && truthy state.mismatched then
    some s!"{state.mismatched.getD 0} reservations have first/last names that disagree with guest_name; see scripts/backfill_names.py --verify"
  else if !writes.contains .guestName && state.guestNamePresent && !state.guestNameNullable then
    some "guest_name is still NOT NULL; run alembic upgrade 0003 first"
  else none

/-- `reconcile_with_schema`: the phase a process configured with `configured` starts in. -/
def reconcile (configured : Phase) (state : SchemaState) : Phase :=
  if refusal configured state = none then configured
  else
    match [Phase.newOnly, .readNew, .dualWrite, .legacy].find? fun p => (refusal p state).isNone with
    | some candidate => candidate
    | none => configured

/-- The phases `GET /admin/migration` lists as allowed. -/
def allowedPhases (state : SchemaState) : List Phase :=
  [Phase.legacy, .dualWrite, .readNew, .newOnly].filter fun p => (refusal p state).isNone

/-! ## The guard, read back as conditions on the table -/

section Guard

variable {sql : SqlSpace} {schema : Schema} {rows : List Reservation}

/-- The new columns exist. -/
def Schema.hasNew (s : Schema) : Prop := s.firstName.isSome ∧ s.lastName.isSome

/-- What the guard asks of the table before `target`, branch by branch. -/
@[mk_iff] structure Allowed (sql : SqlSpace) (target : Phase) (schema : Schema) (rows : List Reservation) :
    Prop where
  guest : target ≠ .newOnly → schema.guestName.isSome
  new : target ≠ .legacy → schema.hasNew
  noMissing : target.readsGuestName = true → ∀ r ∈ rows, r.guestName ≠ none
  filled : target.readsGuestName = false → ∀ r ∈ rows, r.firstName ≠ none
  consistent : target.readsGuestName = false → schema.guestName.isSome →
    ∀ r ∈ rows, nameMismatch sql r = false
  nullable : target = .newOnly → ∀ c, schema.guestName = some c → c.nullable = true

@[simp] theorem truthy_none : truthy none = false := rfl

@[simp] theorem truthy_countP {p : Reservation → Bool} :
    truthy (some (rows.countP p)) = false ↔ ∀ r ∈ rows, p r = false := by
  simp [truthy, List.countP_eq_zero]

theorem refused_else_iff {c : Bool} {reason : String} {x : Option String} :
    (if c = true then some reason else x) = none ↔ c = false ∧ x = none := by
  cases c <;> simp

/-- **The guard accepts a phase exactly when the table is fit for it.** -/
theorem refusal_eq_none_iff (target : Phase) :
    refusal target (schemaState sql schema rows) = none ↔ Allowed sql target schema rows := by
  rw [allowed_iff]
  obtain ⟨g, f, l⟩ := schema
  unfold refusal
  dsimp only
  -- first one conjunct for each branch of the guard, then what the branch says of the rows
  simp only [refused_else_iff]
  simp only [schemaState, stateOf, countAwaiting, countMissing, countMismatched]
  cases target <;> cases g <;> cases f <;> cases l <;>
    simp [writeColumns, readColumns, Phase.readsGuestName, Schema.hasNew,
      Option.isSome_iff_ne_none]

end Guard

/-! ## A phase the schema is fit for -/

/-- Every column of the phase exists, and every column it leaves unset may be NULL. -/
structure Fits (schema : Schema) (p : Phase) : Prop where
  columns : ∀ c ∈ writeColumns p ++ readColumns p, (schema.column c).isSome
  nullable : ∀ c ∉ writeColumns p, ∀ i, schema.column c = some i → i.nullable = true

/-- **The guard never accepts a phase the schema is not fit for**, whatever the counts were. -/
theorem fits_of_refusal {rev : Revision} {target : Phase} {a m mm : Option Nat}
    (h : refusal target (stateOf rev.schema a m mm) = none) : Fits rev.schema target := by
  unfold refusal at h
  dsimp only at h
  simp only [refused_else_iff] at h
  obtain ⟨hguest, hnew, -, -, -, hnull, -⟩ := h
  constructor
  · intro c hc
    cases rev <;> cases target <;> cases c <;>
      simp_all [writeColumns, readColumns, Revision.schema, Schema.initial, upgrade0002,
        upgrade0003, stateOf, Schema.column]
  · intro c hc i hi
    cases rev <;> cases target <;> cases c <;>
      simp_all [writeColumns, readColumns, Revision.schema, Schema.initial, upgrade0002,
        upgrade0003, stateOf, Schema.column]
    all_goals subst hi; rfl

/-- Every phase fits the last revision. -/
theorem fits_r0003 (p : Phase) : Fits Revision.r0003.schema p :=
  fits_of_refusal (show refusal p (stateOf Revision.r0003.schema (some 0) (some 0) (some 0)) = none
    by cases p <;> rfl)

/-- At every revision `guest_name` exists, and before the last one it may not be NULL. -/
theorem guestName_column (rev : Revision) :
    ∃ i, rev.schema.guestName = some i ∧ (i.nullable = false ∨ rev = .r0003) := by
  cases rev <;> exact ⟨_, rfl, by decide⟩

/-- **What an upgrade does to a column**: it stays, it may become nullable, and a new one is. -/
theorem upgrade_column (rev target : Revision) (c : Column) :
    ((rev.schema.column c).isSome → ((rev.upgrade target).schema.column c).isSome) ∧
      ∀ i, (rev.upgrade target).schema.column c = some i →
        i.nullable = true ∨ rev.schema.column c = some i := by
  cases rev <;> cases target <;> cases c <;>
    simp [Revision.upgrade, Revision.schema, Schema.initial, upgrade0002, upgrade0003,
      Schema.column]

/-- **A phase that fits still fits after an upgrade.** -/
theorem Fits.upgrade {rev : Revision} {p : Phase} (h : Fits rev.schema p) (target : Revision) :
    Fits (rev.upgrade target).schema p where
  columns := fun c hc => (upgrade_column rev target c).1 (h.columns c hc)
  nullable := by
    intro c hc i hi
    rcases (upgrade_column rev target c).2 i hi with hn | hold
    · exact hn
    · exact h.nullable c hc i hold

/-! ## A phase stays allowed -/

/-- **The guard looks at every row on its own**: it still accepts the phase when the rows that are
    new are fit for it. -/
theorem Allowed.of_rows {sql : SqlSpace} {p : Phase} {schema : Schema}
    {rows rows' : List Reservation} (h : Allowed sql p schema rows)
    (hrows : ∀ r ∈ rows', r ∈ rows ∨
      (p.readsGuestName = true → r.guestName ≠ none) ∧
      (p.readsGuestName = false → r.firstName ≠ none ∧ nameMismatch sql r = false)) :
    Allowed sql p schema rows' where
  guest := h.guest
  new := h.new
  noMissing := by
    intro hp r hr
    rcases hrows r hr with hold | ⟨hnew, -⟩
    · exact h.noMissing hp r hold
    · exact hnew hp
  filled := by
    intro hp r hr
    rcases hrows r hr with hold | ⟨-, hnew⟩
    · exact h.filled hp r hold
    · exact (hnew hp).1
  consistent := by
    intro hp hg r hr
    rcases hrows r hr with hold | ⟨-, hnew⟩
    · exact h.consistent hp hg r hold
    · exact (hnew hp).2
  nullable := h.nullable

/-- Upgrades take no phase away. -/
theorem Allowed.upgrade {sql : SqlSpace} {p : Phase} {rev : Revision} {rows : List Reservation}
    (h : Allowed sql p rev.schema rows) (target : Revision) :
    Allowed sql p (rev.upgrade target).schema rows where
  guest := fun hp => (upgrade_column rev target .guestName).1 (h.guest hp)
  new := fun hp => ⟨(upgrade_column rev target .firstName).1 (h.new hp).1,
    (upgrade_column rev target .lastName).1 (h.new hp).2⟩
  noMissing := h.noMissing
  filled := h.filled
  consistent := by
    intro hp _
    obtain ⟨i, hi, -⟩ := guestName_column rev
    exact h.consistent hp (Option.isSome_iff_exists.mpr ⟨i, hi⟩)
  nullable := by
    intro hp i hi
    rcases (upgrade_column rev target .guestName).2 i hi with hn | hold
    · exact hn
    · exact h.nullable hp i hold

/-! ## The phase after a restart -/

/-- **A restart ends in an allowed phase, if there is one**; else in the configured one. -/
theorem reconcile_cases (configured : Phase) (state : SchemaState) :
    refusal (reconcile configured state) state = none ∨
      (∀ p, refusal p state ≠ none) ∧ reconcile configured state = configured := by
  unfold reconcile
  split
  · next h => exact Or.inl h
  · next h =>
    split
    · next p hp =>
      have hnone : (refusal p state).isNone = true :=
        List.find?_some (p := fun p => (refusal p state).isNone) hp
      exact Or.inl (Option.isNone_iff_eq_none.mp hnone)
    · next hnone =>
      refine Or.inr ⟨fun p hp => ?_, rfl⟩
      have hall := List.find?_eq_none.mp hnone p (by cases p <;> decide)
      rw [hp] at hall
      exact hall rfl

end TableFlow
