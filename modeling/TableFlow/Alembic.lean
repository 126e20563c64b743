/-
  The four migrations of `alembic/versions`, statement by statement.

      revision  upgrade                                  downgrade
      --------  ---------------------------------------  -------------------------------------------
      0001      create the table                         drop it
      0002      add first_name, last_name; partial index drop them
      0003      guest_name DROP NOT NULL                 rebuild the missing names; SET NOT NULL
      0004      no name unfilled; NOT NULL; drop         add guest_name; rebuild it; partial index;
                guest_name                               DROP NOT NULL

  A migration is one transaction, version stamp included, except for the middle of 0004: its eight
  statements commit one by one, so what an attempt has executed before it is aborted stays.

  `alembic` is the machine of these commands, with any content that the table takes written between
  them.  Along all its runs no row lacks a value that its schema asks for (`Legal`).

  With a schema that is not only one of a finished revision, the guard of the phases is looked at
  again (`guard_sound_for_schema_iff`): a phase it accepts is served by the schema, except that
  `legacy` is accepted while `first_name` or `last_name` is NOT NULL.
-/
import TableFlow.Lib.Script
import TableFlow.PhaseGuard

namespace TableFlow.Alembic

open Lib

/-! ## The database -/

/-- `alembic_version`. -/
inductive Version
  | base
  | r0001
  | r0002
  | r0003
  | r0004
  deriving DecidableEq, Repr

/-- `ck_reservations_first_name_nn` or `ck_reservations_last_name_nn`: CHECK (column IS NOT NULL). -/
structure Check where
  column : Column
  /-- `false` after NOT VALID: rows that are written are checked, those in the table were not. -/
  validated : Bool
  deriving DecidableEq, Repr

/-- What the migrations change.  At `base` there is no table, so nothing in it. -/
structure Db where
  version : Version
  schema : Schema
  checks : List Check
  /-- `idx_reservations_backfill` exists. -/
  backfillIndex : Bool
  rows : List Reservation
  clock : Nat
  deriving DecidableEq

/-- No table `reservations` yet. -/
def Db.base : Db := ⟨.base, ⟨none, none, none⟩, [], false, [], 1⟩

/-- A check of 0004 on the column is there. -/
def Db.hasCheck (db : Db) (c : Column) : Bool := db.checks.any (·.column == c)

/-- Some row has no value in the column. -/
def Db.hasNull (db : Db) (c : Column) : Bool := db.rows.any fun r => (r.get c).isNone

/-! ## Statements -/

/-- The statements of the migrations. -/
inductive Ddl
  | addColumn (c : Column)
  | dropColumn (c : Column)
  | setNotNull (c : Column)
  | dropNotNull (c : Column)
  /-- `ADD CONSTRAINT .. CHECK (c IS NOT NULL) NOT VALID`. -/
  | addCheck (c : Column)
  | validateCheck (c : Column)
  | dropCheck (c : Column)
  | createIndex
  | dropIndex
  /-- `UPDATE .. SET guest_name = btrim(concat_ws(' ', first_name, last_name))`, of all rows or of
      those WHERE guest_name IS NULL. -/
  | rebuild (onlyMissing : Bool)
  deriving DecidableEq, Repr

/-- Why PostgreSQL does not execute a statement. -/
inductive DdlError
  | undefinedColumn (c : Column)
  | duplicateColumn (c : Column)
  | undefinedConstraint (c : Column)
  | duplicateConstraint (c : Column)
  | undefinedIndex
  | duplicateIndex
  | notNullViolation (c : Column)
  | checkViolation (c : Column)
  | stringTooLong (c : Column)
  deriving DecidableEq, Repr

/-- The schema with another entry for the column. -/
def setColumn (s : Schema) (c : Column) (i : Option ColumnInfo) : Schema :=
  match c with
  | .guestName => { s with guestName := i }
  | .firstName => { s with firstName := i }
  | .lastName => { s with lastName := i }

/-- The row without its value in the column. -/
def clear (r : Reservation) (c : Column) : Reservation :=
  match c with
  | .guestName => { r with guestName := none }
  | .firstName => { r with firstName := none }
  | .lastName => { r with lastName := none }

/-- The row version `rebuild` writes. -/
def rebuildRow (r : Reservation) (version : Nat) : Reservation :=
  { r with guestName := some (rebuilt r.firstName r.lastName), version := version }

/-- The WHERE of `rebuild`. -/
def rebuilds (onlyMissing : Bool) (r : Reservation) : Bool := !onlyMissing || r.guestName.isNone

/-- What stops `rebuild` at a row: a name longer than its column, or a check constraint, which holds
    for every row version that is written. -/
def rebuildError (db : Db) (r : Reservation) : Option DdlError :=
  if tooLong (rebuildRow r db.clock) .guestName then some (.stringTooLong .guestName)
  else (db.checks.find? fun k => ((rebuildRow r db.clock).get k.column).isNone).map
    fun k => .checkViolation k.column

/-- **One statement.** -/
def exec : Ddl → Db → Except DdlError Db
  | .addColumn c, db =>
    if (db.schema.column c).isSome then .error (.duplicateColumn c)
    else .ok { db with schema := setColumn db.schema c (some ⟨true⟩) }
  | .dropColumn c, db =>
    if (db.schema.column c).isNone then .error (.undefinedColumn c)
    else .ok { db with
      schema := setColumn db.schema c none
      -- indexes and constraints on the column go with it
      checks := db.checks.filter (·.column != c)
      backfillIndex := db.backfillIndex && c != .firstName
      rows := db.rows.map (clear · c) }
  | .setNotNull c, db =>
    if (db.schema.column c).isNone then .error (.undefinedColumn c)
    else if db.hasNull c then .error (.notNullViolation c)
    else .ok { db with schema := setColumn db.schema c (some ⟨false⟩) }
  | .dropNotNull c, db =>
    if (db.schema.column c).isNone then .error (.undefinedColumn c)
    else .ok { db with schema := setColumn db.schema c (some ⟨true⟩) }
  | .addCheck c, db =>
    if db.hasCheck c then .error (.duplicateConstraint c)
    else if (db.schema.column c).isNone then .error (.undefinedColumn c)
    else .ok { db with checks := db.checks ++ [⟨c, false⟩] }
  | .validateCheck c, db =>
    if db.hasCheck c = false then .error (.undefinedConstraint c)
    else if db.hasNull c then .error (.checkViolation c)
    else .ok { db with
      checks := db.checks.map fun k => if k.column = c then { k with validated := true } else k }
  | .dropCheck c, db =>
    if db.hasCheck c then .ok { db with checks := db.checks.filter (·.column != c) }
    else .error (.undefinedConstraint c)
  | .createIndex, db =>
    if db.backfillIndex then .error .duplicateIndex
    else if db.schema.firstName.isNone then .error (.undefinedColumn .firstName)
    else .ok { db with backfillIndex := true }
  | .dropIndex, db =>
    if db.backfillIndex then .ok { db with backfillIndex := false } else .error .undefinedIndex
  | .rebuild onlyMissing, db =>
    match [Column.guestName, .firstName, .lastName].find? fun c => (db.schema.column c).isNone with
    | some c => .error (.undefinedColumn c)
    | none =>
      match (db.rows.filter (rebuilds onlyMissing)).findSome? (rebuildError db) with
      | some e => .error e
      | none => .ok { db with
          rows := db.rows.map fun r =>
            if rebuilds onlyMissing r then rebuildRow r db.clock else r
          clock := db.clock + 1 }

/-! ## Revisions -/

namespace Db

/-- A migration in one transaction. -/
def migrate (db : Db) (script : List Ddl) (version : Version) : Except DdlError Db :=
  (transaction exec script db).map fun t => { t with version := version }

/-- `CREATE TABLE reservations`. -/
def upgrade0001 (db : Db) : Db :=
  { db with version := .r0001, schema := .initial, checks := [], backfillIndex := false, rows := [] }

/-- `DROP TABLE reservations`. -/
def downgrade0001 (db : Db) : Db := { base with clock := db.clock }

/-- `upgrade` of 0002: the new columns, and the index for the backfill. -/
def upgrade0002 (db : Db) : Except DdlError Db :=
  db.migrate [.addColumn .firstName, .addColumn .lastName, .createIndex] .r0002

/-- `downgrade` of 0002. -/
def downgrade0002 (db : Db) : Except DdlError Db :=
  db.migrate [.dropIndex, .dropColumn .lastName, .dropColumn .firstName] .r0001

/-- `upgrade` of 0003: `guest_name` may be NULL. -/
def upgrade0003 (db : Db) : Except DdlError Db := db.migrate [.dropNotNull .guestName] .r0003

/-- `downgrade` of 0003: the missing names are rebuilt first. -/
def downgrade0003 (db : Db) : Except DdlError Db :=
  db.migrate [.rebuild true, .setNotNull .guestName] .r0002

/-- The half of `NOT_NULL_STEPS` that makes one column NOT NULL. -/
def notNullStepsOf (c : Column) : List Ddl :=
  [.addCheck c, .validateCheck c, .setNotNull c, .dropCheck c]

/-- `NOT_NULL_STEPS`. -/
def notNullSteps : List Ddl := notNullStepsOf .firstName ++ notNullStepsOf .lastName

/-- Why `upgrade` of 0004 fails. -/
inductive ContractError
  /-- `RuntimeError`. -/
  | unmigrated (message : String)
  | database (e : DdlError)
  deriving DecidableEq, Repr

/-- `SELECT count(*) .. WHERE first_name IS NULL`. -/
def unmigrated (db : Db) : Nat := db.rows.countP (·.firstName.isNone)

/-- The database after `upgrade` of 0004, and why it has failed if it has. -/
def upgrade0004 (db : Db) : Db × Option ContractError :=
  if db.unmigrated ≠ 0 then
    (db, some (.unmigrated
      s!"{db.unmigrated} reservations have no first_name. Run scripts/backfill_names.py before contracting."))
  else
    match autocommit exec notNullSteps db with
    | (t, some e) => (t, some (.database e))
    | (t, none) =>
      match t.migrate [.dropIndex, .dropColumn .guestName] .r0004 with
      | .ok t' => (t', none)
      | .error e => (t, some (.database e))

/-- The database after an attempt at 0004 that is aborted at its statement `k`: those of the eight
    that have been executed by then stay, and the transaction after them is rolled back. -/
def abort0004 (db : Db) (k : Nat) : Db :=
  if db.unmigrated ≠ 0 then db else (autocommit exec (notNullSteps.take k) db).1

/-- `downgrade` of 0004: every name is rebuilt. -/
def downgrade0004 (db : Db) : Except DdlError Db :=
  db.migrate [.addColumn .guestName, .rebuild false, .createIndex, .dropNotNull .lastName,
    .dropNotNull .firstName] .r0003

/-- `alembic upgrade +1`. -/
def upgrade (db : Db) : Db :=
  match db.version with
  | .base => db.upgrade0001
  | .r0001 => db.upgrade0002.toOption.getD db
  | .r0002 => db.upgrade0003.toOption.getD db
  | .r0003 => db.upgrade0004.1
  | .r0004 => db

/-- `alembic downgrade -1`. -/
def downgrade (db : Db) : Db :=
  match db.version with
  | .base => db
  | .r0001 => db.downgrade0001
  | .r0002 => db.downgrade0002.toOption.getD db
  | .r0003 => db.downgrade0003.toOption.getD db
  | .r0004 => db.downgrade0004.toOption.getD db

/-- The table takes a row version: its columns' widths and NOT NULLs, the constraints of 0001, and
    the check constraints, validated or not. -/
def takes (db : Db) (r : Reservation) : Bool :=
  (rowError db.schema r).isNone && db.checks.all (fun k => (r.get k.column).isSome) &&
    [Column.guestName, .firstName, .lastName].all fun c =>
      (db.schema.column c).isSome || (r.get c).isNone

end Db

/-- What happens to the database. -/
inductive Command
  | upgrade
  | downgrade
  /-- An upgrade to 0004, aborted at its statement `k`. -/
  | abort (k : Nat)
  /-- Any change of the content: rows stay, go, and come. -/
  | write (rows : List Reservation)

/-- The database under any sequence of migrations. -/
def alembic : Machine Db Command where
  step db
    | .upgrade => some db.upgrade
    | .downgrade => some db.downgrade
    | .abort k => if db.version = .r0003 then some (db.abort0004 k) else none
    | .write rows =>
      if db.version ≠ .base ∧ ∀ r ∈ rows, r ∈ db.rows ∨ db.takes r = true then
        some { db with rows := rows }
      else none

/-! ## No row lacks a value that is asked for -/

@[simp] theorem column_setColumn (s : Schema) (c c' : Column) (i : Option ColumnInfo) :
    (setColumn s c i).column c' = if c' = c then i else s.column c' := by
  cases c <;> cases c' <;> rfl

@[simp] theorem get_clear (r : Reservation) (c c' : Column) :
    (clear r c).get c' = if c' = c then none else r.get c' := by
  cases c <;> cases c' <;> rfl

theorem get_rebuildRow (r : Reservation) (v : Nat) (c : Column) :
    (rebuildRow r v).get c
      = if c = .guestName then some (rebuilt r.firstName r.lastName) else r.get c := by
  cases c <;> rfl

/-- Where there is no check constraint only the width of the column can stop `rebuild`. -/
theorem rebuildError_of_length {db : Db} {r : Reservation} (hchecks : db.checks = [])
    (hfit : (rebuilt r.firstName r.lastName).length ≤ 120) : rebuildError db r = none := by
  have hlong : tooLong (rebuildRow r db.clock) .guestName = false := by
    rw [tooLong_eq_false]
    intro v hv
    rw [get_rebuildRow, if_pos rfl] at hv
    rw [← Option.some.inj hv]
    exact hfit
  unfold rebuildError
  rw [hlong, if_neg (by decide), hchecks]
  rfl

/-- No row lacks a value in a column that is NOT NULL. -/
def Legal (db : Db) : Prop := ∀ r ∈ db.rows, ∀ c, unset db.schema r c = false

theorem legal_iff {db : Db} : Legal db ↔ ∀ r ∈ db.rows, ∀ c i, db.schema.column c = some i →
    i.nullable = false → r.get c ≠ none :=
  forall₂_congr fun _ _ => forall_congr' fun _ => unset_eq_false

/-- A column that becomes nullable, or goes, asks for nothing. -/
theorem Legal.set_nullable {db : Db} (h : Legal db) {c : Column} {i : Option ColumnInfo}
    (hi : ∀ j, i = some j → j.nullable = true) :
    Legal { db with schema := setColumn db.schema c i } := by
  rw [legal_iff] at h ⊢
  intro r hr c' j hj hn
  have hj' : (if c' = c then i else db.schema.column c') = some j := column_setColumn .. ▸ hj
  split at hj'
  · rw [hi j hj'] at hn
    exact absurd hn (by decide)
  · exact h r hr c' j hj' hn

/-- The database with the column NOT NULL. -/
def Db.required (db : Db) (c : Column) : Db :=
  { db with schema := setColumn db.schema c (some ⟨false⟩) }

/-! ### What a statement does -/

/-- A statement that is executed, with what it has checked. -/
inductive Executed (db : Db) : Ddl → Db → Prop
  | addColumn {c : Column} : db.schema.column c = none →
      Executed db (.addColumn c) { db with schema := setColumn db.schema c (some ⟨true⟩) }
  | dropColumn {c : Column} : (db.schema.column c).isSome = true →
      Executed db (.dropColumn c) { db with
        schema := setColumn db.schema c none
        checks := db.checks.filter (·.column != c)
        backfillIndex := db.backfillIndex && c != .firstName
        rows := db.rows.map (clear · c) }
  | setNotNull {c : Column} : (db.schema.column c).isSome = true → db.hasNull c = false →
      Executed db (.setNotNull c) { db with schema := setColumn db.schema c (some ⟨false⟩) }
  | dropNotNull {c : Column} : (db.schema.column c).isSome = true →
      Executed db (.dropNotNull c) { db with schema := setColumn db.schema c (some ⟨true⟩) }
  | addCheck {c : Column} : db.hasCheck c = false → (db.schema.column c).isSome = true →
      Executed db (.addCheck c) { db with checks := db.checks ++ [⟨c, false⟩] }
  | validateCheck {c : Column} : db.hasCheck c = true → db.hasNull c = false →
      Executed db (.validateCheck c) { db with
        checks := db.checks.map fun k => if k.column = c then { k with validated := true } else k }
  | dropCheck {c : Column} : db.hasCheck c = true →
      Executed db (.dropCheck c) { db with checks := db.checks.filter (·.column != c) }
  | createIndex : db.backfillIndex = false → db.schema.firstName.isSome = true →
      Executed db .createIndex { db with backfillIndex := true }
  | dropIndex : db.backfillIndex = true → Executed db .dropIndex { db with backfillIndex := false }
  | rebuild {onlyMissing : Bool} : (∀ c, (db.schema.column c).isSome = true) →
      (∀ r ∈ db.rows, rebuilds onlyMissing r = true → rebuildError db r = none) →
      Executed db (.rebuild onlyMissing) { db with
        rows := db.rows.map fun r => if rebuilds onlyMissing r then rebuildRow r db.clock else r
        clock := db.clock + 1 }

theorem refused_else_ok_iff {c : Bool} {e : DdlError} {x : Except DdlError Db} {t : Db} :
    (if c = true then .error e else x) = .ok t ↔ c = false ∧ x = .ok t := by
  cases c <;> simp

/-- **A statement that is executed has met its conditions**, and the other way round. -/
theorem exec_ok_iff {d : Ddl} {db t : Db} : exec d db = .ok t ↔ Executed db d t := by
  constructor
  · intro h
    cases d with
    | addColumn c =>
      obtain ⟨hc, h⟩ := refused_else_ok_iff.mp h
      exact Except.ok.inj h ▸ .addColumn (by simpa using hc)
    | dropColumn c =>
      obtain ⟨hc, h⟩ := refused_else_ok_iff.mp h
      exact Except.ok.inj h ▸ .dropColumn (by simpa using hc)
    | setNotNull c =>
      obtain ⟨hc, h⟩ := refused_else_ok_iff.mp h
      obtain ⟨hnull, h⟩ := refused_else_ok_iff.mp h
      exact Except.ok.inj h ▸ .setNotNull (by simpa using hc) hnull
    | dropNotNull c =>
      obtain ⟨hc, h⟩ := refused_else_ok_iff.mp h
      exact Except.ok.inj h ▸ .dropNotNull (by simpa using hc)
    | addCheck c =>
      obtain ⟨hcheck, h⟩ := refused_else_ok_iff.mp h
      obtain ⟨hc, h⟩ := refused_else_ok_iff.mp h
      exact Except.ok.inj h ▸ .addCheck hcheck (by simpa using hc)
    | validateCheck c =>
      simp only [exec] at h
      split at h
      · exact absurd h (by simp)
      · next hcheck =>
        obtain ⟨hnull, h⟩ := refused_else_ok_iff.mp h
        exact Except.ok.inj h ▸ .validateCheck (by simpa using hcheck) hnull
    | dropCheck c =>
      simp only [exec] at h
      split at h
      · next hcheck => exact Except.ok.inj h ▸ .dropCheck hcheck
      · exact absurd h (by simp)
    | createIndex =>
      obtain ⟨hi, h⟩ := refused_else_ok_iff.mp h
      obtain ⟨hc, h⟩ := refused_else_ok_iff.mp h
      exact Except.ok.inj h ▸ .createIndex hi (by simpa using hc)
    | dropIndex =>
      simp only [exec] at h
      split at h
      · next hi => exact Except.ok.inj h ▸ .dropIndex hi
      · exact absurd h (by simp)
    | rebuild onlyMissing =>
      simp only [exec] at h
      split at h
      · exact absurd h (by simp)
      · next hcolumns =>
        split at h
        · exact absurd h (by simp)
        · next hrows =>
          have hcolumns := find?_columns_eq_none.mp hcolumns
          refine Except.ok.inj h ▸ .rebuild (fun c => by simpa using hcolumns c) fun r hr hw => ?_
          exact List.findSome?_eq_none_iff.mp hrows r (List.mem_filter.mpr ⟨hr, hw⟩)
  · intro h
    cases h with
    | addColumn hc => simp [exec, hc]
    | dropColumn hc => simp [exec, Option.isSome_iff_ne_none.mp hc]
    | setNotNull hc hnull => simp [exec, Option.isSome_iff_ne_none.mp hc, hnull]
    | dropNotNull hc => simp [exec, Option.isSome_iff_ne_none.mp hc]
    | addCheck hcheck hc => simp [exec, hcheck, Option.isSome_iff_ne_none.mp hc]
    | validateCheck hcheck hnull => simp [exec, hcheck, hnull]
    | dropCheck hcheck => simp [exec, hcheck]
    | createIndex hi hc => simp [exec, hi, Option.isSome_iff_ne_none.mp hc]
    | dropIndex hi => simp [exec, hi]
    | @rebuild onlyMissing hc hrows =>
      have hcolumns : [Column.guestName, .firstName, .lastName].find?
          (fun c => (db.schema.column c).isNone) = none :=
        find?_columns_eq_none.mpr fun c => by simpa using hc c
      have herror : (db.rows.filter (rebuilds onlyMissing)).findSome? (rebuildError db) = none :=
        List.findSome?_eq_none_iff.mpr fun r hr =>
          hrows r (List.mem_filter.mp hr).1 (List.mem_filter.mp hr).2
      simp only [exec, hcolumns, herror]

/-- **Every statement leaves the table legal.** -/
theorem exec_legal {d : Ddl} {db t : Db} (h : Legal db) (ht : exec d db = .ok t) : Legal t := by
  cases exec_ok_iff.mp ht with
  | addColumn _ => exact h.set_nullable fun j hj => by rw [← Option.some.inj hj]
  | @dropColumn c _ =>
    have hset := legal_iff.mp (h.set_nullable (c := c) (i := none) nofun)
    refine legal_iff.mpr fun r hr c' j hj hn => ?_
    obtain ⟨x, hx, rfl⟩ := List.mem_map.mp hr
    have hne : c' ≠ c := by
      rintro rfl
      rw [column_setColumn, if_pos rfl] at hj
      exact absurd hj (by simp)
    rw [get_clear, if_neg hne]
    exact hset x hx c' j hj hn
  | @setNotNull c _ hnull =>
    rw [legal_iff] at h ⊢
    intro r hr c' j hj hn
    have hj' : (if c' = c then some ⟨false⟩ else db.schema.column c') = some j :=
      column_setColumn .. ▸ hj
    split at hj'
    · next hc =>
      subst hc
      intro hnone
      have hany : db.hasNull c' = true := List.any_eq_true.mpr ⟨r, hr, by rw [hnone]; rfl⟩
      rw [hnull] at hany
      exact absurd hany (by decide)
    · exact h r hr c' j hj' hn
  | dropNotNull _ => exact h.set_nullable fun j hj => by rw [← Option.some.inj hj]
  | addCheck _ _ => exact h
  | validateCheck _ _ => exact h
  | dropCheck _ => exact h
  | createIndex _ _ => exact h
  | dropIndex _ => exact h
  | rebuild _ _ =>
    rw [legal_iff] at h ⊢
    intro r hr c i hi hn
    obtain ⟨x, hx, rfl⟩ := List.mem_map.mp hr
    split
    · rw [get_rebuildRow]
      split
      · exact Option.some_ne_none _
      · exact h x hx c i hi hn
    · exact h x hx c i hi hn

/-! ### What a command does -/

/-- What every statement keeps, a migration keeps, whether it goes through or not. -/
theorem migrate_keeps {I : Db → Prop} {db : Db} {script : List Ddl} {v : Version}
    (hkeep : ∀ d ∈ script, ∀ s t, I s → exec d s = .ok t → I t)
    (hstamp : ∀ t, I t → I { t with version := v }) (h : I db) :
    I ((db.migrate script v).toOption.getD db) := by
  unfold Db.migrate
  cases hrun : transaction exec script db with
  | ok t => exact hstamp t (transaction_keeps hkeep h hrun)
  | error e => exact h

theorem migrate_legal {db : Db} (h : Legal db) (script : List Ddl) (v : Version) :
    Legal ((db.migrate script v).toOption.getD db) :=
  migrate_keeps (fun _ _ _ _ hs ht => exec_legal hs ht) (fun _ ht => ht) h

theorem autocommit_legal {db : Db} (h : Legal db) (script : List Ddl) :
    Legal (autocommit exec script db).1 :=
  autocommit_keeps (fun _ _ _ _ hs ht => exec_legal hs ht) h

/-- 0004 leaves a legal table, completed or not. -/
theorem upgrade0004_legal {db : Db} (h : Legal db) : Legal db.upgrade0004.1 := by
  unfold Db.upgrade0004
  split
  · exact h
  · have hsteps := autocommit_legal h Db.notNullSteps
    split
    · next t e heq =>
      rw [heq] at hsteps
      exact hsteps
    · next t heq =>
      rw [heq] at hsteps
      have hdrop := migrate_legal hsteps [.dropIndex, .dropColumn .guestName] .r0004
      split
      · next t' ht' =>
        rw [ht'] at hdrop
        exact hdrop
      · exact hsteps

theorem abort0004_legal {db : Db} (h : Legal db) (k : Nat) : Legal (db.abort0004 k) := by
  unfold Db.abort0004
  split
  · exact h
  · exact autocommit_legal h _

/-- **Every command leaves a legal table.** -/
theorem legal_step {db t : Db} {cmd : Command} (h : Legal db) (ht : alembic.step db cmd = some t) :
    Legal t := by
  cases cmd with
  | upgrade =>
    obtain rfl := Option.some.inj ht
    unfold Db.upgrade
    split
    · exact fun r hr => absurd hr List.not_mem_nil
    · exact migrate_legal h _ _
    · exact migrate_legal h _ _
    · exact upgrade0004_legal h
    · exact h
  | downgrade =>
    obtain rfl := Option.some.inj ht
    unfold Db.downgrade
    split
    · exact h
    · exact fun r hr => absurd hr List.not_mem_nil
    · exact migrate_legal h _ _
    · exact migrate_legal h _ _
    · exact migrate_legal h _ _
  | abort k =>
    simp only [alembic] at ht
    split at ht
    · exact Option.some.inj ht ▸ abort0004_legal h k
    · exact absurd ht (by simp)
  | write rows =>
    simp only [alembic] at ht
    split at ht
    · next hw =>
      obtain rfl := Option.some.inj ht
      intro r hr c
      rcases hw.2 r hr with hold | hnew
      · exact h r hold c
      · simp only [Db.takes, Bool.and_eq_true, Option.isNone_iff_eq_none] at hnew
        exact unset_eq_false.mpr ((rowError_eq_none.mp hnew.1.1).filled c)
    · exact absurd ht (by simp)

theorem legal_reach {C : Db → Command → Prop} {db : Db} (h : alembic.Reach C .base db) : Legal db :=
  h.invariant (fun _ hr => absurd hr List.not_mem_nil) fun _ _ _ hs _ hst => legal_step hs hst

/-! ## The guard, on every schema -/

/-- A row version of the service: it has what is NOT NULL, and reading it gives a name. -/
structure Whole (schema : Schema) (p : Phase) (r : Reservation) : Prop where
  filled : ∀ c, unset schema r c = false
  named : ∃ n, responseName p ⟨r, readColumns p⟩ = .ok n

/-- What the service does in phase `p` goes well as far as columns, NOT NULL and names are concerned.
    A check that an aborted 0004 has left behind is no part of it: while there is one, a write that
    leaves its column unset fails. -/
structure Serves (schema : Schema) (rows : List Reservation) (p : Phase) : Prop where
  select : undefinedColumn schema (readColumns p) = none ∧
    ∀ r ∈ rows, ∃ n, responseName p ⟨r, readColumns p⟩ = .ok n
  insert : ∀ user body, undefinedColumn schema (setColumns (newReservation p user body)) = none ∧
    Whole schema p (newReservation p user body)
  update : ∀ r ∈ rows, ∀ op ed v, Op.edit p op = some ed →
    undefinedColumn schema ((ed.changes.net ⟨r, readColumns p⟩).names.map Prod.fst) = none ∧
      Whole schema p ((ed.changes.net ⟨r, readColumns p⟩).apply r v)

section Guard

variable {sql : SqlSpace} {schema : Schema} {rows : List Reservation} {p : Phase}

/-- The new columns may be NULL, as far as they exist. -/
def NewNullable (schema : Schema) : Prop :=
  ∀ i, schema.firstName = some i ∨ schema.lastName = some i → i.nullable = true

/-- **What the guard does not see**: a phase it accepts fits the schema, unless it is `legacy` and a
    new column is NOT NULL. -/
theorem fits_iff (h : Allowed sql p schema rows) :
    Fits schema p ↔ p ≠ .legacy ∨ NewNullable schema := by
  constructor
  · intro hfits
    by_cases hp : p = .legacy
    · subst hp
      refine Or.inr fun i hi => ?_
      rcases hi with hi | hi
      · exact hfits.nullable .firstName (by decide) i hi
      · exact hfits.nullable .lastName (by decide) i hi
    · exact Or.inl hp
  · intro hcond
    constructor
    · intro c hc
      have hguest := h.guest
      have hnew := h.new
      unfold Schema.hasNew at hnew
      cases p <;> cases c <;> simp_all [writeColumns, readColumns, Schema.column]
    · intro c hc i hi
      cases p with
      | legacy =>
        have hnull := hcond.resolve_left (not_not.mpr rfl)
        cases c with
        | guestName => exact absurd (by decide) hc
        | firstName => exact hnull i (Or.inl hi)
        | lastName => exact hnull i (Or.inr hi)
      | dualWrite => cases c <;> exact absurd (by decide) hc
      | readNew => cases c <;> exact absurd (by decide) hc
      | newOnly =>
        cases c with
        | guestName => exact h.nullable rfl i hi
        | firstName => exact absurd (by decide) hc
        | lastName => exact absurd (by decide) hc

theorem named_iff {r : Reservation} : (∃ n, responseName p ⟨r, readColumns p⟩ = .ok n) ↔
    (p.readsGuestName = true → r.guestName ≠ none) := by
  rw [responseName_ok_iff]
  exact and_iff_right fun _ hc => hc

/-- A name that the phase reads is there once the row is written in the phase. -/
theorem named_writeName (r : Reservation) (n : Text) :
    p.readsGuestName = true → (writeName p r n).guestName ≠ none := by
  intro hp
  rw [Deployment.writeName_guestName, if_neg (by rintro rfl; exact absurd hp (by decide))]
  exact Option.some_ne_none n

/-- **A phase that fits is served.** -/
theorem serves_of_fits (hfits : Fits schema p) (hlegal : ∀ r ∈ rows, ∀ c, unset schema r c = false)
    (hnamed : p.readsGuestName = true → ∀ r ∈ rows, r.guestName ≠ none) :
    Serves schema rows p where
  select := ⟨undefinedColumn_read hfits,
    fun r hr => named_iff.mpr fun hp => hnamed hp r hr⟩
  insert := by
    intro user body
    refine ⟨undefinedColumn_eq_none fun c hc => hfits.columns c (List.mem_append_left _ ?_),
      fun c => unset_eq_false.mpr ((newReservation_ok hfits user body).filled c),
      named_iff.mpr (named_writeName _ _)⟩
    exact mem_setColumns hc
  update := by
    intro r hr op ed v hed
    have hget := Deployment.get_edited (s := { Deployment.Site.start with phase := p }) hed r v
    refine ⟨undefinedColumn_eq_none fun c hc => hfits.columns c (List.mem_append_left _ ?_),
      fun c => unset_eq_false.mpr fun i hi hn => ?_, named_iff.mpr fun hp => ?_⟩
    · obtain ⟨a, ha, rfl⟩ := List.mem_map.mp hc
      exact (edit_valid hed).2 a (List.mem_filter.mp ha).1
    · rw [apply_get]
      exact get_assignNames_ne_none (Or.inl (unset_eq_false.mp (hlegal r hr c) i hi hn))
    · have hg := hget .guestName
      intro hnone
      have hnone' : (op.guestName.elim r (writeName p r)).guestName = none :=
        hg.symm.trans hnone
      cases hop : op.guestName with
      | none =>
        rw [hop] at hnone'
        exact hnamed hp r hr hnone'
      | some n =>
        rw [hop] at hnone'
        exact named_writeName r n hp hnone'

/-- A schema that serves `legacy` asks for no new column. -/
theorem newNullable_of_serves (h : Serves schema rows .legacy) : NewNullable schema := by
  have hfilled := (h.insert customer lunchForTwo).2.filled
  intro i hi
  by_contra hn
  have hn := eq_false_of_ne_true hn
  rcases hi with hi | hi
  · exact unset_eq_false.mp (hfilled .firstName) i hi hn rfl
  · exact unset_eq_false.mp (hfilled .lastName) i hi hn rfl

end Guard

/-- **The guard is sound for every schema the migrations leave**, finished or aborted, and every
    content, except that it lets `legacy` in when a new column is NOT NULL. -/
theorem guard_sound_for_schema_iff (sql : SqlSpace) {db : Db} {p : Phase}
    (hreach : alembic.Reach (fun _ _ => True) .base db)
    (hok : refusal p (schemaState sql db.schema db.rows) = none) :
    Serves db.schema db.rows p ↔ p ≠ .legacy ∨ NewNullable db.schema := by
  have hallowed := (refusal_eq_none_iff p).mp hok
  constructor
  · intro h
    by_cases hp : p = .legacy
    · subst hp
      exact Or.inr (newNullable_of_serves h)
    · exact Or.inl hp
  · intro hcond
    exact serves_of_fits ((fits_iff hallowed).mpr hcond) (legal_reach hreach) hallowed.noMissing

/-- A booking of `dual_write` at revision 0003, and an upgrade to 0004 that gets as far as making
    `first_name` NOT NULL. -/
def abortedRun : List Command :=
  [.upgrade, .upgrade, .upgrade, .write [newReservation .dualWrite customer lunchForTwo], .abort 3]

/-- **An aborted upgrade does not disturb `new_only`.** -/
theorem aborted_serves_new_only : ∃ db, alembic.run .base abortedRun = some db ∧
    Serves db.schema db.rows .newOnly := by
  obtain ⟨db, hdb⟩ : ∃ db, alembic.run .base abortedRun = some db :=
    Option.isSome_iff_exists.mp (by decide)
  have hok : refusal .newOnly (schemaState .cLocale db.schema db.rows) = none :=
    Machine.run_eval _ (fun db => refusal .newOnly (schemaState .cLocale db.schema db.rows)) hdb
      (by decide)
  exact ⟨db, hdb, (guard_sound_for_schema_iff .cLocale (.of_run hdb) hok).mpr (Or.inl nofun)⟩

/-- **It makes `legacy` fail, and the guard lets `legacy` in**: a booking leaves `first_name` unset. -/
theorem aborted_breaks_legacy : ¬ ∀ (sql : SqlSpace) (db : Db) (p : Phase),
    alembic.Reach (fun _ _ => True) .base db →
    refusal p (schemaState sql db.schema db.rows) = none → Serves db.schema db.rows p := by
  intro h
  obtain ⟨db, hdb⟩ : ∃ db, alembic.run .base abortedRun = some db :=
    Option.isSome_iff_exists.mp (by decide)
  have hok : refusal .legacy (schemaState .cLocale db.schema db.rows) = none :=
    Machine.run_eval _ (fun db => refusal .legacy (schemaState .cLocale db.schema db.rows)) hdb
      (by decide)
  have hschema : db.schema.firstName = some ⟨false⟩ :=
    Machine.run_eval _ (fun db => db.schema.firstName) hdb (by decide)
  have hnull := newNullable_of_serves (h .cLocale db .legacy (.of_run hdb) hok)
  exact absurd (hnull _ (Or.inl hschema)) (by decide)

end TableFlow.Alembic
