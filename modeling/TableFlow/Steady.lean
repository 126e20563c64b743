/-
  Runs in which the phase is not switched.

  Every request then reads and writes the columns of one phase (`LoadedIn`, `Setting`), so every
  change, committed or in progress, has exactly what its request sets (`Sets`), whatever ran
  beside it.  `Answers` and `Editing` say as much of single requests in a phase that may change.
-/
import TableFlow.Answers
import TableFlow.Editing

namespace TableFlow

open Lib

/-- No phase change is asked for. -/
def NoSwitch (_ : World) (l : Label) : Prop := ∀ target, l ≠ .arrive (.put target)

/-! ## What a request sets -/

/-- The party size a request brings. -/
def Request.partySize : Request → Option Nat
  | .post _ body => some body.partySize
  | .onOne _ _ (.patch _ body) => body.partySize
  | _ => none

/-- The status a request brings. -/
def Request.status : Request → Option ReservationStatus
  | .post _ _ => some .confirmed
  | .onOne _ _ (.patch _ body) => body.status
  | .onOne _ _ (.delete _) => some .cancelled
  | _ => none

/-- The row has what the request sets, the name in the columns that phase `p` writes. -/
structure Sets (p : Phase) (req : Request) (r : Reservation) : Prop where
  name : ∀ n, req.guestName = some n → ∀ c ∈ writeColumns p, r.get c = some (nameValue n c)
  partySize : ∀ k, req.partySize = some k → r.partySize = k
  status : ∀ s, req.status = some s → r.status = s

/-- A booking has what its request sets. -/
theorem sets_booking (p : Phase) (user : User) (body : ReservationCreate) :
    Sets p (.post user body) (newReservation p user body) where
  name := by
    intro n hn c hc
    obtain rfl := Option.some.inj hn
    rw [newReservation_get, if_pos hc]
  partySize := by
    intro k hk
    obtain rfl := Option.some.inj hk
    exact assignNames_partySize _ _
  status := by
    intro s hs
    obtain rfl := Option.some.inj hs
    exact assignNames_status _ _

theorem Sets.inserted {p : Phase} {req : Request} {r : Reservation} (h : Sets p req r) (env : Env)
    (id v : Nat) : Sets p req (inserted env r id v) :=
  ⟨fun n hn c hc => (inserted_get env r id v c).trans (h.name n hn c hc), h.partySize, h.status⟩

/-- **The row an edit leaves has what the edit sets**, also where it was there before. -/
theorem sets_edit {user : User} {id : Nat} {op : Op} {p : Phase} {ed : Edit}
    (hed : op.edit p = some ed) (l : Loaded) (v : Nat) :
    Sets p (.onOne user id op) ((ed.changes.net l).apply l.row v) := by
  rw [edit_apply hed l v]
  refine ⟨fun n hn c hc => ?_, fun k hk => ?_, fun s hs => ?_⟩
  · have hn : op.guestName = some n := hn
    rw [hn]
    have := get_writeName p l.row n c
    rw [if_pos hc] at this
    cases c <;> exact this
  · cases op with
    | patch ifMatch body =>
      obtain rfl := Option.some.inj hed
      have hk : body.partySize = some k := hk
      show body.partySize.getD _ = k
      rw [hk]
      rfl
    | _ => exact absurd hk (by simp [Request.partySize])
  · cases op with
    | patch ifMatch body =>
      obtain rfl := Option.some.inj hed
      have hs : body.status = some s := hs
      show body.status.getD _ = s
      rw [hs]
      rfl
    | delete ifMatch =>
      obtain rfl := Option.some.inj hed
      exact Option.some.inj hs
    | get => exact absurd hs (by simp [Request.status])

/-- A batch sets nothing that a request brings. -/
theorem sets_batch (p : Phase) (lastId size : Nat) (r : Reservation) :
    Sets p (.batch lastId size) r :=
  ⟨fun _ hn => absurd hn (by simp [Request.guestName]),
    fun _ hk => absurd hk (by simp [Request.partySize]),
    fun _ hs => absurd hs (by simp [Request.status])⟩

/-! ## One phase -/

/-- What a request is about to write has what it sets. -/
def Setting (p : Phase) (req : Request) : Stage → Prop
  | .inserting r => Sets p req r
  | .updating l ch => ∀ v, Sets p req (ch.apply l.row v)
  | _ => True

/-- The phase is `p`, and no request has known another. -/
structure Steady (p : Phase) (w : World) : Prop where
  phase : w.phase = p
  noPut : ∀ t ∈ w.tasks, ∀ target, t.request ≠ .put target
  columns : ∀ t ∈ w.tasks, LoadedIn p t.stage
  setting : ∀ t ∈ w.tasks, Setting p t.request t.stage
  written : Written (fun req _ after => Sets p req after) w

section Stretch

variable {env : Env} {init : List Reservation} {p : Phase} {w : World} {i : Nat}

/-- What a stretch chooses to write has what its request sets. -/
theorem Act.setting {req : Request} {st st' : Stage} {e : Effect} (ha : Act env w i req st e st')
    (hp : w.phase = p) : Setting p req st' := by
  subst hp
  cases ha with
  | prepare _ => exact sets_booking _ _ _
  | change _ hop _ _ => exact fun v => sets_edit hop _ v
  | pass _ _ _ =>
    unfold Request.afterCheck
    split <;> trivial
  | _ => trivial

/-- **Every row version a stretch writes has what its request sets.** -/
theorem Steady.write (h : Steady p w) (hinv : Inv env init w) {t : Task}
    (ht : w.tasks[i]? = some t) {before : Option Reservation} {row : Reservation} {st : Stage}
    (ha : Act env w i t.request t.stage (.write before row) st) : Sets p t.request row := by
  have hset := h.setting t (List.mem_of_getElem? ht)
  have hs := hinv.stages i t ht
  obtain ⟨req, st₀⟩ := t
  cases ha with
  | insert _ => exact hset.inserted env _ _
  | update _ hr hv _ =>
    obtain rfl := loaded_row_eq hinv hs.1 hr hv
    exact hset _
  | fillRow _ _ => exact sets_batch p _ _ _

/-- The phase stays, as nobody is there to change it. -/
theorem Steady.phase_act (h : Steady p w) {t : Task} (ht : w.tasks[i]? = some t) {e : Effect}
    {st : Stage} (ha : Act env w i t.request t.stage e st) : (w.apply i e).phase = p := by
  have hno := h.noPut t (List.mem_of_getElem? ht)
  obtain ⟨req, st₀⟩ := t
  cases ha with
  | setPhase => exact absurd rfl (hno _)
  | _ => exact h.phase

theorem Steady.act (h : Steady p w) (hinv : Inv env init w) {t : Task}
    (ht : w.tasks[i]? = some t) {e : Effect} {st : Stage}
    (ha : Act env w i t.request t.stage e st) : Steady p (w.advance i t.request e st) := by
  have hold := List.mem_of_getElem? ht
  refine ⟨h.phase_act ht ha, ?_, ?_, ?_, h.written.act ht ha fun before row he => ?_⟩
  · intro t' ht'
    rcases mem_tasks_advance ht' with ht' | rfl
    · exact h.noPut t' ht'
    · exact h.noPut t hold
  · intro t' ht'
    rcases mem_tasks_advance ht' with ht' | rfl
    · exact h.columns t' ht'
    · exact ha.loadedIn h.phase (h.columns t hold)
  · intro t' ht'
    rcases mem_tasks_advance ht' with ht' | rfl
    · exact h.setting t' ht'
    · exact ha.setting h.phase
  · subst he
    exact h.write hinv ht ha

theorem Steady.abort (h : Steady p w) {t : Task} (ht : w.tasks[i]? = some t) (a : Answer) :
    Steady p (w.advance i t.request .abort (.done a)) := by
  refine ⟨h.phase, ?_, ?_, ?_, h.written.abort ht a⟩
  · intro t' ht'
    rcases mem_tasks_advance ht' with ht' | rfl
    · exact h.noPut t' ht'
    · exact h.noPut t (List.mem_of_getElem? ht)
  · intro t' ht'
    rcases mem_tasks_advance ht' with ht' | rfl
    · exact h.columns t' ht'
    · trivial
  · intro t' ht'
    rcases mem_tasks_advance ht' with ht' | rfl
    · exact h.setting t' ht'
    · trivial

theorem Steady.arrive (h : Steady p w) (hinv : Inv env init w) {req : Request}
    (hreq : ∀ target, req ≠ .put target) :
    Steady p { w with tasks := w.tasks ++ [⟨req, .arrived⟩] } := by
  have hmem : ∀ {t : Task}, t ∈ w.tasks ++ [⟨req, .arrived⟩] → t ∈ w.tasks ∨ t = ⟨req, .arrived⟩ :=
    fun ht => (List.mem_append.mp ht).imp_right List.mem_singleton.mp
  refine ⟨h.phase, ?_, ?_, ?_, h.written.arrive hinv req⟩
  · intro t ht
    rcases hmem ht with ht | rfl
    · exact h.noPut t ht
    · exact hreq
  · intro t ht
    rcases hmem ht with ht | rfl
    · exact h.columns t ht
    · trivial
  · intro t ht
    rcases hmem ht with ht | rfl
    · exact h.setting t ht
    · trivial

/-- **One step of the service without a phase change.** -/
theorem Steady.step {w' : World} {l : Label} (h : Steady p w) (hinv : Inv env init w)
    (hl : NoSwitch w l) (hst : (service env).step w l = some w') : Steady p w' := by
  cases step_cases hst with
  | arrive req => exact h.arrive hinv fun target he => hl target (congrArg _ he)
  | act ht ha _ => exact h.act hinv ht ha
  | victim ht _ => exact h.abort ht deadlock

end Stretch

section Reachable

variable {env : Env} {p : Phase} {rows : List Reservation} {nextId clock : Nat}

theorem steady_start : Steady p (.start p rows nextId clock) where
  phase := rfl
  noPut := fun _ ht => absurd ht (List.not_mem_nil)
  columns := fun _ ht => absurd ht (List.not_mem_nil)
  setting := fun _ ht => absurd ht (List.not_mem_nil)
  written := .start

/-- **Without a phase change every change has what its request sets.** -/
theorem steady_of_reach {C : World → Label → Prop} (hC : ∀ w l, C w l → NoSwitch w l) {w : World}
    (hready : Ready env p rows nextId clock)
    (hr : (service env).Reach C (.start p rows nextId clock) w) : Steady p w :=
  hr.invariant' steady_start fun _ _ _ hr h hc hst =>
    h.step (inv_of_reach hready hr) (hC _ _ hc) hst

end Reachable

end TableFlow
