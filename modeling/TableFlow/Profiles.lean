/-
  Edits of one profile at the same time.

  An edit loads the account, sends the fields that differ, and works on the row that is committed by
  then.  So two edits of one account do not lose each other's fields: **a value that was sent stays**
  until somebody sends another one for the same field (`sent_value_stays`).
-/
import TableFlow.SignIn

namespace TableFlow.Accounts

open Lib Passwords Privacy

section Edits

variable {o : Outside}

/-- The account has this value. -/
def HasValue (s : Service o) (id : Nat) (f : Field) (v : Option Text) : Prop :=
  ∃ r ∈ s.store.rows, r.id = id ∧ r.value f = v

/-- No edit of the account but `i` sends another value for the field. -/
def Undisputed (s : Service o) (i id : Nat) (f : Field) (v : Option Text) : Prop :=
  ∀ {j : Nat} {token : Option o.Token} {p : UserUpdate o} {st : Stage o} {r : UserRow}
    {v' : Option Text}, j ≠ i → s.calls[j]? = some ⟨.update token p, st⟩ → SignedIn s token r →
    r.id = id → p.changes f = some v' → v' = v

/-- Where the value is, by the stage of the edit that sends it. -/
def Sticks (s : Service o) (i id : Nat) (f : Field) (v : Option Text) : Stage o → Prop
  | .loaded r => r.id = id → r.value f = v → HasValue s id f v
  | .written id' => id' = id → ∃ d ∈ s.store.drafts, d.owner = i ∧ d.row.id = id ∧ d.row.value f = v
  | .saved id' => id' = id → HasValue s id f v
  | .done (.user _ u) => u.id = id → HasValue s id f v
  | _ => True

variable {init : List UserRow} {s s' : Service o} {l : Label o} {i id : Nat} {f : Field}
  {v : Option Text} {token : Option o.Token} {p : UserUpdate o}

/-- A value that differs from what was loaded is in the UPDATE. -/
theorem net_of_ne {r : UserRow} (hp : p.changes f = some v) (hv : r.value f ≠ v) :
    net p.changes r f = some v :=
  Option.filter_eq_some_iff.mpr ⟨hp, by simpa using hv.symm⟩

theorem net_of_eq {r : UserRow} (hp : p.changes f = some v) (hv : r.value f = v) :
    net p.changes r f = none := by
  show (p.changes f).filter _ = none
  rw [hp, hv]
  simp

theorem Undisputed.before (h : Undisputed s' i id f v) (hst : (service o).step s l = some s') :
    Undisputed s i id f v := by
  intro j token p st r v' hj hc hsigned hid hv
  obtain ⟨c', hc'⟩ := call_stays hst hc
  exact h hj hc' (hsigned.step hst) hid hv

/-- A row version keeps the value: an edit that sends the field sends this value. -/
theorem value_of_draft (hinv : Inv init s) (hown : Own s) (hrivals : Undisputed s i id f v)
    (hp : p.changes f = some v) {st₀ : Stage o} (hi : s.calls[i]? = some ⟨.update token p, st₀⟩)
    {d : Draft UserRow} (hd : d ∈ s.store.drafts) (hid : d.row.id = id)
    (hvalue : HasValue s id f v) : d.row.value f = v := by
  obtain ⟨r, hr, hrid, hrv⟩ := hvalue
  have hbase := hinv.sound.base d hd
  rw [users_key, hid, ← hrid, ← users_key o r, Store.lookup_mem hinv.sound.keys hr] at hbase
  obtain ⟨⟨req, st⟩, hc, -, hmade⟩ := hinv.drafts d hd
  rw [← hbase] at hmade
  cases req with
  | update token' p' =>
    have hsigned := hown.drafts d hd hc
    cases hmade with
    | update _ _ _ hfields =>
      rcases hfields f with hold | hsent
      · exact hold.trans hrv
      · by_cases howner : d.owner = i
        · rw [howner, hi] at hc
          obtain ⟨rfl, rfl⟩ := Request.update.inj (Call.mk.inj (Option.some.inj hc)).1
          exact Option.some.inj (hsent.symm.trans hp)
        · exact hrivals howner hc hsigned hid hsent
  | administer id' role isActive =>
    generalize hrow : d.row = row at hmade
    cases hmade
    rw [← hrv]
    cases f <;> rfl
  | signup | login | profile => cases hmade

/-- What is committed by others keeps the value. -/
theorem HasValue.apply (hinv : Inv init s) (hown : Own s) (hrivals : Undisputed s i id f v)
    (hp : p.changes f = some v) {st₀ : Stage o} (hi : s.calls[i]? = some ⟨.update token p, st₀⟩)
    (hvalue : HasValue s id f v) (j : Nat) (eff : Effect) (calls : List (Call o)) :
    HasValue ⟨s.apply j eff, calls⟩ id f v := by
  cases eff with
  | commit =>
    obtain ⟨r, hr, hrid, hrv⟩ := hvalue
    by_cases hov : s.store.overwrites (users o) j r.id = true
    · obtain ⟨d, hd, howner, hkey⟩ := Store.overwrites_iff.mp hov
      have hdid : d.row.id = id := hkey.trans hrid
      exact ⟨d.row, Store.mem_seen.mpr (.inr ⟨d, hd, howner, rfl⟩), hdid,
        value_of_draft hinv hown hrivals hp hi hd hdid ⟨r, hr, hrid, hrv⟩⟩
    · exact ⟨r, Store.mem_seen.mpr (.inl ⟨hr, by simpa using hov⟩), hrid, hrv⟩
  | none | write | abort => exact hvalue

/-- The stretches of other calls leave the value where it is. -/
theorem Sticks.apply (hinv : Inv init s) (hown : Own s) (hrivals : Undisputed s i id f v)
    (hp : p.changes f = some v) {st : Stage o} (hi : s.calls[i]? = some ⟨.update token p, st⟩)
    (h : Sticks s i id f v st) {j : Nat} (hj : i ≠ j) (eff : Effect)
    (hdrafts : ∀ d ∈ s.store.drafts, d.owner ≠ j → ∃ d' ∈ (s.apply j eff).drafts,
      d'.owner = d.owner ∧ d'.row = d.row) (calls : List (Call o)) :
    Sticks ⟨s.apply j eff, calls⟩ i id f v st := by
  cases st with
  | loaded r =>
    intro hid hv
    exact (h hid hv).apply hinv hown hrivals hp hi j eff calls
  | written id' =>
    intro hid
    obtain ⟨d, hd, howner, hkey, hv⟩ := h hid
    obtain ⟨d', hd', howner', hrow⟩ := hdrafts d hd (howner ▸ hj)
    exact ⟨d', hd', howner'.trans howner, hrow ▸ hkey, hrow ▸ hv⟩
  | saved id' =>
    intro hid
    exact (h hid).apply hinv hown hrivals hp hi j eff calls
  | done a =>
    cases a with
    | user n u =>
      intro hid
      exact HasValue.apply hinv hown hrivals hp hi (h hid) j eff calls
    | _ => trivial
  | _ => trivial

/-- The row versions of other calls stay. -/
theorem draft_stays {j : Nat} {x : Input o} {req : Request o} {st st' : Stage o} {eff : Effect}
    (hact : Act s j x req st eff st') : ∀ d ∈ s.store.drafts, d.owner ≠ j →
      ∃ d' ∈ (s.apply j eff).drafts, d'.owner = d.owner ∧ d'.row = d.row := by
  intro d hd howner
  cases hact with
  | read => exact ⟨d, hd, rfl, rfl⟩
  | write hw hunlocked =>
    rw [Inv.apply_write_drafts hunlocked]
    exact ⟨d, List.mem_append_left _ hd, rfl, rfl⟩
  | taken => exact ⟨d, Store.mem_abort.mpr ⟨hd, howner⟩, rfl, rfl⟩
  | commit => exact ⟨d, Store.mem_commit.mpr ⟨hd, howner⟩, rfl, rfl⟩

/-- **The value is on its way**, or it is there: what one stretch of the edit does. -/
theorem Sticks.act (hinv : Inv init s) (hp : p.changes f = some v) {x : Input o} {st st' : Stage o}
    {eff : Effect} (hi : s.calls[i]? = some ⟨.update token p, st⟩) (h : Sticks s i id f v st)
    (hact : Act s i x (.update token p) st eff st') (calls : List (Call o)) :
    Sticks ⟨s.apply i eff, calls⟩ i id f v st' := by
  cases hact with
  | read _ _ hread =>
    cases hread with
    | load hr =>
      intro hid hv
      obtain ⟨t, cl, id', -, -, -, hlookup, -⟩ := getCurrentUser_ok.mp hr
      exact ⟨_, (Store.lookup_some hlookup).1, hid, hv⟩
    | unchanged hnone =>
      intro hid
      refine h hid ?_
      -- the field is sent, so it had the value already
      by_contra hne
      exact absurd ((hnone f).symm.trans (net_of_ne hp hne)) nofun
    | @edited _ _ id' =>
      unfold refreshed
      split
      · trivial
      · next r hr =>
        unfold userAnswer
        split
        · intro hid
          exact h ((Store.lookup_some hr).2.symm.trans hid)
        · trivial
    | refuse | lose => trivial
  | write hw hunlocked =>
    cases hw with
    | @update _ _ r b hb =>
      intro hid
      obtain ⟨hmem, hkey⟩ := Store.lookup_some hb
      refine ⟨⟨i, some b, b.update (net p.changes r) s.store.clock, true⟩, ?_, rfl, hid, ?_⟩
      · show _ ∈ (s.apply i (.write (some b) _)).drafts
        rw [Inv.apply_write_drafts hunlocked]
        exact List.mem_append_right _ (List.mem_singleton_self _)
      show (b.update (net p.changes r) s.store.clock).value f = v
      rw [value_update]
      by_cases hv : r.value f = v
      · -- it is in the row already
        obtain ⟨r', hr', hid', hv'⟩ := h (hkey.symm.trans hid) hv
        rw [net_of_eq hp hv, Option.getD_none, ← hv', hinv.eq_of_id hmem hr' (hid.trans hid'.symm)]
      · rw [net_of_ne hp hv, Option.getD_some]
  | taken => trivial
  | commit =>
    intro hid
    obtain ⟨d, hd, howner, hkey, hv⟩ := h hid
    exact ⟨d.row, Store.mem_seen.mpr (.inr ⟨d, hd, howner, rfl⟩), hkey, hv⟩

theorem Sticks.step (hst : (service o).step s l = some s') (hinv : Inv init s) (hown : Own s)
    (hrivals : Undisputed s i id f v) (hp : p.changes f = some v)
    (h : ∀ st, s.calls[i]? = some ⟨.update token p, st⟩ → Sticks s i id f v st) {st : Stage o}
    (hi : s'.calls[i]? = some ⟨.update token p, st⟩) : Sticks s' i id f v st := by
  cases step_cases hst with
  | call req =>
    rcases slot_of_concat hi with hold | ⟨-, heq⟩
    · exact (h st hold).apply hinv hown hrivals hp hold (Nat.ne_add_one i) .none
        (fun d hd _ => ⟨d, hd, rfl, rfl⟩) _
    · obtain rfl := (Call.mk.inj heq).2
      trivial
  | @act j x c eff st' hc hact =>
    rcases getElem?_after hi with ⟨rfl, heq⟩ | ⟨hj, hold⟩
    · obtain ⟨req, st₀⟩ := c
      obtain ⟨rfl, rfl⟩ := Call.mk.inj heq
      exact (h st₀ hc).act hinv hp hc hact _
    · exact (h st hold).apply hinv hown hrivals hp hold hj eff (draft_stays hact) _
  | @fail j c hc hdone =>
    rcases getElem?_after hi with ⟨rfl, heq⟩ | ⟨hj, hold⟩
    · obtain rfl := (Call.mk.inj heq).2
      trivial
    · exact (h st hold).apply hinv hown hrivals hp hold hj .abort
        (fun d hd howner => ⟨d, Store.mem_abort.mpr ⟨hd, howner⟩, rfl, rfl⟩) _

/-- **A value that was sent stays**: once an edit is answered with 200, each field it sent has the
    value it sent, whatever runs beside, as long as no other edit of the account sends another
    value for the field. -/
theorem sent_value_stays (hdoc : o.Documented) {rows : List UserRow} {clock : Nat}
    (h0 : Store.Sound (users o) (start (o := o) rows clock).store)
    (h : (service o).Reach Unforged (start rows clock) s) {status : Nat} {u : UserOut}
    (hp : p.changes f = some v)
    (hi : s.calls[i]? = some ⟨.update token p, .done (.user status u)⟩)
    (hrivals : Undisputed s i u.id f v) : HasValue s u.id f v := by
  have hsticks := h.invariant
    (I := fun s => Inv rows s ∧ Tokens s ∧ Own s ∧ (Undisputed s i u.id f v →
      ∀ st, s.calls[i]? = some ⟨.update token p, st⟩ → Sticks s i u.id f v st))
    ⟨.start h0, .start rows clock, .start rows clock, fun _ st hc => absurd hc (by simp [start])⟩
    (by
      rintro s l s' ⟨hinv, htokens, hown, hstick⟩ hl hst
      refine ⟨hinv.step hst, htokens.step hinv hl hst, hown.step hdoc hinv htokens hst, ?_⟩
      intro hrivals' st hi'
      have hbefore : Undisputed s i u.id f v := Undisputed.before hrivals' hst
      exact Sticks.step hst hinv hown hbefore hp (hstick hbefore) hi')
  exact hsticks.2.2.2 hrivals _ hi rfl

end Edits

/-! ## Ann changes her name and her phone number -/

theorem no_fullName (n : Text) (h : none = some (some n)) : 2 ≤ n.length ∧ n.length ≤ 120 :=
  absurd h (Option.some_ne_none _).symm

theorem short_phone (p : Text) (h : some (some "555 0199".toList) = some (some p)) :
    p.length ≤ 32 := by
  rw [← Option.some.inj (Option.some.inj h)]
  decide

/-- Only the phone number is sent. -/
def phonePlease : UserUpdate sampleOutside where
  email := none
  fullName := none
  phone := some (some "555 0199".toList)
  email_valid := annaPlease.email_valid
  fullName_length := no_fullName
  phone_length := short_phone

/-- Her two requests have arrived. -/
def annAsksTwice : Service sampleOutside :=
  { annAsks with calls := annAsks.calls ++ [⟨.update (some annToken) phonePlease, .arrived⟩] }

theorem reach_annAsksTwice : (service sampleOutside).Reach Unforged onlyAnn annAsksTwice := by
  refine .tail (l := .call (.update (some annToken) phonePlease)) reach_annAsks (fun t ht => .inl ?_) rfl
  obtain rfl := Option.some.inj ht
  exact ⟨0, annLogsIn, ⟨annToken, 3600⟩, rfl, rfl⟩

/-- Both edits have loaded the account before the first of them writes it. -/
def bothEdits : List (Label sampleOutside) :=
  [.step 1 noon, .step 2 noon, .step 1 noon, .step 1 noon, .step 2 noon, .step 2 noon, .step 1 noon,
    .step 2 noon]

/-- Both edits are answered. -/
def annEdited : Service sampleOutside :=
  ((service sampleOutside).run annAsksTwice bothEdits).getD annAsksTwice

theorem run_bothEdits :
    (service sampleOutside).run annAsksTwice bothEdits = some annEdited := rfl

theorem reach_annEdited : (service sampleOutside).Reach Unforged onlyAnn annEdited := by
  refine reach_annAsksTwice.trans (.of_labels (fun l hl s => ?_) run_bothEdits)
  simp only [bothEdits, List.mem_cons, List.not_mem_nil, or_false] at hl
  rcases hl with rfl | rfl | rfl | rfl | rfl | rfl | rfl | rfl <;> trivial

/-- The name stays, though the other edit has loaded the old one. -/
theorem anna_stays : HasValue annEdited 1 .fullName (some "Anna".toList) := by
  have hcall : annEdited.calls[1]? = some ⟨.update (some annToken) annaPlease,
      .done (.user 200 { userOut ann.toAccount with
        fullName := "Anna".toList, phone := some "555 0199".toList })⟩ := rfl
  refine sent_value_stays sampleOutside_documented onlyAnn_sound reach_annEdited rfl hcall ?_
  intro j token p st r v' hj hc hsigned hid hp
  rcases j with _ | _ | _ | j
  · exact absurd hc nofun
  · exact absurd rfl hj
  · -- the other edit sends no name
    obtain rfl := (Request.update.inj (Call.mk.inj (Option.some.inj hc)).1).2
    exact absurd hp nofun
  · exact absurd hc nofun

end TableFlow.Accounts
