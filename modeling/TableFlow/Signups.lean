/-
  Signups for one email at the same time.

  `create_user` does not look the email up: it inserts, and the unique index on the email decides.
  As long as nobody changes his email, **exactly one of the signups for an email that is free gets
  it**, and all others are answered with 409 (`one_signup_wins`), however many there are and
  however they interleave, also when the emails differ in case.
-/
import TableFlow.SignIn

namespace TableFlow.Accounts

open Lib Passwords Privacy

section Race

variable {o : Outside}

/-- No edit sends another email. -/
def KeepsEmail (_ : Service o) : Label o → Prop
  | .call (.update _ p) => p.changes .email = none
  | _ => True

/-- The account of a signup is there, by a change that the signup `i` has committed. -/
def Created (s : Service o) (i : Nat) (p : UserCreate o) : Prop :=
  ∃ e ∈ s.store.history, e.owner = i ∧ e.before = none ∧ e.after.email = p.email

/-- What holds of the signups in every state. -/
structure Race (init : List UserRow) (s : Service o) : Prop where
  edits : ∀ {i : Nat} {token : Option o.Token} {p : UserUpdate o} {st : Stage o},
    s.calls[i]? = some ⟨.update token p, st⟩ → p.changes .email = none
  /-- An account has the email of the start, or that of its signup. -/
  born : ∀ r ∈ s.store.rows, (∃ r₀ ∈ init, r₀.email = r.email) ∨
    ∃ e ∈ s.store.history, e.before = none ∧ e.after.email = r.email
  /-- What a signup has committed is still there. -/
  kept : ∀ e ∈ s.store.history, e.before = none →
    ∃ r ∈ s.store.rows, r.id = e.after.id ∧ r.email = e.after.email
  saved : ∀ {i : Nat} {p : UserCreate o} {id : Nat}, s.calls[i]? = some ⟨.signup p, .saved id⟩ →
    Created s i p
  created : ∀ {i : Nat} {p : UserCreate o} {n : Nat} {u : UserOut},
    s.calls[i]? = some ⟨.signup p, .done (.user n u)⟩ → n = 201 ∧ Created s i p
  /-- A signup that was refused has found an account with its email, and has committed nothing. -/
  refused : ∀ {i : Nat} {p : UserCreate o} {e : HTTPException},
    s.calls[i]? = some ⟨.signup p, .done (.refused e)⟩ →
      e = ⟨409, "Email already registered"⟩ ∧
      (∃ r ∈ s.store.rows, o.lower r.email = o.lower p.email) ∧
      ∀ e ∈ s.store.history, e.owner ≠ i
  /-- A signup is answered in no other way. -/
  answers : ∀ {i : Nat} {p : UserCreate o} {a : Answer o}, s.calls[i]? = some ⟨.signup p, .done a⟩ →
    (∃ n u, a = .user n u) ∨ (∃ e, a = .refused e) ∨ a = .failed

variable {init : List UserRow} {s s' : Service o} {l : Label o}

theorem Race.start (rows : List UserRow) (clock : Nat) :
    Race rows (Accounts.start (o := o) rows clock) where
  edits := fun hc => absurd hc (by simp [Accounts.start])
  born := fun r hr => .inl ⟨r, hr, rfl⟩
  kept := fun _ he => absurd he List.not_mem_nil
  saved := fun hc => absurd hc (by simp [Accounts.start])
  created := fun hc => absurd hc (by simp [Accounts.start])
  refused := fun hc => absurd hc (by simp [Accounts.start])
  answers := fun hc => absurd hc (by simp [Accounts.start])

/-- Nobody's email changes. -/
theorem Race.email_of_draft (h : Race init s) (hinv : Inv init s) {d : Draft UserRow}
    (hd : d ∈ s.store.drafts) {b : UserRow} (hb : d.before = some b) : d.row.email = b.email := by
  obtain ⟨⟨req, st⟩, hc, -, hmade⟩ := hinv.drafts d hd
  rw [hb] at hmade
  generalize d.row = row at hmade ⊢
  cases hmade with
  | update _ _ _ hfields =>
    rcases hfields .email with hsame | hsent
    · exact Option.some.inj hsame
    · exact absurd ((h.edits hc).symm.trans hsent) nofun
  | administer => rfl

/-! ### What one stretch leaves -/

theorem history_mono {e : Lib.Entry UserRow} (he : e ∈ s.store.history) (i : Nat) (eff : Effect) :
    e ∈ (s.apply i eff).history := by
  cases eff with
  | commit => exact Store.mem_commit_history.mpr (.inl he)
  | none | write | abort => exact he

/-- An account keeps its email. -/
theorem Race.email_stays (h : Race init s) (hinv : Inv init s) {r : UserRow}
    (hr : r ∈ s.store.rows) (i : Nat) (eff : Effect) :
    ∃ r' ∈ (s.apply i eff).rows, r'.id = r.id ∧ r'.email = r.email := by
  cases eff with
  | commit =>
    by_cases hov : s.store.overwrites (users o) i r.id = true
    · obtain ⟨d, hd, howner, hkey⟩ := Store.overwrites_iff.mp hov
      have hbase := hinv.sound.base d hd
      rw [hkey, ← users_key o r, Store.lookup_mem hinv.sound.keys hr] at hbase
      exact ⟨d.row, Store.mem_seen.mpr (.inr ⟨d, hd, howner, rfl⟩), hkey,
        h.email_of_draft hinv hd hbase.symm⟩
    · exact ⟨r, Store.mem_seen.mpr (.inl ⟨hr, by simpa using hov⟩), rfl, rfl⟩
  | none | write | abort => exact ⟨r, hr, rfl, rfl⟩

theorem Race.born_apply (h : Race init s) (hinv : Inv init s) {i : Nat} {eff : Effect} {r : UserRow}
    (hr : r ∈ (s.apply i eff).rows) : (∃ r₀ ∈ init, r₀.email = r.email) ∨
      ∃ e ∈ (s.apply i eff).history, e.before = none ∧ e.after.email = r.email := by
  have hold : ∀ b ∈ s.store.rows, (∃ r₀ ∈ init, r₀.email = b.email) ∨
      ∃ e ∈ (s.apply i eff).history, e.before = none ∧ e.after.email = b.email := by
    intro b hb
    refine (h.born b hb).imp_right ?_
    rintro ⟨e, he, hrest⟩
    exact ⟨e, history_mono he i eff, hrest⟩
  cases eff with
  | commit =>
    rcases Store.mem_seen.mp hr with ⟨hr, -⟩ | ⟨d, hd, howner, rfl⟩
    · exact hold r hr
    · cases hbefore : d.before with
      | none =>
        exact .inr ⟨d.entry, Store.mem_commit_history.mpr (.inr ⟨d, hd, howner, rfl⟩), hbefore, rfl⟩
      | some b =>
        have hb : b ∈ s.store.rows :=
          (Store.lookup_some ((hinv.sound.base d hd).trans hbefore)).1
        rw [h.email_of_draft hinv hd hbefore]
        exact hold b hb
  | none | write | abort => exact hold r hr

theorem Race.kept_apply (h : Race init s) (hinv : Inv init s) {i : Nat} {eff : Effect}
    {e : Lib.Entry UserRow} (he : e ∈ (s.apply i eff).history) (hnone : e.before = none) :
    ∃ r ∈ (s.apply i eff).rows, r.id = e.after.id ∧ r.email = e.after.email := by
  have hold : ∀ e ∈ s.store.history, e.before = none →
      ∃ r ∈ (s.apply i eff).rows, r.id = e.after.id ∧ r.email = e.after.email := by
    intro e he hnone
    obtain ⟨r, hr, hid, hemail⟩ := h.kept e he hnone
    obtain ⟨r', hr', hid', hemail'⟩ := h.email_stays hinv hr i eff
    exact ⟨r', hr', hid'.trans hid, hemail'.trans hemail⟩
  cases eff with
  | commit =>
    rcases Store.mem_commit_history.mp he with he | ⟨d, hd, howner, rfl⟩
    · exact hold e he hnone
    · exact ⟨d.row, Store.mem_seen.mpr (.inr ⟨d, hd, howner, rfl⟩), rfl, rfl⟩
  | none | write | abort => exact hold e he hnone

/-! ### How a signup ends -/

section Ends

variable {i : Nat} {x : Input o} {p : UserCreate o} {st : Stage o} {eff : Effect}

theorem Act.commit_eq {id : Nat} (h : Act s i x (.signup p) st eff (.saved id)) :
    st = .written id ∧ eff = .commit := by
  generalize hst : Stage.saved id = st' at h
  cases h with
  | read _ _ hread =>
    cases hread <;> exact absurd hst nofun
  | commit =>
    obtain rfl := Stage.saved.inj hst
    exact ⟨rfl, rfl⟩
  | write | taken => exact absurd hst nofun

/-- The answer of `refreshed` is an account, or a failure. -/
theorem refreshed_cases (s : Service o) (status id : Nat) :
    (∃ u, refreshed s status id = .user status u) ∨ refreshed s status id = .failed := by
  unfold refreshed
  split
  · exact .inr rfl
  · unfold userAnswer
    split
    · exact .inl ⟨_, rfl⟩
    · exact .inr rfl

/-- **How a signup ends**: it has committed and answers, or it is refused, or it is lost. -/
theorem Act.answer_cases {a : Answer o} (h : Act s i x (.signup p) st eff (.done a)) :
    (∃ id u, st = .saved id ∧ a = .user 201 u) ∨
      (∃ hash row, st = .hashed hash ∧ row.email = p.email ∧ Taken s i row ∧
        a = .refused ⟨409, "Email already registered"⟩) ∨ a = .failed := by
  generalize hst : Stage.done a = st' at h
  cases h with
  | read _ _ hread =>
    cases hread with
    | @created _ id =>
      obtain rfl := Stage.done.inj hst
      rcases refreshed_cases s 201 id with ⟨u, hu⟩ | hfailed
      · exact .inl ⟨id, u, rfl, hu⟩
      · exact .inr (.inr hfailed)
    | refuse hreq => exact absurd rfl (hreq p)
    | lose => exact .inr (.inr (Stage.done.inj hst))
    | hash => exact absurd hst nofun
  | write | commit => exact absurd hst nofun
  | taken hw htaken =>
    cases hw with
    | insert => exact .inr (.inl ⟨_, _, rfl, rfl, htaken, Stage.done.inj hst⟩)

end Ends

/-- What a signup commits is its account. -/
theorem created_of_commit (hinv : Inv init s) {i id : Nat} {p : UserCreate o}
    (hc : s.calls[i]? = some ⟨.signup p, .written id⟩) (hstore : s'.store = s.apply i .commit) :
    Created s' i p := by
  obtain ⟨d, hd, rfl, -⟩ := hinv.written hc rfl
  obtain ⟨c, hc', -, hmade⟩ := hinv.drafts d hd
  obtain rfl := Option.some.inj (hc.symm.trans hc')
  refine ⟨d.entry, ?_, rfl, ?_⟩
  · rw [hstore]
    exact Store.mem_commit_history.mpr (.inr ⟨d, hd, rfl, rfl⟩)
  · show d.before = none ∧ d.row.email = p.email
    generalize d.before = before, d.row = row at hmade
    cases hmade
    exact ⟨rfl, rfl⟩

/-- What a step does to the store. -/
theorem store_after (hst : (service o).step s l = some s') : ∃ i eff, s'.store = s.apply i eff := by
  cases step_cases hst with
  | call req => exact ⟨0, .none, rfl⟩
  | @act i x c eff st => exact ⟨i, eff, rfl⟩
  | @fail i c => exact ⟨i, .abort, rfl⟩

theorem Created.step {i : Nat} {p : UserCreate o} (h : Created s i p)
    (hst : (service o).step s l = some s') : Created s' i p := by
  obtain ⟨e, he, hrest⟩ := h
  obtain ⟨j, eff, hstore⟩ := store_after hst
  exact ⟨e, hstore ▸ history_mono he j eff, hrest⟩

/-- A call that is over, or has not written yet, commits nothing. -/
theorem no_entry (hinv : Inv init s) (hst : (service o).step s l = some s') {i : Nat} {c : Call o}
    (hc : s.calls[i]? = some c) (hwritten : ∀ id, c.stage ≠ .written id)
    (hnone : ∀ e ∈ s.store.history, e.owner ≠ i) : ∀ e ∈ s'.store.history, e.owner ≠ i := by
  intro e he
  obtain ⟨j, eff, hstore⟩ := store_after hst
  rw [hstore] at he
  rcases Inv.history_cases he with he | ⟨d, hd, -, rfl⟩
  · exact hnone e he
  · exact hinv.owner_ne hc hwritten d hd

theorem Race.step (h : Race init s) (hinv : Inv init s) (hl : KeepsEmail s l)
    (hst : (service o).step s l = some s') : Race init s' where
  edits := by
    intro i token p st hc
    rcases call_before hst hc with hold | ⟨rfl, -⟩ | ⟨st', hold, -⟩
    · exact h.edits hold
    · exact hl
    · exact h.edits hold
  born := by
    obtain ⟨i, eff, hstore⟩ := store_after hst
    rw [hstore]
    exact fun r hr => h.born_apply hinv hr
  kept := by
    obtain ⟨i, eff, hstore⟩ := store_after hst
    rw [hstore]
    exact fun e he hnone => h.kept_apply hinv he hnone
  saved := by
    intro i p id hc
    rcases call_before hst hc with hold | ⟨-, harrived⟩ | ⟨st, hold, ⟨x, eff, hact, hstore⟩ | hfailed⟩
    · exact (h.saved hold).step hst
    · exact absurd harrived nofun
    · obtain ⟨rfl, rfl⟩ := hact.commit_eq
      exact created_of_commit hinv hold hstore
    · exact absurd hfailed nofun
  created := by
    intro i p n u hc
    rcases call_before hst hc with hold | ⟨-, harrived⟩ | ⟨st, hold, ⟨x, eff, hact, -⟩ | hfailed⟩
    · exact (h.created hold).imp_right fun hcreated => hcreated.step hst
    · exact absurd harrived nofun
    · rcases hact.answer_cases with ⟨id, u', rfl, ha⟩ | ⟨_, _, -, -, -, ha⟩ | ha
      · exact ⟨(Answer.user.inj ha).1, (h.saved hold).step hst⟩
      · exact absurd ha nofun
      · exact absurd ha nofun
    · exact absurd hfailed nofun
  refused := by
    intro i p e hc
    rcases call_before hst hc with hold | ⟨-, harrived⟩ | ⟨st, hold, ⟨x, eff, hact, -⟩ | hfailed⟩
    · obtain ⟨he, ⟨r, hr, hemail⟩, hnone⟩ := h.refused hold
      obtain ⟨j, eff, hstore⟩ := store_after hst
      obtain ⟨r', hr', -, hemail'⟩ := h.email_stays hinv hr j eff
      refine ⟨he, ⟨r', hstore ▸ hr', by rw [hemail', hemail]⟩, ?_⟩
      exact no_entry hinv hst hold nofun hnone
    · exact absurd harrived nofun
    · rcases hact.answer_cases with ⟨id, u', -, ha⟩ | ⟨hash, row, rfl, hrow, htaken, ha⟩ | ha
      · exact absurd ha nofun
      · obtain ⟨r, hr, -, hemail⟩ := htaken
        have hmem : r ∈ s.store.rows := by
          rcases Store.mem_seen.mp hr with ⟨hr, -⟩ | ⟨d, hd, howner, -⟩
          · exact hr
          · exact absurd howner (hinv.owner_ne hold nofun d hd)
        obtain ⟨j, eff', hstore⟩ := store_after hst
        obtain ⟨r', hr', -, hemail'⟩ := h.email_stays hinv hmem j eff'
        refine ⟨Answer.refused.inj ha, ⟨r', hstore ▸ hr', by rw [hemail', ← hemail, hrow]⟩, ?_⟩
        refine no_entry hinv hst hold nofun fun e he howner => ?_
        -- whoever has committed is past the stage
        obtain ⟨c, hc', -, hstage⟩ := hinv.history e he
        rw [howner] at hc'
        obtain rfl := Option.some.inj (hold.symm.trans hc')
        rcases hstage with hsaved | hdone
        · exact absurd hsaved nofun
        · exact absurd hdone nofun
      · exact absurd ha nofun
    · exact absurd hfailed nofun
  answers := by
    intro i p a hc
    rcases call_before hst hc with hold | ⟨-, harrived⟩ | ⟨st, hold, ⟨x, eff, hact, -⟩ | hfailed⟩
    · exact h.answers hold
    · exact absurd harrived nofun
    · rcases hact.answer_cases with ⟨id, u', -, ha⟩ | ⟨hash, row, -, -, -, ha⟩ | ha
      · exact .inl ⟨_, _, ha⟩
      · exact .inr (.inl ⟨_, ha⟩)
      · exact .inr (.inr ha)
    · exact .inr (.inr (Stage.done.inj hfailed))

theorem Race.of_reach {rows : List UserRow} {clock : Nat}
    (h0 : Store.Sound (users o) (Accounts.start (o := o) rows clock).store)
    (h : (service o).Reach KeepsEmail (Accounts.start rows clock) s) : Inv rows s ∧ Race rows s :=
  h.invariant (I := fun s => Inv rows s ∧ Race rows s) ⟨.start h0, .start rows clock⟩
    fun _ _ _ hinv hl hst => ⟨hinv.1.step hst, hinv.2.step hinv.1 hl hst⟩

/-- Two signups that have committed have different emails. -/
theorem Race.created_unique (h : Race init s) (hinv : Inv init s) {i j : Nat} {p p' : UserCreate o}
    (hi : Created s i p) (hj : Created s j p') (hemail : o.lower p.email = o.lower p'.email) :
    i = j := by
  obtain ⟨e, he, rfl, hnone, hp⟩ := hi
  obtain ⟨e', he', rfl, hnone', hp'⟩ := hj
  obtain ⟨r, hr, hid, hr_email⟩ := h.kept e he hnone
  obtain ⟨r', hr', hid', hr_email'⟩ := h.kept e' he' hnone'
  have hsame : r.id = r'.id := by
    by_contra hne
    have hclash := hinv.sound.apart r hr r' hr' hne
    rw [show (users o).clash r r' = (o.lower r.email == o.lower r'.email) from rfl, hr_email, hp,
      hr_email', hp', hemail, beq_self_eq_true] at hclash
    exact absurd hclash nofun
  have hkey : (users o).key e.after = (users o).key e'.after := hid.symm.trans (hsame.trans hid')
  rw [hinv.tracked.insert_unique he he' hnone hnone' hkey]

/-- **Exactly one signup gets the email.**  When all signups for an email that was free have been
    answered, and none was lost, one of them has made the account, and all others were refused. -/
theorem one_signup_wins {rows : List UserRow} {clock : Nat}
    (h0 : Store.Sound (users o) (start (o := o) rows clock).store)
    (h : (service o).Reach KeepsEmail (start rows clock) s) {email : Text}
    (hfree : ∀ r ∈ rows, o.lower r.email ≠ o.lower email)
    (hanswered : ∀ {i : Nat} {p : UserCreate o} {st : Stage o}, s.calls[i]? = some ⟨.signup p, st⟩ →
      o.lower p.email = o.lower email → st.isDone = true ∧ st ≠ .done .failed)
    (hsome : ∃ (i : Nat) (p : UserCreate o) (st : Stage o), s.calls[i]? = some ⟨.signup p, st⟩ ∧
      o.lower p.email = o.lower email) :
    ∃ (i : Nat) (p : UserCreate o) (u : UserOut),
      s.calls[i]? = some ⟨.signup p, .done (.user 201 u)⟩ ∧ o.lower p.email = o.lower email ∧
      ∀ (j : Nat) (p' : UserCreate o) (st : Stage o), j ≠ i → s.calls[j]? = some ⟨.signup p', st⟩ →
        o.lower p'.email = o.lower email → st = .done (.refused ⟨409, "Email already registered"⟩) := by
  obtain ⟨hinv, hrace⟩ := Race.of_reach h0 h
  -- an answer to a signup is 201 or 409
  have hends : ∀ {i : Nat} {p : UserCreate o} {st : Stage o}, s.calls[i]? = some ⟨.signup p, st⟩ →
      o.lower p.email = o.lower email → (∃ u, st = .done (.user 201 u)) ∨
        st = .done (.refused ⟨409, "Email already registered"⟩) := by
    intro i p st hc hemail
    obtain ⟨hdone, hfailed⟩ := hanswered hc hemail
    cases st with
    | done a =>
      rcases hrace.answers hc with ⟨n, u, rfl⟩ | ⟨e, rfl⟩ | rfl
      · obtain rfl := (hrace.created hc).1
        exact .inl ⟨u, rfl⟩
      · obtain rfl := (hrace.refused hc).1
        exact .inr rfl
      · exact absurd rfl hfailed
    | _ => exact absurd hdone nofun
  -- whoever was refused has met the winner
  obtain ⟨i, p, u, hi, hp⟩ : ∃ (i : Nat) (p : UserCreate o) (u : UserOut),
      s.calls[i]? = some ⟨.signup p, .done (.user 201 u)⟩ ∧ o.lower p.email = o.lower email := by
    obtain ⟨i, p, st, hc, hemail⟩ := hsome
    rcases hends hc hemail with ⟨u, rfl⟩ | rfl
    · exact ⟨i, p, u, hc, hemail⟩
    · obtain ⟨-, ⟨r, hr, hremail⟩, -⟩ := hrace.refused hc
      rcases hrace.born r hr with ⟨r₀, hr₀, heq⟩ | ⟨e, he, hnone, heq⟩
      · exact absurd (by rw [heq, hremail, hemail]) (hfree r₀ hr₀)
      · obtain ⟨⟨req, st⟩, hc', hmade, -⟩ := hinv.history e he
        rw [hnone] at hmade
        generalize hafter : e.after = row at hmade heq
        cases hmade with
        | @signup p' hash id version now salt hsalt =>
          have hemail' : o.lower p'.email = o.lower email :=
            (congrArg o.lower heq).trans (hremail.trans hemail)
          rcases hends hc' hemail' with ⟨u, rfl⟩ | rfl
          · exact ⟨e.owner, p', u, hc', hemail'⟩
          · exact absurd rfl ((hrace.refused hc').2.2 e he)
  refine ⟨i, p, u, hi, hp, fun j p' st hne hj hp' => ?_⟩
  rcases hends hj hp' with ⟨u', rfl⟩ | hrefused
  · exact absurd (hrace.created_unique hinv (hrace.created hj).2 (hrace.created hi).2
      (hp'.trans hp.symm)) hne
  · exact hrefused

end Race

/-! ## Two signups -/

theorem bob_email_capital : sampleOutside.validEmail "Bob@example.com".toList = true := by decide

/-- The two emails differ in case. -/
def twoBobs : List (Label sampleOutside) :=
  [.call (.signup (bob "bob@example.com".toList bob_email)),
    .call (.signup (bob "Bob@example.com".toList bob_email_capital)),
    .step 0 noon, .step 1 noon, .step 1 noon, .step 1 noon, .step 0 { noon with id := 3 }, .step 1 noon]

/-- Both signups are answered. -/
def bobsAnswered : Service sampleOutside :=
  ((service sampleOutside).run onlyAnn twoBobs).getD onlyAnn

theorem run_twoBobs : (service sampleOutside).run onlyAnn twoBobs = some bobsAnswered := rfl

theorem reach_bobsAnswered : (service sampleOutside).Reach KeepsEmail onlyAnn bobsAnswered := by
  refine .of_labels (fun l hl s => ?_) run_twoBobs
  simp only [twoBobs, List.mem_cons, List.not_mem_nil, or_false] at hl
  rcases hl with rfl | rfl | rfl | rfl | rfl | rfl | rfl | rfl <;> trivial

/-- The first signup is refused, the second one has made the account. -/
theorem bobsAnswered_calls : bobsAnswered.calls =
    [⟨.signup (bob "bob@example.com".toList bob_email),
        .done (.refused ⟨409, "Email already registered"⟩)⟩,
      ⟨.signup (bob "Bob@example.com".toList bob_email_capital),
        .done (.user 201 ⟨2, "Bob@example.com".toList, "Bob".toList, none, .customer, true, noon.now⟩)⟩] :=
  rfl

theorem bobsAnswered_done {i : Nat} {p : UserCreate sampleOutside} {st : Stage sampleOutside}
    (hc : bobsAnswered.calls[i]? = some ⟨.signup p, st⟩) :
    st.isDone = true ∧ st ≠ .done .failed := by
  rw [bobsAnswered_calls] at hc
  have hmem := List.mem_of_getElem? hc
  rw [List.mem_cons, List.mem_singleton] at hmem
  rcases hmem with heq | heq
  all_goals
    rw [(Call.mk.inj heq).2]
    exact ⟨rfl, nofun⟩

/-- Bob has one account. -/
theorem one_bob : ∃ (i : Nat) (p : UserCreate sampleOutside) (u : UserOut),
    bobsAnswered.calls[i]? = some ⟨.signup p, .done (.user 201 u)⟩ := by
  have hfree : ∀ r ∈ [ann], sampleOutside.lower r.email
      ≠ sampleOutside.lower "bob@example.com".toList := by
    intro r hr
    rw [List.mem_singleton.mp hr]
    decide
  have hsignup : bobsAnswered.calls[0]? = some ⟨.signup (bob "bob@example.com".toList bob_email),
      .done (.refused ⟨409, "Email already registered"⟩)⟩ := by
    rw [bobsAnswered_calls]
    rfl
  obtain ⟨i, p, u, hi, -⟩ := one_signup_wins onlyAnn_sound reach_bobsAnswered hfree
    (fun hc _ => bobsAnswered_done hc) ⟨0, _, _, hsignup, rfl⟩
  exact ⟨i, p, u, hi⟩

end TableFlow.Accounts
