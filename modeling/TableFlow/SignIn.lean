/-
  Who is signed in, and what he can change.

  1. **Tokens** — a token is issued for the account whose password was sent, and says so as long as
     it lives (`Issued`).  Nobody else can make one: that is what the signature is for (`Unforged`).
  2. **So whoever is signed in** has sent the password of the account, an hour ago at most, and the
     account is not disabled (`signed_in_by_password`).
  3. **And whoever changes a profile** is signed in to it (`changes_asked_for`).
  4. **Roles** are the administrator's: no other request makes anybody but a customer
     (`roles_stay`).
-/
import TableFlow.Accounts

namespace TableFlow.Accounts

open Lib Passwords Privacy

/-! ## Tokens -/

section Tokens

variable {o : Outside}

/-- The token of the response is that of the account `r`, whose password was sent. -/
structure Issued (p : LoginRequest o) (resp : TokenResponse o) (c : Claims) (r : UserRow) : Prop where
  encoded : resp.accessToken = o.encode c
  sub : c.sub = some r.id
  expires : c.exp = c.iat + resp.expiresIn
  password : verifyPassword o.bcrypt p.password r.passwordHash = true

/-- Some login has been answered with the token. -/
def HandedOut (s : Service o) (t : o.Token) : Prop :=
  ∃ (j : Nat) (p : LoginRequest o) (resp : TokenResponse o),
    s.calls[j]? = some ⟨.login p, .done (.token resp)⟩ ∧ resp.accessToken = t

/-- A token that is sent was handed out, or is none: only the server has the secret to sign one. -/
def Unforged (s : Service o) : Label o → Prop
  | .call req => ∀ t, req.token = some t → HandedOut s t ∨ ∀ now, o.decode now t = none
  | _ => True

/-- The token is one for the account `r`, handed out for its password. -/
def SignedIn (s : Service o) (token : Option o.Token) (r : UserRow) : Prop :=
  ∃ (j : Nat) (p : LoginRequest o) (resp : TokenResponse o) (c : Claims),
    s.calls[j]? = some ⟨.login p, .done (.token resp)⟩ ∧ token = some resp.accessToken ∧
      Issued p resp c r

theorem Issued.of_kept {p : LoginRequest o} {resp : TokenResponse o} {c : Claims} {r r' : UserRow}
    (h : Issued p resp c r) (hkept : Kept r r') : Issued p resp c r' where
  encoded := h.encoded
  sub := by rw [hkept.id, h.sub]
  expires := h.expires
  password := by rw [hkept.passwordHash, h.password]

theorem SignedIn.of_kept {s : Service o} {token : Option o.Token} {r r' : UserRow}
    (h : SignedIn s token r) (hkept : Kept r r') : SignedIn s token r' := by
  obtain ⟨j, p, resp, c, hj, htoken, hissued⟩ := h
  exact ⟨j, p, resp, c, hj, htoken, hissued.of_kept hkept⟩

/-- **What `create_access_token` issues**, the times cut to seconds. -/
theorem issued_createAccessToken (p : LoginRequest o) (now : Int) {r : UserRow}
    (h : verifyPassword o.bcrypt p.password r.passwordHash = true) :
    Issued p ⟨createAccessToken o now r.id r.role, o.expireMinutes * 60⟩
      ⟨some r.id, r.role, now / 1000000, (now + o.expireMinutes * 60 * 1000000) / 1000000⟩ r where
  encoded := rfl
  sub := rfl
  expires := by
    show (now + (o.expireMinutes : Int) * 60 * 1000000) / 1000000
      = now / 1000000 + ((o.expireMinutes * 60 : Nat) : Int)
    push_cast
    omega
  password := h

variable {init : List UserRow} {s s' : Service o} {l : Label o}

/-- A call that is over stays so. -/
theorem done_stays (hst : (service o).step s l = some s') {j : Nat} {c : Call o}
    (hc : s.calls[j]? = some c) (hdone : c.stage.isDone = true) : s'.calls[j]? = some c := by
  cases step_cases hst with
  | call req => exact slot_append hc _
  | @act i x c' eff st hc' hact =>
    have hne : j ≠ i := by
      rintro rfl
      obtain rfl := Option.some.inj (hc.symm.trans hc')
      exact absurd hdone (by rw [hact.not_done]; exact nofun)
    exact (after_of_ne hne).trans hc
  | @fail i c' hc' hopen =>
    have hne : j ≠ i := by
      rintro rfl
      obtain rfl := Option.some.inj (hc.symm.trans hc')
      exact absurd hdone (by rw [hopen]; exact nofun)
    exact (after_of_ne hne).trans hc

theorem HandedOut.step {t : o.Token} (h : HandedOut s t) (hst : (service o).step s l = some s') :
    HandedOut s' t := by
  obtain ⟨j, p, resp, hj, ht⟩ := h
  exact ⟨j, p, resp, done_stays hst hj rfl, ht⟩

theorem SignedIn.step {token : Option o.Token} {r : UserRow} (h : SignedIn s token r)
    (hst : (service o).step s l = some s') : SignedIn s' token r := by
  obtain ⟨j, p, resp, c, hj, hrest⟩ := h
  exact ⟨j, p, resp, c, done_stays hst hj rfl, hrest⟩

/-- A login looks its account up. -/
theorem Act.find_eq {i : Nat} {x : Input o} {p : LoginRequest o} {st : Stage o} {eff : Effect}
    {r : UserRow} (h : Act s i x (.login p) st eff (.found (some r))) :
    s.store.rows.find? (o.equals ·.email p.email) = some r := by
  generalize hst : Stage.found (some r) = st' at h
  cases h with
  | read _ _ hread =>
    cases hread with
    | find => exact (Stage.found.inj hst).symm
    | _ => exact absurd hst nofun
  | _ => exact absurd hst nofun

/-- A token is issued once the password is verified. -/
theorem Act.issue_eq {i : Nat} {x : Input o} {p : LoginRequest o} {st : Stage o} {eff : Effect}
    {resp : TokenResponse o} (h : Act s i x (.login p) st eff (.done (.token resp))) :
    ∃ r, st = .found (some r) ∧ verifyPassword o.bcrypt p.password r.passwordHash = true ∧
      resp = ⟨createAccessToken o x.now r.id r.role, o.expireMinutes * 60⟩ := by
  generalize hst : Stage.done (Answer.token resp) = st' at h
  cases h with
  | read _ _ hread =>
    cases hread with
    | issue hverify => exact ⟨_, rfl, hverify, Answer.token.inj (Stage.done.inj hst)⟩
    | _ => exact absurd hst nofun
  | _ => exact absurd hst nofun

/-- An edit works on the account of its token. -/
theorem Act.load_eq {i : Nat} {x : Input o} {token : Option o.Token} {p : UserUpdate o} {st : Stage o}
    {eff : Effect} {r : UserRow} (h : Act s i x (.update token p) st eff (.loaded r)) :
    getCurrentUser o s.store.rows x.now token = .ok r := by
  generalize hst : Stage.loaded r = st' at h
  cases h with
  | read _ _ hread =>
    cases hread with
    | load hr =>
      obtain rfl := Stage.loaded.inj hst
      exact hr
    | _ => exact absurd hst nofun
  | _ => exact absurd hst nofun

/-! ## The tokens there are -/

/-- What holds of the logins and the tokens in every state. -/
structure Tokens (s : Service o) : Prop where
  /-- The account a login has found is still there. -/
  found : ∀ {j : Nat} {p : LoginRequest o} {r : UserRow},
    s.calls[j]? = some ⟨.login p, .found (some r)⟩ → ∃ r' ∈ s.store.rows, Kept r r'
  issued : ∀ {j : Nat} {p : LoginRequest o} {resp : TokenResponse o},
    s.calls[j]? = some ⟨.login p, .done (.token resp)⟩ →
      ∃ c, ∃ r ∈ s.store.rows, Issued p resp c r
  sent : ∀ {j : Nat} {c : Call o} {t : o.Token}, s.calls[j]? = some c → c.request.token = some t →
    HandedOut s t ∨ ∀ now, o.decode now t = none

theorem Tokens.start (rows : List UserRow) (clock : Nat) :
    Tokens (Accounts.start (o := o) rows clock) where
  found := fun hc => absurd hc (by simp [Accounts.start])
  issued := fun hc => absurd hc (by simp [Accounts.start])
  sent := fun hc => absurd hc (by simp [Accounts.start])

/-- Where a call was before a step: at the same stage, or it has just arrived, or has moved. -/
theorem call_before (hst : (service o).step s l = some s') {j : Nat} {c : Call o}
    (hc : s'.calls[j]? = some c) :
    s.calls[j]? = some c ∨ (l = .call c.request ∧ c.stage = .arrived) ∨
      ∃ st, s.calls[j]? = some ⟨c.request, st⟩ ∧
        ((∃ x eff, Act s j x c.request st eff c.stage ∧ s'.store = s.apply j eff) ∨
          c.stage = .done .failed) := by
  cases step_cases hst with
  | call req =>
    rcases slot_of_concat hc with hc | ⟨-, rfl⟩
    · exact .inl hc
    · exact .inr (.inl ⟨rfl, rfl⟩)
  | @act i x c' eff st hc' hact =>
    rcases getElem?_after hc with ⟨rfl, rfl⟩ | ⟨-, hold⟩
    · exact .inr (.inr ⟨c'.stage, hc', .inl ⟨x, eff, hact, rfl⟩⟩)
    · exact .inl hold
  | @fail i c' hc' hopen =>
    rcases getElem?_after hc with ⟨rfl, rfl⟩ | ⟨-, hold⟩
    · exact .inr (.inr ⟨c'.stage, hc', .inr rfl⟩)
    · exact .inl hold

theorem Tokens.step (h : Tokens s) (hinv : Inv init s) (hl : Unforged s l)
    (hst : (service o).step s l = some s') : Tokens s' where
  found := by
    intro j p r hc
    rcases call_before hst hc with hold | ⟨-, harrived⟩ | ⟨st, hst', ⟨x, eff, hact, -⟩ | hfailed⟩
    · obtain ⟨r', hr', hkept⟩ := h.found hold
      obtain ⟨r'', hr'', hkept'⟩ := hinv.stays_step hst hr'
      exact ⟨r'', hr'', hkept.trans hkept'⟩
    · exact absurd harrived nofun
    · exact hinv.stays_step hst (List.mem_of_find?_eq_some hact.find_eq)
    · exact absurd hfailed nofun
  issued := by
    intro j p resp hc
    rcases call_before hst hc with hold | ⟨-, harrived⟩ | ⟨st, hst', ⟨x, eff, hact, -⟩ | hfailed⟩
    · obtain ⟨c, r, hr, hissued⟩ := h.issued hold
      obtain ⟨r', hr', hkept⟩ := hinv.stays_step hst hr
      exact ⟨c, r', hr', hissued.of_kept hkept⟩
    · exact absurd harrived nofun
    · obtain ⟨r, rfl, hverify, hresp⟩ := hact.issue_eq
      obtain ⟨r', hr', hkept⟩ := h.found hst'
      obtain ⟨r'', hr'', hkept'⟩ := hinv.stays_step hst hr'
      have hissued := issued_createAccessToken p x.now hverify
      rw [← hresp] at hissued
      exact ⟨_, r'', hr'', hissued.of_kept (hkept.trans hkept')⟩
    · exact absurd hfailed nofun
  sent := by
    intro j c t hc ht
    have hsent : HandedOut s t ∨ ∀ now, o.decode now t = none := by
      rcases call_before hst hc with hold | ⟨rfl, -⟩ | ⟨st, hst', -⟩
      · exact h.sent hold ht
      · exact hl t ht
      · exact h.sent hst' ht
    exact hsent.imp_left fun hout => hout.step hst

theorem Tokens.of_reach {rows : List UserRow} {clock : Nat}
    (h0 : Store.Sound (users o) (Accounts.start (o := o) rows clock).store)
    (h : (service o).Reach Unforged (Accounts.start rows clock) s) : Tokens s :=
  (h.invariant (I := fun s => Inv rows s ∧ Tokens s) ⟨.start h0, .start rows clock⟩
    fun _ _ _ hinv hl hst => ⟨hinv.1.step hst, hinv.2.step hinv.1 hl hst⟩).2

/-- An account is known by its id. -/
theorem Inv.eq_of_id (h : Inv init s) {r r' : UserRow} (hr : r ∈ s.store.rows)
    (hr' : r' ∈ s.store.rows) (hid : r.id = r'.id) : r = r' :=
  List.inj_on_of_nodup_map h.sound.keys hr hr' hid

/-- The account that `get_current_user` finds is the one that the token was handed out for. -/
theorem Tokens.signedIn (h : Tokens s) (hdoc : o.Documented) (hinv : Inv init s) {j : Nat}
    {c : Call o} (hc : s.calls[j]? = some c) {now : Int} {r : UserRow}
    (hr : getCurrentUser o s.store.rows now c.request.token = .ok r) :
    ∃ (j : Nat) (p : LoginRequest o) (resp : TokenResponse o) (cl : Claims),
      s.calls[j]? = some ⟨.login p, .done (.token resp)⟩ ∧
      c.request.token = some resp.accessToken ∧ Issued p resp cl r ∧ now < cl.exp * 1000000 := by
  obtain ⟨t, cl, id, ht, hdecode, hsub, hlookup, -⟩ := getCurrentUser_ok.mp hr
  rcases h.sent hc ht with ⟨j, p, resp, hj, rfl⟩ | hforged
  · obtain ⟨cl', r', hr', hissued⟩ := h.issued hj
    rw [hissued.encoded] at hdecode
    obtain ⟨rfl, hexp⟩ := hdoc.decode_encode now cl' cl hdecode
    obtain ⟨hmem, hkey⟩ := Store.lookup_some hlookup
    have hid : r.id = r'.id := by
      have : r.id = id := hkey
      rw [this]
      exact Option.some.inj (hsub.symm.trans hissued.sub)
    rw [hinv.eq_of_id hmem hr' hid]
    exact ⟨j, p, resp, cl, hj, ht, hissued, hexp⟩
  · rw [hforged now] at hdecode
    exact absurd hdecode nofun

/-- **Whoever is signed in has sent the password**: the account that a request acts for was logged
    in to with its password, the token has not expired, and the account is not disabled. -/
theorem signed_in_by_password (hdoc : o.Documented) {rows : List UserRow} {clock : Nat}
    (h0 : Store.Sound (users o) (start (o := o) rows clock).store)
    (h : (service o).Reach Unforged (start rows clock) s) {i : Nat} {c : Call o}
    (hc : s.calls[i]? = some c) {now : Int} {r : UserRow}
    (hr : getCurrentUser o s.store.rows now c.request.token = .ok r) :
    r ∈ s.store.rows ∧ r.isActive = true ∧
    ∃ (j : Nat) (p : LoginRequest o) (resp : TokenResponse o) (cl : Claims),
      s.calls[j]? = some ⟨.login p, .done (.token resp)⟩ ∧
      c.request.token = some resp.accessToken ∧
      verifyPassword o.bcrypt p.password r.passwordHash = true ∧
      resp.accessToken = o.encode cl ∧ cl.exp = cl.iat + resp.expiresIn ∧
      now < cl.exp * 1000000 := by
  have hinv := Inv.of_reach h0 h
  obtain ⟨t, cl, id, -, -, -, hlookup, hactive⟩ := getCurrentUser_ok.mp hr
  refine ⟨(Store.lookup_some hlookup).1, hactive, ?_⟩
  obtain ⟨j, p, resp, cl, hj, htoken, hissued, hexp⟩ :=
    (Tokens.of_reach h0 h).signedIn hdoc hinv hc hr
  exact ⟨j, p, resp, cl, hj, htoken, hissued.password, hissued.encoded, hissued.expires, hexp⟩

/-! ## Changes -/

/-- An edit works on the account that is signed in. -/
structure Own (s : Service o) : Prop where
  loaded : ∀ {i : Nat} {token : Option o.Token} {p : UserUpdate o} {r : UserRow},
    s.calls[i]? = some ⟨.update token p, .loaded r⟩ →
      SignedIn s token r ∧ ∃ r' ∈ s.store.rows, Kept r r'
  drafts : ∀ d ∈ s.store.drafts, ∀ {token : Option o.Token} {p : UserUpdate o} {st : Stage o},
    s.calls[d.owner]? = some ⟨.update token p, st⟩ → SignedIn s token d.row
  history : ∀ e ∈ s.store.history, ∀ {token : Option o.Token} {p : UserUpdate o} {st : Stage o},
    s.calls[e.owner]? = some ⟨.update token p, st⟩ → SignedIn s token e.after

theorem Own.start (rows : List UserRow) (clock : Nat) :
    Own (Accounts.start (o := o) rows clock) where
  loaded := fun hc => absurd hc (by simp [Accounts.start])
  drafts := fun _ hd => absurd hd List.not_mem_nil
  history := fun _ he => absurd he List.not_mem_nil

/-- The request of a call stays. -/
theorem call_stays (hst : (service o).step s l = some s') {j : Nat} {c : Call o}
    (hc : s.calls[j]? = some c) : ∃ st, s'.calls[j]? = some ⟨c.request, st⟩ := by
  cases step_cases hst with
  | call req => exact ⟨c.stage, slot_append hc _⟩
  | @act i x c' eff st hc' =>
    by_cases hj : j = i
    · subst hj
      obtain rfl := Option.some.inj (hc.symm.trans hc')
      exact ⟨st, after_self hc⟩
    · exact ⟨c.stage, (after_of_ne hj).trans hc⟩
  | @fail i c' hc' =>
    by_cases hj : j = i
    · subst hj
      obtain rfl := Option.some.inj (hc.symm.trans hc')
      exact ⟨_, after_self hc⟩
    · exact ⟨c.stage, (after_of_ne hj).trans hc⟩

theorem request_before (hst : (service o).step s l = some s') {j : Nat} {c c' : Call o}
    (hc : s.calls[j]? = some c) (hc' : s'.calls[j]? = some c') : c'.request = c.request := by
  obtain ⟨st, hstay⟩ := call_stays hst hc
  rw [Option.some.inj (hc'.symm.trans hstay)]

/-- The account of an edit whose row version is old, or committed, is signed in. -/
theorem Own.of_draft (h : Own s) (hinv : Inv init s) (hst : (service o).step s l = some s')
    {d : Draft UserRow} (hd : d ∈ s.store.drafts) {token : Option o.Token} {p : UserUpdate o}
    {st : Stage o} (hc : s'.calls[d.owner]? = some ⟨.update token p, st⟩) :
    SignedIn s' token d.row := by
  obtain ⟨⟨req, st₀⟩, hc₀, -⟩ := hinv.drafts d hd
  obtain rfl : req = .update token p := (request_before hst hc₀ hc).symm
  exact (h.drafts d hd hc₀).step hst

theorem Own.of_entry (h : Own s) (hinv : Inv init s) (hst : (service o).step s l = some s')
    {e : Lib.Entry UserRow} (he : e ∈ s.store.history) {token : Option o.Token} {p : UserUpdate o}
    {st : Stage o} (hc : s'.calls[e.owner]? = some ⟨.update token p, st⟩) :
    SignedIn s' token e.after := by
  obtain ⟨⟨req, st₀⟩, hc₀, -⟩ := hinv.history e he
  obtain rfl : req = .update token p := (request_before hst hc₀ hc).symm
  exact (h.history e he hc₀).step hst

/-- The row version an edit writes is that of the account it has loaded. -/
theorem Own.of_writes (h : Own s) (hinv : Inv init s) {i : Nat} {x : Input o}
    {token : Option o.Token} {p : UserUpdate o} {st : Stage o} {before : Option UserRow}
    {row : UserRow} (hc : s.calls[i]? = some ⟨.update token p, st⟩)
    (hw : Writes s x (.update token p) st before row) : SignedIn s token row := by
  cases hw with
  | @update _ _ r b hb =>
    obtain ⟨hsigned, r', hr', hkept⟩ := h.loaded hc
    obtain ⟨hmem, hkey⟩ := Store.lookup_some hb
    obtain rfl := hinv.eq_of_id hmem hr' (hkey.trans hkept.id.symm)
    exact hsigned.of_kept (hkept.trans ⟨rfl, rfl, rfl⟩)

theorem Own.step (h : Own s) (hdoc : o.Documented) (hinv : Inv init s) (htokens : Tokens s)
    (hst : (service o).step s l = some s') : Own s' where
  loaded := by
    intro i token p r hc
    rcases call_before hst hc with hold | ⟨-, harrived⟩ | ⟨st, hst', ⟨x, eff, hact, -⟩ | hfailed⟩
    · obtain ⟨hsigned, r', hr', hkept⟩ := h.loaded hold
      obtain ⟨r'', hr'', hkept'⟩ := hinv.stays_step hst hr'
      exact ⟨hsigned.step hst, r'', hr'', hkept.trans hkept'⟩
    · exact absurd harrived nofun
    · have hr := hact.load_eq
      obtain ⟨j, p', resp, cl, hj, htoken, hissued, -⟩ := htokens.signedIn hdoc hinv hst' hr
      obtain ⟨t, cl', id, -, -, -, hlookup, -⟩ := getCurrentUser_ok.mp hr
      exact ⟨SignedIn.step ⟨j, p', resp, cl, hj, htoken, hissued⟩ hst,
        hinv.stays_step hst (Store.lookup_some hlookup).1⟩
    · exact absurd hfailed nofun
  drafts := by
    intro d hd token p st hc
    cases step_cases hst with
    | call req => exact h.of_draft hinv hst hd hc
    | @act i x c eff st' hci hact =>
      rcases Inv.draft_cases hact hd with hd | ⟨before, row, hw, rfl⟩
      · exact h.of_draft hinv hst hd hc
      · obtain ⟨req, st₀⟩ := c
        obtain rfl : req = .update token p := (request_before hst hci hc).symm
        exact (h.of_writes hinv hci hw).step hst
    | fail => exact h.of_draft hinv hst (Store.mem_abort.mp hd).1 hc
  history := by
    intro e he token p st hc
    cases step_cases hst with
    | call req => exact h.of_entry hinv hst he hc
    | @act i x c eff st' hci hact =>
      rcases Inv.history_cases he with he | ⟨d, hd, -, rfl⟩
      · exact h.of_entry hinv hst he hc
      · exact h.of_draft hinv hst hd hc
    | fail => exact h.of_entry hinv hst he hc

theorem Own.of_reach (hdoc : o.Documented) {rows : List UserRow} {clock : Nat}
    (h0 : Store.Sound (users o) (Accounts.start (o := o) rows clock).store)
    (h : (service o).Reach Unforged (Accounts.start rows clock) s) : Own s :=
  (h.invariant (I := fun s => Inv rows s ∧ Tokens s ∧ Own s)
    ⟨.start h0, .start rows clock, .start rows clock⟩
    fun _ _ _ hinv hl hst => ⟨hinv.1.step hst, hinv.2.1.step hinv.1 hl hst,
      hinv.2.2.step hdoc hinv.1 hinv.2.1 hst⟩).2.2

/-- **Every change was asked for**: accounts are made by signups, as active customers; the values of
    a profile are those its own account has sent, signed in with its password; and nothing but the
    administrator's statement changes a role, or disables an account. -/
theorem changes_asked_for (hdoc : o.Documented) {rows : List UserRow} {clock : Nat}
    (h0 : Store.Sound (users o) (start (o := o) rows clock).store)
    (h : (service o).Reach Unforged (start rows clock) s) {e : Lib.Entry UserRow}
    (he : e ∈ s.store.history) :
    ∃ c, s.calls[e.owner]? = some c ∧ Made c.request e.before e.after ∧
      ∀ token p, c.request = .update token p → SignedIn s token e.after := by
  obtain ⟨⟨req, st⟩, hc, hmade, -⟩ := (Inv.of_reach h0 h).history e he
  refine ⟨_, hc, hmade, ?_⟩
  rintro token p rfl
  exact (Own.of_reach hdoc h0 h).history e he hc

/-! ## Roles -/

/-- The administrator leaves the account alone. -/
def LeavesAlone (id : Nat) : Label o → Prop
  | .call (.administer id' _ _) => id' ≠ id
  | _ => True

/-- The role is that of the account at the start, or it is a new customer. -/
def OldRole (init : List UserRow) (r : UserRow) : Prop :=
  (∃ r₀ ∈ init, r₀.id = r.id ∧ r.role = r₀.role ∧ r.isActive = r₀.isActive) ∨
    (∀ r₀ ∈ init, r₀.id ≠ r.id) ∧ r.role = .customer ∧ r.isActive = true

theorem OldRole.of_eq {r r' : UserRow} (h : OldRole init r) (hid : r'.id = r.id)
    (hrole : r'.role = r.role) (hactive : r'.isActive = r.isActive) : OldRole init r' := by
  unfold OldRole
  rw [hid, hrole, hactive]
  exact h

/-- What holds of the account `id` while the administrator leaves it alone. -/
structure Roles (init : List UserRow) (id : Nat) (s : Service o) : Prop where
  calls : ∀ {i : Nat} {c : Call o} {id' : Nat} {role : UserRole} {isActive : Bool},
    s.calls[i]? = some c → c.request = .administer id' role isActive → id' ≠ id
  rows : ∀ r ∈ s.store.rows, r.id = id → OldRole init r
  drafts : ∀ d ∈ s.store.drafts, d.row.id = id → OldRole init d.row

/-- The accounts of the start are still there. -/
theorem Inv.row_of_init (h : Inv init s) {r₀ : UserRow} (hr₀ : r₀ ∈ init) :
    ∃ r ∈ s.store.rows, r.id = r₀.id := by
  obtain ⟨r, hr⟩ : ∃ r, Store.lookup (users o) init r₀.id = some r := by
    by_contra hnone
    have := Store.lookup_none.mp (Option.not_isSome_iff_eq_none.mp fun hsome =>
      hnone (Option.isSome_iff_exists.mp hsome))
    exact this r₀ hr₀ rfl
  refine h.tracked.exists_row (r := r) (List.mem_append_left _ ?_)
  rw [hr]
  exact List.mem_singleton_self r

variable {id : Nat}

theorem Roles.of_writes (h : Roles init id s) (hinv : Inv init s) {i : Nat} {x : Input o}
    {c : Call o} {before : Option UserRow} {row : UserRow} (hc : s.calls[i]? = some c)
    (hw : Writes s x c.request c.stage before row) (hid : row.id = id) : OldRole init row := by
  obtain ⟨req, st⟩ := c
  cases hw with
  | insert hfresh =>
    refine .inr ⟨fun r₀ hr₀ heq => ?_, rfl, rfl⟩
    obtain ⟨r, hr, hrid⟩ := hinv.row_of_init hr₀
    exact hfresh r hr (hrid.trans heq)
  | update hb => exact (h.rows _ (Store.lookup_some hb).1 hid).of_eq rfl rfl rfl
  | administer hb => exact absurd ((Store.lookup_some hb).2.symm.trans hid) (h.calls hc rfl)

theorem Roles.step (h : Roles init id s) (hinv : Inv init s) (hl : LeavesAlone id l)
    (hst : (service o).step s l = some s') : Roles init id s' where
  calls := by
    intro i c id' role isActive hc hreq
    rcases call_before hst hc with hold | ⟨rfl, -⟩ | ⟨st, hst', -⟩
    · exact h.calls hold hreq
    · rw [hreq] at hl
      exact hl
    · exact h.calls hst' hreq
  rows := by
    intro r hr hid
    cases step_cases hst with
    | call => exact h.rows r hr hid
    | @act i x c eff st hc hact =>
      cases eff with
      | commit =>
        rcases Store.mem_seen.mp hr with ⟨hr, -⟩ | ⟨d, hd, -, rfl⟩
        · exact h.rows r hr hid
        · exact h.drafts d hd hid
      | none | write | abort => exact h.rows r hr hid
    | fail => exact h.rows r hr hid
  drafts := by
    intro d hd hid
    cases step_cases hst with
    | call => exact h.drafts d hd hid
    | act hc hact =>
      rcases Inv.draft_cases hact hd with hd | ⟨before, row, hw, rfl⟩
      · exact h.drafts d hd hid
      · exact h.of_writes hinv hc hw hid
    | fail => exact h.drafts d (Store.mem_abort.mp hd).1 hid

/-- **Nobody gets another role but by the administrator**: while he leaves an account alone, it
    keeps the role it has, and stays as active as it is; a new one is an active customer. -/
theorem roles_stay {rows : List UserRow} {clock : Nat} (id : Nat)
    (h0 : Store.Sound (users o) (start (o := o) rows clock).store)
    (h : (service o).Reach (fun _ l => LeavesAlone id l) (start rows clock) s) {r : UserRow}
    (hr : r ∈ s.store.rows) (hid : r.id = id) : OldRole rows r := by
  have hstart : Roles rows id (start (o := o) rows clock) := by
    refine ⟨fun hc => absurd hc (by simp [start]), fun r hr _ => ?_,
      fun _ hd => absurd hd List.not_mem_nil⟩
    exact .inl ⟨r, hr, rfl, rfl, rfl⟩
  have hroles := h.invariant (I := fun s => Inv rows s ∧ Roles rows id s) ⟨.start h0, hstart⟩
    fun _ _ _ hinv hl hst => ⟨hinv.1.step hst, hinv.2.step hinv.1 hl hst⟩
  exact hroles.2.rows r hr hid

end Tokens

/-! ## Ann is signed in -/

/-- Ann has logged in. -/
def loggedIn : Service sampleOutside :=
  ((service sampleOutside).run onlyAnn loggingIn).getD onlyAnn

theorem run_loggingIn : (service sampleOutside).run onlyAnn loggingIn = some loggedIn := rfl

/-- Her first request has arrived. -/
def annAsks : Service sampleOutside :=
  { loggedIn with calls := loggedIn.calls ++ [⟨.update (some annToken) annaPlease, .arrived⟩] }

theorem reach_annAsks : (service sampleOutside).Reach Unforged onlyAnn annAsks := by
  have hlogin : (service sampleOutside).Reach Unforged onlyAnn loggedIn := by
    refine .of_labels (fun l hl s => ?_) run_loggingIn
    simp only [loggingIn, List.mem_cons, List.not_mem_nil, or_false] at hl
    rcases hl with rfl | rfl | rfl <;> simp [Unforged, Request.token]
  refine .tail (l := .call (.update (some annToken) annaPlease)) hlogin (fun t ht => .inl ?_) rfl
  obtain rfl := Option.some.inj ht
  exact ⟨0, annLogsIn, ⟨annToken, 3600⟩, rfl, rfl⟩

/-- At noon, the token is hers. -/
theorem ann_signed_in : ∃ (j : Nat) (p : LoginRequest sampleOutside)
    (resp : TokenResponse sampleOutside), annAsks.calls[j]? = some ⟨.login p, .done (.token resp)⟩ ∧
      verifyPassword sampleOutside.bcrypt p.password ann.passwordHash = true := by
  have hann : getCurrentUser sampleOutside annAsks.store.rows noon.now (some annToken) = .ok ann :=
    rfl
  obtain ⟨-, -, j, p, resp, -, hj, -, hverify, -⟩ :=
    signed_in_by_password sampleOutside_documented onlyAnn_sound reach_annAsks
      (show annAsks.calls[1]? = some ⟨.update (some annToken) annaPlease, .arrived⟩ from rfl) hann
  exact ⟨j, p, resp, hj, hverify⟩

/-- Her request is answered. -/
def annAnswered : Service sampleOutside :=
  ((service sampleOutside).run annAsks (changingName.drop 1)).getD annAsks

theorem run_annAsks :
    (service sampleOutside).run annAsks (changingName.drop 1) = some annAnswered := rfl

theorem reach_annAnswered : (service sampleOutside).Reach Unforged onlyAnn annAnswered := by
  refine reach_annAsks.trans (.of_labels (fun l hl s => ?_) run_annAsks)
  simp only [changingName, List.drop_succ_cons, List.drop_zero, List.mem_cons, List.not_mem_nil,
    or_false, or_self] at hl
  rw [hl]
  trivial

/-- She asked for her new name. -/
theorem ann_asked : ∃ e ∈ annAnswered.store.history, ∃ c, annAnswered.calls[e.owner]? = some c ∧
    Made c.request e.before e.after := by
  obtain ⟨e, he⟩ : ∃ e, e ∈ annAnswered.store.history :=
    List.exists_mem_of_length_pos (by decide : 0 < annAnswered.store.history.length)
  obtain ⟨c, hc, hmade, -⟩ :=
    changes_asked_for sampleOutside_documented onlyAnn_sound reach_annAnswered he
  exact ⟨e, he, c, hc, hmade⟩

/-- She is a customer still. -/
theorem ann_is_customer : ∃ s, (service sampleOutside).run onlyAnn (loggingIn ++ changingName) = some s ∧
    ∀ r ∈ s.store.rows, r.id = 1 → OldRole [ann] r := by
  obtain ⟨s, hs⟩ : ∃ s, (service sampleOutside).run onlyAnn (loggingIn ++ changingName) = some s :=
    ⟨_, rfl⟩
  refine ⟨s, hs, fun r hr hid => roles_stay 1 onlyAnn_sound ?_ hr hid⟩
  refine .of_labels (fun l hl s => ?_) hs
  simp only [loggingIn, changingName, List.cons_append, List.nil_append, List.mem_cons,
    List.not_mem_nil, or_false] at hl
  rcases hl with rfl | rfl | rfl | rfl | rfl | rfl | rfl | rfl <;> trivial

end TableFlow.Accounts
