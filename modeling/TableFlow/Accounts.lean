/-
  Accounts: signup, login and the profile, for requests that run concurrently.

  1. **The code** — `create_user`, `login`, `get_current_user`, `get_own_profile` and
     `update_own_profile`, with `bcrypt`, the tokens and the comparison of emails as parameters.
     An administrator changes roles, and disables accounts, in SQL: the API has no request for that.

  2. **What the database does** — a statement that writes a row waits for whoever has written the
     row, and for whoever might have the same email; it fails if another row has it.  A request that
     waits takes no step.  Any request may be lost, with a deadlock or a dead connection.

  3. **Emails stay unique**, and accounts stay: whatever the requests do, and in whatever order
     (`accounts_stay`).

  4. **Who changes what** — every committed change was asked for: a profile by its own account, the
     fields that were sent, and a role by the administrator (`Made`).
-/
import TableFlow.Lib.Run
import TableFlow.Passwords
import TableFlow.Privacy

namespace TableFlow.Accounts

open Lib Passwords Privacy

/-! ## What is taken from elsewhere -/

/-- The payload of a token; the times are in seconds. -/
structure Claims where
  /-- `none` when it is missing or no UUID. -/
  sub : Option Nat
  role : UserRole
  iat : Int
  exp : Int
  deriving DecidableEq

/-- The parts of the account service that are libraries or settings. -/
structure Outside where
  bcrypt : Bcrypt
  Token : Type
  /-- `jwt.encode` and `jwt.decode`, with the secret and the algorithm of the settings; `decode`
      looks at the clock, and is `none` for a `PyJWTError`. -/
  encode : Claims → Token
  decode : Int → Token → Option Claims
  /-- How `CITEXT` compares: by `lower(email)`. -/
  lower : Text → Text
  /-- `User.email == payload.email` -/
  equals : Text → Text → Bool
  /-- `EmailStr` -/
  validEmail : Text → Bool
  /-- `settings.jwt_expire_minutes` -/
  expireMinutes : Nat

/-- What is relied on. -/
structure Outside.Documented (o : Outside) : Prop where
  bcrypt : o.bcrypt.Documented
  /-- A token is decoded to what it was made from, until it expires. -/
  decode_encode : ∀ now c c', o.decode now (o.encode c) = some c' →
    c' = c ∧ now < c.exp * 1000000
  /-- Emails that are equal are so for the index, too. -/
  equals_lower : ∀ a b, o.equals a b = true → o.lower a = o.lower b

/-- A row of `users`, with its `xmin`. -/
structure UserRow extends Account where
  version : Nat
  deriving DecidableEq, Repr

/-- The table `users`: the unique index on `email` allows no two rows with one email. -/
def users (o : Outside) : RowSpec UserRow where
  key r := r.id
  version := UserRow.version
  clash a b := o.lower a.email == o.lower b.email
  clash_symm _ _ := Bool.beq_comm

@[simp] theorem users_key (o : Outside) (r : UserRow) : (users o).key r = r.id := rfl

/-! ## Requests -/

/-- A validated signup. -/
structure UserCreate (o : Outside) where
  email : Text
  password : Text
  fullName : Text
  phone : Option Text
  email_valid : o.validEmail email = true
  password_length : acceptedByUserCreate password
  fullName_length : 2 ≤ fullName.length ∧ fullName.length ≤ 120
  phone_length : ∀ p, phone = some p → p.length ≤ 32

/-- A validated profile edit: `none` is a field that was not sent, `some none` a null. -/
structure UserUpdate (o : Outside) where
  email : Option (Option Text)
  fullName : Option (Option Text)
  phone : Option (Option Text)
  email_valid : ∀ e, email = some (some e) → o.validEmail e = true
  fullName_length : ∀ n, fullName = some (some n) → 2 ≤ n.length ∧ n.length ≤ 120
  phone_length : ∀ p, phone = some (some p) → p.length ≤ 32

/-- A validated login. -/
structure LoginRequest (o : Outside) where
  email : Text
  password : Text
  email_valid : o.validEmail email = true
  password_length : acceptedByLoginRequest password

/-- The requests on accounts. -/
inductive Request (o : Outside)
  | signup (payload : UserCreate o)
  | login (payload : LoginRequest o)
  | profile (token : Option o.Token)
  | update (token : Option o.Token) (payload : UserUpdate o)
  /-- `UPDATE users SET role = .., is_active = ..`, by the administrator. -/
  | administer (id : Nat) (role : UserRole) (isActive : Bool)

/-- The token a request brings. -/
def Request.token {o : Outside} : Request o → Option o.Token
  | .profile token | .update token _ => token
  | _ => none

/-! ## Answers -/

/-- The answer to a login. -/
structure TokenResponse (o : Outside) where
  accessToken : o.Token
  /-- In seconds; `token_type` is always `bearer`. -/
  expiresIn : Nat

/-- How a request is answered. -/
inductive Answer (o : Outside)
  | user (status : Nat) (u : UserOut)
  | token (t : TokenResponse o)
  | administered
  | refused (e : HTTPException)
  /-- 500 -/
  | failed

section Code

variable (o : Outside)

/-! ## Tokens and roles -/

/-- `create_access_token`; `now` is in microseconds. -/
def createAccessToken (now : Int) (id : Nat) (role : UserRole) : o.Token :=
  o.encode ⟨some id, role, now / 1000000, (now + o.expireMinutes * 60 * 1000000) / 1000000⟩

/-- `_UNAUTHORIZED` -/
def unauthorized : HTTPException := ⟨401, "Not authenticated"⟩

/-- `get_current_user` -/
def getCurrentUser (rows : List UserRow) (now : Int) (token : Option o.Token) :
    Except HTTPException UserRow :=
  match token with
  | none => .error unauthorized
  | some t =>
    match (o.decode now t).bind Claims.sub with
    | none => .error unauthorized
    | some id =>
      match Store.lookup (users o) rows id with
      | none => .error unauthorized
      | some r => if r.isActive then .ok r else .error unauthorized

variable {o} in
/-- **Who is signed in**: the account of the token, as it is now. -/
theorem getCurrentUser_ok {rows : List UserRow} {now : Int} {token : Option o.Token} {r : UserRow} :
    getCurrentUser o rows now token = .ok r ↔ ∃ t c id, token = some t ∧
      o.decode now t = some c ∧ c.sub = some id ∧ Store.lookup (users o) rows id = some r ∧
      r.isActive = true := by
  unfold getCurrentUser
  cases token with
  | none => simp
  | some t =>
    cases hc : o.decode now t with
    | none => simp [hc]
    | some c =>
      cases hsub : c.sub with
      | none => simp [hc, hsub]
      | some id =>
        cases hr : Store.lookup (users o) rows id with
        | none => simp [hc, hsub, hr]
        | some r' => cases hactive : r'.isActive <;> simp [hc, hsub, hr, hactive] <;> grind

variable {o} in
theorem getCurrentUser_error {rows : List UserRow} {now : Int} {token : Option o.Token}
    {e : HTTPException} (h : getCurrentUser o rows now token = .error e) : e.status = 401 := by
  unfold getCurrentUser at h
  split at h
  · rw [← Except.error.inj h]
    rfl
  · split at h
    · rw [← Except.error.inj h]
      rfl
    · split at h
      · rw [← Except.error.inj h]
        rfl
      · split at h
        · exact absurd h nofun
        · rw [← Except.error.inj h]
          rfl

/-- `UserRole.value` -/
def roleName : UserRole → String
  | .customer => "customer"
  | .staff => "staff"
  | .admin => "admin"

/-- `require_role` -/
def requireRole (allowed : List UserRole) (user : User) : Except HTTPException Unit :=
  if user.role ∈ allowed then .ok ()
  else .error ⟨403, "Requires one of: " ++ ", ".intercalate (allowed.map roleName)⟩

/-! ## The profile -/

/-- The fields that a profile edit can set. -/
inductive Field
  | email
  | fullName
  | phone
  deriving DecidableEq

instance {p : Field → Prop} [DecidablePred p] : Decidable (∀ f, p f) :=
  decidable_of_iff (p .email ∧ p .fullName ∧ p .phone)
    ⟨fun h f => by cases f <;> [exact h.1; exact h.2.1; exact h.2.2],
      fun h => ⟨h _, h _, h _⟩⟩

/-- The fields that `update_own_profile` assigns; a null is left out for all but the phone. -/
def UserUpdate.changes {o : Outside} (p : UserUpdate o) : Field → Option (Option Text)
  | .email => p.email.join.map some
  | .fullName => p.fullName.join.map some
  | .phone => p.phone

/-- What the row has in a field. -/
def UserRow.value (r : UserRow) : Field → Option Text
  | .email => some r.email
  | .fullName => some r.fullName
  | .phone => r.phone

/-- The fields that differ from what was loaded; only these are in the UPDATE. -/
def net (changes : Field → Option (Option Text)) (loaded : UserRow) (f : Field) :
    Option (Option Text) :=
  (changes f).filter (· ≠ loaded.value f)

/-- The driver sends what an INSERT sets. -/
def UserCreate.sends {o : Outside} (p : UserCreate o) : Bool :=
  storable p.email && storable p.fullName && p.phone.all storable

/-- The driver sends what an UPDATE sets. -/
def sends (set : Field → Option (Option Text)) : Bool :=
  [Field.email, .fullName, .phone].all fun f => (set f).join.all storable

/-- The row version an UPDATE leaves. -/
def UserRow.update (r : UserRow) (set : Field → Option (Option Text)) (version : Nat) : UserRow :=
  { r with
    email := (set .email).join.getD r.email
    fullName := (set .fullName).join.getD r.fullName
    phone := (set .phone).getD r.phone
    version := version }

/-! ## The service -/

/-- How far a request is; between two stages others run. -/
inductive Stage
  | arrived
  /-- The password is hashed. -/
  | hashed (hash : Text)
  /-- The account with the email is read. -/
  | found (row : Option UserRow)
  /-- The account of the token is read. -/
  | loaded (row : UserRow)
  /-- The row version of `id` is written. -/
  | written (id : Nat)
  /-- The transaction has committed. -/
  | saved (id : Nat)
  | done (a : Answer o)

/-- The request is answered. -/
def Stage.isDone {o : Outside} : Stage o → Bool
  | .done _ => true
  | _ => false

/-- A request under way. -/
structure Call where
  request : Request o
  stage : Stage o

/-- The table `users` and the requests that were made so far. -/
structure Service where
  store : Store UserRow
  calls : List (Call o)

/-- What a request gets from its surroundings: the clock, a fresh id and a salt. -/
structure Input where
  now : Int
  id : Nat
  salt : o.bcrypt.Salt

/-- What a stretch does to the table. -/
inductive Effect
  | none
  /-- The index has accepted the row version. -/
  | write (before : Option UserRow) (row : UserRow)
  | commit
  | abort

variable {o}

/-- The table after the call `i` has done it. -/
def Service.apply (s : Service o) (i : Nat) : Effect → Store UserRow
  | .none => s.store
  | .write before row => (s.store.write [⟨i, before, row, false⟩]).pass (users o) row.id
  | .commit => s.store.commit (users o) i
  | .abort => s.store.abort i

/-- A statement that writes a row, and the unique index. -/
def writes (s : Service o) (i : Nat) (before : Option UserRow) (row : UserRow) :
    Option (Effect × Stage o) :=
  if s.store.blocked (users o) ⟨i, before, row, false⟩ then none
  else if s.store.violated (users o) ⟨i, before, row, false⟩ then
    some (.abort, .done (.refused ⟨409, "Email already registered"⟩))
  else some (.write before row, .written row.id)

/-- The row of a new user. -/
def newUser (payload : UserCreate o) (hash : Text) (id version : Nat) (now : Int) : UserRow where
  id := id
  role := .customer
  email := payload.email
  passwordHash := hash
  fullName := payload.fullName
  phone := payload.phone
  isActive := true
  createdAt := now
  version := version

/-- The response model checks the email again. -/
def userAnswer (status : Nat) (r : UserRow) : Answer o :=
  if o.validEmail r.email then .user status (userOut r.toAccount) else .failed

/-- `await session.refresh(user)`, and the answer. -/
def refreshed (s : Service o) (status id : Nat) : Answer o :=
  match Store.lookup (users o) s.store.rows id with
  | none => .failed
  | some r => userAnswer status r

/-- `create_user` -/
def actSignup (s : Service o) (i : Nat) (x : Input o) (payload : UserCreate o) :
    Stage o → Option (Effect × Stage o)
  | .arrived =>
    match hashPassword o.bcrypt x.salt payload.password with
    | none => some (.none, .done .failed)
    | some hash => some (.none, .hashed hash)
  | .hashed hash =>
    if payload.sends = false then some (.none, .done .failed)
    -- the database draws a new id
    else if s.store.rows.any (·.id == x.id) || s.store.drafts.any (·.row.id == x.id) then none
    else writes s i none (newUser payload hash x.id s.store.clock x.now)
  | .written id => some (.commit, .saved id)
  | .saved id => some (.none, .done (refreshed s 201 id))
  | _ => none

/-- `login` -/
def actLogin (s : Service o) (x : Input o) (payload : LoginRequest o) :
    Stage o → Option (Effect × Stage o)
  | .arrived =>
    if storable payload.email = false then some (.none, .done .failed)
    else some (.none, .found (s.store.rows.find? (o.equals ·.email payload.email)))
  | .found none => some (.none, .done (.refused ⟨401, "Invalid email or password"⟩))
  | .found (some r) =>
    if verifyPassword o.bcrypt payload.password r.passwordHash = false then
      some (.none, .done (.refused ⟨401, "Invalid email or password"⟩))
    else if r.isActive = false then some (.none, .done (.refused ⟨401, "Account is disabled"⟩))
    else some (.none,
      .done (.token ⟨createAccessToken o x.now r.id r.role, o.expireMinutes * 60⟩))
  | _ => none

/-- `get_own_profile` -/
def actProfile (s : Service o) (x : Input o) (token : Option o.Token) :
    Stage o → Option (Effect × Stage o)
  | .arrived =>
    match getCurrentUser o s.store.rows x.now token with
    | .error e => some (.none, .done (.refused e))
    | .ok r => some (.none, .done (userAnswer 200 r))
  | _ => none

/-- An UPDATE of the row `id`: it waits for the row, and works on the committed one. -/
def updates (s : Service o) (i id : Nat) (row : UserRow → UserRow) (missing : Answer o) :
    Option (Effect × Stage o) :=
  if s.store.drafts.any (·.row.id == id) then none
  else
    match Store.lookup (users o) s.store.rows id with
    | none => some (.none, .done missing)
    | some b => writes s i (some b) (row b)

/-- `update_own_profile` -/
def actUpdate (s : Service o) (i : Nat) (x : Input o) (token : Option o.Token)
    (payload : UserUpdate o) : Stage o → Option (Effect × Stage o)
  | .arrived =>
    match getCurrentUser o s.store.rows x.now token with
    | .error e => some (.none, .done (.refused e))
    | .ok r => some (.none, .loaded r)
  | .loaded r =>
    -- nothing has changed, so no statement is sent
    if ∀ f, net payload.changes r f = none then some (.none, .saved r.id)
    else if sends (net payload.changes r) = false then some (.none, .done .failed)
    else updates s i r.id (·.update (net payload.changes r) s.store.clock) .failed
  | .written id => some (.commit, .saved id)
  | .saved id => some (.none, .done (refreshed s 200 id))
  | _ => none

/-- The administrator's UPDATE. -/
def actAdminister (s : Service o) (i id : Nat) (role : UserRole) (isActive : Bool) :
    Stage o → Option (Effect × Stage o)
  | .arrived =>
    updates s i id (fun b => { b with role, isActive, version := s.store.clock }) .administered
  | .written id => some (.commit, .saved id)
  | .saved _ => some (.none, .done .administered)
  | _ => none

/-- The next stretch of the call `i`; `none` while it has to wait. -/
def act (s : Service o) (i : Nat) (x : Input o) (c : Call o) : Option (Effect × Stage o) :=
  match c.request with
  | .signup payload => actSignup s i x payload c.stage
  | .login payload => actLogin s x payload c.stage
  | .profile token => actProfile s x token c.stage
  | .update token payload => actUpdate s i x token payload c.stage
  | .administer id role isActive => actAdminister s i id role isActive c.stage

end Code

/-- What happens next. -/
inductive Label (o : Outside)
  | call (request : Request o)
  | step (i : Nat) (x : Input o)
  /-- The request is lost. -/
  | fail (i : Nat)

/-- The service after a stretch of the call `i`. -/
def Service.after {o : Outside} (s : Service o) (i : Nat) (c : Call o) (eff : Effect)
    (st : Stage o) : Service o :=
  ⟨s.apply i eff, s.calls.set i { c with stage := st }⟩

/-- Requests arrive, go on and get lost in any order. -/
def service (o : Outside) : Machine (Service o) (Label o) where
  step s
    | .call request => some { s with calls := s.calls ++ [⟨request, .arrived⟩] }
    | .step i x => s.calls[i]?.bind fun c => (act s i x c).map fun e => s.after i c e.1 e.2
    | .fail i => s.calls[i]?.bind fun c =>
      if c.stage.isDone then none else some (s.after i c .abort (.done .failed))

/-- Some accounts, and no requests yet. -/
def start {o : Outside} (rows : List UserRow) (clock : Nat) : Service o := ⟨⟨rows, [], [], clock⟩, []⟩

/-! ## What one step can do -/

section Steps

variable {o : Outside}

/-- No row version in progress, and no committed row, is in the way of the row version. -/
structure Accepted (s : Service o) (d : Draft UserRow) : Prop where
  free : s.store.blocked (users o) d = false
  unique : s.store.violated (users o) d = false

/-- Another row that `i` sees has the email. -/
def Taken (s : Service o) (i : Nat) (row : UserRow) : Prop :=
  ∃ r ∈ s.store.seen (users o) i, r.id ≠ row.id ∧ o.lower row.email = o.lower r.email

/-- No transaction has written the row. -/
def Unlocked (s : Service o) (id : Nat) : Prop := ∀ d ∈ s.store.drafts, d.row.id ≠ id

/-- The row version that a call writes, and the row it replaces. -/
inductive Writes (s : Service o) (x : Input o) : Request o → Stage o → Option UserRow → UserRow → Prop
  | insert {p : UserCreate o} {hash : Text} : (∀ r ∈ s.store.rows, r.id ≠ x.id) →
      Writes s x (.signup p) (.hashed hash) none (newUser p hash x.id s.store.clock x.now)
  | update {token : Option o.Token} {p : UserUpdate o} {r b : UserRow} :
      Store.lookup (users o) s.store.rows r.id = some b →
      Writes s x (.update token p) (.loaded r) (some b) (b.update (net p.changes r) s.store.clock)
  | administer {id : Nat} {role : UserRole} {isActive : Bool} {b : UserRow} :
      Store.lookup (users o) s.store.rows id = some b →
      Writes s x (.administer id role isActive) .arrived (some b)
        { b with role, isActive, version := s.store.clock }

/-- What a call does between its reads and writes. -/
inductive Reads (s : Service o) (x : Input o) : Request o → Stage o → Stage o → Prop
  | hash {p : UserCreate o} {hash : Text} :
      hashPassword o.bcrypt x.salt p.password = some hash →
      Reads s x (.signup p) .arrived (.hashed hash)
  | find {p : LoginRequest o} :
      Reads s x (.login p) .arrived (.found (s.store.rows.find? (o.equals ·.email p.email)))
  | issue {p : LoginRequest o} {r : UserRow} :
      verifyPassword o.bcrypt p.password r.passwordHash = true → r.isActive = true →
      Reads s x (.login p) (.found (some r))
        (.done (.token ⟨createAccessToken o x.now r.id r.role, o.expireMinutes * 60⟩))
  | load {token : Option o.Token} {p : UserUpdate o} {r : UserRow} :
      getCurrentUser o s.store.rows x.now token = .ok r →
      Reads s x (.update token p) .arrived (.loaded r)
  | unchanged {token : Option o.Token} {p : UserUpdate o} {r : UserRow} :
      (∀ f, net p.changes r f = none) → Reads s x (.update token p) (.loaded r) (.saved r.id)
  | profile {token : Option o.Token} {r : UserRow} :
      getCurrentUser o s.store.rows x.now token = .ok r →
      Reads s x (.profile token) .arrived (.done (userAnswer 200 r))
  | created {p : UserCreate o} {id : Nat} :
      Reads s x (.signup p) (.saved id) (.done (refreshed s 201 id))
  | edited {token : Option o.Token} {p : UserUpdate o} {id : Nat} :
      Reads s x (.update token p) (.saved id) (.done (refreshed s 200 id))
  | administered {id : Nat} {role : UserRole} {isActive : Bool} {st : Stage o} :
      Reads s x (.administer id role isActive) st (.done .administered)
  /-- A refusal that needs no write: 401.  A signup gets none. -/
  | refuse {req : Request o} {st : Stage o} {e : HTTPException} : (∀ p, req ≠ .signup p) →
      e.status = 401 → Reads s x req st (.done (.refused e))
  | lose {req : Request o} {st : Stage o} : Reads s x req st (.done .failed)

/-- Every stretch of a call. -/
inductive Act (s : Service o) (i : Nat) (x : Input o) (req : Request o) : Stage o → Effect →
    Stage o → Prop
  | read {st st' : Stage o} : (∀ id, st ≠ .written id) → st.isDone = false →
      Reads s x req st st' → Act s i x req st .none st'
  | write {st : Stage o} {before : Option UserRow} {row : UserRow} : Writes s x req st before row →
      Unlocked s row.id → Accepted s ⟨i, before, row, false⟩ →
      Act s i x req st (.write before row) (.written row.id)
  | taken {st : Stage o} {before : Option UserRow} {row : UserRow} : Writes s x req st before row →
      Taken s i row → Act s i x req st .abort (.done (.refused ⟨409, "Email already registered"⟩))
  | commit {id : Nat} : Act s i x req (.written id) .commit (.saved id)

variable {s : Service o} {i : Nat} {x : Input o} {req : Request o} {st st' : Stage o} {eff : Effect}

theorem Writes.ne_written {before : Option UserRow} {row : UserRow} (h : Writes s x req st before row)
    (id : Nat) : st ≠ .written id := by
  cases h <;> exact nofun

theorem Writes.ne_saved {before : Option UserRow} {row : UserRow} (h : Writes s x req st before row)
    (id : Nat) : st ≠ .saved id := by
  cases h <;> exact nofun

theorem Writes.not_done {before : Option UserRow} {row : UserRow} (h : Writes s x req st before row) :
    st.isDone = false := by
  cases h <;> rfl

theorem Reads.ne_written (h : Reads s x req st st') (id : Nat) : st' ≠ .written id := by
  cases h with
  | profile => exact nofun
  | _ => exact nofun

/-- After the commit there is only the answer. -/
theorem Reads.done_of_saved (h : Reads s x req st st') {id : Nat} (hst : st = .saved id) :
    st'.isDone = true := by
  cases h with
  | hash | find | issue | load | unchanged | profile => exact absurd hst nofun
  | _ => rfl

theorem Reads.salt_of_hashed (h : Reads s x req st st') {p : UserCreate o} {hash : Text}
    (hreq : req = .signup p) (hst : st' = .hashed hash) :
    ∃ salt, hashPassword o.bcrypt salt p.password = some hash := by
  cases h with
  | hash hhash =>
    obtain rfl := Request.signup.inj hreq
    obtain rfl := Stage.hashed.inj hst
    exact ⟨_, hhash⟩
  | _ => exact absurd hst nofun

theorem writes_cases {before : Option UserRow} {row : UserRow}
    (hw : Writes s x req st before row) (hunlocked : Unlocked s row.id)
    (h : writes s i before row = some (eff, st')) : Act s i x req st eff st' := by
  unfold writes at h
  split at h
  · exact absurd h nofun
  · next hfree =>
    split at h
    · next hviolated =>
      obtain ⟨rfl, rfl⟩ := Prod.mk.inj (Option.some.inj h)
      obtain ⟨r, hr, hid, hclash⟩ := Store.violated_iff.mp hviolated
      exact .taken hw ⟨r, hr, hid, eq_of_beq hclash⟩
    · next hunique =>
      obtain ⟨rfl, rfl⟩ := Prod.mk.inj (Option.some.inj h)
      exact .write hw hunlocked ⟨by simpa using hfree, by simpa using hunique⟩

theorem updates_cases {id : Nat} {row : UserRow → UserRow} {missing : Answer o}
    (h : updates s i id row missing = some (eff, st'))
    (hst : ∀ id, st ≠ .written id) (hdone : st.isDone = false) (hid : ∀ b, (row b).id = b.id)
    (hw : ∀ b, Store.lookup (users o) s.store.rows id = some b →
      Writes s x req st (some b) (row b))
    (hmissing : Reads s x req st (.done missing)) : Act s i x req st eff st' := by
  unfold updates at h
  split at h
  · exact absurd h nofun
  · next hlock =>
    split at h
    · obtain ⟨rfl, rfl⟩ := Prod.mk.inj (Option.some.inj h)
      exact .read hst hdone hmissing
    · next b hb =>
      refine writes_cases (hw b hb) (fun d hd hkey => hlock ?_) h
      refine List.any_eq_true.mpr ⟨d, hd, ?_⟩
      have hb' : b.id = id := (Store.lookup_some hb).2
      rw [hid, hb'] at hkey
      exact beq_iff_eq.mpr hkey

/-- **What one stretch can do.** -/
theorem act_cases {c : Call o} (h : act s i x c = some (eff, st')) :
    Act s i x c.request c.stage eff st' := by
  unfold act at h
  obtain ⟨req, st⟩ := c
  cases req with
  | signup p =>
    unfold actSignup at h
    dsimp only at h
    split at h
    · split at h
      · obtain ⟨rfl, rfl⟩ := Prod.mk.inj (Option.some.inj h)
        exact .read nofun rfl .lose
      · next hash hhash =>
        obtain ⟨rfl, rfl⟩ := Prod.mk.inj (Option.some.inj h)
        exact .read nofun rfl (.hash hhash)
    · next hash =>
      split at h
      · obtain ⟨rfl, rfl⟩ := Prod.mk.inj (Option.some.inj h)
        exact .read nofun rfl .lose
      · split at h
        · exact absurd h nofun
        · next hfresh =>
          rw [Bool.or_eq_true, not_or, List.any_eq_true, List.any_eq_true] at hfresh
          refine writes_cases (.insert fun r hr hid => ?_) (fun d hd hid => ?_) h
          · exact hfresh.1 ⟨r, hr, beq_iff_eq.mpr hid⟩
          · exact hfresh.2 ⟨d, hd, beq_iff_eq.mpr hid⟩
    · obtain ⟨rfl, rfl⟩ := Prod.mk.inj (Option.some.inj h)
      exact .commit
    · obtain ⟨rfl, rfl⟩ := Prod.mk.inj (Option.some.inj h)
      exact .read nofun rfl .created
    · exact absurd h nofun
  | login p =>
    unfold actLogin at h
    dsimp only at h
    split at h
    · split at h
      · obtain ⟨rfl, rfl⟩ := Prod.mk.inj (Option.some.inj h)
        exact .read nofun rfl .lose
      · obtain ⟨rfl, rfl⟩ := Prod.mk.inj (Option.some.inj h)
        exact .read nofun rfl .find
    · obtain ⟨rfl, rfl⟩ := Prod.mk.inj (Option.some.inj h)
      exact .read nofun rfl (.refuse nofun rfl)
    · next r =>
      split at h
      · obtain ⟨rfl, rfl⟩ := Prod.mk.inj (Option.some.inj h)
        exact .read nofun rfl (.refuse nofun rfl)
      · next hverify =>
        split at h
        · obtain ⟨rfl, rfl⟩ := Prod.mk.inj (Option.some.inj h)
          exact .read nofun rfl (.refuse nofun rfl)
        · next hactive =>
          obtain ⟨rfl, rfl⟩ := Prod.mk.inj (Option.some.inj h)
          exact .read nofun rfl (.issue (by simpa using hverify) (by simpa using hactive))
    · exact absurd h nofun
  | profile token =>
    unfold actProfile at h
    dsimp only at h
    split at h
    · split at h
      · next e he =>
        obtain ⟨rfl, rfl⟩ := Prod.mk.inj (Option.some.inj h)
        exact .read nofun rfl (.refuse nofun (getCurrentUser_error he))
      · next r hr =>
        obtain ⟨rfl, rfl⟩ := Prod.mk.inj (Option.some.inj h)
        exact .read nofun rfl (.profile hr)
    · exact absurd h nofun
  | update token p =>
    unfold actUpdate at h
    dsimp only at h
    split at h
    · split at h
      · next e he =>
        obtain ⟨rfl, rfl⟩ := Prod.mk.inj (Option.some.inj h)
        exact .read nofun rfl (.refuse nofun (getCurrentUser_error he))
      · next r hr =>
        obtain ⟨rfl, rfl⟩ := Prod.mk.inj (Option.some.inj h)
        exact .read nofun rfl (.load hr)
    · next r =>
      split at h
      · next hnone =>
        obtain ⟨rfl, rfl⟩ := Prod.mk.inj (Option.some.inj h)
        exact .read nofun rfl (.unchanged hnone)
      · split at h
        · obtain ⟨rfl, rfl⟩ := Prod.mk.inj (Option.some.inj h)
          exact .read nofun rfl .lose
        · exact updates_cases h nofun rfl (fun _ => rfl) (fun b hb => .update hb) .lose
    · obtain ⟨rfl, rfl⟩ := Prod.mk.inj (Option.some.inj h)
      exact .commit
    · obtain ⟨rfl, rfl⟩ := Prod.mk.inj (Option.some.inj h)
      exact .read nofun rfl .edited
    · exact absurd h nofun
  | administer id role isActive =>
    unfold actAdminister at h
    dsimp only at h
    split at h
    · exact updates_cases h nofun rfl (fun _ => rfl) (fun b hb => .administer hb) .administered
    · obtain ⟨rfl, rfl⟩ := Prod.mk.inj (Option.some.inj h)
      exact .commit
    · obtain ⟨rfl, rfl⟩ := Prod.mk.inj (Option.some.inj h)
      exact .read nofun rfl .administered
    · exact absurd h nofun

theorem Act.not_done (h : Act s i x req st eff st') : st.isDone = false := by
  cases h with
  | read _ hdone => exact hdone
  | write hw | taken hw => exact hw.not_done
  | commit => rfl

/-- Every step of the service. -/
inductive Step (s : Service o) : Label o → Service o → Prop
  | call (req : Request o) : Step s (.call req) { s with calls := s.calls ++ [⟨req, .arrived⟩] }
  | act {i : Nat} {x : Input o} {c : Call o} {eff : Effect} {st : Stage o} :
      s.calls[i]? = some c → Act s i x c.request c.stage eff st →
      Step s (.step i x) (s.after i c eff st)
  | fail {i : Nat} {c : Call o} : s.calls[i]? = some c → c.stage.isDone = false →
      Step s (.fail i) (s.after i c .abort (.done .failed))

theorem step_cases {s' : Service o} {l : Label o} (hst : (service o).step s l = some s') :
    Step s l s' := by
  cases l with
  | call req =>
    obtain rfl := Option.some.inj hst
    exact .call req
  | step i x =>
    obtain ⟨c, hc, hact⟩ := Option.bind_eq_some_iff.mp hst
    obtain ⟨⟨eff, st⟩, he, rfl⟩ := Option.map_eq_some_iff.mp hact
    exact .act hc (act_cases he)
  | fail i =>
    obtain ⟨c, hc, hfail⟩ := Option.bind_eq_some_iff.mp hst
    split at hfail
    · exact absurd hfail nofun
    · next hdone =>
      obtain rfl := Option.some.inj hfail
      exact .fail hc (by simpa using hdone)

end Steps

/-! ## What every change keeps -/

/-- What no request changes. -/
structure Kept (r r' : UserRow) : Prop where
  id : r'.id = r.id
  passwordHash : r'.passwordHash = r.passwordHash
  createdAt : r'.createdAt = r.createdAt

theorem Kept.refl (r : UserRow) : Kept r r := ⟨rfl, rfl, rfl⟩

theorem Kept.trans {r r' r'' : UserRow} (h : Kept r r') (h' : Kept r' r'') : Kept r r'' :=
  ⟨h'.id.trans h.id, h'.passwordHash.trans h.passwordHash, h'.createdAt.trans h.createdAt⟩

/-- The request asks for the change: a signup for a new customer, an edit for a value of a field
    that it sends, the administrator for a role. -/
inductive Made {o : Outside} : Request o → Option UserRow → UserRow → Prop
  | signup {p : UserCreate o} {hash : Text} {id version : Nat} {now : Int} (salt : o.bcrypt.Salt) :
      hashPassword o.bcrypt salt p.password = some hash →
      Made (.signup p) none (newUser p hash id version now)
  | update {token : Option o.Token} {p : UserUpdate o} {b r : UserRow} : Kept b r →
      r.role = b.role → r.isActive = b.isActive →
      (∀ f, r.value f = b.value f ∨ p.changes f = some (r.value f)) →
      Made (.update token p) (some b) r
  | administer {role : UserRole} {isActive : Bool} {version : Nat} {b : UserRow} :
      Made (.administer b.id role isActive) (some b) { b with role, isActive, version }

section Kept

variable {o : Outside}

/-- The value an UPDATE leaves. -/
theorem value_update (p : UserUpdate o) (r b : UserRow) (version : Nat) (f : Field) :
    (b.update (net p.changes r) version).value f = (net p.changes r f).getD (b.value f) := by
  cases f with
  | email =>
    show some ((net p.changes r .email).join.getD b.email) = _
    unfold net UserUpdate.changes
    cases p.email.join with
    | none => rfl
    | some e => by_cases he : some e = some r.email <;> simp [UserRow.value, Option.filter, he]
  | fullName =>
    show some ((net p.changes r .fullName).join.getD b.fullName) = _
    unfold net UserUpdate.changes
    cases p.fullName.join with
    | none => rfl
    | some n => by_cases hn : some n = some r.fullName <;> simp [UserRow.value, Option.filter, hn]
  | phone => rfl

theorem made_update {token : Option o.Token} (p : UserUpdate o) (r b : UserRow) (version : Nat) :
    Made (.update token p) (some b) (b.update (net p.changes r) version) := by
  refine .update ⟨rfl, rfl, rfl⟩ rfl rfl fun f => ?_
  rw [value_update]
  cases hf : net p.changes r f with
  | none => exact .inl rfl
  | some v => exact .inr (Option.filter_eq_some_iff.mp hf).1

theorem Made.kept {req : Request o} {b r : UserRow} (h : Made req (some b) r) : Kept b r := by
  cases h with
  | update hkept => exact hkept
  | administer => exact ⟨rfl, rfl, rfl⟩

end Kept

/-! ## The invariant -/

/-- What holds of the service in every state, `init` being the accounts at the start. -/
structure Inv {o : Outside} (init : List UserRow) (s : Service o) : Prop where
  sound : Store.Sound (users o) s.store
  tracked : Store.Tracked (users o) init s.store
  /-- The index has accepted every row version. -/
  passed : ∀ d ∈ s.store.drafts, d.passed = true
  /-- A row version belongs to a call, which has asked for it. -/
  drafts : ∀ d ∈ s.store.drafts, ∃ c, s.calls[d.owner]? = some c ∧ c.stage = .written d.row.id ∧
    Made c.request d.before d.row
  written : ∀ {i : Nat} {c : Call o} {id : Nat}, s.calls[i]? = some c → c.stage = .written id →
    ∃ d ∈ s.store.drafts, d.owner = i ∧ d.row.id = id
  /-- So does a committed change. -/
  history : ∀ e ∈ s.store.history, ∃ c, s.calls[e.owner]? = some c ∧ Made c.request e.before e.after ∧
    (c.stage = .saved e.after.id ∨ c.stage.isDone = true)
  hashed : ∀ {i : Nat} {p : UserCreate o} {hash : Text},
    s.calls[i]? = some ⟨.signup p, .hashed hash⟩ →
      ∃ salt, hashPassword o.bcrypt salt p.password = some hash

section Invariant

variable {o : Outside} {init : List UserRow} {s s' : Service o} {i : Nat} {x : Input o} {c : Call o}
  {st : Stage o} {eff : Effect}

/-- A call that has moved on. -/
theorem getElem?_after {j : Nat} {c' : Call o} (h : (s.after i c eff st).calls[j]? = some c') :
    j = i ∧ c' = { c with stage := st } ∨ j ≠ i ∧ s.calls[j]? = some c' := slot_of_set h

theorem after_self (hc : s.calls[i]? = some c) :
    (s.after i c eff st).calls[i]? = some { c with stage := st } :=
  List.getElem?_set_self (List.getElem?_eq_some_iff.mp hc).1

theorem after_of_ne {j : Nat} (hj : j ≠ i) : (s.after i c eff st).calls[j]? = s.calls[j]? :=
  List.getElem?_set_ne fun h => hj h.symm

namespace Inv

theorem start {rows : List UserRow} {clock : Nat}
    (h : Store.Sound (users o) (start (o := o) rows clock).store) :
    Inv rows (Accounts.start (o := o) rows clock) where
  sound := h
  tracked := Store.Tracked.start (s := ⟨rows, [], [], clock⟩) rfl
  passed := fun _ hd => absurd hd List.not_mem_nil
  drafts := fun _ hd => absurd hd List.not_mem_nil
  written := fun hc => absurd hc (by simp [Accounts.start])
  history := fun _ he => absurd he List.not_mem_nil
  hashed := fun hc => absurd hc (by simp [Accounts.start])

/-- The call that has written a row version is at that stage. -/
theorem owner_ne (h : Inv init s) (hc : s.calls[i]? = some c) (hst : ∀ id, c.stage ≠ .written id) :
    ∀ d ∈ s.store.drafts, d.owner ≠ i := by
  rintro d hd rfl
  obtain ⟨c', hc', hwritten, -⟩ := h.drafts d hd
  obtain rfl := Option.some.inj (hc.symm.trans hc')
  exact hst _ hwritten

/-- A call that has committed is past that. -/
theorem history_after (h : Inv init s) (hc : s.calls[i]? = some c)
    (hdone : c.stage.isDone = false) (hst : ∀ id, c.stage = .saved id → st = .saved id ∨ st.isDone = true) :
    ∀ e ∈ s.store.history, ∃ c', (s.after i c eff st).calls[e.owner]? = some c' ∧
      Made c'.request e.before e.after ∧ (c'.stage = .saved e.after.id ∨ c'.stage.isDone = true) := by
  intro e he
  obtain ⟨c', hc', hmade, hstage⟩ := h.history e he
  by_cases hi : e.owner = i
  · rw [hi] at hc' ⊢
    obtain rfl := Option.some.inj (hc.symm.trans hc')
    refine ⟨_, after_self hc, hmade, ?_⟩
    rcases hstage with hsaved | hfinal
    · exact hst _ hsaved
    · exact absurd hfinal (by rw [hdone]; decide)
  · exact ⟨c', (after_of_ne hi).trans hc', hmade, hstage⟩

theorem call (h : Inv init s) (req : Request o) :
    Inv init { s with calls := s.calls ++ [⟨req, .arrived⟩] } where
  sound := h.sound
  tracked := h.tracked
  passed := h.passed
  drafts := by
    intro d hd
    obtain ⟨c, hc, hrest⟩ := h.drafts d hd
    exact ⟨c, slot_append hc _, hrest⟩
  written := by
    intro j c id hc hst
    rcases slot_of_concat hc with hc | ⟨-, rfl⟩
    · exact h.written hc hst
    · exact absurd hst nofun
  history := by
    intro e he
    obtain ⟨c, hc, hrest⟩ := h.history e he
    exact ⟨c, slot_append hc _, hrest⟩
  hashed := by
    intro j p hash hc
    rcases slot_of_concat hc with hc | ⟨-, heq⟩
    · exact h.hashed hc
    · exact absurd (congrArg Call.stage heq) nofun

/-- A call that reads changes nothing. -/
theorem read (h : Inv init s) (hc : s.calls[i]? = some c) (hst : ∀ id, c.stage ≠ .written id)
    (hdone : c.stage.isDone = false) (hread : Reads s x c.request c.stage st) :
    Inv init (s.after i c .none st) where
  sound := h.sound
  tracked := h.tracked
  passed := h.passed
  drafts := by
    intro d hd
    obtain ⟨c', hc', hrest⟩ := h.drafts d hd
    exact ⟨c', (after_of_ne (h.owner_ne hc hst d hd)).trans hc', hrest⟩
  written := by
    intro j c' id hc' hwritten
    rcases getElem?_after hc' with ⟨-, rfl⟩ | ⟨-, hold⟩
    · exact absurd hwritten (hread.ne_written id)
    · exact h.written hold hwritten
  history := h.history_after hc hdone fun id hsaved => .inr (hread.done_of_saved hsaved)
  hashed := by
    intro j p hash hc'
    rcases getElem?_after hc' with ⟨-, heq⟩ | ⟨-, hold⟩
    · obtain ⟨hreq, rfl⟩ := Call.mk.inj heq
      exact hread.salt_of_hashed hreq.symm rfl
    · exact h.hashed hold

/-- A call that is over holds nothing. -/
theorem abort (h : Inv init s) (hc : s.calls[i]? = some c) (hdone : c.stage.isDone = false)
    (hst : st.isDone = true) : Inv init (s.after i c .abort st) where
  sound := h.sound.abort i
  tracked := ⟨h.tracked.linked, h.tracked.growing⟩
  passed := fun d hd => h.passed d (Store.mem_abort.mp hd).1
  drafts := by
    intro d hd
    obtain ⟨hd, hne⟩ := Store.mem_abort.mp hd
    obtain ⟨c', hc', hrest⟩ := h.drafts d hd
    exact ⟨c', (after_of_ne hne).trans hc', hrest⟩
  written := by
    intro j c' id hc' hwritten
    rcases getElem?_after hc' with ⟨-, rfl⟩ | ⟨hne, hold⟩
    · rw [show st = .written id from hwritten] at hst
      exact absurd hst nofun
    · obtain ⟨d, hd, rfl, hid⟩ := h.written hold hwritten
      exact ⟨d, Store.mem_abort.mpr ⟨hd, hne⟩, rfl, hid⟩
  history := h.history_after hc hdone fun _ _ => .inr hst
  hashed := by
    intro j p hash hc'
    rcases getElem?_after hc' with ⟨-, heq⟩ | ⟨-, hold⟩
    · obtain ⟨-, rfl⟩ := Call.mk.inj heq
      exact absurd hst nofun
    · exact h.hashed hold

/-- The row versions after a write: the old ones, and the new one, which has passed. -/
theorem apply_write_drafts {before : Option UserRow} {row : UserRow}
    (hunlocked : Unlocked s row.id) :
    (s.apply i (.write before row)).drafts = s.store.drafts ++ [⟨i, before, row, true⟩] := by
  show (s.store.drafts ++ [(⟨i, before, row, false⟩ : Draft UserRow)]).map
    (fun d => if d.row.id = row.id then { d with passed := true } else d) = _
  rw [List.map_append, List.map_singleton, if_pos rfl]
  congr 1
  exact (List.map_congr_left fun d hd => if_neg (hunlocked d hd)).trans (List.map_id' _)

/-- **A write that the index accepts** keeps the table sound. -/
theorem sound_write (h : Inv init s) {before : Option UserRow} {row : UserRow}
    (hown : ∀ d ∈ s.store.drafts, d.owner ≠ i) (hunlocked : Unlocked s row.id)
    (hbase : Store.lookup (users o) s.store.rows row.id = before)
    (hversion : row.version = s.store.clock) (haccepted : Accepted s ⟨i, before, row, false⟩) :
    Store.Sound (users o) (s.apply i (.write before row)) := by
  have hfresh : Store.Fresh (users o) s.store [⟨i, before, row, false⟩] := by
    refine ⟨?_, ?_, ?_, ?_⟩
    · exact nodup_map_concat h.sound.draftKeys hunlocked
    all_goals
      intro d hd
      obtain rfl := List.mem_singleton.mp hd
    · exact hbase
    · exact hversion
    · rfl
  refine (h.sound.write hfresh).pass (List.mem_append_right _ (List.mem_singleton_self _)) ?_ ?_
  · refine List.any_eq_false.mpr fun d hd => ?_
    rcases List.mem_append.mp hd with hd | hd
    · exact List.any_eq_false.mp haccepted.free d hd
    · rw [List.mem_singleton.mp hd]
      simp [Store.blocks]
  · refine Bool.eq_false_iff.mpr fun hviolated => ?_
    obtain ⟨r, hr, hkey, hclash⟩ := Store.violated_iff.mp hviolated
    rcases Store.mem_seen.mp hr with ⟨hr, -⟩ | ⟨d, hd, howner, rfl⟩
    · have hseen : r ∈ s.store.seen (users o) i :=
        Store.mem_seen.mpr (.inl ⟨hr, Store.overwrites_eq_false.mpr fun d hd ho => absurd ho (hown d hd)⟩)
      rw [Store.violated_eq_false haccepted.unique hseen hkey] at hclash
      exact Bool.false_ne_true hclash
    · rcases List.mem_append.mp hd with hd | hd
      · exact hown d hd howner
      · rw [List.mem_singleton.mp hd] at hkey
        exact hkey rfl

/-- What a call writes is what it was asked for. -/
theorem made_of_writes (h : Inv init s) {before : Option UserRow} {row : UserRow}
    (hc : s.calls[i]? = some c) (hw : Writes s x c.request c.stage before row) :
    Made c.request before row ∧ Store.lookup (users o) s.store.rows row.id = before ∧
      row.version = s.store.clock := by
  obtain ⟨req, st⟩ := c
  cases hw with
  | insert hfresh =>
    obtain ⟨salt, hsalt⟩ := h.hashed hc
    exact ⟨.signup salt hsalt, Store.lookup_none.mpr hfresh, rfl⟩
  | @update token p r b hb =>
    have hid : b.id = r.id := (Store.lookup_some hb).2
    refine ⟨made_update p r b _, ?_, rfl⟩
    show Store.lookup (users o) s.store.rows b.id = _
    rw [hid, hb]
  | @administer id role isActive b hb =>
    have hid : b.id = id := (Store.lookup_some hb).2
    subst hid
    exact ⟨.administer, hb, rfl⟩

/-- **A call that writes** holds the row until it is over. -/
theorem write (h : Inv init s) {before : Option UserRow} {row : UserRow} (hc : s.calls[i]? = some c)
    (hw : Writes s x c.request c.stage before row) (hunlocked : Unlocked s row.id)
    (haccepted : Accepted s ⟨i, before, row, false⟩) :
    Inv init (s.after i c (.write before row) (.written row.id)) := by
  obtain ⟨hmade, hbase, hversion⟩ := h.made_of_writes hc hw
  have hown := h.owner_ne hc hw.ne_written
  have hdrafts : ∀ d, d ∈ (s.apply i (.write before row)).drafts ↔
      d ∈ s.store.drafts ∨ d = ⟨i, before, row, true⟩ := by
    intro d
    rw [apply_write_drafts hunlocked, List.mem_append, List.mem_singleton]
  refine ⟨h.sound_write hown hunlocked hbase hversion haccepted, ⟨h.tracked.linked, h.tracked.growing⟩,
    ?_, ?_, ?_, ?_, ?_⟩
  · intro d hd
    rcases (hdrafts d).mp hd with hd | rfl
    · exact h.passed d hd
    · rfl
  · intro d hd
    rcases (hdrafts d).mp hd with hd | rfl
    · obtain ⟨c', hc', hrest⟩ := h.drafts d hd
      exact ⟨c', (after_of_ne (hown d hd)).trans hc', hrest⟩
    · exact ⟨_, after_self hc, rfl, hmade⟩
  · intro j c' id hc' hwritten
    rcases getElem?_after hc' with ⟨rfl, rfl⟩ | ⟨-, hold⟩
    · exact ⟨_, (hdrafts _).mpr (.inr rfl), rfl, Stage.written.inj hwritten⟩
    · obtain ⟨d, hd, hrest⟩ := h.written hold hwritten
      exact ⟨d, (hdrafts d).mpr (.inl hd), hrest⟩
  · exact h.history_after hc hw.not_done fun id hsaved => absurd hsaved (hw.ne_saved id)
  · intro j p hash hc'
    rcases getElem?_after hc' with ⟨-, heq⟩ | ⟨-, hold⟩
    · exact absurd (congrArg Call.stage heq) nofun
    · exact h.hashed hold

/-- **A call that commits** publishes the one row version it has written. -/
theorem commit (h : Inv init s) (hc : s.calls[i]? = some c) {id : Nat}
    (hst : c.stage = .written id) : Inv init (s.after i c .commit (.saved id)) where
  sound := h.sound.commit fun d hd _ => h.passed d hd
  tracked := h.tracked.commit h.sound i
  passed := fun d hd => h.passed d (Store.mem_commit.mp hd).1
  drafts := by
    intro d hd
    obtain ⟨hd, hne⟩ := Store.mem_commit.mp hd
    obtain ⟨c', hc', hrest⟩ := h.drafts d hd
    exact ⟨c', (after_of_ne hne).trans hc', hrest⟩
  written := by
    intro j c' id' hc' hwritten
    rcases getElem?_after hc' with ⟨-, rfl⟩ | ⟨hne, hold⟩
    · exact absurd hwritten nofun
    · obtain ⟨d, hd, rfl, hid⟩ := h.written hold hwritten
      exact ⟨d, Store.mem_commit.mpr ⟨hd, hne⟩, rfl, hid⟩
  history := by
    intro e he
    rcases Store.mem_commit_history.mp he with he | ⟨d, hd, howner, rfl⟩
    · refine h.history_after hc (by rw [hst]; rfl) (fun id hsaved => ?_) e he
      rw [hst] at hsaved
      exact absurd hsaved nofun
    · obtain ⟨c', hc', hwritten, hmade⟩ := h.drafts d hd
      rw [howner] at hc'
      obtain rfl := Option.some.inj (hc.symm.trans hc')
      refine ⟨_, (congrArg _ howner).trans (after_self hc), hmade, .inl ?_⟩
      exact congrArg Stage.saved (Stage.written.inj (hst.symm.trans hwritten))
  hashed := by
    intro j p hash hc'
    rcases getElem?_after hc' with ⟨-, heq⟩ | ⟨-, hold⟩
    · exact absurd (congrArg Call.stage heq) nofun
    · exact h.hashed hold

/-- The row versions after a stretch: old ones, and the one it has written. -/
theorem draft_cases {req : Request o} {st₀ : Stage o} (hact : Act s i x req st₀ eff st)
    {d : Draft UserRow} (hd : d ∈ (s.apply i eff).drafts) : d ∈ s.store.drafts ∨
      ∃ before row, Writes s x req st₀ before row ∧ d = ⟨i, before, row, true⟩ := by
  cases hact with
  | read => exact .inl hd
  | write hw hunlocked =>
    rw [apply_write_drafts hunlocked, List.mem_append, List.mem_singleton] at hd
    exact hd.imp_right fun hd => ⟨_, _, hw, hd⟩
  | taken => exact .inl (Store.mem_abort.mp hd).1
  | commit => exact .inl (Store.mem_commit.mp hd).1

/-- The history after a stretch: the old one, and what it has committed. -/
theorem history_cases {e : Lib.Entry UserRow} (he : e ∈ (s.apply i eff).history) :
    e ∈ s.store.history ∨ ∃ d ∈ s.store.drafts, d.owner = i ∧ d.entry = e := by
  cases eff with
  | commit => exact Store.mem_commit_history.mp he
  | none | write | abort => exact .inl he

/-- **Every step keeps the invariant.** -/
theorem step (h : Inv init s) {l : Label o} (hst : (service o).step s l = some s') : Inv init s' := by
  cases step_cases hst with
  | call req => exact h.call req
  | @act i x c eff st hc hact =>
    obtain ⟨req, st₀⟩ := c
    cases hact with
    | read hwritten hdone hread => exact h.read hc hwritten hdone hread
    | write hw hunlocked haccepted => exact h.write hc hw hunlocked haccepted
    | taken hw => exact h.abort hc hw.not_done rfl
    | commit => exact h.commit hc rfl
  | fail hc hdone => exact h.abort hc hdone rfl

theorem of_reach {C : Service o → Label o → Prop} {rows : List UserRow} {clock : Nat}
    (h0 : Store.Sound (users o) (Accounts.start (o := o) rows clock).store)
    (h : (service o).Reach C (Accounts.start rows clock) s) : Inv rows s :=
  h.invariant (.start h0) fun _ _ _ hinv _ hst => hinv.step hst

/-- **A change keeps the row**: committing replaces a row by one that is kept. -/
theorem stays (h : Inv init s) {r : UserRow} (hr : r ∈ s.store.rows) :
    ∃ r' ∈ (s.apply i eff).rows, Kept r r' := by
  cases eff with
  | commit =>
    by_cases hov : s.store.overwrites (users o) i r.id = true
    · obtain ⟨d, hd, howner, hkey⟩ := Store.overwrites_iff.mp hov
      obtain ⟨c, -, -, hmade⟩ := h.drafts d hd
      have hbase := h.sound.base d hd
      rw [hkey, ← users_key o r, Store.lookup_mem h.sound.keys hr] at hbase
      rw [← hbase] at hmade
      exact ⟨d.row, Store.mem_seen.mpr (.inr ⟨d, hd, howner, rfl⟩), hmade.kept⟩
    · exact ⟨r, Store.mem_seen.mpr (.inl ⟨hr, by simpa using hov⟩), .refl r⟩
  | none | write | abort => exact ⟨r, hr, .refl r⟩

theorem stays_step (h : Inv init s) {l : Label o} (hst : (service o).step s l = some s')
    {r : UserRow} (hr : r ∈ s.store.rows) : ∃ r' ∈ s'.store.rows, Kept r r' := by
  cases step_cases hst with
  | call req => exact ⟨r, hr, .refl r⟩
  | act hc hact => exact h.stays hr
  | fail hc hdone => exact h.stays hr

end Inv

/-- **Emails stay unique, and accounts stay**: whatever requests do, and in whatever order, there
    are no two accounts of one email, and every account there was is still there, with its id, its
    password hash and the time it was made. -/
theorem accounts_stay {C : Service o → Label o → Prop} {rows : List UserRow} {clock : Nat}
    (h0 : Store.Sound (users o) (start (o := o) rows clock).store)
    (h : (service o).Reach C (start rows clock) s) (h' : (service o).Reach C s s') :
    (s'.store.rows.map fun r => o.lower r.email).Nodup ∧ (s'.store.rows.map fun r => r.id).Nodup ∧
      ∀ r ∈ s.store.rows, ∃ r' ∈ s'.store.rows, Kept r r' := by
  have hinv := Inv.of_reach h0 (h.trans h')
  refine ⟨?_, hinv.sound.keys, fun r hr => ?_⟩
  · refine (List.nodup_map_iff_inj_on hinv.sound.keys.of_map).mpr fun a ha b hb hab => ?_
    by_contra hne
    have hid : a.id ≠ b.id := fun hid => hne (List.inj_on_of_nodup_map hinv.sound.keys ha hb hid)
    have hclash := hinv.sound.apart a ha b hb hid
    rw [show (users o).clash a b = (o.lower a.email == o.lower b.email) from rfl, hab,
      beq_self_eq_true] at hclash
    exact absurd hclash nofun
  · have hboth : Inv rows s' ∧ ∃ r' ∈ s'.store.rows, Kept r r' := by
      refine h'.invariant (I := fun s => Inv rows s ∧ ∃ r' ∈ s.store.rows, Kept r r')
        ⟨Inv.of_reach h0 h, r, hr, .refl r⟩ ?_
      rintro s₁ l s₂ ⟨hinv, r', hr', hkept⟩ - hst
      obtain ⟨r'', hr'', hkept'⟩ := hinv.stays_step hst hr'
      exact ⟨hinv.step hst, r'', hr'', hkept.trans hkept'⟩
    exact hboth.2

end Invariant

/-! ## Ann changes her name

She logs in and sends a new name, while others sign up; the tokens here are their own payload. -/

/-- A bcrypt one can look through, and tokens that are their own payload. -/
def sampleOutside : Outside where
  bcrypt := lookThrough
  Token := Claims
  encode c := c
  decode now c := if now < c.exp * 1000000 then some c else none
  lower t := t.map Char.toLower
  equals a b := a.map Char.toLower == b.map Char.toLower
  validEmail t := t.contains '@'
  expireMinutes := 60

theorem sampleOutside_documented : sampleOutside.Documented where
  bcrypt := lookThrough_documented
  decode_encode := by
    intro now c c' h
    obtain ⟨hlt, hc⟩ := Option.ite_none_right_eq_some.mp h
    exact ⟨(Option.some.inj hc).symm, hlt⟩
  equals_lower _ _ h := eq_of_beq h

/-- An active customer. -/
def ann : UserRow where
  id := 1
  role := .customer
  email := "ann@example.com".toList
  passwordHash := (hashPassword lookThrough () (manyA 8)).getD []
  fullName := "Ann".toList
  phone := none
  isActive := true
  createdAt := 0
  version := 1

/-- Ann, and nobody else. -/
def onlyAnn : Service sampleOutside := start [ann] 2

theorem onlyAnn_sound : Store.Sound (users sampleOutside) onlyAnn.store :=
  .of_rows rfl (List.nodup_singleton _)
    (by
      intro r hr
      rw [List.mem_singleton.mp hr]
      decide)
    (by
      intro a ha b hb hne
      rw [List.mem_singleton.mp ha, List.mem_singleton.mp hb] at hne
      exact absurd rfl hne)

/-- She spells her email with a capital. -/
def annLogsIn : LoginRequest sampleOutside where
  email := "Ann@example.com".toList
  password := manyA 8
  email_valid := by decide
  password_length := ⟨by decide, by decide⟩

/-- Only the name is sent. -/
def annaPlease : UserUpdate sampleOutside where
  email := none
  fullName := some (some "Anna".toList)
  phone := none
  email_valid := by simp
  fullName_length := by simp
  phone_length := by simp

/-- It is noon of the first day. -/
def noon : Input sampleOutside := ⟨43200 * 1000000, 2, ()⟩

/-- Ann's token. -/
def annToken : Claims := ⟨some 1, .customer, 43200, 46800⟩

/-- Her login, from its arrival to its answer. -/
def loggingIn : List (Label sampleOutside) :=
  [.call (.login annLogsIn), .step 0 noon, .step 0 noon]

/-- Her edit, from its arrival to its answer. -/
def changingName : List (Label sampleOutside) :=
  [.call (.update (some annToken) annaPlease), .step 1 noon, .step 1 noon, .step 1 noon, .step 1 noon]

/-- A signup of somebody called Bob. -/
def bob (email : Text) (h : sampleOutside.validEmail email = true) : UserCreate sampleOutside where
  email := email
  password := manyA 8
  fullName := "Bob".toList
  phone := none
  email_valid := h
  password_length := ⟨by decide, by decide⟩
  fullName_length := by decide
  phone_length := by simp

theorem bob_email : sampleOutside.validEmail "bob@example.com".toList = true := by decide

theorem ann_email : sampleOutside.validEmail "ANN@example.com".toList = true := by decide

/-- While Ann's edit is under way Bob signs up, and so does somebody with her email. -/
def busyNoon : List (Label sampleOutside) :=
  [.call (.update (some annToken) annaPlease),
    .call (.signup (bob "bob@example.com".toList bob_email)),
    .call (.signup (bob "ANN@example.com".toList ann_email)),
    .step 1 noon, .step 2 noon, .step 3 noon, .step 1 noon, .step 2 noon, .step 2 noon, .step 1 noon,
    .step 3 { noon with id := 3 }, .step 2 noon, .step 1 noon]

/-- There are two accounts at the end, and Ann's is still the same one under its new name. -/
theorem ann_stays : ∃ s, (service sampleOutside).run onlyAnn (loggingIn ++ busyNoon) = some s ∧
    s.store.rows.map (fun r => r.fullName) = ["Bob".toList, "Anna".toList] ∧
    (s.store.rows.map fun r => sampleOutside.lower r.email).Nodup ∧
    ∃ r' ∈ s.store.rows, Kept ann r' := by
  obtain ⟨s, hs, hname⟩ : ∃ s, (service sampleOutside).run onlyAnn (loggingIn ++ busyNoon) = some s ∧
      s.store.rows.map (fun r => r.fullName) = ["Bob".toList, "Anna".toList] := ⟨_, rfl, rfl⟩
  obtain ⟨hemails, -, hstay⟩ := accounts_stay onlyAnn_sound .refl (.of_run hs)
  exact ⟨s, hs, hname, hemails, hstay ann (List.mem_singleton_self ann)⟩

end TableFlow.Accounts
