/-
  Passwords are accepted in characters and hashed in bytes.

  1. **The code** — `hash_password` and `verify_password`, with `bcrypt` as a parameter.  A salt is
     drawn for every hash, so it is a parameter, too.
  2. **What is compared** — the first 72 bytes of the UTF-8 forms (`verify_hash_iff`).
  3. **So a password is compared in full** exactly when its UTF-8 form is shorter than that
     (`passwords_compared_iff`): any longer one has another password that is taken for it.
-/
import TableFlow.Model

namespace TableFlow.Passwords

/-! ## UTF-8 -/

/-- `t.encode("utf-8")` -/
def encode (t : Text) : List UInt8 := t.flatMap String.utf8EncodeChar

/-- `b.decode("utf-8")`, `none` for `UnicodeDecodeError`. -/
def decode (b : List UInt8) : Option Text := b.toByteArray.utf8Decode?.map Array.toList

theorem decode_encode (t : Text) : decode (encode t) = some t := by
  change (t.utf8Encode.utf8Decode?).map Array.toList = some t
  rw [List.utf8Decode?_utf8Encode]
  rfl

theorem encode_inj {s t : Text} (h : encode s = encode t) : s = t :=
  Option.some.inj ((decode_encode s).symm.trans (h ▸ decode_encode t))

theorem encode_append (s t : Text) : encode (s ++ t) = encode s ++ encode t :=
  List.flatMap_append

/-- A character has a byte at least. -/
theorem length_le_encode (t : Text) : t.length ≤ (encode t).length := by
  induction t with
  | nil => exact Nat.le_refl 0
  | cons c t ih =>
    have hc : 0 < (String.utf8EncodeChar c).length :=
      List.length_pos_iff.mpr String.utf8EncodeChar_ne_nil
    rw [encode, List.flatMap_cons, List.length_append, List.length_cons]
    exact (Nat.add_comm ..).trans_le (Nat.add_le_add hc ih)

/-! ## The code -/

/-- The functions of `bcrypt` that are used. -/
structure Bcrypt where
  Salt : Type
  hashpw : List UInt8 → Salt → List UInt8
  /-- `none` for `ValueError`: this is no hash. -/
  checkpw : (password hashed : List UInt8) → Option Bool

/-- What is relied on. -/
structure Bcrypt.Documented (bcrypt : Bcrypt) : Prop where
  /-- A hash is a text. -/
  text : ∀ bytes salt, ∃ t, bcrypt.hashpw bytes salt = encode t
  /-- For a given salt it depends on exactly the first 72 bytes. -/
  first : ∀ bytes bytes' salt, bcrypt.hashpw bytes salt = bcrypt.hashpw bytes' salt ↔
    bytes.take 72 = bytes'.take 72
  /-- `checkpw` hashes again, with the salt of the hash, and compares. -/
  recomputes : ∀ bytes bytes' salt, bcrypt.checkpw bytes' (bcrypt.hashpw bytes salt)
    = some (decide (bcrypt.hashpw bytes' salt = bcrypt.hashpw bytes salt))

section Code

variable (bcrypt : Bcrypt)

/-- `hash_password`; `salt` is what `gensalt()` draws. -/
def hashPassword (salt : bcrypt.Salt) (plain : Text) : Option Text :=
  decode (bcrypt.hashpw (encode plain) salt)

/-- `verify_password` -/
def verifyPassword (plain hashed : Text) : Bool :=
  -- a broken hash means that the login fails
  (bcrypt.checkpw (encode plain) (encode hashed)).getD false

/-- `UserCreate.password` -/
def acceptedByUserCreate (p : Text) : Prop := 8 ≤ p.length ∧ p.length ≤ 128

/-- `LoginRequest.password` -/
def acceptedByLoginRequest (q : Text) : Prop := 1 ≤ q.length ∧ q.length ≤ 128

end Code

/-! ## What is compared -/

section Compared

variable {bcrypt : Bcrypt} {salt : bcrypt.Salt} {p : Text}

theorem hashPassword_eq (hb : bcrypt.Documented) (salt : bcrypt.Salt) (p : Text) :
    ∃ hashed, hashPassword bcrypt salt p = some hashed ∧
      encode hashed = bcrypt.hashpw (encode p) salt := by
  obtain ⟨t, ht⟩ := hb.text (encode p) salt
  refine ⟨t, ?_, ht.symm⟩
  unfold hashPassword
  rw [ht, decode_encode]

/-- **The first 72 bytes are compared**, and nothing else. -/
theorem verify_hash_iff (hb : bcrypt.Documented) {hashed : Text}
    (hhash : encode hashed = bcrypt.hashpw (encode p) salt) (q : Text) :
    verifyPassword bcrypt q hashed = true ↔ (encode q).take 72 = (encode p).take 72 := by
  unfold verifyPassword
  rw [hhash, hb.recomputes, Option.getD_some, decide_eq_true_eq, hb.first]

/-- A text that is shorter is known by its first 72 bytes. -/
theorem eq_of_take_eq {q : Text} (hp : (encode p).length < 72)
    (h : (encode q).take 72 = (encode p).take 72) : q = p := by
  have hlen := congrArg List.length h
  rw [List.length_take, List.length_take] at hlen
  rw [List.take_of_length_le (by omega), List.take_of_length_le (by omega)] at h
  exact encode_inj h

/-- **Any longer one has a double**: a character more, or one less where there is no room for it. -/
theorem exists_double (hp : acceptedByUserCreate p) (hlong : 72 ≤ (encode p).length) :
    ∃ q, acceptedByLoginRequest q ∧ q ≠ p ∧ (encode q).take 72 = (encode p).take 72 := by
  obtain ⟨hmin, hmax⟩ := hp
  rcases Nat.lt_or_ge p.length 128 with hroom | hfull
  · refine ⟨p ++ ['x'], ⟨by simp, by simpa using hroom⟩, by simp, ?_⟩
    rw [encode_append, List.take_append_of_le_length hlong]
  · have hne : p ≠ [] := List.ne_nil_of_length_pos (by omega)
    have hlen : p.dropLast.length = p.length - 1 := List.length_dropLast
    refine ⟨p.dropLast, ⟨by omega, by omega⟩, fun h => ?_, ?_⟩
    · rw [h] at hlen
      omega
    · have hbytes := length_le_encode p.dropLast
      conv_rhs => rw [← List.dropLast_concat_getLast hne, encode_append]
      rw [List.take_append_of_le_length (by omega)]

end Compared

/-- **When passwords are compared in full**: two of them when they are one, or differ in the first
    72 bytes; and all that can be sent with a given one, when that has fewer bytes. -/
theorem passwords_compared_iff (bcrypt : Bcrypt) (hb : bcrypt.Documented) (salt : bcrypt.Salt)
    {p : Text} (hp : acceptedByUserCreate p) :
    ∃ hashed, hashPassword bcrypt salt p = some hashed ∧
      (∀ q, acceptedByLoginRequest q → ((verifyPassword bcrypt q hashed = true ↔ q = p) ↔
        q = p ∨ (encode q).take 72 ≠ (encode p).take 72)) ∧
      ((∀ q, acceptedByLoginRequest q → (verifyPassword bcrypt q hashed = true ↔ q = p)) ↔
        (encode p).length < 72) := by
  obtain ⟨hashed, hsome, hhash⟩ := hashPassword_eq hb salt p
  refine ⟨hashed, hsome, fun q _ => ?_, ?_⟩
  · rw [verify_hash_iff hb hhash]
    constructor
    · intro h
      by_cases hq : q = p
      · exact Or.inl hq
      · exact Or.inr fun heq => hq (h.mp heq)
    · rintro (rfl | hne)
      · exact iff_of_true rfl rfl
      · exact iff_of_false hne fun hq => hne (by rw [hq])
  · constructor
    · intro hall
      by_contra hlong
      obtain ⟨q, hq, hne, heq⟩ := exists_double hp (not_lt.mp hlong)
      exact hne ((hall q hq).mp ((verify_hash_iff hb hhash q).mpr heq))
    · intro hshort q _
      rw [verify_hash_iff hb hhash]
      exact ⟨eq_of_take_eq hshort, fun hq => by rw [hq]⟩

/-! ## Long passwords

A hash that can be looked through: the 72 bytes themselves, one character for each. -/

/-- Every byte as the character with its number. -/
def bytesAsText (bytes : List UInt8) : Text := bytes.map fun x => Char.ofNat x.toNat

theorem bytesAsText_inj {bytes bytes' : List UInt8} (h : bytesAsText bytes = bytesAsText bytes') :
    bytes = bytes' := by
  refine List.map_injective_iff.mpr (fun x y hxy => ?_) h
  have hvalid : ∀ z : UInt8, (Char.ofNat z.toNat).toNat = z.toNat := by
    intro z
    have hz := z.toNat_lt
    rw [Char.toNat_ofNat, if_pos (Or.inl (by omega))]
  have hnat := congrArg Char.toNat hxy
  rw [hvalid, hvalid] at hnat
  exact UInt8.toNat_inj.mp hnat

/-- A bcrypt that keeps the password, cut to 72 bytes. -/
def lookThrough : Bcrypt where
  Salt := Unit
  hashpw bytes _ := encode (bytesAsText (bytes.take 72))
  checkpw bytes hashed := some (decide (encode (bytesAsText (bytes.take 72)) = hashed))

theorem lookThrough_documented : lookThrough.Documented where
  text _ _ := ⟨_, rfl⟩
  first _ _ _ :=
    ⟨fun h => bytesAsText_inj (encode_inj h), fun h => congrArg (encode ∘ bytesAsText) h⟩
  recomputes _ _ _ := rfl

/-- The letter `a`, as often as that. -/
def manyA (n : Nat) : Text := List.replicate n 'a'

theorem encode_manyA (n : Nat) : encode (manyA n) = List.replicate n 97 := by
  induction n with
  | zero => rfl
  | succ n ih =>
    rw [List.replicate_succ, ← ih]
    rfl

/-- A password of 20 letters is compared in full. -/
theorem manyA_compared : ∃ hashed, hashPassword lookThrough () (manyA 20) = some hashed ∧
    ∀ q, acceptedByLoginRequest q → (verifyPassword lookThrough q hashed = true ↔ q = manyA 20) := by
  have hshort : (encode (manyA 20)).length < 72 := by
    rw [encode_manyA, List.length_replicate]
    decide
  obtain ⟨hashed, hsome, -, hfull⟩ := passwords_compared_iff lookThrough lookThrough_documented ()
    (p := manyA 20) ⟨by decide, by decide⟩
  exact ⟨hashed, hsome, hfull.mpr hshort⟩

/-- Whoever signs up with 72 letters can log in with 73. -/
theorem one_more_letter_accepted : ¬ ∀ (bcrypt : Bcrypt), bcrypt.Documented →
    ∀ (salt : bcrypt.Salt) (p q : Text), acceptedByUserCreate p → acceptedByLoginRequest q →
      ∃ hashed, hashPassword bcrypt salt p = some hashed ∧
        (verifyPassword bcrypt q hashed = true ↔ q = p) := by
  intro h
  obtain ⟨hashed, hsome, hiff⟩ := h lookThrough lookThrough_documented () (manyA 72) (manyA 73)
    ⟨by decide, by decide⟩ ⟨by decide, by decide⟩
  obtain ⟨hashed', hsome', hhash⟩ := hashPassword_eq lookThrough_documented () (manyA 72)
  obtain rfl := Option.some.inj (hsome.symm.trans hsome')
  have htaken := (verify_hash_iff lookThrough_documented hhash (manyA 73)).mpr (by
    rw [encode_manyA, encode_manyA, List.take_replicate, List.take_replicate]
    rfl)
  exact absurd (hiff.mp htaken) (by decide)

end TableFlow.Passwords
