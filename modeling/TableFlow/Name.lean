/-
  Guest names: one text in the API, two columns in the new schema.

  Two programs write and compare the two forms, and they do not use the same notion of blank:

  * Python splits a name at its first blank (`splitGuestName`) and puts it together again
    (`joinName`); its blanks are `isSpace`, the characters `str.split()` splits at;
  * SQL compares the two forms (`rebuilt`, `legacy`): `btrim` strips the space character only,
    and `regexp_replace(.., '\s+', ' ', 'g')` collapses the blanks of the database's `\s`
    (`SqlSpace`).

  All of them keep the words of a name (`words_joinName`, `words_rebuilt`, `words_legacy`), which
  is what makes the SQL comparison a sound check of the Python one (`words_eq_of_rebuilt_eq`).
  Splitting loses something only where a part is cut to its column's 60 characters; a name whose
  first word and whose remainder both fit is read back in its normal form (`joinName_split`).
-/
import TableFlow.Lib.Text
import TableFlow.Model

namespace TableFlow

open Lib

/-! ## Blanks -/

/-- The characters Python's `str.split()` and `str.strip()` treat as whitespace. -/
def isSpace (c : Char) : Bool :=
  let n := c.toNat
  (decide (9 ≤ n) && decide (n ≤ 13)) || (decide (28 ≤ n) && decide (n ≤ 32)) ||
    n == 0x85 || n == 0xa0 || n == 0x1680 || (decide (0x2000 ≤ n) && decide (n ≤ 0x200a)) ||
    n == 0x2028 || n == 0x2029 || n == 0x202f || n == 0x205f || n == 0x3000

@[simp] theorem isSpace_space : isSpace ' ' = true := by decide

/-- The class `\s` of the database's regular expressions.  Which characters beyond the ASCII ones
    it holds depends on the database's locale, but they are all Unicode white space. -/
structure SqlSpace where
  isSpace : Char → Bool
  ascii : ∀ c ∈ [' ', '\t', '\n', '\r', '\x0c', '\x0b'], isSpace c = true
  white : ∀ c, isSpace c = true → TableFlow.isSpace c = true

/-- The class in a database with the `C` locale. -/
def SqlSpace.cLocale : SqlSpace where
  isSpace c := [' ', '\t', '\n', '\r', '\x0c', '\x0b'].contains c
  ascii := fun _ hc => List.contains_iff_mem.mpr hc
  white := by
    intro c hc
    have hmem := List.contains_iff_mem.mp hc
    simp only [List.mem_cons, List.not_mem_nil, or_false] at hmem
    rcases hmem with rfl | rfl | rfl | rfl | rfl | rfl <;> decide

/-! ## Python: split and join -/

/-- `split_guest_name`: the first word and the rest, each cut to its column's width. -/
def splitGuestName (full : Text) : Text × Text :=
  let cleaned := join ' ' (words isSpace (strip isSpace full))
  if cleaned = [] then ([], [])
  else
    let (first, last) := partition ' ' cleaned
    (first.take 60, last.take 60)

/-- `" ".join(p for p in (first, last) if p)`: `None` and the empty string are left out. -/
def joinName (first last : Option Text) : Text :=
  join ' ' (([first, last].filterMap id).filter fun p => !p.isEmpty)

/-- A name up to trimming and collapsing whitespace. -/
def normaliseName (n : Text) : Text := normalise isSpace ' ' n

/-- The first word and the remainder of the name each fit their column. -/
def FitsColumns (n : Text) : Prop :=
  ∀ w ws, words isSpace n = w :: ws → w.length ≤ 60 ∧ (join ' ' ws).length ≤ 60

theorem normaliseName_eq_iff (n n' : Text) :
    normaliseName n = normaliseName n' ↔ words isSpace n = words isSpace n' :=
  normalise_eq_iff isSpace_space n n'

/-- A name of blanks only is split into two empty strings. -/
theorem splitGuestName_blank {n : Text} (h : words isSpace n = []) :
    splitGuestName n = ([], []) := by
  unfold splitGuestName
  rw [words_strip (fun _ hc => hc), h, join_nil, if_pos rfl]

/-- Any other name is split into its first word and the join of the others. -/
theorem splitGuestName_words {n w : Text} {ws : List Text} (h : words isSpace n = w :: ws) :
    splitGuestName n = (w.take 60, (join ' ' ws).take 60) := by
  obtain ⟨hne, hw⟩ := words_valid n w (by rw [h]; exact List.mem_cons_self ..)
  unfold splitGuestName
  rw [words_strip (fun _ hc => hc), h, if_neg (join_ne_nil hne ws)]
  simp only [partition_join isSpace_space hw]

/-- Both parts fit their columns. -/
theorem splitGuestName_length (n : Text) :
    (splitGuestName n).1.length ≤ 60 ∧ (splitGuestName n).2.length ≤ 60 := by
  cases h : words isSpace n with
  | nil => rw [splitGuestName_blank h]; exact ⟨Nat.zero_le _, Nat.zero_le _⟩
  | cons w ws =>
    rw [splitGuestName_words h]
    exact ⟨List.length_take_le _ _, List.length_take_le _ _⟩

/-- A part holds letters of the name, and spaces between them. -/
theorem mem_splitGuestName {n : Text} {c : Char}
    (h : c ∈ (splitGuestName n).1 ∨ c ∈ (splitGuestName n).2) : c = ' ' ∨ c ∈ n := by
  have hword : ∀ w ∈ words isSpace n, c ∈ w → c ∈ n := by
    intro w hw hc
    have hflat : c ∈ (words isSpace n).flatten := List.mem_flatten_of_mem hw hc
    rw [flatten_words] at hflat
    exact (List.mem_filter.mp hflat).1
  cases hn : words isSpace n with
  | nil =>
    rw [splitGuestName_blank hn] at h
    exact absurd h (by simp)
  | cons w ws =>
    rw [splitGuestName_words hn] at h
    rw [hn] at hword
    rcases h with h | h
    · exact Or.inr (hword w (List.mem_cons_self ..) (List.mem_of_mem_take h))
    · rcases mem_join (List.mem_of_mem_take h) with hc | ⟨w', hw', hc⟩
      · exact Or.inl hc
      · exact Or.inr (hword w' (List.mem_cons_of_mem _ hw') hc)

/-- The words of an optional part. -/
def partWords (p : Option Text) : List Text := p.elim [] (words isSpace)

theorem partWords_of_filter (ps : List (Option Text)) :
    ((ps.filterMap id).filter fun p => !p.isEmpty).flatMap (words isSpace)
      = ps.flatMap partWords := by
  induction ps with
  | nil => rfl
  | cons p ps ih =>
    cases p with
    | none => exact ih
    | some l =>
      rw [List.flatMap_cons, ← ih]
      cases l with
      | nil => rfl
      | cons c l => rfl

/-- **Joining keeps the words** of both parts, in order. -/
theorem words_joinName (first last : Option Text) :
    words isSpace (joinName first last) = partWords first ++ partWords last := by
  unfold joinName
  rw [words_join isSpace_space, partWords_of_filter]
  simp

/-- **A name that fits its columns is read back in its normal form.** -/
theorem joinName_split {n : Text} (h : FitsColumns n) :
    joinName (some (splitGuestName n).1) (some (splitGuestName n).2) = normaliseName n := by
  unfold normaliseName normalise
  cases hn : words isSpace n with
  | nil => rw [splitGuestName_blank hn]; rfl
  | cons w ws =>
    obtain ⟨hw, hws⟩ := h w ws hn
    have hne : w ≠ [] := (words_valid n w (by rw [hn]; exact List.mem_cons_self ..)).1
    rw [splitGuestName_words hn, List.take_of_length_le hw, List.take_of_length_le hws]
    cases ws with
    | nil =>
      cases w with
      | nil => exact absurd rfl hne
      | cons c w => simp [joinName]
    | cons v ws =>
      have hv : v ≠ [] :=
        (words_valid n v (by rw [hn]; exact List.mem_cons_of_mem _ (List.mem_cons_self ..))).1
      have hv' : (join ' ' (v :: ws)).isEmpty = false := by
        simpa using (join_ne_nil hv ws : join ' ' (v :: ws) ≠ [])
      have hw' : w.isEmpty = false := by simpa using hne
      rw [join_cons_cons]
      simp [joinName, hw', hv', join_cons_cons]

/-! ## SQL: rebuild and compare -/

/-- `btrim(x)`: strips the space character from both ends. -/
def btrim (l : Text) : Text := strip (· == ' ') l

/-- `concat_ws(' ', ..)`: NULLs are skipped, empty strings are not. -/
def concatWs (ps : List (Option Text)) : Text := join ' ' (ps.filterMap id)

/-- `btrim(concat_ws(' ', first_name, last_name))`. -/
def rebuilt (first last : Option Text) : Text := btrim (concatWs [first, last])

/-- `regexp_replace(btrim(guest_name), '\s+', ' ', 'g')`. -/
def legacy (sql : SqlSpace) (guestName : Text) : Text := collapse sql.isSpace ' ' (btrim guestName)

theorem words_btrim (l : Text) : words isSpace (btrim l) = words isSpace l :=
  words_strip (fun c hc => by rw [eq_of_beq hc]; exact isSpace_space) l

/-- **The SQL form of the old column keeps the words.** -/
theorem words_legacy (sql : SqlSpace) (n : Text) :
    words isSpace (legacy sql n) = words isSpace n := by
  unfold legacy
  rw [words_collapse sql.white isSpace_space, words_btrim]

/-- **The SQL form of the new columns keeps the words.** -/
theorem words_rebuilt (first last : Option Text) :
    words isSpace (rebuilt first last) = partWords first ++ partWords last := by
  unfold rebuilt concatWs
  rw [words_btrim, words_join isSpace_space]
  cases first <;> cases last <;> simp [partWords]

/-- **The SQL comparison is sound**: columns it finds equal to `guest_name` hold the same name, up
    to trimming and collapsing whitespace as Python does. -/
theorem words_eq_of_rebuilt_eq {sql : SqlSpace} {first last : Option Text} {n : Text}
    (h : rebuilt first last = legacy sql n) :
    words isSpace (joinName first last) = words isSpace n := by
  rw [words_joinName, ← words_rebuilt, h, words_legacy]

/-! ## Which names survive -/

theorem splitGuestName_parts_words {n w : Text} {ws : List Text} (h : words isSpace n = w :: ws) :
    partWords (some (splitGuestName n).1) ++ partWords (some (splitGuestName n).2)
      = w.take 60 :: words isSpace ((join ' ' ws).take 60) := by
  obtain ⟨hne, hw⟩ := words_valid n w (by rw [h]; exact List.mem_cons_self ..)
  have hne' : w.take 60 ≠ [] := by
    cases w with
    | nil => exact absurd rfl hne
    | cons c w => simp
  rw [splitGuestName_words h]
  show words isSpace (w.take 60) ++ words isSpace ((join ' ' ws).take 60) = _
  rw [words_singleton hne' fun c hc => hw c (List.mem_of_mem_take hc)]
  rfl

/-- **The words survive the split exactly when the name fits its columns.** -/
theorem fitsColumns_iff (n : Text) : FitsColumns n ↔
    partWords (some (splitGuestName n).1) ++ partWords (some (splitGuestName n).2)
      = words isSpace n := by
  cases h : words isSpace n with
  | nil =>
    rw [splitGuestName_blank h]
    exact ⟨fun _ => rfl, fun _ w ws hw => absurd (h.symm.trans hw) (by simp)⟩
  | cons w ws =>
    have hvalid : ∀ v ∈ ws, v ≠ [] ∧ ∀ c ∈ v, isSpace c = false :=
      fun v hv => words_valid n v (by rw [h]; exact List.mem_cons_of_mem _ hv)
    rw [splitGuestName_parts_words h]
    constructor
    · intro hfit
      obtain ⟨hw, hws⟩ := hfit w ws h
      rw [List.take_of_length_le hw, List.take_of_length_le hws,
        words_join_of_valid isSpace_space ws hvalid]
    · intro heq v vs hv
      obtain ⟨rfl, rfl⟩ := List.cons.inj (h.symm.trans hv)
      obtain ⟨hw, hws⟩ := List.cons.inj heq
      refine ⟨List.take_eq_self_iff _ |>.mp hw, ?_⟩
      by_contra hlong
      refine words_take_ne (fun c hc => join_getLast hvalid hc) (Nat.lt_of_not_le hlong) ?_
      rw [hws, words_join_of_valid isSpace_space ws hvalid]

/-- A name that fits is rebuilt in its normal form. -/
theorem rebuilt_split {n : Text} (h : FitsColumns n) :
    rebuilt (some (splitGuestName n).1) (some (splitGuestName n).2) = normaliseName n := by
  have hblank : isSpace ' ' = true := isSpace_space
  have hstrip : btrim (normaliseName n) = normaliseName n := by
    refine strip_eq_self (fun c hc => ?_) fun c hc => ?_
    · have := normalise_head hc
      exact beq_false_of_ne fun hsp => by rw [hsp, hblank] at this; exact absurd this (by decide)
    · have := normalise_getLast hc
      exact beq_false_of_ne fun hsp => by rw [hsp, hblank] at this; exact absurd this (by decide)
  cases hn : words isSpace n with
  | nil =>
    rw [splitGuestName_blank hn]
    unfold normaliseName normalise
    rw [hn]
    rfl
  | cons w ws =>
    obtain ⟨hw, hws⟩ := h w ws hn
    rw [splitGuestName_words hn, List.take_of_length_le hw, List.take_of_length_le hws]
    unfold normaliseName normalise at hstrip ⊢
    rw [hn] at hstrip ⊢
    cases ws with
    | nil =>
      rw [join_singleton] at hstrip ⊢
      exact (strip_concat (by decide) w).trans hstrip
    | cons v vs =>
      rw [join_cons_cons] at hstrip ⊢
      show btrim (join ' ' [w, join ' ' (v :: vs)]) = _
      rw [join_cons_cons, join_singleton]
      exact hstrip

/-- The database sees the blanks of the name as Python does, and `btrim` strips all of those at
    its ends. -/
structure SqlClean (sql : SqlSpace) (n : Text) : Prop where
  blanks : ∀ c ∈ n, isSpace c = true → sql.isSpace c = true
  first : ∀ c, (btrim n).head? = some c → isSpace c = false
  last : ∀ c, (btrim n).getLast? = some c → isSpace c = false

theorem mem_of_mem_btrim {n : Text} {c : Char} (h : c ∈ btrim n) : c ∈ n := by
  unfold btrim strip at h
  exact List.dropWhile_subset _ ((List.rdropWhile_prefix _ _).subset h)

/-- The SQL form of a clean name is its normal form. -/
theorem legacy_of_clean {sql : SqlSpace} {n : Text} (h : SqlClean sql n) :
    legacy sql n = normaliseName n := by
  have hq : ∀ c ∈ btrim n, sql.isSpace c = isSpace c := by
    intro c hc
    rw [Bool.eq_iff_iff]
    exact ⟨sql.white c, h.blanks c (mem_of_mem_btrim hc)⟩
  unfold legacy
  rw [collapse_eq_normalise hq h.first h.last]
  unfold normaliseName normalise
  rw [words_btrim]

/-- Only the SQL form of a clean name is its normal form: blanks that `\s` does not have are kept,
    and a run at an end leaves a space there. -/
theorem clean_of_legacy {sql : SqlSpace} {n : Text} (h : legacy sql n = normaliseName n) :
    SqlClean sql n := by
  have hspace : isSpace ' ' ≠ false := by decide
  have hblanks : ∀ c ∈ n, isSpace c = true → sql.isSpace c = true := by
    intro c hc hsp
    by_contra hsql
    have hne : c ≠ ' ' := by
      rintro rfl
      exact hsql (sql.ascii ' ' (by simp))
    have hleg : c ∈ legacy sql n :=
      mem_collapse (eq_false_of_ne_true hsql) (mem_strip (by simpa using hne) hc) false
    rw [h] at hleg
    rcases mem_normalise hleg with hsep | hletter
    · exact hne hsep
    · rw [hletter] at hsp
      exact absurd hsp (by decide)
  refine ⟨hblanks, fun c hc => ?_, fun c hc => ?_⟩
  · by_contra hsp
    have hsql := hblanks c (mem_of_mem_btrim (List.mem_of_head? hc)) (eq_true_of_ne_false hsp)
    have hhead : (legacy sql n).head? = some ' ' := collapse_head hsql hc
    rw [h] at hhead
    exact hspace (normalise_head hhead)
  · by_contra hsp
    have hsql := hblanks c (mem_of_mem_btrim (List.mem_of_getLast? hc)) (eq_true_of_ne_false hsp)
    have hlast : (legacy sql n).getLast? = some ' ' := collapse_getLast hsql hc
    rw [h] at hlast
    exact hspace (normalise_getLast hlast)

/-- **SQL finds the split of a name equal to the name exactly when the name is clean and fits its
    columns.** -/
theorem rebuilt_split_eq_legacy_iff {sql : SqlSpace} {n : Text} :
    rebuilt (some (splitGuestName n).1) (some (splitGuestName n).2) = legacy sql n ↔
      SqlClean sql n ∧ FitsColumns n := by
  constructor
  · intro h
    have hfit : FitsColumns n := by
      rw [fitsColumns_iff, ← words_rebuilt, h, words_legacy]
    exact ⟨clean_of_legacy ((h.symm.trans (rebuilt_split hfit))), hfit⟩
  · rintro ⟨hclean, hfit⟩
    rw [rebuilt_split hfit, legacy_of_clean hclean]

end TableFlow
