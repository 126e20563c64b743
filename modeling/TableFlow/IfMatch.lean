/-
  How `check_if_match` reads a list of entity tags.

  1. **The header** — entries separated by commas, each with blanks around it: `x`, `"x"` or `W/"x"`
     (`Entry`).  No entry contains a comma, so splitting the header gives its entries back
     (`ifMatchSeen_header`).
  2. **An entry** — blanks, the prefix and the quotes are stripped, and what remains is `x`, however
     it was spelled (`ifMatchEntry_text`).  This is what lets an ETag pass in its weak form too.
  3. **The star** — but a star in quotes remains a star, and the check takes it for the wildcard.
     So the documentation holds exactly when no star in quotes decides (`if_match_documented_iff`).
-/
import TableFlow.Service

namespace TableFlow

open Lib

/-! ## The header -/

/-- The forms of an entry. -/
inductive TagForm
  | bare
  | quoted
  | weak
  deriving DecidableEq

/-- An entity tag in its form. -/
def TagForm.spell : TagForm → Text → Text
  | .bare, x => x
  | .quoted, x => '"' :: x ++ ['"']
  | .weak, x => 'W' :: '/' :: '"' :: x ++ ['"']

/-- An entry of the list. -/
structure Entry where
  before : Text
  form : TagForm
  x : Text
  after : Text
  blanks : ∀ c ∈ before ++ after, isSpace c = true
  nonempty : x ≠ []
  tagChars : ∀ c ∈ x, c ≠ ',' ∧ c ≠ '"' ∧ isSpace c = false
  no_prefix : form = .bare → ['W', '/'].isPrefixOf x = false

/-- The entry without the blanks. -/
def Entry.tag (e : Entry) : Text := e.form.spell e.x

/-- The entry as it is spelled in the header. -/
def Entry.text (e : Entry) : Text := e.before ++ e.tag ++ e.after

/-- The value of the header. -/
def header (entries : List Entry) : Text := join ',' (entries.map Entry.text)

/-! ## An entry -/

theorem mem_spell {f : TagForm} {x : Text} {c : Char} (h : c ∈ f.spell x) :
    c ∈ x ∨ c = '"' ∨ c = 'W' ∨ c = '/' := by
  cases f with
  | bare => exact Or.inl h
  | quoted =>
    simp only [TagForm.spell, List.cons_append, List.mem_cons, List.mem_append,
      List.not_mem_nil, or_false] at h
    tauto
  | weak =>
    simp only [TagForm.spell, List.cons_append, List.mem_cons, List.mem_append,
      List.not_mem_nil, or_false] at h
    tauto

theorem spell_ne_nil {f : TagForm} {x : Text} (hx : x ≠ []) : f.spell x ≠ [] := by
  cases f with
  | bare => exact hx
  | quoted => exact List.cons_ne_nil _ _
  | weak => exact List.cons_ne_nil _ _

section Entry

variable (e : Entry)

/-- No character of a tag is a blank. -/
theorem isSpace_tag {c : Char} (hc : c ∈ e.tag) : isSpace c = false := by
  rcases mem_spell hc with hc | rfl | rfl | rfl
  · exact (e.tagChars c hc).2.2
  · decide
  · decide
  · decide

theorem comma_not_mem_text : ',' ∉ e.text := by
  have hblank : ',' ∉ e.before ++ e.after := fun h => absurd (e.blanks ',' h) (by decide)
  intro h
  rcases List.mem_append.mp h with h | h
  · rcases List.mem_append.mp h with h | h
    · exact hblank (List.mem_append_left _ h)
    · rcases mem_spell h with h | h | h | h
      · exact (e.tagChars ',' h).1 rfl
      · exact absurd h (by decide)
      · exact absurd h (by decide)
      · exact absurd h (by decide)
  · exact hblank (List.mem_append_right _ h)

theorem strip_text : strip isSpace e.text = e.tag :=
  strip_surround (fun c hc => e.blanks c (List.mem_append_left _ hc))
    (fun c hc => e.blanks c (List.mem_append_right _ hc))
    (fun _ hc => isSpace_tag e (List.mem_of_mem_head? hc))
    (fun _ hc => isSpace_tag e (List.mem_of_mem_getLast? hc)) (spell_ne_nil e.nonempty)

theorem no_quote : ∀ c ∈ e.x, (c == '"') = false :=
  fun c hc => beq_eq_false_iff_ne.mpr (e.tagChars c hc).2.1

/-- **An entry is read as its `x`**, in whichever form it is sent. -/
theorem ifMatchEntry_text : ifMatchEntry e.text = e.x := by
  unfold ifMatchEntry
  dsimp only
  rw [strip_text]
  have hquoted : strip (· == '"') (TagForm.quoted.spell e.x) = e.x :=
    strip_wrap (by decide) e.nonempty (no_quote e)
  unfold Entry.tag
  cases hform : e.form with
  | bare =>
    rw [show TagForm.bare.spell e.x = e.x from rfl, e.no_prefix hform, if_neg (by decide)]
    exact strip_eq_self (fun c hc => no_quote e c (List.mem_of_mem_head? hc))
      fun c hc => no_quote e c (List.mem_of_mem_getLast? hc)
  | quoted =>
    rw [if_neg (by simp [TagForm.spell, List.isPrefixOf])]
    exact hquoted
  | weak =>
    rw [if_pos (by simp [TagForm.spell, List.isPrefixOf])]
    exact hquoted

end Entry

/-- The entries of a header are what `check_if_match` sees. -/
theorem ifMatchSeen_header {entries : List Entry} (hne : entries ≠ []) :
    ifMatchSeen (header entries) = entries.map Entry.x := by
  have hcomma : ∀ t ∈ entries.map Entry.text, ',' ∉ t := by
    intro t ht
    obtain ⟨e, -, rfl⟩ := List.mem_map.mp ht
    exact comma_not_mem_text e
  unfold ifMatchSeen header join
  rw [List.splitOn_intercalate ',' hcomma (by simpa using hne), List.map_map]
  exact List.map_congr_left fun e _ => ifMatchEntry_text e

/-- What the check asks of a header: an entry that reads as a star, or as the version. -/
theorem checkIfMatch_header {entries : List Entry} (hne : entries ≠ []) {version : Nat}
    {required : Bool} :
    checkIfMatch version (some (header entries)) required = none ↔
      ∃ e ∈ entries, e.x = ['*'] ∨ e.x = digits version := by
  rw [checkIfMatch_eq_none]
  simp only [reduceCtorEq, false_and, false_or, Option.some.injEq, exists_eq_left',
    ifMatchSeen_header hne, List.mem_map]
  constructor
  · rintro (⟨e, he, hx⟩ | ⟨e, he, hx⟩)
    · exact ⟨e, he, Or.inl hx⟩
    · exact ⟨e, he, Or.inr hx⟩
  · rintro ⟨e, he, hx | hx⟩
    · exact Or.inl ⟨e, he, hx⟩
    · exact Or.inr ⟨e, he, hx⟩

/-! ## The documentation -/

/-- The entry names the version, or it is the star that stands for any version. -/
def Entry.Accepts (e : Entry) (version : Nat) : Prop :=
  e.x = digits version ∨ (e.form = .bare ∧ e.x = ['*'])

/-- What is documented: a header passes when an entry accepts the version.  In particular an ETag,
    strong or weak, passes among other tags exactly when the version is still its own. -/
def Documented (version : Nat) (entries : List Entry) (required : Bool) : Prop :=
  (checkIfMatch version (some (header entries)) required = none ↔
    ∃ e ∈ entries, e.Accepts version) ∧
  ∀ as e bs read, entries = as ++ e :: bs →
    (e.tag = etag read ∨ e.tag = 'W' :: '/' :: etag read) →
    (∀ e' ∈ as ++ bs, ¬ e'.Accepts version) →
    (checkIfMatch version (some (header entries)) required = none ↔ read = version)

/-- What is read depends on the tag alone. -/
theorem ifMatchEntry_tag (e : Entry) : ifMatchEntry e.tag = e.x := by
  have hbare := ifMatchEntry_text { e with before := [], after := [], blanks := by simp }
  simpa only [Entry.text, Entry.tag, List.nil_append, List.append_nil] using hbare

theorem isSpace_of_isDigit {c : Char} (h : c.isDigit = true) : isSpace c = false := by
  have hrange : 48 ≤ c.toNat ∧ c.toNat ≤ 57 := by
    simpa [Char.isDigit, UInt32.le_iff_toNat_le] using h
  unfold isSpace
  simp only [Bool.or_eq_false_iff, Bool.and_eq_false_iff, decide_eq_false_iff_not,
    beq_eq_false_iff_ne]
  omega

theorem star_ne_digits (version : Nat) : ['*'] ≠ digits version := by
  intro h
  have hmem : '*' ∈ digits version := h ▸ List.mem_singleton_self _
  exact absurd (isDigit_of_mem_digits hmem) (by decide)

/-- The ETag of a version, as an entry. -/
def etagEntry (form : TagForm) (hform : form ≠ .bare) (read : Nat) : Entry where
  before := []
  form := form
  x := digits read
  after := []
  blanks := by simp
  nonempty := Nat.toDigits_ne_nil
  tagChars c hc := by
    have hdigit := isDigit_of_mem_digits hc
    refine ⟨?_, ?_, ?_⟩
    · rintro rfl
      exact absurd hdigit (by decide)
    · rintro rfl
      exact absurd hdigit (by decide)
    · exact isSpace_of_isDigit hdigit
  no_prefix h := absurd h hform

/-- An ETag is an entry that names its version. -/
theorem x_of_etag {e : Entry} {read : Nat}
    (h : e.tag = etag read ∨ e.tag = 'W' :: '/' :: etag read) : e.x = digits read := by
  rw [← ifMatchEntry_tag e]
  rcases h with h | h
  · rw [h]
    exact ifMatchEntry_tag (etagEntry .quoted (by decide) read)
  · rw [h]
    exact ifMatchEntry_tag (etagEntry .weak (by decide) read)

/-- **`check_if_match` does what is documented exactly when**, if an entry is a star in quotes,
    some entry accepts the version. -/
theorem if_match_documented_iff (version : Nat) (entries : List Entry) (hne : entries ≠ [])
    (required : Bool) :
    Documented version entries required ↔
      ((∃ e ∈ entries, e.form ≠ .bare ∧ e.x = ['*']) → ∃ e ∈ entries, e.Accepts version) := by
  unfold Documented
  rw [checkIfMatch_header hne]
  constructor
  · rintro ⟨hiff, -⟩ ⟨e, he, -, hx⟩
    exact hiff.mp ⟨e, he, Or.inl hx⟩
  · intro hstar
    have hiff : (∃ e ∈ entries, e.x = ['*'] ∨ e.x = digits version) ↔
        ∃ e ∈ entries, e.Accepts version := by
      constructor
      · rintro ⟨e, he, hx | hx⟩
        · by_cases hform : e.form = .bare
          · exact ⟨e, he, Or.inr ⟨hform, hx⟩⟩
          · exact hstar ⟨e, he, hform, hx⟩
        · exact ⟨e, he, Or.inl hx⟩
      · rintro ⟨e, he, hx | ⟨-, hx⟩⟩
        · exact ⟨e, he, Or.inr hx⟩
        · exact ⟨e, he, Or.inl hx⟩
    refine ⟨hiff, ?_⟩
    rintro as e bs read rfl htag hothers
    have hx := x_of_etag htag
    rw [hiff]
    -- only `e` can accept the current version, and it does so where it was read
    constructor
    · rintro ⟨e', he', haccepts⟩
      have hmem : e' = e ∨ e' ∈ as ++ bs := by
        simpa only [List.mem_append, List.mem_cons, or_left_comm] using he'
      rcases hmem with rfl | hmem
      · rcases haccepts with haccepts | ⟨-, hstar⟩
        · exact digits_inj (hx.symm.trans haccepts)
        · exact absurd (hstar.symm.trans hx) (star_ne_digits read)
      · exact absurd haccepts (hothers e' hmem)
    · rintro rfl
      exact ⟨e, List.mem_append_right _ (List.mem_cons_self ..), Or.inl hx⟩

/-- `*`, in its form. -/
def starEntry (form : TagForm) : Entry where
  before := []
  form := form
  x := ['*']
  after := []
  blanks := by simp
  nonempty := List.cons_ne_nil _ _
  tagChars := by
    intro c hc
    rw [List.mem_singleton.mp hc]
    decide
  no_prefix _ := rfl

/-- `"7", W/"8"`: the list passes for version 8, whatever stands before its weak ETag. -/
theorem weak_etag_passes : Documented 8
    [etagEntry .quoted (by decide) 7, etagEntry .weak (by decide) 8] true :=
  (if_match_documented_iff 8 _ (List.cons_ne_nil _ _) true).mpr fun _ =>
    ⟨etagEntry .weak (by decide) 8, List.mem_cons_of_mem _ (List.mem_singleton_self _), Or.inl rfl⟩

/-- **A star in quotes** passes for every version, although no entry accepts it. -/
theorem quoted_star_passes : ¬ ∀ (version : Nat) (entries : List Entry) (required : Bool),
    entries ≠ [] → Documented version entries required := by
  intro h
  obtain ⟨hiff, -⟩ := h 8 [starEntry .quoted] true (List.cons_ne_nil _ _)
  obtain ⟨e, he, haccepts⟩ := hiff.mp (by decide)
  rw [List.mem_singleton.mp he] at haccepts
  rcases haccepts with hx | ⟨hform, -⟩
  · exact star_ne_digits 8 hx
  · exact absurd hform (by decide)

end TableFlow
