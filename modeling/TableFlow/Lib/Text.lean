/-
  Words, blanks and the two ways of normalising them.

  A text is a list over any alphabet `α`; `p : α → Bool` says which letters are BLANK and `sep` is
  one fixed separator.  The operations are those string libraries offer:

  * `words p l`      — the maximal runs of non-blank letters (a split at runs of blanks);
  * `strip p l`      — drop the blanks at both ends;
  * `join sep ws`    — concatenate with `sep` between the parts;
  * `partition sep l` — what stands before and after the first `sep`;
  * `collapse q sep l` — replace each maximal run of `q`-letters by one `sep`;
  * `normalise p sep l` — the words of `l`, joined again by single separators.

  Everything is read through `words`: each operation that only touches blanks leaves `words`
  alone (`words_strip`, `words_collapse`, `words_append_sep`), so "equal up to trimming and
  collapsing blanks" is equality of `words`, and `normalise` is its canonical representative
  (`normalise_eq_iff`).
-/
import Mathlib.Tactic.Common
import Mathlib.Data.List.DropRight
import Mathlib.Data.List.Chain

namespace TableFlow.Lib

variable {α : Type}

/-! ## The operations -/

/-- The maximal runs of letters that are not blank. -/
def words (p : α → Bool) (l : List α) : List (List α) :=
  (l.splitOnP p).filter (fun w => !w.isEmpty)

/-- Drop the blanks at both ends. -/
def strip (p : α → Bool) (l : List α) : List α := (l.dropWhile p).rdropWhile p

/-- Concatenate, with `sep` between the parts. -/
def join (sep : α) (ws : List (List α)) : List α := [sep].intercalate ws

/-- What stands before the first `sep`, and what stands after it. -/
def partition [DecidableEq α] (sep : α) (l : List α) : List α × List α :=
  (l.takeWhile (· ≠ sep), (l.dropWhile (· ≠ sep)).tail)

/-- Replace each maximal run of `q`-letters by one `sep`; `inRun` tells whether the run the next
    letter may continue has been replaced already. -/
def collapseFrom (q : α → Bool) (sep : α) : Bool → List α → List α
  | _, [] => []
  | inRun, c :: l =>
      if q c then (if inRun then collapseFrom q sep true l else sep :: collapseFrom q sep true l)
      else c :: collapseFrom q sep false l

/-- Replace each maximal run of `q`-letters by one `sep`. -/
def collapse (q : α → Bool) (sep : α) (l : List α) : List α := collapseFrom q sep false l

/-- The words of a text, joined by single separators. -/
def normalise (p : α → Bool) (sep : α) (l : List α) : List α := join sep (words p l)

section Words

variable {p q : α → Bool} {sep : α}

/-! ## `words`, letter by letter -/

@[simp] theorem words_nil : words p ([] : List α) = [] := rfl

/-- A blank between two texts separates their words. -/
theorem words_append_sep (hsep : p sep = true) (l l' : List α) :
    words p (l ++ sep :: l') = words p l ++ words p l' := by
  unfold words
  rw [List.splitOnP_append_cons l l' hsep, List.filter_append]

/-- A blank in front belongs to no word. -/
theorem words_cons_blank {c : α} (hc : p c = true) (l : List α) :
    words p (c :: l) = words p l :=
  words_append_sep hc [] l

/-- A blank at the end belongs to no word. -/
theorem words_concat_blank {c : α} (hc : p c = true) (l : List α) :
    words p (l ++ [c]) = words p l := by
  rw [words_append_sep hc l [], words_nil, List.append_nil]

/-- A non-empty text without blanks is one word. -/
theorem words_singleton {w : List α} (hne : w ≠ []) (hw : ∀ c ∈ w, p c = false) :
    words p w = [w] := by
  unfold words
  rw [List.splitOnP_eq_singleton hw]
  cases w with
  | nil => exact absurd rfl hne
  | cons c w => rfl

/-- A letter that is no blank becomes the head of the first chunk, the rest of the chunks
    stays. -/
theorem words_cons_letter {c : α} (hc : p c = false) (l : List α) :
    ∃ w ws, words p (c :: l) = (c :: w) :: ws ∧ words p l = (if w = [] then ws else w :: ws) := by
  obtain ⟨w, ws, hsplit⟩ := List.exists_cons_of_ne_nil (List.splitOnP_ne_nil p l)
  refine ⟨w, ws.filter (fun w => !w.isEmpty), ?_, ?_⟩
  · unfold words
    rw [List.splitOnP_cons_eq_if_modifyHead, if_neg (by simp [hc]), hsplit]
    rfl
  · unfold words
    rw [hsplit]
    cases w with
    | nil => rfl
    | cons d w => rfl

/-- The words of a text are not empty and hold no blank. -/
theorem words_valid (l : List α) : ∀ w ∈ words p l, w ≠ [] ∧ ∀ c ∈ w, p c = false := by
  induction l with
  | nil => intro w hw; exact absurd hw (by simp)
  | cons c l ih =>
    intro w hw
    by_cases hc : p c = true
    · rw [words_cons_blank hc] at hw
      exact ih w hw
    · have hc' : p c = false := by simpa using hc
      obtain ⟨v, ws, h1, h2⟩ := words_cons_letter hc' l
      rw [h1] at hw
      rcases List.mem_cons.mp hw with rfl | hw
      · refine ⟨List.cons_ne_nil c v, fun d hd => ?_⟩
        rcases List.mem_cons.mp hd with rfl | hd
        · exact hc'
        · have hv : v ≠ [] := List.ne_nil_of_mem hd
          have hmem : v ∈ words p l := by rw [h2, if_neg hv]; exact List.mem_cons_self ..
          exact (ih v hmem).2 d hd
      · have hmem : w ∈ words p l := by
          rw [h2]
          split
          · exact hw
          · exact List.mem_cons_of_mem _ hw
        exact ih w hmem

/-! ## Operations that only touch blanks leave the words alone -/

theorem words_dropWhile (hqp : ∀ c, q c = true → p c = true) (l : List α) :
    words p (l.dropWhile q) = words p l := by
  induction l with
  | nil => rfl
  | cons c l ih =>
    by_cases hc : q c = true
    · rw [List.dropWhile_cons_of_pos hc, words_cons_blank (hqp c hc), ih]
    · rw [List.dropWhile_cons_of_neg hc]

theorem words_rdropWhile (hqp : ∀ c, q c = true → p c = true) (l : List α) :
    words p (l.rdropWhile q) = words p l := by
  induction l using List.reverseRecOn with
  | nil => rw [List.rdropWhile_nil]
  | append_singleton l c ih =>
    by_cases hc : q c = true
    · rw [List.rdropWhile_concat_pos q l c hc, ih, words_concat_blank (hqp c hc)]
    · rw [List.rdropWhile_concat_neg q l c hc]

/-- Nothing is stripped from a text that neither begins nor ends with a blank. -/
theorem strip_eq_self {l : List α} (hhead : ∀ c, l.head? = some c → p c = false)
    (hlast : ∀ c, l.getLast? = some c → p c = false) : strip p l = l := by
  have hdrop : l.dropWhile p = l := by
    cases l with
    | nil => rfl
    | cons c l => rw [List.dropWhile_cons_of_neg (by rw [hhead c rfl]; decide)]
  unfold strip
  rw [hdrop, List.rdropWhile_eq_self_iff]
  intro hl hp
  rw [hlast _ (List.getLast?_eq_getLast_of_ne_nil hl)] at hp
  exact absurd hp (by decide)

/-- Blanks around a text that neither begins nor ends with one are stripped. -/
theorem strip_surround {as l bs : List α} (has : ∀ c ∈ as, p c = true) (hbs : ∀ c ∈ bs, p c = true)
    (hhead : ∀ c, l.head? = some c → p c = false)
    (hlast : ∀ c, l.getLast? = some c → p c = false) (hne : l ≠ []) :
    strip p (as ++ l ++ bs) = l := by
  obtain ⟨d, l', rfl⟩ := List.exists_cons_of_ne_nil hne
  have hdrop : (as ++ (d :: l') ++ bs).dropWhile p = (d :: l') ++ bs := by
    rw [List.append_assoc, List.dropWhile_append_of_pos has, List.cons_append,
      List.dropWhile_cons_of_neg (by rw [hhead d rfl]; decide)]
  have hrdrop : ∀ bs : List α, (∀ c ∈ bs, p c = true) →
      ((d :: l') ++ bs).rdropWhile p = (d :: l').rdropWhile p := by
    intro bs hbs
    induction bs using List.reverseRecOn with
    | nil => rw [List.append_nil]
    | append_singleton bs c ih =>
      rw [← List.append_assoc, List.rdropWhile_concat_pos _ _ _ (hbs c (by simp)),
        ih fun c' hc' => hbs c' (List.mem_append_left _ hc')]
  unfold strip
  rw [hdrop, hrdrop bs hbs, List.rdropWhile_eq_self_iff]
  intro hl hp
  rw [hlast _ (List.getLast?_eq_getLast_of_ne_nil hl)] at hp
  exact absurd hp (by decide)

/-- A text without blanks is what is left when blanks are put around it. -/
theorem strip_wrap {c : α} (hc : p c = true) {l : List α} (hne : l ≠ [])
    (hl : ∀ c ∈ l, p c = false) : strip p (c :: l ++ [c]) = l := by
  have hblank : ∀ d ∈ [c], p d = true := fun d hd => List.mem_singleton.mp hd ▸ hc
  exact strip_surround hblank hblank (fun d hd => hl d (List.mem_of_mem_head? hd))
    (fun d hd => hl d (List.mem_of_mem_getLast? hd)) hne

/-- A blank at the end is stripped. -/
theorem strip_concat {c : α} (hc : p c = true) (l : List α) : strip p (l ++ [c]) = strip p l := by
  unfold strip
  rw [List.dropWhile_append]
  split
  · next h =>
    rw [List.isEmpty_iff.mp h, List.dropWhile_cons_of_pos hc]
    rfl
  · rw [List.rdropWhile_concat_pos _ _ _ hc]

/-- Trimming letters that are all blank keeps the words. -/
theorem words_strip (hqp : ∀ c, q c = true → p c = true) (l : List α) :
    words p (strip q l) = words p l := by
  unfold strip
  rw [words_rdropWhile hqp, words_dropWhile hqp]

/-- `collapse` under any prefix `a` (so that a word the prefix began is followed too), and inside
    a run that has been replaced already: one induction on the text carries both. -/
theorem words_collapseFrom (hqp : ∀ c, q c = true → p c = true) (hsep : p sep = true)
    (l : List α) :
    (∀ a, words p (a ++ collapseFrom q sep false l) = words p (a ++ l)) ∧
    words p (collapseFrom q sep true l) = words p l := by
  induction l with
  | nil => exact ⟨fun a => rfl, rfl⟩
  | cons c l ih =>
    obtain ⟨ihFree, ihRun⟩ := ih
    by_cases hc : q c = true
    · have hfree : collapseFrom q sep false (c :: l) = sep :: collapseFrom q sep true l := by
        simp [collapseFrom, hc]
      have hrun : collapseFrom q sep true (c :: l) = collapseFrom q sep true l := by
        simp [collapseFrom, hc]
      refine ⟨fun a => ?_, ?_⟩
      · rw [hfree, words_append_sep hsep, words_append_sep (hqp c hc), ihRun]
      · rw [hrun, words_cons_blank (hqp c hc), ihRun]
    · have hstep : ∀ b, collapseFrom q sep b (c :: l) = c :: collapseFrom q sep false l := by
        intro b
        simp [collapseFrom, hc]
      refine ⟨fun a => ?_, ?_⟩
      · rw [hstep, List.append_cons, List.append_cons a c l]
        exact ihFree (a ++ [c])
      · rw [hstep]
        exact ihFree [c]

/-- Collapsing runs of letters that are all blank keeps the words. -/
theorem words_collapse (hqp : ∀ c, q c = true → p c = true) (hsep : p sep = true) (l : List α) :
    words p (collapse q sep l) = words p l :=
  (words_collapseFrom hqp hsep l).1 []

/-! ## `join` and `normalise` -/

@[simp] theorem join_nil (sep : α) : join sep [] = [] := rfl

@[simp] theorem join_singleton (sep : α) (w : List α) : join sep [w] = w := by
  simp [join]

theorem join_cons_cons (sep : α) (w v : List α) (ws : List (List α)) :
    join sep (w :: v :: ws) = w ++ sep :: join sep (v :: ws) := by
  simp [join, List.intercalate_cons_cons]

/-- A join of any parts has the words of the parts, in order. -/
theorem words_join (hsep : p sep = true) (ws : List (List α)) :
    words p (join sep ws) = ws.flatMap (words p) := by
  induction ws with
  | nil => rfl
  | cons w ws ih =>
    cases ws with
    | nil => simp
    | cons v ws =>
      rw [join_cons_cons, words_append_sep hsep, ih]
      rfl

/-- Joining words and splitting again gives the words back. -/
theorem words_join_of_valid (hsep : p sep = true) (ws : List (List α))
    (hws : ∀ w ∈ ws, w ≠ [] ∧ ∀ c ∈ w, p c = false) : words p (join sep ws) = ws := by
  rw [words_join hsep]
  induction ws with
  | nil => rfl
  | cons w ws ih =>
    obtain ⟨hne, hw⟩ := hws w (List.mem_cons_self ..)
    rw [List.flatMap_cons, words_singleton hne hw,
      ih fun v hv => hws v (List.mem_cons_of_mem _ hv)]
    rfl

/-- A text and its normal form have the same words. -/
theorem words_normalise (hsep : p sep = true) (l : List α) :
    words p (normalise p sep l) = words p l :=
  words_join_of_valid hsep _ (words_valid l)

/-- **Normal forms are canonical**: equal up to trimming and collapsing blanks is having the same
    words. -/
theorem normalise_eq_iff (hsep : p sep = true) (l l' : List α) :
    normalise p sep l = normalise p sep l' ↔ words p l = words p l' := by
  constructor
  · intro h
    rw [← words_normalise hsep l, h, words_normalise hsep]
  · intro h
    unfold normalise
    rw [h]

/-- A join of non-empty parts is not empty. -/
theorem join_ne_nil {w : List α} (hne : w ≠ []) (ws : List (List α)) :
    join sep (w :: ws) ≠ [] := by
  cases ws with
  | nil => simpa using hne
  | cons v ws => rw [join_cons_cons]; exact List.append_ne_nil_of_left_ne_nil hne _

/-- Cutting a join of words at the first separator gives the first word and the join of the
    others. -/
theorem partition_join [DecidableEq α] (hsep : p sep = true) {w : List α}
    (hw : ∀ c ∈ w, p c = false) (ws : List (List α)) :
    partition sep (join sep (w :: ws)) = (w, join sep ws) := by
  have hne : ∀ c ∈ w, decide (c ≠ sep) = true := by
    intro c hc
    have hpc := hw c hc
    refine decide_eq_true fun h => ?_
    rw [h, hsep] at hpc
    exact absurd hpc (by decide)
  cases ws with
  | nil =>
    rw [join_singleton, join_nil]
    unfold partition
    rw [List.takeWhile_eq_self_iff.mpr hne, List.dropWhile_eq_nil_iff.mpr hne]
    rfl
  | cons v ws =>
    rw [join_cons_cons]
    unfold partition
    rw [List.takeWhile_append_of_pos hne, List.dropWhile_append_of_pos hne]
    simp

/-! ## What the words leave out -/

/-- The letters of the words are the letters of the text. -/
theorem flatten_words (l : List α) : (words p l).flatten = l.filter fun c => !p c := by
  induction l with
  | nil => rfl
  | cons c l ih =>
    by_cases hc : p c = true
    · rw [words_cons_blank hc, ih, List.filter_cons_of_neg (by simp [hc])]
    · have hc' : p c = false := by simpa using hc
      obtain ⟨w, ws, h1, h2⟩ := words_cons_letter hc' l
      rw [List.filter_cons_of_pos (by simp [hc']), ← ih, h1, h2]
      split
      · next hw => rw [hw]; rfl
      · rfl

/-- A text with a letter has a word. -/
theorem words_ne_nil {l : List α} {c : α} (hl : c ∈ l) (hc : p c = false) : words p l ≠ [] := by
  intro h
  have hfilter : l.filter (fun c => !p c) = [] := by
    rw [← flatten_words, h]
    rfl
  exact absurd (List.filter_eq_nil_iff.mp hfilter c hl) (by simp [hc])

/-- **A text that ends with a letter loses something when it is cut.** -/
theorem words_take_ne {l : List α} (hlast : ∀ c, l.getLast? = some c → p c = false) {k : Nat}
    (hk : k < l.length) : words p (l.take k) ≠ words p l := by
  intro h
  have hfilter : (l.take k).filter (fun c => !p c) = l.filter fun c => !p c := by
    rw [← flatten_words, h, flatten_words]
  have hne : l.drop k ≠ [] := by
    intro hnil
    have := List.drop_eq_nil_iff.mp hnil
    omega
  have hsplit : l.filter (fun c => !p c)
      = (l.take k).filter (fun c => !p c) ++ (l.drop k).filter (fun c => !p c) := by
    rw [← List.filter_append, List.take_append_drop]
  have hnil : (l.drop k).filter (fun c => !p c) = [] := by
    rw [← hfilter] at hsplit
    exact List.self_eq_append_right.mp hsplit
  have hlast' : p ((l.drop k).getLast hne) = false := by
    refine hlast _ ?_
    rw [List.getLast_drop hne]
    exact List.getLast?_eq_getLast_of_ne_nil _
  have := List.filter_eq_nil_iff.mp hnil _ (List.getLast_mem hne)
  rw [hlast'] at this
  exact absurd this (by decide)

theorem mem_strip {l : List α} {c : α} (hc : p c = false) (hl : c ∈ l) : c ∈ strip p l := by
  have hdrop : ∀ l : List α, c ∈ l → c ∈ l.dropWhile p := by
    intro l hl
    rw [← List.takeWhile_append_dropWhile (p := p) (l := l)] at hl
    rcases List.mem_append.mp hl with hl | hl
    · rw [List.mem_takeWhile_imp hl] at hc
      exact absurd hc (by decide)
    · exact hl
  unfold strip List.rdropWhile
  exact List.mem_reverse.mpr (hdrop _ (List.mem_reverse.mpr (hdrop l hl)))

/-- The ends of a stripped text are letters. -/
theorem strip_head {l : List α} {c : α} (h : (strip p l).head? = some c) : p c = false := by
  obtain ⟨t, ht⟩ := List.rdropWhile_prefix p (l.dropWhile p)
  have hhead : (l.dropWhile p).head? = some c := by
    rw [← ht, List.head?_append]
    exact Option.or_eq_some_iff.mpr (Or.inl h)
  have := List.head?_dropWhile_not p l
  rw [hhead] at this
  simpa using this

theorem strip_getLast {l : List α} {c : α} (h : (strip p l).getLast? = some c) : p c = false := by
  have hne : strip p l ≠ [] := by
    intro hnil
    rw [hnil] at h
    exact absurd h (by simp)
  rw [List.getLast?_eq_getLast_of_ne_nil hne] at h
  rw [← Option.some.inj h]
  exact eq_false_of_ne_true (List.rdropWhile_last_not p _ hne)

theorem join_cons_letter (sep c : α) (w : List α) (ws : List (List α)) :
    join sep ((c :: w) :: ws) = c :: join sep (w :: ws) := by
  cases ws with
  | nil => simp
  | cons v ws => rw [join_cons_cons, join_cons_cons, List.cons_append]

theorem mem_join {c : α} {ws : List (List α)} (h : c ∈ join sep ws) : c = sep ∨ ∃ w ∈ ws, c ∈ w := by
  induction ws with
  | nil => exact absurd h List.not_mem_nil
  | cons w ws ih =>
    cases ws with
    | nil =>
      rw [join_singleton] at h
      exact Or.inr ⟨w, List.mem_cons_self .., h⟩
    | cons v ws =>
      rw [join_cons_cons] at h
      rcases List.mem_append.mp h with h | h
      · exact Or.inr ⟨w, List.mem_cons_self .., h⟩
      · rcases List.mem_cons.mp h with h | h
        · exact Or.inl h
        · exact (ih h).imp_right fun ⟨u, hu, hc⟩ => ⟨u, List.mem_cons_of_mem _ hu, hc⟩

/-- The only blank of a normal form is the separator. -/
theorem mem_normalise {l : List α} {c : α} (h : c ∈ normalise p sep l) : c = sep ∨ p c = false :=
  (mem_join h).imp_right fun ⟨w, hw, hc⟩ => (words_valid l w hw).2 c hc

/-- The ends of words that are joined are letters. -/
theorem join_head {ws : List (List α)} (hws : ∀ w ∈ ws, w ≠ [] ∧ ∀ c ∈ w, p c = false) {c : α}
    (h : (join sep ws).head? = some c) : p c = false := by
  cases ws with
  | nil => exact absurd h (by simp)
  | cons w ws =>
    obtain ⟨hne, hletters⟩ := hws w (List.mem_cons_self ..)
    cases w with
    | nil => exact absurd rfl hne
    | cons d w =>
      rw [join_cons_letter] at h
      rw [← Option.some.inj h]
      exact hletters d (List.mem_cons_self ..)

theorem join_getLast {ws : List (List α)} (hws : ∀ w ∈ ws, w ≠ [] ∧ ∀ c ∈ w, p c = false)
    {c : α} (h : (join sep ws).getLast? = some c) : p c = false := by
  induction ws with
  | nil => exact absurd h (by simp)
  | cons w ws ih =>
    cases ws with
    | nil =>
      rw [join_singleton] at h
      exact (hws w (List.mem_cons_self ..)).2 c (List.mem_of_getLast? h)
    | cons v ws =>
      have hne : join sep (v :: ws) ≠ [] := join_ne_nil (hws v (by simp)).1 ws
      rw [join_cons_cons, List.getLast?_append_of_ne_nil _ (by simp),
        List.getLast?_cons_of_ne_nil hne] at h
      exact ih (fun u hu => hws u (List.mem_cons_of_mem _ hu)) h

theorem normalise_head {l : List α} {c : α} (h : (normalise p sep l).head? = some c) :
    p c = false :=
  join_head (words_valid l) h

theorem normalise_getLast {l : List α} {c : α} (h : (normalise p sep l).getLast? = some c) :
    p c = false :=
  join_getLast (words_valid l) h

/-! ## What `collapse` leaves -/

theorem mem_collapse {l : List α} {c : α} (hc : q c = false) (hl : c ∈ l) :
    ∀ b, c ∈ collapseFrom q sep b l := by
  induction l with
  | nil => exact absurd hl List.not_mem_nil
  | cons d l ih =>
    intro b
    unfold collapseFrom
    rcases List.mem_cons.mp hl with rfl | hl
    · rw [if_neg (by simp [hc])]
      exact List.mem_cons_self ..
    · split
      · split
        · exact ih hl true
        · exact List.mem_cons_of_mem _ (ih hl true)
      · exact List.mem_cons_of_mem _ (ih hl false)

theorem collapse_head {l : List α} {c : α} (hc : q c = true) (h : l.head? = some c) :
    (collapse q sep l).head? = some sep := by
  cases l with
  | nil => exact absurd h (by simp)
  | cons d l =>
    obtain rfl := Option.some.inj h
    unfold collapse collapseFrom
    simp [hc]

/-- A run at the end leaves its separator, unless it was replaced before. -/
theorem collapseFrom_getLast {c : α} (hc : q c = true) (l : List α) :
    (collapseFrom q sep false (l ++ [c])).getLast? = some sep ∧
      ((collapseFrom q sep true (l ++ [c])).getLast? = some sep ∨
        collapseFrom q sep true (l ++ [c]) = []) := by
  induction l with
  | nil => simp [collapseFrom, hc]
  | cons d l ih =>
    obtain ⟨hfree, hrun⟩ := ih
    rw [List.cons_append]
    by_cases hd : q d = true
    · simp only [collapseFrom, hd, if_true, Bool.false_eq_true, if_false]
      refine ⟨?_, hrun⟩
      rcases hrun with hrun | hrun
      · rw [List.getLast?_cons, hrun]
        rfl
      · rw [hrun]
        rfl
    · simp only [collapseFrom, hd, Bool.false_eq_true, if_false]
      rw [List.getLast?_cons, hfree]
      exact ⟨rfl, Or.inl rfl⟩

theorem collapse_getLast {l : List α} {c : α} (hc : q c = true) (h : l.getLast? = some c) :
    (collapse q sep l).getLast? = some sep := by
  obtain ⟨l', rfl⟩ := List.getLast?_eq_some_iff.mp h
  exact (collapseFrom_getLast hc l').1

/-- Two letters in a row are in the same word. -/
theorem words_cons_letter_letter {c d : α} (hc : p c = false) (hd : p d = false) (l : List α) :
    ∃ w ws, words p (d :: l) = (d :: w) :: ws ∧ words p (c :: d :: l) = (c :: d :: w) :: ws := by
  obtain ⟨w, ws, hsplit⟩ := List.exists_cons_of_ne_nil (List.splitOnP_ne_nil p l)
  refine ⟨w, ws.filter (fun w => !w.isEmpty), ?_, ?_⟩
  · unfold words
    rw [List.splitOnP_cons_eq_if_modifyHead, if_neg (by simp [hd]), hsplit]
    rfl
  · unfold words
    rw [List.splitOnP_cons_eq_if_modifyHead, if_neg (by simp [hc]),
      List.splitOnP_cons_eq_if_modifyHead, if_neg (by simp [hd]), hsplit]
    rfl

section NormaliseCons

variable {c d : α} {l : List α}

theorem normalise_cons_blank (hc : p c = true) : normalise p sep (c :: l) = normalise p sep l := by
  unfold normalise
  rw [words_cons_blank hc]

/-- A letter that a blank follows is a word, if another word comes after it. -/
theorem normalise_letter_blank (hc : p c = false) (hd : p d = true) {e : α} (he : e ∈ l)
    (hpe : p e = false) : normalise p sep (c :: d :: l) = c :: sep :: normalise p sep l := by
  have hone : words p [c] = [[c]] := words_singleton (by simp) (by simpa using hc)
  obtain ⟨v, ws, hws⟩ := List.exists_cons_of_ne_nil (words_ne_nil he hpe)
  unfold normalise
  rw [show words p (c :: d :: l) = words p [c] ++ words p l from words_append_sep hd [c] l, hone,
    hws, List.singleton_append, join_cons_cons]
  rfl

theorem normalise_letter_letter (hc : p c = false) (hd : p d = false) :
    normalise p sep (c :: d :: l) = c :: normalise p sep (d :: l) := by
  obtain ⟨w, ws, h1, h2⟩ := words_cons_letter_letter hc hd l
  unfold normalise
  rw [h1, h2, join_cons_letter _ c]

end NormaliseCons

/-- Collapsing, letter by letter: a run in front leaves one separator, or none if it was replaced
    before; what follows is the normal form. -/
theorem collapseFrom_eq {l : List α} (hq : ∀ c ∈ l, q c = p c)
    (hlast : ∀ c, l.getLast? = some c → p c = false) :
    collapseFrom q sep true l = normalise p sep l ∧
      ((∀ c, l.head? = some c → p c = false) → collapseFrom q sep false l = normalise p sep l) ∧
      ((∃ c, l.head? = some c ∧ p c = true) →
        collapseFrom q sep false l = sep :: normalise p sep l) := by
  induction l with
  | nil => exact ⟨rfl, fun _ => rfl, fun ⟨c, h, _⟩ => absurd h (by simp)⟩
  | cons c l ih =>
    have hlast' : ∀ d, l.getLast? = some d → p d = false := by
      intro d hd
      refine hlast d ?_
      rw [List.getLast?_cons, hd]
      rfl
    obtain ⟨ihRun, ihLetter, ihBlank⟩ := ih (fun d hd => hq d (List.mem_cons_of_mem _ hd)) hlast'
    have hqc : q c = p c := hq c (List.mem_cons_self ..)
    cases hc : p c with
    | true =>
      have hqc' : q c = true := hqc.trans hc
      rw [normalise_cons_blank hc]
      refine ⟨?_, fun h => ?_, fun _ => ?_⟩
      · simp only [collapseFrom, hqc', if_true, ihRun]
      · rw [h c rfl] at hc
        exact absurd hc (by decide)
      · simp only [collapseFrom, hqc', if_true, Bool.false_eq_true, if_false, ihRun]
    | false =>
      have hstep : ∀ b, collapseFrom q sep b (c :: l) = c :: collapseFrom q sep false l := by
        intro b
        simp [collapseFrom, hqc.trans hc]
      have hnext : c :: collapseFrom q sep false l = normalise p sep (c :: l) := by
        cases l with
        | nil =>
          unfold normalise
          rw [words_singleton (by simp) (by simpa using hc), join_singleton]
          rfl
        | cons d l =>
          cases hd : p d with
          | true =>
            -- the blanks end before the text does, so a word follows them
            obtain ⟨e, he⟩ := Option.ne_none_iff_exists'.mp
              (show (d :: l).getLast? ≠ none by simp)
            have hpe := hlast' e he
            have hmem : e ∈ l := by
              rcases List.mem_cons.mp (List.mem_of_getLast? he) with rfl | hmem
              · rw [hd] at hpe
                exact absurd hpe (by decide)
              · exact hmem
            rw [ihBlank ⟨d, rfl, hd⟩, normalise_cons_blank hd, normalise_letter_blank hc hd hmem hpe]
          | false =>
            rw [ihLetter fun x hx => by rw [← Option.some.inj hx]; exact hd,
              normalise_letter_letter hc hd]
      exact ⟨(hstep _).trans hnext, fun _ => (hstep _).trans hnext, fun ⟨d, hd, hpd⟩ => by
        rw [← Option.some.inj hd, hc] at hpd; exact absurd hpd (by decide)⟩

/-- **Collapsing gives the normal form** of a text whose ends are letters. -/
theorem collapse_eq_normalise {l : List α} (hq : ∀ c ∈ l, q c = p c)
    (hhead : ∀ c, l.head? = some c → p c = false)
    (hlast : ∀ c, l.getLast? = some c → p c = false) :
    collapse q sep l = normalise p sep l :=
  (collapseFrom_eq hq hlast).2.1 hhead

/-! ## Texts without double blanks -/

/-- No two blanks stand side by side. -/
abbrev Spaced (p : α → Bool) (l : List α) : Prop := l.IsChain fun a b => ¬ (p a = true ∧ p b = true)

theorem spaced_of_letters {l : List α} (h : ∀ c ∈ l, p c = false) : Spaced p l := by
  induction l with
  | nil => exact .nil
  | cons c l ih =>
    refine List.isChain_cons.mpr ⟨fun d _ hcd => ?_, ih fun d hd => h d (List.mem_cons_of_mem _ hd)⟩
    rw [h c (List.mem_cons_self ..)] at hcd
    exact absurd hcd.1 (by decide)

/-- A separator stands between a text without blanks and one that does not begin with any. -/
theorem Spaced.part {a b : List α} (h : Spaced p b) (hab : a <:+: b) : Spaced p a := by
  obtain ⟨s, t, rfl⟩ := hab
  exact (List.isChain_append.mp (List.isChain_append.mp h).1).2.1

theorem Spaced.separate {a b : List α} (ha : ∀ c ∈ a, p c = false) (hb : Spaced p b)
    (hhead : ∀ c, b.head? = some c → p c = false) : Spaced p (a ++ sep :: b) := by
  refine List.isChain_append.mpr ⟨spaced_of_letters ha, List.isChain_cons.mpr ⟨?_, hb⟩, ?_⟩
  · intro d hd hsd
    rw [hhead d hd] at hsd
    exact absurd hsd.2 (by decide)
  · intro c hc d _ hcd
    rw [ha c (List.mem_of_mem_getLast? hc)] at hcd
    exact absurd hcd.1 (by decide)

/-- **Words joined by single separators are spaced.** -/
theorem spaced_join {ws : List (List α)} (hws : ∀ w ∈ ws, w ≠ [] ∧ ∀ c ∈ w, p c = false) :
    Spaced p (join sep ws) := by
  induction ws with
  | nil => exact .nil
  | cons w ws ih =>
    have hrest : ∀ v ∈ ws, v ≠ [] ∧ ∀ c ∈ v, p c = false :=
      fun v hv => hws v (List.mem_cons_of_mem _ hv)
    have hw := (hws w (List.mem_cons_self ..)).2
    cases ws with
    | nil =>
      rw [join_singleton]
      exact spaced_of_letters hw
    | cons v ws =>
      rw [join_cons_cons]
      exact Spaced.separate hw (ih hrest) fun _ => join_head hrest

theorem collapseFrom_eq_self {l : List α} (hsep : ∀ c ∈ l, q c = true → c = sep)
    (h : Spaced q l) : collapseFrom q sep false l = l ∧
      ((∀ c, l.head? = some c → q c = false) → collapseFrom q sep true l = l) := by
  induction l with
  | nil => exact ⟨rfl, fun _ => rfl⟩
  | cons c l ih =>
    obtain ⟨hhead, htail⟩ := List.isChain_cons.mp h
    obtain ⟨hout, hin⟩ := ih (fun d hd => hsep d (List.mem_cons_of_mem _ hd)) htail
    unfold collapseFrom
    cases hc : q c with
    | false => exact ⟨by simp [hout], fun _ => by simp [hout]⟩
    | true =>
      refine ⟨?_, fun hletter => absurd hc (by simp [hletter c rfl])⟩
      have hnext : ∀ d, l.head? = some d → q d = false :=
        fun d hd => eq_false_of_ne_true fun hqd => hhead d hd ⟨hc, hqd⟩
      simp [hin hnext, hsep c (List.mem_cons_self ..) hc]

/-- **A spaced text has nothing to collapse**, if its blanks are separators. -/
theorem collapse_eq_self {l : List α} (hsep : ∀ c ∈ l, q c = true → c = sep) (h : Spaced q l) :
    collapse q sep l = l :=
  (collapseFrom_eq_self hsep h).1

theorem strip_isInfix (p : α → Bool) (l : List α) : strip p l <:+: l :=
  (List.rdropWhile_prefix p _).isInfix.trans (List.dropWhile_suffix p).isInfix

/-- A text is stripped once. -/
theorem strip_strip (p : α → Bool) (l : List α) : strip p (strip p l) = strip p l :=
  strip_eq_self (fun _ => strip_head) fun _ => strip_getLast

/-! ## Lengths -/

theorem length_collapseFrom_le (q : α → Bool) (sep : α) (l : List α) :
    ∀ b, (collapseFrom q sep b l).length ≤ l.length := by
  induction l with
  | nil => exact fun _ => Nat.le_refl _
  | cons c l ih =>
    intro b
    unfold collapseFrom
    split
    · split
      · exact Nat.le_succ_of_le (ih true)
      · exact Nat.succ_le_succ (ih true)
    · exact Nat.succ_le_succ (ih false)

theorem length_strip_le (p : α → Bool) (l : List α) : (strip p l).length ≤ l.length := by
  unfold strip
  calc ((l.dropWhile p).rdropWhile p).length
      ≤ (l.dropWhile p).length := (List.rdropWhile_prefix p _).length_le
    _ ≤ l.length := (List.dropWhile_sublist p).length_le

/-- **A normal form is not longer than the text.** -/
theorem length_normalise_le (hsep : p sep = true) (l : List α) :
    (normalise p sep l).length ≤ l.length := by
  have hsame : normalise p sep l = collapse p sep (strip p l) := by
    rw [collapse_eq_normalise (fun _ _ => rfl) (fun _ => strip_head) (fun _ => strip_getLast),
      normalise_eq_iff hsep, words_strip fun _ hc => hc]
  rw [hsame]
  exact (length_collapseFrom_le p sep _ false).trans (length_strip_le p l)

end Words

end TableFlow.Lib
