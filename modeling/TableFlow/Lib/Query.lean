/-
  Queries on tables: what `ORDER BY`, `OFFSET` and `LIMIT` leave open, and what joins and groups
  are made of.

  1. **Order** (`Ordered`) — `ORDER BY` puts the rows in SOME order that agrees with their sort
     keys.  Where the keys are distinct there is only one (`Ordered.unique`).
  2. **Cuts** (`Splits`) — a cut after the first `n` rows splits a key when rows with that key are
     on both sides.  A cut that splits none leaves the same rows in front in every order
     (`Ordered.take_perm`); one that splits a key does not (`exists_straddling`).
  3. **Pages** (`Server`) — a server answers every query with a part of SOME order of the rows that
     match.  Its pages make up the matches when no cut between two of them splits a key
     (`Server.pages_perm`), and only then (`exists_server_twice`).  With distinct keys they are the
     matches in their order (`Server.pages_eq`).
  4. **Joins** — nested loops.  A row with one companion is neither lost nor doubled
     (`pairs_of_unique`), and the groups of an outer join are its rows again (`groupBy_pairs`).
-/
import Mathlib.Data.List.Sort
import Mathlib.Data.List.Nodup
import Mathlib.Data.List.Dedup
import Mathlib.Data.List.Perm.Basic
import Mathlib.Tactic.Common

namespace TableFlow.Lib

/-! ## Order -/

section Order

variable {ρ κ : Type} [LinearOrder κ] {key : ρ → κ} {rows l l' : List ρ}

/-- The rows in an order that agrees with their sort keys. -/
structure Ordered (key : ρ → κ) (rows l : List ρ) : Prop where
  perm : l.Perm rows
  sorted : l.Pairwise fun a b => key a ≤ key b

/-- The rows in one such order. -/
def sortBy (key : ρ → κ) (rows : List ρ) : List ρ :=
  rows.insertionSort fun a b => key a ≤ key b

/-- Sorting by any relation that compares the keys. -/
theorem ordered_insertionSort {r : ρ → ρ → Prop} [DecidableRel r]
    (h : ∀ a b, r a b ↔ key a ≤ key b) : Ordered key rows (rows.insertionSort r) := by
  have : Std.Total r := ⟨fun a b => by rw [h, h]; exact le_total _ _⟩
  have : IsTrans ρ r := ⟨fun a b c hab hbc => (h a c).mpr (((h a b).mp hab).trans ((h b c).mp hbc))⟩
  exact ⟨List.perm_insertionSort _ _, (List.pairwise_insertionSort _ _).imp fun hab => (h _ _).mp hab⟩

theorem ordered_sortBy (key : ρ → κ) (rows : List ρ) : Ordered key rows (sortBy key rows) :=
  ordered_insertionSort fun _ _ => Iff.rfl

theorem Ordered.length_eq (h : Ordered key rows l) : l.length = rows.length := h.perm.length_eq

/-- The rows before and behind a cut are the rows. -/
theorem Ordered.countP_cut (h : Ordered key rows l) (n : Nat) (p : ρ → Bool) :
    rows.countP p = (l.take n).countP p + (l.drop n).countP p := by
  rw [← List.countP_append, List.take_append_drop]
  exact (h.perm.countP_eq p).symm

/-- **Distinct keys leave no choice.** -/
theorem Ordered.unique (h : Ordered key rows l) (h' : Ordered key rows l')
    (hkey : (rows.map key).Nodup) : l = l' := by
  refine List.Perm.eq_of_pairwise (fun a b ha hb hab hba => ?_) h.sorted h'.sorted
    (h.perm.trans h'.perm.symm)
  exact List.inj_on_of_nodup_map hkey (h.perm.mem_iff.mp ha) (h'.perm.mem_iff.mp hb)
    (le_antisymm hab hba)

/-- An order of computed rows is computed from an order of the rows. -/
theorem Ordered.exists_map {α : Type} {f : α → ρ} {as : List α} (h : Ordered key (as.map f) l) :
    ∃ as', Ordered (fun a => key (f a)) as as' ∧ l = as'.map f := by
  have hcomp : Relation.Comp (fun l' as' => l' = as'.map f) List.Perm l as := by
    rw [List.eq_map_comp_perm]
    exact h.perm
  obtain ⟨as', rfl, hperm⟩ := hcomp
  refine ⟨as', ⟨hperm, ?_⟩, rfl⟩
  have hsorted := h.sorted
  rwa [List.pairwise_map] at hsorted

/-- What stands before a cut is not above what stands behind it. -/
theorem Ordered.across (h : Ordered key rows l) (n : Nat) {a b : ρ} (ha : a ∈ l.take n)
    (hb : b ∈ l.drop n) : key a ≤ key b := by
  have hsorted := h.sorted
  rw [← List.take_append_drop n l] at hsorted
  exact (List.pairwise_append.mp hsorted).2.2 a ha b hb

end Order

/-! ## Cuts -/

section Cuts

variable {ρ κ : Type} [LinearOrder κ] {key : ρ → κ} {rows l l' : List ρ} {n : Nat} {c : κ}

/-- How many rows have a smaller key. -/
def below (key : ρ → κ) (rows : List ρ) (c : κ) : Nat := rows.countP fun r => decide (key r < c)

/-- How many rows have a key up to `c`. -/
def upTo (key : ρ → κ) (rows : List ρ) (c : κ) : Nat := rows.countP fun r => decide (key r ≤ c)

/-- The cut after `n` rows has rows with the key `c` on both sides. -/
def Splits (key : ρ → κ) (rows : List ρ) (n : Nat) (c : κ) : Prop :=
  below key rows c < n ∧ n < upTo key rows c

/-- Rows behind a cut: it is full in front. -/
theorem length_take_of_mem_drop {b : ρ} (hb : b ∈ l.drop n) : (l.take n).length = n := by
  have hpos := List.length_pos_of_mem hb
  rw [List.length_drop] at hpos
  rw [List.length_take]
  omega

/-- **Before a cut that splits `c` stands the key `c` at most, and behind it at least.** -/
theorem Ordered.splits_iff (h : Ordered key rows l) :
    Splits key rows n c ↔ (∃ a ∈ l.take n, key a = c) ∧ ∃ b ∈ l.drop n, key b = c := by
  have hbelow : below key rows c = _ := h.countP_cut n fun r => decide (key r < c)
  have hupTo : upTo key rows c = _ := h.countP_cut n fun r => decide (key r ≤ c)
  have htake : (l.take n).length ≤ n := List.length_take_le n l
  constructor
  · rintro ⟨hlt, hgt⟩
    -- behind the cut there is a row up to `c`, so the rows before the cut are so, too
    obtain ⟨b, hb, hbc⟩ : ∃ b ∈ l.drop n, key b ≤ c := by
      by_contra hno
      have hzero : (l.drop n).countP (fun r => decide (key r ≤ c)) = 0 :=
        List.countP_eq_zero.mpr fun b hb hle => hno ⟨b, hb, of_decide_eq_true hle⟩
      have hle := List.countP_le_length (p := fun r => decide (key r ≤ c)) (l := l.take n)
      omega
    have hfull := length_take_of_mem_drop hb
    obtain ⟨a, ha, hac⟩ : ∃ a ∈ l.take n, c ≤ key a := by
      by_contra hno
      have hall : (l.take n).countP (fun r => decide (key r < c)) = (l.take n).length :=
        List.countP_eq_length.mpr fun a ha => by
          simpa using lt_of_not_ge fun hge => hno ⟨a, ha, hge⟩
      omega
    have hab := h.across n ha hb
    exact ⟨⟨a, ha, le_antisymm (hab.trans hbc) hac⟩, b, hb, le_antisymm hbc (hac.trans hab)⟩
  · rintro ⟨⟨a, ha, hac⟩, b, hb, hbc⟩
    have hno : (l.drop n).countP (fun r => decide (key r < c)) = 0 :=
      List.countP_eq_zero.mpr fun x hx => by simpa [hac] using h.across n ha hx
    have hall : (l.take n).countP (fun r => decide (key r ≤ c)) = (l.take n).length :=
      List.countP_eq_length.mpr fun x hx => by simpa [hbc] using h.across n hx hb
    have hlt : (l.take n).countP (fun r => decide (key r < c)) < (l.take n).length := by
      refine lt_of_le_of_ne List.countP_le_length fun heq => ?_
      have := List.countP_eq_length.mp heq a ha
      simp [hac] at this
    have hpos : 0 < (l.drop n).countP fun r => decide (key r ≤ c) :=
      List.countP_pos_iff.mpr ⟨b, hb, by simp [hbc]⟩
    have hfull := length_take_of_mem_drop hb
    unfold Splits
    omega

/-- The rows in front of a cut that splits no key are those with less than `n` smaller keys. -/
theorem Ordered.take_eq_filter (h : Ordered key rows l)
    (hcut : ∀ r ∈ rows, ¬ Splits key rows n (key r)) :
    l.take n = l.filter fun r => decide (below key rows (key r) < n) := by
  have hbelow : ∀ c, below key rows c = _ := fun c => h.countP_cut n fun r => decide (key r < c)
  have hfront : ∀ a ∈ l.take n, below key rows (key a) < n := by
    intro a ha
    have hno : (l.drop n).countP (fun r => decide (key r < key a)) = 0 :=
      List.countP_eq_zero.mpr fun x hx => by simpa using h.across n ha hx
    have hlt : (l.take n).countP (fun r => decide (key r < key a)) < (l.take n).length := by
      refine lt_of_le_of_ne List.countP_le_length fun heq => ?_
      simpa using List.countP_eq_length.mp heq a ha
    have hlen := List.length_take_le n l
    rw [hbelow]
    omega
  have hback : ∀ b ∈ l.drop n, n ≤ below key rows (key b) := by
    intro b hb
    have hall : (l.take n).countP (fun r => decide (key r < key b)) = (l.take n).length := by
      refine List.countP_eq_length.mpr fun a ha => decide_eq_true ?_
      refine lt_of_le_of_ne (h.across n ha hb) fun heq => ?_
      exact hcut b (h.perm.mem_iff.mp (List.mem_of_mem_drop hb))
        (h.splits_iff.mpr ⟨⟨a, ha, heq⟩, b, hb, rfl⟩)
    rw [hbelow, hall, length_take_of_mem_drop hb]
    omega
  conv_rhs => rw [← List.take_append_drop n l, List.filter_append]
  rw [List.filter_eq_self.mpr fun a ha => decide_eq_true (hfront a ha),
    List.filter_eq_nil_iff.mpr fun b hb => by simpa using hback b hb, List.append_nil]

/-- **A cut that splits no key** has the same rows in front of it in every order. -/
theorem Ordered.take_perm (h : Ordered key rows l) (h' : Ordered key rows l')
    (hcut : ∀ r ∈ rows, ¬ Splits key rows n (key r)) : (l.take n).Perm (l'.take n) := by
  rw [h.take_eq_filter hcut, h'.take_eq_filter hcut]
  exact (h.perm.trans h'.perm.symm).filter _

/-- **A cut that splits a key** can have the same row in front of it in one order and behind it in
    another. -/
theorem exists_straddling {r : ρ} (h : Splits key rows (n + 1) (key r)) :
    ∃ l l' x, Ordered key rows l ∧ Ordered key rows l' ∧ l[n + 1]? = some x ∧ l'[n]? = some x := by
  have hsort := ordered_sortBy key rows
  generalize sortBy key rows = l at hsort
  obtain ⟨⟨a, ha, hac⟩, b, hb, hbc⟩ := hsort.splits_iff.mp h
  have hlen : n + 1 < l.length := by
    have := List.length_pos_of_mem hb
    rw [List.length_drop] at this
    omega
  -- the two rows next to the cut have the key that is split, so they can change places
  obtain ⟨A, y, x, B, rfl, rfl⟩ : ∃ A y x B, l = A ++ y :: x :: B ∧ A.length = n := by
    refine ⟨l.take n, l[n], l[n + 1], l.drop (n + 2), ?_, by rw [List.length_take]; omega⟩
    rw [List.getElem_cons_drop, List.getElem_cons_drop, List.take_append_drop]
  have htake : (A ++ y :: x :: B).take (A.length + 1) = A ++ [y] := by
    rw [List.take_length_add_append]
    rfl
  have hdrop : (A ++ y :: x :: B).drop (A.length + 1) = x :: B := by
    rw [List.drop_length_add_append]
    rfl
  rw [htake] at ha
  rw [hdrop] at hb
  obtain ⟨hA, hyB, hAyB⟩ := List.pairwise_append.mp hsort.sorted
  obtain ⟨hy, hxB⟩ := List.pairwise_cons.mp hyB
  obtain ⟨hx, hB⟩ := List.pairwise_cons.mp hxB
  have hay : key a ≤ key y := by
    rcases List.mem_append.mp ha with ha | ha
    · exact hAyB a ha y (List.mem_cons_self ..)
    · rw [List.mem_singleton.mp ha]
  have hxb : key x ≤ key b := by
    rcases List.mem_cons.mp hb with rfl | hb
    · exact le_rfl
    · exact hx b hb
  have hxy : key x ≤ key y := by rw [hbc] at hxb; exact hxb.trans (hac ▸ hay)
  refine ⟨A ++ y :: x :: B, A ++ x :: y :: B, x, hsort, ⟨?_, ?_⟩, ?_, ?_⟩
  · exact ((List.Perm.swap y x B).append_left A).trans hsort.perm
  · refine List.pairwise_append.mpr ⟨hA, ?_, fun z hz w hw => ?_⟩
    · refine List.pairwise_cons.mpr ⟨fun w hw => ?_, List.pairwise_cons.mpr ⟨fun w hw => ?_, hB⟩⟩
      · rcases List.mem_cons.mp hw with rfl | hw
        · exact hxy
        · exact hx w hw
      · exact hy w (List.mem_cons_of_mem _ hw)
    · exact hAyB z hz w ((List.Perm.swap y x B).mem_iff.mp hw)
  · rw [List.getElem?_append_right (Nat.le_succ _), Nat.succ_sub (Nat.le_refl _), Nat.sub_self]
    rfl
  · rw [List.getElem?_append_right (Nat.le_refl _), Nat.sub_self]
    rfl

end Cuts

/-! ## Pages -/

section Pages

variable {ρ κ : Type} [LinearOrder κ] {key : ρ → κ} {rows : List ρ}

/-- `OFFSET` and `LIMIT`. -/
def page (l : List ρ) (offset limit : Nat) : List ρ := (l.drop offset).take limit

/-- **The pages of one order are its rows, one after the other.** -/
theorem flatMap_pages (l : List ρ) (limit n : Nat) :
    (List.range n).flatMap (fun k => page l (k * limit) limit) = l.take (n * limit) := by
  induction n with
  | zero => simp
  | succ n ih =>
    rw [List.range_succ, List.flatMap_append, ih, Nat.succ_mul, List.take_add,
      List.flatMap_singleton]
    rfl

/-- Pages of different orders make up the rows of one order if no cut between two pages splits a
    key. -/
theorem pages_perm {orders : Nat → List ρ} (horders : ∀ k, Ordered key rows (orders k))
    {limit : Nat} (hcut : ∀ k, ∀ r ∈ rows, ¬ Splits key rows (k * limit) (key r)) (n : Nat) :
    ((List.range n).flatMap fun k => page (orders k) (k * limit) limit).Perm
      ((sortBy key rows).take (n * limit)) := by
  have hsort := ordered_sortBy key rows
  induction n with
  | zero => simp
  | succ n ih =>
    rw [List.range_succ, List.flatMap_append, List.flatMap_singleton]
    have hfront : ((List.range n).flatMap fun k => page (orders k) (k * limit) limit).Perm
        ((orders n).take (n * limit)) := ih.trans (hsort.take_perm (horders n) (hcut n))
    refine (hfront.append_right _).trans ?_
    unfold page
    rw [← List.take_add, ← Nat.succ_mul]
    exact (horders n).take_perm hsort (hcut (n + 1))

/-- If a cut splits a key, two orders put a row on the page before the cut and on the page behind
    it. -/
theorem exists_twice {limit k : Nat} {r : ρ} (hlimit : 0 < limit)
    (h : Splits key rows ((k + 1) * limit) (key r)) :
    ∃ l l' x, Ordered key rows l ∧ Ordered key rows l' ∧ x ∈ page l' (k * limit) limit ∧
      x ∈ page l ((k + 1) * limit) limit := by
  have hpos : 0 < (k + 1) * limit := Nat.mul_pos (Nat.succ_pos k) hlimit
  obtain ⟨n, hn⟩ := Nat.exists_eq_succ_of_ne_zero hpos.ne'
  rw [Nat.succ_eq_add_one] at hn
  rw [hn] at h ⊢
  obtain ⟨l, l', x, hl, hl', hx, hx'⟩ := exists_straddling h
  have hk : k * limit ≤ n ∧ n < k * limit + limit := by
    have hmul : (k + 1) * limit = k * limit + limit := Nat.succ_mul k limit
    omega
  refine ⟨l, l', x, hl, hl', ?_, ?_⟩
  · refine List.mem_of_getElem? (i := n - k * limit) ?_
    unfold page
    rw [List.getElem?_take_of_lt (by omega), List.getElem?_drop, ← hx']
    congr 1
    omega
  · refine List.mem_of_getElem? (i := 0) ?_
    unfold page
    rw [List.getElem?_take_of_lt hlimit, List.getElem?_drop, ← hx]

end Pages

/-! ## Servers -/

section Servers

variable {ρ κ : Type} [LinearOrder κ]

/-- A query: which rows, in which order, and which part of it. -/
structure Select (ρ κ : Type) where
  matching : ρ → Bool
  key : ρ → κ
  offset : Nat
  limit : Nat

/-- What it may answer: the part, of SOME order of the rows that match. -/
def Select.Answer (q : Select ρ κ) (rows answer : List ρ) : Prop :=
  ∃ l, Ordered q.key (rows.filter q.matching) l ∧ answer = page l q.offset q.limit

/-- A server: its rows, which do not change, and its answers.  Two queries that differ in their
    offset alone may be answered from different orders. -/
structure Server (ρ κ : Type) [LinearOrder κ] where
  rows : List ρ
  run : Select ρ κ → List ρ
  answers : ∀ q : Select ρ κ, q.Answer rows (run q)

/-- `count(*)` leaves no choice. -/
def Server.count (server : Server ρ κ) (matching : ρ → Bool) : Nat := server.rows.countP matching

/-- The pages of a query, one after the other. -/
def Server.pages (server : Server ρ κ) (matching : ρ → Bool) (key : ρ → κ) (limit n : Nat) :
    List ρ :=
  (List.range n).flatMap fun k => server.run ⟨matching, key, k * limit, limit⟩

/-- The answers come from one order for each page. -/
theorem Server.exists_orders (server : Server ρ κ) (matching : ρ → Bool) (key : ρ → κ)
    (limit : Nat) :
    ∃ orders : Nat → List ρ, (∀ k, Ordered key (server.rows.filter matching) (orders k)) ∧
      ∀ k, server.run ⟨matching, key, k * limit, limit⟩ = page (orders k) (k * limit) limit := by
  have hanswers := fun k => server.answers ⟨matching, key, k * limit, limit⟩
  choose orders horders using hanswers
  exact ⟨orders, fun k => (horders k).1, fun k => (horders k).2⟩

/-- **Pages that split no key** are the matches, if there are enough of them. -/
theorem Server.pages_perm (server : Server ρ κ) {matching : ρ → Bool} {key : ρ → κ} {limit n : Nat}
    (hcut : ∀ k, ∀ r ∈ server.rows.filter matching,
      ¬ Splits key (server.rows.filter matching) (k * limit) (key r))
    (hn : (server.rows.filter matching).length ≤ n * limit) :
    (server.pages matching key limit n).Perm (server.rows.filter matching) := by
  obtain ⟨orders, horders, hrun⟩ := server.exists_orders matching key limit
  have hpages := Lib.pages_perm horders hcut n
  have hsort := ordered_sortBy key (server.rows.filter matching)
  rw [List.take_of_length_le (by rw [hsort.length_eq]; exact hn)] at hpages
  unfold Server.pages
  simp only [hrun]
  exact hpages.trans hsort.perm

/-- **With distinct keys** the pages are the matches in their order. -/
theorem Server.pages_eq (server : Server ρ κ) {matching : ρ → Bool} {key : ρ → κ} {limit n : Nat}
    (hkey : ((server.rows.filter matching).map key).Nodup)
    (hn : (server.rows.filter matching).length ≤ n * limit) :
    server.pages matching key limit n = sortBy key (server.rows.filter matching) := by
  obtain ⟨orders, horders, hrun⟩ := server.exists_orders matching key limit
  have hsort := ordered_sortBy key (server.rows.filter matching)
  unfold Server.pages
  simp only [hrun, fun k => (horders k).unique hsort hkey]
  rw [flatMap_pages, List.take_of_length_le (by rw [hsort.length_eq]; exact hn)]

/-- Behind the last match there is nothing. -/
theorem Server.run_eq_nil (server : Server ρ κ) {q : Select ρ κ}
    (h : (server.rows.filter q.matching).length ≤ q.offset) : server.run q = [] := by
  obtain ⟨l, hl, hrun⟩ := server.answers q
  unfold page at hrun
  rw [hrun, List.drop_of_length_le (by rw [hl.length_eq]; exact h), List.take_nil]

/-- A server that answers from the orders it is given. -/
def Server.ofOrders (rows : List ρ) (orders : Select ρ κ → List ρ)
    (h : ∀ q, Ordered q.key (rows.filter q.matching) (orders q)) : Server ρ κ where
  rows := rows
  run q := page (orders q) q.offset q.limit
  answers q := ⟨orders q, h q, rfl⟩

/-- The server whose rows with one key never change places. -/
def Server.stable (rows : List ρ) : Server ρ κ :=
  Server.ofOrders rows (fun q => sortBy q.key (rows.filter q.matching)) fun q =>
    ordered_sortBy q.key (rows.filter q.matching)

/-- A row on two of the pages. -/
theorem Server.not_nodup_pages (server : Server ρ κ) {matching : ρ → Bool} {key : ρ → κ}
    {limit i j n : Nat} (hij : i < j) (hj : j < n) {x : ρ}
    (hi : x ∈ server.run ⟨matching, key, i * limit, limit⟩)
    (hx : x ∈ server.run ⟨matching, key, j * limit, limit⟩) :
    ¬ (server.pages matching key limit n).Nodup := by
  intro hnodup
  have hpairs := (List.nodup_flatMap.mp hnodup).2
  have hrange : [i, j].Sublist (List.range n) := by
    refine List.sublist_of_subperm_of_pairwise (r := (· < ·)) ?_ ?_ List.pairwise_lt_range
    · refine List.subperm_of_subset (by simp [hij.ne]) fun k hk => ?_
      simp only [List.mem_cons, List.not_mem_nil, or_false] at hk
      rw [List.mem_range]
      omega
    · simpa using hij
  have hpair := hpairs.sublist hrange
  rw [List.pairwise_pair] at hpair
  exact hpair hi hx

/-- **Pages that split a key** have a row twice, on some server. -/
theorem exists_server_twice (rows : List ρ) {matching : ρ → Bool} {key : ρ → κ} {limit k n : Nat}
    {r : ρ} (hlimit : 0 < limit)
    (h : Splits key (rows.filter matching) ((k + 1) * limit) (key r)) (hk : k + 1 < n) :
    ∃ server : Server ρ κ, server.rows = rows ∧
      ¬ (server.pages matching key limit n).Nodup := by
  classical
  obtain ⟨l, l', x, hl, hl', hx', hx⟩ := exists_twice hlimit h
  let q : Nat → Select ρ κ := fun i => ⟨matching, key, i * limit, limit⟩
  -- the two queries get the two orders, every other query a stable one
  let orders : Select ρ κ → List ρ := fun p =>
    if p = q k then l' else if p = q (k + 1) then l
    else sortBy p.key (rows.filter p.matching)
  have horders : ∀ p, Ordered p.key (rows.filter p.matching) (orders p) := by
    intro p
    by_cases hp : p = q k
    · simpa [orders, hp] using hl'
    · by_cases hp' : p = q (k + 1)
      · have hne : q (k + 1) ≠ q k := hp' ▸ hp
        simpa [orders, hp', hne] using hl
      · simpa [orders, hp, hp'] using ordered_sortBy p.key (rows.filter p.matching)
  have hne : q (k + 1) ≠ q k := by
    intro heq
    have hoffset : (k + 1) * limit = k * limit := congrArg Select.offset heq
    exact absurd (Nat.eq_of_mul_eq_mul_right hlimit hoffset) (Nat.succ_ne_self k)
  refine ⟨Server.ofOrders rows orders horders, rfl,
    Server.not_nodup_pages _ (Nat.lt_succ_self k) hk (x := x) ?_ ?_⟩
  · change x ∈ page (orders (q k)) (k * limit) limit
    simpa [orders] using hx'
  · change x ∈ page (orders (q (k + 1))) ((k + 1) * limit) limit
    simpa [orders, hne] using hx

end Servers

/-! ## Joins -/

section Joins

variable {α β κ : Type}

/-- Every row with each of its companions. -/
def pairs (f : α → List β) (l : List α) : List (α × β) := l.flatMap fun a => (f a).map (Prod.mk a)

/-- `JOIN`: every pair that belongs together. -/
def innerJoin (on : α → β → Bool) (l : List α) (r : List β) : List (α × β) :=
  pairs (fun a => r.filter (on a)) l

/-- What a `LEFT JOIN` puts beside a row: its matches, or nulls where there is none. -/
def beside : List β → List (Option β)
  | [] => [none]
  | b :: bs => (b :: bs).map some

/-- `LEFT JOIN`. -/
def leftJoin (on : α → β → Bool) (l : List α) (r : List β) : List (α × Option β) :=
  pairs (fun a => beside (r.filter (on a))) l

/-- `GROUP BY`: the keys that occur, each with its rows. -/
def groupBy [DecidableEq κ] (key : α → κ) (rows : List α) : List (κ × List α) :=
  (rows.map key).dedup.map fun k => (k, rows.filter fun a => key a = k)

theorem beside_ne_nil (bs : List β) : beside bs ≠ [] := by cases bs <;> simp [beside]

/-- `count(column)` does not count nulls. -/
theorem countP_beside (bs : List β) : (beside bs).countP Option.isSome = bs.length := by
  cases bs with
  | nil => rfl
  | cons b bs =>
    rw [beside, List.countP_map]
    exact List.countP_eq_length.mpr fun _ _ => rfl

theorem pairs_cons (f : α → List β) (a : α) (l : List α) :
    pairs f (a :: l) = (f a).map (Prod.mk a) ++ pairs f l := List.flatMap_cons ..

/-- A condition on the rows can be checked before they get their companions. -/
theorem filter_pairs (p : α → Bool) (f : α → List β) (l : List α) :
    (pairs f l).filter (fun x => p x.1) = pairs f (l.filter p) := by
  induction l with
  | nil => rfl
  | cons a l ih =>
    rw [pairs_cons, List.filter_append, ih]
    cases hp : p a with
    | true =>
      rw [List.filter_cons_of_pos hp, pairs_cons, List.filter_eq_self.mpr]
      intro x hx
      obtain ⟨b, -, rfl⟩ := List.mem_map.mp hx
      exact hp
    | false =>
      rw [List.filter_cons_of_neg (by simp [hp]), List.filter_eq_nil_iff.mpr, List.nil_append]
      intro x hx
      obtain ⟨b, -, rfl⟩ := List.mem_map.mp hx
      simp [hp]

/-- **A row with one companion** is neither lost nor doubled. -/
theorem pairs_of_unique {f : α → List β} {l : List α} (g : α → β) (h : ∀ a ∈ l, f a = [g a]) :
    pairs f l = l.map fun a => (a, g a) := by
  induction l with
  | nil => rfl
  | cons a l ih =>
    rw [pairs_cons, h a (List.mem_cons_self ..), ih fun b hb => h b (List.mem_cons_of_mem _ hb)]
    rfl

/-- The one row with a key. -/
theorem filter_key_eq [DecidableEq κ] {key : β → κ} {r : List β} {b : β} (hkey : (r.map key).Nodup)
    (hb : b ∈ r) : (r.filter fun b' => key b' = key b) = [b] := by
  induction r with
  | nil => simp at hb
  | cons c r ih =>
    rw [List.map_cons, List.nodup_cons] at hkey
    rcases List.mem_cons.mp hb with rfl | hb
    · rw [List.filter_cons_of_pos (by simp), List.filter_eq_nil_iff.mpr]
      intro b' hb' heq
      exact hkey.1 (of_decide_eq_true heq ▸ List.mem_map_of_mem hb')
    · have hne : key c ≠ key b := fun heq => hkey.1 (heq ▸ List.mem_map_of_mem hb)
      rw [List.filter_cons_of_neg (by simpa using hne)]
      exact ih hkey.2 hb

/-- A key that is repeated is listed once. -/
theorem dedup_repeat [DecidableEq κ] (k : κ) (bs : List β) (rest : List κ) (hbs : bs ≠ [])
    (hk : k ∉ rest) : (bs.map (fun _ => k) ++ rest).dedup = k :: rest.dedup := by
  induction bs with
  | nil => exact absurd rfl hbs
  | cons b bs ih =>
    rw [List.map_cons, List.cons_append]
    by_cases hnil : bs = []
    · subst hnil
      exact List.dedup_cons_of_notMem hk
    · obtain ⟨c, hc⟩ := List.exists_mem_of_ne_nil bs hnil
      rw [List.dedup_cons_of_mem]
      · exact ih hnil
      · exact List.mem_append_left _ (List.mem_map.mpr ⟨c, hc, rfl⟩)

/-- The keys of rows that all have companions. -/
theorem dedup_pairs [DecidableEq κ] {key : α → κ} {f : α → List β} {l : List α}
    (hkey : (l.map key).Nodup) (hf : ∀ a ∈ l, f a ≠ []) :
    ((pairs f l).map fun x => key x.1).dedup = l.map key := by
  induction l with
  | nil => rfl
  | cons a l ih =>
    rw [List.map_cons, List.nodup_cons] at hkey
    rw [pairs_cons, List.map_append, List.map_map]
    have hrest : key a ∉ (pairs f l).map fun x => key x.1 := by
      intro hmem
      obtain ⟨x, hx, heq⟩ := List.mem_map.mp hmem
      obtain ⟨a', ha', hx'⟩ := List.mem_flatMap.mp hx
      obtain ⟨b, -, rfl⟩ := List.mem_map.mp hx'
      exact hkey.1 (heq ▸ List.mem_map_of_mem ha')
    refine (dedup_repeat (key a) (f a) _ (hf a (List.mem_cons_self ..)) hrest).trans ?_
    rw [ih hkey.2 fun a' ha' => hf a' (List.mem_cons_of_mem _ ha'), List.map_cons]

/-- **Grouping by a key of the rows** gives every row its own companions back. -/
theorem groupBy_pairs [DecidableEq κ] {key : α → κ} {f : α → List β} {l : List α}
    (hkey : (l.map key).Nodup) (hf : ∀ a ∈ l, f a ≠ []) :
    groupBy (fun x => key x.1) (pairs f l) = l.map fun a => (key a, (f a).map (Prod.mk a)) := by
  unfold groupBy
  rw [dedup_pairs hkey hf, List.map_map]
  refine List.map_congr_left fun a ha => Prod.ext rfl ?_
  change (pairs f l).filter (fun x => decide (key x.1 = key a)) = _
  rw [filter_pairs (fun a' => decide (key a' = key a)), filter_key_eq hkey ha, pairs_cons]
  exact List.append_nil _

end Joins

end TableFlow.Lib
