/-
  Binary floating-point numbers, and the decimals they are printed as.

  1. **Rounding** — a format has a number of binary digits and a smallest exponent; a rational is
     rounded to the nearest multiple of its last place (`round`), ties to even.  Rounding is
     monotone (`round_mono`), does nothing twice (`round_round`), and moves a number by half of its
     last place at most (`abs_round_sub_le`).
  2. **Printing** — of the decimals that are read as the same number, the shortest one is printed,
     and the nearest one of these (`shortest`).
  3. **Reading what was printed**: a decimal on a grid that is coarser than the last place is the
     shortest one that is read as its number (`shortest_value`).  So it survives the way into the
     format and back.
-/
import TableFlow.Lib.Decimal

namespace TableFlow.Lib

/-! ## The nearest integer -/

/-- The integer nearest to `x`, ties to even. -/
def nearest (x : ℚ) : Int := Decimal.halfEven x.num x.den

/-- **Half a unit is lost at most.** -/
theorem abs_nearest_sub_le (x : ℚ) : |(nearest x : ℚ) - x| ≤ 1 / 2 := by
  have hpos : (0 : ℚ) < x.den := by exact_mod_cast x.den_pos
  have hrem : 0 ≤ x.num % (x.den : Int) := Int.emod_nonneg _ (by exact_mod_cast x.den_nz)
  have hlt : x.num % (x.den : Int) < x.den := Int.emod_lt_of_pos _ (by exact_mod_cast x.den_pos)
  have hdiv : x.num = x.den * (x.num / x.den) + x.num % x.den :=
    (Int.mul_ediv_add_emod x.num x.den).symm
  -- the distance from any integer, as a fraction
  have hdist : ∀ k : Int, (k : ℚ) - x = ((x.den * k - x.num : Int) : ℚ) / x.den := by
    intro k
    conv_lhs => rw [← Rat.num_div_den x]
    push_cast
    field_simp
  rw [hdist, abs_div, abs_of_pos hpos, div_le_iff₀ hpos, ← Int.cast_abs]
  have hint : 2 * |(x.den : Int) * nearest x - x.num| ≤ x.den := by
    rw [← abs_two, ← abs_mul, abs_le]
    unfold nearest Decimal.halfEven
    split
    · constructor <;> linarith
    · split
      · constructor <;> nlinarith
      · split
        · constructor <;> linarith
        · constructor <;> nlinarith
  have : ((2 * |(x.den : Int) * nearest x - x.num| : Int) : ℚ) ≤ x.den := by exact_mod_cast hint
  push_cast at this ⊢
  linarith

@[simp] theorem nearest_intCast (n : Int) : nearest n = n := by
  have := Decimal.exact_halfEven n (m := 1) Nat.one_pos
  rw [Nat.cast_one, mul_one] at this
  exact this

theorem nearest_mono {x y : ℚ} (h : x ≤ y) : nearest x ≤ nearest y := by
  by_contra hlt
  have hx := abs_le.mp (abs_nearest_sub_le x)
  have hy := abs_le.mp (abs_nearest_sub_le y)
  have hstep : (nearest y : ℚ) + 1 ≤ nearest x := by exact_mod_cast not_le.mp hlt
  -- both are as far from their integers as they can be, so they are one number
  have heq : x = y := by linarith
  rw [heq] at hlt
  exact hlt le_rfl

theorem le_nearest {n : Int} {x : ℚ} (h : (n : ℚ) ≤ x) : n ≤ nearest x :=
  (nearest_intCast n).symm.le.trans (nearest_mono h)

theorem nearest_le {n : Int} {x : ℚ} (h : x ≤ n) : nearest x ≤ n :=
  (nearest_mono h).trans (nearest_intCast n).le

/-! ## Formats -/

/-- Binary numbers of `precision` digits below `2 ^ top`, the last digit worth `2 ^ lowest` at
    least. -/
structure FloatFormat where
  precision : Nat
  lowest : Int
  top : Int
  precision_pos : 0 < precision

namespace FloatFormat

variable (f : FloatFormat)

/-- The exponent of the last digit. -/
def exponent (q : ℚ) : Int := max f.lowest (Int.log 2 |q| + 1 - f.precision)

/-- The worth of the last digit. -/
def ulp (q : ℚ) : ℚ := 2 ^ f.exponent q

/-- `q`, rounded to its last digit. -/
def round (q : ℚ) : ℚ := nearest (q / f.ulp q) * f.ulp q

/-- `q` has all its digits in the format. -/
def Normal (q : ℚ) : Prop := 2 ^ (f.lowest + f.precision - 1) ≤ |q|

variable {f} {q q' : ℚ}

theorem ulp_pos (q : ℚ) : 0 < f.ulp q := zpow_pos two_pos _

theorem two_ne : (2 : ℚ) ≠ 0 := two_ne_zero

/-- **Half of the last place is lost at most.** -/
theorem abs_round_sub_le (q : ℚ) : |f.round q - q| ≤ f.ulp q / 2 := by
  have hpos := f.ulp_pos q
  have hq : f.round q - q = (nearest (q / f.ulp q) - q / f.ulp q) * f.ulp q := by
    unfold round
    field_simp
  rw [hq, abs_mul, abs_of_pos hpos]
  have := mul_le_mul_of_nonneg_right (abs_nearest_sub_le (q / f.ulp q)) hpos.le
  linarith

/-- The last place of a number with all its digits. -/
theorem ulp_le (h : f.Normal q) : f.ulp q ≤ |q| * 2 ^ (1 - f.precision : Int) := by
  have hpos : 0 < |q| := (zpow_pos two_pos _).trans_le h
  have hlog : f.lowest + f.precision - 1 ≤ Int.log 2 |q| :=
    (Int.zpow_le_iff_le_log one_lt_two hpos).mp (by exact_mod_cast h)
  have hexp : f.exponent q = Int.log 2 |q| + (1 - f.precision) := by
    unfold exponent
    rw [max_eq_right (by omega)]
    ring
  unfold ulp
  rw [hexp, zpow_add₀ two_ne]
  have hself : (2 : ℚ) ^ Int.log 2 |q| ≤ |q| := by
    exact_mod_cast Int.zpow_log_le_self one_lt_two hpos
  exact mul_le_mul_of_nonneg_right hself (zpow_pos two_pos _).le

@[simp] theorem round_zero : f.round 0 = 0 := by
  unfold round
  rw [zero_div]
  have : nearest (0 : ℚ) = 0 := by exact_mod_cast nearest_intCast 0
  rw [this, Int.cast_zero, zero_mul]

theorem exponent_mono (h0 : 0 < |q|) (h : |q| ≤ |q'|) : f.exponent q ≤ f.exponent q' := by
  have := Int.log_mono_right (b := 2) h0 h
  unfold exponent
  omega

/-- A number is below the power of two that its digits go up to. -/
theorem abs_lt_zpow (q : ℚ) : |q| < 2 ^ (f.exponent q + f.precision) := by
  have hlt : |q| < (2 : ℚ) ^ (Int.log 2 |q| + 1) := by
    exact_mod_cast Int.lt_zpow_succ_log_self (b := 2) one_lt_two |q|
  refine hlt.trans_le (zpow_le_zpow_right₀ one_le_two ?_)
  unfold exponent
  omega

/-- The multiples of the last place below and above bound the rounded number. -/
theorem le_round {n : Int} (h : n * f.ulp q ≤ q) : n * f.ulp q ≤ f.round q :=
  mul_le_mul_of_nonneg_right (by exact_mod_cast le_nearest ((le_div_iff₀ (f.ulp_pos q)).mpr h))
    (f.ulp_pos q).le

theorem round_le {n : Int} (h : q ≤ n * f.ulp q) : f.round q ≤ n * f.ulp q :=
  mul_le_mul_of_nonneg_right (by exact_mod_cast nearest_le ((div_le_iff₀ (f.ulp_pos q)).mpr h))
    (f.ulp_pos q).le

theorem round_nonneg (h : 0 ≤ q) : 0 ≤ f.round q := by
  have := le_round (f := f) (q := q) (n := 0) (by simpa using h)
  simpa using this

/-- **Rounding keeps the order.** -/
theorem round_mono (h0 : 0 ≤ q) (h : q ≤ q') : f.round q ≤ f.round q' := by
  rcases h0.eq_or_lt with rfl | hpos
  · rw [round_zero]
    exact round_nonneg h
  have habs : |q| ≤ |q'| := by rwa [abs_of_pos hpos, abs_of_pos (hpos.trans_le h)]
  rcases (exponent_mono (f := f) (abs_pos.mpr hpos.ne') habs).eq_or_lt with heq | hlt
  · have hulp : f.ulp q = f.ulp q' := by rw [ulp, heq, ulp]
    unfold round
    rw [hulp]
    refine mul_le_mul_of_nonneg_right ?_ (f.ulp_pos q').le
    exact_mod_cast nearest_mono (div_le_div_of_nonneg_right h (f.ulp_pos q').le)
  · -- a power of two lies between the two, and both formats have it
    have hp := f.precision_pos
    have hbelow : f.round q ≤ 2 ^ (f.exponent q + f.precision) := by
      have hsplit : (2 : ℚ) ^ (f.exponent q + f.precision)
          = ((2 ^ f.precision : Int) : ℚ) * f.ulp q := by
        push_cast
        rw [ulp, zpow_add₀ two_ne, zpow_natCast, mul_comm]
      rw [hsplit]
      refine round_le ?_
      rw [← hsplit]
      exact (le_abs_self q).trans (f.abs_lt_zpow q).le
    have habove : (2 : ℚ) ^ (f.exponent q' + f.precision - 1) ≤ f.round q' := by
      have hsplit : (2 : ℚ) ^ (f.exponent q' + f.precision - 1)
          = ((2 ^ (f.precision - 1) : Int) : ℚ) * f.ulp q' := by
        push_cast
        rw [ulp, ← zpow_natCast, ← zpow_add₀ two_ne]
        congr 1
        omega
      rw [hsplit]
      refine le_round ?_
      rw [← hsplit]
      have hq' : 0 < |q'| := abs_pos.mpr (hpos.trans_le h).ne'
      have hlog : f.exponent q' + f.precision - 1 = Int.log 2 |q'| := by
        have : f.lowest ≤ f.exponent q := le_max_left _ _
        unfold exponent at hlt this ⊢
        omega
      rw [hlog]
      calc (2 : ℚ) ^ Int.log 2 |q'| ≤ |q'| := by
            exact_mod_cast Int.zpow_log_le_self one_lt_two hq'
        _ = q' := abs_of_pos (hpos.trans_le h)
    refine hbelow.trans (le_trans (zpow_le_zpow_right₀ one_le_two ?_) habove)
    omega

/-- A number that the format has is left alone. -/
theorem round_of_digits {m k : Int} (hm : |m| < 2 ^ f.precision) (hk : f.lowest ≤ k) :
    f.round (m * 2 ^ k) = m * 2 ^ k := by
  rcases eq_or_ne m 0 with rfl | hne
  · simp
  have habs : |(m : ℚ) * 2 ^ k| = |m| * 2 ^ k := by
    rw [abs_mul, abs_of_pos (zpow_pos (two_pos : (0 : ℚ) < 2) k), Int.cast_abs]
  have hpos : (0 : ℚ) < |(m : ℚ) * 2 ^ k| := by positivity
  have hlt : |(m : ℚ) * 2 ^ k| < 2 ^ (f.precision + k : Int) := by
    rw [habs, zpow_add₀ two_ne, zpow_natCast]
    refine mul_lt_mul_of_pos_right ?_ (zpow_pos two_pos k)
    exact_mod_cast hm
  have hlog : Int.log 2 |(m : ℚ) * 2 ^ k| < f.precision + k :=
    (Int.lt_zpow_iff_log_lt one_lt_two hpos).mp (by exact_mod_cast hlt)
  obtain ⟨j, hj⟩ : ∃ j : Nat, k = f.exponent (m * 2 ^ k) + j := by
    refine Int.le.dest ?_ |>.imp fun _ h => h.symm
    unfold exponent
    omega
  have hmul : (m : ℚ) * 2 ^ k = ((m * 2 ^ j : Int) : ℚ) * f.ulp (m * 2 ^ k) := by
    conv_lhs => rw [hj]
    push_cast
    rw [ulp, zpow_add₀ two_ne, zpow_natCast]
    ring
  exact le_antisymm (le_of_le_of_eq (round_le hmul.le) hmul.symm)
    (le_of_eq_of_le hmul (le_round hmul.symm.le))

/-- **Rounding twice is rounding once.** -/
theorem round_round (q : ℚ) : f.round (f.round q) = f.round q := by
  have hp := f.precision_pos
  have hk : f.lowest ≤ f.exponent q := le_max_left _ _
  have hbound : |nearest (q / f.ulp q)| ≤ 2 ^ f.precision := by
    have hle : |q / f.ulp q| ≤ ((2 ^ f.precision : Int) : ℚ) := by
      rw [abs_div, abs_of_pos (f.ulp_pos q), div_le_iff₀ (f.ulp_pos q)]
      have := (f.abs_lt_zpow q).le
      rw [add_comm, zpow_add₀ two_ne, zpow_natCast] at this
      push_cast
      exact this
    obtain ⟨hlo, hhi⟩ := abs_le.mp hle
    exact abs_le.mpr ⟨le_nearest (by push_cast at hlo ⊢; exact hlo), nearest_le hhi⟩
  rcases hbound.lt_or_eq with hlt | heq
  · exact round_of_digits hlt hk
  · -- the digits overflowed to a power of two, which is one digit of a higher place
    obtain ⟨s, hs, hsign⟩ : ∃ s : Int, |s| = 1 ∧ nearest (q / f.ulp q) = s * 2 ^ f.precision := by
      rcases abs_choice (nearest (q / f.ulp q)) with h | h
      · exact ⟨1, rfl, by rw [one_mul, ← heq, h]⟩
      · exact ⟨-1, rfl, by rw [neg_one_mul, ← heq, h, neg_neg]⟩
    have hmove : f.round q = s * 2 ^ (f.precision + f.exponent q : Int) := by
      rw [round, hsign, ulp, zpow_add₀ two_ne, zpow_natCast]
      push_cast
      ring
    rw [hmove]
    refine round_of_digits ?_ (by omega)
    rw [hs]
    exact one_lt_pow₀ one_lt_two hp.ne'

/-- The error relative to the number. -/
theorem abs_round_sub_le_mul (h : f.Normal q) : |f.round q - q| ≤ |q| * 2 ^ (-f.precision : Int) := by
  have hhalf : (2 : ℚ) ^ (1 - f.precision : Int) / 2 = 2 ^ (-f.precision : Int) := by
    rw [sub_eq_add_neg, zpow_add₀ two_ne, zpow_one]
    ring
  calc |f.round q - q| ≤ f.ulp q / 2 := abs_round_sub_le q
    _ ≤ |q| * 2 ^ (1 - f.precision : Int) / 2 := div_le_div_of_nonneg_right (ulp_le h) two_pos.le
    _ = |q| * 2 ^ (-f.precision : Int) := by rw [mul_div_assoc, hhalf]

end FloatFormat

/-- A number of the format that is not negative, or what is too large for it. -/
inductive Double (f : FloatFormat)
  | finite (x : ℚ) (h : f.round x = x)
  | infinite

namespace Double

variable {f : FloatFormat}

/-- A number that is not negative, read into the format. -/
def ofRat (f : FloatFormat) (q : ℚ) : Double f :=
  if f.round q < 2 ^ f.top then .finite (f.round q) (FloatFormat.round_round q) else .infinite

/-- `<=` -/
def le : Double f → Double f → Bool
  | .finite x _, .finite y _ => decide (x ≤ y)
  | _, .infinite => true
  | .infinite, .finite _ _ => false

theorem ofRat_of_lt {q : ℚ} (h : f.round q < 2 ^ f.top) :
    ofRat f q = .finite (f.round q) (FloatFormat.round_round q) := if_pos h

/-- **Comparing what was read**, with a number in range on the left, or on the right. -/
theorem le_ofRat {q q' : ℚ} (h : f.round q < 2 ^ f.top) :
    (ofRat f q).le (ofRat f q') = true ↔ f.round q ≤ f.round q' := by
  rw [ofRat_of_lt h, ofRat]
  split
  · simp [le]
  · next h' => exact iff_of_true rfl (h.le.trans (not_lt.mp h'))

theorem ofRat_le {q q' : ℚ} (h' : f.round q' < 2 ^ f.top) :
    (ofRat f q).le (ofRat f q') = true ↔ f.round q ≤ f.round q' := by
  rw [ofRat_of_lt h', ofRat]
  split
  · simp [le]
  · next h => exact iff_of_false (by simp [le]) (not_le.mpr (h'.trans_le (not_lt.mp h)))

end Double

/-! ## Printing -/

namespace FloatFormat

variable (f : FloatFormat)

/-- The exponent of the `n`-th decimal digit of `x`. -/
def place (x : ℚ) (n : Nat) : Int := Int.log 10 x + 1 - n

/-- The decimal of `n` digits that is read as `x`: the nearer one, if both neighbours are, and the
    even one, if they are equally near. -/
def printedWith (x : ℚ) (n : Nat) : Option Decimal :=
  let c := ⌊x / 10 ^ place x n⌋
  let lo : Decimal := ⟨c, place x n⟩
  let hi : Decimal := ⟨c + 1, place x n⟩
  if f.round lo.value = x then
    if f.round hi.value = x then
      if x - lo.value < hi.value - x then some lo
      else if hi.value - x < x - lo.value then some hi
      else if c % 2 = 0 then some lo
      else some hi
    else some lo
  else if f.round hi.value = x then some hi
  else none

/-- The shortest decimal that is read as `x`, of `digits` digits at most; these are enough for every
    number of the format. -/
def shortest (digits : Nat) (x : ℚ) : Decimal :=
  ((List.range' 1 digits).findSome? (f.printedWith x)).getD
    ⟨nearest (x / 10 ^ place x digits), place x digits⟩

variable {f} {x : ℚ}

/-- **What is printed** is a neighbour that is read as the number. -/
theorem printedWith_some {n : Nat} {d : Decimal} (h : f.printedWith x n = some d) :
    d.exponent = place x n ∧ f.round d.value = x ∧
      (d.coefficient = ⌊x / 10 ^ place x n⌋ ∨ d.coefficient = ⌊x / 10 ^ place x n⌋ + 1) := by
  unfold printedWith at h
  dsimp only at h
  split at h
  · next hlo =>
    split at h
    · next hhi =>
      split at h
      · obtain rfl := Option.some.inj h
        exact ⟨rfl, hlo, .inl rfl⟩
      · split at h
        · obtain rfl := Option.some.inj h
          exact ⟨rfl, hhi, .inr rfl⟩
        · split at h
          · obtain rfl := Option.some.inj h
            exact ⟨rfl, hlo, .inl rfl⟩
          · obtain rfl := Option.some.inj h
            exact ⟨rfl, hhi, .inr rfl⟩
    · obtain rfl := Option.some.inj h
      exact ⟨rfl, hlo, .inl rfl⟩
  · split at h
    · next hhi =>
      obtain rfl := Option.some.inj h
      exact ⟨rfl, hhi, .inr rfl⟩
    · exact absurd h nofun

theorem printedWith_ne_none {n : Nat} {c : Int} (hc : f.round (Decimal.mk c (place x n)).value = x)
    (h : c = ⌊x / 10 ^ place x n⌋ ∨ c = ⌊x / 10 ^ place x n⌋ + 1) : f.printedWith x n ≠ none := by
  intro hnone
  unfold printedWith at hnone
  dsimp only at hnone
  split at hnone
  · split at hnone <;> [split at hnone <;> [skip; split at hnone <;> [skip; split at hnone]]; skip]
    all_goals exact absurd hnone nofun
  · next hlo =>
    split at hnone
    · exact absurd hnone nofun
    · next hhi =>
      rcases h with rfl | rfl
      · exact hlo hc
      · exact hhi hc

/-- The first one that is found is not behind any that could be found. -/
theorem findSome?_range'_le {β : Type} {g : Nat → Option β} {digits n : Nat} (hn : n ∈ List.range' 1 digits)
    (h : g n ≠ none) : ∃ m b, m ≤ n ∧ g m = some b ∧
      (List.range' 1 digits).findSome? g = some b := by
  obtain ⟨b, hb⟩ : ∃ b, (List.range' 1 digits).findSome? g = some b :=
    Option.isSome_iff_exists.mp (List.findSome?_isSome_iff.mpr
      ⟨n, hn, Option.isSome_iff_ne_none.mpr h⟩)
  obtain ⟨l₁, m, l₂, hl, hm, hnone⟩ := List.findSome?_eq_some_iff.mp hb
  refine ⟨m, b, ?_, hm, hb⟩
  have hsorted : (l₁ ++ m :: l₂).Pairwise (· < ·) := hl ▸ List.pairwise_lt_range'
  rw [hl, List.mem_append, List.mem_cons] at hn
  rcases hn with hn | rfl | hn
  · exact absurd (hnone n hn) h
  · exact le_rfl
  · exact (List.rel_of_pairwise_cons (List.pairwise_append.mp hsorted).2.1 hn).le

/-- **A decimal on a coarse grid is printed as itself**: it is `q`, it has few enough digits, and
    whatever else is read as the same number is nearer to it than the next one on the grid. -/
theorem shortest_value {digits : Nat} {m g : Int} (hpos : 0 < x)
    (hread : f.round (m * 10 ^ g) = x) (hclose : |x - m * 10 ^ g| < 10 ^ g)
    (hfirst : g ≤ Int.log 10 x) (hlast : Int.log 10 x + 1 - g ≤ digits)
    (hinj : ∀ q, 0 ≤ q → f.round q = x → |q - m * 10 ^ g| < 10 ^ g) :
    (f.shortest digits x).value = m * 10 ^ g := by
  have hg : (0 : ℚ) < 10 ^ g := zpow_pos (by norm_num) g
  -- the number of digits down to the grid
  obtain ⟨n, hn⟩ : ∃ n : Nat, (n : Int) = Int.log 10 x + 1 - g :=
    ⟨(Int.log 10 x + 1 - g).toNat, Int.toNat_of_nonneg (by omega)⟩
  have hplace : place x n = g := by
    unfold place
    omega
  have hneighbour : m = ⌊x / 10 ^ place x n⌋ ∨ m = ⌊x / 10 ^ place x n⌋ + 1 := by
    rw [hplace]
    obtain ⟨hlo, hhi⟩ := abs_lt.mp hclose
    have hx : ((m - 1 : Int) : ℚ) ≤ x / 10 ^ g := by
      rw [le_div_iff₀ hg]
      push_cast
      linarith
    have hx' : x / 10 ^ g < ((m + 1 : Int) : ℚ) := by
      rw [div_lt_iff₀ hg]
      push_cast
      linarith
    have := Int.le_floor.mpr hx
    have := Int.floor_lt.mpr hx'
    omega
  have hsome : f.printedWith x n ≠ none :=
    printedWith_ne_none (c := m) (by rw [hplace]; exact hread) hneighbour
  have hmem : n ∈ List.range' 1 digits := List.mem_range'_1.mpr ⟨by omega, by omega⟩
  obtain ⟨k, d, hk, hd, hfound⟩ := findSome?_range'_le hmem hsome
  have hshort : f.shortest digits x = d := by
    unfold shortest
    rw [hfound, Option.getD_some]
  rw [hshort]
  obtain ⟨hexp, hround, hcoeff⟩ := printedWith_some hd
  -- it has no more digits, so it is on the grid, too
  have hmul : d.value = ((d.coefficient * 10 ^ (d.exponent - g).toNat : Int) : ℚ) * 10 ^ g := by
    have hle : g ≤ d.exponent := by
      rw [hexp, ← hplace]
      unfold place
      omega
    rw [Decimal.value, Decimal.zpow_split hle]
    push_cast
    ring
  have hnonneg : 0 ≤ d.value := by
    have hfloor : 0 ≤ ⌊x / 10 ^ place x k⌋ :=
      Int.floor_nonneg.mpr (div_nonneg hpos.le (zpow_pos (by norm_num) _).le)
    have : (0 : ℚ) ≤ d.coefficient := by
      exact_mod_cast hcoeff.elim (fun h => h ▸ hfloor) (fun h => h ▸ by omega)
    exact mul_nonneg this (zpow_pos (by norm_num) _).le
  have hnear := hinj d.value hnonneg hround
  rw [hmul, ← sub_mul, abs_mul, abs_of_pos hg] at hnear
  have hone := (mul_lt_iff_lt_one_left hg).mp hnear
  rw [hmul]
  congr 1
  have hint : |d.coefficient * 10 ^ (d.exponent - g).toNat - m| < 1 := by exact_mod_cast hone
  exact_mod_cast sub_eq_zero.mp (Int.abs_lt_one_iff.mp hint)

end FloatFormat

end TableFlow.Lib
