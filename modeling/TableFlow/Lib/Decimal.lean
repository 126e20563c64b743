/-
  Decimal numbers: a coefficient and a power of ten, computed with in a context of `p` digits.

  `rescale` gives a number another exponent and has to round where digits are lost.  The rounding
  is a parameter: the arithmetic of Python's `decimal` takes the nearest, ties to even
  (`halfEven`), PostgreSQL's `numeric` the nearest, ties away from zero (`halfUp`).

  Nothing is lost where nothing has to be: `Exact` roundings keep multiples, so a number that the
  new exponent can hold keeps its value (`rescale_eq`), and sums and products of few enough digits
  are those of the coefficients.
-/
import Mathlib

namespace TableFlow.Lib

/-- The number `coefficient * 10 ^ exponent`. -/
structure Decimal where
  coefficient : Int
  exponent : Int
  deriving DecidableEq, Repr

namespace Decimal

/-- The number that the decimal denotes. -/
def value (d : Decimal) : ℚ := d.coefficient * 10 ^ d.exponent

/-! ## Rounding -/

/-- A rounding takes `n` and `m` to an integer near `n / m`. -/
abbrev Rounding := Int → Nat → Int

/-- To the nearest, ties to even. -/
def halfEven : Rounding := fun n m =>
  if 2 * (n % m) < m then n / m
  else if m < 2 * (n % m) then n / m + 1
  else if n / m % 2 = 0 then n / m
  else n / m + 1

/-- To the nearest, ties away from zero. -/
def halfUp : Rounding := fun n m => n.sign * ((2 * n.natAbs + m) / (2 * m) : Nat)

/-- The rounding has nothing to do on multiples. -/
def Exact (round : Rounding) : Prop := ∀ (k : Int) {m : Nat}, 0 < m → round (k * m) m = k

theorem exact_halfEven : Exact halfEven := by
  intro k m hm
  have hdiv : k * (m : Int) / m = k := Int.mul_ediv_cancel k (by omega)
  unfold halfEven
  rw [Int.mul_emod_left, hdiv, if_pos (by omega)]

/-! ## Exponents -/

/-- The coefficient of `d` with exponent `e`. -/
def rescale (round : Rounding) (d : Decimal) (e : Int) : Int :=
  if e ≤ d.exponent then d.coefficient * 10 ^ (d.exponent - e).toNat
  else round d.coefficient (10 ^ (e - d.exponent).toNat)

theorem zpow_split {a b : Int} (h : a ≤ b) :
    (10 : ℚ) ^ b = ((10 ^ (b - a).toNat : Int) : ℚ) * 10 ^ a := by
  push_cast
  rw [← zpow_natCast, ← zpow_add₀ (by norm_num), Int.toNat_of_nonneg (by omega), sub_add_cancel]

/-- **A number that the exponent can hold keeps its value.** -/
theorem rescale_eq {round : Rounding} (hround : Exact round) {d : Decimal} {e n : Int}
    (h : d.value = n * 10 ^ e) : d.rescale round e = n := by
  unfold value at h
  unfold rescale
  split
  · next he =>
    rw [zpow_split he, ← mul_assoc] at h
    exact_mod_cast mul_right_cancel₀ (zpow_ne_zero e (by norm_num : (10 : ℚ) ≠ 0)) h
  · next he =>
    rw [zpow_split (a := d.exponent) (b := e) (by omega), ← mul_assoc] at h
    have hc : d.coefficient = n * ((10 ^ (e - d.exponent).toNat : Nat) : Int) := by
      exact_mod_cast mul_right_cancel₀ (zpow_ne_zero d.exponent (by norm_num : (10 : ℚ) ≠ 0)) h
    rw [hc]
    exact hround n (by positivity)

/-- A number keeps its own coefficient. -/
@[simp] theorem rescale_self {round : Rounding} (c e : Int) : rescale round ⟨c, e⟩ e = c := by
  simp [rescale]

/-! ## A context of finite precision -/

/-- `d` in a context of `p` digits: more digits are rounded off. -/
def fix (p : Nat) (d : Decimal) : Decimal :=
  if d.coefficient.natAbs < 10 ^ p then d
  else
    let lost := (Nat.toDigits 10 d.coefficient.natAbs).length - p
    ⟨halfEven d.coefficient (10 ^ lost), d.exponent + lost⟩

/-- The sum, in a context of `p` digits. -/
def add (p : Nat) (a b : Decimal) : Decimal :=
  let e := min a.exponent b.exponent
  fix p ⟨a.rescale halfEven e + b.rescale halfEven e, e⟩

/-- The product, in a context of `p` digits. -/
def mul (p : Nat) (a b : Decimal) : Decimal :=
  fix p ⟨a.coefficient * b.coefficient, a.exponent + b.exponent⟩

/-- `d` with exponent `e`, `none` where that takes more than `p` digits. -/
def quantize (p : Nat) (d : Decimal) (e : Int) : Option Decimal :=
  if (d.rescale halfEven e).natAbs < 10 ^ p then some ⟨d.rescale halfEven e, e⟩ else none

theorem fix_of_lt {p : Nat} {d : Decimal} (h : d.coefficient.natAbs < 10 ^ p) : fix p d = d := if_pos h

theorem add_of_lt {p : Nat} {a b e : Int} (h : (a + b).natAbs < 10 ^ p) :
    add p ⟨a, e⟩ ⟨b, e⟩ = ⟨a + b, e⟩ := by
  unfold add
  simp only [min_self, rescale_self]
  exact fix_of_lt h

/-- A multiple. -/
theorem mul_of_lt {p : Nat} {a k e : Int} (h : (a * k).natAbs < 10 ^ p) :
    mul p ⟨a, e⟩ ⟨k, 0⟩ = ⟨a * k, e⟩ := by
  unfold mul
  rw [add_zero]
  exact fix_of_lt h

theorem quantize_eq_some {p : Nat} {d q : Decimal} {e : Int} :
    d.quantize p e = some q ↔
      (d.rescale halfEven e).natAbs < 10 ^ p ∧ q = ⟨d.rescale halfEven e, e⟩ := by
  unfold quantize
  split
  · next h => simp [h, eq_comm]
  · next h => simp [h]

end Decimal

end TableFlow.Lib
