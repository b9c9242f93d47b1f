import Mathlib.Tactic

/-!
# Machine numbers

The conversions between the number types of a machine that are not exact everywhere: an unsigned
word read as a signed one (`asInt`), the difference of two signed words, which may leave the type
(`intSub`), and an integer converted to a double, which has 53 bits (`float64`). Each comes with
the range in which it is exact.
-/

namespace Numbers

/-! ### Signed words -/

/-- A word of 32 bits, read as a signed number. -/
def asInt (x : UInt32) : ℤ := if x.toNat < 2 ^ 31 then x.toNat else x.toNat - 2 ^ 32

/-- The difference of two signed words: undefined if it leaves the type. -/
def intSub (a b : ℤ) : Option ℤ :=
  if -2 ^ 31 ≤ a - b ∧ a - b < 2 ^ 31 then some (a - b) else none

theorem asInt_mem (x : UInt32) : -2 ^ 31 ≤ asInt x ∧ asInt x < 2 ^ 31 := by
  have hx := x.toNat_lt
  rw [asInt]
  split_ifs <;> omega

/-- The difference of two signed words stays in the type if they have the same sign. -/
theorem intSub_of_sign {a b : ℤ} (ha : -2 ^ 31 ≤ a ∧ a < 2 ^ 31) (hb : -2 ^ 31 ≤ b ∧ b < 2 ^ 31)
    (h : 0 ≤ a ↔ 0 ≤ b) : intSub a b = some (a - b) := by
  rw [intSub, if_pos]
  by_cases hsign : 0 ≤ a
  · have hsign' := h.mp hsign
    omega
  · have hsign' := mt h.mpr hsign
    omega

/-! ### Doubles -/

/-- The double next to a natural number: at most 53 bits, and a tie goes to the even one. -/
def float64 (n : ℕ) : ℕ :=
  if n < 2 ^ 53 then n
  else
    let unit := 2 ^ (n.log2 - 52)
    let down := n / unit
    let rest := 2 * (n % unit)
    if rest < unit ∨ rest = unit ∧ down % 2 = 0 then down * unit else (down + 1) * unit

theorem float64_of_lt {n : ℕ} (h : n < 2 ^ 53) : float64 n = n := if_pos h

/-- The first number that is not a double lies between two even ones. -/
example : float64 (2 ^ 53 + 1) = 2 ^ 53 ∧ float64 (2 ^ 53 + 3) = 2 ^ 53 + 4 := by decide

end Numbers
