import SmartHospital.Support.Decimal

/-! Arithmetic of a 32-bit `int`. `none` is an overflow, or a division that has no result. -/

/-- Whether a plain `char` is signed is up to the compiler. -/
inductive CharSign where
  | signed | unsigned
  deriving DecidableEq, Repr

/-- A plain `char` promoted to `int`. -/
def CharSign.value (sign : CharSign) (c : UInt8) : Int :=
  match sign with
  | .unsigned => c.toNat
  | .signed => if c.toNat < 128 then c.toNat else c.toNat - 256

theorem CharSign.value_range (sign : CharSign) (c : UInt8) : -128 ≤ sign.value c ∧ sign.value c ≤ 255 := by
  have byte := c.toNat_lt
  cases sign <;> simp only [value]
  · split <;> omega
  · omega

/-- The characters of the basic set have the same value either way. -/
theorem CharSign.value_eq_iff (sign : CharSign) {c : UInt8} {k : Nat} (basic : k < 128) :
    sign.value c = k ↔ c.toNat = k := by
  have byte := c.toNat_lt
  cases sign <;> simp only [value]
  · split <;> omega
  · omega

theorem CharSign.value_inj (sign : CharSign) {c d : UInt8} : sign.value c = sign.value d ↔ c = d := by
  have byte := c.toNat_lt
  have other := d.toNat_lt
  rw [← UInt8.toNat_inj]
  cases sign <;> simp only [value]
  · split <;> split <;> omega
  · omega

namespace CInt

open Decimal (intMin intMax)

def check (z : Int) : Option Int := if intMin ≤ z ∧ z ≤ intMax then some z else none

def add (a b : Int) : Option Int := check (a + b)

def sub (a b : Int) : Option Int := check (a - b)

def mul (a b : Int) : Option Int := check (a * b)

/-- The quotient is truncated towards zero. -/
def quot (a b : Int) : Option Int := if b = 0 then none else check (a.tdiv b)

/-- The remainder has the sign of the dividend. -/
def rem (a b : Int) : Option Int := if b = 0 ∨ (a = intMin ∧ b = -1) then none else some (a.tmod b)

variable {a b z : Int}

@[simp] theorem check_eq_some : check z = some w ↔ w = z ∧ intMin ≤ z ∧ z ≤ intMax := by
  unfold check
  split
  · rename_i inside
    simp [inside,eq_comm]
  · rename_i outside
    simp [outside]

@[simp] theorem quot_eq_some : quot a b = some q ↔ b ≠ 0 ∧ check (a.tdiv b) = some q := by
  unfold quot
  split <;> simp [*]

theorem rem_nonneg (dividend : 0 ≤ a) : rem a b = some r ↔ b ≠ 0 ∧ r = a.tmod b := by
  have notMin : a ≠ intMin := by unfold intMin; omega
  unfold rem
  by_cases zero : b = 0
  · simp [zero]
  · simp [zero,notMin,eq_comm]

end CInt
