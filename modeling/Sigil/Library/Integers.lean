import Mathlib.Algebra.Order.Ring.Int

namespace Sigil
namespace Library
namespace Integers

/-!
# Signed machine integers

A machine integer has a range.  A build decides what becomes of a result outside of it: the
program stops, or the result is taken around the range.  A product is exact when it is in
the range, and only then.
-/

/-- What a build does with results outside the range. -/
inductive Profile where
  | checked
  | wrapping
  deriving DecidableEq, Repr

variable {w : Nat}

/-- In the range of the integers with `w` bits and a sign. -/
def Fits (w : Nat) (n : Int) : Prop :=
  -(2 ^ w) ≤ n ∧ n < 2 ^ w

instance (w : Nat) (n : Int) : Decidable (Fits w n) :=
  inferInstanceAs (Decidable (_ ∧ _))

/-- Take a number around the range. -/
def wrap (w : Nat) (n : Int) : Int :=
  n.bmod (2 ^ (w + 1))

/-- A product; nothing when the program stops. -/
def Profile.mul (profile : Profile) (w : Nat) (a b : Int) : Option Int :=
  if Fits w (a * b) then some (a * b)
  else
    match profile with
    | .checked => none
    | .wrapping => some (wrap w (a * b))

theorem wrap_fits (w : Nat) (n : Int) : Fits w (wrap w n) := by
  have positive : 0 < 2 ^ (w + 1) := Nat.two_pow_pos (w + 1)
  have low := @Int.le_bmod n _ positive
  have high := @Int.bmod_lt n _ positive
  have double : ((2 ^ (w + 1) : Nat) : Int) = 2 ^ w * 2 := by
    rw [Nat.cast_pow, Nat.cast_ofNat, pow_succ]
  rw [double] at low high
  constructor
  · rw [wrap]
    omega
  · rw [wrap]
    omega

namespace Profile

variable {profile : Profile} {a b c r : Int}

theorem mul_of_fits (fits : Fits w (a * b)) : profile.mul w a b = some (a * b) := by
  simp [mul, fits]

theorem fits_of_mul (product : profile.mul w a b = some r) : Fits w r := by
  unfold mul at product
  split at product
  · next fits =>
      rw [← Option.some.inj product]
      exact fits
  · cases profile with
    | checked => cases product
    | wrapping =>
        rw [← Option.some.inj product]
        exact wrap_fits w (a * b)

theorem mul_of_not_fits (outside : ¬ Fits w (a * b)) :
    profile.mul w a b = if profile = .wrapping then some (wrap w (a * b)) else none := by
  cases profile <;> simp [mul, outside]

/-- A product is exact when it is in the range. -/
theorem mul_exact_iff : profile.mul w a b = some (a * b) ↔ Fits w (a * b) := by
  constructor
  · intro product
    exact fits_of_mul product
  · intro fits
    exact mul_of_fits fits

end Profile

/-- A number is in the range when a multiple of it is. -/
theorem Fits.of_mul {a c : Int} (positive : 0 < c) (fits : Fits w (a * c)) : Fits w a := by
  rcases fits with ⟨low, high⟩
  have one : 1 ≤ c := positive
  have range : (0 : Int) < 2 ^ w := pow_pos (by decide) w
  constructor
  · by_contra below
    rw [not_le] at below
    have further : a * c ≤ a * 1 := mul_le_mul_of_nonpos_left one (by omega)
    omega
  · by_contra above
    rw [not_lt] at above
    have further : a * 1 ≤ a * c := mul_le_mul_of_nonneg_left one (by omega)
    omega

end Integers
end Library
end Sigil
