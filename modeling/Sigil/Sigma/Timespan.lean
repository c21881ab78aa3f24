import Sigil.Core.Slices

namespace Sigil
namespace Sigma

/-!
# Timespans

A timespan is a number and a unit of one letter.  It is split one byte before its end, so a
last character of several bytes stops the program, and its value is a product of machine
integers, which is exact when it is in their range.
-/

open Sigil.Core Library Integers

/-- The errors of a timespan, with the text that they print. -/
inductive TimespanError where
  | number (text : String)
  | unit (text : String)
  | notPositive (text : String)
  deriving DecidableEq, Repr

/-- The seconds in so many units, where the unit is known and the program does not stop. -/
def inSeconds (profile : Profile) (n : Int) : String → Option (Option Int)
  | "s" => some (some n)
  | "m" => some (profile.mul 63 n 60)
  | "h" => some (profile.mul 63 n 3600)
  | "d" => some (profile.mul 63 n 86_400)
  | _ => none

/-- The microseconds in a number of seconds, which has to be positive. -/
def positiveMicros (profile : Profile) (text : String) (secs : Int) :
    Option (Except TimespanError Int) :=
  if secs ≤ 0 then some (.error (.notPositive text))
  else (profile.mul 63 secs 1_000_000).map .ok

/-- Read a timespan; without a result the program panics. -/
def parseTimespan (profile : Profile) (s : String) : Option (Except TimespanError Int) := do
  let s := trim s
  let (num, unit) ← splitAt (byteLength s.toList - 1) s
  match parseI64 num with
  | none => return .error (.number s)
  | some n =>
      match inSeconds profile n unit with
      | none => return .error (.unit s)
      | some product => product.bind (positiveMicros profile s)

/-! ## Exact values -/

/-- The trimmed text is a number and a unit. -/
structure Amount (num : String) (n : Int) (unit s : String) : Prop where
  written : trim s = num ++ unit
  value : parseI64 num = some n

/-- A text with a unit of one letter has one number. -/
theorem Amount.unique {num num' unit unit' s : String} {n n' : Int} (amount : Amount num n unit s)
    (amount' : Amount num' n' unit' s) {c c' : Char} (letter : unit = String.ofList [c])
    (letter' : unit' = String.ofList [c']) : n = n' ∧ unit = unit' := by
  have written := congrArg String.toList (amount.written.symm.trans amount'.written)
  rw [String.toList_append, String.toList_append, letter, letter', String.toList_ofList,
    String.toList_ofList] at written
  rcases List.append_inj' written rfl with ⟨sameNum, sameLetter⟩
  have value := amount.value
  rw [String.toList_injective sameNum, amount'.value] at value
  rw [letter, letter', sameLetter]
  exact ⟨(Option.some.inj value).symm, rfl⟩

/-- The seconds of the units of a timespan. -/
def secondsPer : String → Option Int
  | "s" => some 1
  | "m" => some 60
  | "h" => some 3600
  | "d" => some 86_400
  | _ => none

/-- A timespan is refused, or its value is the exact number of microseconds. -/
def TimespanExact (profile : Profile) (s : String) : Prop :=
  ∃ result, parseTimespan profile s = some result ∧
    ∀ micros, result = .ok micros → ∃ num n unit per, Amount num n unit s ∧
      secondsPer unit = some per ∧ micros = n * per * 1_000_000 ∧ (0 < n → 0 < micros)

/-- The seconds, and the microseconds where they are positive, are in the range; or the
seconds are taken around the range to a number that is refused. -/
def SpanInRange (profile : Profile) (seconds : Int) : Prop :=
  Fits 63 seconds ∧ (0 < seconds → Fits 63 (seconds * 1_000_000)) ∨
    profile = .wrapping ∧ ¬ Fits 63 seconds ∧ wrap 63 seconds ≤ 0

theorem inSeconds_eq (profile : Profile) {n : Int} (fits : Fits 63 n) (unit : String) :
    inSeconds profile n unit = (secondsPer unit).map fun per => profile.mul 63 n per := by
  unfold inSeconds secondsPer
  split
  case h_1 =>
    have one : profile.mul 63 n 1 = some n := by
      rw [Profile.mul_of_fits (by simpa using fits), mul_one]
    simp [one]
  all_goals simp

/-- A positive number of microseconds is in the range. -/
theorem positiveMicros_fits {profile : Profile} {text : String} {secs micros : Int}
    (positive : positiveMicros profile text secs = some (.ok micros)) : Fits 63 micros := by
  rw [positiveMicros] at positive
  split at positive
  · cases positive
  · rcases Option.map_eq_some_iff.mp positive with ⟨value, product, same⟩
    rw [← Except.ok.inj same]
    exact Profile.fits_of_mul product

theorem positiveMicros_exact_iff (profile : Profile) (text : String) (secs : Int) :
    (∃ result, positiveMicros profile text secs = some result ∧
      ∀ micros, result = .ok micros → micros = secs * 1_000_000) ↔
    (0 < secs → Fits 63 (secs * 1_000_000)) := by
  by_cases positive : secs ≤ 0
  · simp [positiveMicros, positive, not_lt.mpr positive]
  · simp only [positiveMicros, if_neg positive, not_le.mp positive, true_imp_iff]
    constructor
    · intro exactly
      rcases exactly with ⟨result, product, exact_⟩
      rcases Option.map_eq_some_iff.mp product with ⟨micros, isMicros, same⟩
      rw [exact_ micros same.symm] at isMicros
      exact Profile.mul_exact_iff.mp isMicros
    · intro fits
      refine ⟨.ok (secs * 1_000_000), ?_, fun micros same => (Except.ok.inj same).symm⟩
      rw [Profile.mul_exact_iff.mpr fits, Option.map_some]

/-- The product of the two steps is exact when it is in the range. -/
theorem product_exact_iff (profile : Profile) (text : String) (n per : Int) :
    (∃ result, (profile.mul 63 n per).bind (positiveMicros profile text) = some result ∧
      ∀ micros, result = .ok micros → micros = n * per * 1_000_000) ↔
    SpanInRange profile (n * per) := by
  by_cases fits : Fits 63 (n * per)
  · rw [Profile.mul_of_fits fits, Option.bind_some, positiveMicros_exact_iff]
    simp [SpanInRange, fits]
  · have outside : ¬ Fits 63 (n * per * 1_000_000) := by
      intro inside
      exact fits (inside.of_mul (by decide))
    rw [Profile.mul_of_not_fits fits]
    cases profile with
    | checked => simp [SpanInRange, fits]
    | wrapping =>
        simp only [if_true, Option.bind_some, SpanInRange, fits, false_and, false_or, true_and,
          not_false_eq_true]
        constructor
        · intro exactly
          rcases exactly with ⟨result, isResult, exact_⟩
          by_contra positive
          cases result with
          | error failure => simp [positiveMicros, positive] at isResult
          | ok micros =>
              rw [exact_ micros rfl] at isResult
              exact outside (positiveMicros_fits isResult)
        · intro notPositive
          exact ⟨.error (.notPositive text), by simp [positiveMicros, notPositive], by simp⟩

/-! ## Reading a timespan -/

variable {profile : Profile} {s : String}

/-- The units of a timespan have one letter of one byte. -/
theorem secondsPer_letter {unit : String} {per : Int} (known : secondsPer unit = some per) :
    0 < per ∧ ∃ c : Char, unit = String.ofList [c] ∧ c.utf8Size = 1 := by
  unfold secondsPer at known
  split at known
  case h_5 => cases known
  all_goals
    cases known
    exact ⟨by decide, _, rfl, by decide⟩

theorem parseTimespan_empty (empty : (trim s).toList = []) :
    parseTimespan profile s = some (.error (.number (trim s))) := by
  have none : parseI64 (String.ofList []) = none := by decide
  simp [parseTimespan, splitAt, empty, byteLength, splitBytes, none]

theorem parseTimespan_last {front : List Char} {c : Char} (shape : (trim s).toList = front ++ [c]) :
    parseTimespan profile s =
      if c.utf8Size = 1 then
        match parseI64 (String.ofList front) with
        | none => some (.error (.number (trim s)))
        | some n =>
            match inSeconds profile n (String.ofList [c]) with
            | none => some (.error (.unit (trim s)))
            | some product => product.bind (positiveMicros profile (trim s))
      else none := by
  rw [parseTimespan, shape, splitAt, shape, splitBytes_last]
  by_cases one : c.utf8Size = 1
  · simp only [one, if_true, Option.map_some]
    rfl
  · simp [one]

/-- A text of one number and one unit is handled like their product. -/
theorem exact_of_amount {num unit : String} {n per : Int} (amount : Amount num n unit s)
    (known : secondsPer unit = some per) : TimespanExact profile s ↔
      SpanInRange profile (n * per) := by
  rcases secondsPer_letter known with ⟨positive, c, isUnit, one⟩
  have shape : (trim s).toList = num.toList ++ [c] := by
    rw [amount.written, isUnit, String.toList_append, String.toList_ofList]
  rw [isUnit] at known
  rw [TimespanExact, parseTimespan_last shape, if_pos one, String.ofList_toList, amount.value]
  simp only [inSeconds_eq profile (fits_of_parseI64 amount.value), known, Option.map_some]
  rw [← product_exact_iff profile (trim s)]
  apply exists_congr
  intro result
  apply and_congr_right
  intro _
  apply forall₂_congr
  intro micros _
  constructor
  · intro found
    rcases found with ⟨num', n', unit', per', amount', known', exact_, -⟩
    rcases secondsPer_letter known' with ⟨-, c', isUnit', -⟩
    rcases amount.unique amount' isUnit isUnit' with ⟨rfl, sameUnit⟩
    rw [← sameUnit, isUnit, known] at known'
    cases known'
    exact exact_
  · intro exact_
    refine ⟨num, n, unit, per, amount, by rw [isUnit, known], exact_, fun some_ => ?_⟩
    rw [exact_]
    exact mul_pos (mul_pos some_ positive) (by decide)

/-- A timespan is handled exactly when it does not end in a character of several bytes and the
product of its number and its unit is in the range. -/
theorem timespanExact_iff :
    TimespanExact profile s ↔ (∀ c ∈ (trim s).toList.getLast?, c.utf8Size = 1) ∧
      ∀ num n unit per, Amount num n unit s → secondsPer unit = some per →
        SpanInRange profile (n * per) := by
  by_cases read : ∃ num n unit per, Amount num n unit s ∧ secondsPer unit = some per
  · rcases read with ⟨num, n, unit, per, amount, known⟩
    rcases secondsPer_letter known with ⟨-, c, isUnit, one⟩
    have last : (trim s).toList.getLast? = some c := by
      simp [amount.written, isUnit]
    rw [exact_of_amount amount known, last]
    constructor
    · intro inRange
      refine ⟨by simp [one], fun num' n' unit' per' amount' known' => ?_⟩
      exact (exact_of_amount amount' known').mp ((exact_of_amount amount known).mpr inRange)
    · intro condition
      exact condition.2 num n unit per amount known
  · have refused : ∀ num n unit per, Amount num n unit s → secondsPer unit = some per →
        SpanInRange profile (n * per) := by
      intro num n unit per amount known
      exact absurd ⟨num, n, unit, per, amount, known⟩ read
    rw [and_iff_left refused]
    rcases List.eq_nil_or_concat (trim s).toList with empty | ⟨front, c, shape⟩
    · simp [TimespanExact, parseTimespan_empty empty, empty]
    · rw [List.concat_eq_append] at shape
      rw [TimespanExact, parseTimespan_last shape, shape]
      by_cases one : c.utf8Size = 1
      · cases number : parseI64 (String.ofList front) with
        | none => simp [one]
        | some n =>
            have unknown : secondsPer (String.ofList [c]) = none := by
              apply Option.eq_none_iff_forall_ne_some.mpr
              intro per known
              have written : trim s = String.ofList front ++ String.ofList [c] := by
                rw [← String.ofList_append, ← shape, String.ofList_toList]
              exact read ⟨_, n, _, per, ⟨written, number⟩, known⟩
            simp only [one, if_true, inSeconds_eq profile (fits_of_parseI64 number), unknown,
              Option.map_none]
            simp [one]
      · simp [one]

end Sigma
end Sigil
