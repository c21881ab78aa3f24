import Sigil.Index.Catalog
import Sigil.Sigma.Timespan

namespace Sigil
namespace Index

/-!
# Retention

A retention is a number without a sign and a unit of one letter, and its value is one product
of machine integers.  When the product is in their range, only segments that are older than
the retention expire.
-/

open Sigil.Core Library Integers

/-- The microseconds of a unit. -/
def microsPer : String → Option Int
  | "s" => some 1_000_000
  | "m" => some (60 * 1_000_000)
  | "h" => some (3_600 * 1_000_000)
  | "d" => some (86_400 * 1_000_000)
  | "w" => some (7 * 86_400 * 1_000_000)
  | _ => none

/-- Read a retention; without an outer result the program panics. -/
def parseDurationMicros (profile : Profile) (s : String) : Option (Option Int) :=
  let s := trim s
  -- the digits are single bytes, so the text is split at the first other character
  let unit := s.toList.dropWhile Char.isDigit
  if unit = [] then some none
  else
    match parseI64 (String.ofList (s.toList.takeWhile Char.isDigit)) with
    | none => some none
    | some n =>
        match microsPer (String.ofList unit) with
        | none => some none
        | some per => (profile.mul 63 n per).map some

/-- A retention is refused, or its value is the exact number of microseconds, and then no
segment expires that is not older. -/
def DurationExact (profile : Profile) (s : String) : Prop :=
  ∃ result, parseDurationMicros profile s = some result ∧
    ∀ micros, result = some micros → ∃ num n unit per, Sigma.Amount num n unit s ∧
      microsPer unit = some per ∧ micros = n * per ∧ (0 < n → 0 < micros) ∧
      ∀ (catalog : Catalog) (now : Int) (seg : SegmentMeta), 0 ≤ now → Fits 63 now →
        Fits 63 seg.maxTs → seg ∈ catalog.expired now micros → n * per < now - seg.maxTs

/-- A difference from the range is not more than what it is taken to. -/
theorem toI64_le {n : Int} (low : -(2 ^ 63) ≤ n) : toI64 n ≤ n := by
  rcases lt_or_ge n (2 ^ 63) with inside | above
  · rw [toI64_of_range low inside]
  · have high := @Int.bmod_lt n (2 ^ 64) (by decide)
    rw [toI64]
    omega

theorem mem_expired {catalog : Catalog} {now age : Int} {seg : SegmentMeta} (start : 0 ≤ now)
    (fits : Fits 63 seg.maxTs) (expired : seg ∈ catalog.expired now age) :
    age < now - seg.maxTs := by
  have older := (List.mem_filter.mp expired).2
  rw [decide_eq_true_eq] at older
  have high := fits.2
  exact lt_of_lt_of_le older (toI64_le (by omega))

/-! ## Reading a retention -/

variable {profile : Profile} {s : String}

/-- The units of a retention have one letter, which is no digit. -/
theorem microsPer_letter {unit : String} {per : Int} (known : microsPer unit = some per) :
    0 < per ∧ ∃ c : Char, unit = String.ofList [c] ∧ c.isDigit = false := by
  unfold microsPer at known
  split at known
  case h_6 => cases known
  all_goals
    cases known
    exact ⟨by decide, _, rfl, by decide⟩

/-- Digits and a unit are split between them. -/
theorem parseDurationMicros_amount {num unit : String} {n per : Int}
    (amount : Sigma.Amount num n unit s) (plain : ∀ c ∈ num.toList, c.isDigit = true)
    (known : microsPer unit = some per) :
    parseDurationMicros profile s = (profile.mul 63 n per).map some := by
  rcases microsPer_letter known with ⟨-, c, isUnit, other⟩
  have shape : (trim s).toList = num.toList ++ [c] := by
    rw [amount.written, isUnit, String.toList_append, String.toList_ofList]
  have digits : (trim s).toList.takeWhile Char.isDigit = num.toList := by
    rw [shape, List.takeWhile_append_of_pos plain]
    simp [other]
  have rest : (trim s).toList.dropWhile Char.isDigit = [c] := by
    rw [shape, List.dropWhile_append_of_pos plain]
    simp [other]
  simp only [parseDurationMicros, digits, rest, List.cons_ne_nil, if_false, String.ofList_toList,
    amount.value, ← isUnit, known]

/-- A retention that is not refused is written with digits and a unit. -/
theorem exists_amount (read : parseDurationMicros profile s ≠ some none) :
    ∃ num n unit per, Sigma.Amount num n unit s ∧ (∀ c ∈ num.toList, c.isDigit = true) ∧
      microsPer unit = some per := by
  simp only [parseDurationMicros] at read
  split at read
  · exact absurd rfl read
  · split at read
    · exact absurd rfl read
    · next n number =>
        split at read
        · exact absurd rfl read
        · next per known =>
            refine ⟨_, n, _, per, ⟨?_, number⟩, fun c member => ?_, known⟩
            · rw [← String.ofList_append, List.takeWhile_append_dropWhile, String.ofList_toList]
            · rw [String.toList_ofList] at member
              exact List.mem_takeWhile_imp member

/-- A retention of digits and a unit is handled when their product is in the range. -/
theorem durationExact_of_amount {num unit : String} {n per : Int}
    (amount : Sigma.Amount num n unit s) (plain : ∀ c ∈ num.toList, c.isDigit = true)
    (known : microsPer unit = some per) :
    DurationExact profile s ↔ n * per < 2 ^ 63 := by
  have nonneg := parseI64_nonneg plain amount.value
  rcases microsPer_letter known with ⟨positive, c, isUnit, -⟩
  have inRange : n * per < 2 ^ 63 ↔ Fits 63 (n * per) := by
    have least := mul_nonneg nonneg positive.le
    rw [Fits]
    omega
  rw [DurationExact, parseDurationMicros_amount amount plain known, inRange]
  constructor
  · intro exactly
    rcases exactly with ⟨result, product, exact_⟩
    rcases Option.map_eq_some_iff.mp product with ⟨micros, isMicros, same⟩
    rcases exact_ micros same.symm with ⟨num', n', unit', per', amount', known', value, -⟩
    rcases microsPer_letter known' with ⟨-, c', isUnit', -⟩
    rcases amount.unique amount' isUnit isUnit' with ⟨rfl, rfl⟩
    cases known.symm.trans known'
    rw [← value]
    exact Profile.fits_of_mul isMicros
  · intro fits
    refine ⟨some (n * per), by rw [Profile.mul_of_fits fits]; rfl, fun micros same => ?_⟩
    cases same
    exact ⟨num, n, unit, per, amount, known, rfl, fun some_ => mul_pos some_ positive,
      fun catalog now seg start _ fitsTs expired => mem_expired start fitsTs expired⟩

/-- A timespan is handled exactly when its last character is a single byte and the product of its
number and its unit is in the range; a retention when the product is. -/
theorem durations_iff (profile : Profile) (s : String) :
    (Sigma.TimespanExact profile s ↔ (∀ c ∈ (trim s).toList.getLast?, c.utf8Size = 1) ∧
      ∀ num n unit per, Sigma.Amount num n unit s → Sigma.secondsPer unit = some per →
        Sigma.SpanInRange profile (n * per)) ∧
    (DurationExact profile s ↔
      ∀ num n unit per, Sigma.Amount num n unit s → (∀ c ∈ num.toList, c.isDigit = true) →
        microsPer unit = some per → n * per < 2 ^ 63) := by
  refine ⟨Sigma.timespanExact_iff, ?_⟩
  by_cases read : parseDurationMicros profile s = some none
  · have refused : DurationExact profile s := ⟨none, read, fun micros same => nomatch same⟩
    rw [iff_true_left refused]
    intro num n unit per amount plain known
    exact (durationExact_of_amount amount plain known).mp refused
  · rcases exists_amount read with ⟨num, n, unit, per, amount, plain, known⟩
    constructor
    · intro exactly num' n' unit' per' amount' plain' known'
      exact (durationExact_of_amount amount' plain' known').mp exactly
    · intro condition
      exact (durationExact_of_amount amount plain known).mpr
        (condition num n unit per amount plain known)

/-- A retention of some 292,000 years is out of the range. -/
theorem not_durationExact : ¬ ∀ (profile : Profile) (s : String),
    Sigma.TimespanExact profile s ∧ DurationExact profile s := by
  intro law
  have amount : Sigma.Amount "9223372036855" 9_223_372_036_855 "s" "9223372036855s" :=
    ⟨by decide +kernel, by decide +kernel⟩
  have inRange := (durationExact_of_amount amount (by decide) rfl).mp
    (law .wrapping "9223372036855s").2
  exact absurd inRange (by decide)

/-- A build without checks reads it as a negative number. -/
example : parseDurationMicros .wrapping "9223372036855s" =
    some (some (-9_223_372_036_854_551_616)) := by
  decide +kernel

end Index
end Sigil
