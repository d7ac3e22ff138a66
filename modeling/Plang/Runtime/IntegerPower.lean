import Plang.CodeGen.FoldMeaning
import Plang.Library.SquareMultiply

/-!
# Powers of integers

`pow` with an integer base, as it is folded and as it is computed.  Both square and multiply in
machine integers.  What is folded is the power if the type has it, and nothing else; the run-time
system computes the same, but calls zero to the power of zero an error, which is folded to one.
-/

namespace Plang.Runtime

open MachineInt CodeGen SquareMultiply

/-! ### The run-time system -/

/-- The errors that the run-time system stops a power with. -/
inductive IpowError
  | negative (exp : Int)
  | zeroZero
  | overflow (base exp : Int)
deriving DecidableEq

def IpowError.text : IpowError → String
  | .negative exp =>
      "plang runtime: pow with a negative exponent " ++ toString exp ++ " and an integer base"
  | .zeroZero => "plang runtime: 0 pow 0 is undefined"
  | .overflow base exp =>
      "plang runtime: " ++ toString base ++ " pow " ++ toString exp ++ " has no representable result"

/-- A product of machine integers, which may overflow. -/
def mulOverflow (x y : Int) : Option Int := if Fits 64 true (x * y) then some (x * y) else none

/-- The loop of `plang_ipow`: the error names the operands that it was called with. -/
def plangIpowLoop (base exp : Int) (result b : Int) (e : Nat) : Except IpowError Int :=
  if e = 0 then .ok result
  else
    (if e % 2 = 1 then (mulOverflow result b).elim (.error (.overflow base exp)) .ok
      else .ok result : Except IpowError Int).bind fun result =>
        if e / 2 = 0 then .ok result
        else
          ((mulOverflow b b).elim (.error (.overflow base exp)) .ok : Except IpowError Int).bind
            fun b => plangIpowLoop base exp result b (e / 2)
termination_by e

def plangIpow (base exp : Int) : Except IpowError Int :=
  if exp < 0 then .error (.negative exp)
  else if base = 0 ∧ exp = 0 then .error .zeroZero
  else plangIpowLoop base exp 1 base exp.toNat

/-! ### What is folded -/

/-- The widths that types of integers have. -/
def widths : List Nat := [8, 16, 32, 64]

theorem minOf_nonpos (width : Nat) (signed : Bool) : minOf width signed ≤ 0 := by
  cases signed with
  | true => simp only [minOf, if_true, Left.neg_nonpos_iff]; positivity
  | false => simp [minOf]

theorem one_le_maxOf {width : Nat} (signed : Bool) (pos : 1 < width) : 1 ≤ maxOf width signed := by
  have half : (2 : Int) ^ 1 ≤ 2 ^ (width - 1) := pow_le_pow_right₀ (by decide) (by omega)
  have whole : (2 : Int) ^ 1 ≤ 2 ^ width := pow_le_pow_right₀ (by decide) pos.le
  cases signed with
  | true => simp only [maxOf, if_true]; omega
  | false => simp only [maxOf, Bool.false_eq_true, if_false]; omega

theorem neg_maxOf_sub_one_le (width : Nat) (signed : Bool) :
    -maxOf width signed - 1 ≤ minOf width signed := by
  have whole : (0 : Int) < 2 ^ width := by positivity
  cases signed with
  | true => simp only [minOf, maxOf, if_true]; omega
  | false => simp only [minOf, maxOf, Bool.false_eq_true, if_false]; omega

/-- The integers of a width and a signedness. -/
def span (width : Nat) (signed : Bool) (pos : 1 < width) : Span where
  lo := minOf width signed
  hi := maxOf width signed
  lo_nonpos := minOf_nonpos width signed
  hi_pos := one_le_maxOf signed pos
  reach := neg_maxOf_sub_one_le width signed

theorem powLoop_eq (range : Nat × Bool) (result base : Int) (exp : Nat) :
    powLoop range result base exp = power (fun x y => checked range (x * y)) result base exp := by
  induction exp using Nat.strong_induction_on generalizing result base with
  | _ exp induction =>
      rw [powLoop, power]
      by_cases done : exp = 0
      · rw [if_pos done, if_pos done]
      rw [if_neg done, if_neg done]
      congr 1
      funext result
      by_cases last : exp / 2 = 0
      · rw [if_pos last, if_pos last]
      rw [if_neg last, if_neg last]
      congr 1
      funext base
      exact induction (exp / 2) (by omega) result base

/-- The type whose integers a fold keeps to: with 64 bits, the signed one in any case. -/
def kept (width : Nat) (signed : Bool) : Nat × Bool :=
  if width < 64 then (width, signed) else (64, true)

theorem checked_eq_some_iff {width : Nat} {signed : Bool} {x v : Int} :
    checked (width, signed) x = some v ↔
      x = v ∧ Fits (kept width signed).1 (kept width signed).2 v := by
  rw [checked_eq_some, kept]
  by_cases narrow : width < 64
  · rw [if_pos narrow]
    constructor
    · rintro ⟨same, _, fits⟩
      exact ⟨same, fits narrow⟩
    · rintro ⟨same, fits⟩
      refine ⟨same, ?_, fun _ => fits⟩
      cases signed with
      | true => exact fits.mono narrow.le
      | false => exact fits.signed narrow
  · rw [if_neg narrow]
    constructor
    · rintro ⟨same, fits, _⟩
      exact ⟨same, fits⟩
    · rintro ⟨same, fits⟩
      exact ⟨same, fits, fun less => absurd less narrow⟩

theorem one_lt_of_mem_widths {width : Nat} (supported : width ∈ widths) : 1 < width := by
  simp only [widths, List.mem_cons, List.not_mem_nil, or_false] at supported
  omega

theorem one_lt_kept {width : Nat} {signed : Bool} (supported : width ∈ widths) :
    1 < (kept width signed).1 := by
  rw [kept]
  split
  · exact one_lt_of_mem_widths supported
  · decide

/-- What is folded is the power, if it is among the integers that the fold keeps to. -/
theorem isoPow_eq_some_iff {width : Nat} {signed : Bool} {base exp v : Int}
    (supported : width ∈ widths) :
    isoPow (width, signed) base exp = some v ↔
      base ^ exp.toNat = v ∧ Fits (kept width signed).1 (kept width signed).2 v := by
  have exact : Exact (span _ (kept width signed).2 (one_lt_kept supported))
      fun x y => checked (width, signed) (x * y) :=
    fun x y z => checked_eq_some_iff
  rw [isoPow, powLoop_eq, power_eq_some_iff exact (ahead_one base) Span.has_one, one_mul]
  rfl

/-! ### The two compared -/

theorem mulOverflow_eq (x y : Int) : mulOverflow x y = checked (64, true) (x * y) := by
  rw [mulOverflow, checked]
  simp

/-- The loop of the run-time system is that of the folder, with an error where that one gives up. -/
theorem plangIpowLoop_eq (base exp result b : Int) (e : Nat) :
    plangIpowLoop base exp result b e =
      (powLoop (64, true) result b e).elim (.error (.overflow base exp)) .ok := by
  induction e using Nat.strong_induction_on generalizing result b with
  | _ e induction =>
      rw [plangIpowLoop, powLoop]
      by_cases done : e = 0
      · rw [if_pos done, if_pos done]
        rfl
      rw [if_neg done, if_neg done, mulOverflow_eq]
      have product : (if e % 2 = 1 then
            (checked (64, true) (result * b)).elim (.error (.overflow base exp)) .ok
          else .ok result : Except IpowError Int) =
          (if e % 2 = 1 then checked (64, true) (result * b) else some result).elim
            (.error (.overflow base exp)) .ok := by
        split
        · rfl
        · rfl
      rw [product]
      cases (if e % 2 = 1 then checked (64, true) (result * b) else some result) with
      | none => rfl
      | some result =>
          rw [Option.elim_some, Except.bind, Option.bind_some]
          by_cases last : e / 2 = 0
          · rw [if_pos last, if_pos last]
            rfl
          rw [if_neg last, if_neg last, mulOverflow_eq]
          cases checked (64, true) (b * b) with
          | none => rfl
          | some b => exact induction (e / 2) (by omega) result b

/-- The errors apart, this is the power that a schema's extents are computed with. -/
theorem toOption_plangIpow (base exp : Int) : (plangIpow base exp).toOption = ipow base exp := by
  rw [plangIpow, ipow]
  split
  · rfl
  split
  · rfl
  rw [plangIpowLoop_eq]
  cases powLoop (64, true) 1 base exp.toNat with
  | none => rfl
  | some v => rfl

/-- The error for a power that no machine integer is: a negative exponent has its own. -/
def rangeError (base exp : Int) : IpowError :=
  if exp < 0 then .negative exp else .overflow base exp

/-- The power of two constants as the folder takes it in 64 bits. -/
def folded (base exp : Int) : Option Int := ConstOp.pow.fold (64, true) base exp

/-- The run-time system answers what is folded, and stops where nothing is; zero to the power of
zero is the exception. -/
theorem plangIpow_eq (base exp : Int) :
    plangIpow base exp =
      if base = 0 ∧ exp = 0 then .error .zeroZero
      else (folded base exp).elim (.error (rangeError base exp)) .ok := by
  rw [plangIpow, folded, ConstOp.fold, rangeError]
  by_cases negative : exp < 0
  · rw [if_pos negative, if_neg (by omega), if_neg (by omega), if_pos negative]
    rfl
  · rw [if_neg negative, if_pos (not_lt.mp negative), if_neg negative, plangIpowLoop_eq]
    rfl

/-- Powers are exact: a type's power is folded if and only if the type has it, and the run-time
system answers what is folded in 64 bits or stops with the error for its range. -/
structure PowerExact (width : Nat) (signed : Bool) (base exp : Int) : Prop where
  folds : 0 ≤ exp → ∀ v,
    isoPow (width, signed) base exp = some v ↔ base ^ exp.toNat = v ∧ Fits width signed v
  computes : ∀ v, folded base exp = some v → plangIpow base exp = .ok v
  stops : plangIpow base exp = .error (rangeError base exp) ↔ folded base exp = none

/-- Zero is not raised to the power of zero, and an unsigned type of 64 bits is asked for a power
that it shares with the signed one, or that neither has. -/
def Representable (width : Nat) (signed : Bool) (base exp : Int) : Prop :=
  ¬(base = 0 ∧ exp = 0) ∧
    (width = 64 → signed = false → 0 ≤ exp →
      base ^ exp.toNat < -2 ^ 63 ∨
        0 ≤ base ^ exp.toNat ∧ base ^ exp.toNat < 2 ^ 63 ∨ 2 ^ 64 ≤ base ^ exp.toNat)

/-- Only an unsigned type of 64 bits is not kept to. -/
theorem kept_eq {width : Nat} {signed : Bool} (supported : width ∈ widths)
    (plain : ¬(width = 64 ∧ signed = false)) : kept width signed = (width, signed) := by
  simp only [widths, List.mem_cons, List.not_mem_nil, or_false] at supported
  rw [kept]
  split
  · rfl
  · have wide : width = 64 := by omega
    rw [wide, Bool.eq_true_of_not_eq_false fun unsigned => plain ⟨wide, unsigned⟩]

theorem fits_unsigned_iff_signed (power : Int) :
    (Fits 64 true power ↔ Fits 64 false power) ↔
      power < -2 ^ 63 ∨ 0 ≤ power ∧ power < 2 ^ 63 ∨ 2 ^ 64 ≤ power := by
  rw [fits_signed, fits_unsigned]
  omega

theorem folds_iff {width : Nat} {signed : Bool} {base exp : Int} (supported : width ∈ widths) :
    (∀ v, isoPow (width, signed) base exp = some v ↔
        base ^ exp.toNat = v ∧ Fits width signed v) ↔
      (width = 64 → signed = false →
        base ^ exp.toNat < -2 ^ 63 ∨
          0 ≤ base ^ exp.toNat ∧ base ^ exp.toNat < 2 ^ 63 ∨ 2 ^ 64 ≤ base ^ exp.toNat) := by
  by_cases plain : width = 64 ∧ signed = false
  · obtain ⟨rfl, rfl⟩ := plain
    rw [← fits_unsigned_iff_signed]
    constructor
    · intro exact _ _
      have both := (isoPow_eq_some_iff supported).symm.trans (exact (base ^ exp.toNat))
      rw [eq_self, true_and, true_and] at both
      exact both
    · intro both v
      rw [isoPow_eq_some_iff supported]
      refine and_congr_right ?_
      rintro rfl
      exact both rfl rfl
  · constructor
    · intro _ wide unsigned
      exact absurd ⟨wide, unsigned⟩ plain
    · intro _ v
      rw [isoPow_eq_some_iff supported, kept_eq supported plain]

theorem folded_zeroToZero : folded 0 0 = some 1 := by
  rw [folded, ConstOp.fold, if_pos le_rfl, isoPow, powLoop]
  rfl

theorem computes_and_stops_iff {base exp : Int} :
    ((∀ v, folded base exp = some v → plangIpow base exp = .ok v) ∧
        (plangIpow base exp = .error (rangeError base exp) ↔ folded base exp = none)) ↔
      ¬(base = 0 ∧ exp = 0) := by
  rw [plangIpow_eq]
  by_cases zeros : base = 0 ∧ exp = 0
  · obtain ⟨rfl, rfl⟩ := zeros
    constructor
    · rintro ⟨computes, _⟩
      cases computes 1 folded_zeroToZero
    · intro apart
      exact absurd ⟨rfl, rfl⟩ apart
  · rw [if_neg zeros]
    cases folded base exp with
    | none => simp [zeros]
    | some v => simp [zeros]

/-- Powers are exact but for zero to the power of zero, and for what an unsigned type of 64 bits
does not share with the signed one. -/
theorem powerExact_iff_representable {width : Nat} (supported : width ∈ widths) (signed : Bool)
    (base exp : Int) :
    PowerExact width signed base exp ↔ Representable width signed base exp := by
  rw [Representable, ← computes_and_stops_iff]
  constructor
  · rintro ⟨folds, computes, stops⟩
    refine ⟨⟨computes, stops⟩, fun wide unsigned nonneg => ?_⟩
    exact (folds_iff supported).mp (folds nonneg) wide unsigned
  · rintro ⟨⟨computes, stops⟩, shared⟩
    refine ⟨fun nonneg => (folds_iff supported).mpr ?_, computes, stops⟩
    exact fun wide unsigned => shared wide unsigned nonneg

/-- The least integer of 16 bits is a power. -/
theorem powerExact_iff_representable_least : PowerExact 16 true (-2) 15 :=
  (powerExact_iff_representable (by decide) true (-2) 15).mpr ⟨by decide, by decide⟩

/-- Zero to the power of zero is folded to one, and stops the program otherwise. -/
theorem zeroToZero_not_powerExact : ¬PowerExact 64 true 0 0 := by
  rintro ⟨_, computes, _⟩
  have one := computes 1 folded_zeroToZero
  rw [plangIpow_eq, if_pos ⟨rfl, rfl⟩] at one
  cases one

end Plang.Runtime
