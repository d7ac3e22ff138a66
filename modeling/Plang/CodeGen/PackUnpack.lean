import Mathlib.Data.List.Basic
import Plang.Basic.Text
import Plang.Library.MachineInt
import Plang.Library.SignedWords

/-!
# Transfers between arrays

The procedures `pack` and `unpack` copy the components of a packed array from or to the components
of an unpacked one, from an index on.  The generator looks for the bounds of the unpacked array,
checks the index against the last one from which the components fit, and copies them as one block.
-/

namespace Plang.CodeGen

open MachineInt

/-- The unpacked array, with its bounds. -/
inductive UnpackedArray where
  /-- Of an array type, which has the bounds. -/
  | declared (SubLo SubHi : Int64)
  /-- A conformant array, whose bounds came as hidden arguments under these names. -/
  | conformant (lo hi : Int64) (conformantLoName conformantHiName : Text)
  /-- A row of a conformant array, whose type has no bounds. -/
  | row (lo hi : Int64)
  /-- Of a schema, with the bounds that the discriminants give, and whether its components have one
  size whatever the discriminants are. -/
  | schematic (lo hi : Int64) (constantSize : Bool)

def UnpackedArray.ends : UnpackedArray → Int64 × Int64
  | .declared SubLo SubHi => (SubLo, SubHi)
  | .conformant lo hi _ _ => (lo, hi)
  | .row lo hi => (lo, hi)
  | .schematic lo hi _ => (lo, hi)

/-- The variables of every scope around a statement, the innermost scope first, each with the integer
of 64 bits at its address. -/
abbrev Scopes := List (List (Text × Int64))

/-- The innermost variable of the name. -/
def findVar (scopes : Scopes) (name : Text) : Option Int64 :=
  scopes.findSome? fun scope => scope.lookup (toLower name)

/-- The integer in 64 bits, where the signedness of its type is not asked for. -/
def toI64Guess {w : Nat} (bits : BitVec w) : Int64 :=
  if w = 64 then .ofBitVec (bits.setWidth 64)
  else if w = 8 ∨ w = 1 then .ofBitVec (resize false bits 64)
  else .ofBitVec (resize true bits 64)

/-- A statement with `pack` or `unpack`. -/
structure Transfer where
  array : UnpackedArray
  scopes : Scopes
  /-- Both operands have an address. -/
  addressable : Bool
  /-- The bounds in the type of the packed array. -/
  SubLo : Int64
  SubHi : Int64
  /-- How many components it has. -/
  components : Nat
  elemSize : Nat
  /-- The bits of the index, as its expression is emitted, and the signedness of its type. -/
  width : Nat
  signed : Bool
  index : Int
  width_range : 0 < width ∧ width ≤ 64
  holds : Fits width signed index
  ordered : SubLo.toInt ≤ SubHi.toInt
  ends_ordered : array.ends.1.toInt ≤ array.ends.2.toInt + 1
  components_pos : 0 < components
  /-- No object is larger. -/
  type_lt : elemSize * (SubHi.toInt - SubLo.toInt + 1) < 2 ^ 63
  array_lt : elemSize * (array.ends.2.toInt - array.ends.1.toInt + 1) < 2 ^ 63
  components_lt : elemSize * components < 2 ^ 63

/-- The end of a transfer, with the components of both arrays. -/
inductive Transferred (elemSize : Nat) where
  | indexError
  | done (a z : List (BitVec (8 * elemSize)))
  /-- Storage outside the arrays is read or written. -/
  | undefined
  /-- The compiler stops with an internal error. -/
  | codegenICE

/-- A block of components is copied. -/
def copyBlock {elemSize : Nat} (isPack : Bool) (a z : List (BitVec (8 * elemSize))) (off : Int)
    (moved : Nat) : Transferred elemSize :=
  if moved = 0 then .done a z
  else if 0 ≤ off ∧ off + moved ≤ a.length ∧ moved ≤ z.length then
    if isPack then .done a ((a.drop off.toNat).take moved ++ z.drop moved)
    else .done (a.take off.toNat ++ z.take moved ++ a.drop (off.toNat + moved)) z
  else .undefined

/-- Inside the block the other list is found, outside it the list itself. -/
theorem getElem?_splice {α : Type*} {a z : List α} {p n : Nat} (inside : p + n ≤ a.length)
    (enough : n ≤ z.length) (j : Nat) :
    (a.take p ++ z.take n ++ a.drop (p + n))[j]? =
      if p ≤ j ∧ j < p + n then z[j - p]? else a[j]? := by
  have front : (a.take p).length = p := List.length_take_of_le (by omega)
  have block : (z.take n).length = n := List.length_take_of_le enough
  obtain before | from_p := Nat.lt_or_ge j p
  · rw [if_neg (by omega), List.append_assoc, List.getElem?_append_left (by omega),
      List.getElem?_take_of_lt before]
  · obtain within | behind := Nat.lt_or_ge j (p + n)
    · rw [if_pos ⟨from_p, within⟩, List.getElem?_append_left (by rw [List.length_append]; omega),
        List.getElem?_append_right (by omega), front, List.getElem?_take_of_lt (by omega)]
    · rw [if_neg (by omega), List.getElem?_append_right (by rw [List.length_append]; omega),
        List.length_append, front, block, List.getElem?_drop]
      congr 1
      omega

/-- The elements of a list that begins with a block of another one. -/
theorem getElem?_overlay {α : Type*} {a z : List α} {p n : Nat} (inside : p + n ≤ a.length)
    (enough : n ≤ z.length) (j : Nat) :
    ((a.drop p).take n ++ z.drop n)[j]? = if j < n then a[p + j]? else z[j]? := by
  have spliced := getElem?_splice (a := z) (z := a.drop p) (p := 0) (n := n)
    (by omega) (by rw [List.length_drop]; omega) j
  simpa using spliced

namespace Transfer

variable (s : Transfer)

def lo : Int := s.array.ends.1.toInt
def hi : Int := s.array.ends.2.toInt

/-- A component. -/
abbrev Component := BitVec (8 * s.elemSize)

/-- The array that the transfer begins in has as many components. -/
def arrayLength : Nat := (s.hi - s.lo + 1).toNat

def count : Int64 := s.SubHi - s.SubLo + 1

/-- The index, as it is compared. -/
def idx : Int64 := toI64Guess (BitVec.ofInt s.width s.index)

/-- The ends of the unpacked array, as the generator finds them.  Those of a conformant array are
what stands under their names around the statement. -/
def foundEnds : Option (Int64 × Int64) :=
  match s.array with
  | .declared SubLo SubHi => some (SubLo, SubHi)
  | .conformant _ _ conformantLoName conformantHiName =>
      (findVar s.scopes conformantLoName).bind fun aLo =>
        (findVar s.scopes conformantHiName).map fun aHi => (aLo, aHi)
  | .row _ _ => none
  | .schematic lo hi constantSize => if constantSize then some (lo, hi) else none

def last (aHi : Int64) : Int64 := aHi - (s.count - 1)

/-- The statement, with range checks. -/
def emitPackUnpack (isPack : Bool) (a z : List s.Component) : Transferred s.elemSize :=
  if s.count ≤ 0 then .done a z
  else
    match s.foundEnds with
    | none => .codegenICE
    | some (aLo, aHi) =>
        if s.addressable = false then .codegenICE
        else if s.idx < aLo ∨ s.last aHi < s.idx then .indexError
        else
          let bytes := UInt64.ofNat s.elemSize * s.count.toUInt64
          copyBlock isPack a z (s.idx - aLo).toInt (bytes.toNat / s.elemSize)

/-! ### What the statement should do -/

/-- All components have their places in the unpacked array. -/
def InRange : Prop := s.lo ≤ s.index ∧ s.index + (s.components - 1) ≤ s.hi

/-- The place of the first one. -/
def first : Nat := (s.index - s.lo).toNat

/-- The components are copied, each to its place, and nothing else is changed; or there is no place
for all of them, and that is reported. -/
def Lawful (isPack : Bool) (a z : List s.Component) : Transferred s.elemSize → Prop
  | .indexError => ¬s.InRange
  | .undefined => False
  | .codegenICE => False
  | .done a' z' =>
      s.InRange ∧
        if isPack then
          a' = a ∧ z'.length = z.length ∧ ∀ k, k < s.components → z'[k]? = a[s.first + k]?
        else
          z' = z ∧ a'.length = a.length ∧ (∀ k, k < s.components → a'[s.first + k]? = z[k]?) ∧
            ∀ j, j < s.first ∨ s.first + s.components ≤ j → a'[j]? = a[j]?

/-! ### Where it does -/

/-- The number of components in the type of the packed array, in 64 bits. -/
def declaredCount : Int := (s.SubHi.toInt - s.SubLo.toInt + 1).bmod (2 ^ 64)

/-- The check reports the index, by these ends: what it is compared with may have wrapped. -/
def Reported (aLo aHi : Int) : Prop :=
  s.idx.toInt < aLo ∨
    aHi < s.idx.toInt + (s.declaredCount - 1) ∧ -2 ^ 63 ≤ aHi - (s.declaredCount - 1) ∨
    aHi + 2 ^ 64 < s.idx.toInt + (s.declaredCount - 1)

theorem toInt_count : s.count.toInt = s.declaredCount := SignedWords.toInt_sub_add_one _ _

theorem declaredCount_eq (pos : 0 < s.declaredCount) :
    s.declaredCount = s.SubHi.toInt - s.SubLo.toInt + 1 ∧ s.declaredCount < 2 ^ 63 := by
  have low := Int64.le_toInt s.SubLo
  have high := Int64.toInt_lt s.SubHi
  have ordered := s.ordered
  obtain less | more := lt_or_ge (s.SubHi.toInt - s.SubLo.toInt + 1) (2 ^ 63)
  · have same : s.declaredCount = s.SubHi.toInt - s.SubLo.toInt + 1 :=
      Int.bmod_eq_of_le (by omega) (by omega)
    exact ⟨same, same ▸ less⟩
  · have wrapped : s.declaredCount = s.SubHi.toInt - s.SubLo.toInt + 1 - 2 ^ 64 := by
      rw [declaredCount, ← Int.sub_bmod_right]
      exact Int.bmod_eq_of_le (by omega) (by omega)
    omega

/-- The last index, as it is compared. -/
theorem toInt_last (pos : 0 < s.declaredCount) (aHi : Int64) :
    (s.last aHi).toInt =
      if -2 ^ 63 ≤ aHi.toInt - (s.declaredCount - 1) then aHi.toInt - (s.declaredCount - 1)
      else aHi.toInt - (s.declaredCount - 1) + 2 ^ 64 := by
  have low := Int64.le_toInt aHi
  have high := Int64.toInt_lt aHi
  have less := (s.declaredCount_eq pos).2
  have steps : (s.count - 1).toInt = s.declaredCount - 1 := by
    rw [SignedWords.toInt_sub_of_fits, toInt_count, Int64.toInt_one]
    all_goals rw [toInt_count, Int64.toInt_one]; omega
  rw [last, Int64.toInt_sub, steps]
  split
  · exact Int.bmod_eq_of_le (by omega) (by omega)
  · rw [← Int.add_bmod_right]
    exact Int.bmod_eq_of_le (by omega) (by omega)

theorem not_count_le (pos : 0 < s.declaredCount) : ¬s.count ≤ 0 := by
  rw [Int64.le_iff_toInt_le, toInt_count, Int64.toInt_zero]
  omega

/-- The machine's comparisons of the index report what `Reported` says of the integers. -/
theorem reported_iff (pos : 0 < s.declaredCount) (aLo aHi : Int64) :
    (s.idx < aLo ∨ s.last aHi < s.idx) ↔ s.Reported aLo.toInt aHi.toInt := by
  rw [Int64.lt_iff_toInt_lt, Int64.lt_iff_toInt_lt, toInt_last s pos, Reported]
  have hi_lt := Int64.toInt_lt aHi
  split <;> omega

/-- How many components the block holds. -/
theorem moved_eq (pos : 0 < s.declaredCount) :
    (UInt64.ofNat s.elemSize * s.count.toUInt64).toNat / s.elemSize =
      if s.elemSize = 0 then 0 else s.declaredCount.toNat := by
  split
  · rename_i empty
    rw [empty, Nat.div_zero]
  · rename_i storage
    obtain ⟨declared, -⟩ := s.declaredCount_eq pos
    have count_eq : s.count.toUInt64.toNat = s.declaredCount.toNat := by
      rw [SignedWords.toNat_toUInt64, toInt_count]
      rw [toInt_count]
      exact pos.le
    have product_lt : s.elemSize * s.declaredCount.toNat < 2 ^ 63 := by
      have sized := s.type_lt
      rw [← declared, ← Int.toNat_of_nonneg pos.le] at sized
      exact_mod_cast sized
    have size_lt : s.elemSize < 2 ^ 64 := by
      have one_le : 1 ≤ s.declaredCount.toNat := by omega
      have le := Nat.le_mul_of_pos_right s.elemSize one_le
      omega
    rw [UInt64.toNat_mul, UInt64.toNat_ofNat_of_lt' size_lt, count_eq, Nat.mod_eq_of_lt (by omega),
      Nat.mul_div_cancel_left _ (Nat.pos_of_ne_zero storage)]

variable {s} {isPack : Bool} {a z : List s.Component}

theorem emit_nothing (none : ¬0 < s.declaredCount) : s.emitPackUnpack isPack a z = .done a z := by
  have le : s.count ≤ 0 := by
    rw [Int64.le_iff_toInt_le, toInt_count, Int64.toInt_zero]
    omega
  rw [emitPackUnpack, if_pos le]

theorem emit_unfound (pos : 0 < s.declaredCount)
    (unfound : s.foundEnds = none ∨ s.addressable = false) :
    s.emitPackUnpack isPack a z = .codegenICE := by
  rw [emitPackUnpack, if_neg (s.not_count_le pos)]
  rcases found : s.foundEnds with _ | ⟨aLo, aHi⟩
  · rfl
  · exact if_pos (unfound.resolve_left (by simp [found]))

section Found

variable {aLo aHi : Int64} (pos : 0 < s.declaredCount) (found : s.foundEnds = some (aLo, aHi))
  (placed : s.addressable = true)

include pos found placed

theorem emit_reported (reported : s.Reported aLo.toInt aHi.toInt) :
    s.emitPackUnpack isPack a z = .indexError := by
  rw [emitPackUnpack, if_neg (s.not_count_le pos), found]
  simp only [placed, Bool.true_eq_false, if_false]
  rw [if_pos ((s.reported_iff pos aLo aHi).mpr reported)]

theorem emit_copied (silent : ¬s.Reported aLo.toInt aHi.toInt) :
    s.emitPackUnpack isPack a z =
      copyBlock isPack a z (s.idx - aLo).toInt
        (if s.elemSize = 0 then 0 else s.declaredCount.toNat) := by
  rw [emitPackUnpack, if_neg (s.not_count_le pos), found]
  simp only [placed, Bool.true_eq_false, if_false]
  rw [if_neg (mt (s.reported_iff pos aLo aHi).mp silent), s.moved_eq pos]

end Found

/-- The statement does what it should with these ends: where the components have their places, the
index is not reported, the bounds in the type are those of the packed array, and the index stands as
far from the lower end as it should; where they have not, the index is reported.  Of components
without storage no more is asked than that nothing is reported. -/
structure KeptWith (s : Transfer) (aLo aHi : Int) : Prop where
  inside : s.InRange → ¬s.Reported aLo aHi ∧
    (s.elemSize = 0 ∨ s.declaredCount = s.components ∧ s.idx.toInt - aLo = s.index - s.lo)
  outside : ¬s.InRange → s.Reported aLo aHi

/-- The generator finds ends that the statement does what it should with; or it counts nothing, and
nothing is to be copied. -/
def Kept (s : Transfer) : Prop :=
  s.declaredCount ≤ 0 ∧ s.InRange ∧ s.elemSize = 0 ∨
    0 < s.declaredCount ∧ s.addressable = true ∧
      ∃ aLo aHi, s.foundEnds = some (aLo, aHi) ∧ s.KeptWith aLo.toInt aHi.toInt

/-- With the ends that the array has, a transfer keeps its components if the count and the index are
what they should be and the last index does not wrap. -/
theorem keptWith_ends (declared : s.declaredCount = s.components) (same : s.idx.toInt = s.index)
    (fits : -2 ^ 63 ≤ s.hi - (s.components - 1)) : s.KeptWith s.lo s.hi := by
  have index_ge := Int64.le_toInt s.idx
  have hi_eq : s.hi = s.array.ends.2.toInt := rfl
  constructor
  · rintro ⟨above, below⟩
    rw [Reported, declared, same]
    exact ⟨by omega, .inr ⟨rfl, rfl⟩⟩
  · intro outside
    rw [InRange] at outside
    rw [Reported, declared, same]
    omega

theorem first_eq (inside : s.InRange) : (s.first : Int) = s.index - s.lo :=
  Int.toNat_of_nonneg (by have := inside.1; omega)

theorem first_add_le (inside : s.InRange) : s.first + s.components ≤ s.arrayLength := by
  have above := inside.2
  have first := first_eq inside
  have length : (s.arrayLength : Int) = s.hi - s.lo + 1 := by
    rw [arrayLength]
    have positive := s.components_pos
    have below := inside.1
    omega
  omega

/-- What has been packed is unpacked to the same places. -/
theorem Lawful.restores {a' z' a'' z'' : List s.Component}
    (packed : s.Lawful true a z (.done a' z')) (unpacked : s.Lawful false a' z' (.done a'' z'')) :
    a'' = a ∧ z'' = z' := by
  obtain ⟨-, rfl, -, from_a⟩ := packed
  obtain ⟨-, rfl, -, to_a, others⟩ := unpacked
  refine ⟨List.ext_getElem? fun j => ?_, rfl⟩
  by_cases within : s.first ≤ j ∧ j < s.first + s.components
  · obtain ⟨k, rfl⟩ := Nat.exists_eq_add_of_le within.1
    rw [to_a k (by omega), from_a k (by omega)]
  · exact others j (by omega)

/-- A block that begins where it should is copied as it should be. -/
theorem lawful_copyBlock (inside : s.InRange) (a_length : a.length = s.arrayLength)
    (z_length : z.length = s.components) :
    s.Lawful isPack a z (copyBlock isPack a z (s.index - s.lo) s.components) := by
  have fits := first_add_le inside
  have first := first_eq inside
  have positive := s.components_pos
  rw [← first, copyBlock, if_neg (by omega), if_pos ⟨by omega, by omega, by omega⟩, Int.toNat_natCast]
  cases isPack with
  | true =>
      refine ⟨inside, rfl, ?_, fun k less => ?_⟩
      · rw [List.length_append, List.length_take_of_le (by rw [List.length_drop]; omega),
          List.length_drop]
        omega
      · rw [getElem?_overlay (by omega) (by omega), if_pos less]
  | false =>
      have found := getElem?_splice (a := a) (z := z) (p := s.first) (n := s.components) (by omega)
        (by omega)
      refine ⟨inside, rfl, ?_, fun k less => ?_, fun j outside => ?_⟩
      · rw [List.length_append, List.length_append, List.length_take, List.length_take,
          List.length_drop]
        omega
      · rw [found, if_pos (by omega), Nat.add_sub_cancel_left]
      · rw [found, if_neg (by omega)]

/-- Components without storage are where they should be as they are. -/
theorem lawful_done (inside : s.InRange) (storage : s.elemSize = 0)
    (a_length : a.length = s.arrayLength) (z_length : z.length = s.components) :
    s.Lawful isPack a z (.done a z) := by
  have alike : ∀ left right : s.Component, left = right := by
    intro left right
    apply BitVec.eq_of_getLsbD_eq
    intro i less
    omega
  have fits := first_add_le inside
  have both : ∀ (left right : List s.Component) (j k : Nat), j < left.length →
      k < right.length → left[j]? = right[k]? := by
    intro left right j k j_less k_less
    rw [List.getElem?_eq_getElem j_less, List.getElem?_eq_getElem k_less]
    exact congrArg _ (alike _ _)
  cases isPack with
  | true => exact ⟨inside, rfl, rfl, fun k less => both _ _ _ _ (by omega) (by omega)⟩
  | false =>
      exact ⟨inside, rfl, rfl, fun k less => both _ _ _ _ (by omega) (by omega), fun _ _ => rfl⟩

theorem lawful_of_kept (kept : s.Kept) (a_length : a.length = s.arrayLength)
    (z_length : z.length = s.components) : s.Lawful isPack a z (s.emitPackUnpack isPack a z) := by
  rcases kept with ⟨nothing, inside, storage⟩ | ⟨pos, placed, aLo, aHi, found, kept⟩
  · rw [emit_nothing (by omega)]
    exact lawful_done inside storage a_length z_length
  · by_cases inside : s.InRange
    · obtain ⟨silent, moves⟩ := kept.inside inside
      rw [emit_copied pos found placed silent]
      rcases moves with storage | ⟨declared, same⟩
      · rw [if_pos storage, copyBlock, if_pos rfl]
        exact lawful_done inside storage a_length z_length
      · by_cases storage : s.elemSize = 0
        · rw [if_pos storage, copyBlock, if_pos rfl]
          exact lawful_done inside storage a_length z_length
        · have begins : (s.idx - aLo).toInt = s.index - s.lo := by
            have room : s.hi - s.lo + 1 < 2 ^ 63 := by
              have one_le : (1 : Int) ≤ s.elemSize := by omega
              have width : 0 ≤ s.hi - s.lo + 1 := by
                have := inside.1
                have := inside.2
                have := s.components_pos
                omega
              exact lt_of_le_of_lt (le_mul_of_one_le_left width one_le) s.array_lt
            have above := inside.1
            have below := inside.2
            have positive := s.components_pos
            rw [SignedWords.toInt_sub_of_fits (by omega) (by omega), same]
          rw [if_neg storage, begins, declared, Int.toNat_natCast]
          exact lawful_copyBlock inside a_length z_length
    · rw [emit_reported pos found placed (kept.outside inside)]
      exact inside

/-! ### Only there -/

/-- A block that is copied lies inside both arrays. -/
theorem block_inside {off : Int} {moved : Nat} (pos : 0 < moved)
    (lawful : s.Lawful isPack a z (copyBlock isPack a z off moved)) :
    0 ≤ off ∧ off + moved ≤ a.length ∧ moved ≤ z.length := by
  rw [copyBlock, if_neg (by omega)] at lawful
  by_cases inside : 0 ≤ off ∧ off + moved ≤ a.length ∧ moved ≤ z.length
  · exact inside
  · rw [if_neg inside] at lawful
    exact absurd lawful id

/-- What is copied should be copied. -/
theorem inRange_of_copied {off : Int} {moved : Nat}
    (lawful : s.Lawful isPack a z (copyBlock isPack a z off moved)) : s.InRange := by
  rw [copyBlock] at lawful
  split at lawful
  · exact lawful.1
  · split at lawful
    · split at lawful
      · exact lawful.1
      · exact lawful.1
    · exact absurd lawful id

/-- Components with storage are not all alike. -/
theorem zero_ne_one (storage : s.elemSize ≠ 0) : (0 : s.Component) ≠ 1 := by
  intro same
  have one : (0 : Nat) = 1 % 2 ^ (8 * s.elemSize) := by
    simpa using congrArg BitVec.toNat same
  rw [Nat.mod_eq_of_lt (Nat.one_lt_two_pow (by omega))] at one
  cases one

/-- A block that is copied as it should be, whatever the arrays hold, is the whole packed array and
begins where it should. -/
theorem block_eq (storage : s.elemSize ≠ 0) (inside : s.InRange) {off : Int} {moved : Nat}
    (pos : 0 < moved)
    (lawful : ∀ a z : List s.Component, a.length = s.arrayLength → z.length = s.components →
      s.Lawful isPack a z (copyBlock isPack a z off moved)) :
    moved = s.components ∧ off = s.first := by
  have positive := s.components_pos
  have room := first_add_le inside
  have differ := zero_ne_one storage
  have a_length : (List.replicate s.arrayLength (1 : s.Component)).length = s.arrayLength :=
    List.length_replicate
  have z_length : (List.replicate s.components (0 : s.Component)).length = s.components :=
    List.length_replicate
  obtain ⟨off_nonneg, off_le, moved_le⟩ := block_inside pos (lawful _ _ a_length z_length)
  rw [a_length] at off_le
  rw [z_length] at moved_le
  cases isPack with
  | true =>
      have read : ∀ a z : List s.Component, a.length = s.arrayLength →
          z.length = s.components → ∀ k, k < s.components →
            (if k < moved then a[off.toNat + k]? else z[k]?) = a[s.first + k]? := by
        intro a z a_length z_length k less
        have copied := lawful a z a_length z_length
        rw [copyBlock, if_neg (by omega), if_pos ⟨off_nonneg, by omega, by omega⟩, if_pos rfl]
          at copied
        obtain ⟨-, -, -, found⟩ := copied
        rw [← found k less, getElem?_overlay (by omega) (by omega)]
      have whole : moved = s.components := by
        by_contra shorter
        have last := read _ _ a_length z_length (s.components - 1) (by omega)
        rw [if_neg (by omega), List.getElem?_replicate_of_lt (by omega),
          List.getElem?_replicate_of_lt (by omega)] at last
        exact differ (Option.some.inj last)
      refine ⟨whole, ?_⟩
      -- only the first place is marked
      have marked := read ((List.replicate s.arrayLength 0).set s.first 1) _ (by simp) z_length 0
        positive
      rw [if_pos pos, Nat.add_zero, Nat.add_zero, List.getElem?_set_self (by simp; omega)] at marked
      by_contra elsewhere
      rw [List.getElem?_set_ne (by omega), List.getElem?_replicate_of_lt (by omega)] at marked
      exact differ (Option.some.inj marked)
  | false =>
      have copied := lawful _ _ a_length z_length
      rw [copyBlock, if_neg (by omega), if_pos ⟨off_nonneg, by omega, by omega⟩,
        if_neg Bool.false_ne_true] at copied
      obtain ⟨-, -, -, found, -⟩ := copied
      -- what is written lies in the block
      have covered : ∀ k, k < s.components → off.toNat ≤ s.first + k ∧
          s.first + k < off.toNat + moved := by
        intro k less
        by_contra outside
        have written := found k less
        rw [getElem?_splice (by omega) (by omega), if_neg outside,
          List.getElem?_replicate_of_lt (by omega), List.getElem?_replicate_of_lt less] at written
        exact differ (Option.some.inj written).symm
      have begins := covered 0 positive
      have ends := covered (s.components - 1) (by omega)
      omega

/-- Something must be copied. -/
theorem count_pos (storage : s.elemSize ≠ 0) (inside : s.InRange)
    (lawful : ∀ a z : List s.Component, a.length = s.arrayLength → z.length = s.components →
      s.Lawful isPack a z (s.emitPackUnpack isPack a z)) : 0 < s.declaredCount := by
  by_contra nothing
  have positive := s.components_pos
  have room := first_add_le inside
  have unchanged := lawful (List.replicate _ 1) (List.replicate _ 0) List.length_replicate
    List.length_replicate
  rw [emit_nothing nothing] at unchanged
  have one : (List.replicate s.arrayLength (1 : s.Component))[s.first + 0]? = some 1 :=
    List.getElem?_replicate_of_lt (by omega)
  have zero : (List.replicate s.components (0 : s.Component))[0]? = some 0 :=
    List.getElem?_replicate_of_lt positive
  cases isPack with
  | true =>
      obtain ⟨-, -, -, found⟩ := unchanged
      have same := found 0 positive
      rw [one, zero] at same
      exact zero_ne_one storage (Option.some.inj same)
  | false =>
      obtain ⟨-, -, -, found, -⟩ := unchanged
      have same := found 0 positive
      rw [one, zero] at same
      exact zero_ne_one storage (Option.some.inj same).symm

/-- What is copied as it should be, by the ends that are found, is counted and placed as it should
be. -/
theorem keptWith_of_lawful {aLo aHi : Int64} (pos : 0 < s.declaredCount)
    (found : s.foundEnds = some (aLo, aHi)) (placed : s.addressable = true)
    (lawful : ∀ a z : List s.Component, a.length = s.arrayLength → z.length = s.components →
      s.Lawful isPack a z (s.emitPackUnpack isPack a z)) : s.KeptWith aLo.toInt aHi.toInt := by
  have blank := lawful (List.replicate _ 0) (List.replicate _ 0) List.length_replicate
    List.length_replicate
  constructor
  · intro inside
    have silent : ¬s.Reported aLo.toInt aHi.toInt := by
      intro reported
      rw [emit_reported pos found placed reported] at blank
      exact blank inside
    refine ⟨silent, or_iff_not_imp_left.mpr fun storage => ?_⟩
    have copied : s.declaredCount.toNat = s.components ∧ (s.idx - aLo).toInt = s.first := by
      apply block_eq storage inside (by omega)
      intro a z a_length z_length
      have copied := lawful a z a_length z_length
      rwa [emit_copied pos found placed silent, if_neg storage] at copied
    refine ⟨by omega, ?_⟩
    have first := first_eq inside
    have begins := copied.2
    have above : aLo.toInt ≤ s.idx.toInt := by
      by_contra below
      exact silent (.inl (by omega))
    have idx_lt := Int64.toInt_lt s.idx
    have lo_ge := Int64.le_toInt aLo
    rw [Int64.toInt_sub] at begins
    obtain less | more := lt_or_ge (s.idx.toInt - aLo.toInt) (2 ^ 63)
    · rw [Int.bmod_eq_of_le (by omega) (by omega)] at begins
      omega
    · rw [← Int.sub_bmod_right, Int.bmod_eq_of_le (by omega) (by omega)] at begins
      omega
  · intro outside
    by_contra silent
    rw [emit_copied pos found placed silent] at blank
    exact outside (inRange_of_copied blank)

/-- Three components at the least integers, and ten to be packed from the first one on. -/
def atMinInt : Transfer where
  array := .declared Int64.minValue (Int64.minValue + 2)
  scopes := []
  addressable := true
  SubLo := 1
  SubHi := 10
  components := 10
  elemSize := 1
  width := 64
  signed := true
  index := -2 ^ 63
  width_range := by decide
  holds := by decide
  ordered := by decide
  ends_ordered := by decide
  components_pos := by decide
  type_lt := by decide
  array_lt := by decide
  components_lt := by decide

end Transfer

end Plang.CodeGen
