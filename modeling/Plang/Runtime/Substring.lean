import Plang.Library.SignedWords
import Plang.Runtime.StringOrder

/-!
# Substrings

What `substr(s, i, n)` and an assignment to `s[low..high]` do for all integers of 64 bits: they end
in a report, or read or write exactly the characters of the range.  The assignment is not for empty
ranges, and the value has to be as long as the range.
-/

namespace Plang.Runtime

open SignedWords

namespace EpString

variable (s : EpString)

theorem cap_toInt : s.cap.toInt = s.data.length := by
  have room := s.room
  rw [cap, Int64.toInt_ofInt_of_le (by omega) (by exact_mod_cast room)]

theorem length_lt : (s.length : Int) < 2 ^ 63 := by
  rw [s.coe_length]
  exact s.len.toInt_lt

end EpString

/-- The range of `substr(s, i, n)` is in the string.  An empty one may begin anywhere. -/
def InSight (s : EpString) (i n : Int64) : Prop :=
  1 ≤ i.toInt ∧ 0 ≤ n.toInt ∧ (n.toInt = 0 ∨ i.toInt + n.toInt - 1 ≤ s.length)

/-- The range of `s[low..high]` is in the string, and not empty. -/
def Writable (s : EpString) (low high : Int64) : Prop :=
  1 ≤ low.toInt ∧ low.toInt ≤ high.toInt ∧ high.toInt ≤ s.length

/-! ### The tests -/

section Bounds

variable {s : EpString} {i n : Int64}

/-- What is left of a string is computed without wrapping. -/
theorem toInt_rest (first : 1 ≤ i.toInt) (inside : i.toInt ≤ s.length) :
    (s.len - i + 1).toInt = s.length - i.toInt + 1 := by
  have len_lt := s.length_lt
  have difference : (s.len - i).toInt = s.length - i.toInt := by
    rw [s.coe_length] at *
    exact toInt_sub_of_fits (by omega) (by omega)
  have one : (1 : Int64).toInt = 1 := Int64.toInt_one
  rw [toInt_add_of_fits (by omega) (by omega), difference, one]

/-- The offset of a character is computed without wrapping. -/
theorem toInt_offset (first : 1 ≤ i.toInt) : (i - 1).toInt = i.toInt - 1 := by
  have i_lt := i.toInt_lt
  have one : (1 : Int64).toInt = 1 := Int64.toInt_one
  rw [toInt_sub_of_fits (by omega) (by omega), one]

theorem past_iff (first : 1 ≤ i.toInt) :
    (i > s.len ∨ n > s.len - i + 1) ↔ s.length < i.toInt ∨ s.length < i.toInt + n.toInt - 1 := by
  rw [gt_iff_lt, gt_iff_lt, Int64.lt_iff_toInt_lt, Int64.lt_iff_toInt_lt, ← s.coe_length]
  by_cases inside : i.toInt ≤ s.length
  · rw [toInt_rest first inside]
    omega
  · have outside : (s.length : Int) < i.toInt := by omega
    exact iff_of_true (.inl outside) (.inl outside)

theorem substr_test :
    (n < 0 ∨ i < 1 ∨ n > 0 ∧ (i > s.len ∨ n > s.len - i + 1)) ↔ ¬InSight s i n := by
  have zero : (0 : Int64).toInt = 0 := Int64.toInt_zero
  have one : (1 : Int64).toInt = 1 := Int64.toInt_one
  rw [Int64.lt_iff_toInt_lt, Int64.lt_iff_toInt_lt, gt_iff_lt, Int64.lt_iff_toInt_lt, zero, one,
    InSight]
  by_cases first : 1 ≤ i.toInt
  · rw [past_iff first]
    omega
  · omega

/-- Whatever `high - low + 1` wraps to, the test is that of the range. -/
theorem substrAssign_test {low high : Int64} :
    (high - low + 1 ≤ 0 ∨ low < 1 ∨ low > s.len ∨ high - low + 1 > s.len - low + 1) ↔
      ¬Writable s low high := by
  have zero : (0 : Int64).toInt = 0 := Int64.toInt_zero
  have one : (1 : Int64).toInt = 1 := Int64.toInt_one
  have len_lt := s.length_lt
  have low_lt := low.toInt_lt
  have high_lt := high.toInt_lt
  have le_high := high.le_toInt
  rw [Int64.le_iff_toInt_le, Int64.lt_iff_toInt_lt, zero, one, Writable]
  by_cases first : 1 ≤ low.toInt
  · rw [past_iff first, toInt_sub_add_one, Int.bmod_def]
    split <;> omega
  · omega

end Bounds

/-! ### Copies -/

theorem sizeT_eq {n : Int64} (nonneg : 0 ≤ n.toInt) : sizeT n = n.toInt.toNat :=
  toNat_toUInt64 nonneg

/-- A copy within both strings replaces what it goes to. -/
theorem memcpy_eq_ok {dst src : Text} {dstOff srcOff n : Nat} (room : dstOff + n ≤ dst.length)
    (inside : srcOff + n ≤ src.length) :
    memcpy dst dstOff src srcOff n =
      .ok (dst.take dstOff ++ (src.drop srcOff).take n ++ dst.drop (dstOff + n)) := by
  rw [memcpy]
  split
  · rename_i none_
    rw [none_, List.take_zero, List.append_nil, Nat.add_zero, List.take_append_drop]
  · rw [if_pos ⟨by omega, by omega, by omega, by omega⟩]
    rfl

@[simp] theorem memcpy_zero (dst src : Text) (dstOff srcOff : Int) :
    memcpy dst dstOff src srcOff 0 = .ok dst := if_pos rfl

/-! ### Reading -/

section Reading

variable {s : EpString} {result : Text} {i n : Int64}

theorem min_cap (in_sight : InSight s i n) : min n s.cap = n := by
  obtain ⟨first, _, inside⟩ := in_sight
  have within := s.length_le
  refine if_pos (Int64.le_iff_toInt_le.mpr ?_)
  rw [s.cap_toInt]
  omega

/-- The characters of a range. -/
def EpString.slice (s : EpString) (i n : Int) : Text := (s.chars.drop (i - 1).toNat).take n.toNat

theorem length_slice (in_sight : InSight s i n) :
    (s.slice i.toInt n.toInt).length = n.toInt.toNat := by
  obtain ⟨first, _, inside⟩ := in_sight
  rw [EpString.slice, List.length_take, List.length_drop, EpString.length_chars]
  omega

/-- The copied characters are characters of the string, not of what is behind it. -/
theorem take_drop_data (in_sight : InSight s i n) :
    (s.data.drop (i.toInt - 1).toNat).take n.toInt.toNat = s.slice i.toInt n.toInt := by
  obtain ⟨first, _, inside⟩ := in_sight
  rw [EpString.slice, EpString.chars, List.drop_take, List.take_take]
  congr 1
  omega

theorem memcpy_read (wide : result.length = s.data.length) (in_sight : InSight s i n) :
    memcpy result 0 s.data (i - 1).toInt (sizeT n) =
      .ok (s.slice i.toInt n.toInt ++ result.drop n.toInt.toNat) := by
  have taken := take_drop_data in_sight
  obtain ⟨first, nonneg, inside⟩ := in_sight
  rw [sizeT_eq nonneg, toInt_offset first, ← taken]
  rcases inside with empty | inside
  · rw [empty]
    simp
  · have within := s.length_le
    have copied := @memcpy_eq_ok result s.data 0 (i.toInt - 1).toNat n.toInt.toNat
      (by omega) (by omega)
    rw [Int.toNat_of_nonneg (by omega), List.take_zero, List.nil_append, Nat.zero_add] at copied
    exact copied

/-- A range that is in the string is read: the result is its characters. -/
theorem substr_eq_ok (wide : result.length = s.data.length) (in_sight : InSight s i n) :
    substr s result i n =
      .ok { len := n, data := s.slice i.toInt n.toInt ++ result.drop n.toInt.toNat } := by
  rw [substr, plangStrSubstr, if_neg (not_not.mpr in_sight ∘ substr_test.mp), min_cap in_sight]
  exact congrArg (fun data => data >>= _) (memcpy_read wide in_sight)

theorem substr_eq_error (outside : ¬InSight s i n) :
    substr s result i n = .error (.substr i n s.len) := by
  rw [substr, plangStrSubstr, if_pos (substr_test.mpr outside)]

/-- What is read is a string of the capacity that it was given. -/
theorem substr_is_string (wide : result.length = s.data.length) (in_sight : InSight s i n) :
    ∃ r : EpString, substr s result i n = .ok r.toStrMem ∧ r.len = n ∧
      r.chars = s.slice i.toInt n.toInt ∧ r.data.length = result.length := by
  have sliced := length_slice in_sight
  have read := substr_eq_ok wide in_sight
  obtain ⟨first, nonneg, inside⟩ := in_sight
  have within := s.length_le
  have room := s.room
  have width : (s.slice i.toInt n.toInt ++ result.drop n.toInt.toNat).length = result.length := by
    rw [List.length_append, List.length_drop, sliced]
    omega
  refine ⟨⟨⟨n, _⟩, nonneg, ?_, ?_⟩, read, rfl, ?_, width⟩
  · change n.toInt ≤ _
    rw [width]
    omega
  · rw [width]
    omega
  · exact List.take_left' sliced

end Reading

/-! ### Writing -/

section Writing

variable {s t : EpString} {temporary : Text} {low high n : Int64}

/-- A value that fits is in the temporary as it was. -/
theorem plangStrAssign_eq_ok (fits : t.length ≤ temporary.length)
    (room : temporary.length < 2 ^ 63) :
    plangStrAssign { len := 0, data := temporary } (Int64.ofInt temporary.length) t.toStrMem =
      .ok { len := t.len, data := t.chars ++ temporary.drop t.length } := by
  have nonneg := t.nonneg
  have within := t.length_le
  have same := t.coe_length
  have capacity : (Int64.ofInt temporary.length).toInt = temporary.length :=
    Int64.toInt_ofInt_of_le (by omega) (by exact_mod_cast room)
  rw [plangStrAssign, if_neg, sizeT_eq nonneg]
  · have copied := @memcpy_eq_ok temporary t.data 0 0 t.len.toInt.toNat (by omega) (by omega)
    rw [List.take_zero, List.nil_append, Nat.zero_add, List.drop_zero] at copied
    exact congrArg (fun data => data >>= _) copied
  · rw [gt_iff_lt, Int64.lt_iff_toInt_lt, capacity, ← same]
    omega

theorem toInt_span (writable : Writable s low high) :
    (high - low + 1).toInt = high.toInt - low.toInt + 1 := by
  obtain ⟨first, ordered, inside⟩ := writable
  have len_lt := s.length_lt
  rw [toInt_sub_add_one]
  exact Int.bmod_eq_of_le (by omega) (by omega)

theorem substringAssign_eq (fits : t.length ≤ temporary.length)
    (room : temporary.length < 2 ^ 63) :
    substringAssign s low high temporary t =
      plangStrSubstrAssign s.toStrMem low (high - low + 1)
        { len := t.len, data := t.chars ++ temporary.drop t.length } := by
  rw [substringAssign, plangStrAssign_eq_ok fits room]
  rfl

theorem substringAssign_eq_error (fits : t.length ≤ temporary.length)
    (room : temporary.length < 2 ^ 63) (outside : ¬Writable s low high) :
    substringAssign s low high temporary t = .error (.substr low (high - low + 1) s.len) := by
  rw [substringAssign_eq fits room, plangStrSubstrAssign, if_pos (substrAssign_test.mpr outside)]

/-- A value of another length is not assigned. -/
theorem substringAssign_other_length (fits : t.length ≤ temporary.length)
    (room : temporary.length < 2 ^ 63) (writable : Writable s low high)
    (other : t.len.toInt ≠ high.toInt - low.toInt + 1) :
    substringAssign s low high temporary t = .error (.substrAssign t.len (high - low + 1)) := by
  rw [substringAssign_eq fits room, plangStrSubstrAssign,
    if_neg (not_not.mpr writable ∘ substrAssign_test.mp), if_pos]
  intro same
  have span := toInt_span writable
  rw [← same] at span
  exact other span

/-- The memory of the string with some characters from a position on. -/
def EpString.written (s : EpString) (low : Int) (value : Text) : Text :=
  s.data.take (low - 1).toNat ++ value ++ s.data.drop ((low - 1).toNat + value.length)

theorem substringAssign_eq_ok (fits : t.length ≤ temporary.length)
    (room : temporary.length < 2 ^ 63) (writable : Writable s low high)
    (same : t.len.toInt = high.toInt - low.toInt + 1) :
    substringAssign s low high temporary t =
      .ok { len := s.len, data := s.written low.toInt t.chars } := by
  have span := toInt_span writable
  have same_len : t.len = high - low + 1 := Int64.toInt_inj.mp (same.trans span.symm)
  rw [substringAssign_eq fits room, plangStrSubstrAssign,
    if_neg (not_not.mpr writable ∘ substrAssign_test.mp), if_neg (not_not.mpr same_len),
    ← same_len, sizeT_eq t.nonneg, toInt_offset writable.1]
  obtain ⟨first, ordered, inside⟩ := writable
  have within := s.length_le
  have t_length := t.coe_length
  have copied := @memcpy_eq_ok s.data (t.chars ++ temporary.drop t.length) (low.toInt - 1).toNat 0
    t.length (by omega) (by rw [List.length_append, t.length_chars]; omega)
  rw [Int.toNat_of_nonneg (by omega), List.drop_zero, List.take_left' t.length_chars] at copied
  rw [EpString.written, t.length_chars]
  exact congrArg (fun data => data >>= _) copied

end Writing

/-! ### The whole -/

/-- Substrings of a string: what is in it is read and written exactly, everything else is reported.
A range is read into a result as wide as the string; a value is written from a temporary. -/
structure SubstringLaw (s : EpString) : Prop where
  reads : ∀ (result : Text) (i n : Int64), result.length = s.data.length → InSight s i n →
    ∃ r : EpString, substr s result i n = .ok r.toStrMem ∧ r.len = n ∧
      r.chars = (s.chars.drop (i.toInt - 1).toNat).take n.toInt.toNat
  read_refused : ∀ (result : Text) (i n : Int64), result.length = s.data.length →
    (substr s result i n = .error (.substr i n s.len) ↔ ¬InSight s i n)
  writes : ∀ (t : EpString) (temporary : Text) (low high : Int64),
    t.length ≤ temporary.length → temporary.length < 2 ^ 63 → Writable s low high →
    t.len.toInt = high.toInt - low.toInt + 1 →
    ∃ r : EpString, substringAssign s low high temporary t = .ok r.toStrMem ∧ r.len = s.len ∧
      r.chars = s.chars.take (low.toInt - 1).toNat ++ t.chars ++ s.chars.drop high.toInt.toNat ∧
      r.data.drop r.length = s.data.drop s.length
  write_refused : ∀ (t : EpString) (temporary : Text) (low high : Int64),
    t.length ≤ temporary.length → temporary.length < 2 ^ 63 →
    (substringAssign s low high temporary t = .error (.substr low (high - low + 1) s.len) ↔
      ¬Writable s low high)
  other_length : ∀ (t : EpString) (temporary : Text) (low high : Int64),
    t.length ≤ temporary.length → temporary.length < 2 ^ 63 → Writable s low high →
    t.len.toInt ≠ high.toInt - low.toInt + 1 →
    substringAssign s low high temporary t = .error (.substrAssign t.len (high - low + 1))
  /-- What the tests and the copies compute of an index in the string does not wrap. -/
  exact_index : ∀ i : Int64, 1 ≤ i.toInt → i.toInt ≤ s.length →
    (s.len - i + 1).toInt = s.length - i.toInt + 1 ∧ (i - 1).toInt = i.toInt - 1

section Whole

variable {s t : EpString} {temporary : Text} {low high : Int64}

theorem written_parts (writable : Writable s low high)
    (same : t.len.toInt = high.toInt - low.toInt + 1) :
    s.written low.toInt t.chars = s.chars.take (low.toInt - 1).toNat ++ t.chars ++
      s.chars.drop high.toInt.toNat ++ s.data.drop s.length := by
  obtain ⟨first, ordered, inside⟩ := writable
  have within := s.length_le
  rw [← t.coe_length] at same
  have start : (low.toInt - 1).toNat + t.length = high.toInt.toNat := by omega
  have front : s.data.take (low.toInt - 1).toNat = s.chars.take (low.toInt - 1).toNat := by
    rw [EpString.chars, List.take_take, min_eq_left (by omega)]
  have back : s.data.drop high.toInt.toNat =
      s.chars.drop high.toInt.toNat ++ s.data.drop s.length := by
    rw [← List.take_append_drop s.length s.data, List.drop_append_of_le_length,
      List.take_append_drop, EpString.chars]
    rw [List.length_take]
    omega
  rw [EpString.written, t.length_chars, start, front, back, List.append_assoc, List.append_assoc,
    List.append_assoc]

theorem length_parts (writable : Writable s low high)
    (same : t.len.toInt = high.toInt - low.toInt + 1) :
    (s.chars.take (low.toInt - 1).toNat ++ t.chars ++ s.chars.drop high.toInt.toNat).length =
      s.length := by
  obtain ⟨first, ordered, inside⟩ := writable
  rw [← t.coe_length] at same
  rw [List.length_append, List.length_append, List.length_take, List.length_drop, s.length_chars,
    t.length_chars]
  omega

theorem substringAssign_is_string (fits : t.length ≤ temporary.length)
    (room : temporary.length < 2 ^ 63) (writable : Writable s low high)
    (same : t.len.toInt = high.toInt - low.toInt + 1) :
    ∃ r : EpString, substringAssign s low high temporary t = .ok r.toStrMem ∧ r.len = s.len ∧
      r.chars = s.chars.take (low.toInt - 1).toNat ++ t.chars ++ s.chars.drop high.toInt.toNat ∧
      r.data.drop r.length = s.data.drop s.length := by
  have parts := written_parts writable same
  have lengths := length_parts writable same
  have width : (s.written low.toInt t.chars).length = s.data.length := by
    have within := s.length_le
    rw [parts, List.length_append, lengths, List.length_drop]
    omega
  refine ⟨⟨⟨s.len, s.written low.toInt t.chars⟩, s.nonneg, width ▸ s.within, width ▸ s.room⟩,
    substringAssign_eq_ok fits room writable same, rfl, ?_, ?_⟩
  · change (s.written low.toInt t.chars).take s.length = _
    rw [parts]
    exact List.take_left' lengths
  · change (s.written low.toInt t.chars).drop s.length = _
    rw [parts]
    exact List.drop_left' lengths

/-- Substrings are read and written exactly, or refused. -/
theorem substring_law (s : EpString) : SubstringLaw s where
  reads result i n wide in_sight := by
    obtain ⟨r, read, len, chars, _⟩ := substr_is_string wide in_sight
    exact ⟨r, read, len, chars⟩
  read_refused result i n wide := by
    constructor
    · intro refused in_sight
      rw [substr_eq_ok wide in_sight] at refused
      cases refused
    · exact substr_eq_error
  writes t temporary low high fits room writable same :=
    substringAssign_is_string fits room writable same
  write_refused t temporary low high fits room := by
    constructor
    · intro refused writable
      by_cases same : t.len.toInt = high.toInt - low.toInt + 1
      · rw [substringAssign_eq_ok fits room writable same] at refused
        cases refused
      · rw [substringAssign_other_length fits room writable same] at refused
        cases refused
    · exact substringAssign_eq_error fits room
  other_length t temporary low high fits room writable other :=
    substringAssign_other_length fits room writable other
  exact_index i first inside := ⟨toInt_rest first inside, toInt_offset first⟩

end Whole

/-- Three characters. -/
def abc : EpString where
  len := 3
  data := ['a', 'b', 'c']
  nonneg := by decide
  within := by decide
  room := by decide

/-- No characters. -/
def empty : EpString where
  len := 0
  data := []
  nonneg := by decide
  within := by decide
  room := by decide

/-- A range that may be empty, and then begins no later than behind the last character. -/
def Selectable (s : EpString) (i n : Int) : Prop := 1 ≤ i ∧ 0 ≤ n ∧ i + n - 1 ≤ s.length

/-- An empty range far behind the last character is read without an error, and an assignment to an empty range in
the string is reported. -/
theorem reported_differs_from_selectable :
    (¬∀ (s : EpString) (low high : Int64),
      (∃ fault, substr s s.data low (high - low + 1) = .error fault) ↔
        ¬Selectable s low.toInt (high.toInt - low.toInt + 1)) ∧
    ¬∀ (s t : EpString) (low high : Int64),
      (∃ i n len, substringAssign s low high s.data t = .error (.substr i n len)) ↔
        ¬Selectable s low.toInt (high.toInt - low.toInt + 1) := by
  constructor
  · intro read
    have outside : ¬Selectable abc (6 : Int64).toInt ((5 : Int64).toInt - (6 : Int64).toInt + 1) :=
      fun selectable => absurd selectable.2.2 (by decide)
    obtain ⟨fault, refused⟩ := (read abc 6 5).mpr outside
    have accepted : (substr abc abc.data 6 (5 - 6 + 1)).isOk = true := by decide
    rw [refused] at accepted
    cases accepted
  · intro assigned
    exact (assigned abc empty 2 1).mp ⟨2, 0, 3, by decide⟩ ⟨by decide, by decide, by decide⟩

end Plang.Runtime
