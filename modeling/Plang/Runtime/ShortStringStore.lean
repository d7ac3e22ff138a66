import Plang.Library.Runs
import Plang.Runtime.ShortString

/-!
# What short strings hold

Every operation on the short strings of a program leaves in its variable what the operation on lists
gives on the values the operands had, cut off at the capacity.
-/

namespace Plang

namespace Runtime

/-! ## The operations on lists -/

namespace StringValue

variable {α : Type*}

/-- `count` elements from the position `index` on, counted from one; a position before the first
means the first. -/
def copy (value : List α) (index count : Int) : List α :=
  (value.drop (max 1 index - 1).toNat).take count.toNat

/-- The list without `count` elements from a position on; the list itself where there is no such
position. -/
def delete (value : List α) (index count : Int) : List α :=
  if 1 ≤ index ∧ index ≤ value.length then
    value.take (index - 1).toNat ++ value.drop ((index - 1).toNat + count.toNat)
  else value

/-- The list with another one in front of a position; positions outside mean the first one and the
one behind the last. -/
def insert (inserted value : List α) (index : Int) : List α :=
  value.take (index - 1).toNat ++ inserted ++ value.drop (index - 1).toNat

end StringValue

namespace ShortString

/-- The variable has a capacity, its length is within what a length byte can express of it, and it
has the bytes. -/
structure WellFormed (s : ShortString) : Prop where
  pos : 1 ≤ s.cap
  len_le : s.len ≤ effCap s.cap
  size : s.data.length = s.cap.toNat

/-- A value cut off at the capacity that a length byte can express. -/
def truncated (cap : Int) (value : Text) : Text := value.take (effCap cap).toNat

/-- A routine has stored a value, cut off at the capacity. -/
structure Holds (before after : ShortString) (value : Text) : Prop where
  cap : after.cap = before.cap
  wellFormed : after.WellFormed
  contents : after.contents = truncated before.cap value

theorem effCap_bounds {cap : Int} (pos : 1 ≤ cap) :
    1 ≤ effCap cap ∧ effCap cap ≤ cap ∧ effCap cap ≤ 255 := by
  rw [effCap]
  omega

theorem WellFormed.len_le_size {s : ShortString} (wellFormed : s.WellFormed) :
    s.len ≤ s.data.length := by
  have bounds := effCap_bounds wellFormed.pos
  have within := wellFormed.len_le
  rw [wellFormed.size]
  omega

@[simp] theorem WellFormed.length_contents {s : ShortString} (wellFormed : s.WellFormed) :
    s.contents.length = s.len := by
  rw [contents, List.length_take, Nat.min_eq_left wellFormed.len_le_size]

/-- A length byte and the bytes it covers are the value. -/
theorem holds_setLen {s : ShortString} (wellFormed : s.WellFormed) (value data : Text) (n : Int)
    (size : data.length = s.data.length) (length : n = (truncated s.cap value).length)
    (stored : data.take n.toNat = truncated s.cap value) :
    Holds s ({ s with data }.setLen n) value := by
  have bounds := effCap_bounds wellFormed.pos
  have fits : (truncated s.cap value).length ≤ (effCap s.cap).toNat := by
    rw [truncated, List.length_take]
    exact Nat.min_le_left _ _
  have byte_eq : byte n = n.toNat := by
    rw [byte]
    omega
  refine ⟨rfl, ⟨wellFormed.pos, ?_, size.trans wellFormed.size⟩, ?_⟩
  · change ((byte n : Nat) : Int) ≤ effCap s.cap
    omega
  · rw [← stored, ← byte_eq]
    rfl

/-- A block within the bytes leaves their number as it is. -/
theorem size_copyIn {s : ShortString} {offset : Nat} {bytes : Text}
    (within : offset + bytes.length ≤ s.data.length) :
    (s.copyIn offset bytes).data.length = s.data.length := by
  simp only [copyIn, List.length_append, List.length_take, List.length_drop]
  omega

/-- Bytes stored at the beginning, with their number as the length, are the value. -/
theorem holds_copyIn {s : ShortString} (wellFormed : s.WellFormed) (value bytes : Text) (n : Int)
    (stored : bytes = truncated s.cap value) (length : n = bytes.length) :
    Holds s ((s.copyIn 0 bytes).setLen n) value := by
  have bounds := effCap_bounds wellFormed.pos
  have size := wellFormed.size
  have fits : bytes.length ≤ (effCap s.cap).toNat := by
    rw [stored, truncated, List.length_take]
    exact Nat.min_le_left _ _
  refine holds_setLen wellFormed value _ n (size_copyIn (by omega)) (by rw [length, stored]) ?_
  rw [length, ← stored]
  simp

theorem copyIn_nil (s : ShortString) : s.copyIn 0 [] = s := by
  simp [copyIn]

/-- Two blocks stored one behind the other are one block. -/
theorem copyIn_append (s : ShortString) (first second : Text) :
    (s.copyIn 0 first).copyIn first.length second = s.copyIn 0 (first ++ second) := by
  simp [copyIn, List.drop_append, List.drop_drop]

/-! ## Values from other forms -/

variable {s : ShortString}

theorem plangSstrFromBytes_holds (wellFormed : s.WellFormed) (src : Text) :
    Holds s (s.plangSstrFromBytes src) src := by
  have bounds := effCap_bounds wellFormed.pos
  rcases src with _ | ⟨c, rest⟩
  · have stored := holds_copyIn wellFormed [] [] 0 (by simp [truncated]) rfl
    rwa [copyIn_nil] at stored
  · refine holds_copyIn wellFormed _ _ _ ?_ ?_
    · rw [truncated, List.take_eq_take_iff]
      omega
    · rw [List.length_take]
      omega

theorem plangSstrFromCstr_holds (wellFormed : s.WellFormed) (src : Option Text) :
    Holds s (s.plangSstrFromCstr src) (cString (src.getD [])) := by
  rcases src with _ | src
  · exact plangSstrFromBytes_holds wellFormed []
  · exact plangSstrFromBytes_holds wellFormed (cString src)

theorem plangSstrFromChar_holds (wellFormed : s.WellFormed) (c : Char) :
    Holds s (s.plangSstrFromChar c) [c] := by
  have bounds := effCap_bounds wellFormed.pos
  rw [plangSstrFromChar, if_neg (by omega)]
  refine holds_copyIn wellFormed [c] [c] 1 ?_ rfl
  rw [truncated, List.take_of_length_le (by simp; omega)]

theorem plangWritestrEndSstr_holds (wellFormed : s.WellFormed) (text : Text) :
    Holds s (s.plangWritestrEndSstr text) text := by
  have bounds := effCap_bounds wellFormed.pos
  have ecap_eq : (max 0 (min s.cap 255)).toNat = (effCap s.cap).toNat := by
    rw [effCap] at *
    omega
  have stored := holds_copyIn wellFormed text (text.take (max 0 (min s.cap 255)).toNat)
    (min text.length (max 0 (min s.cap 255)).toNat : Nat) (by rw [truncated, ecap_eq])
    (by rw [List.length_take, Nat.min_comm])
  exact stored

theorem plangSstrRead_holds (wellFormed : s.WellFormed) (line : Text) :
    Holds s (s.plangSstrRead line) line :=
  holds_copyIn wellFormed line _ _ rfl rfl

/-! ## Values from strings -/

theorem plangSstrConcat_holds (wellFormed : s.WellFormed) {a b : ShortString}
    (a_wellFormed : a.WellFormed) (b_wellFormed : b.WellFormed) :
    Holds s (s.plangSstrConcat a b) (a.contents ++ b.contents) := by
  have bounds := effCap_bounds wellFormed.pos
  have a_size := a_wellFormed.len_le_size
  have b_size := b_wellFormed.len_le_size
  rw [plangSstrConcat]
  generalize both_eq : min ((a.len : Int) + b.len) (effCap s.cap) = ld
  generalize first_eq : min (a.len : Int) ld = la2
  generalize second_eq : min (b.len : Int) (ld - la2) = lb2
  have first_length : (a.data.take la2.toNat).length = la2.toNat := by
    rw [List.length_take]
    omega
  have joined := copyIn_append s (a.data.take la2.toNat) (b.data.take lb2.toNat)
  rw [first_length] at joined
  rw [joined]
  refine holds_copyIn wellFormed _ _ _ ?_ ?_
  · rw [truncated, List.take_append, a_wellFormed.length_contents, contents, contents,
      List.take_take, List.take_take]
    congr 2 <;> omega
  · rw [List.length_append, first_length, List.length_take]
    omega

theorem clamped_index (index : Int) : (if index < 1 then 1 else index) = max 1 index := by
  split <;> omega

theorem available (len : Nat) (idx : Int) :
    (if idx ≤ len then (len : Int) - idx + 1 else 0) = max 0 (len - idx + 1) := by
  split <;> omega

theorem plangSstrCopy_holds (wellFormed : s.WellFormed) {src : ShortString}
    (src_wellFormed : src.WellFormed) (index count : Int) :
    Holds s (s.plangSstrCopy src index count) (StringValue.copy src.contents index count) := by
  have bounds := effCap_bounds wellFormed.pos
  have size := src_wellFormed.len_le_size
  rw [plangSstrCopy, clamped_index, available]
  refine holds_copyIn wellFormed _ _ _ ?_ ?_
  · rw [truncated, StringValue.copy, contents, List.drop_take, List.take_take, List.take_take]
    congr 1
    omega
  · rw [List.length_take, List.length_drop]
    omega

theorem plangSstrOfChar_holds (wellFormed : s.WellFormed) (ch : Char) (count : Int) :
    Holds s (s.plangSstrOfChar ch count) (List.replicate count.toNat ch) := by
  have bounds := effCap_bounds wellFormed.pos
  refine holds_copyIn wellFormed _ _ _ ?_ ?_
  · rw [truncated, List.take_replicate]
    congr 1
    omega
  · rw [List.length_replicate]
    omega

/-! ## Changes in place -/

/-- A variable that is left alone holds what it held. -/
theorem holds_self (wellFormed : s.WellFormed) : Holds s s s.contents := by
  have bounds := effCap_bounds wellFormed.pos
  have len_le := wellFormed.len_le
  refine ⟨rfl, wellFormed, ?_⟩
  rw [truncated, List.take_of_length_le]
  rw [wellFormed.length_contents]
  omega

/-- The characters behind those that are deleted. -/
theorem tail_delete (wellFormed : s.WellFormed) {index count cnt : Int}
    (inside : 1 ≤ index ∧ index ≤ s.len) (cnt_eq : cnt = min (max 0 count) (s.len - index + 1)) :
    s.contents.drop ((index - 1).toNat + count.toNat) =
      (s.data.drop (index - 1 + cnt).toNat).take (s.len - (index - 1 + cnt)).toNat := by
  have len_le_size := wellFormed.len_le_size
  rw [contents, List.drop_take]
  by_cases all : s.len ≤ (index - 1).toNat + count.toNat
  · have behind : s.len - ((index - 1).toNat + count.toNat) = 0 := by omega
    have none_left : (s.len - (index - 1 + cnt)).toNat = 0 := by omega
    rw [behind, none_left, List.take_zero, List.take_zero]
  · have same_start : (index - 1 + cnt).toNat = (index - 1).toNat + count.toNat := by omega
    rw [same_start]
    congr 1
    omega

/-- A block stored within the string, which ends behind it. -/
theorem holds_copyIn_within (wellFormed : s.WellFormed) (offset : Nat) (tail : Text) (n : Int)
    (length : n = offset + tail.length) (within : n ≤ s.len) :
    Holds s ((s.copyIn offset tail).setLen n) (s.contents.take offset ++ tail) := by
  have len_le_size := wellFormed.len_le_size
  have len_le := wellFormed.len_le
  have front : s.contents.take offset = s.data.take offset := by
    rw [contents, List.take_take]
    congr 1
    omega
  have front_length : (s.data.take offset).length = offset := by
    rw [List.length_take]
    omega
  have uncut : truncated s.cap (s.data.take offset ++ tail) = s.data.take offset ++ tail := by
    rw [truncated, List.take_of_length_le]
    rw [List.length_append, front_length]
    omega
  rw [front]
  refine holds_setLen wellFormed _ _ _ (size_copyIn (by omega)) ?_ ?_
  · rw [uncut, List.length_append, front_length, length]
    omega
  · rw [uncut]
    apply List.take_left'
    rw [List.length_append, front_length]
    omega

theorem plangSstrDelete_holds (wellFormed : s.WellFormed) (index count : Int) :
    Holds s (s.plangSstrDelete index count) (StringValue.delete s.contents index count) := by
  have len_le_size := wellFormed.len_le_size
  rw [plangSstrDelete, StringValue.delete, wellFormed.length_contents]
  by_cases outside : index < 1 ∨ (s.len : Int) < index
  · have no_such : ¬(1 ≤ index ∧ index ≤ (s.len : Int)) := by omega
    rw [if_pos outside, if_neg no_such]
    exact holds_self wellFormed
  · have inside : 1 ≤ index ∧ index ≤ (s.len : Int) := by omega
    rw [if_neg outside, if_pos inside]
    generalize cnt_eq : min (max 0 count) ((s.len : Int) - index + 1) = cnt
    by_cases nothing : cnt = 0
    · rw [if_pos nothing]
      have none_deleted : count.toNat = 0 := by omega
      rw [none_deleted, Nat.add_zero, List.take_append_drop]
      exact holds_self wellFormed
    · rw [if_neg nothing, tail_delete wellFormed inside cnt_eq.symm]
      apply holds_copyIn_within wellFormed
      · rw [List.length_take, List.length_drop]
        omega
      · omega

theorem plangSstrSetlength_holds (wellFormed : s.WellFormed) (newLen : Int) :
    Holds s (s.plangSstrSetlength newLen) (s.data.take newLen.toNat) := by
  have bounds := effCap_bounds wellFormed.pos
  have size := wellFormed.size
  refine holds_setLen wellFormed _ s.data _ rfl ?_ ?_
  · rw [truncated, List.take_take, List.length_take]
    omega
  · rw [truncated, List.take_take]
    congr 1
    omega

theorem fill_take (ecap : Nat) (first second : Text) :
    fill ecap (first.take ecap) second = (first ++ second).take ecap := by
  rw [fill, List.take_append, List.length_take]
  congr 2
  omega

section Memory

variable {V : Type*} [DecidableEq V] {mem : V → ShortString}

theorem plangSstrAssign_holds {dst src : V} (wellFormed : (mem dst).WellFormed)
    (src_wellFormed : (mem src).WellFormed) :
    Holds (mem dst) (plangSstrAssign mem dst src dst) (mem src).contents := by
  have bounds := effCap_bounds wellFormed.pos
  have size := src_wellFormed.len_le_size
  generalize len_eq : min ((mem src).len : Int) (effCap (mem dst).cap) = len
  -- Shortening the destination leaves the source its bytes, even where they are one variable.
  have same_data : (Function.update mem dst ((mem dst).setLen len) src).data = (mem src).data := by
    by_cases same : src = dst
    · rw [same, Function.update_self]
      rfl
    · rw [Function.update_of_ne same]
  have assigned : plangSstrAssign mem dst src dst =
      ((mem dst).copyIn 0 ((mem src).data.take len.toNat)).setLen len := by
    rw [plangSstrAssign, len_eq, Function.update_self, Function.update_self, same_data]
    rfl
  rw [assigned]
  apply holds_copyIn wellFormed
  · rw [truncated, contents, List.take_take]
    congr 1
    omega
  · rw [List.length_take]
    omega

/-- Positions outside a string mean the first one and the one behind the last. -/
theorem clamped_position {s : ShortString} {len : Int} (len_eq : len = s.len) (index : Int) :
    s.data.take (min (max 1 index) (len + 1) - 1).toNat = s.contents.take (index - 1).toNat ∧
      s.contents.drop (min (max 1 index) (len + 1) - 1).toNat =
        s.contents.drop (index - 1).toNat := by
  constructor
  · rw [contents, List.take_take]
    congr 1
    omega
  · rw [contents, List.drop_take, List.drop_take]
    by_cases behind : (index - 1).toNat < s.len
    · have same : (min (max 1 index) (len + 1) - 1).toNat = (index - 1).toNat := by omega
      rw [same]
    · have none_left : s.len - (min (max 1 index) (len + 1) - 1).toNat = 0 ∧
          s.len - (index - 1).toNat = 0 := by omega
      rw [none_left.1, none_left.2, List.take_zero, List.take_zero]

theorem plangSstrInsert_holds {s src : V} (wellFormed : (mem s).WellFormed) (index : Int) :
    Holds (mem s) (plangSstrInsert mem s src index s)
      (StringValue.insert (mem src).contents (mem s).contents index) := by
  have len_le := wellFormed.len_le
  have len_eq : min ((mem s).len : Int) (effCap (mem s).cap) = (mem s).len := by omega
  obtain ⟨front, behind⟩ := clamped_position (s := mem s) rfl index
  rw [plangSstrInsert, len_eq, clamped_index, Function.update_self]
  refine holds_copyIn wellFormed _ _ _ ?_ rfl
  rw [← List.take_nil (i := (effCap (mem s).cap).toNat), fill_take, fill_take, fill_take,
    List.nil_append, Int.toNat_natCast]
  rw [truncated, StringValue.insert, ← front, ← behind]
  rfl

/-! ## Programs -/

theorem wellFormed_temporary {cap : Int} (pos : 1 ≤ cap) : (temporary cap).WellFormed := by
  have bounds := effCap_bounds pos
  refine ⟨pos, ?_, List.length_replicate⟩
  change ((0 : Nat) : Int) ≤ effCap cap
  omega

theorem plangSstrAssign_of_ne {dst v : V} (src : V) (different : v ≠ dst) :
    plangSstrAssign mem dst src v = mem v := by
  rw [plangSstrAssign, Function.update_of_ne different, Function.update_of_ne different]

/-- A temporary that holds a value is assigned like the value. -/
theorem assignTemporary_holds {dst : V} (wellFormed : (mem dst).WellFormed)
    {before value : ShortString} {text : Text} (holds : Holds before value text)
    (wide : truncated (mem dst).cap (truncated before.cap text) = truncated (mem dst).cap text) :
    Holds (mem dst) (assignTemporary mem dst value dst) text := by
  obtain ⟨cap, dst_wellFormed, contents⟩ :=
    @plangSstrAssign_holds (Option V) _ (fun cell => cell.elim value mem) (some dst) none
      wellFormed holds.wellFormed
  refine ⟨cap, dst_wellFormed, contents.trans ?_⟩
  exact (congrArg (truncated (mem dst).cap) holds.contents).trans wide

/-- The value of an operation on lists. -/
def Operation.value (mem : V → ShortString) : Operation V → Text
  | .assign _ src => (mem src).contents
  | .fromBytes _ src => src
  | .fromCstr _ src => cString (src.getD [])
  | .fromChar _ c => [c]
  | .concat _ a b => (mem a).contents ++ (mem b).contents
  | .copy _ src index count => StringValue.copy (mem src).contents index count
  | .ofChar _ ch count => List.replicate count.toNat ch
  | .delete s index count => StringValue.delete (mem s).contents index count
  | .insert src s index => StringValue.insert (mem src).contents (mem s).contents index
  | .setLength s newLen => (mem s).data.take newLen.toNat
  | .read _ line => line
  | .str _ text => text

/-- Cutting off at the capacity of a temporary of the functions loses nothing. -/
theorem truncated_max (cap : Int) (text : Text) :
    truncated cap (truncated PlangMaxStringCapacity text) = truncated cap text := by
  rw [truncated, truncated, truncated, List.take_take, PlangMaxStringCapacity, effCap, effCap]
  congr 1
  omega

/-- Neither does the temporary of a concatenation. -/
theorem truncated_concatCap {a b : ShortString} (a_wellFormed : a.WellFormed)
    (b_wellFormed : b.WellFormed) (cap : Int) :
    truncated cap (truncated (concatCap a b) (a.contents ++ b.contents)) =
      truncated cap (a.contents ++ b.contents) := by
  have a_len := a_wellFormed.len_le
  have b_len := b_wellFormed.len_le
  have length : (a.contents ++ b.contents).length = a.len + b.len := by
    rw [List.length_append, a_wellFormed.length_contents, b_wellFormed.length_contents]
  rw [truncated, truncated, truncated, List.take_take, List.take_eq_take_iff, length]
  rw [concatCap]
  simp only [effCap] at *
  omega

/-- An operation leaves in its variable the value of the operation on lists, cut off at the
capacity. -/
theorem perform_holds (wellFormed : ∀ v, (mem v).WellFormed) (op : Operation V) :
    Holds (mem op.dest) (perform mem op op.dest) (op.value mem) := by
  have wide : 1 ≤ PlangMaxStringCapacity := by decide
  cases op with
  | assign dst src => exact plangSstrAssign_holds (wellFormed dst) (wellFormed src)
  | concat dst a b =>
      have a_pos := (wellFormed a).pos
      have b_pos := (wellFormed b).pos
      have cap_pos : 1 ≤ concatCap (mem a) (mem b) := by
        rw [concatCap]
        omega
      have summed := plangSstrConcat_holds (wellFormed_temporary cap_pos) (wellFormed a)
        (wellFormed b)
      exact assignTemporary_holds (wellFormed dst) summed
        (truncated_concatCap (wellFormed a) (wellFormed b) _)
  | copy dst src index count =>
      have copied := plangSstrCopy_holds (wellFormed_temporary wide) (wellFormed src) index count
      exact assignTemporary_holds (wellFormed dst) copied (truncated_max _ _)
  | ofChar dst ch count =>
      have filled := plangSstrOfChar_holds (wellFormed_temporary wide) ch count
      exact assignTemporary_holds (wellFormed dst) filled (truncated_max _ _)
  | insert src s index => exact plangSstrInsert_holds (wellFormed s) index
  | fromBytes dst src =>
      rw [perform, Operation.dest, Function.update_self]
      exact plangSstrFromBytes_holds (wellFormed dst) src
  | fromCstr dst src =>
      rw [perform, Operation.dest, Function.update_self]
      exact plangSstrFromCstr_holds (wellFormed dst) src
  | fromChar dst c =>
      rw [perform, Operation.dest, Function.update_self]
      exact plangSstrFromChar_holds (wellFormed dst) c
  | delete s index count =>
      rw [perform, Operation.dest, Function.update_self]
      exact plangSstrDelete_holds (wellFormed s) index count
  | setLength s newLen =>
      rw [perform, Operation.dest, Function.update_self]
      exact plangSstrSetlength_holds (wellFormed s) newLen
  | read s line =>
      rw [perform, Operation.dest, Function.update_self]
      exact plangSstrRead_holds (wellFormed s) line
  | str s text =>
      rw [perform, Operation.dest, Function.update_self]
      exact plangWritestrEndSstr_holds (wellFormed s) text

theorem assignTemporary_of_ne {dst v : V} (value : ShortString) (different : v ≠ dst) :
    assignTemporary mem dst value v = mem v :=
  plangSstrAssign_of_ne none fun same => different (Option.some.inj same)

/-- An operation leaves the other variables alone. -/
theorem perform_of_ne {op : Operation V} {v : V} (different : v ≠ op.dest) :
    perform mem op v = mem v := by
  cases op with
  | assign dst src => exact plangSstrAssign_of_ne src different
  | concat dst a b => exact assignTemporary_of_ne _ different
  | copy dst src index count => exact assignTemporary_of_ne _ different
  | ofChar dst ch count => exact assignTemporary_of_ne _ different
  | insert src s index => exact Function.update_of_ne different ..
  | _ => exact Function.update_of_ne different ..

/-- Operations keep the variables well-formed, and their capacities. -/
theorem wellFormed_perform (wellFormed : ∀ v, (mem v).WellFormed) (op : Operation V) (v : V) :
    (perform mem op v).WellFormed ∧ (perform mem op v).cap = (mem v).cap := by
  by_cases changed : v = op.dest
  · have holds := perform_holds wellFormed op
    rw [changed]
    exact ⟨holds.wellFormed, holds.cap⟩
  · rw [perform_of_ne changed]
    exact ⟨wellFormed v, rfl⟩

theorem wellFormed_run (wellFormed : ∀ v, (mem v).WellFormed) (ops : List (Operation V)) (v : V) :
    (Runs.run perform mem ops v).WellFormed ∧ (Runs.run perform mem ops v).cap = (mem v).cap := by
  induction ops generalizing mem with
  | nil => exact ⟨wellFormed v, rfl⟩
  | cons op ops induction =>
      have once := wellFormed_perform wellFormed op
      obtain ⟨later, same_cap⟩ := induction fun v => (once v).1
      exact ⟨later, same_cap.trans (once v).2⟩

/-- Whatever was done to the strings of a program, no length is beyond what a length byte can
express of the declared capacity, and the next operation leaves in its variable the value of the
operation on lists, cut off at that, and the other variables alone. -/
theorem store_discipline {mem : V → ShortString} (wellFormed : ∀ v, (mem v).WellFormed)
    (ops : List (Operation V)) :
    (∀ v, (Runs.run perform mem ops v).len ≤ effCap (mem v).cap) ∧
      ∀ op : Operation V,
        (Runs.run perform mem (ops ++ [op]) op.dest).contents =
          truncated (mem op.dest).cap (op.value (Runs.run perform mem ops)) ∧
        ∀ v, v ≠ op.dest → Runs.run perform mem (ops ++ [op]) v = Runs.run perform mem ops v := by
  have reached := wellFormed_run wellFormed ops
  refine ⟨fun v => ?_, fun op => ⟨?_, fun v different => ?_⟩⟩
  · rw [← (reached v).2]
    exact (reached v).1.len_le
  · have holds := perform_holds (fun v => (reached v).1) op
    rw [Runs.run_append, ← (reached op.dest).2]
    exact holds.contents
  · rw [Runs.run_append]
    exact perform_of_ne different

end Memory

/-- A string that is inserted into itself keeps what fits. -/
theorem store_discipline_insert_self :
    (Runs.run perform (fun _ : Unit => temporary 5)
      [.fromBytes () "hello".toList, .insert () () 3] ()).contents = "hehel".toList := by
  have discipline := store_discipline (fun _ : Unit => @wellFormed_temporary 5 (by decide))
    [.fromBytes () "hello".toList]
  exact (discipline.2 (.insert () () 3)).1.trans (by decide)

end ShortString

end Runtime

end Plang
