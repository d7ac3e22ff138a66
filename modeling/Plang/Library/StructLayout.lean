import Mathlib.Algebra.Order.Ring.Nat
import Mathlib.Data.Nat.Basic
import Mathlib.Tactic.Common

/-!
# Layout of structures

Elements one after the other, each at the next multiple of its alignment; and records that end in
parts of which one arm is in use at a time, the arms of a part sharing their storage.
-/

namespace Plang.StructLayout

/-- The next multiple. -/
def roundUp (size align : Nat) : Nat := if align = 0 then size else (size + align - 1) / align * align

@[simp] theorem roundUp_zero (align : Nat) : roundUp 0 align = 0 := by
  rw [roundUp]
  split
  · rfl
  · rename_i positive
    rw [Nat.zero_add, Nat.div_eq_of_lt (by omega), Nat.zero_mul]

/-- The size of an element, and the number that its address is a multiple of. -/
structure Shape where
  size : Nat
  align : Nat
  deriving DecidableEq, Repr

/-- The offsets of some elements from a position on, and where they end. -/
def place : Nat → List Shape → List Nat × Nat
  | position, [] => ([], position)
  | position, shape :: rest =>
      let offset := roundUp position shape.align
      let after := place (offset + shape.size) rest
      (offset :: after.1, after.2)

def maxAlign (shapes : List Shape) : Nat := shapes.foldl (fun align shape => max align shape.align) 1

def struct (shapes : List Shape) : Shape :=
  ⟨roundUp (place 0 shapes).2 (maxAlign shapes), maxAlign shapes⟩

def elementOffset (shapes : List Shape) (index : Nat) : Option Nat := (place 0 shapes).1[index]?

/-- The first element stands at the start. -/
theorem elementOffset_head (shape : Shape) (rest : List Shape) :
    elementOffset (shape :: rest) 0 = some 0 := by
  simp [elementOffset, place]

/-! ### Rounding up -/

section Rounding

variable {size align : Nat}

theorem le_roundUp (size align : Nat) : size ≤ roundUp size align := by
  rw [roundUp]
  split
  · exact le_rfl
  · rename_i nonzero
    have split := Nat.div_add_mod (size + align - 1) align
    have below := Nat.mod_lt (size + align - 1) (Nat.pos_of_ne_zero nonzero)
    rw [Nat.mul_comm] at split
    omega

theorem dvd_roundUp (positive : 0 < align) (size : Nat) : align ∣ roundUp size align := by
  rw [roundUp, if_neg (by omega)]
  exact Nat.dvd_mul_left ..

/-- Rounding up adds less than the alignment. -/
theorem roundUp_lt (positive : 0 < align) (size : Nat) : roundUp size align < size + align := by
  rw [roundUp, if_neg (by omega)]
  have bound := Nat.div_mul_le_self (size + align - 1) align
  omega

/-- A multiple is the next multiple of itself and of what is not that much less. -/
theorem roundUp_eq {multiple : Nat} (positive : 0 < align) (is_multiple : align ∣ multiple)
    (below : size ≤ multiple) (near : multiple < size + align) : roundUp size align = multiple := by
  obtain ⟨count, rfl⟩ := is_multiple
  obtain ⟨other, other_eq⟩ := dvd_roundUp positive size
  have lower := le_roundUp size align
  have upper := roundUp_lt positive size
  rw [other_eq] at lower upper ⊢
  have le : other < count + 1 := by
    apply lt_of_mul_lt_mul_left _ (Nat.zero_le align)
    rw [Nat.mul_add, Nat.mul_one]
    omega
  have ge : count < other + 1 := by
    apply lt_of_mul_lt_mul_left _ (Nat.zero_le align)
    rw [Nat.mul_add, Nat.mul_one]
    omega
  rw [show other = count by omega]

@[simp] theorem roundUp_one (size : Nat) : roundUp size 1 = size := by simp [roundUp]

theorem roundUp_of_dvd (positive : 0 < align) (whole : align ∣ size) : roundUp size align = size :=
  roundUp_eq positive whole le_rfl (by omega)

/-- Rounding up starts anew at every multiple. -/
theorem roundUp_add {base : Nat} (positive : 0 < align) (whole : align ∣ base) (size : Nat) :
    roundUp (base + size) align = base + roundUp size align := by
  have lower := le_roundUp size align
  have upper := roundUp_lt positive size
  exact roundUp_eq positive (Nat.dvd_add whole (dvd_roundUp positive size)) (by omega) (by omega)

theorem roundUp_mono {low high : Nat} (positive : 0 < align) (le : low ≤ high) :
    roundUp low align ≤ roundUp high align := by
  by_contra greater
  have upper := roundUp_lt positive low
  have lower := le_roundUp high align
  have same := roundUp_eq positive (dvd_roundUp positive high) (by omega : low ≤ _) (by omega)
  omega

/-- The next multiple is the least. -/
theorem roundUp_le {multiple : Nat} (positive : 0 < align) (whole : align ∣ multiple)
    (le : size ≤ multiple) : roundUp size align ≤ multiple := by
  rw [← roundUp_of_dvd positive whole]
  exact roundUp_mono positive le

/-- Rounding up to a divisor first changes nothing. -/
theorem roundUp_roundUp {unit : Nat} (unit_positive : 0 < unit) (positive : 0 < align)
    (divides : unit ∣ align) (size : Nat) :
    roundUp (roundUp size unit) align = roundUp size align := by
  have lower := le_roundUp size unit
  apply roundUp_eq positive (dvd_roundUp positive size)
  · rw [← roundUp_of_dvd unit_positive (divides.trans (dvd_roundUp positive size))]
    exact roundUp_mono unit_positive (le_roundUp size align)
  · have upper := roundUp_lt positive size
    omega

/-- Of two powers of two the lesser divides the greater. -/
theorem dvd_of_le {low high : Nat} (low_power : low.isPowerOfTwo) (high_power : high.isPowerOfTwo)
    (le : low ≤ high) : low ∣ high := by
  obtain ⟨i, rfl⟩ := low_power
  obtain ⟨j, rfl⟩ := high_power
  exact Nat.pow_dvd_pow 2 ((Nat.pow_le_pow_iff_right (by omega)).mp le)

theorem max_isPowerOfTwo {low high : Nat} (low_power : low.isPowerOfTwo)
    (high_power : high.isPowerOfTwo) : (max low high).isPowerOfTwo := by
  rcases Nat.le_total low high with le | le
  · rwa [Nat.max_eq_right le]
  · rwa [Nat.max_eq_left le]

end Rounding

/-- A shape that an array of them can be laid out with: nothing of no size is aligned. -/
structure Shape.Sound (shape : Shape) : Prop where
  power : shape.align.isPowerOfTwo
  whole : shape.align ∣ shape.size
  hollow : shape.size = 0 → shape.align = 1

theorem Shape.Sound.positive {shape : Shape} (sound : shape.Sound) : 0 < shape.align :=
  Nat.pos_of_isPowerOfTwo sound.power

/-! ### Slots one after the other -/

/-- A part of a record, and what it takes. -/
structure Slot (ι : Type) where
  name : ι
  shape : Shape
  deriving DecidableEq, Repr

section Slots

variable {ι : Type}

/-- Where slots end that are placed from a position on. -/
def finish : Nat → List (Slot ι) → Nat
  | position, [] => position
  | position, slot :: rest => finish (roundUp position slot.shape.align + slot.shape.size) rest

/-- The slots with the places that they get. -/
def placed : Nat → List (Slot ι) → List (Slot ι × Nat)
  | _, [] => []
  | position, slot :: rest =>
      (slot, roundUp position slot.shape.align) ::
        placed (roundUp position slot.shape.align + slot.shape.size) rest

/-- The greatest alignment of some slots. -/
def slotsAlign : List (Slot ι) → Nat
  | [] => 1
  | slot :: rest => max slot.shape.align (slotsAlign rest)

theorem le_finish (position : Nat) (slots : List (Slot ι)) : position ≤ finish position slots := by
  induction slots generalizing position with
  | nil => exact le_rfl
  | cons slot rest induction =>
      have lower := le_roundUp position slot.shape.align
      have after := induction (roundUp position slot.shape.align + slot.shape.size)
      rw [finish]
      omega

theorem size_le_finish_of_mem {slots : List (Slot ι)} {slot : Slot ι} (is_slot : slot ∈ slots)
    (position : Nat) : slot.shape.size ≤ finish position slots := by
  induction slots generalizing position with
  | nil => exact absurd is_slot List.not_mem_nil
  | cons head rest induction =>
      rcases List.mem_cons.mp is_slot with rfl | is_later
      · exact (Nat.le_add_left ..).trans (le_finish ..)
      · exact induction is_later _

theorem finish_append (position : Nat) (front back : List (Slot ι)) :
    finish position (front ++ back) = finish (finish position front) back := by
  induction front generalizing position with
  | nil => rfl
  | cons slot rest induction => exact induction _

theorem placed_append (position : Nat) (front back : List (Slot ι)) :
    placed position (front ++ back) = placed position front ++ placed (finish position front) back := by
  induction front generalizing position with
  | nil => rfl
  | cons slot rest induction => exact congrArg _ (induction _)

/-- Slots placed from a position on are on their alignments, behind the position and before the end. -/
theorem mem_placed {position : Nat} {slots : List (Slot ι)} {entry : Slot ι × Nat}
    (positive : ∀ slot ∈ slots, 0 < slot.shape.align) (is_entry : entry ∈ placed position slots) :
    entry.1.shape.align ∣ entry.2 ∧ position ≤ entry.2 ∧
      entry.2 + entry.1.shape.size ≤ finish position slots := by
  induction slots generalizing position with
  | nil => exact absurd is_entry List.not_mem_nil
  | cons slot rest induction =>
      have lower := le_roundUp position slot.shape.align
      rcases List.mem_cons.mp is_entry with rfl | is_later
      · exact ⟨dvd_roundUp (positive _ List.mem_cons_self) _, lower, le_finish ..⟩
      · obtain ⟨divides, behind, before⟩ :=
          induction (fun other is_other => positive other (List.mem_cons_of_mem _ is_other)) is_later
        exact ⟨divides, by omega, before⟩

/-- Every slot is placed behind the end of those before it. -/
theorem placed_pairwise {position : Nat} {slots : List (Slot ι)}
    (positive : ∀ slot ∈ slots, 0 < slot.shape.align) :
    (placed position slots).Pairwise fun earlier later => earlier.2 + earlier.1.shape.size ≤ later.2 := by
  induction slots generalizing position with
  | nil => exact List.Pairwise.nil
  | cons slot rest induction =>
      have rest_positive : ∀ other ∈ rest, 0 < other.shape.align :=
        fun other is_other => positive other (List.mem_cons_of_mem _ is_other)
      exact List.Pairwise.cons
        (fun entry is_entry => (mem_placed rest_positive is_entry).2.1) (induction rest_positive)

theorem align_le_slotsAlign {slots : List (Slot ι)} {slot : Slot ι} (is_slot : slot ∈ slots) :
    slot.shape.align ≤ slotsAlign slots := by
  induction slots with
  | nil => exact absurd is_slot List.not_mem_nil
  | cons head rest induction =>
      rw [slotsAlign]
      rcases List.mem_cons.mp is_slot with rfl | is_later
      · exact Nat.le_max_left ..
      · exact (induction is_later).trans (Nat.le_max_right ..)

theorem one_le_slotsAlign (slots : List (Slot ι)) : 1 ≤ slotsAlign slots := by
  induction slots with
  | nil => exact le_rfl
  | cons slot rest induction => exact induction.trans (Nat.le_max_right ..)

theorem slotsAlign_append (front back : List (Slot ι)) :
    slotsAlign (front ++ back) = max (slotsAlign front) (slotsAlign back) := by
  induction front with
  | nil => exact (Nat.max_eq_right (one_le_slotsAlign back)).symm
  | cons slot rest induction =>
      rw [List.cons_append, slotsAlign, slotsAlign, induction, Nat.max_assoc]

theorem slotsAlign_power {slots : List (Slot ι)}
    (power : ∀ slot ∈ slots, slot.shape.align.isPowerOfTwo) : (slotsAlign slots).isPowerOfTwo := by
  induction slots with
  | nil => exact ⟨0, rfl⟩
  | cons slot rest induction =>
      exact max_isPowerOfTwo (power slot List.mem_cons_self)
        (induction fun other is_other => power other (List.mem_cons_of_mem _ is_other))

/-- Slots that take nothing are not aligned. -/
theorem slotsAlign_of_hollow {position : Nat} {slots : List (Slot ι)}
    (sound : ∀ slot ∈ slots, slot.shape.Sound) (hollow : finish position slots = position) :
    slotsAlign slots = 1 := by
  induction slots generalizing position with
  | nil => rfl
  | cons slot rest induction =>
      have lower := le_roundUp position slot.shape.align
      have after := le_finish (roundUp position slot.shape.align + slot.shape.size) rest
      rw [finish] at hollow
      have align_one := (sound slot List.mem_cons_self).hollow (by omega)
      have size_zero : slot.shape.size = 0 := by omega
      rw [align_one, size_zero, roundUp_one, Nat.add_zero] at hollow
      rw [slotsAlign, align_one, induction
        (fun other is_other => sound other (List.mem_cons_of_mem _ is_other)) hollow]
      rfl

theorem finish_of_hollow {position : Nat} {slots : List (Slot ι)}
    (sound : ∀ slot ∈ slots, slot.shape.Sound) (hollow : ∀ slot ∈ slots, slot.shape.size = 0) :
    finish position slots = position := by
  induction slots generalizing position with
  | nil => rfl
  | cons slot rest induction =>
      have size_zero := hollow slot List.mem_cons_self
      rw [finish, (sound slot List.mem_cons_self).hollow size_zero, size_zero, roundUp_one, Nat.add_zero]
      exact induction (fun other is_other => sound other (List.mem_cons_of_mem _ is_other))
        (fun other is_other => hollow other (List.mem_cons_of_mem _ is_other))

/-- Slots whose alignments divide a number are placed alike behind it. -/
theorem finish_add {base : Nat} {slots : List (Slot ι)}
    (positive : ∀ slot ∈ slots, 0 < slot.shape.align)
    (whole : ∀ slot ∈ slots, slot.shape.align ∣ base) (position : Nat) :
    finish (base + position) slots = base + finish position slots := by
  induction slots generalizing position with
  | nil => rfl
  | cons slot rest induction =>
      rw [finish, finish,
        roundUp_add (positive slot List.mem_cons_self) (whole slot List.mem_cons_self), Nat.add_assoc,
        induction (fun other is_other => positive other (List.mem_cons_of_mem _ is_other))
          (fun other is_other => whole other (List.mem_cons_of_mem _ is_other))]

/-- The placed slots, moved behind a base. -/
def shift (base : Nat) (entries : List (Slot ι × Nat)) : List (Slot ι × Nat) :=
  entries.map fun entry => (entry.1, base + entry.2)

@[simp] theorem shift_nil (base : Nat) : shift base ([] : List (Slot ι × Nat)) = [] := rfl

@[simp] theorem shift_append (base : Nat) (front back : List (Slot ι × Nat)) :
    shift base (front ++ back) = shift base front ++ shift base back := List.map_append

theorem placed_add {base : Nat} {slots : List (Slot ι)}
    (positive : ∀ slot ∈ slots, 0 < slot.shape.align)
    (whole : ∀ slot ∈ slots, slot.shape.align ∣ base) (position : Nat) :
    placed (base + position) slots = shift base (placed position slots) := by
  induction slots generalizing position with
  | nil => rfl
  | cons slot rest induction =>
      have later := induction (fun other is_other => positive other (List.mem_cons_of_mem _ is_other))
        (fun other is_other => whole other (List.mem_cons_of_mem _ is_other))
        (roundUp position slot.shape.align + slot.shape.size)
      rw [placed, placed,
        roundUp_add (positive slot List.mem_cons_self) (whole slot List.mem_cons_self), Nat.add_assoc,
        later]
      rfl

/-- Structures are laid out as slots are. -/
theorem place_map (position : Nat) (slots : List (Slot ι)) :
    place position (slots.map Slot.shape) =
      ((placed position slots).map Prod.snd, finish position slots) := by
  induction slots generalizing position with
  | nil => rfl
  | cons slot rest induction =>
      rw [List.map_cons, place, induction]
      rfl

theorem maxAlign_map (slots : List (Slot ι)) : maxAlign (slots.map Slot.shape) = slotsAlign slots := by
  have general : ∀ (slots : List (Slot ι)) (align : Nat), 1 ≤ align →
      (slots.map Slot.shape).foldl (fun align shape => max align shape.align) align =
        max align (slotsAlign slots) := by
    intro slots
    induction slots with
    | nil => exact fun align positive => (Nat.max_eq_left positive).symm
    | cons slot rest induction =>
        intro align positive
        rw [List.map_cons, List.foldl_cons, induction _ (positive.trans (Nat.le_max_left ..)),
          slotsAlign, Nat.max_assoc]
  rw [maxAlign, general slots 1 le_rfl]
  exact Nat.max_eq_right (one_le_slotsAlign slots)

theorem struct_map (slots : List (Slot ι)) :
    struct (slots.map Slot.shape) =
      ⟨roundUp (finish 0 slots) (slotsAlign slots), slotsAlign slots⟩ := by
  rw [struct, place_map, maxAlign_map]

end Slots

/-! ### Parts with arms -/

mutual

/-- The part behind the slots of a record: slots of its own, and arms of which one is in use. -/
inductive Tail (ι : Type) where
  | absent
  | choice (tag : List (Slot ι)) (arms : Arms ι)

/-- Arms, each of slots and a part of its own. -/
inductive Arms (ι : Type) where
  | nil
  | cons (slots : List (Slot ι)) (nested : Tail ι) (rest : Arms ι)

end

section Parts

variable {ι : Type}

mutual

def Tail.slots : Tail ι → List (Slot ι)
  | .absent => []
  | .choice tag arms => tag ++ arms.slots

/-- The slots of all the arms. -/
def Arms.slots : Arms ι → List (Slot ι)
  | .nil => []
  | .cons slots nested rest => slots ++ (nested.slots ++ rest.slots)

end

mutual

def Tail.finish (position : Nat) : Tail ι → Nat
  | .absent => position
  | .choice tag arms => arms.finish (StructLayout.finish position tag)

/-- Where the arm ends that reaches furthest, all of them starting at one position. -/
def Arms.finish (position : Nat) : Arms ι → Nat
  | .nil => position
  | .cons slots nested rest =>
      max (nested.finish (StructLayout.finish position slots)) (rest.finish position)

end

mutual

def Tail.placed (position : Nat) : Tail ι → List (Slot ι × Nat)
  | .absent => []
  | .choice tag arms =>
      StructLayout.placed position tag ++ arms.placed (StructLayout.finish position tag)

/-- The slots of all the arms with the places that they get. -/
def Arms.placed (position : Nat) : Arms ι → List (Slot ι × Nat)
  | .nil => []
  | .cons slots nested rest =>
      StructLayout.placed position slots ++
        (nested.placed (StructLayout.finish position slots) ++ rest.placed position)

end

mutual

/-- The slots that a choice of arms puts to use. -/
inductive Tail.Selects : Tail ι → List (Slot ι) → Prop
  | absent : Tail.Selects .absent []
  | choice {tag : List (Slot ι)} {arms : Arms ι} {selected : List (Slot ι)} :
      arms.Selects selected → Tail.Selects (.choice tag arms) (tag ++ selected)

inductive Arms.Selects : Arms ι → List (Slot ι) → Prop
  | here {slots : List (Slot ι)} {nested : Tail ι} {rest : Arms ι} {selected : List (Slot ι)} :
      nested.Selects selected → Arms.Selects (.cons slots nested rest) (slots ++ selected)
  | later {slots : List (Slot ι)} {nested : Tail ι} {rest : Arms ι} {selected : List (Slot ι)} :
      rest.Selects selected → Arms.Selects (.cons slots nested rest) selected

end

mutual

theorem Tail.le_finish (position : Nat) : (part : Tail ι) → position ≤ part.finish position
  | .absent => le_rfl
  | .choice tag arms => (StructLayout.le_finish position tag).trans (arms.le_finish _)

theorem Arms.le_finish (position : Nat) : (arms : Arms ι) → position ≤ arms.finish position
  | .nil => le_rfl
  | .cons _ _ rest => (rest.le_finish position).trans (Nat.le_max_right ..)

end

theorem placed_fst (position : Nat) (slots : List (Slot ι)) :
    (StructLayout.placed position slots).map Prod.fst = slots := by
  induction slots generalizing position with
  | nil => rfl
  | cons slot rest induction => exact congrArg _ (induction _)

mutual

theorem Tail.placed_fst (position : Nat) :
    (part : Tail ι) → (part.placed position).map Prod.fst = part.slots
  | .absent => rfl
  | .choice tag arms => by
      rw [Tail.placed, List.map_append, StructLayout.placed_fst, arms.placed_fst, Tail.slots]

/-- Placing loses no slot. -/
theorem Arms.placed_fst (position : Nat) :
    (arms : Arms ι) → (arms.placed position).map Prod.fst = arms.slots
  | .nil => rfl
  | .cons slots nested rest => by
      rw [Arms.placed, List.map_append, List.map_append, StructLayout.placed_fst, nested.placed_fst,
        rest.placed_fst, Arms.slots]

end

theorem Arms.placed_of_empty {arms : Arms ι} (empty : arms.slots = []) (position : Nat) :
    arms.placed position = [] := by
  rw [← List.map_eq_nil_iff (f := Prod.fst), arms.placed_fst, empty]

mutual

theorem Tail.size_le_finish {slot : Slot ι} (position : Nat) : {part : Tail ι} → slot ∈ part.slots →
    slot.shape.size ≤ part.finish position
  | .absent, is_slot => absurd is_slot List.not_mem_nil
  | .choice tag arms, is_slot => by
      rcases List.mem_append.mp is_slot with in_tag | in_arms
      · exact (size_le_finish_of_mem in_tag position).trans (arms.le_finish _)
      · exact arms.size_le_finish _ in_arms

theorem Arms.size_le_finish {slot : Slot ι} (position : Nat) : {arms : Arms ι} → slot ∈ arms.slots →
    slot.shape.size ≤ arms.finish position
  | .nil, is_slot => absurd is_slot List.not_mem_nil
  | .cons slots nested rest, is_slot => by
      rcases List.mem_append.mp is_slot with in_slots | in_others
      · exact (size_le_finish_of_mem in_slots position).trans
          ((nested.le_finish _).trans (Nat.le_max_left ..))
      · rcases List.mem_append.mp in_others with in_nested | in_rest
        · exact (nested.size_le_finish _ in_nested).trans (Nat.le_max_left ..)
        · exact (rest.size_le_finish _ in_rest).trans (Nat.le_max_right ..)

end

mutual

/-- Slots of a part are on their alignments, behind its start and before its end. -/
theorem Tail.mem_placed {position : Nat} {entry : Slot ι × Nat} : {part : Tail ι} →
    (∀ slot ∈ part.slots, 0 < slot.shape.align) → entry ∈ part.placed position →
    entry.1.shape.align ∣ entry.2 ∧ position ≤ entry.2 ∧
      entry.2 + entry.1.shape.size ≤ part.finish position
  | .absent, _, is_entry => absurd is_entry List.not_mem_nil
  | .choice tag arms, positive, is_entry => by
      rcases List.mem_append.mp is_entry with in_tag | in_arms
      · obtain ⟨divides, behind, before⟩ :=
          StructLayout.mem_placed (fun slot is_slot => positive slot (List.mem_append_left _ is_slot))
            in_tag
        exact ⟨divides, behind, before.trans (arms.le_finish _)⟩
      · obtain ⟨divides, behind, before⟩ :=
          arms.mem_placed (fun slot is_slot => positive slot (List.mem_append_right _ is_slot)) in_arms
        exact ⟨divides, (StructLayout.le_finish position tag).trans behind, before⟩

theorem Arms.mem_placed {position : Nat} {entry : Slot ι × Nat} : {arms : Arms ι} →
    (∀ slot ∈ arms.slots, 0 < slot.shape.align) → entry ∈ arms.placed position →
    entry.1.shape.align ∣ entry.2 ∧ position ≤ entry.2 ∧
      entry.2 + entry.1.shape.size ≤ arms.finish position
  | .nil, _, is_entry => absurd is_entry List.not_mem_nil
  | .cons slots nested rest, positive, is_entry => by
      rcases List.mem_append.mp is_entry with in_slots | in_others
      · obtain ⟨divides, behind, before⟩ :=
          StructLayout.mem_placed (fun slot is_slot => positive slot (List.mem_append_left _ is_slot))
            in_slots
        exact ⟨divides, behind, before.trans ((nested.le_finish _).trans (Nat.le_max_left ..))⟩
      have others_positive : ∀ slot ∈ nested.slots ++ rest.slots, 0 < slot.shape.align :=
        fun slot is_slot => positive slot (List.mem_append_right _ is_slot)
      rcases List.mem_append.mp in_others with in_nested | in_rest
      · obtain ⟨divides, behind, before⟩ :=
          nested.mem_placed (fun slot is_slot => others_positive slot (List.mem_append_left _ is_slot))
            in_nested
        exact ⟨divides, (StructLayout.le_finish position slots).trans behind,
          before.trans (Nat.le_max_left ..)⟩
      · obtain ⟨divides, behind, before⟩ :=
          rest.mem_placed (fun slot is_slot => others_positive slot (List.mem_append_right _ is_slot))
            in_rest
        exact ⟨divides, behind, before.trans (Nat.le_max_right ..)⟩

end

mutual

/-- The slots that a choice of arms puts to use are placed one after the other. -/
theorem Tail.Selects.sublist {position : Nat} : {part : Tail ι} → {selected : List (Slot ι)} →
    part.Selects selected →
    (StructLayout.placed position selected).Sublist (part.placed position) ∧
      StructLayout.finish position selected ≤ part.finish position
  | _, _, .absent => ⟨List.Sublist.refl _, le_rfl⟩
  | _, _, .choice selects => by
      rw [placed_append, finish_append]
      obtain ⟨sublist, le⟩ := Arms.Selects.sublist selects
      exact ⟨(List.Sublist.refl _).append sublist, le⟩

theorem Arms.Selects.sublist {position : Nat} : {arms : Arms ι} → {selected : List (Slot ι)} →
    arms.Selects selected →
    (StructLayout.placed position selected).Sublist (arms.placed position) ∧
      StructLayout.finish position selected ≤ arms.finish position
  | _, _, .here selects => by
      obtain ⟨sublist, le⟩ := Tail.Selects.sublist selects
      rw [placed_append, finish_append]
      exact ⟨(List.Sublist.refl _).append (sublist.trans (List.sublist_append_left ..)),
        le.trans (Nat.le_max_left ..)⟩
  | _, _, .later selects => by
      obtain ⟨sublist, le⟩ := Arms.Selects.sublist selects
      exact ⟨(sublist.trans (List.sublist_append_right ..)).trans (List.sublist_append_right ..),
        le.trans (Nat.le_max_right ..)⟩

end

mutual

theorem Tail.Selects.subset : {part : Tail ι} → {selected : List (Slot ι)} →
    part.Selects selected → ∀ slot ∈ selected, slot ∈ part.slots
  | _, _, .absent, _, is_slot => is_slot
  | _, _, .choice selects, slot, is_slot => by
      rcases List.mem_append.mp is_slot with in_tag | in_selected
      · exact List.mem_append_left _ in_tag
      · exact List.mem_append_right _ (Arms.Selects.subset selects slot in_selected)

theorem Arms.Selects.subset : {arms : Arms ι} → {selected : List (Slot ι)} →
    arms.Selects selected → ∀ slot ∈ selected, slot ∈ arms.slots
  | _, _, .here selects, slot, is_slot => by
      rcases List.mem_append.mp is_slot with in_own | in_selected
      · exact List.mem_append_left _ in_own
      · exact List.mem_append_right _
          (List.mem_append_left _ (Tail.Selects.subset selects slot in_selected))
  | _, _, .later selects, slot, is_slot =>
      List.mem_append_right _ (List.mem_append_right _ (Arms.Selects.subset selects slot is_slot))

end

mutual

theorem Tail.finish_add {base : Nat} : (part : Tail ι) →
    (∀ slot ∈ part.slots, 0 < slot.shape.align) → (∀ slot ∈ part.slots, slot.shape.align ∣ base) →
    (position : Nat) → part.finish (base + position) = base + part.finish position
  | .absent, _, _, _ => rfl
  | .choice tag arms, positive, whole, position => by
      rw [Tail.finish, Tail.finish,
        StructLayout.finish_add (fun slot is_slot => positive slot (List.mem_append_left _ is_slot))
          (fun slot is_slot => whole slot (List.mem_append_left _ is_slot)),
        arms.finish_add (fun slot is_slot => positive slot (List.mem_append_right _ is_slot))
          (fun slot is_slot => whole slot (List.mem_append_right _ is_slot))]

theorem Arms.finish_add {base : Nat} : (arms : Arms ι) →
    (∀ slot ∈ arms.slots, 0 < slot.shape.align) → (∀ slot ∈ arms.slots, slot.shape.align ∣ base) →
    (position : Nat) → arms.finish (base + position) = base + arms.finish position
  | .nil, _, _, _ => rfl
  | .cons slots nested rest, positive, whole, position => by
      have others_positive : ∀ slot ∈ nested.slots ++ rest.slots, 0 < slot.shape.align :=
        fun slot is_slot => positive slot (List.mem_append_right _ is_slot)
      have others_whole : ∀ slot ∈ nested.slots ++ rest.slots, slot.shape.align ∣ base :=
        fun slot is_slot => whole slot (List.mem_append_right _ is_slot)
      rw [Arms.finish, Arms.finish,
        StructLayout.finish_add (fun slot is_slot => positive slot (List.mem_append_left _ is_slot))
          (fun slot is_slot => whole slot (List.mem_append_left _ is_slot)),
        nested.finish_add (fun slot is_slot => others_positive slot (List.mem_append_left _ is_slot))
          (fun slot is_slot => others_whole slot (List.mem_append_left _ is_slot)),
        rest.finish_add (fun slot is_slot => others_positive slot (List.mem_append_right _ is_slot))
          (fun slot is_slot => others_whole slot (List.mem_append_right _ is_slot))]
      omega

end

mutual

theorem Tail.placed_add {base : Nat} : (part : Tail ι) →
    (∀ slot ∈ part.slots, 0 < slot.shape.align) → (∀ slot ∈ part.slots, slot.shape.align ∣ base) →
    (position : Nat) → part.placed (base + position) = shift base (part.placed position)
  | .absent, _, _, _ => rfl
  | .choice tag arms, positive, whole, position => by
      have tag_positive : ∀ slot ∈ tag, 0 < slot.shape.align :=
        fun slot is_slot => positive slot (List.mem_append_left _ is_slot)
      have tag_whole : ∀ slot ∈ tag, slot.shape.align ∣ base :=
        fun slot is_slot => whole slot (List.mem_append_left _ is_slot)
      rw [Tail.placed, Tail.placed, StructLayout.placed_add tag_positive tag_whole,
        StructLayout.finish_add tag_positive tag_whole,
        arms.placed_add (fun slot is_slot => positive slot (List.mem_append_right _ is_slot))
          (fun slot is_slot => whole slot (List.mem_append_right _ is_slot)), shift_append]

theorem Arms.placed_add {base : Nat} : (arms : Arms ι) →
    (∀ slot ∈ arms.slots, 0 < slot.shape.align) → (∀ slot ∈ arms.slots, slot.shape.align ∣ base) →
    (position : Nat) → arms.placed (base + position) = shift base (arms.placed position)
  | .nil, _, _, _ => rfl
  | .cons slots nested rest, positive, whole, position => by
      have own_positive : ∀ slot ∈ slots, 0 < slot.shape.align :=
        fun slot is_slot => positive slot (List.mem_append_left _ is_slot)
      have own_whole : ∀ slot ∈ slots, slot.shape.align ∣ base :=
        fun slot is_slot => whole slot (List.mem_append_left _ is_slot)
      have others_positive : ∀ slot ∈ nested.slots ++ rest.slots, 0 < slot.shape.align :=
        fun slot is_slot => positive slot (List.mem_append_right _ is_slot)
      have others_whole : ∀ slot ∈ nested.slots ++ rest.slots, slot.shape.align ∣ base :=
        fun slot is_slot => whole slot (List.mem_append_right _ is_slot)
      rw [Arms.placed, Arms.placed, StructLayout.placed_add own_positive own_whole,
        StructLayout.finish_add own_positive own_whole,
        nested.placed_add (fun slot is_slot => others_positive slot (List.mem_append_left _ is_slot))
          (fun slot is_slot => others_whole slot (List.mem_append_left _ is_slot)),
        rest.placed_add (fun slot is_slot => others_positive slot (List.mem_append_right _ is_slot))
          (fun slot is_slot => others_whole slot (List.mem_append_right _ is_slot)),
        shift_append, shift_append]

end

mutual

theorem Tail.align_of_hollow : {part : Tail ι} → {position : Nat} →
    (∀ slot ∈ part.slots, slot.shape.Sound) → part.finish position = position →
    slotsAlign part.slots = 1
  | .absent, _, _, _ => rfl
  | .choice tag arms, position, sound, hollow => by
      have after := arms.le_finish (StructLayout.finish position tag)
      have before := StructLayout.le_finish position tag
      rw [Tail.finish] at hollow
      rw [Tail.slots, slotsAlign_append,
        slotsAlign_of_hollow (fun slot is_slot => sound slot (List.mem_append_left _ is_slot))
          (by omega : StructLayout.finish position tag = position),
        arms.align_of_hollow (fun slot is_slot => sound slot (List.mem_append_right _ is_slot))
          (by omega : arms.finish (StructLayout.finish position tag) = _)]
      rfl

/-- Arms that take nothing are not aligned. -/
theorem Arms.align_of_hollow : {arms : Arms ι} → {position : Nat} →
    (∀ slot ∈ arms.slots, slot.shape.Sound) → arms.finish position = position →
    slotsAlign arms.slots = 1
  | .nil, _, _, _ => rfl
  | .cons slots nested rest, position, sound, hollow => by
      have others_sound : ∀ slot ∈ nested.slots ++ rest.slots, slot.shape.Sound :=
        fun slot is_slot => sound slot (List.mem_append_right _ is_slot)
      have own := StructLayout.le_finish position slots
      have inner := nested.le_finish (StructLayout.finish position slots)
      have others := rest.le_finish position
      rw [Arms.finish] at hollow
      rw [Arms.slots, slotsAlign_append, slotsAlign_append,
        slotsAlign_of_hollow (fun slot is_slot => sound slot (List.mem_append_left _ is_slot))
          (by omega : StructLayout.finish position slots = position),
        nested.align_of_hollow
          (fun slot is_slot => others_sound slot (List.mem_append_left _ is_slot))
          (by omega : nested.finish (StructLayout.finish position slots) = _),
        rest.align_of_hollow
          (fun slot is_slot => others_sound slot (List.mem_append_right _ is_slot))
          (by omega : rest.finish position = position)]
      rfl

end

mutual

theorem Tail.finish_of_hollow {position : Nat} : {part : Tail ι} →
    (∀ slot ∈ part.slots, slot.shape.Sound) → (∀ slot ∈ part.slots, slot.shape.size = 0) →
    part.finish position = position
  | .absent, _, _ => rfl
  | .choice tag arms, sound, hollow => by
      rw [Tail.finish,
        StructLayout.finish_of_hollow (fun slot is_slot => sound slot (List.mem_append_left _ is_slot))
          (fun slot is_slot => hollow slot (List.mem_append_left _ is_slot)),
        arms.finish_of_hollow (fun slot is_slot => sound slot (List.mem_append_right _ is_slot))
          (fun slot is_slot => hollow slot (List.mem_append_right _ is_slot))]

/-- Arms of slots that take nothing take nothing. -/
theorem Arms.finish_of_hollow {position : Nat} : {arms : Arms ι} →
    (∀ slot ∈ arms.slots, slot.shape.Sound) → (∀ slot ∈ arms.slots, slot.shape.size = 0) →
    arms.finish position = position
  | .nil, _, _ => rfl
  | .cons slots nested rest, sound, hollow => by
      have others_sound : ∀ slot ∈ nested.slots ++ rest.slots, slot.shape.Sound :=
        fun slot is_slot => sound slot (List.mem_append_right _ is_slot)
      have others_hollow : ∀ slot ∈ nested.slots ++ rest.slots, slot.shape.size = 0 :=
        fun slot is_slot => hollow slot (List.mem_append_right _ is_slot)
      rw [Arms.finish,
        StructLayout.finish_of_hollow (fun slot is_slot => sound slot (List.mem_append_left _ is_slot))
          (fun slot is_slot => hollow slot (List.mem_append_left _ is_slot)),
        nested.finish_of_hollow
          (fun slot is_slot => others_sound slot (List.mem_append_left _ is_slot))
          (fun slot is_slot => others_hollow slot (List.mem_append_left _ is_slot)),
        rest.finish_of_hollow
          (fun slot is_slot => others_sound slot (List.mem_append_right _ is_slot))
          (fun slot is_slot => others_hollow slot (List.mem_append_right _ is_slot)), Nat.max_self]

end

/-- One of the arms: its slots, and the part that is nested in it. -/
inductive Arms.Has : Arms ι → List (Slot ι) → Tail ι → Prop
  | here {slots : List (Slot ι)} {nested : Tail ι} {rest : Arms ι} :
      Arms.Has (.cons slots nested rest) slots nested
  | later {other slots : List (Slot ι)} {sibling nested : Tail ι} {rest : Arms ι} :
      rest.Has slots nested → Arms.Has (.cons other sibling rest) slots nested

/-- Every arm is placed from where the arms start. -/
theorem Arms.Has.sublist {arms : Arms ι} {slots : List (Slot ι)} {nested : Tail ι}
    (has : arms.Has slots nested) (position : Nat) :
    (StructLayout.placed position slots).Sublist (arms.placed position) ∧
      (nested.placed (StructLayout.finish position slots)).Sublist (arms.placed position) := by
  induction has with
  | here =>
      exact ⟨List.sublist_append_left ..,
        (List.sublist_append_left ..).trans (List.sublist_append_right ..)⟩
  | later has induction =>
      constructor
      · exact induction.1.trans
          ((List.sublist_append_right ..).trans (List.sublist_append_right ..))
      · exact induction.2.trans
          ((List.sublist_append_right ..).trans (List.sublist_append_right ..))

theorem Arms.Has.subset {arms : Arms ι} {slots : List (Slot ι)} {nested : Tail ι}
    (has : arms.Has slots nested) : ∀ slot ∈ slots, slot ∈ arms.slots := by
  induction has with
  | here => exact fun slot is_slot => List.mem_append_left _ is_slot
  | later has induction =>
      exact fun slot is_slot =>
        List.mem_append_right _ (List.mem_append_right _ (induction slot is_slot))

end Parts

/-! ### Records -/

/-- Slots of its own, and the arms of its part. -/
structure Record (ι : Type) where
  own : List (Slot ι)
  arms : Arms ι

namespace Record

variable {ι : Type} (record : Record ι)

def slots : List (Slot ι) := record.own ++ record.arms.slots

def align : Nat := slotsAlign record.slots

/-- The place at which all arms start. -/
def base : Nat := roundUp (StructLayout.finish 0 record.own) (slotsAlign record.arms.slots)

def finish : Nat := record.arms.finish record.base

def placed : List (Slot ι × Nat) :=
  StructLayout.placed 0 record.own ++ record.arms.placed record.base

def shape : Shape := ⟨roundUp record.finish record.align, record.align⟩

theorem base_le_finish : record.base ≤ record.finish := record.arms.le_finish _

theorem own_le_base : StructLayout.finish 0 record.own ≤ record.base := le_roundUp ..

theorem finish_le_size : record.finish ≤ record.shape.size := le_roundUp ..

variable {record}

theorem align_power (sound : ∀ slot ∈ record.slots, slot.shape.Sound) :
    record.align.isPowerOfTwo := slotsAlign_power fun slot is_slot => (sound slot is_slot).power

theorem align_positive (sound : ∀ slot ∈ record.slots, slot.shape.Sound) : 0 < record.align :=
  Nat.pos_of_isPowerOfTwo (align_power sound)

theorem arms_positive (sound : ∀ slot ∈ record.slots, slot.shape.Sound) :
    ∀ slot ∈ record.arms.slots, 0 < slot.shape.align :=
  fun slot is_slot => (sound slot (List.mem_append_right _ is_slot)).positive

/-- The arms start at a multiple of whatever is in them. -/
theorem dvd_base (sound : ∀ slot ∈ record.slots, slot.shape.Sound) :
    ∀ slot ∈ record.arms.slots, slot.shape.align ∣ record.base := by
  intro slot is_slot
  have power : (slotsAlign record.arms.slots).isPowerOfTwo :=
    slotsAlign_power fun other is_other => (sound other (List.mem_append_right _ is_other)).power
  exact (dvd_of_le (sound slot (List.mem_append_right _ is_slot)).power power
    (align_le_slotsAlign is_slot)).trans (dvd_roundUp (Nat.pos_of_isPowerOfTwo power) _)

/-- A record of sound slots is one itself. -/
theorem shape_sound (sound : ∀ slot ∈ record.slots, slot.shape.Sound) : record.shape.Sound where
  power := align_power sound
  whole := dvd_roundUp (align_positive sound) _
  hollow := by
    intro hollow
    have ends := record.base_le_finish
    have starts := record.own_le_base
    have own_sound : ∀ slot ∈ record.own, slot.shape.Sound :=
      fun slot is_slot => sound slot (List.mem_append_left _ is_slot)
    have arms_sound : ∀ slot ∈ record.arms.slots, slot.shape.Sound :=
      fun slot is_slot => sound slot (List.mem_append_right _ is_slot)
    have finish_zero : record.finish = 0 := Nat.le_zero.mp (hollow ▸ record.finish_le_size)
    have own_hollow : slotsAlign record.own = 1 :=
      slotsAlign_of_hollow own_sound (by omega : StructLayout.finish 0 record.own = 0)
    have arms_hollow : slotsAlign record.arms.slots = 1 :=
      Arms.align_of_hollow arms_sound (by unfold finish at *; omega : record.arms.finish record.base = _)
    rw [shape, align, slots, slotsAlign_append, own_hollow, arms_hollow]
    rfl

/-- Every slot of a record is on its alignment and inside the record. -/
theorem mem_placed {entry : Slot ι × Nat} (sound : ∀ slot ∈ record.slots, slot.shape.Sound)
    (is_entry : entry ∈ record.placed) :
    entry.1.shape.align ∣ entry.2 ∧ entry.2 + entry.1.shape.size ≤ record.shape.size := by
  have inside := record.finish_le_size
  rcases List.mem_append.mp is_entry with in_own | in_arms
  · obtain ⟨divides, -, before⟩ := StructLayout.mem_placed
      (fun slot is_slot => (sound slot (List.mem_append_left _ is_slot)).positive) in_own
    have ends := record.base_le_finish
    have starts := record.own_le_base
    exact ⟨divides, by omega⟩
  · obtain ⟨divides, -, before⟩ := Arms.mem_placed (arms_positive sound) in_arms
    exact ⟨divides, before.trans inside⟩

theorem size_le {slot : Slot ι} (is_slot : slot ∈ record.slots) :
    slot.shape.size ≤ record.shape.size := by
  apply le_trans _ record.finish_le_size
  rcases List.mem_append.mp is_slot with in_own | in_arms
  · exact (size_le_finish_of_mem in_own 0).trans (record.own_le_base.trans record.base_le_finish)
  · exact Arms.size_le_finish _ in_arms

/-- The slots of a record's own and those of the arms in use do not overlap. -/
theorem selected_pairwise {selected : List (Slot ι)}
    (sound : ∀ slot ∈ record.slots, slot.shape.Sound) (selects : record.arms.Selects selected) :
    (StructLayout.placed 0 record.own ++ StructLayout.placed record.base selected).Sublist
        record.placed ∧
      (StructLayout.placed 0 record.own ++ StructLayout.placed record.base selected).Pairwise
        fun earlier later => earlier.2 + earlier.1.shape.size ≤ later.2 := by
  have own_positive : ∀ slot ∈ record.own, 0 < slot.shape.align :=
    fun slot is_slot => (sound slot (List.mem_append_left _ is_slot)).positive
  have selected_positive : ∀ slot ∈ selected, 0 < slot.shape.align :=
    fun slot is_slot => arms_positive sound slot (selects.subset slot is_slot)
  refine ⟨(List.Sublist.refl _).append selects.sublist.1, List.pairwise_append.mpr
    ⟨placed_pairwise own_positive, placed_pairwise selected_positive, ?_⟩⟩
  intro earlier in_own later in_selected
  have before := (StructLayout.mem_placed own_positive in_own).2.2
  have behind := (StructLayout.mem_placed selected_positive in_selected).2.1
  exact before.trans (record.own_le_base.trans behind)

/-- A choice of arms somewhere in a record, and the position at which all of its arms start. -/
inductive Opens (record : Record ι) : Arms ι → Nat → Prop
  | outer : record.Opens record.arms record.base
  | nested {arms inner : Arms ι} {slots tag : List (Slot ι)} {position : Nat} :
      record.Opens arms position → arms.Has slots (.choice tag inner) →
        record.Opens inner (StructLayout.finish (StructLayout.finish position slots) tag)

/-- All the arms of a choice are placed from one position. -/
theorem Opens.sublist {arms : Arms ι} {position : Nat} (opens : record.Opens arms position) :
    (arms.placed position).Sublist record.placed := by
  induction opens with
  | outer => exact List.sublist_append_right ..
  | nested opens has induction =>
      exact ((List.sublist_append_right ..).trans (has.sublist _).2).trans induction

/-- The first slots of the arms of the outermost choice stand at one offset. -/
theorem first_placed {first : Slot ι} {slots : List (Slot ι)} {nested : Tail ι}
    (sound : ∀ slot ∈ record.slots, slot.shape.Sound)
    (has : record.arms.Has (first :: slots) nested) : (first, record.base) ∈ record.placed := by
  have is_slot := has.subset first List.mem_cons_self
  have start := roundUp_of_dvd (arms_positive sound first is_slot) (dvd_base sound first is_slot)
  apply (Opens.outer.sublist).subset
  apply (has.sublist record.base).1.subset
  rw [StructLayout.placed, start]
  exact List.mem_cons_self

end Record

end Plang.StructLayout
