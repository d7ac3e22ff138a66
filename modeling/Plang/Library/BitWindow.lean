import Mathlib

/-!
# Sets of integers in a window of bits

A mask of bits over a window that begins at some integer stands for a set: its lowest bit for the
first integer of the window, the next one for the integer behind it.  The bitwise operators are the
operators on sets where two masks are over the same window, and a mask is moved to another window by
a shift, which loses what that window does not show.
-/

namespace BitWindow

variable {w : Nat}

/-- The integers that a mask of this width can show from an origin on. -/
def window (w : Nat) (origin : Int) : Set Int := Set.Ico origin (origin + w)

/-- The set that a mask stands for. -/
def members (origin : Int) (mask : BitVec w) : Set Int :=
  {x | origin ≤ x ∧ mask.getLsbD (x - origin).toNat = true}

/-- The mask moved from one window to another. -/
def rebase (source target : Int) (mask : BitVec w) : BitVec w :=
  if source > target then mask <<< (source - target).toNat
  else mask >>> (target - source).toNat

theorem mem_window {origin x : Int} : x ∈ window w origin ↔ origin ≤ x ∧ x < origin + w :=
  Iff.rfl

theorem mem_members {origin x : Int} {mask : BitVec w} :
    x ∈ members origin mask ↔ origin ≤ x ∧ mask.getLsbD (x - origin).toNat = true :=
  Iff.rfl

theorem members_subset (origin : Int) (mask : BitVec w) :
    members origin mask ⊆ window w origin := by
  rintro x ⟨above, bit⟩
  refine ⟨above, ?_⟩
  by_contra beyond
  rw [BitVec.getLsbD_of_ge mask _ (by omega)] at bit
  cases bit

@[simp] theorem members_zero (origin : Int) : members origin (0 : BitVec w) = ∅ := by
  ext x
  simp [mem_members]

/-- Masks over one window are equal if they stand for the same set. -/
theorem members_inj {origin : Int} {left right : BitVec w} :
    members origin left = members origin right ↔ left = right := by
  constructor
  · intro same
    apply BitVec.eq_of_getLsbD_eq
    intro i _
    have at_i := Set.ext_iff.mp same (origin + i)
    have first : origin ≤ origin + (i : Int) := by omega
    have position : (origin + (i : Int) - origin).toNat = i := by omega
    rw [mem_members, mem_members, position] at at_i
    simp only [first, true_and] at at_i
    exact Bool.eq_iff_iff.mpr at_i
  · rintro rfl
    rfl

@[simp] theorem members_or (origin : Int) (left right : BitVec w) :
    members origin (left ||| right) = members origin left ∪ members origin right := by
  ext x
  simp only [mem_members, Set.mem_union, BitVec.getLsbD_or, Bool.or_eq_true]
  tauto

@[simp] theorem members_and (origin : Int) (left right : BitVec w) :
    members origin (left &&& right) = members origin left ∩ members origin right := by
  ext x
  simp only [mem_members, Set.mem_inter_iff, BitVec.getLsbD_and, Bool.and_eq_true]
  tauto

@[simp] theorem members_and_not (origin : Int) (left right : BitVec w) :
    members origin (left &&& ~~~right) = members origin left \ members origin right := by
  ext x
  simp only [mem_members, Set.mem_sdiff, BitVec.getLsbD_and, BitVec.getLsbD_not,
    Bool.and_eq_true, decide_eq_true_eq, Bool.not_eq_true', not_and, Bool.not_eq_true]
  constructor
  · rintro ⟨above, bit, _, clear⟩
    exact ⟨⟨above, bit⟩, fun _ => clear⟩
  · rintro ⟨⟨above, bit⟩, clear⟩
    have within := (members_subset origin left ⟨above, bit⟩).2
    exact ⟨above, bit, by omega, clear above⟩

@[simp] theorem members_xor (origin : Int) (left right : BitVec w) :
    members origin (left ^^^ right) = symmDiff (members origin left) (members origin right) := by
  ext x
  simp only [mem_members, Set.mem_symmDiff, BitVec.getLsbD_xor]
  cases left.getLsbD (x - origin).toNat <;> cases right.getLsbD (x - origin).toNat <;> simp

/-- Moving a mask keeps what the new window shows. -/
theorem members_rebase (source target : Int) (mask : BitVec w) :
    members target (rebase source target mask) = members source mask ∩ window w target := by
  ext x
  rw [Set.mem_inter_iff, mem_members, mem_members, mem_window, rebase]
  split
  · rename_i lower
    rw [BitVec.getLsbD_shiftLeft]
    constructor
    · rintro ⟨above, bit⟩
      simp only [Bool.and_eq_true, decide_eq_true_eq, Bool.not_eq_true', decide_eq_false_iff_not]
        at bit
      obtain ⟨⟨within, from_source⟩, bit⟩ := bit
      have position : (x - target).toNat - (source - target).toNat = (x - source).toNat := by omega
      rw [position] at bit
      exact ⟨⟨by omega, bit⟩, above, by omega⟩
    · rintro ⟨⟨above, bit⟩, _, within⟩
      have position : (x - target).toNat - (source - target).toNat = (x - source).toNat := by omega
      refine ⟨by omega, ?_⟩
      rw [position, bit]
      simp
      omega
  · rename_i higher
    rw [BitVec.getLsbD_ushiftRight]
    constructor
    · rintro ⟨above, bit⟩
      have position : (target - source).toNat + (x - target).toNat = (x - source).toNat := by omega
      rw [position] at bit
      have within := (members_subset source mask ⟨by omega, bit⟩).2
      exact ⟨⟨by omega, bit⟩, above, by omega⟩
    · rintro ⟨⟨_, bit⟩, above, _⟩
      have position : (target - source).toNat + (x - target).toNat = (x - source).toNat := by omega
      refine ⟨above, ?_⟩
      rwa [position]

theorem rebase_self (origin : Int) (mask : BitVec w) : rebase origin origin mask = mask := by
  simp [rebase]

/-- Windows that are further apart than they are wide share nothing. -/
theorem rebase_eq_zero {source target : Int} (mask : BitVec w)
    (apart : source + w ≤ target ∨ target + w ≤ source) : rebase source target mask = 0 := by
  apply (members_inj : members target _ = members target _ ↔ _).mp
  rw [members_rebase, members_zero, Set.eq_empty_iff_forall_notMem]
  rintro x ⟨shown, above, below⟩
  have seen := members_subset source mask shown
  rw [mem_window] at seen
  omega

/-- The mask of one integer of the window. -/
def single (w : Nat) (origin x : Int) : BitVec w := BitVec.twoPow w (x - origin).toNat

theorem members_single {origin x : Int} (shown : x ∈ window w origin) :
    members origin (single w origin x) = {x} := by
  ext y
  have above := shown.1
  have below := shown.2
  rw [mem_members, single, BitVec.getLsbD_twoPow, Set.mem_singleton_iff]
  simp only [Bool.and_eq_true, decide_eq_true_eq]
  constructor
  · rintro ⟨first, within, same⟩
    omega
  · rintro rfl
    exact ⟨above, by omega, rfl⟩

/-- The mask of all integers from a bit on. -/
theorem members_shiftLeft_allOnes (origin : Int) (first : Nat) :
    members origin (BitVec.allOnes w <<< first) = Set.Ici (origin + first) ∩ window w origin := by
  ext x
  rw [mem_members, BitVec.getLsbD_shiftLeft, BitVec.getLsbD_allOnes, Set.mem_inter_iff, Set.mem_Ici,
    mem_window]
  simp only [Bool.and_eq_true, decide_eq_true_eq, Bool.not_eq_true', decide_eq_false_iff_not]
  omega

/-- The integers of a mask, in ascending order. -/
def listing (origin : Int) (mask : BitVec w) : List Int :=
  ((List.range w).filter fun i => mask.getLsbD i).map fun i : Nat => origin + (i : Int)

theorem mem_listing {origin x : Int} {mask : BitVec w} :
    x ∈ listing origin mask ↔ x ∈ members origin mask := by
  rw [listing, List.mem_map, mem_members]
  constructor
  · rintro ⟨i, listed, rfl⟩
    have bit := (List.mem_filter.mp listed).2
    have position : (origin + (i : Int) - origin).toNat = i := by omega
    rw [position]
    exact ⟨by omega, bit⟩
  · rintro ⟨above, bit⟩
    have within := (members_subset origin mask ⟨above, bit⟩).2
    exact ⟨(x - origin).toNat, List.mem_filter.mpr ⟨List.mem_range.mpr (by omega), bit⟩, by omega⟩

theorem listing_ascending (origin : Int) (mask : BitVec w) :
    (listing origin mask).Pairwise (· < ·) := by
  rw [listing, List.pairwise_map]
  exact (List.pairwise_lt_range.filter _).imp fun less => by omega

end BitWindow
