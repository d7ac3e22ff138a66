import Plang.CodeGen.SetConstructors

/-!
# Loops over sets

The loop walks through the bits of a set and adds the origin of the window to those that it finds.
With it, a set constructor, a test and a loop speak of one set.
-/

namespace Plang.CodeGen

open Plang.Sema BitWindow MachineInt

/-! ### The loop -/

theorem next_bit {bit : BitVec 64} (more : bit.ult 256 = true) :
    bit.toNat < 256 ∧ (bit + 1).toNat = bit.toNat + 1 := by
  have below : bit.toNat < 256 := by simpa [BitVec.ult] using more
  refine ⟨below, ?_⟩
  have one : (1 : BitVec 64).toNat = 1 := rfl
  rw [BitVec.toNat_add, one]
  omega

/-- The faults of a loop: a shift that is not defined, or whatever its body ends it with. -/
inductive LoopFault (ε : Type*) where
  | poison
  | body (fault : ε)

/-- The loop over a set, from a bit on; the control variable has this width. -/
def emitForIn {σ ε : Type*} (base : OrdinalType) (set : BitVec 256) (width : Nat)
    (body : BitVec width → σ → Except ε σ) (bit : BitVec 64) (state : σ) :
    Except (LoopFault ε) σ :=
  if _more : bit.ult 256 then
    match lshr set (bit.setWidth 256) with
    | .error _ => .error .poison
    | .ok shifted =>
        if shifted.getLsbD 0 then
          let ordinal :=
            if setBaseOffset base ≠ 0 then bit + BitVec.ofInt 64 (setBaseOffset base) else bit
          match body (ordinal.setWidth width) state with
          | .error fault => .error (.body fault)
          | .ok state => emitForIn base set width body (bit + 1) state
        else emitForIn base set width body (bit + 1) state
  else .ok state
termination_by 256 - bit.toNat
decreasing_by all_goals
  have next := next_bit _more
  omega

/-! ### What it does -/

section Loop

variable {base : OrdinalType} {σ ε : Type*} {width : Nat}

/-- The loop from a bit on runs its body for the ordinals of the bits that are set there. -/
theorem emitForIn_from (set : BitVec 256) (body : BitVec width → σ → Except ε σ)
    (width_le : width ≤ 64) (left : Nat) {bit : Nat} (here : bit + left = 256) (state : σ) :
    emitForIn base set width body (BitVec.ofNat 64 bit) state =
      (((List.range' bit left).filter fun i => set.getLsbD i).foldlM
        (fun state (i : Nat) => body (BitVec.ofInt width (setBaseOffset base + (i : Int))) state)
        state).mapError .body := by
  induction left generalizing bit state with
  | zero =>
      obtain rfl : bit = 256 := by omega
      rw [emitForIn]
      rfl
  | succ left induction =>
      have low : (BitVec.ofNat 64 bit).toNat = bit := by
        rw [BitVec.toNat_ofNat]
        omega
      have more : (BitVec.ofNat 64 bit).ult 256 = true := by
        have limit : (256 : BitVec 64).toNat = 256 := rfl
        rw [BitVec.ult, low, limit]
        exact decide_eq_true (by omega)
      have bit_eq : BitVec.ofNat 64 bit = BitVec.ofInt 64 bit := rfl
      have shifted := @lshr_ofInt set bit (by omega) (by omega)
      have next : BitVec.ofNat 64 bit + 1 = BitVec.ofNat 64 (bit + 1) := by
        rw [BitVec.ofNat_add]
        rfl
      have ordinal :
          (if setBaseOffset base ≠ 0 then
            BitVec.ofNat 64 bit + BitVec.ofInt 64 (setBaseOffset base)
          else BitVec.ofNat 64 bit) = BitVec.ofInt 64 (setBaseOffset base + (bit : Int)) := by
        rw [bit_eq, BitVec.ofInt_add, BitVec.add_comm]
        split
        · rfl
        · rename_i zero
          rw [not_not.mp zero]
          exact (BitVec.zero_add _).symm
      rw [emitForIn, dif_pos more, bit_eq, shifted, ← bit_eq, List.range'_succ, List.filter_cons]
      dsimp only
      rw [BitVec.getLsbD_ushiftRight, Int.toNat_natCast, Nat.add_zero, ordinal, next]
      have rest := fun state => induction (by omega : bit + 1 + left = 256) state
      split
      · rw [List.foldlM_cons, setWidth_ofInt width_le]
        cases outcome : body (BitVec.ofInt width (setBaseOffset base + (bit : Int))) state with
        | error fault => rfl
        | ok state => exact rest state
      · exact rest state

theorem emitForIn_eq (set : BitVec 256) (body : BitVec width → σ → Except ε σ)
    (width_le : width ≤ 64) (state : σ) :
    emitForIn base set width body 0 state =
      ((listing (setBaseOffset base) set).foldlM
        (fun state v => body (BitVec.ofInt width v) state) state).mapError .body := by
  have whole := @emitForIn_from base σ ε width set body width_le 256 0 rfl state
  rw [← List.range_eq_range'] at whole
  rw [listing, List.foldlM_map]
  exact whole

end Loop

/-- The host of a declared type with a negative value is one of integers. -/
theorem exists_integer_host {type : OrdinalType} (declared : IsDeclared false type) {lo hi : Int}
    (range : type.ordinalRange = some (lo, hi)) (negative : lo < 0) :
    ∃ width signed, type.host = .integer width signed := by
  induction type generalizing lo hi with
  | integer width signed => exact ⟨width, signed, rfl⟩
  | boolean =>
      obtain ⟨rfl, -⟩ := Prod.mk.inj (Option.some.inj range)
      exact (lt_irrefl 0 negative).elim
  | looseBoolean width => cases declared
  | char =>
      obtain ⟨rfl, -⟩ := Prod.mk.inj (Option.some.inj range)
      exact (lt_irrefl 0 negative).elim
  | enum decl last =>
      obtain ⟨rfl, -⟩ := Prod.mk.inj (Option.some.inj range)
      exact (lt_irrefl 0 negative).elim
  | subrange host first last induction =>
      obtain ⟨rfl, rfl⟩ := Prod.mk.inj (Option.some.inj range)
      obtain ⟨host_declared, -, -, -, within⟩ := declared
      cases host_range : host.ordinalRange with
      | some bounds =>
          have below := (within bounds.1 bounds.2 host_range).1
          exact induction host_declared host_range (by omega)
      | none =>
          cases host with
          | integer width signed => exact ⟨width, signed, rfl⟩
          | looseBoolean width => cases host_declared
          | boolean => cases host_range
          | char => cases host_range
          | enum decl last => cases host_range
          | subrange host first last => cases host_range

theorem host_ne_looseBoolean {type : OrdinalType} (declared : IsDeclared false type) (width : Nat) :
    type.host ≠ .looseBoolean width := by
  induction type with
  | looseBoolean other => cases declared
  | subrange host lo hi induction => exact induction declared.1
  | integer other signed => exact nofun
  | boolean => exact nofun
  | char => exact nofun
  | enum decl last => exact nofun

theorem integer_host_of_compatible {type base : OrdinalType}
    (compatible : type.isAssignCompatible base = true) {width : Nat} {signed : Bool}
    (integer : base.host = .integer width signed) :
    ∃ width signed, type.host = .integer width signed := by
  rw [OrdinalType.isAssignCompatible, integer] at compatible
  cases host : type.host with
  | integer width signed => exact ⟨width, signed, rfl⟩
  | boolean => simp [host] at compatible
  | looseBoolean width => simp [host] at compatible
  | char => simp [host] at compatible
  | enum decl last => simp [host] at compatible
  | subrange host lo hi => simp [host] at compatible

/-- The window of a base that is none of integers begins at 0. -/
theorem setBaseOffset_eq_zero {base : OrdinalType} (declared : IsDeclared false base)
    (other : ∀ width signed, base.host ≠ .integer width signed) : setBaseOffset base = 0 := by
  cases base with
  | subrange host lo hi =>
      rw [setBaseOffset]
      refine if_neg fun negative => ?_
      obtain ⟨width, signed, integer⟩ := exists_integer_host declared rfl negative
      exact other width signed integer
  | integer width signed => rfl
  | boolean => rfl
  | looseBoolean width => rfl
  | char => rfl
  | enum decl last => rfl

theorem host_ne_subrange (type host : OrdinalType) (lo hi : Int) :
    type.host ≠ .subrange host lo hi := by
  induction type with
  | subrange other first last induction => exact induction
  | integer width signed => exact nofun
  | boolean => exact nofun
  | looseBoolean width => exact nofun
  | char => exact nofun
  | enum decl last => exact nofun

/-- The type of an entire variable.  Only the discriminants of a schema can make a subrange of a
subrange. -/
structure IsControl (type : OrdinalType) : Prop where
  declared : IsDeclared false type
  flat : ∀ host lo hi, type = .subrange host lo hi → host.host = host

/-- A control variable is held in 64 bits, but for characters and truth values. -/
theorem IsControl.storage {type : OrdinalType} (control : IsControl type) :
    (∃ width signed, type.host = .integer width signed) ∧
        (type.llvmWidth false, type.isSigned false) = (64, true) ∨
      type = .boolean ∨ type = .char ∨
      (∀ width signed, type.host ≠ .integer width signed) ∧
        (type.llvmWidth false, type.isSigned false) = (64, false) := by
  have declared := control.declared
  cases type with
  | integer width signed =>
      obtain ⟨rfl, rfl⟩ := declared rfl
      exact .inl ⟨⟨64, true, rfl⟩, rfl⟩
  | boolean => exact .inr (.inl rfl)
  | looseBoolean width => cases declared
  | char => exact .inr (.inr (.inl rfl))
  | enum decl last => exact .inr (.inr (.inr ⟨nofun, rfl⟩))
  | subrange host lo hi =>
      have flat := control.flat host lo hi rfl
      cases host with
      | integer width signed =>
          obtain ⟨rfl, rfl⟩ := declared.1 rfl
          exact .inl ⟨⟨64, true, rfl⟩, rfl⟩
      | boolean => exact .inr (.inr (.inr ⟨nofun, rfl⟩))
      | looseBoolean width => cases declared.1
      | char => exact .inr (.inr (.inr ⟨nofun, rfl⟩))
      | enum decl last => exact .inr (.inr (.inr ⟨nofun, rfl⟩))
      | subrange host first last =>
          exact (host_ne_subrange _ host first last flat).elim

/-- A control variable holds every ordinal of the window of a set that it is compatible with, but
for a Boolean one. -/
theorem IsControl.fits {type base : OrdinalType} (control : IsControl type)
    (declared : IsDeclared false base) (compatible : type.isAssignCompatible base = true) {v : Int}
    (anchored : Anchored false (setBaseOffset base)) (shown : v ∈ window 256 (setBaseOffset base))
    (truth : base.host = .boolean → v = 0 ∨ v = 1) :
    Fits (type.llvmWidth false) (type.isSigned false) v := by
  have int64 := anchored.int64
  have nonpos := anchored.nonpos
  rw [mem_window] at shown
  have natural : (∀ width signed, type.host ≠ .integer width signed) → 0 ≤ v ∧ v < 256 := by
    intro other
    have zero := setBaseOffset_eq_zero declared fun width signed integer => by
      obtain ⟨width, signed, host⟩ := integer_host_of_compatible compatible integer
      exact other width signed host
    omega
  rcases control.storage with ⟨-, held⟩ | rfl | rfl | ⟨other, held⟩
  · obtain ⟨width_eq, signed_eq⟩ := Prod.mk.inj held
    rw [width_eq, signed_eq, fits_signed]
    omega
  · have host : base.host = .boolean := by
      rw [OrdinalType.isAssignCompatible, OrdinalType.host] at compatible
      cases host : base.host with
      | boolean => rfl
      | looseBoolean width => exact (host_ne_looseBoolean declared width host).elim
      | integer width signed => simp [host] at compatible
      | char => simp [host] at compatible
      | enum decl last => simp [host] at compatible
      | subrange type lo hi => simp [host] at compatible
    rcases truth host with rfl | rfl <;> decide
  · have bounds := natural nofun
    change Fits 8 false v
    rw [fits_unsigned]
    omega
  · have bounds := natural other
    obtain ⟨width_eq, signed_eq⟩ := Prod.mk.inj held
    rw [width_eq, signed_eq, fits_unsigned]
    omega

theorem IsControl.width {type : OrdinalType} (control : IsControl type) :
    0 < type.llvmWidth false ∧ type.llvmWidth false ≤ 64 := by
  rcases control.storage with ⟨-, held⟩ | rfl | rfl | ⟨-, held⟩
  · rw [(Prod.mk.inj held).1]
    decide
  · decide
  · decide
  · rw [(Prod.mk.inj held).1]
    decide

/-- A set constructor, a test and a loop speak of the same set. -/
structure SetsAgree {turbo : Bool} (checks : Bool) (base : OrdinalType)
    (elements : List (SetElement turbo)) : Prop where
  constructed : ConstructorRight checks base elements
  /-- A test answers whether the value is a member, unless it is reported. -/
  tested : ∀ (set : BitVec 256) (x : OrdinalValue turbo),
    (checks = true ∧ x.value ∉ ordinals base →
      emitSetMember checks base x.i64 set = .error .plang_err_range) ∧
    (¬(checks = true ∧ x.value ∉ ordinals base) →
      ∃ answer, emitSetMember checks base x.i64 set = .ok answer ∧
        (answer = true ↔ x.value ∈ members (setBaseOffset base) set))
  /-- A loop gives every member to its body, in ascending order. -/
  iterated : turbo = false → ∀ (set : BitVec 256) (type : OrdinalType),
    IsControl type → type.isAssignCompatible base = true →
    (base.host = .boolean → members (setBaseOffset base) set ⊆ {0, 1}) →
    ∃ values : List Int, values.Pairwise (· < ·) ∧
      (∀ v, v ∈ values ↔ v ∈ members (setBaseOffset base) set) ∧
      (∀ v ∈ values, denote (type.isSigned false) (BitVec.ofInt (type.llvmWidth false) v) = v) ∧
      ∀ (σ ε : Type) (body : BitVec (type.llvmWidth false) → σ → Except ε σ) (state : σ),
        emitForIn base set (type.llvmWidth false) body 0 state =
          (values.foldlM (fun state v => body (BitVec.ofInt (type.llvmWidth false) v) state)
            state).mapError .body

/-- Set constructors, membership and for-in agree, and no shift is undefined, exactly where ranges
are checked or no ordinal of the window depends on a range with one bound far above the origin. -/
theorem setsAgree_iff {turbo : Bool} {base : OrdinalType}
    (accepted : checkSetBaseRange turbo base = true) (declared : IsDeclared turbo base)
    (checks : Bool) (elements : List (SetElement turbo)) :
    SetsAgree checks base elements ↔
      checks = true ∨ Undisturbed (setBaseOffset base) elements := by
  have anchored := anchored_of_accepted accepted declared
  rw [← constructorRight_iff accepted declared]
  refine ⟨fun agree => agree.constructed, fun right => ⟨right, ?_, ?_⟩⟩
  · intro set x
    have check := emitRangeCheck_eq accepted declared checks x
    refine ⟨fun outside => ?_, fun inside => emitSetMember_eq anchored (check.2 inside) set⟩
    simp only [emitSetMember, check.1 outside.1 outside.2, bind, Except.bind]
  · rintro rfl set type control compatible truth
    have fits : ∀ v ∈ listing (setBaseOffset base) set,
        Fits (type.llvmWidth false) (type.isSigned false) v := by
      intro v listed
      have member := mem_listing.mp listed
      exact control.fits declared compatible anchored (members_subset _ _ member)
        fun host => truth host member
    refine ⟨listing (setBaseOffset base) set, listing_ascending _ _, fun v => mem_listing,
      fun v listed => denote_ofInt control.width.1 (fits v listed), fun σ ε body state => ?_⟩
    exact emitForIn_eq set body control.width.2 state

def belowZero : OrdinalType := .subrange (.integer 64 true) (-300) (-200)

/-- `-250` and `maxint` as Extended Pascal computes them. -/
def minus250 : OrdinalValue false :=
  ⟨64, true, -250, by decide, by decide, by decide, fun _ => by decide⟩

def maxintValue : OrdinalValue false :=
  ⟨64, true, 9223372036854775807, by decide, by decide, by decide, fun _ => by decide⟩

theorem setsAgree_iff_belowZero :
    SetsAgree true belowZero [.range minus250 maxintValue] ∧
      SetsAgree false belowZero [.single minus250] := by
  have accepted : checkSetBaseRange false belowZero = true := by decide
  have declared : IsDeclared false belowZero :=
    ⟨fun _ => ⟨rfl, rfl⟩, by decide, by decide, by decide, fun _ _ range => by cases range⟩
  refine ⟨(setsAgree_iff accepted declared true _).mpr (.inl rfl),
    (setsAgree_iff accepted declared false _).mpr (.inr fun v _ _ => iff_of_false ?_ ?_)⟩
  · rintro ⟨elem, listed, lost⟩
    obtain rfl := List.mem_singleton.mp listed
    exact lost
  · rintro ⟨elem, listed, added⟩
    obtain rfl := List.mem_singleton.mp listed
    exact added

/-- `[-250..maxint]` is empty where ranges are not checked, and lists an ordinal of the window. -/
theorem range_to_maxint_empty :
    emitSetLiteral false belowZero [.range minus250 maxintValue] = .ok 0 ∧
      -250 ∈ (SetElement.range minus250 maxintValue).values ∧
        -250 ∈ window 256 (setBaseOffset belowZero) := by
  refine ⟨by decide, ⟨?_, ?_⟩, ⟨?_, ?_⟩⟩ <;> decide

end Plang.CodeGen
