import Plang.CodeGen.ConformantCalls

/-!
# The shape of conformant arrays in chains of calls

A formal shows its array when its bounds and its address are those of the array.  A call keeps this
for what the caller received, as long as each dimension that is handed on has bounds to read: those
of a row of a conformant array are not recorded in its type, and those of a formal that is captured
are found by their names.
-/

namespace Plang.CodeGen.ConformantCalls

open RowMajor

/-! ### What a call needs -/

/-- The bounds and the address of a formal are those of its array. -/
structure Param.Shows (param : Param) : Prop where
  bounds : param.region.bounds = param.bounds ++ param.formal.component.bounds
  dims : param.bounds.length = param.formal.conformantDims.length
  unit : param.formal.component.unit = param.region.unit
  ptr : param.ptr = param.region.base

/-- No activation between the one that was passed the formal and the one that names it declares a
name of its bounds. -/
def Unshadowed (levels : List Level) (depth : Nat) (formal : Formal) : Prop :=
  ∀ level ∈ (levels.take depth).tail, ∀ names ∈ formal.conformantDims,
    level.cells.lookup names.1 = none ∧ level.cells.lookup names.2 = none

/-- The array has the dimensions of the formal, and the component type that the formal has. -/
def Fits (region : Region) (formal : Formal) : Prop :=
  formal.conformantDims.length ≤ region.bounds.length ∧
  formal.component = ⟨region.bounds.drop formal.conformantDims.length, region.unit⟩

/-- The dimensions that are handed on have bounds to read. -/
def Readable (levels : List Level) (region : Region) (formal : Formal) : Actual → Prop
  | .literal _ _ => True
  | .declared _ recorded written => ∀ i < formal.conformantDims.length,
      region.bounds[i]? = some ((written[i]?.join).getD (recorded[i]?.getD ⟨0, 0⟩))
  | .received depth k subs => ∀ param, findParam levels depth k = some param →
      Unshadowed levels depth param.formal ∧
      (subs = [] ∨ ∀ bounds ∈ region.bounds.take (min formal.conformantDims.length
        (param.formal.conformantDims.length - subs.length)), bounds = ⟨0, 0⟩)

def Kept (levels : List Level) (actual : Actual) (region : Region) (formal : Formal) : Prop :=
  Fits region formal ∧ Readable levels region formal actual

/-! ### Bounds -/

/-- A formal of the activation itself. -/
theorem unshadowed_own (levels : List Level) (formal : Formal) : Unshadowed levels 0 formal := by
  intro level among
  rw [List.take_zero, List.tail_nil] at among
  cases among

theorem findVar_tail {name : Text} {value : Int} {outer : List Level} {d : Nat} {level : Level}
    (clear : ∀ between ∈ outer.take d, between.cells.lookup name = none)
    (at_depth : outer[d]? = some level) (here : level.cells.lookup name = some value) :
    findVar name outer = value := by
  induction d generalizing outer with
  | zero =>
      cases outer with
      | nil => cases at_depth
      | cons first outer =>
          cases at_depth
          simp only [findVar, here]
  | succ d induction =>
      cases outer with
      | nil => cases at_depth
      | cons first outer =>
          have skipped := clear first (List.mem_cons_self ..)
          simp only [findVar, skipped]
          have nearer := fun between among => clear between (List.mem_cons_of_mem first among)
          exact induction nearer at_depth

theorem findParam_level {levels : List Level} {depth k : Nat} {param : Param}
    (found : findParam levels depth k = some param) :
    ∃ level, levels[depth]? = some level ∧ param ∈ level.params := by
  obtain ⟨level, at_depth, at_k⟩ := Option.bind_eq_some_iff.mp found
  exact ⟨level, at_depth, List.mem_of_getElem? at_k⟩

/-- A formal that no name is in front of has the bounds that were passed to it. -/
theorem conformantBounds_eq {levels : List Level} {depth k : Nat} {param : Param}
    (found : findParam levels depth k = some param)
    (dims : param.bounds.length = param.formal.conformantDims.length)
    (seen : Unshadowed levels depth param.formal) :
    conformantBounds levels depth param = param.bounds := by
  obtain ⟨level, at_depth, among⟩ := findParam_level found
  cases depth with
  | zero => rfl
  | succ d =>
      cases levels with
      | nil => cases at_depth
      | cons own outer =>
          apply List.ext_getElem?
          intro i
          rw [conformantBounds, List.getElem?_map]
          cases named : param.formal.conformantDims[i]? with
          | none =>
              have past := List.getElem?_eq_none_iff.mp named
              exact (List.getElem?_eq_none (dims ▸ past)).symm
          | some names =>
              obtain ⟨bounds, passed, lo, hi⟩ := level.declared param among i names named
              have clear := fun level inside =>
                seen level inside names (List.mem_of_getElem? named)
              have lo_found := findVar_tail (fun level inside => (clear level inside).1) at_depth lo
              have hi_found := findVar_tail (fun level inside => (clear level inside).2) at_depth hi
              rw [passed, Option.map_some, List.tail_cons, lo_found, hi_found]

/-- Bounds that are recorded in a type, or written where it is declared. -/
theorem pushBounds_declared {dims : Nat} {recorded bounds : List Bounds}
    {written : List (Option Bounds)}
    (real : ∀ i < dims, bounds[i]? = some ((written[i]?.join).getD (recorded[i]?.getD ⟨0, 0⟩))) :
    pushBounds dims [] 0 recorded written = bounds.take dims := by
  induction dims generalizing recorded bounds written with
  | zero => rfl
  | succ dims induction =>
      have first := real 0 (Nat.zero_lt_succ dims)
      cases bounds with
      | nil => cases first
      | cons outer bounds =>
          have rest : ∀ i < dims, bounds[i]? =
              some ((written.tail[i]?.join).getD (recorded.tail[i]?.getD ⟨0, 0⟩)) := by
            intro i below
            have next := real (i + 1) (Nat.succ_lt_succ below)
            rw [List.getElem?_cons_succ] at next
            rw [List.getElem?_tail, List.getElem?_tail, next]
          have pushed := induction rest
          rw [List.getElem?_cons_zero, Option.some.injEq] at first
          rw [List.take_succ_cons, first, ← pushed]
          rcases written with _ | ⟨_ | _, _⟩ <;> rcases recorded with _ | ⟨_, _⟩ <;> rfl

theorem pushBounds_recorded {dims : Nat} {recorded : List Bounds}
    (enough : dims ≤ recorded.length) :
    pushBounds dims [] 0 recorded [] = recorded.take dims := by
  apply pushBounds_declared
  intro i below
  rw [List.getElem?_eq_getElem (Nat.lt_of_lt_of_le below enough)]
  rfl

/-- The bounds that an activation was passed come before those of the component type. -/
theorem pushBounds_own {dims : Nat} {own recorded : List Bounds}
    (enough : dims ≤ (own ++ recorded).length) :
    pushBounds dims own own.length recorded [] = (own ++ recorded).take dims := by
  induction dims generalizing own with
  | zero => rfl
  | succ dims induction =>
      cases own with
      | nil => exact pushBounds_recorded enough
      | cons outer own =>
          have rest := induction (Nat.le_of_succ_le_succ enough)
          rw [List.cons_append, List.take_succ_cons, ← rest]
          rfl

/-- A row has only those of its type. -/
theorem pushBounds_row {dims conformant : Nat} {recorded : List Bounds}
    (enough : dims ≤ conformant + recorded.length) :
    pushBounds dims [] conformant recorded [] =
      (List.replicate conformant (⟨0, 0⟩ : Bounds) ++ recorded).take dims := by
  induction dims generalizing conformant with
  | zero => rfl
  | succ dims induction =>
      cases conformant with
      | zero => exact pushBounds_recorded (Nat.zero_add recorded.length ▸ enough)
      | succ conformant =>
          have enough : dims ≤ conformant + recorded.length := by omega
          have rest := induction enough
          rw [List.replicate_succ, List.cons_append, List.take_succ_cons, ← rest]
          rfl

/-! ### Subscripts -/

variable {checked : Bool}

theorem checked_inside {bounds : Bounds} {idx : Int} (inside : bounds.lo ≤ idx ∧ idx ≤ bounds.hi) :
    ¬(checked && !(decide (bounds.lo ≤ idx) && decide (idx ≤ bounds.hi))) = true := by
  rw [decide_eq_true inside.1, decide_eq_true inside.2, Bool.and_self, Bool.not_true,
    Bool.and_false]
  exact Bool.false_ne_true

theorem flatIndex_inside {d : Nat} {flat : Int} {dims behind : List Bounds} {subs : List Int}
    (start : d = 0 → flat = 0) (inside : Inside (dims ++ behind) subs) :
    flatIndex checked d flat dims subs = some (fold flat dims subs) := by
  induction dims generalizing d flat subs with
  | nil => rw [flatIndex, fold]
  | cons bounds dims induction =>
      cases subs with
      | nil =>
          rw [flatIndex, fold]
          exact induction (absurd · (Nat.succ_ne_zero d)) (by cases dims ++ behind <;> trivial)
      | cons idx subs =>
          have scaled : (if 0 < d then flat * bounds.extent else flat) = flat * bounds.extent := by
            cases d with
            | zero => rw [start rfl, zero_mul, ite_self]
            | succ d => exact if_pos (Nat.zero_lt_succ d)
          rw [flatIndex, if_neg (checked_inside inside.1), scaled, fold]
          exact induction (absurd · (Nat.succ_ne_zero d)) inside.2

theorem elemPtr_inside {unit : Nat} {dims : List Bounds} {p : Int} {subs : List Int}
    (inside : Inside dims subs) :
    elemPtr checked unit dims p subs = some (p + offset dims subs * unit) := by
  induction subs generalizing dims p with
  | nil => rw [elemPtr, offset_nil, zero_mul, add_zero]
  | cons idx subs induction =>
      cases dims with
      | nil => exact inside.elim
      | cons bounds dims =>
          rw [elemPtr, if_neg (checked_inside inside.1), induction inside.2, offset]
          congr 1
          ring

/-- Subscripts of a conformant array give the place that they have in the whole array. -/
theorem emitConformantElemPtr_inside {dims : List Bounds} {component : Component} {ptr : Int}
    {subs : List Int} (inside : Inside (dims ++ component.bounds) subs) :
    emitConformantElemPtr checked dims component ptr subs =
      some (ptr + offset (dims ++ component.bounds) subs * component.unit) := by
  have flat : flatIndex checked 0 0 dims subs = some (fold 0 dims subs) :=
    flatIndex_inside (fun _ => rfl) inside
  rw [emitConformantElemPtr, flat, Option.bind_some, elemPtr_inside (inside_drop inside), fold_eq,
    offset_append, Component.size]
  congr 1
  ring

/-! ### Calls -/

/-- Dimensions without bounds are passed as if they were `0..0`. -/
theorem take_unbounded {dims : Nat} {left behind : List Bounds}
    (zero : ∀ bounds ∈ (left ++ behind).take (min dims left.length), bounds = ⟨0, 0⟩) :
    (List.replicate left.length (⟨0, 0⟩ : Bounds) ++ behind).take dims =
      (left ++ behind).take dims := by
  have inner : (left ++ behind).take (min dims left.length) = left.take dims := by
    rw [List.take_append_of_le_length (Nat.min_le_right ..), List.take_eq_take_iff, Nat.min_assoc,
      Nat.min_self]
  rw [inner] at zero
  have all_zero := List.eq_replicate_of_mem zero
  rw [List.take_append, List.take_append, List.length_replicate, List.take_replicate, all_zero,
    List.length_take]

theorem pushConformantArgs_kept {caller : List Level} {actual : Actual} {region : Region}
    {formal : Formal} (shown : ∀ depth k param, findParam caller depth k = some param → param.Shows)
    (denotes : Denotes caller actual region) (kept : Kept caller actual region formal) :
    pushConformantArgs checked caller formal.conformantDims.length actual =
      some (region.base, region.bounds.take formal.conformantDims.length) := by
  obtain ⟨⟨enough, -⟩, readable⟩ := kept
  cases denotes with
  | literal length ptr =>
      have one : formal.conformantDims.length = 1 :=
        Nat.le_antisymm enough (List.length_pos_iff.mpr formal.some_dim)
      rw [one, pushConformantArgs]
      rfl
  | declared _ recorded written => rw [pushConformantArgs, pushBounds_declared readable]
  | @received depth k subs param found inside =>
      obtain ⟨seen, zero⟩ := readable param found
      have shows := shown depth k param found
      have own := conformantBounds_eq found shows.dims seen
      rw [pushConformantArgs, found, Option.bind_some, own]
      simp only [Region.row] at enough zero ⊢
      rw [shows.bounds] at enough inside zero ⊢
      by_cases whole : subs = []
      · subst whole
        rw [if_pos rfl, pushBounds_own enough, shows.ptr, offset_nil, zero_mul, add_zero]
        rfl
      · have zero := zero.resolve_left whole
        rw [List.drop_append] at enough zero ⊢
        have left : (param.bounds.drop subs.length).length = param.bounds.length - subs.length :=
          List.length_drop ..
        rw [← shows.dims, ← left] at zero
        rw [if_neg whole, emitConformantElemPtr_inside inside, Option.map_some, ← left,
          pushBounds_row (by rwa [List.length_append] at enough), take_unbounded zero, shows.ptr,
          shows.unit]

/-- One call: a formal that is handed what its caller can read shows its array. -/
theorem shows_of_passed {caller : List Level} {actual : Actual} {region : Region} {param : Param}
    (shown : ∀ depth k param, findParam caller depth k = some param → param.Shows)
    (denotes : Denotes caller actual region) (kept : Kept caller actual region param.formal)
    (passed : Passed checked caller actual region param) : param.Shows := by
  obtain ⟨ptr, copy, pushed, at_ptr, at_region⟩ := passed
  rw [pushConformantArgs_kept shown denotes kept, Option.some.injEq, Prod.mk.injEq] at pushed
  obtain ⟨⟨enough, component⟩, -⟩ := kept
  exact {
    bounds := by rw [at_region, component, ← pushed.2, List.take_append_drop]
    dims := by rw [← pushed.2, List.length_take, Nat.min_eq_left enough]
    unit := by rw [at_region, component]
    ptr := by rw [at_ptr, at_region, pushed.1] }

/-- All calls: every formal that can be named shows its array. -/
theorem shows_of_reached {levels : List Level} (reached : Reached checked Kept levels)
    (depth k : Nat) (param : Param) (found : findParam levels depth k = some param) :
    param.Shows := by
  induction reached generalizing depth k param with
  | main =>
      obtain ⟨level, at_depth, -⟩ := findParam_level found
      cases at_depth
  | call level _ _ passed from_caller inside =>
      cases depth with
      | zero =>
          obtain ⟨_, at_top, among⟩ := findParam_level found
          cases at_top
          obtain ⟨actual, region, denotes, kept, handed⟩ := passed param among
          exact shows_of_passed from_caller denotes kept handed
      | succ depth => exact inside depth k param found

/-- In every chain of calls that hand over what can be read, a formal has the bounds of its array,
and its subscripts select what they select there. -/
theorem shape_of_reached {levels : List Level} (reached : Reached checked Kept levels)
    (depth k : Nat) (param : Param) (found : findParam levels depth k = some param)
    (seen : Unshadowed levels depth param.formal) :
    conformantBounds levels depth param =
        param.region.bounds.take param.formal.conformantDims.length ∧
      ∀ subs, Inside param.region.bounds subs →
        emitConformantElemPtr checked (conformantBounds levels depth param) param.formal.component
          param.ptr subs = some (param.region.row subs).base := by
  have shows := shows_of_reached reached depth k param found
  rw [conformantBounds_eq found shows.dims seen]
  constructor
  · rw [shows.bounds, ← shows.dims, List.take_left]
  · intro subs inside
    rw [shows.bounds] at inside
    rw [emitConformantElemPtr_inside inside, ← shows.bounds, shows.unit, shows.ptr, Region.row]

/-! ### A matrix and its first row -/

/-- A matrix, declared `array [1..2] of array [3..7] of integer`. -/
def matrix : Region := ⟨[⟨1, 2⟩, ⟨3, 7⟩], 8, 1000⟩

def matrixFormal : Formal :=
  ⟨[("a".toList, "b".toList), ("c".toList, "d".toList)], ⟨[], 8⟩, List.cons_ne_nil _ _⟩

def rowFormal : Formal := ⟨[("lo".toList, "hi".toList)], ⟨[], 8⟩, List.cons_ne_nil _ _⟩

/-- An activation that was passed the matrix. -/
def matrixLevel : Level where
  cells := [("a".toList, 1), ("b".toList, 2), ("c".toList, 3), ("d".toList, 7)]
  params := [⟨matrixFormal, matrix.bounds, matrix.base, matrix⟩]
  declared := by
    intro param among k names named
    cases List.mem_singleton.mp among
    rcases k with _ | _ | k <;> cases named
    · exact ⟨⟨1, 2⟩, rfl, rfl, rfl⟩
    · exact ⟨⟨3, 7⟩, rfl, rfl, rfl⟩

/-- A procedure that was passed the first row of that array. -/
def rowLevel : Level where
  cells := [("lo".toList, 0), ("hi".toList, 0)]
  params := [⟨rowFormal, [⟨0, 0⟩], 1000, matrix.row [1]⟩]
  declared := by
    intro param among k names named
    cases List.mem_singleton.mp among
    rcases k with _ | k <;> cases named
    exact ⟨⟨0, 0⟩, rfl, rfl, rfl⟩

theorem matrix_fits : Fits matrix matrixFormal := ⟨Nat.le_refl 2, rfl⟩

theorem matrix_readable (caller : List Level) :
    Kept caller (.declared matrix matrix.bounds []) matrix matrixFormal := by
  refine ⟨matrix_fits, fun i below => ?_⟩
  rcases i with _ | _ | i
  · rfl
  · rfl
  · cases Nat.lt_of_succ_lt_succ (Nat.lt_of_succ_lt_succ below)

/-- The matrix is passed to a formal that has it whole, and from there to another one. -/
theorem reached_matrix : Reached checked Kept [matrixLevel] := by
  have first : Reached checked Kept [matrixLevel] := by
    refine .call matrixLevel .main .main fun param among => ?_
    cases List.mem_singleton.mp among
    exact ⟨_, _, .declared matrix matrix.bounds [], matrix_readable [], 1000, none, rfl, rfl, rfl⟩
  refine .call matrixLevel first .main fun param among => ?_
  cases List.mem_singleton.mp among
  have found : findParam [matrixLevel] 0 0 = some ⟨matrixFormal, matrix.bounds, 1000, matrix⟩ := rfl
  have whole : Denotes [matrixLevel] (.received 0 0 []) matrix :=
    .received found trivial
  have readable : Readable [matrixLevel] matrix matrixFormal (.received 0 0 []) :=
    fun param _ => ⟨unshadowed_own _ _, .inl rfl⟩
  exact ⟨_, _, whole, ⟨matrix_fits, readable⟩, 1000, none, rfl, rfl, rfl⟩

/-- The component `m[2][5]` of what the second formal has. -/
theorem shape_of_matrix :
    emitConformantElemPtr true matrix.bounds ⟨[], 8⟩ 1000 [2, 5] = some 1056 :=
  have shape := shape_of_reached reached_matrix 0 0 _ rfl (unshadowed_own _ _)
  shape.2 [2, 5] ⟨by decide, by decide, trivial⟩

/-- A row that is handed on arrives without its bounds. -/
theorem row_without_bounds :
    ¬∀ levels, Reached true (fun _ _ region formal => Fits region formal) levels →
      ∀ depth k param, findParam levels depth k = some param →
        Unshadowed levels depth param.formal →
        conformantBounds levels depth param =
            param.region.bounds.take param.formal.conformantDims.length ∧
          ∀ subs, Inside param.region.bounds subs →
            emitConformantElemPtr true (conformantBounds levels depth param) param.formal.component
              param.ptr subs = some (param.region.row subs).base := by
  intro shape
  have outer : Reached true (fun _ _ region formal => Fits region formal) [matrixLevel] := by
    refine .call matrixLevel .main .main fun param among => ?_
    cases List.mem_singleton.mp among
    exact ⟨_, _, .declared matrix matrix.bounds [], matrix_fits, 1000, none, rfl, rfl, rfl⟩
  have row : Reached true (fun _ _ region formal => Fits region formal) [rowLevel] := by
    refine .call rowLevel outer .main fun param among => ?_
    cases List.mem_singleton.mp among
    have found : findParam [matrixLevel] 0 0 = some ⟨matrixFormal, matrix.bounds, 1000, matrix⟩ :=
      rfl
    have first : Denotes [matrixLevel] (.received 0 0 [1]) (matrix.row [1]) :=
      .received found ⟨by decide, trivial⟩
    exact ⟨_, _, first, ⟨Nat.le_refl 1, rfl⟩, 1000, none, rfl, rfl, rfl⟩
  have bounds := (shape _ row 0 0 _ rfl (unshadowed_own _ _)).1
  cases bounds

end Plang.CodeGen.ConformantCalls
