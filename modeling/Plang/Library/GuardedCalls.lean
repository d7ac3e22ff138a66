import Mathlib.Logic.Relation
import Mathlib.Data.List.Basic
import Mathlib.Tactic.Common

/-!
# Bodies that call each other once

A node has a body of calls and pieces of work.  The first call of a node performs its body, and every
later one does nothing: the node is marked before its body begins, so that bodies may call each other
in cycles.
-/

namespace Plang.GuardedCalls

open Relation

variable {ν ω : Type*}

/-- A call of another node, or a piece of work. -/
inductive Action (ν ω : Type*) where
  | call (node : ν)
  | work (item : ω)
  deriving DecidableEq, Repr

def Action.callee? : Action ν ω → Option ν
  | .call node => some node
  | .work _ => none

def Action.work? : Action ν ω → Option ω
  | .call _ => none
  | .work item => some item

/-- The nodes that a body calls. -/
def callees (actions : List (Action ν ω)) : List ν := actions.filterMap Action.callee?

/-- The work of a body. -/
def works (actions : List (Action ν ω)) : List ω := actions.filterMap Action.work?

@[simp] theorem callees_nil : callees ([] : List (Action ν ω)) = [] := rfl

@[simp] theorem callees_call (node : ν) (rest : List (Action ν ω)) :
    callees (.call node :: rest) = node :: callees rest := rfl

@[simp] theorem callees_work (item : ω) (rest : List (Action ν ω)) :
    callees (.work item :: rest) = callees rest := rfl

@[simp] theorem works_nil : works ([] : List (Action ν ω)) = [] := rfl

@[simp] theorem works_call (node : ν) (rest : List (Action ν ω)) :
    works (.call node :: rest) = works rest := rfl

@[simp] theorem works_work (item : ω) (rest : List (Action ν ω)) :
    works (.work item :: rest) = item :: works rest := rfl

theorem callees_append (former latter : List (Action ν ω)) :
    callees (former ++ latter) = callees former ++ callees latter := List.filterMap_append

theorem works_append (former latter : List (Action ν ω)) :
    works (former ++ latter) = works former ++ works latter := List.filterMap_append

/-- Actions without calls are work. -/
theorem eq_map_works {actions : List (Action ν ω)} (none : callees actions = []) :
    actions = (works actions).map Action.work := by
  induction actions with
  | nil => rfl
  | cons action rest induction =>
      cases action with
      | call node => cases none
      | work item => rw [works_work, List.map_cons, ← induction none]

section Mapped

variable {α : Type*} (entries : List α)

theorem callees_map_call (target : α → ν) :
    callees (entries.map fun entry => (.call (target entry) : Action ν ω)) = entries.map target := by
  induction entries with
  | nil => rfl
  | cons entry rest induction => rw [List.map_cons, callees_call, induction, List.map_cons]

theorem works_map_call (target : α → ν) :
    works (entries.map fun entry => (.call (target entry) : Action ν ω)) = [] := by
  induction entries with
  | nil => rfl
  | cons entry rest induction => rw [List.map_cons, works_call, induction]

theorem callees_map_work (job : α → ω) :
    callees (entries.map fun entry => (.work (job entry) : Action ν ω)) = [] := by
  induction entries with
  | nil => rfl
  | cons entry rest induction => rw [List.map_cons, callees_work, induction]

theorem works_map_work (job : α → ω) :
    works (entries.map fun entry => (.work (job entry) : Action ν ω)) = entries.map job := by
  induction entries with
  | nil => rfl
  | cons entry rest induction => rw [List.map_cons, works_work, induction, List.map_cons]

end Mapped

/-- A body whose calls come before its work. -/
def CallsFirst (actions : List (Action ν ω)) : Prop :=
  ∃ nodes items, actions = List.map Action.call nodes ++ List.map Action.work items

section Semantics

variable (body : ν → Option (List (Action ν ω)))

/-- One node calls another. -/
def Calls (caller callee : ν) : Prop := ∃ actions, body caller = some actions ∧ callee ∈ callees actions

/-- The actions of a node, from the nodes that have begun to those that have begun afterwards, and
the work that is done, with the node that does it. -/
inductive Performs : ν → List (Action ν ω) → List ν → List ν → List (ν × ω) → Prop where
  | nil {node begun} : Performs node [] begun begun []
  | work {node item rest begun ended done} : Performs node rest begun ended done →
      Performs node (.work item :: rest) begun ended ((node, item) :: done)
  | again {node callee rest begun ended done} : callee ∈ begun →
      Performs node rest begun ended done → Performs node (.call callee :: rest) begun ended done
  | first {node callee actions rest begun between ended inner outer} : callee ∉ begun →
      body callee = some actions → Performs callee actions (callee :: begun) between inner →
      Performs node rest between ended outer →
      Performs node (.call callee :: rest) begun ended (inner ++ outer)

variable [DecidableEq ν]

/-- The actions of a node, when a first call is performed by descending. -/
def performWith (descend : ν → List (Action ν ω) → List ν → Option (List ν × List (ν × ω)))
    (node : ν) : List (Action ν ω) → List ν → Option (List ν × List (ν × ω))
  | [], begun => some (begun, [])
  | .work item :: rest, begun =>
      (performWith descend node rest begun).map fun after => (after.1, (node, item) :: after.2)
  | .call callee :: rest, begun =>
      if callee ∈ begun then performWith descend node rest begun
      else
        (body callee).bind fun actions => (descend callee actions (callee :: begun)).bind fun inner =>
          (performWith descend node rest inner.1).map fun outer => (outer.1, inner.2 ++ outer.2)

/-- The actions of a node, with so many calls inside of each other. -/
def perform : Nat → ν → List (Action ν ω) → List ν → Option (List ν × List (ν × ω))
  | 0 => performWith body fun _ _ _ => none
  | depth + 1 => performWith body (perform depth)

end Semantics

variable {body : ν → Option (List (Action ν ω))}

/-! ### Performing is a function -/

section Function

variable [DecidableEq ν]

theorem performs_of_performWith
    {descend : ν → List (Action ν ω) → List ν → Option (List ν × List (ν × ω))}
    (descends : ∀ {node actions begun result}, descend node actions begun = some result →
      Performs body node actions begun result.1 result.2)
    {node : ν} {actions : List (Action ν ω)} {begun : List ν} {result : List ν × List (ν × ω)}
    (performed : performWith body descend node actions begun = some result) :
    Performs body node actions begun result.1 result.2 := by
  induction actions generalizing begun result with
  | nil =>
      obtain rfl := Option.some.inj performed
      exact .nil
  | cons action rest induction =>
      cases action with
      | work item =>
          obtain ⟨after, rest_performed, rfl⟩ := Option.map_eq_some_iff.mp performed
          exact .work (induction rest_performed)
      | call callee =>
          rw [performWith] at performed
          split at performed
          · rename_i again
            exact .again again (induction performed)
          · rename_i first
            obtain ⟨actions, found, performed⟩ := Option.bind_eq_some_iff.mp performed
            obtain ⟨inner, descended, performed⟩ := Option.bind_eq_some_iff.mp performed
            obtain ⟨outer, rest_performed, rfl⟩ := Option.map_eq_some_iff.mp performed
            exact .first first found (descends descended) (induction rest_performed)

theorem performs_of_perform {depth : Nat} {node : ν} {actions : List (Action ν ω)} {begun : List ν}
    {result : List ν × List (ν × ω)} (performed : perform body depth node actions begun = some result) :
    Performs body node actions begun result.1 result.2 := by
  induction depth generalizing node actions begun result with
  | zero => exact performs_of_performWith (fun impossible => by cases impossible) performed
  | succ depth induction => exact performs_of_performWith induction performed

end Function

namespace Performs

variable {node : ν} {actions : List (Action ν ω)} {begun ended : List ν} {done : List (ν × ω)}

theorem mono (performs : Performs body node actions begun ended done) : begun ⊆ ended := by
  induction performs with
  | nil => exact List.Subset.refl _
  | work _ induction => exact induction
  | again _ _ induction => exact induction
  | first _ _ _ _ inner_induction outer_induction =>
      exact List.Subset.trans (List.subset_cons_self _ _)
        (List.Subset.trans inner_induction outer_induction)

theorem map_work_iff {items : List ω} :
    Performs body node (items.map .work) begun ended done ↔
      ended = begun ∧ done = items.map (Prod.mk node) := by
  induction items generalizing done with
  | nil =>
      constructor
      · intro nothing
        cases nothing
        exact ⟨rfl, rfl⟩
      · rintro ⟨rfl, rfl⟩
        exact .nil
  | cons item rest induction =>
      constructor
      · intro performs
        cases performs with
        | work performs =>
            obtain ⟨rfl, rfl⟩ := induction.mp performs
            exact ⟨rfl, rfl⟩
      · rintro ⟨rfl, rfl⟩
        exact .work (induction.mpr ⟨rfl, rfl⟩)

/-- Two lists of actions, one after the other. -/
theorem append_iff {first second : List (Action ν ω)} :
    Performs body node (first ++ second) begun ended done ↔
      ∃ between former latter, Performs body node first begun between former ∧
        Performs body node second between ended latter ∧ done = former ++ latter := by
  induction first generalizing begun done with
  | nil =>
      constructor
      · intro performs
        exact ⟨begun, [], done, .nil, performs, rfl⟩
      · rintro ⟨between, former, latter, nothing, performs, rfl⟩
        cases nothing
        exact performs
  | cons action rest induction =>
      constructor
      · intro performs
        cases performs with
        | work performs =>
            obtain ⟨between, former, latter, former_performs, latter_performs, rfl⟩ :=
              induction.mp performs
            exact ⟨between, _, latter, .work former_performs, latter_performs, rfl⟩
        | again again performs =>
            obtain ⟨between, former, latter, former_performs, latter_performs, rfl⟩ :=
              induction.mp performs
            exact ⟨between, _, latter, .again again former_performs, latter_performs, rfl⟩
        | first first found inner performs =>
            obtain ⟨between, former, latter, former_performs, latter_performs, rfl⟩ :=
              induction.mp performs
            exact ⟨between, _, latter, .first first found inner former_performs, latter_performs,
              (List.append_assoc _ _ _).symm⟩
      · rintro ⟨between, former, latter, former_performs, latter_performs, rfl⟩
        cases former_performs with
        | work performs => exact .work (induction.mpr ⟨_, _, _, performs, latter_performs, rfl⟩)
        | again again performs =>
            exact .again again (induction.mpr ⟨_, _, _, performs, latter_performs, rfl⟩)
        | first first found inner performs =>
            rw [List.append_assoc]
            exact .first first found inner (induction.mpr ⟨_, _, _, performs, latter_performs, rfl⟩)

/-- Work is done by the node, or by one that begins. -/
theorem doer (performs : Performs body node actions begun ended done) :
    ∀ event ∈ done, event.1 = node ∨ event.1 ∈ ended ∧ event.1 ∉ begun := by
  induction performs with
  | nil =>
      intro event impossible
      cases impossible
  | work _ induction =>
      intro event occurs
      rcases List.mem_cons.mp occurs with rfl | occurs
      · exact .inl rfl
      · exact induction event occurs
  | again _ _ induction => exact induction
  | first fresh _ inner outer inner_induction outer_induction =>
      intro event occurs
      rcases List.mem_append.mp occurs with occurs | occurs
      · rcases inner_induction event occurs with same | ⟨ended, new⟩
        · right
          rw [same]
          exact ⟨outer.mono (inner.mono List.mem_cons_self), fresh⟩
        · exact .inr ⟨outer.mono ended, fun old => new (List.mem_cons_of_mem _ old)⟩
      · rcases outer_induction event occurs with same | ⟨ended, new⟩
        · exact .inl same
        · exact .inr ⟨ended, fun old => new (inner.mono (List.mem_cons_of_mem _ old))⟩

/-- The nodes that the actions call have begun. -/
theorem called (performs : Performs body node actions begun ended done) :
    ∀ callee ∈ callees actions, callee ∈ ended := by
  induction performs with
  | nil =>
      intro callee impossible
      cases impossible
  | work _ induction => exact induction
  | again again performs induction =>
      intro callee occurs
      rcases List.mem_cons.mp occurs with rfl | occurs
      · exact performs.mono again
      · exact induction callee occurs
  | first _ _ inner outer _ induction =>
      intro callee occurs
      rcases List.mem_cons.mp occurs with rfl | occurs
      · exact outer.mono (inner.mono List.mem_cons_self)
      · exact induction callee occurs

/-- A node that begins has a body, and what it calls begins. -/
theorem begins (performs : Performs body node actions begun ended done) :
    ∀ other ∈ ended, other ∉ begun →
      ∃ actions, body other = some actions ∧ ∀ callee ∈ callees actions, callee ∈ ended := by
  induction performs with
  | nil =>
      intro other ended new
      exact absurd ended new
  | work _ induction => exact induction
  | again _ _ induction => exact induction
  | @first node callee actions rest begun between ended inner outer fresh found inner_performs
      outer_performs inner_induction outer_induction =>
      intro other other_ended new
      by_cases early : other ∈ between
      · by_cases same : other = callee
        · subst same
          exact ⟨actions, found, fun callee occurs => outer_performs.mono
            (inner_performs.called callee occurs)⟩
        · obtain ⟨actions, found, closed⟩ := inner_induction other early
            fun old => (List.mem_cons.mp old).elim same new
          exact ⟨actions, found, fun callee occurs => outer_performs.mono (closed callee occurs)⟩
      · exact outer_induction other other_ended early

/-- A node that begins is reached from one that the actions call. -/
theorem reached (performs : Performs body node actions begun ended done) :
    ∀ other ∈ ended, other ∉ begun →
      ∃ callee ∈ callees actions, ReflTransGen (Calls body) callee other := by
  induction performs with
  | nil =>
      intro other ended new
      exact absurd ended new
  | work _ induction => exact induction
  | again _ _ induction =>
      intro other ended new
      obtain ⟨callee, occurs, path⟩ := induction other ended new
      exact ⟨callee, List.mem_cons_of_mem _ occurs, path⟩
  | @first node callee actions rest begun between ended inner outer fresh found inner_performs
      outer_performs inner_induction outer_induction =>
      intro other other_ended new
      by_cases early : other ∈ between
      · by_cases same : other = callee
        · subst same
          exact ⟨other, List.mem_cons_self, .refl⟩
        · obtain ⟨next, occurs, path⟩ := inner_induction other early
            fun old => (List.mem_cons.mp old).elim same new
          exact ⟨callee, List.mem_cons_self, .head ⟨actions, found, occurs⟩ path⟩
      · obtain ⟨next, occurs, path⟩ := outer_induction other other_ended early
        exact ⟨next, List.mem_cons_of_mem _ occurs, path⟩

end Performs

/-! ### Once -/

section Once

variable [DecidableEq ν]

/-- The work that a node has done. -/
def doneBy (node : ν) (done : List (ν × ω)) : List ω :=
  done.filterMap fun event => if event.1 = node then some event.2 else none

@[simp] theorem doneBy_nil (node : ν) : doneBy node ([] : List (ν × ω)) = [] := rfl

theorem doneBy_append (node : ν) (former latter : List (ν × ω)) :
    doneBy node (former ++ latter) = doneBy node former ++ doneBy node latter :=
  List.filterMap_append

theorem doneBy_cons_self (node : ν) (item : ω) (done : List (ν × ω)) :
    doneBy node ((node, item) :: done) = item :: doneBy node done := by
  simp [doneBy]

theorem doneBy_cons_of_ne {node other : ν} (ne : other ≠ node) (item : ω) (done : List (ν × ω)) :
    doneBy node ((other, item) :: done) = doneBy node done := by
  simp [doneBy, ne]

theorem doneBy_eq_nil {node : ν} {done : List (ν × ω)} :
    doneBy node done = [] ↔ ∀ event ∈ done, event.1 ≠ node := by
  simp [doneBy]

theorem mem_doneBy {node : ν} {item : ω} {done : List (ν × ω)} :
    item ∈ doneBy node done ↔ (node, item) ∈ done := by
  simp [doneBy, and_comm]

/-- Events that only one node can be the doer of are counted in what it has done. -/
theorem map_fst_filter {node : ν} {done : List (ν × ω)} {property : ν × ω → Bool}
    (only : ∀ event ∈ done, property event = true → event.1 = node) :
    (done.filter property).map Prod.fst =
      List.replicate ((doneBy node done).filter fun item => property (node, item)).length node := by
  induction done with
  | nil => rfl
  | cons event rest induction =>
      have rest_only := induction fun other occurs => only other (List.mem_cons_of_mem _ occurs)
      obtain ⟨doer, item⟩ := event
      by_cases same : doer = node
      · subst same
        rw [doneBy_cons_self]
        by_cases holds : property (doer, item) = true
        · rw [List.filter_cons_of_pos holds, List.map_cons, rest_only]
          simp [holds, List.replicate_succ]
        · rw [List.filter_cons_of_neg holds, rest_only]
          simp [holds]
      · have fails : ¬property (doer, item) = true :=
          fun holds => same (only _ List.mem_cons_self holds)
        rw [doneBy_cons_of_ne same, List.filter_cons_of_neg fails, rest_only]

namespace Performs

variable {node : ν} {actions : List (Action ν ω)} {begun ended : List ν} {done : List (ν × ω)}

/-- A node that has begun before does nothing, the one that performs the actions apart. -/
theorem doneBy_of_begun (performs : Performs body node actions begun ended done) {other : ν}
    (old : other ∈ begun) (ne : other ≠ node) : doneBy other done = [] := by
  rw [doneBy_eq_nil]
  rintro event occurs rfl
  rcases performs.doer event occurs with same | ⟨_, new⟩
  · exact ne same
  · exact new old

theorem doneBy_of_not_ended (performs : Performs body node actions begun ended done) {other : ν}
    (never : other ∉ ended) (ne : other ≠ node) : doneBy other done = [] := by
  rw [doneBy_eq_nil]
  rintro event occurs rfl
  rcases performs.doer event occurs with same | ⟨ended, _⟩
  · exact ne same
  · exact never ended

/-- The node that performs the actions does their work, in their order. -/
theorem doneBy_self (performs : Performs body node actions begun ended done)
    (old : node ∈ begun) : doneBy node done = works actions := by
  induction performs with
  | nil => rfl
  | work _ induction => rw [doneBy_cons_self, works_work, induction old]
  | again _ _ induction => rw [works_call, induction old]
  | @first node callee actions rest begun between ended inner outer fresh found inner_performs
      outer_performs inner_induction outer_induction =>
      have ne : node ≠ callee := fun same => fresh (same ▸ old)
      have idle := inner_performs.doneBy_of_begun (List.mem_cons_of_mem _ old) ne
      rw [doneBy_append, idle, List.nil_append, works_call,
        outer_induction (inner_performs.mono (List.mem_cons_of_mem _ old))]

/-- A node that begins does the work of its body, in its order. -/
theorem doneBy_of_begins (performs : Performs body node actions begun ended done)
    (old : node ∈ begun) {other : ν} (other_ended : other ∈ ended) (new : other ∉ begun)
    {own : List (Action ν ω)} (found : body other = some own) : doneBy other done = works own := by
  induction performs with
  | nil => exact absurd other_ended new
  | @work node item rest begun ended done _ induction =>
      have ne : node ≠ other := fun same => new (same ▸ old)
      rw [doneBy_cons_of_ne ne, induction old other_ended new]
  | again _ _ induction => exact induction old other_ended new
  | @first node callee actions rest begun between ended inner outer fresh callee_found
      inner_performs outer_performs inner_induction outer_induction =>
      have node_between := inner_performs.mono (List.mem_cons_of_mem callee old)
      have ne : other ≠ node := fun same => new (same ▸ old)
      rw [doneBy_append]
      by_cases early : other ∈ between
      · rw [outer_performs.doneBy_of_begun early ne, List.append_nil]
        by_cases same : other = callee
        · subst same
          rw [callee_found] at found
          obtain rfl := Option.some.inj found
          exact inner_performs.doneBy_self List.mem_cons_self
        · exact inner_induction List.mem_cons_self early
            fun old => (List.mem_cons.mp old).elim same new
      · have callee_ne : other ≠ callee :=
          fun same => early (same ▸ inner_performs.mono List.mem_cons_self)
        rw [inner_performs.doneBy_of_not_ended early callee_ne, List.nil_append,
          outer_induction node_between other_ended early]

end Performs

end Once

/-! ### Order -/

theorem CallsFirst.tail {action : Action ν ω} {rest : List (Action ν ω)}
    (first : CallsFirst (action :: rest)) : CallsFirst rest := by
  obtain ⟨nodes, items, same⟩ := first
  cases nodes with
  | nil =>
      cases items with
      | nil => cases same
      | cons item items => exact ⟨[], items, (List.cons.inj same).2⟩
  | cons head nodes => exact ⟨nodes, items, (List.cons.inj same).2⟩

theorem CallsFirst.no_calls {item : ω} {rest : List (Action ν ω)}
    (first : CallsFirst (.work item :: rest)) : callees rest = [] := by
  obtain ⟨nodes, items, same⟩ := first
  cases nodes with
  | nil =>
      cases items with
      | nil => cases same
      | cons head items =>
          rw [(List.cons.inj same).2]
          simp [callees, Action.callee?]
  | cons head nodes => cases same

namespace Performs

variable {node : ν} {actions : List (Action ν ω)} {begun ended : List ν} {done : List (ν × ω)}

/-- Actions without calls are all done by their node. -/
theorem doer_of_no_calls (performs : Performs body node actions begun ended done)
    (none : callees actions = []) : ∀ event ∈ done, event.1 = node := by
  intro event occurs
  rcases performs.doer event occurs with same | ⟨ended, new⟩
  · exact same
  · obtain ⟨callee, impossible, _⟩ := performs.reached _ ended new
    rw [none] at impossible
    cases impossible

/-- When a node has been performed by a first call, whoever has done work meanwhile is reached from
it, and what that calls has begun. -/
theorem settled {callee : ν} {between : List ν} (found : body callee = some actions)
    (performs : Performs body callee actions (callee :: begun) between done) {doer next : ν}
    {item : ω} (occurs : (doer, item) ∈ done) (calls : Calls body doer next) :
    ReflTransGen (Calls body) callee doer ∧ next ∈ between := by
  obtain ⟨own_actions, own_found, calls⟩ := calls
  rcases performs.doer _ occurs with rfl | ⟨doer_between, new⟩
  · rw [found] at own_found
    obtain rfl := Option.some.inj own_found
    exact ⟨.refl, performs.called next calls⟩
  · obtain ⟨start, called, path⟩ := performs.reached _ doer_between new
    obtain ⟨_, same_found, closed⟩ := performs.begins _ doer_between new
    rw [own_found] at same_found
    obtain rfl := Option.some.inj same_found
    exact ⟨.head ⟨actions, found, called⟩ path, closed next calls⟩

/-- What has begun, and is not performing the actions, does nothing. -/
theorem idle (performs : Performs body node actions begun ended done) {other : ν}
    (old : other ∈ begun) (ne : other ≠ node) : ∀ event ∈ done, event.1 ≠ other := by
  rintro event occurs rfl
  rcases performs.doer event occurs with same | ⟨_, new⟩
  · exact ne same
  · exact new old

/-- What a node calls has done all of its work before the node does any, unless it calls the node in
turn, by way of others or not. -/
theorem order (performs : Performs body node actions begun ended done) (old : node ∈ begun)
    (own : ∀ callee ∈ callees actions, Calls body node callee)
    (first : ∀ other ∉ begun, ∀ actions, body other = some actions → CallsFirst actions)
    {former latter : List (ν × ω)} {doer callee : ν} {item : ω}
    (own_first : doer = node → CallsFirst actions)
    (split : done = former ++ (doer, item) :: latter) (calls : Calls body doer callee)
    (acyclic : ¬TransGen (Calls body) callee doer) (ne : callee ≠ doer) :
    ∀ event ∈ latter, event.1 ≠ callee := by
  induction performs generalizing former latter with
  | nil => simp at split
  | work performs induction =>
      cases former with
      | nil =>
          obtain ⟨same, rfl⟩ := List.cons.inj split
          obtain ⟨rfl, _⟩ := Prod.mk.inj same
          intro event occurs
          rw [performs.doer_of_no_calls (own_first rfl).no_calls event occurs]
          exact ne.symm
      | cons head former =>
          exact induction old own first (fun same => (own_first same).tail) (List.cons.inj split).2
  | again _ _ induction =>
      exact induction old (fun callee occurs => own callee (List.mem_cons_of_mem _ occurs)) first
        (fun same => (own_first same).tail) split
  | @first node next actions rest begun between ended inner outer fresh found
      inner_performs outer_performs inner_induction outer_induction =>
      have node_calls : Calls body node next := own next List.mem_cons_self
      have grows : begun ⊆ between :=
        List.Subset.trans (List.subset_cons_self _ _) inner_performs.mono
      have outer_late : ∀ {former}, outer = former ++ (doer, item) :: latter →
          ∀ event ∈ latter, event.1 ≠ callee :=
        fun split => outer_induction (grows old)
          (fun callee occurs => own callee (List.mem_cons_of_mem _ occurs))
          (fun other new => first other fun old => new (grows old))
          (fun same => (own_first same).tail) split
      rcases List.append_eq_append_iff.mp split with
        ⟨middle, _, outer_split⟩ | ⟨middle, inner_split, rest_split⟩
      · exact outer_late outer_split
      cases middle with
      | nil => exact @outer_late [] rest_split.symm
      | cons head middle =>
          obtain ⟨rfl, rfl⟩ := List.cons.inj rest_split
          have occurs : (doer, item) ∈ inner := by rw [inner_split]; simp
          obtain ⟨path, callee_begun⟩ := settled found inner_performs occurs calls
          have not_node : callee ≠ node := by
            rintro rfl
            exact acyclic (.head' node_calls path)
          intro event event_occurs
          rcases List.mem_append.mp event_occurs with early | late
          · exact inner_induction List.mem_cons_self (fun callee occurs => ⟨actions, found, occurs⟩)
              (fun other new => first other fun old => new (List.mem_cons_of_mem _ old))
              (fun _ => first next fresh actions found) inner_split event early
          · exact outer_performs.idle callee_begun not_node event late

end Performs

/-! ### Depth -/

section Depth

variable [DecidableEq ν]

/-- How many nodes have not begun. -/
def remaining (nodes begun : List ν) : Nat := (nodes.filter fun node => node ∉ begun).length

theorem remaining_mono (nodes : List ν) {begun ended : List ν} (grows : begun ⊆ ended) :
    remaining nodes ended ≤ remaining nodes begun := by
  apply List.Sublist.length_le
  apply List.monotone_filter_right
  intro node new
  rw [decide_eq_true_eq] at *
  exact fun old => new (grows old)

theorem remaining_cons_lt {nodes begun : List ν} {node : ν} (known : node ∈ nodes)
    (new : node ∉ begun) : remaining nodes (node :: begun) < remaining nodes begun := by
  have split : (nodes.filter fun other => other ∉ node :: begun) =
      (nodes.filter fun other => other ∉ begun).filter fun other => other ≠ node := by
    rw [List.filter_filter]
    apply List.filter_congr
    intro other _
    simp
  rw [remaining, split, remaining, List.length_filter_lt_length_iff_exists]
  exact ⟨node, List.mem_filter.mpr ⟨known, by simpa using new⟩, by simp⟩

/-- As many calls inside of each other as there are nodes are enough. -/
theorem perform_total {nodes : List ν}
    (closed : ∀ node ∈ nodes, ∃ actions, body node = some actions ∧ callees actions ⊆ nodes)
    {depth : Nat} {node : ν} {actions : List (Action ν ω)} {begun : List ν}
    (enough : remaining nodes begun ≤ depth) (known : callees actions ⊆ nodes) :
    ∃ result, perform body depth node actions begun = some result := by
  induction depth generalizing node actions begun with
  | zero =>
      have begun_all : ∀ callee ∈ nodes, callee ∈ begun := by
        intro callee occurs
        by_contra new
        exact absurd (remaining_cons_lt occurs new) (by omega)
      induction actions with
      | nil => exact ⟨_, rfl⟩
      | cons action rest induction =>
          cases action with
          | work item =>
              obtain ⟨result, performed⟩ := induction known
              exact ⟨_, congrArg (Option.map _) performed⟩
          | call callee =>
              obtain ⟨result, performed⟩ := induction fun other occurs =>
                known (List.mem_cons_of_mem _ occurs)
              refine ⟨result, ?_⟩
              rw [perform, performWith, if_pos (begun_all callee (known List.mem_cons_self))]
              exact performed
  | succ depth descends =>
      induction actions generalizing begun with
      | nil => exact ⟨_, rfl⟩
      | cons action rest induction =>
          cases action with
          | work item =>
              obtain ⟨result, performed⟩ := induction enough known
              exact ⟨_, congrArg (Option.map _) performed⟩
          | call callee =>
              have callee_known : callee ∈ nodes := known List.mem_cons_self
              have rest_known : callees rest ⊆ nodes :=
                fun other occurs => known (List.mem_cons_of_mem _ occurs)
              by_cases again : callee ∈ begun
              · obtain ⟨result, performed⟩ := induction enough rest_known
                refine ⟨result, ?_⟩
                rw [perform, performWith, if_pos again]
                exact performed
              · obtain ⟨own, found, own_known⟩ := closed callee callee_known
                have fewer := remaining_cons_lt callee_known again
                obtain ⟨inner, inner_performed⟩ := @descends callee own (callee :: begun)
                  (by omega) own_known
                have grows := (performs_of_perform inner_performed).mono
                have left := remaining_mono nodes
                  (List.Subset.trans (List.subset_cons_self callee begun) grows)
                obtain ⟨outer, outer_performed⟩ := @induction inner.1 (by omega) rest_known
                rw [perform] at outer_performed
                rw [perform, performWith, if_neg again, found, Option.bind_some, inner_performed,
                  Option.bind_some, outer_performed]
                exact ⟨_, rfl⟩

end Depth

end Plang.GuardedCalls
