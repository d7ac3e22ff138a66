import Mathlib.Data.Bool.Basic

/-!
# Definite assignment over structured statements

Structured statements are made of simple ones by sequence, choice and two kinds of loop.  A path
through a statement follows one choice at each branch and some number of rounds at each loop, and
tells whether one watched variable is assigned on the way.  The walk reads each statement once,
keeps what holds on every path, and drops a branch that does not come to its end where another one
does.  The walk misses no path that goes through the whole body of each loop with a first round;
where no statement stands behind one that never comes to its end, it finds no other.
-/

namespace Structured

variable {α : Type*}

/-- How a statement ends: it is done, or it leaves a loop, a round of one, the routine or the
program. -/
inductive Ending where
  | done
  | broke
  | continued
  | left
  | halted
  deriving DecidableEq, Repr

namespace Ending

/-- Whether the ending stays inside the loop that runs the statement. -/
def staysInLoop : Ending → Bool
  | .broke | .continued => true
  | _ => false

/-- Whether the ending is one of the routine. -/
def endsRoutine : Ending → Bool
  | .left | .halted => true
  | _ => false

end Ending

/-- The effect of a simple statement: whether it assigns the variable, and how it ends. -/
structure Effect where
  assigns : Bool
  ending : Ending
  deriving DecidableEq, Repr

/-- Structured statements over simple ones. -/
inductive Shape (α : Type*) where
  | skip
  | simple (stmt : α)
  | seq (first second : Shape α)
  | branch (left right : Shape α)
  /-- Any number of rounds. -/
  | loop (body : Shape α)
  /-- At least one round. -/
  | again (body : Shape α)

/-- The paths through a statement: whether the variable is assigned before it, how it ends, and
whether the variable is assigned then.  A loop with a first round is left, or sent on to its test,
from inside its body only where `early` allows it. -/
inductive Path (effect : α → Effect) (early : Bool → Prop) :
    Shape α → Bool → Ending → Bool → Prop
  | skip (before : Bool) : Path effect early .skip before .done before
  | simple (stmt : α) (before : Bool) :
      Path effect early (.simple stmt) before (effect stmt).ending
        (before || (effect stmt).assigns)
  | seq {first second before middle ending after}
      (head : Path effect early first before .done middle)
      (tail : Path effect early second middle ending after) :
      Path effect early (.seq first second) before ending after
  | seqOut {first second before ending after}
      (head : Path effect early first before ending after) (out : ending ≠ .done) :
      Path effect early (.seq first second) before ending after
  | left {left right before ending after}
      (side : Path effect early left before ending after) :
      Path effect early (.branch left right) before ending after
  | right {left right before ending after}
      (side : Path effect early right before ending after) :
      Path effect early (.branch left right) before ending after
  | loopNone {body} (before : Bool) : Path effect early (.loop body) before .done before
  | loopOn {body before round middle ending after}
      (head : Path effect early body before round middle)
      (on : round = .done ∨ round = .continued)
      (tail : Path effect early (.loop body) middle ending after) :
      Path effect early (.loop body) before ending after
  | loopBroke {body before after} (head : Path effect early body before .broke after) :
      Path effect early (.loop body) before .done after
  | loopOut {body before ending after} (head : Path effect early body before ending after)
      (out : ending.endsRoutine = true) :
      Path effect early (.loop body) before ending after
  | againOnce {body before round after} (head : Path effect early body before round after)
      (on : round = .done ∨ round = .continued ∧ early after) :
      Path effect early (.again body) before .done after
  | againOn {body before round middle ending after}
      (head : Path effect early body before round middle)
      (on : round = .done ∨ round = .continued ∧ early middle)
      (tail : Path effect early (.again body) middle ending after) :
      Path effect early (.again body) before ending after
  | againBroke {body before after} (head : Path effect early body before .broke after)
      (allowed : early after) :
      Path effect early (.again body) before .done after
  | againOut {body before ending after} (head : Path effect early body before ending after)
      (out : ending.endsRoutine = true) :
      Path effect early (.again body) before ending after

variable {effect : α → Effect} {early : Bool → Prop}

/-- What was assigned stays assigned along a path. -/
theorem Path.assigned_mono {shape : Shape α} {before after : Bool} {ending : Ending}
    (path : Path effect early shape before ending after) (assigned : before = true) :
    after = true := by
  induction path with
  | skip before => exact assigned
  | simple stmt before => simp [assigned]
  | seq head tail head_mono tail_mono => exact tail_mono (head_mono assigned)
  | seqOut head out mono => exact mono assigned
  | left side mono => exact mono assigned
  | right side mono => exact mono assigned
  | loopNone before => exact assigned
  | loopOn head on tail head_mono tail_mono => exact tail_mono (head_mono assigned)
  | loopBroke head mono => exact mono assigned
  | loopOut head out mono => exact mono assigned
  | againOnce head on mono => exact mono assigned
  | againOn head on tail head_mono tail_mono => exact tail_mono (head_mono assigned)
  | againBroke head allowed mono => exact mono assigned
  | againOut head out mono => exact mono assigned

/-! ### The walk -/

/-- The knowledge of the walk at a point: whether the variable is assigned on every path to it, and
whether no path comes to it. -/
@[ext] structure Known where
  assigned : Bool
  dead : Bool
  deriving DecidableEq, Repr

namespace Known

/-- The knowledge where two branches meet; a dead one has no say against a live one. -/
def merge (first second : Known) : Known :=
  if first.dead && !second.dead then second
  else if second.dead && !first.dead then first
  else ⟨first.assigned && second.assigned, first.dead && second.dead⟩

@[simp] theorem dead_merge (first second : Known) :
    (first.merge second).dead = (first.dead && second.dead) := by
  rw [merge]
  cases dead_first : first.dead <;> cases dead_second : second.dead <;> simp [*]

theorem assigned_merge_of_both {first second : Known} (assigned_first : first.assigned = true)
    (assigned_second : second.assigned = true) : (first.merge second).assigned = true := by
  rw [merge]
  split
  · exact assigned_second
  · split
    · exact assigned_first
    · simp [assigned_first, assigned_second]

/-- Nothing is known that fails for a live path with this answer. -/
structure Covers (known : Known) (assigned : Bool) : Prop where
  live : known.dead = false
  truthful : known.assigned = true → assigned = true

theorem Covers.mono {known : Known} {before after : Bool} (covers : known.Covers before)
    (mono : before = true → after = true) : known.Covers after :=
  ⟨covers.live, fun assigned => mono (covers.truthful assigned)⟩

theorem Covers.merge_left {first : Known} {assigned : Bool} (covers : first.Covers assigned)
    (second : Known) : (first.merge second).Covers assigned := by
  have live := covers.live
  constructor
  · simp [live]
  · rw [merge]
    cases second_dead : second.dead with
    | true => simpa [live, second_dead] using covers.truthful
    | false =>
        intro both
        apply covers.truthful
        simp only [live] at both
        simp_all

theorem Covers.merge_right {second : Known} {assigned : Bool} (covers : second.Covers assigned)
    (first : Known) : (first.merge second).Covers assigned := by
  have live := covers.live
  constructor
  · simp [live]
  · rw [merge]
    cases first_dead : first.dead with
    | true => simpa [live, first_dead] using covers.truthful
    | false =>
        intro both
        apply covers.truthful
        simp only [live] at both
        simp_all

end Known

/-- The knowledge of the walk behind a statement. -/
def walk (effect : α → Effect) : Shape α → Known → Known
  | .skip, known => known
  | .simple stmt, known =>
      ⟨known.assigned || (effect stmt).assigns, known.dead || (effect stmt).ending != .done⟩
  | .seq first second, known => walk effect second (walk effect first known)
  | .branch left right, known => (walk effect left known).merge (walk effect right known)
  | .loop _, known => known
  | .again body, known => { walk effect body known with dead := known.dead }

/-- Whether the walk meets a statement that ends the routine with the variable unassigned. -/
def meets (effect : α → Effect) : Shape α → Known → Bool
  | .skip, _ => false
  | .simple stmt, known =>
      (effect stmt).ending.endsRoutine && !(known.assigned || (effect stmt).assigns)
  | .seq first second, known =>
      meets effect first known || meets effect second (walk effect first known)
  | .branch left right, known => meets effect left known || meets effect right known
  | .loop body, known => meets effect body known
  | .again body, known => meets effect body known

/-- Whether every path through the statement leaves it. -/
def neverDone (effect : α → Effect) : Shape α → Bool
  | .skip => false
  | .simple stmt => (effect stmt).ending != .done
  | .seq first second => neverDone effect first || neverDone effect second
  | .branch left right => neverDone effect left && neverDone effect right
  | .loop _ => false
  | .again _ => false

theorem dead_walk (shape : Shape α) (known : Known) :
    (walk effect shape known).dead = (known.dead || neverDone effect shape) := by
  induction shape generalizing known with
  | skip => simp [walk, neverDone]
  | simple stmt => rfl
  | seq first second first_dead second_dead =>
      simp [walk, neverDone, first_dead, second_dead, Bool.or_assoc]
  | branch left right left_dead right_dead =>
      simp [walk, neverDone, left_dead, right_dead, Bool.or_and_distrib_left]
  | loop body => simp [walk, neverDone]
  | again body => simp [walk, neverDone]

theorem assigned_walk {known : Known} (assigned : known.assigned = true) (shape : Shape α) :
    (walk effect shape known).assigned = true := by
  induction shape generalizing known with
  | skip => exact assigned
  | simple stmt => simp [walk, assigned]
  | seq first second first_assigned second_assigned =>
      exact second_assigned (first_assigned assigned)
  | branch left right left_assigned right_assigned =>
      exact Known.assigned_merge_of_both (left_assigned assigned) (right_assigned assigned)
  | loop body => exact assigned
  | again body body_assigned => exact body_assigned assigned

theorem meets_of_assigned {known : Known} (assigned : known.assigned = true) (shape : Shape α) :
    meets effect shape known = false := by
  induction shape generalizing known with
  | skip => rfl
  | simple stmt => simp [meets, assigned]
  | seq first second first_meets second_meets =>
      simp [meets, first_meets assigned, second_meets (assigned_walk assigned first)]
  | branch left right left_meets right_meets =>
      simp [meets, left_meets assigned, right_meets assigned]
  | loop body body_meets => exact body_meets assigned
  | again body body_meets => exact body_meets assigned

/-! ### The walk misses no path -/

/-- A path through whole rounds finds what the walk has told. -/
structure Told (effect : α → Effect) (shape : Shape α) (known : Known) (ending : Ending)
    (after : Bool) : Prop where
  done : ending = .done → (walk effect shape known).Covers after
  out : ending.endsRoutine = true → meets effect shape known = false → after = true

theorem Path.told {shape : Shape α} {before after : Bool} {ending : Ending}
    (path : Path effect (· = true) shape before ending after) :
    ∀ known : Known, known.Covers before → Told effect shape known ending after := by
  induction path with
  | skip before =>
      intro known covers
      exact ⟨fun _ => covers, fun out => absurd out (by decide)⟩
  | simple stmt before =>
      intro known covers
      constructor
      · intro ends
        constructor
        · simp [walk, covers.live, ends]
        · have truthful := covers.truthful
          simp only [walk, Bool.or_eq_true]
          exact Or.imp_left truthful
      · intro out silent
        have truthful := covers.truthful
        simp only [meets, out, Bool.true_and, Bool.not_eq_false', Bool.or_eq_true] at silent
        simpa only [Bool.or_eq_true] using Or.imp_left truthful silent
  | seq head tail head_told tail_told =>
      intro known covers
      have middle := (head_told known covers).done rfl
      have rest := tail_told _ middle
      constructor
      · exact rest.done
      · intro out silent
        simp only [meets, Bool.or_eq_false_iff] at silent
        exact rest.out out silent.2
  | seqOut head out head_told =>
      intro known covers
      constructor
      · exact fun done => absurd done out
      · intro ends silent
        simp only [meets, Bool.or_eq_false_iff] at silent
        exact (head_told known covers).out ends silent.1
  | left side side_told =>
      intro known covers
      constructor
      · exact fun done => ((side_told known covers).done done).merge_left _
      · intro out silent
        simp only [meets, Bool.or_eq_false_iff] at silent
        exact (side_told known covers).out out silent.1
  | right side side_told =>
      intro known covers
      constructor
      · exact fun done => ((side_told known covers).done done).merge_right _
      · intro out silent
        simp only [meets, Bool.or_eq_false_iff] at silent
        exact (side_told known covers).out out silent.2
  | loopNone before =>
      intro known covers
      exact ⟨fun _ => covers, fun out => absurd out (by decide)⟩
  | loopOn head on tail head_told tail_told =>
      intro known covers
      have rest := tail_told known (covers.mono head.assigned_mono)
      exact ⟨rest.done, rest.out⟩
  | loopBroke head head_told =>
      intro known covers
      exact ⟨fun _ => covers.mono head.assigned_mono, fun out => absurd out (by decide)⟩
  | loopOut head out head_told =>
      intro known covers
      constructor
      · rintro rfl
        exact absurd out (by decide)
      · exact (head_told known covers).out
  | againOnce head on head_told =>
      intro known covers
      constructor
      · intro _
        refine ⟨covers.live, fun assigned => ?_⟩
        rcases on with rfl | ⟨rfl, after_assigned⟩
        · exact ((head_told known covers).done rfl).truthful assigned
        · exact after_assigned
      · exact fun out => absurd out (by decide)
  | againOn head on tail head_told tail_told =>
      intro known covers
      have rest := tail_told known (covers.mono head.assigned_mono)
      exact ⟨rest.done, rest.out⟩
  | againBroke head allowed head_told =>
      intro known covers
      exact ⟨fun _ => ⟨covers.live, fun _ => allowed⟩, fun out => absurd out (by decide)⟩
  | againOut head out head_told =>
      intro known covers
      constructor
      · rintro rfl
        exact absurd out (by decide)
      · exact (head_told known covers).out

/-! ### The walk finds nothing else -/

/-- Whether there is nothing to do. -/
def Shape.isSkip : Shape α → Bool
  | .skip => true
  | _ => false

theorem Shape.isSkip_iff {shape : Shape α} : shape.isSkip = true ↔ shape = .skip := by
  cases shape <;> simp [isSkip]

/-- No statement stands behind one that is never done, and a loop with a first round does not have
such a statement as its body. -/
def tidy (effect : α → Effect) : Shape α → Bool
  | .skip => true
  | .simple _ => true
  | .seq first second =>
      (!neverDone effect first || second.isSkip) && tidy effect first && tidy effect second
  | .branch left right => tidy effect left && tidy effect right
  | .loop body => tidy effect body
  | .again body => !neverDone effect body && tidy effect body

/-- Whether a loop is left, or sent on, only from inside one. -/
def bound (effect : α → Effect) : Shape α → Bool
  | .skip => true
  | .simple stmt => !(effect stmt).ending.staysInLoop
  | .seq first second => bound effect first && bound effect second
  | .branch left right => bound effect left && bound effect right
  | .loop _ => true
  | .again _ => true

/-- The knowledge at the start. -/
def Known.start : Known := ⟨false, false⟩

theorem Known.eq_start {known : Known} (unassigned : known.assigned = false)
    (live : known.dead = false) : known = .start :=
  Known.ext unassigned live

/-- A branch that is not known to assign has such a side, which ends as the branch does. -/
theorem merged_unassigned {left right : Shape α}
    (unassigned : (walk effect (.branch left right) .start).assigned = false) :
    ((walk effect left .start).assigned = false ∧
        neverDone effect left = neverDone effect (.branch left right)) ∨
      ((walk effect right .start).assigned = false ∧
        neverDone effect right = neverDone effect (.branch left right)) := by
  have left_dead : (walk effect left .start).dead = neverDone effect left := by
    simp [dead_walk, Known.start]
  have right_dead : (walk effect right .start).dead = neverDone effect right := by
    simp [dead_walk, Known.start]
  rw [walk, Known.merge, left_dead, right_dead] at unassigned
  simp only [neverDone]
  cases left_never : neverDone effect left <;> cases right_never : neverDone effect right <;>
    cases left_assigned : (walk effect left .start).assigned <;> simp_all

/-- Where the walk does not know the variable assigned, a path leaves it unassigned. -/
theorem path_of_unassigned {shape : Shape α} (neat : tidy effect shape = true)
    (unassigned : (walk effect shape .start).assigned = false) :
    ∃ ending, Path effect early shape false ending false ∧
      (ending = .done ↔ neverDone effect shape = false) := by
  induction shape with
  | skip => exact ⟨.done, .skip false, by simp [neverDone]⟩
  | simple stmt =>
      have nothing : (effect stmt).assigns = false := by
        simpa [walk, Known.start] using unassigned
      refine ⟨(effect stmt).ending, ?_, by simp [neverDone]⟩
      have path : Path effect early (.simple stmt) false _ _ := .simple stmt false
      rwa [nothing] at path
  | seq first second first_path second_path =>
      simp only [tidy, Bool.and_eq_true, Bool.or_eq_true, Bool.not_eq_true', Shape.isSkip_iff]
        at neat
      obtain ⟨⟨goes_on, first_neat⟩, second_neat⟩ := neat
      have first_unassigned : (walk effect first .start).assigned = false := by
        by_contra assigned
        have still : (walk effect second (walk effect first .start)).assigned = true :=
          assigned_walk (Bool.eq_true_of_not_eq_false assigned) second
        rw [walk, still] at unassigned
        cases unassigned
      obtain ⟨middle, head, done⟩ := first_path first_neat first_unassigned
      cases never : neverDone effect first with
      | true =>
          have out : middle ≠ .done := fun is_done => by
            rw [done.mp is_done] at never
            cases never
          exact ⟨middle, .seqOut head out, by simp [neverDone, never, out]⟩
      | false =>
          have live : (walk effect first .start).dead = false := by
            simp [dead_walk, never, Known.start]
          rw [walk, Known.eq_start first_unassigned live] at unassigned
          obtain ⟨ending, tail, ends⟩ := second_path second_neat unassigned
          obtain rfl := done.mpr never
          exact ⟨ending, .seq head tail, by simpa [neverDone, never] using ends⟩
  | branch left right left_path right_path =>
      simp only [tidy, Bool.and_eq_true] at neat
      obtain ⟨unassigned, same⟩ | ⟨unassigned, same⟩ := merged_unassigned unassigned
      · obtain ⟨ending, side, ends⟩ := left_path neat.1 unassigned
        exact ⟨ending, .left side, ends.trans (by rw [same])⟩
      · obtain ⟨ending, side, ends⟩ := right_path neat.2 unassigned
        exact ⟨ending, .right side, ends.trans (by rw [same])⟩
  | loop body => exact ⟨.done, .loopNone false, by simp [neverDone]⟩
  | again body body_path =>
      simp only [tidy, Bool.and_eq_true, Bool.not_eq_true'] at neat
      obtain ⟨ending, head, done⟩ := body_path neat.2 unassigned
      obtain rfl := done.mpr neat.1
      exact ⟨.done, .againOnce head (.inl rfl), by simp [neverDone]⟩

/-- Where the walk meets an end of the routine, a path comes to it. -/
theorem path_of_meets {shape : Shape α} (neat : tidy effect shape = true)
    (met : meets effect shape .start = true) :
    ∃ ending, ending.endsRoutine = true ∧ Path effect early shape false ending false := by
  induction shape with
  | skip => cases met
  | simple stmt =>
      simp only [meets, Known.start, Bool.false_or, Bool.and_eq_true, Bool.not_eq_true'] at met
      have path : Path effect early (.simple stmt) false _ _ := .simple stmt false
      rw [met.2] at path
      exact ⟨_, met.1, path⟩
  | seq first second first_path second_path =>
      simp only [tidy, Bool.and_eq_true, Bool.or_eq_true, Bool.not_eq_true', Shape.isSkip_iff]
        at neat
      obtain ⟨⟨goes_on, first_neat⟩, second_neat⟩ := neat
      simp only [meets, Bool.or_eq_true] at met
      obtain met | met := met
      · obtain ⟨ending, out, head⟩ := first_path first_neat met
        refine ⟨ending, out, .seqOut head ?_⟩
        rintro rfl
        exact absurd out (by decide)
      · obtain goes_on | rfl := goes_on
        · have unassigned : (walk effect first .start).assigned = false := by
            by_contra assigned
            rw [meets_of_assigned (Bool.eq_true_of_not_eq_false assigned)] at met
            cases met
          have live : (walk effect first .start).dead = false := by
            simp [dead_walk, goes_on, Known.start]
          rw [Known.eq_start unassigned live] at met
          obtain ⟨middle, head, done⟩ := path_of_unassigned first_neat unassigned
          obtain ⟨ending, out, tail⟩ := second_path second_neat met
          obtain rfl := done.mpr goes_on
          exact ⟨ending, out, .seq head tail⟩
        · cases met
  | branch left right left_path right_path =>
      simp only [tidy, Bool.and_eq_true] at neat
      simp only [meets, Bool.or_eq_true] at met
      obtain met | met := met
      · obtain ⟨ending, out, side⟩ := left_path neat.1 met
        exact ⟨ending, out, .left side⟩
      · obtain ⟨ending, out, side⟩ := right_path neat.2 met
        exact ⟨ending, out, .right side⟩
  | loop body body_path =>
      obtain ⟨ending, out, head⟩ := body_path neat met
      exact ⟨ending, out, .loopOut head out⟩
  | again body body_path =>
      simp only [tidy, Bool.and_eq_true, Bool.not_eq_true'] at neat
      obtain ⟨ending, out, head⟩ := body_path neat.2 met
      exact ⟨ending, out, .againOut head out⟩

/-- A path through a statement that keeps to its own loops does not end inside a loop around it. -/
theorem Path.staysInLoop_eq_false {shape : Shape α} {before after : Bool} {ending : Ending}
    (path : Path effect early shape before ending after) (keeps : bound effect shape = true) :
    ending.staysInLoop = false := by
  induction path with
  | skip before => rfl
  | simple stmt before => simpa [bound] using keeps
  | seq head tail head_keeps tail_keeps =>
      simp only [bound, Bool.and_eq_true] at keeps
      exact tail_keeps keeps.2
  | seqOut head out head_keeps =>
      simp only [bound, Bool.and_eq_true] at keeps
      exact head_keeps keeps.1
  | left side side_keeps =>
      simp only [bound, Bool.and_eq_true] at keeps
      exact side_keeps keeps.1
  | right side side_keeps =>
      simp only [bound, Bool.and_eq_true] at keeps
      exact side_keeps keeps.2
  | loopNone before => rfl
  | loopOn head on tail head_keeps tail_keeps => exact tail_keeps rfl
  | loopBroke head head_keeps => rfl
  | @loopOut body before ending after head out head_keeps =>
      cases ending <;> first | rfl | cases out
  | againOnce head on head_keeps => rfl
  | againOn head on tail head_keeps tail_keeps => exact tail_keeps rfl
  | againBroke head allowed head_keeps => rfl
  | @againOut body before ending after head out head_keeps =>
      cases ending <;> first | rfl | cases out

/-- The walk of a routine's body reports: it does not know the variable assigned behind the body, or
met an end of the routine without it. -/
def reports (effect : α → Effect) (body : Shape α) : Bool :=
  !(walk effect body .start).assigned || meets effect body .start

/-- A path through whole rounds that leaves the variable unassigned is reported. -/
theorem reports_of_path {body : Shape α} {ending : Ending}
    (path : Path effect (· = true) body false ending false)
    (ends : ending.staysInLoop = false) : reports effect body = true := by
  have told := path.told .start ⟨rfl, fun assigned => by cases assigned⟩
  rw [reports, Bool.or_eq_true, Bool.not_eq_true']
  by_cases done : ending = .done
  · left
    by_contra assigned
    exact absurd ((told.done done).truthful (Bool.eq_true_of_not_eq_false assigned)) (by decide)
  · right
    have out : ending.endsRoutine = true := by
      cases ending <;> simp_all [Ending.endsRoutine, Ending.staysInLoop]
    by_contra silent
    exact absurd (told.out out (Bool.eq_false_of_not_eq_true silent)) (by decide)

/-- What is reported about a tidy body has a path. -/
theorem path_of_reports {body : Shape α} (neat : tidy effect body = true)
    (keeps : bound effect body = true) (reported : reports effect body = true) :
    ∃ ending, ending.staysInLoop = false ∧ Path effect early body false ending false := by
  rw [reports, Bool.or_eq_true, Bool.not_eq_true'] at reported
  obtain unassigned | met := reported
  · obtain ⟨ending, path, _⟩ := path_of_unassigned neat unassigned
    exact ⟨ending, path.staysInLoop_eq_false keeps, path⟩
  · obtain ⟨ending, _, path⟩ := path_of_meets neat met
    exact ⟨ending, path.staysInLoop_eq_false keeps, path⟩

/-! ### Statements whose first rounds are whole -/

/-- The simple statements of a statement. -/
def Shape.simples : Shape α → List α
  | .skip => []
  | .simple stmt => [stmt]
  | .seq first second => first.simples ++ second.simples
  | .branch left right => left.simples ++ right.simples
  | .loop body => body.simples
  | .again body => body.simples

/-- No loop with a first round is left, or sent on, from inside its body. -/
def wholeRounds (effect : α → Effect) : Shape α → Bool
  | .skip => true
  | .simple _ => true
  | .seq first second => wholeRounds effect first && wholeRounds effect second
  | .branch left right => wholeRounds effect left && wholeRounds effect right
  | .loop body => wholeRounds effect body
  | .again body => bound effect body && wholeRounds effect body

/-- A path that leaves the variable unassigned is one for every view of the simple statements under
which they end alike and assign no more. -/
theorem Path.of_wholeRounds {seen : α → Effect} {allowed : Bool → Prop} {shape : Shape α}
    {before after : Bool} {ending : Ending} (path : Path effect early shape before ending after)
    (rounds : wholeRounds effect shape = true)
    (alike : ∀ stmt ∈ shape.simples, (seen stmt).ending = (effect stmt).ending ∧
      ((seen stmt).assigns = true → (effect stmt).assigns = true))
    (unset : after = false) : Path seen allowed shape before ending after := by
  induction path with
  | skip before => exact .skip before
  | simple stmt before =>
      obtain ⟨same, fewer⟩ := alike stmt (by simp [Shape.simples])
      simp only [Bool.or_eq_false_iff] at unset
      obtain ⟨rfl, nothing⟩ := unset
      have seen_nothing : (seen stmt).assigns = false := by
        by_contra assigns
        rw [fewer (Bool.eq_true_of_not_eq_false assigns)] at nothing
        cases nothing
      have path : Path seen allowed (.simple stmt) false _ _ := .simple stmt false
      rw [same, seen_nothing] at path
      rwa [nothing]
  | @seq first second before middle ending after head tail head_path tail_path =>
      simp only [wholeRounds, Bool.and_eq_true] at rounds
      have middle_unset : middle = false := Bool.eq_false_of_not_eq_true fun assigned => by
        rw [tail.assigned_mono assigned] at unset
        cases unset
      apply Path.seq
      · exact head_path rounds.1 (fun stmt mem => alike stmt (List.mem_append_left _ mem))
          middle_unset
      · exact tail_path rounds.2 (fun stmt mem => alike stmt (List.mem_append_right _ mem)) unset
  | seqOut head out head_path =>
      simp only [wholeRounds, Bool.and_eq_true] at rounds
      exact .seqOut (head_path rounds.1 (fun stmt mem => alike stmt (List.mem_append_left _ mem))
        unset) out
  | left side side_path =>
      simp only [wholeRounds, Bool.and_eq_true] at rounds
      exact .left (side_path rounds.1 (fun stmt mem => alike stmt (List.mem_append_left _ mem))
        unset)
  | right side side_path =>
      simp only [wholeRounds, Bool.and_eq_true] at rounds
      exact .right (side_path rounds.2 (fun stmt mem => alike stmt (List.mem_append_right _ mem))
        unset)
  | loopNone before => exact .loopNone before
  | @loopOn body before round middle ending after head on tail head_path tail_path =>
      have middle_unset : middle = false := Bool.eq_false_of_not_eq_true fun assigned => by
        rw [tail.assigned_mono assigned] at unset
        cases unset
      exact .loopOn (head_path rounds alike middle_unset) on (tail_path rounds alike unset)
  | loopBroke head head_path => exact .loopBroke (head_path rounds alike unset)
  | loopOut head out head_path => exact .loopOut (head_path rounds alike unset) out
  | againOnce head on head_path =>
      simp only [wholeRounds, Bool.and_eq_true] at rounds
      obtain rfl | ⟨rfl, _⟩ := on
      · exact .againOnce (head_path rounds.2 alike unset) (.inl rfl)
      · exact absurd (head.staysInLoop_eq_false rounds.1) (by decide)
  | @againOn body before round middle ending after head on tail head_path tail_path =>
      have body_rounds := rounds
      simp only [wholeRounds, Bool.and_eq_true] at body_rounds
      have middle_unset : middle = false := Bool.eq_false_of_not_eq_true fun assigned => by
        rw [tail.assigned_mono assigned] at unset
        cases unset
      obtain rfl | ⟨rfl, _⟩ := on
      · exact .againOn (head_path body_rounds.2 alike middle_unset) (.inl rfl)
          (tail_path rounds alike unset)
      · exact absurd (head.staysInLoop_eq_false body_rounds.1) (by decide)
  | againBroke head allowed head_path =>
      simp only [wholeRounds, Bool.and_eq_true] at rounds
      exact absurd (head.staysInLoop_eq_false rounds.1) (by decide)
  | againOut head out head_path =>
      simp only [wholeRounds, Bool.and_eq_true] at rounds
      exact .againOut (head_path rounds.2 alike unset) out

end Structured
