import Plang.Frontend.Publication

/-!
# All or nothing

A compilation that fails should leave the interface files as they were, and one that succeeds should
leave the interface of each module.  What is put into place, what is removed again, and exactly when
that is all or nothing.
-/

namespace Plang.Frontend

open FileMap

def IsInterfaceFile (path : Text) : Prop :=
  ∃ stem, path = stem ++ ".pmi".toList ∨ path = stem ++ ".tui".toList

/-- What is to be in an interface file: its path and its text. -/
abbrev Entry := Text × Text

variable {β : Type*}

/-! ### What is put into place -/

section Modules

variable (writers : Writers β) (inputFile : Text) (modules : List (ModuleNode β))

/-- The interface of a module that has an implementation. -/
def interfaceOf (mod : ModuleNode β) : Option Entry :=
  if mod.isInterface || mod.body.isNone then none
  else
    let text := (writers.pmi mod (ifaceOf modules mod)).text
    if text.isEmpty then none else some (pmiPath inputFile mod.name, text)

/-- A declaration of the module cannot be written. -/
def reports (mod : ModuleNode β) : Bool :=
  !(mod.isInterface || mod.body.isNone) && (writers.pmi mod (ifaceOf modules mod)).errors ≠ 0

/-- Every step of the publication succeeds. -/
def Answers.places (answers : Answers) : Bool :=
  answers.creates && answers.writes && answers.renames

/-- The file system refuses the file. -/
def stops (attempt : Attempt β) : Bool :=
  !reports writers modules attempt.mod &&
    (interfaceOf writers inputFile modules attempt.mod).isSome && !attempt.answers.places

/-- The interfaces that are put into place, up to the first that the file system refuses. -/
def placed : List (Attempt β) → List Entry
  | [] => []
  | attempt :: rest =>
      if reports writers modules attempt.mod then placed rest
      else
        match interfaceOf writers inputFile modules attempt.mod with
        | none => placed rest
        | some entry => if attempt.answers.places then entry :: placed rest else []

end Modules

namespace Course

variable (course : Course β) (request : Request)

/-- The program that has been parsed and checked, and is to be published. -/
def target : Option (ProgramNode β) :=
  if request.isDirectory || !course.scans || request.inspects || !course.checks then none
  else course.parsed

def unitEntry (unit : UnitNode β) : Entry :=
  (tuiPath request.sourceName unit.name, course.writers.tui unit)

/-- The interfaces that a program or a unit should have. -/
def interfaces (program : ProgramNode β) : List Entry :=
  match program.bareUnit with
  | some unit => if (course.writers.tui unit).isEmpty then [] else [course.unitEntry request unit]
  | none =>
      program.ownedModules.filterMap
        (interfaceOf course.writers request.sourceName program.ownedModules)

/-- Those that are put into place. -/
def placed (program : ProgramNode β) : List Entry :=
  match program.bareUnit with
  | some _ => if (course.answers 0).places then course.interfaces request program else []
  | none =>
      Frontend.placed course.writers request.sourceName program.ownedModules
        (course.attempts program)

/-- What has been put into place is removed again: for modules when one of them is refused or cannot
be written, for a unit when the code for it cannot be generated. -/
def undone (program : ProgramNode β) : Bool :=
  match program.bareUnit with
  | some _ => !course.emits
  | none =>
      (course.attempts program).any fun attempt =>
        stops course.writers request.sourceName program.ownedModules attempt ||
          reports course.writers program.ownedModules attempt.mod

end Course

/-! ### The purpose and the condition -/

/-- A failure leaves the interface files alone, and so does a request that compiles nothing; success
leaves the interface of each module. -/
structure AllOrNothing (request : Request) (course : Course β) (disk : Disk) : Prop where
  nothing : (frontendPC1Main request course disk).2 = false ∨ request.inspects = true →
    AgreeOn IsInterfaceFile (frontendPC1Main request course disk).1 disk
  all : (frontendPC1Main request course disk).2 = true → request.inspects = false →
    ∃ program, course.parsed = some program ∧ ∀ entry ∈ course.interfaces request program,
      (frontendPC1Main request course disk).1 entry.1 = some entry.2

/-- Undoing removes: what is undone has to be new, and what fails without being undone has to be
there already. -/
def Clean (request : Request) (course : Course β) (disk : Disk) : Prop :=
  ∀ program, course.target request = some program →
    ∀ entry ∈ course.placed request program,
      if course.undone request program then
        disk entry.1 =
          if course.removes entry.1 = true then none
          else latest (course.placed request program) entry.1
      else if course.emits && course.delivers then
        latest (course.placed request program) entry.1 = some entry.2
      else disk entry.1 = latest (course.placed request program) entry.1

/-! ### One file -/

theorem not_isInterfaceFile_tmpPath (path : Text) (answers : Answers) :
    ¬IsInterfaceFile (tmpPath path answers) := by
  have ends : (tmpPath path answers).getLast? = some 'p' := by
    rw [tmpPath, List.getLast?_append_of_ne_nil _ (by decide)]
    rfl
  rintro ⟨stem, same | same⟩
  · rw [same] at ends
    simp at ends
  · rw [same] at ends
    simp at ends

theorem isInterfaceFile_pmiPath (inputFile name : Text) :
    IsInterfaceFile (pmiPath inputFile name) := ⟨_, .inl rfl⟩

theorem isInterfaceFile_tuiPath (inputFile name : Text) :
    IsInterfaceFile (tuiPath inputFile name) := ⟨_, .inr rfl⟩

section Publish

variable {disk base : Disk}

theorem removeTemp_agree (agree : AgreeOn IsInterfaceFile disk base) (answers : Answers)
    (path : Text) : AgreeOn IsInterfaceFile (removeTemp answers path disk) base := by
  rw [removeTemp]
  split
  · exact agree.erase_left (not_isInterfaceFile_tmpPath path answers)
  · exact agree

theorem publish_snd (answers : Answers) (path text : Text) (disk : Disk) :
    (publish answers path text disk).2 = answers.places := by
  rw [publish, Answers.places]
  cases answers.creates <;> cases answers.writes <;> cases answers.renames <;> rfl

/-- A file that is refused leaves the interface files alone. -/
theorem publish_agree_of_refused (agree : AgreeOn IsInterfaceFile disk base) {answers : Answers}
    (refused : answers.places = false) (path text : Text) :
    AgreeOn IsInterfaceFile (publish answers path text disk).1 base := by
  have hidden := not_isInterfaceFile_tmpPath path answers
  rw [publish]
  split
  · exact agree
  · split
    · exact removeTemp_agree (agree.put_left hidden _) answers path
    · split
      · exact removeTemp_agree (agree.put_left hidden _) answers path
      · simp_all [Answers.places]

theorem publish_agree_of_places (agree : AgreeOn IsInterfaceFile disk base) {answers : Answers}
    (places : answers.places = true) (path text : Text) :
    AgreeOn IsInterfaceFile (publish answers path text disk).1 (put base path text) := by
  have hidden := not_isInterfaceFile_tmpPath path answers
  obtain ⟨⟨creates, writes⟩, renames⟩ : (answers.creates = true ∧ answers.writes = true) ∧
      answers.renames = true := by
    rw [Answers.places, Bool.and_eq_true, Bool.and_eq_true] at places
    exact places
  rw [publish, creates, writes, renames]
  exact ((agree.put_left hidden text).erase_left hidden).put path text

/-- A file that is put into place comes after those that were. -/
theorem publish_agree_putAll {entries : List Entry}
    (agree : AgreeOn IsInterfaceFile disk (putAll base entries)) {answers : Answers}
    (places : answers.places = true) (path text : Text) :
    AgreeOn IsInterfaceFile (publish answers path text disk).1
      (putAll base (entries ++ [(path, text)])) := by
  rw [putAll_append_singleton]
  exact publish_agree_of_places agree places path text

end Publish

/-! ### The modules of a compilation -/

section Loop

variable {writers : Writers β} {inputFile : Text} {removes : Text → Bool}
  {modules : List (ModuleNode β)}

/-- Whether the publication of some modules fails. -/
def fails (writers : Writers β) (inputFile : Text) (modules : List (ModuleNode β))
    (attempts : List (Attempt β)) : Bool :=
  attempts.any fun attempt =>
    stops writers inputFile modules attempt || reports writers modules attempt.mod

/-- The files after some interfaces have been put into place, and removed again or not. -/
def outcome (removes : Text → Bool) (base : Disk) (entries : List Entry) (failed : Bool) : Disk :=
  if failed then removeAll removes (putAll base entries) (entries.map Prod.fst)
  else putAll base entries

theorem writePMILoop_spec (attempts : List (Attempt β)) {disk base : Disk} {entries : List Entry}
    (agree : AgreeOn IsInterfaceFile disk (putAll base entries)) (hasErrors : Bool) :
    (writePMILoop writers inputFile removes modules attempts disk (entries.map Prod.fst)
        hasErrors).2 = !(hasErrors || fails writers inputFile modules attempts) ∧
      AgreeOn IsInterfaceFile
        (writePMILoop writers inputFile removes modules attempts disk (entries.map Prod.fst)
          hasErrors).1
        (outcome removes base (entries ++ placed writers inputFile modules attempts)
          (hasErrors || fails writers inputFile modules attempts)) := by
  induction attempts generalizing disk entries hasErrors with
  | nil =>
      rw [writePMILoop, fails, List.any_nil, Bool.or_false, placed, List.append_nil, outcome]
      cases hasErrors with
      | false => exact ⟨rfl, agree⟩
      | true => exact ⟨rfl, agree.removeAll removes _⟩
  | cons attempt rest induction =>
      have fails_cons : fails writers inputFile modules (attempt :: rest) =
          (stops writers inputFile modules attempt || reports writers modules attempt.mod ||
            fails writers inputFile modules rest) := rfl
      rw [writePMILoop, fails_cons, placed, stops, reports, interfaceOf]
      by_cases skipped : (attempt.mod.isInterface || attempt.mod.body.isNone) = true
      · simpa [skipped] using induction agree hasErrors
      by_cases errors : (writers.pmi attempt.mod (ifaceOf modules attempt.mod)).errors = 0
      · by_cases empty :
            (writers.pmi attempt.mod (ifaceOf modules attempt.mod)).text.isEmpty = true
        · simpa [skipped, errors, empty] using induction agree hasErrors
        · have second := publish_snd attempt.answers (pmiPath inputFile attempt.mod.name)
            (writers.pmi attempt.mod (ifaceOf modules attempt.mod)).text disk
          by_cases places : attempt.answers.places = true
          · have next := induction (publish_agree_putAll agree places
              (pmiPath inputFile attempt.mod.name)
              (writers.pmi attempt.mod (ifaceOf modules attempt.mod)).text) hasErrors
            simpa [skipped, errors, empty, places, second] using next
          · have refused : attempt.answers.places = false := by simpa using places
            have kept := (publish_agree_of_refused agree refused
              (pmiPath inputFile attempt.mod.name)
              (writers.pmi attempt.mod (ifaceOf modules attempt.mod)).text).removeAll removes
                (entries.map Prod.fst)
            simpa [skipped, errors, empty, refused, second, outcome, cleanupPublished] using kept
      · simpa [skipped, errors] using induction agree true

theorem isInterfaceFile_of_interfaceOf {mod : ModuleNode β} {entry : Entry}
    (found : interfaceOf writers inputFile modules mod = some entry) : IsInterfaceFile entry.1 := by
  rw [interfaceOf] at found
  split at found
  · cases found
  · dsimp only at found
    split at found
    · cases found
    · obtain rfl := Option.some.inj found
      exact isInterfaceFile_pmiPath _ _

theorem placed_within (attempts : List (Attempt β)) :
    ∀ entry ∈ placed writers inputFile modules attempts, IsInterfaceFile entry.1 := by
  induction attempts with
  | nil =>
      intro entry impossible
      cases impossible
  | cons attempt rest induction =>
      rw [placed]
      split
      · exact induction
      · split
        · exact induction
        · rename_i entry found
          split
          · exact List.forall_mem_cons.mpr ⟨isInterfaceFile_of_interfaceOf found, induction⟩
          · intro other impossible
            cases impossible

/-- Where nothing fails, the interface of every module is put into place. -/
theorem placed_of_not_fails {attempts : List (Attempt β)}
    (succeeds : fails writers inputFile modules attempts = false) :
    placed writers inputFile modules attempts =
      (attempts.map Attempt.mod).filterMap (interfaceOf writers inputFile modules) := by
  induction attempts with
  | nil => rfl
  | cons attempt rest induction =>
      rw [fails, List.any_cons, Bool.or_eq_false_iff, Bool.or_eq_false_iff] at succeeds
      obtain ⟨⟨runs, writable⟩, later⟩ := succeeds
      rw [placed, writable, if_neg Bool.false_ne_true, List.map_cons, List.filterMap_cons,
        induction later]
      cases found : interfaceOf writers inputFile modules attempt.mod with
      | none => rfl
      | some entry =>
          have places : attempt.answers.places = true := by
            rw [stops, writable, found] at runs
            simpa using runs
          simp only [places, if_true]

theorem placed_subset (attempts : List (Attempt β)) :
    placed writers inputFile modules attempts ⊆
      (attempts.map Attempt.mod).filterMap (interfaceOf writers inputFile modules) := by
  induction attempts with
  | nil => exact List.Subset.refl _
  | cons attempt rest induction =>
      intro entry occurs
      rw [List.map_cons, List.filterMap_cons]
      rw [placed] at occurs
      cases found : interfaceOf writers inputFile modules attempt.mod with
      | none =>
          rw [found] at occurs
          exact induction (by simpa using occurs)
      | some own =>
          rw [found] at occurs
          rw [List.mem_cons]
          split at occurs
          · exact .inr (induction occurs)
          · simp only at occurs
            split at occurs
            · exact (List.mem_cons.mp occurs).imp_right fun later => induction later
            · cases occurs

end Loop

/-! ### A whole compilation -/

namespace Course

variable {course : Course β} {request : Request} {disk : Disk} {program : ProgramNode β}

theorem map_mod_attempts (course : Course β) (program : ProgramNode β) :
    (course.attempts program).map Attempt.mod = program.ownedModules := by
  rw [attempts, List.map_map]
  exact List.zipIdx_map_fst 0 program.ownedModules

theorem placed_isInterfaceFile (course : Course β) (request : Request) (program : ProgramNode β) :
    ∀ entry ∈ course.placed request program, IsInterfaceFile entry.1 := by
  rw [Course.placed]
  split
  · rename_i unit found
    intro entry occurs
    split at occurs
    · rw [interfaces, found] at occurs
      simp only at occurs
      split at occurs
      · cases occurs
      · obtain rfl := List.mem_singleton.mp occurs
        exact isInterfaceFile_tuiPath _ _
    · cases occurs
  · exact placed_within _

theorem placed_subset_interfaces (course : Course β) (request : Request)
    (program : ProgramNode β) :
    course.placed request program ⊆ course.interfaces request program := by
  rw [Course.placed]
  split
  · split
    · exact List.Subset.refl _
    · exact List.nil_subset _
  · rename_i modules
    rw [interfaces, modules]
    have within := @placed_subset _ course.writers request.sourceName program.ownedModules
      (course.attempts program)
    rw [map_mod_attempts] at within
    exact within

/-- Whether everything succeeds from the publication on. -/
def succeeds (course : Course β) (request : Request) (program : ProgramNode β) : Bool :=
  !course.undone request program && course.emits && course.delivers &&
    match program.bareUnit with
    | some unit => (course.writers.tui unit).isEmpty || (course.answers 0).places
    | none => true

/-- The publication is reached, or nothing is written. -/
theorem target_eq_none (none : course.target request = none) :
    request.isDirectory = true ∨ course.scans = false ∨ request.inspects = true ∨
      course.checks = false ∨ course.parsed = Option.none := by
  rw [target] at none
  split at none
  · rename_i early
    simp only [Bool.or_eq_true, Bool.not_eq_true'] at early
    tauto
  · exact .inr (.inr (.inr (.inr none)))

theorem target_eq_some (found : course.target request = some program) :
    request.isDirectory = false ∧ course.scans = true ∧ request.inspects = false ∧
      course.checks = true ∧ course.parsed = some program := by
  rw [target] at found
  split at found
  · cases found
  · rename_i reached
    simp only [Bool.or_eq_true, Bool.not_eq_true', not_or, Bool.not_eq_true, Bool.not_eq_false]
      at reached
    exact ⟨reached.1.1.1, reached.1.1.2, reached.1.2, reached.2, found⟩

/-- Before the publication nothing is written. -/
theorem frontend_of_no_target (none : course.target request = none) :
    (frontendPC1Main request course disk).1 = disk ∧
      ((frontendPC1Main request course disk).2 = true → request.inspects = true) := by
  have early := target_eq_none none
  simp only [frontendPC1Main, compileRequest, compileUnit, compileProgram]
  split
  · simp
  · split
    · simp
    · split
      · simp_all [Request.inspects]
      · split
        · simp
        · split
          · simp_all [Request.inspects]
          · split
            · split
              · simp
              · split
                · simp_all [Request.inspects]
                · simp_all [Request.inspects]
            · split
              · simp
              · split
                · simp_all [Request.inspects]
                · simp_all [Request.inspects]

/-- From the publication on: what is in the interface files, and whether the command succeeds. -/
theorem frontend_of_program (found : course.target request = some program)
    (modules : program.bareUnit = none) :
    AgreeOn IsInterfaceFile (frontendPC1Main request course disk).1
        (outcome course.removes disk (course.placed request program)
          (course.undone request program)) ∧
      (frontendPC1Main request course disk).2 = course.succeeds request program := by
  obtain ⟨file, scanned, compiles, checked, parsed⟩ := target_eq_some found
  simp only [Request.inspects, Bool.or_eq_false_iff] at compiles
  obtain ⟨second, agree⟩ := @writePMILoop_spec _ course.writers request.sourceName course.removes
    program.ownedModules (course.attempts program) disk disk [] (AgreeOn.refl disk) false
  have undone : course.undone request program =
      fails course.writers request.sourceName program.ownedModules (course.attempts program) := by
    rw [undone, modules, fails]
  rw [Bool.false_or, ← undone, List.nil_append] at agree
  rw [Bool.false_or, ← undone] at second
  rw [succeeds, Course.placed, modules]
  simp only [frontendPC1Main, compileRequest, compileProgram, writePMIFiles, map_mod_attempts, file,
    scanned, compiles, checked, parsed, modules]
  rw [List.map_nil] at second agree
  cases failed : course.undone request program with
  | true =>
      rw [failed] at second agree
      simp [second, agree]
  | false =>
      rw [failed] at second agree
      simp [second, agree]

theorem frontend_of_unit (found : course.target request = some program) {unit : UnitNode β}
    (bare : program.bareUnit = some unit) :
    AgreeOn IsInterfaceFile (frontendPC1Main request course disk).1
        (outcome course.removes disk (course.placed request program)
          (course.undone request program)) ∧
      (frontendPC1Main request course disk).2 = course.succeeds request program := by
  obtain ⟨file, scanned, compiles, checked, parsed⟩ := target_eq_some found
  simp only [Request.inspects, Bool.or_eq_false_iff] at compiles
  have unchanged : AgreeOn IsInterfaceFile disk disk := AgreeOn.refl disk
  have second := publish_snd (course.answers 0) (tuiPath request.sourceName unit.name)
    (course.writers.tui unit) disk
  rw [succeeds, Course.placed, interfaces, undone, bare]
  simp only [frontendPC1Main, compileRequest, compileUnit, writeTUIFile, file, scanned, compiles,
    checked, parsed, bare, second]
  by_cases empty : (course.writers.tui unit).isEmpty = true
  · cases emits : course.emits <;>
      simpa [empty, outcome, cleanupPublished, removeAll, putAll] using unchanged
  · cases places : (course.answers 0).places with
    | false =>
        have kept := publish_agree_of_refused unchanged places
          (tuiPath request.sourceName unit.name) (course.writers.tui unit)
        cases emits : course.emits <;>
          simpa [empty, outcome, removeAll, putAll] using kept
    | true =>
        have new := publish_agree_of_places unchanged places
          (tuiPath request.sourceName unit.name) (course.writers.tui unit)
        cases emits : course.emits with
        | false =>
            simpa [empty, outcome, cleanupPublished, putAll, unitEntry] using
              new.removeAll course.removes [tuiPath request.sourceName unit.name]
        | true => simpa [empty, outcome, putAll, unitEntry] using new

theorem frontend_of_target (found : course.target request = some program) :
    AgreeOn IsInterfaceFile (frontendPC1Main request course disk).1
        (outcome course.removes disk (course.placed request program)
          (course.undone request program)) ∧
      (frontendPC1Main request course disk).2 = course.succeeds request program := by
  cases kind : program.bareUnit with
  | none => exact frontend_of_program found kind
  | some unit => exact frontend_of_unit found kind

/-- A compilation that succeeds has put every interface into place. -/
theorem placed_of_succeeds (success : course.succeeds request program = true) :
    course.placed request program = course.interfaces request program ∧
      course.undone request program = false ∧ course.emits = true ∧ course.delivers = true := by
  rw [succeeds] at success
  simp only [Bool.and_eq_true, Bool.not_eq_true'] at success
  obtain ⟨⟨⟨kept, emits⟩, delivers⟩, refused⟩ := success
  refine ⟨?_, kept, emits, delivers⟩
  rw [Course.placed]
  cases kind : program.bareUnit with
  | none =>
      rw [undone, kind] at kept
      rw [interfaces, kind]
      have whole := placed_of_not_fails kept
      rw [map_mod_attempts] at whole
      exact whole
  | some unit =>
      rw [kind] at refused
      simp only [Bool.or_eq_true] at refused
      rcases refused with empty | places
      · simp [interfaces, kind, empty]
      · simp [places]

theorem succeeds_iff_of_placed {entry : Entry} (occurs : entry ∈ course.placed request program)
    (kept : course.undone request program = false) :
    course.succeeds request program = true ↔ (course.emits && course.delivers) = true := by
  have granted : (match program.bareUnit with
      | some unit => (course.writers.tui unit).isEmpty || (course.answers 0).places
      | none => true) = true := by
    rw [Course.placed] at occurs
    cases kind : program.bareUnit with
    | none => rfl
    | some unit =>
        rw [kind] at occurs
        simp only at occurs
        split at occurs
        · rename_i places
          simp [places]
        · cases occurs
  rw [succeeds, kept, granted, Bool.and_true, Bool.not_false, Bool.true_and]

end Course

section Iff

variable {request : Request} {course : Course β} {disk : Disk}

theorem clean_of_allOrNothing (whole : AllOrNothing request course disk) :
    Clean request course disk := by
  intro program found entry occurs
  obtain ⟨agree, exits⟩ := @Course.frontend_of_target _ course request disk program found
  have within := course.placed_isInterfaceFile request program
  obtain ⟨_, _, compiles, _, parsed⟩ := Course.target_eq_some found
  cases undone : course.undone request program with
  | true =>
      have failed : (frontendPC1Main request course disk).2 = false := by
        rw [exits, Course.succeeds, undone]
        rfl
      rw [undone, outcome, if_pos rfl] at agree
      have same : AgreeOn IsInterfaceFile _ disk :=
        fun key holds => (agree key holds).symm.trans (whole.nothing (.inl failed) key holds)
      exact (removeAll_putAll_agree_iff within).mp same entry occurs
  | false =>
      have exit_iff := Course.succeeds_iff_of_placed occurs undone
      rw [undone, outcome, if_neg Bool.false_ne_true] at agree
      rw [if_neg Bool.false_ne_true]
      split
      · rename_i ends
        obtain ⟨_, same, holds⟩ := whole.all (by rw [exits, exit_iff, ends]) compiles
        obtain rfl := Option.some.inj (parsed.symm.trans same)
        have written := holds entry (Course.placed_subset_interfaces _ _ _ occurs)
        rw [agree entry.1 (within entry occurs),
          putAll_of_mem disk (List.mem_map_of_mem occurs)] at written
        exact written
      · rename_i ends
        have failed : (frontendPC1Main request course disk).2 = false := by
          rw [exits, ← Bool.not_eq_true, exit_iff]
          exact ends
        have same : AgreeOn IsInterfaceFile _ disk :=
          fun key holds => (agree key holds).symm.trans (whole.nothing (.inl failed) key holds)
        exact (putAll_agree_iff within).mp same entry occurs

theorem nothing_of_clean (clean : Clean request course disk)
    (failed : (frontendPC1Main request course disk).2 = false ∨ request.inspects = true) :
    AgreeOn IsInterfaceFile (frontendPC1Main request course disk).1 disk := by
  cases found : course.target request with
  | none =>
      rw [(Course.frontend_of_no_target found).1]
      exact AgreeOn.refl disk
  | some program =>
      obtain ⟨agree, exits⟩ := @Course.frontend_of_target _ course request disk program found
      have within := course.placed_isInterfaceFile request program
      obtain ⟨_, _, compiles, _, _⟩ := Course.target_eq_some found
      have failed : course.succeeds request program = false := by
        rw [compiles] at failed
        simpa [exits] using failed
      have clean := clean program found
      apply agree.trans
      cases undone : course.undone request program with
      | true =>
          rw [undone] at clean
          rw [outcome, if_pos rfl]
          exact (removeAll_putAll_agree_iff within).mpr clean
      | false =>
          rw [undone] at clean
          rw [outcome, if_neg Bool.false_ne_true]
          apply (putAll_agree_iff within).mpr
          intro entry occurs
          have before := clean entry occurs
          have ends : ¬(course.emits && course.delivers) = true := by
            rw [← Course.succeeds_iff_of_placed occurs undone, failed]
            exact Bool.false_ne_true
          rw [if_neg Bool.false_ne_true, if_neg ends] at before
          exact before

theorem all_of_clean (clean : Clean request course disk)
    (success : (frontendPC1Main request course disk).2 = true)
    (compiles : request.inspects = false) :
    ∃ program, course.parsed = some program ∧ ∀ entry ∈ course.interfaces request program,
      (frontendPC1Main request course disk).1 entry.1 = some entry.2 := by
  cases found : course.target request with
  | none =>
      rw [(Course.frontend_of_no_target found).2 success] at compiles
      cases compiles
  | some program =>
      obtain ⟨agree, exits⟩ := @Course.frontend_of_target _ course request disk program found
      have within := course.placed_isInterfaceFile request program
      obtain ⟨_, _, _, _, parsed⟩ := Course.target_eq_some found
      rw [exits] at success
      obtain ⟨whole, kept, emits, delivers⟩ := Course.placed_of_succeeds success
      have clean := clean program found
      refine ⟨program, parsed, ?_⟩
      rw [← whole]
      intro entry occurs
      rw [kept, outcome, if_neg Bool.false_ne_true] at agree
      have last := clean entry occurs
      rw [kept, emits, delivers] at last
      rw [agree entry.1 (within entry occurs), putAll_of_mem disk (List.mem_map_of_mem occurs)]
      exact last

end Iff

/-- A compilation is all or nothing exactly when what it undoes was new, and what it does not undo
was there already. -/
theorem allOrNothing_iff_clean (request : Request) (course : Course β) (disk : Disk) :
    AllOrNothing request course disk ↔ Clean request course disk :=
  ⟨clean_of_allOrNothing, fun clean => ⟨nothing_of_clean clean, all_of_clean clean⟩⟩

/-- A module is compiled again, and code generation fails: its interface has been replaced. -/
def recompiled : Course Unit where
  scans := true
  parsed := some ⟨none, [⟨"m".toList, false, some ()⟩]⟩
  quiet := true
  checks := true
  emits := false
  writers := ⟨fun _ _ => ⟨"new".toList, 0⟩, fun _ => []⟩
  answers := fun _ => ⟨"1".toList, true, true, [], true, true⟩
  removes := fun _ => true
  delivers := true

theorem recompiled_not_allOrNothing :
    ¬AllOrNothing ⟨"m.pas".toList, false, false, false, false, false⟩ recompiled
      (put (fun _ => none) "./m.pmi".toList "old".toList) := by
  intro whole
  have path : IsInterfaceFile "./m.pmi".toList := ⟨"./m".toList, .inl rfl⟩
  have same := whole.nothing (.inl rfl) "./m.pmi".toList path
  exact absurd same (by decide +kernel)

end Plang.Frontend
