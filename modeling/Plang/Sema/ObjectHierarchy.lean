import Plang.Library.Runs
import Plang.Library.VirtualTables
import Plang.Sema.ObjectTypes

/-!
# Object hierarchies

What resolving a declaration keeps of its ancestor: the fields in front, the slots of the virtual
methods at their indices, each held by its last override, and so the offsets of the fields and of
the pointer to the table.
-/

namespace Plang.Sema

open StructLayout VirtualTables

variable {σ : Type*} {sameMethodSignature : σ → σ → Bool} {currentUnit declName : Text}
  {parents : Chain σ} {record : TypeRecord σ}

/-! ### Levels of methods -/

/-- The methods of a level by their names: a virtual method has a slot. -/
def TypeRecord.level (record : TypeRecord σ) : Level Text (Text × Text) :=
  ⟨(record.name, record.declaringModule),
    fun lowerName => (record.methodNamed lowerName).map Method.vmtSlot⟩

def levels (chain : Chain σ) : List (Level Text (Text × Text)) := chain.map TypeRecord.level

@[simp] theorem levels_nil : levels ([] : Chain σ) = [] := rfl

@[simp] theorem levels_cons (record : TypeRecord σ) (parents : Chain σ) :
    levels (record :: parents) = record.level :: levels parents := rfl

@[simp] theorem inheritedSlots_cons (record : TypeRecord σ) (parents : Chain σ) :
    inheritedSlots (record :: parents) = record.vmtSlots := rfl

def VmtSlotEntry.holder (entry : VmtSlotEntry) : Text × Text :=
  (entry.implementingType, entry.declaringModule)

/-- The nearest declaration of a name is the method found in the chain. -/
theorem nearest_levels (chain : Chain σ) (lowerName : Text) :
    nearest (levels chain) lowerName = (findMethodInChain chain lowerName).map Method.vmtSlot := by
  induction chain with
  | nil => rfl
  | cons record ancestors induction =>
      rw [levels_cons, nearest, findMethodInChain, induction, Option.map_or]
      rfl

/-- A method found in a chain is a method of a record of it, and has the name. -/
theorem findMethodInChain_mem {chain : Chain σ} {lowerName : Text} {method : Method σ}
    (found : findMethodInChain chain lowerName = some method) :
    ∃ record ∈ chain, method ∈ record.objectMethods := by
  induction chain with
  | nil => cases found
  | cons record ancestors induction =>
      rw [findMethodInChain] at found
      cases own : record.methodNamed lowerName with
      | none =>
          rw [own, Option.none_or] at found
          obtain ⟨holder, occurs, declared⟩ := induction found
          exact ⟨holder, List.mem_cons_of_mem _ occurs, declared⟩
      | some first =>
          rw [own, Option.some_or] at found
          obtain rfl := Option.some.inj found
          exact ⟨record, List.mem_cons_self, List.mem_of_find?_eq_some own⟩

/-- The table of a chain: every entry is held under its name by the level it names, a name whose
nearest declaration is virtual has the entry of its slot, and slots are given to virtual methods. -/
structure Tabled (chain : Chain σ) : Prop where
  held : ∀ slot entry, (inheritedSlots chain)[slot]? = some entry →
    ∃ open_, Held (levels chain) (toLower entry.methodName) slot entry.holder open_
  reached : ∀ lowerName slot, nearest (levels chain) lowerName = some (some slot) →
    ∃ entry, (inheritedSlots chain)[slot]? = some entry ∧ toLower entry.methodName = lowerName ∧
      Held (levels chain) lowerName slot entry.holder true
  virtual : ∀ record ∈ chain, ∀ method ∈ record.objectMethods,
    method.isVirtual = method.vmtSlot.isSome

theorem tabled_nil : Tabled ([] : Chain σ) where
  held := by
    intro slot entry impossible
    simp [inheritedSlots] at impossible
  reached := by
    intro lowerName slot impossible
    simp [nearest] at impossible
  virtual := by simp

namespace Tabled

/-- A virtual method found in the chain has the entry of its slot. -/
theorem slot_of_found {chain : Chain σ} (tabled : Tabled chain) {lowerName : Text}
    {method : Method σ} (found : findMethodInChain chain lowerName = some method)
    (is_virtual : method.isVirtual = true) :
    ∃ slot entry, method.vmtSlot = some slot ∧ (inheritedSlots chain)[slot]? = some entry ∧
      toLower entry.methodName = lowerName ∧
      Held (levels chain) lowerName slot entry.holder true := by
  obtain ⟨record, occurs, declared⟩ := findMethodInChain_mem found
  rw [tabled.virtual record occurs method declared] at is_virtual
  obtain ⟨slot, assigned⟩ := Option.isSome_iff_exists.mp is_virtual
  have near : nearest (levels chain) lowerName = some (some slot) := by
    rw [nearest_levels, found, Option.map_some, assigned]
  obtain ⟨entry, at_slot, named, held⟩ := tabled.reached lowerName slot near
  exact ⟨slot, entry, assigned, at_slot, named, held⟩

/-- A level that declares nothing keeps the table of its ancestors. -/
theorem seed (tabled : Tabled parents) :
    Tabled ((Sema.seed currentUnit declName parents).record :: parents) := by
  have silent : ∀ lowerName,
      (Sema.seed currentUnit declName parents).record.level.declares lowerName = none :=
    fun _ => rfl
  refine ⟨fun slot entry at_slot => ?_, fun lowerName slot near => ?_, ?_⟩
  · obtain ⟨open_, held⟩ := tabled.held slot entry at_slot
    exact ⟨open_, held.silent (silent _)⟩
  · rw [levels_cons, nearest, silent, Option.none_or] at near
    obtain ⟨entry, at_slot, named, held⟩ := tabled.reached lowerName slot near
    exact ⟨entry, at_slot, named, held.silent (silent _)⟩
  · refine List.forall_mem_cons.mpr ⟨?_, tabled.virtual⟩
    simp [Sema.seed]

/-- Fields are nothing to the table. -/
theorem with_fields (tabled : Tabled (record :: parents)) (fields : List Field) :
    Tabled ({ record with recordFields := fields } :: parents) where
  held := tabled.held
  reached := tabled.reached
  virtual := by
    obtain ⟨own, inherited⟩ := List.forall_mem_cons.mp tabled.virtual
    exact List.forall_mem_cons.mpr ⟨own, inherited⟩

end Tabled

/-! ### One more method -/

/-- A record with one more method, and some slots. -/
def TypeRecord.extended (record : TypeRecord σ) (method : Method σ) (slots : List VmtSlotEntry) :
    TypeRecord σ :=
  { record with objectMethods := record.objectMethods ++ [method], vmtSlots := slots }

section Extended

variable {method : Method σ} {slots : List VmtSlotEntry}

theorem TypeRecord.extended_declares (fresh : record.methodNamed (toLower method.name) = none) :
    (record.extended method slots).level.declares (toLower method.name) = some method.vmtSlot := by
  have none_before : record.objectMethods.find?
      (fun other => toLower other.name = toLower method.name) = none := fresh
  simp [TypeRecord.level, TypeRecord.methodNamed, TypeRecord.extended, List.find?_append,
    none_before]

theorem TypeRecord.extended_declares_other {lowerName : Text}
    (other : toLower method.name ≠ lowerName) :
    (record.extended method slots).level.declares lowerName = record.level.declares lowerName := by
  simp [TypeRecord.level, TypeRecord.methodNamed, TypeRecord.extended, List.find?_append, other]

theorem TypeRecord.declares_eq_none {lowerName : Text}
    (fresh : record.methodNamed lowerName = none) : record.level.declares lowerName = none := by
  simp [TypeRecord.level, fresh]

namespace Tabled

/-- What a level held of a name that it did not declare, its ancestors hold. -/
theorem held_below {level : Level Text (Text × Text)} {ancestors : List (Level Text (Text × Text))}
    {name : Text} {slot : Nat} {holder : Text × Text} {open_ : Bool}
    (held : Held (level :: ancestors) name slot holder open_)
    (silent : level.declares name = none) : Held ancestors name slot holder open_ := by
  cases held with
  | introduced introduces =>
      rw [introduces.1] at silent
      cases silent
  | overridden _ declares =>
      rw [declares] at silent
      cases silent
  | hidden _ declares =>
      rw [declares] at silent
      cases silent
  | silent held _ => exact held
  | apart held => exact held

/-- What is held under another name is held as before. -/
theorem held_other {lowerName : Text} {slot : Nat} {holder : Text × Text} {open_ : Bool}
    (other : toLower method.name ≠ lowerName)
    (held : Held (levels (record :: parents)) lowerName slot holder open_) :
    Held (levels (record.extended method slots :: parents)) lowerName slot holder open_ :=
  held.congr_head rfl (TypeRecord.extended_declares_other other).symm

/-- The methods of an extended record still have slots where they are virtual. -/
theorem virtual_extended (tabled : Tabled (record :: parents))
    (agree : method.isVirtual = method.vmtSlot.isSome) :
    ∀ other ∈ record.extended method slots :: parents, ∀ declared ∈ other.objectMethods,
      declared.isVirtual = declared.vmtSlot.isSome := by
  obtain ⟨own, inherited⟩ := List.forall_mem_cons.mp tabled.virtual
  refine List.forall_mem_cons.mpr ⟨fun declared occurs => ?_, inherited⟩
  rcases List.mem_append.mp occurs with before | last
  · exact own declared before
  · rw [List.mem_singleton.mp last]
    exact agree

/-- A static method ends what is held under its name. -/
theorem with_static (tabled : Tabled (record :: parents))
    (fresh : record.methodNamed (toLower method.name) = none) (static : method.isVirtual = false)
    (slotless : method.vmtSlot = none) :
    Tabled (record.extended method record.vmtSlots :: parents) where
  held := by
    intro slot entry at_slot
    obtain ⟨open_, held⟩ := tabled.held slot entry at_slot
    by_cases same : toLower method.name = toLower entry.methodName
    · have below := held_below held (same ▸ TypeRecord.declares_eq_none fresh)
      have declares := @TypeRecord.extended_declares _ _ _ record.vmtSlots fresh
      rw [slotless, same] at declares
      cases open_ with
      | true => exact ⟨false, below.hidden declares⟩
      | false => exact ⟨false, below.apart⟩
    · exact ⟨open_, held_other same held⟩
  reached := by
    intro lowerName slot near
    by_cases same : toLower method.name = lowerName
    · rw [levels_cons, nearest, ← same, TypeRecord.extended_declares fresh, slotless,
        Option.some_or] at near
      cases near
    · have before : nearest (levels (record :: parents)) lowerName = some (some slot) := by
        rw [← near, levels_cons, levels_cons, nearest, nearest,
          TypeRecord.extended_declares_other same]
      obtain ⟨entry, at_slot, named, held⟩ := tabled.reached lowerName slot before
      exact ⟨entry, at_slot, named, held_other same held⟩
  virtual := virtual_extended tabled (by rw [static, slotless]; rfl)

/-- What an entry held under the name of a virtual method with another slot, it holds apart. -/
theorem held_apart (tabled : Tabled (record :: parents))
    (fresh : record.methodNamed (toLower method.name) = none) {slot : Nat} {entry : VmtSlotEntry}
    (at_slot : record.vmtSlots[slot]? = some entry)
    (other_slot : nearest (levels parents) (toLower method.name) ≠ some (some slot)) :
    ∃ open_, Held (levels (record.extended method slots :: parents)) (toLower entry.methodName)
      slot entry.holder open_ := by
  obtain ⟨open_, held⟩ := tabled.held slot entry at_slot
  by_cases same : toLower method.name = toLower entry.methodName
  · have below := held_below held (same ▸ TypeRecord.declares_eq_none fresh)
    cases open_ with
    | true => exact absurd (same ▸ below.nearest_eq rfl) other_slot
    | false => exact ⟨false, below.apart⟩
  · exact ⟨open_, held_other same held⟩

/-- The nearest declaration of a name that the new method does not have. -/
theorem nearest_other {lowerName : Text} (other : toLower method.name ≠ lowerName) :
    nearest (levels (record.extended method slots :: parents)) lowerName =
      nearest (levels (record :: parents)) lowerName := by
  rw [levels_cons, levels_cons, nearest, nearest, TypeRecord.extended_declares_other other]

theorem nearest_own (fresh : record.methodNamed (toLower method.name) = none) :
    nearest (levels (record.extended method slots :: parents)) (toLower method.name) =
      some method.vmtSlot := by
  rw [levels_cons, nearest, TypeRecord.extended_declares fresh, Option.some_or]

/-- A virtual method of a name whose nearest declaration is not virtual takes a new slot. -/
theorem with_fresh (tabled : Tabled (record :: parents))
    (fresh : record.methodNamed (toLower method.name) = none)
    (assigned : method.vmtSlot = some record.vmtSlots.length) (is_virtual : method.isVirtual = true)
    (introduces : ∀ slot, nearest (levels parents) (toLower method.name) ≠ some (some slot)) :
    Tabled (record.extended method
      (record.vmtSlots ++ [⟨method.name, record.name, record.declaringModule⟩]) :: parents) := by
  have own (slots) : Held (levels (record.extended method slots :: parents))
      (toLower method.name) record.vmtSlots.length (record.name, record.declaringModule) true :=
    .introduced ⟨by rw [TypeRecord.extended_declares fresh, assigned], introduces⟩
  refine ⟨fun slot entry at_slot => ?_, fun lowerName slot near => ?_,
    virtual_extended tabled (by rw [is_virtual, assigned]; rfl)⟩
  · change (record.vmtSlots ++ _)[slot]? = some entry at at_slot
    rw [List.getElem?_append] at at_slot
    split at at_slot
    · exact held_apart tabled fresh at_slot (introduces slot)
    · rw [List.getElem?_singleton] at at_slot
      split at at_slot
      · obtain rfl := Option.some.inj at_slot
        obtain rfl : slot = record.vmtSlots.length := by omega
        exact ⟨true, own _⟩
      · cases at_slot
  · by_cases same : toLower method.name = lowerName
    · subst same
      rw [nearest_own fresh, assigned] at near
      obtain rfl := Option.some.inj (Option.some.inj near)
      exact ⟨_, List.getElem?_concat_length, rfl, own _⟩
    · rw [nearest_other same] at near
      obtain ⟨entry, at_slot, named, held⟩ := tabled.reached lowerName slot near
      refine ⟨entry, ?_, named, held_other same held⟩
      rw [inheritedSlots_cons] at at_slot
      change (record.vmtSlots ++ _)[slot]? = some entry
      rw [List.getElem?_append_left (List.getElem?_eq_some_iff.mp at_slot).1, at_slot]

/-- A virtual method of a name whose nearest declaration has a slot takes this slot over. -/
theorem with_override (tabled : Tabled (record :: parents))
    (fresh : record.methodNamed (toLower method.name) = none) {slot : Nat}
    (assigned : method.vmtSlot = some slot) (is_virtual : method.isVirtual = true)
    (overrides : nearest (levels parents) (toLower method.name) = some (some slot)) :
    Tabled (record.extended method (record.vmtSlots.modify slot fun entry =>
      { entry with implementingType := record.name, declaringModule := record.declaringModule }) ::
        parents) := by
  have silent := TypeRecord.declares_eq_none fresh
  obtain ⟨taken, at_taken, named, held⟩ := tabled.reached (toLower method.name) slot
    (by rw [levels_cons, nearest, silent, Option.none_or, overrides])
  rw [inheritedSlots_cons] at at_taken
  have own (slots) : Held (levels (record.extended method slots :: parents))
      (toLower method.name) slot (record.name, record.declaringModule) true :=
    .overridden (held_below held silent) (by rw [TypeRecord.extended_declares fresh, assigned])
  refine ⟨fun other entry at_other => ?_, fun lowerName other near => ?_,
    virtual_extended tabled (by rw [is_virtual, assigned]; rfl)⟩
  · change (record.vmtSlots.modify slot _)[other]? = some entry at at_other
    by_cases same : slot = other
    · subst same
      rw [List.getElem?_modify_eq, at_taken] at at_other
      obtain rfl := Option.some.inj at_other
      exact ⟨true, named ▸ own _⟩
    · rw [List.getElem?_modify_ne _ _ same] at at_other
      refine held_apart tabled fresh at_other fun near => same ?_
      rw [overrides] at near
      exact Option.some.inj (Option.some.inj near)
  · by_cases same : toLower method.name = lowerName
    · subst same
      rw [nearest_own fresh, assigned] at near
      obtain rfl := Option.some.inj (Option.some.inj near)
      refine ⟨{ taken with
        implementingType := record.name, declaringModule := record.declaringModule }, ?_, named,
        own _⟩
      change (record.vmtSlots.modify slot _)[slot]? = some _
      rw [List.getElem?_modify_eq, at_taken]
      rfl
    · rw [nearest_other same] at near
      obtain ⟨entry, at_slot, entry_named, entry_held⟩ := tabled.reached lowerName other near
      refine ⟨entry, ?_, entry_named, held_other same entry_held⟩
      rw [inheritedSlots_cons] at at_slot
      have apart : slot ≠ other := by
        rintro rfl
        rw [at_taken] at at_slot
        obtain rfl := Option.some.inj at_slot
        exact same (named.symm.trans entry_named)
      change (record.vmtSlots.modify slot _)[other]? = some entry
      rw [List.getElem?_modify_ne _ _ apart, at_slot]

end Tabled

end Extended

/-! ### Resolving keeps the ancestor -/

/-- A record built over its ancestors: their fields and the names of their slots stay in front, its
own fields have names of their own, and the slots it introduces are new ones. -/
structure Extends (currentUnit declName : Text) (parents : Chain σ) (state : Resolving σ) : Prop where
  tabled : Tabled (state.record :: parents)
  name : state.record.name = declName
  declaringModule : state.record.declaringModule = currentUnit
  declared : ∀ lowerName, lowerName ∉ state.ownNames → state.record.methodNamed lowerName = none
  slots : (inheritedSlots parents).map VmtSlotEntry.methodName <+:
    state.record.vmtSlots.map VmtSlotEntry.methodName
  fields : ∃ own, state.record.recordFields = inheritedFields parents ++ own ∧
    ∀ field ∈ own, toLower field.name ∉ inheritedNames parents
  introduced : ∀ lowerName slot, Introduces state.record.level (levels parents) lowerName slot →
    (inheritedSlots parents).length ≤ slot

theorem Extends.seed (tabled : Tabled parents) :
    Extends currentUnit declName parents (seed currentUnit declName parents) where
  tabled := tabled.seed
  name := rfl
  declaringModule := rfl
  declared := fun _ _ => rfl
  slots := List.prefix_rfl
  fields := ⟨[], (List.append_nil _).symm, by simp⟩
  introduced := fun _ _ introduces => by cases introduces.1

theorem Extends.addField {ty : FieldType} {isPrivate : Bool} {name : Text}
    {state next : Resolving σ} (keeps : Extends currentUnit declName parents state)
    (added : addField currentUnit parents ty isPrivate state name = some next) :
    Extends currentUnit declName parents next := by
  rw [Sema.addField] at added
  split at added
  · cases added
  · rename_i free
    obtain rfl := Option.some.inj added
    obtain ⟨own, layout, apart⟩ := keeps.fields
    refine ⟨keeps.tabled.with_fields _, keeps.name, keeps.declaringModule, fun lowerName unused => ?_,
      keeps.slots, ⟨own ++ [⟨name, ty, isPrivate, currentUnit⟩], ?_, fun field occurs => ?_⟩,
      keeps.introduced⟩
    · exact keeps.declared lowerName fun used => unused (List.mem_cons_of_mem _ used)
    · rw [layout, List.append_assoc]
    · rcases List.mem_append.mp occurs with before | last
      · exact apart field before
      · rw [List.mem_singleton.mp last]
        exact fun taken => free (.inr taken)

/-- What a slot is assigned to: an override takes over the slot of the nearest declaration, and
otherwise there is none and the slot is new. -/
theorem assignSlot_cases {heading : Method σ} (tabled : Tabled parents) {slots : List VmtSlotEntry}
    (inherited : (inheritedSlots parents).length ≤ slots.length)
    {assigned : Nat × List VmtSlotEntry}
    (succeeds : assignSlot sameMethodSignature currentUnit declName parents heading slots =
      some assigned) :
    (∃ slot, nearest (levels parents) (toLower heading.name) = some (some slot) ∧
      assigned = (slot, slots.modify slot fun entry =>
        { entry with implementingType := declName, declaringModule := currentUnit })) ∨
    (∀ slot, nearest (levels parents) (toLower heading.name) ≠ some (some slot)) ∧
      assigned = (slots.length, slots ++ [⟨heading.name, declName, currentUnit⟩]) := by
  rw [assignSlot] at succeeds
  rw [nearest_levels]
  cases found : findMethodInChain parents (toLower heading.name) with
  | none =>
      rw [found] at succeeds
      exact .inr ⟨fun slot => by simp, (Option.some.inj succeeds).symm⟩
  | some method =>
      rw [found] at succeeds
      cases taken : method.vmtSlot with
      | none =>
          simp only [taken] at succeeds
          exact .inr ⟨fun slot => by simp [taken], (Option.some.inj succeeds).symm⟩
      | some slot =>
          simp only [taken] at succeeds
          have near : nearest (levels parents) (toLower heading.name) = some (some slot) := by
            rw [nearest_levels, found, Option.map_some, taken]
          obtain ⟨entry, at_slot, _, _⟩ := tabled.reached _ _ near
          obtain ⟨record, occurs, declared⟩ := findMethodInChain_mem found
          have is_virtual : method.isVirtual = true := by
            rw [tabled.virtual record occurs method declared, taken]
            rfl
          have below : slot < slots.length :=
            Nat.lt_of_lt_of_le (List.getElem?_eq_some_iff.mp at_slot).1 inherited
          rw [if_pos ⟨is_virtual, below⟩] at succeeds
          split at succeeds
          · refine .inl ⟨slot, by rw [Option.map_some, taken], (Option.some.inj succeeds).symm⟩
          · cases succeeds

theorem Extends.inherited_length {state : Resolving σ}
    (keeps : Extends currentUnit declName parents state) :
    (inheritedSlots parents).length ≤ state.record.vmtSlots.length := by
  simpa using keeps.slots.length_le

/-- What an extended record introduces is what its new method introduces, or was introduced. -/
theorem introduces_extended {method : Method σ} {slots : List VmtSlotEntry} {lowerName : Text}
    {slot : Nat} (fresh : record.methodNamed (toLower method.name) = none)
    (introduces : Introduces (record.extended method slots).level (levels parents) lowerName slot) :
    (lowerName = toLower method.name ∧ method.vmtSlot = some slot) ∨
      Introduces record.level (levels parents) lowerName slot := by
  by_cases same : toLower method.name = lowerName
  · subst same
    refine .inl ⟨rfl, ?_⟩
    have declares := introduces.1
    rw [TypeRecord.extended_declares fresh] at declares
    exact Option.some.inj declares
  · refine .inr ⟨?_, introduces.2⟩
    rw [← TypeRecord.extended_declares_other same]
    exact introduces.1

section ExtendsMethod

variable {heading method : Method σ} {state : Resolving σ}

/-- The names of an extended record are used. -/
theorem Extends.declared_extended (keeps : Extends currentUnit declName parents state)
    (slots : List VmtSlotEntry) {lowerName : Text}
    (unused : lowerName ∉ toLower method.name :: state.ownNames) :
    (state.record.extended method slots).methodNamed lowerName = none := by
  have before : state.record.objectMethods.find?
      (fun declared => toLower declared.name = lowerName) = none :=
    keeps.declared lowerName fun used => unused (List.mem_cons_of_mem _ used)
  have other : toLower method.name ≠ lowerName := by
    rintro rfl
    exact unused List.mem_cons_self
  simp [TypeRecord.methodNamed, TypeRecord.extended, List.find?_append, before, other]

theorem Extends.with_static (keeps : Extends currentUnit declName parents state)
    (unused : toLower method.name ∉ state.ownNames) (static : method.isVirtual = false)
    (slotless : method.vmtSlot = none) :
    Extends currentUnit declName parents
      ⟨state.record.extended method state.record.vmtSlots, toLower method.name :: state.ownNames⟩ where
  tabled := keeps.tabled.with_static (keeps.declared _ unused) static slotless
  name := keeps.name
  declaringModule := keeps.declaringModule
  declared := fun _ => keeps.declared_extended _
  slots := keeps.slots
  fields := keeps.fields
  introduced := by
    intro lowerName slot introduces
    rcases introduces_extended (keeps.declared _ unused) introduces with ⟨_, impossible⟩ | before
    · rw [slotless] at impossible
      cases impossible
    · exact keeps.introduced lowerName slot before

theorem Extends.with_fresh (keeps : Extends currentUnit declName parents state)
    (unused : toLower method.name ∉ state.ownNames) (is_virtual : method.isVirtual = true)
    (assigned : method.vmtSlot = some state.record.vmtSlots.length)
    (introduces : ∀ slot, nearest (levels parents) (toLower method.name) ≠ some (some slot)) :
    Extends currentUnit declName parents
      ⟨state.record.extended method
        (state.record.vmtSlots ++ [⟨method.name, declName, currentUnit⟩]),
        toLower method.name :: state.ownNames⟩ where
  tabled := by
    have grown :=
      keeps.tabled.with_fresh (keeps.declared _ unused) assigned is_virtual introduces
    rw [keeps.name, keeps.declaringModule] at grown
    exact grown
  name := keeps.name
  declaringModule := keeps.declaringModule
  declared := fun _ => keeps.declared_extended _
  slots := keeps.slots.trans (by simp [TypeRecord.extended])
  fields := keeps.fields
  introduced := by
    intro lowerName slot introduces
    rcases introduces_extended (keeps.declared _ unused) introduces with ⟨_, at_end⟩ | before
    · rw [assigned] at at_end
      obtain rfl := Option.some.inj at_end
      exact keeps.inherited_length
    · exact keeps.introduced lowerName slot before

theorem Extends.with_override (keeps : Extends currentUnit declName parents state)
    (unused : toLower method.name ∉ state.ownNames) (is_virtual : method.isVirtual = true)
    {slot : Nat} (assigned : method.vmtSlot = some slot)
    (overrides : nearest (levels parents) (toLower method.name) = some (some slot)) :
    Extends currentUnit declName parents
      ⟨state.record.extended method (state.record.vmtSlots.modify slot fun entry =>
        { entry with implementingType := declName, declaringModule := currentUnit }),
        toLower method.name :: state.ownNames⟩ where
  tabled := by
    have taken_over :=
      keeps.tabled.with_override (keeps.declared _ unused) assigned is_virtual overrides
    rw [keeps.name, keeps.declaringModule] at taken_over
    exact taken_over
  name := keeps.name
  declaringModule := keeps.declaringModule
  declared := fun _ => keeps.declared_extended _
  slots := by
    have same_names : (state.record.vmtSlots.modify slot fun entry =>
        { entry with implementingType := declName, declaringModule := currentUnit }).map
          VmtSlotEntry.methodName = state.record.vmtSlots.map VmtSlotEntry.methodName := by
      refine List.ext_getElem? fun index => ?_
      by_cases same : slot = index
      · simp [same, Function.comp_def]
      · simp [same]
    exact same_names ▸ keeps.slots
  fields := keeps.fields
  introduced := by
    intro lowerName other introduces
    rcases introduces_extended (keeps.declared _ unused) introduces with ⟨rfl, _⟩ | before
    · exact absurd overrides (introduces.2 slot)
    · exact keeps.introduced lowerName other before

theorem Extends.addMethod {next : Resolving σ} (keeps : Extends currentUnit declName parents state)
    (tabled : Tabled parents)
    (added : addMethod sameMethodSignature currentUnit declName parents heading state =
      some next) : Extends currentUnit declName parents next := by
  rw [Sema.addMethod] at added
  split at added
  · cases added
  rename_i unused
  split at added
  · cases added
  split at added
  · cases added
  split at added
  · rename_i is_virtual
    obtain ⟨assigned, succeeds, rfl⟩ := Option.map_eq_some_iff.mp added
    rcases assignSlot_cases tabled keeps.inherited_length succeeds with
      ⟨slot, overrides, rfl⟩ | ⟨introduces, rfl⟩
    · refine keeps.with_override ?_ ?_ ?_ ?_
      exacts [unused, is_virtual, rfl, overrides]
    · refine keeps.with_fresh ?_ ?_ ?_ ?_
      exacts [unused, is_virtual, rfl, introduces]
  · rename_i static
    obtain rfl := Option.some.inj added
    refine keeps.with_static ?_ ?_ ?_
    exacts [unused, Bool.eq_false_iff.mpr static, rfl]

end ExtendsMethod

theorem Extends.addMember {member : Member σ} {state next : Resolving σ}
    (tabled : Tabled parents) (keeps : Extends currentUnit declName parents state)
    (added : addMember sameMethodSignature currentUnit declName parents state member = some next) :
    Extends currentUnit declName parents next := by
  cases member with
  | field names ty isPrivate =>
      exact Runs.foldlM_keeps (fun _ _ _ step keeps => keeps.addField step) added keeps
  | method heading => exact keeps.addMethod tabled added

/-- The record of a declaration extends its ancestors. -/
theorem Extends.of_resolved {members : List (Member σ)} (tabled : Tabled parents)
    (resolved : resolveObjectType sameMethodSignature currentUnit declName parents members =
      some record) : ∃ ownNames, Extends currentUnit declName parents ⟨record, ownNames⟩ := by
  obtain ⟨state, succeeds, rfl⟩ := Option.map_eq_some_iff.mp resolved
  exact ⟨state.ownNames, Runs.foldlM_keeps (fun _ _ _ step keeps => keeps.addMember tabled step)
    succeeds (Extends.seed tabled)⟩

/-! ### Hierarchies -/

variable {derived ancestor : Chain σ}

/-- An accepted type extends what it was declared over. -/
theorem Accepted.extends_ (accepted : Accepted sameMethodSignature (record :: parents)) :
    (parents = [] ∨ Accepted sameMethodSignature parents) ∧
      (Tabled parents → ∃ currentUnit declName ownNames,
        Extends currentUnit declName parents ⟨record, ownNames⟩) := by
  cases accepted with
  | root resolved =>
      exact ⟨.inl rfl, fun tabled => ⟨_, _, Extends.of_resolved tabled resolved⟩⟩
  | derived accepted resolved =>
      exact ⟨.inr accepted, fun tabled => ⟨_, _, Extends.of_resolved tabled resolved⟩⟩

theorem Accepted.tabled {chain : Chain σ} (accepted : Accepted sameMethodSignature chain) :
    Tabled chain := by
  induction accepted with
  | root resolved =>
      obtain ⟨_, keeps⟩ := Extends.of_resolved tabled_nil resolved
      exact keeps.tabled
  | derived _ resolved induction =>
      obtain ⟨_, keeps⟩ := Extends.of_resolved induction resolved
      exact keeps.tabled

/-- A type of a chain extends the rest of the chain. -/
theorem Accepted.extends_rest (accepted : Accepted sameMethodSignature (record :: parents)) :
    ∃ currentUnit declName ownNames, Extends currentUnit declName parents ⟨record, ownNames⟩ := by
  obtain ⟨rfl | above, extended⟩ := accepted.extends_
  · exact extended tabled_nil
  · exact extended above.tabled

theorem Accepted.ancestors (accepted : Accepted sameMethodSignature (derived ++ ancestor))
    (nonempty : ancestor ≠ []) : Accepted sameMethodSignature ancestor := by
  induction derived with
  | nil => exact accepted
  | cons record between induction =>
      rcases accepted.extends_.1 with empty | above
      · exact absurd (List.append_eq_nil_iff.mp empty).2 nonempty
      · exact induction above

/-- The names of the slots stay at their indices. -/
theorem Accepted.slots_extended (accepted : Accepted sameMethodSignature (derived ++ ancestor)) :
    (inheritedSlots ancestor).map VmtSlotEntry.methodName <+:
      (inheritedSlots (derived ++ ancestor)).map VmtSlotEntry.methodName := by
  induction derived with
  | nil => exact List.prefix_rfl
  | cons record between induction =>
      obtain ⟨_, _, _, keeps⟩ := accepted.extends_rest
      rcases accepted.extends_.1 with empty | above
      · obtain ⟨rfl, rfl⟩ := List.append_eq_nil_iff.mp empty
        exact keeps.slots
      · exact (induction above).trans keeps.slots

theorem Accepted.fields_extended (accepted : Accepted sameMethodSignature (derived ++ ancestor)) :
    inheritedFields ancestor <+: inheritedFields (derived ++ ancestor) := by
  induction derived with
  | nil => exact List.prefix_rfl
  | cons record between induction =>
      obtain ⟨_, _, _, keeps⟩ := accepted.extends_rest
      obtain ⟨own, layout, _⟩ := keeps.fields
      have last : inheritedFields (between ++ ancestor) <+:
          inheritedFields (record :: (between ++ ancestor)) := ⟨own, layout.symm⟩
      rcases accepted.extends_.1 with empty | above
      · obtain ⟨rfl, rfl⟩ := List.append_eq_nil_iff.mp empty
        exact last
      · exact (induction above).trans last

theorem Accepted.slots_ne_nil (accepted : Accepted sameMethodSignature (derived ++ ancestor))
    (slots : inheritedSlots ancestor ≠ []) : inheritedSlots (derived ++ ancestor) ≠ [] := by
  intro none_left
  have extended := accepted.slots_extended
  rw [none_left, List.map_nil, List.prefix_nil] at extended
  exact slots (List.map_eq_nil_iff.mp extended)

/-- A slot that a level introduces is not in the table above, and is in its own. -/
theorem Accepted.introduced_between
    (accepted : Accepted sameMethodSignature (record :: parents)) {lowerName : Text} {slot : Nat}
    (introduces : Introduces record.level (levels parents) lowerName slot) :
    (inheritedSlots parents).length ≤ slot ∧ slot < record.vmtSlots.length := by
  obtain ⟨_, _, _, keeps⟩ := accepted.extends_rest
  refine ⟨keeps.introduced lowerName slot introduces, ?_⟩
  have near : nearest (levels (record :: parents)) lowerName = some (some slot) := by
    rw [levels_cons, nearest, introduces.1, Option.some_or]
  obtain ⟨entry, at_slot, _⟩ := keeps.tabled.reached lowerName slot near
  exact (List.getElem?_eq_some_iff.mp at_slot).1

/-- The levels of a chain are split where the chain is. -/
theorem levels_split {chain : Chain σ} {above : List (Level Text (Text × Text))}
    {level : Level Text (Text × Text)} {below : List (Level Text (Text × Text))}
    (split : levels chain = above ++ level :: below) :
    ∃ derived record ancestors, chain = derived ++ record :: ancestors ∧ levels derived = above ∧
      record.level = level ∧ levels ancestors = below := by
  obtain ⟨derived, rest, rfl, above_eq, rest_eq⟩ := List.map_eq_append_iff.mp split
  obtain ⟨record, ancestors, rfl, level_eq, below_eq⟩ := List.map_eq_cons_iff.mp rest_eq
  exact ⟨derived, record, ancestors, rfl, above_eq, level_eq, below_eq⟩

/-- Of two levels that introduce a slot, neither is derived from the other. -/
theorem Accepted.not_introduced_above {between rest : Chain σ} {other : TypeRecord σ}
    (accepted : Accepted sameMethodSignature (derived ++ record :: (between ++ other :: rest)))
    {lowerName otherName : Text} {slot : Nat}
    (introduces : Introduces record.level (levels (between ++ other :: rest)) lowerName slot) :
    ¬Introduces other.level (levels rest) otherName slot := by
  intro introduces'
  have own := accepted.ancestors (List.cons_ne_nil _ _)
  have above := own.extends_.1.resolve_left (by simp)
  have after := (own.introduced_between introduces).1
  have before := ((above.ancestors (List.cons_ne_nil _ _)).introduced_between introduces').2
  have grown := above.slots_extended.length_le
  rw [List.length_map, List.length_map, inheritedSlots_cons] at grown
  omega

/-- A slot is introduced by one level. -/
theorem Accepted.introduced_once {chain : Chain σ} (accepted : Accepted sameMethodSignature chain)
    {lowerName otherName : Text} {slot : Nat}
    {above below above' below' : List (Level Text (Text × Text))}
    {level level' : Level Text (Text × Text)}
    (split : levels chain = above ++ level :: below)
    (split' : levels chain = above' ++ level' :: below')
    (introduces : Introduces level below lowerName slot)
    (introduces' : Introduces level' below' otherName slot) : above = above' := by
  obtain ⟨derived, record, rest, rfl, rfl, rfl, rfl⟩ := levels_split split
  obtain ⟨derived', record', rest', same, rfl, rfl, rfl⟩ := levels_split split'
  rcases List.append_eq_append_iff.mp same with ⟨between, rfl, parts⟩ | ⟨between, rfl, parts⟩
  · cases between with
    | nil => simp
    | cons first between =>
        obtain ⟨rfl, rfl⟩ := List.cons.inj parts
        exact absurd introduces' (accepted.not_introduced_above introduces)
  · cases between with
    | nil => simp
    | cons first between =>
        obtain ⟨rfl, rfl⟩ := List.cons.inj parts
        rw [same] at accepted
        exact absurd introduces (accepted.not_introduced_above introduces')

/-! ### Offsets -/

section Offsets

variable {pointer : Shape} {name : Text}

/-- The fields of a record behind those of its ancestor. -/
theorem Extends.ownFields_apart {state : Resolving σ}
    (keeps : Extends currentUnit declName parents state) :
    ∀ field ∈ ownFields state.record parents, toLower field.name ∉ inheritedNames parents := by
  obtain ⟨own, layout, apart⟩ := keeps.fields
  rw [ownFields, layout, List.drop_left]
  exact apart

theorem Extends.recordFields_eq {state : Resolving σ}
    (keeps : Extends currentUnit declName parents state) :
    state.record.recordFields = inheritedFields parents ++ ownFields state.record parents := by
  obtain ⟨own, layout, _⟩ := keeps.fields
  rw [ownFields, layout, List.drop_left]

theorem mem_inheritedNames {field : Field} (occurs : field ∈ inheritedFields parents) :
    toLower field.name ∈ inheritedNames parents :=
  List.mem_append_left _ (List.mem_map_of_mem occurs)

/-- The ancestor is the first element. -/
theorem elements_head (nonempty : parents ≠ []) :
    elementOffset (elements pointer (record :: parents)) 0 = some 0 := by
  cases parents with
  | nil => exact absurd rfl nonempty
  | cons parent above => exact elementOffset_head _ _

/-- An inherited field is where it is in the ancestor. -/
theorem Extends.objectFieldOffset_inherited {state : Resolving σ}
    (keeps : Extends currentUnit declName parents state) (nonempty : parents ≠ [])
    {field : Field} (occurs : field ∈ inheritedFields parents) :
    objectFieldOffset pointer (state.record :: parents) field.name =
      objectFieldOffset pointer parents field.name := by
  have not_own : ((ownFields state.record parents).findIdx? fun own =>
      toLower own.name = toLower field.name) = none := by
    rw [List.findIdx?_eq_none_iff]
    intro own own_occurs
    have apart := keeps.ownFields_apart own own_occurs
    refine decide_eq_false fun same => apart ?_
    rw [same]
    exact mem_inheritedNames occurs
  rw [objectFieldOffset, not_own, elements_head nonempty]
  simp

theorem place_length (position : Nat) (shapes : List Shape) :
    (place position shapes).1.length = shapes.length := by
  induction shapes generalizing position with
  | nil => rfl
  | cons shape rest induction => simp [place, induction]

theorem elementOffset_of_lt {shapes : List Shape} {index : Nat} (below : index < shapes.length) :
    ∃ offset, elementOffset shapes index = some offset := by
  rw [← place_length 0 shapes] at below
  exact ⟨_, List.getElem?_eq_getElem below⟩

theorem ownIndex_lt {index : Nat} (below : index < (ownFields record parents).length) :
    ownIndex parents index < (elements pointer (record :: parents)).length := by
  rw [ownIndex, elements]
  split <;> simp <;> omega

/-- Every field has an offset. -/
theorem Accepted.objectFieldOffset_exists {chain : Chain σ}
    (accepted : Accepted sameMethodSignature chain) (pointer : Shape) {field : Field}
    (occurs : field ∈ inheritedFields chain) :
    ∃ offset, objectFieldOffset pointer chain field.name = some offset := by
  induction chain with
  | nil => simp [inheritedFields] at occurs
  | cons record parents induction =>
      obtain ⟨_, _, _, keeps⟩ := accepted.extends_rest
      cases own : (ownFields record parents).findIdx? fun other =>
          toLower other.name = toLower field.name with
      | some index =>
          obtain ⟨below, _⟩ := List.findIdx?_eq_some_iff_getElem.mp own
          rw [objectFieldOffset, own]
          exact elementOffset_of_lt (ownIndex_lt below)
      | none =>
          have inherited : field ∈ inheritedFields parents := by
            rw [inheritedFields, keeps.recordFields_eq] at occurs
            refine (List.mem_append.mp occurs).resolve_right fun own_occurs => ?_
            have other := List.findIdx?_eq_none_iff.mp own field own_occurs
            simp at other
          have nonempty : parents ≠ [] := by
            rintro rfl
            simp [inheritedFields] at inherited
          obtain ⟨offset, placed⟩ :=
            induction (accepted.extends_.1.resolve_left nonempty) inherited
          exact ⟨offset, (keeps.objectFieldOffset_inherited nonempty inherited).trans placed⟩

/-- A field is in every descendant where it is in the ancestor. -/
theorem Accepted.objectFieldOffset_eq (accepted : Accepted sameMethodSignature (derived ++ ancestor))
    (nonempty : ancestor ≠ []) {field : Field} (occurs : field ∈ inheritedFields ancestor) :
    objectFieldOffset pointer (derived ++ ancestor) field.name =
      objectFieldOffset pointer ancestor field.name := by
  induction derived with
  | nil => rfl
  | cons record between induction =>
      have longer : between ++ ancestor ≠ [] := by simp [nonempty]
      have above := accepted.extends_.1.resolve_left longer
      obtain ⟨_, _, _, keeps⟩ := accepted.extends_rest
      exact (keeps.objectFieldOffset_inherited longer (above.fields_extended.subset occurs)).trans
        (induction above)

/-- The pointer to the table is where the level that introduced it put it. -/
theorem Accepted.vptrOffsetOf_eq (accepted : Accepted sameMethodSignature (derived ++ ancestor))
    (slots : inheritedSlots ancestor ≠ []) :
    vptrOffsetOf pointer (derived ++ ancestor) = vptrOffsetOf pointer ancestor := by
  have nonempty : ancestor ≠ [] := by
    rintro rfl
    exact slots rfl
  induction derived with
  | nil => rfl
  | cons record between induction =>
      have longer : between ++ ancestor ≠ [] := by simp [nonempty]
      have above := accepted.extends_.1.resolve_left longer
      have above_slots := above.slots_ne_nil slots
      have own_slots := accepted.slots_ne_nil slots
      rw [List.cons_append, inheritedSlots_cons] at own_slots
      rw [List.cons_append, vptrOffsetOf, if_neg (by simpa using own_slots), if_neg
        (by simp [introducesVptr, above_slots]), induction above]

theorem Accepted.vptrOffsetOf_exists {chain : Chain σ}
    (accepted : Accepted sameMethodSignature chain) (pointer : Shape)
    (slots : inheritedSlots chain ≠ []) : ∃ offset, vptrOffsetOf pointer chain = some offset := by
  induction chain with
  | nil => exact absurd rfl slots
  | cons record parents induction =>
      rw [inheritedSlots_cons] at slots
      rw [vptrOffsetOf, if_neg (by simpa using slots)]
      split
      · rename_i introduces
        refine elementOffset_of_lt ?_
        rw [ownIndex, elements, if_pos introduces]
        split <;> simp
      · rename_i inherits
        have above_slots : inheritedSlots parents ≠ [] := by
          intro none_above
          simp [introducesVptr, none_above, slots] at inherits
        have nonempty : parents ≠ [] := by
          rintro rfl
          exact above_slots rfl
        exact induction (accepted.extends_.1.resolve_left nonempty) above_slots

/-- Laying fields adds their offsets. -/
theorem layField_offsets {fields : List Field} {start last : Laying}
    (laid : fields.foldlM layField start = some last) :
    ∃ more, last.offsets = start.offsets ++ more ∧ more.map Prod.fst = fields.map Field.name := by
  induction fields generalizing start with
  | nil =>
      obtain rfl := Option.some.inj laid
      exact ⟨[], (List.append_nil _).symm, rfl⟩
  | cons field fields induction =>
      rw [List.foldlM_cons] at laid
      obtain ⟨next, first, rest⟩ := Option.bind_eq_some_iff.mp laid
      obtain ⟨size, _, rfl⟩ := Option.map_eq_some_iff.mp first
      obtain ⟨more, offsets, names⟩ := induction rest
      refine ⟨(field.name, roundUp start.position field.ty.byteAlign) :: more, ?_, ?_⟩
      · rw [offsets, List.append_assoc]
        rfl
      · rw [List.map_cons, List.map_cons, names]

/-- How a type that has a size is laid out. -/
theorem laying_of_byteSizeOf {size : Nat} {offsets : List (Text × Nat)}
    (sized : byteSizeOf (record :: parents) = some (size, offsets)) :
    ∃ start laying, (ownFields record parents).foldlM layField start = some laying ∧
      laying.offsets = offsets ∧
      (parents = [] ∧ start.offsets = [] ∨
        ∃ inside, byteSizeOf parents = some (inside, start.offsets)) := by
  have ends {laying : Laying} (sized : (if introducesVptr record parents then
      some (roundUp (roundUp laying.position 8 + 8) (max laying.align 8), laying.offsets)
      else some (roundUp laying.position laying.align, laying.offsets)) = some (size, offsets)) :
      laying.offsets = offsets := by
    split at sized
    · exact (Prod.mk.inj (Option.some.inj sized)).2
    · exact (Prod.mk.inj (Option.some.inj sized)).2
  cases parents with
  | nil =>
      simp only [byteSizeOf, Option.bind_eq_bind, Option.bind_some] at sized
      obtain ⟨laying, laid, sized⟩ := Option.bind_eq_some_iff.mp sized
      exact ⟨_, laying, laid, ends sized, .inl ⟨rfl, rfl⟩⟩
  | cons parent above =>
      rw [byteSizeOf, Option.bind_eq_bind, Option.bind_map] at sized
      obtain ⟨whole, above_sized, sized⟩ := Option.bind_eq_some_iff.mp sized
      obtain ⟨laying, laid, sized⟩ := Option.bind_eq_some_iff.mp sized
      exact ⟨_, laying, laid, ends sized, .inr ⟨whole.1, above_sized⟩⟩

/-- A type that has a size is laid out behind its ancestor. -/
theorem byteSizeOf_cons {size : Nat} {offsets : List (Text × Nat)}
    (sized : byteSizeOf (record :: parents) = some (size, offsets)) :
    ∃ before more, offsets = before ++ more ∧
      more.map Prod.fst = (ownFields record parents).map Field.name ∧
      (parents = [] ∧ before = [] ∨ ∃ inside, byteSizeOf parents = some (inside, before)) := by
  obtain ⟨start, laying, laid, rfl, above⟩ := laying_of_byteSizeOf sized
  obtain ⟨more, offsets_eq, names⟩ := layField_offsets laid
  exact ⟨start.offsets, more, offsets_eq, names, above⟩

/-- The offsets of a type are those of its ancestor, and more. -/
theorem byteSizeOf_extended {size : Nat} {offsets : List (Text × Nat)} (nonempty : ancestor ≠ [])
    (sized : byteSizeOf (derived ++ ancestor) = some (size, offsets)) :
    ∃ inside before, byteSizeOf ancestor = some (inside, before) ∧ before <+: offsets := by
  induction derived generalizing size offsets with
  | nil => exact ⟨size, offsets, sized, List.prefix_rfl⟩
  | cons record between induction =>
      obtain ⟨before, more, rfl, _, ⟨empty, _⟩ | ⟨inside, above⟩⟩ := byteSizeOf_cons sized
      · exact absurd (List.append_eq_nil_iff.mp empty).2 nonempty
      · obtain ⟨inside, first, placed, extended⟩ := induction above
        exact ⟨inside, first, placed, extended.trans (List.prefix_append _ _)⟩

/-- Every field is laid out, in order. -/
theorem Accepted.byteSizeOf_names {chain : Chain σ} (accepted : Accepted sameMethodSignature chain)
    {size : Nat} {offsets : List (Text × Nat)} (sized : byteSizeOf chain = some (size, offsets)) :
    offsets.map Prod.fst = (inheritedFields chain).map Field.name := by
  induction chain generalizing size offsets with
  | nil => cases sized
  | cons record parents induction =>
      obtain ⟨_, _, _, keeps⟩ := accepted.extends_rest
      obtain ⟨before, more, rfl, own, above⟩ := byteSizeOf_cons sized
      rw [inheritedFields, keeps.recordFields_eq, List.map_append, List.map_append, own]
      congr 1
      rcases above with ⟨rfl, rfl⟩ | ⟨inside, above⟩
      · rfl
      · have nonempty : parents ≠ [] := by
          rintro rfl
          cases above
        exact induction (accepted.extends_.1.resolve_left nonempty) above

end Offsets

/-! ### Tables and calls -/

/-- What is held in a chain, the last override holds, and nothing else does. -/
theorem Accepted.holder_iff {chain : Chain σ} (accepted : Accepted sameMethodSignature chain)
    {slot : Nat} {entry : VmtSlotEntry} (at_slot : (inheritedSlots chain)[slot]? = some entry)
    (holder : Text × Text) :
    MostDerived (levels chain) (toLower entry.methodName) slot holder ↔ holder = entry.holder := by
  obtain ⟨_, held⟩ := accepted.tabled.held slot entry at_slot
  refine ⟨fun most => most.unique ?_ held.most, fun same => same ▸ held.most⟩
  intro above level below above' level' below' split split' introduces introduces'
  exact accepted.introduced_once split split' introduces introduces'

/-- A call of a virtual method goes by the table of the object. -/
theorem emitBoundMethodCall_virtual {receiver object : Chain σ} {name : Text} {method : Method σ}
    {slot : Nat} {entry : VmtSlotEntry}
    (found : findMethodInChain receiver (toLower name) = some method)
    (is_virtual : method.isVirtual = true) (assigned : method.vmtSlot = some slot)
    (at_slot : (inheritedSlots object)[slot]? = some entry) :
    emitBoundMethodCall receiver object name = some entry.holder := by
  induction receiver with
  | nil => cases found
  | cons record ancestors induction =>
      rw [findMethodInChain] at found
      rw [emitBoundMethodCall]
      cases own : record.methodNamed (toLower name) with
      | none =>
          rw [own, Option.none_or] at found
          exact induction found
      | some first =>
          rw [own, Option.some_or] at found
          obtain rfl := Option.some.inj found
          simp only [is_virtual, if_true, assigned, Option.bind_some, at_slot, Option.map_some]
          rfl

/-- A slot keeps the name of its method. -/
theorem Accepted.slot_name (accepted : Accepted sameMethodSignature (derived ++ ancestor))
    {slot : Nat} {entry : VmtSlotEntry} (at_slot : (inheritedSlots ancestor)[slot]? = some entry) :
    ∃ entry', (inheritedSlots (derived ++ ancestor))[slot]? = some entry' ∧
      entry'.methodName = entry.methodName := by
  have named : ((inheritedSlots ancestor).map VmtSlotEntry.methodName)[slot]? =
      some entry.methodName := by
    rw [List.getElem?_map, at_slot, Option.map_some]
  obtain ⟨rest, whole⟩ := accepted.slots_extended
  rw [← List.getElem?_append_left (List.getElem?_eq_some_iff.mp named).1, whole,
    List.getElem?_map] at named
  exact Option.map_eq_some_iff.mp named

/-- An object type keeps of an ancestor the offsets of the fields and of the pointer to the table,
the slots, and in each slot the last override. -/
structure Keeps (pointer : Shape) (ancestor descendant : Chain σ) : Prop where
  field_offset : ∀ field ∈ inheritedFields ancestor, ∃ offset,
    objectFieldOffset pointer ancestor field.name = some offset ∧
      objectFieldOffset pointer descendant field.name = some offset
  checked_offsets : ∀ size offsets, byteSizeOf descendant = some (size, offsets) →
    ∃ inside before, byteSizeOf ancestor = some (inside, before) ∧
      before.map Prod.fst = (inheritedFields ancestor).map Field.name ∧ before <+: offsets
  vptr_offset : inheritedSlots ancestor ≠ [] → ∃ offset,
    vptrOffsetOf pointer ancestor = some offset ∧ vptrOffsetOf pointer descendant = some offset
  slot_names : ∀ (slot : Nat) entry, (inheritedSlots ancestor)[slot]? = some entry →
    ∃ entry', (inheritedSlots descendant)[slot]? = some entry' ∧
      entry'.methodName = entry.methodName
  holders : ∀ (slot : Nat) entry, (inheritedSlots descendant)[slot]? = some entry → ∀ holder,
    MostDerived (levels descendant) (toLower entry.methodName) slot holder ↔
      holder = entry.holder
  calls : ∀ name method, findMethodInChain ancestor (toLower name) = some method →
    method.isVirtual = true → ∃ slot holder, method.vmtSlot = some slot ∧
      emitBoundMethodCall ancestor descendant name = some holder ∧
      MostDerived (levels descendant) (toLower name) slot holder

/-- Every accepted object type keeps what it inherits. -/
theorem accepted_keeps (pointer : Shape)
    (accepted : Accepted sameMethodSignature (derived ++ ancestor)) (nonempty : ancestor ≠ []) :
    Keeps pointer ancestor (derived ++ ancestor) where
  field_offset := by
    intro field occurs
    obtain ⟨offset, placed⟩ :=
      (accepted.ancestors nonempty).objectFieldOffset_exists pointer occurs
    exact ⟨offset, placed, (accepted.objectFieldOffset_eq nonempty occurs).trans placed⟩
  checked_offsets := by
    intro size offsets sized
    obtain ⟨inside, before, above, extended⟩ := byteSizeOf_extended nonempty sized
    exact ⟨inside, before, above, (accepted.ancestors nonempty).byteSizeOf_names above, extended⟩
  vptr_offset := by
    intro slots
    obtain ⟨offset, placed⟩ :=
      (accepted.ancestors nonempty).vptrOffsetOf_exists pointer slots
    exact ⟨offset, placed, (accepted.vptrOffsetOf_eq slots).trans placed⟩
  slot_names := fun _ _ => accepted.slot_name
  holders := fun _ _ => accepted.holder_iff
  calls := by
    intro name method found is_virtual
    obtain ⟨slot, entry, assigned, at_slot, named, _⟩ :=
      (accepted.ancestors nonempty).tabled.slot_of_found found is_virtual
    obtain ⟨entry', at_slot', same_name⟩ := accepted.slot_name at_slot
    refine ⟨slot, entry'.holder, assigned,
      emitBoundMethodCall_virtual found is_virtual assigned at_slot', ?_⟩
    have held := (accepted.holder_iff at_slot' entry'.holder).mpr rfl
    rwa [same_name, named] at held

/-- A root without virtual methods, a type that introduces one, and one that overrides it. -/
theorem accepted_keeps_three_levels : ∃ leaf middle root : TypeRecord Unit,
    Accepted (fun _ _ => true) [leaf, middle, root] ∧ leaf.vmtSlots.length = 1 ∧
      Keeps ⟨8, 8⟩ [middle, root] [leaf, middle, root] := by
  have root := Accepted.root (show resolveObjectType (fun _ _ : Unit => true) [] "root".toList []
    [.field ["a".toList] ⟨some 4, 4, ⟨4, 4⟩⟩ false] = some _ from rfl)
  have middle := root.derived (show resolveObjectType (fun _ _ => true) [] "middle".toList _
    [.field ["b".toList] ⟨some 4, 4, ⟨4, 4⟩⟩ false,
      .method ⟨"show".toList, false, true, false, false, false, (), none⟩] = some _ from rfl)
  have leaf := middle.derived (show resolveObjectType (fun _ _ => true) [] "leaf".toList _
    [.method ⟨"Show".toList, false, true, false, false, false, (), none⟩] = some _ from rfl)
  exact ⟨_, _, _, leaf, rfl, @accepted_keeps Unit _ [_] [_, _] ⟨8, 8⟩ leaf (List.cons_ne_nil _ _)⟩

end Plang.Sema
