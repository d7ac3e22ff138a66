import Plang.Basic.Text

/-!
# Tables of names

The runtime remembers names of files in tables of a fixed size, keyed by the file variable: the path
a file is being written to, and the external entity a file is bound to.  A name that is too long is
cut off.
-/

namespace Plang

namespace Runtime

/-- The slots of a table. -/
def PLANG_MAX_BINDINGS : Nat := 64

/-- The longest name, with its terminator. -/
def PLANG_MAX_NAME_LEN : Nat := 512

/-- A slot is free or holds a file variable and its name. -/
abbrev Slot := Option (Nat × Text)

/-- The name in the first slot of a file variable. -/
def findSlot (file : Nat) : List Slot → Option Text
  | [] => none
  | none :: slots => findSlot file slots
  | some (owner, name) :: slots => if owner = file then some name else findSlot file slots

/-- Free a slot of a file variable. -/
def clearSlot (file : Nat) : Slot → Slot
  | none => none
  | some (owner, name) => if owner = file then none else some (owner, name)

/-- Free the slots of a file variable. -/
def clearSlots (file : Nat) (slots : List Slot) : List Slot := slots.map (clearSlot file)

/-- Put an entry into the first free slot. -/
def fillSlot (entry : Nat × Text) : List Slot → Option (List Slot)
  | [] => none
  | none :: slots => some (some entry :: slots)
  | some other :: slots => (fillSlot entry slots).map (some other :: ·)

/-- Give the first slot of a file variable another name. -/
def renameSlot (file : Nat) (name : Text) : List Slot → Option (List Slot)
  | [] => none
  | none :: slots => (renameSlot file name slots).map (none :: ·)
  | some (owner, old) :: slots =>
      if owner = file then some (some (owner, name) :: slots)
      else (renameSlot file name slots).map (some (owner, old) :: ·)

@[simp] theorem findSlot_clearSlots (file : Nat) (slots : List Slot) :
    findSlot file (clearSlots file slots) = none := by
  induction slots with
  | nil => rfl
  | cons slot slots induction =>
      cases slot with
      | none => exact induction
      | some entry =>
          by_cases owner : entry.1 = file
          · simpa [clearSlots, clearSlot, owner, findSlot] using induction
          · simpa [clearSlots, clearSlot, owner, findSlot] using induction

theorem findSlot_fillSlot {file : Nat} {name : Text} {slots filled : List Slot}
    (absent : findSlot file slots = none) (fill : fillSlot (file, name) slots = some filled) :
    findSlot file filled = some name := by
  induction slots generalizing filled with
  | nil => cases fill
  | cons slot slots induction =>
      cases slot with
      | none =>
          obtain rfl := Option.some.inj fill
          simp [findSlot]
      | some entry =>
          simp only [fillSlot, Option.map_eq_some_iff] at fill
          obtain ⟨rest, fill, rfl⟩ := fill
          by_cases owner : entry.1 = file
          · simp [findSlot, owner] at absent
          · simp only [findSlot, owner, if_false] at absent ⊢
            exact induction absent fill

/-- Some slot is free. -/
def hasRoom (slots : List Slot) : Prop := none ∈ slots

theorem fillSlot_isSome {slots : List Slot} (room : hasRoom slots) (entry : Nat × Text) :
    (fillSlot entry slots).isSome := by
  induction slots with
  | nil => cases room
  | cons slot slots induction =>
      cases slot with
      | none => rfl
      | some other =>
          have later : hasRoom slots := by simpa [hasRoom] using room
          simpa [fillSlot] using induction later

/-- A slot that was filled for a file variable can be freed again. -/
theorem hasRoom_clearSlots_fillSlot {file : Nat} {name : Text} {slots filled : List Slot}
    (fill : fillSlot (file, name) slots = some filled) : hasRoom (clearSlots file filled) := by
  induction slots generalizing filled with
  | nil => cases fill
  | cons slot slots induction =>
      cases slot with
      | none =>
          obtain rfl := Option.some.inj fill
          simp [hasRoom, clearSlots, clearSlot]
      | some entry =>
          simp only [fillSlot, Option.map_eq_some_iff] at fill
          obtain ⟨rest, fill, rfl⟩ := fill
          exact List.mem_cons_of_mem _ (induction fill)

theorem hasRoom_clearSlots {file : Nat} {slots : List Slot} (room : hasRoom slots) :
    hasRoom (clearSlots file slots) := by
  simp only [hasRoom, clearSlots, List.mem_map]
  exact ⟨none, room, rfl⟩

theorem findSlot_renameSlot {file : Nat} {name : Text} {slots renamed : List Slot}
    (rename : renameSlot file name slots = some renamed) : findSlot file renamed = some name := by
  induction slots generalizing renamed with
  | nil => cases rename
  | cons slot slots induction =>
      cases slot with
      | none =>
          simp only [renameSlot, Option.map_eq_some_iff] at rename
          obtain ⟨rest, rename, rfl⟩ := rename
          simpa [findSlot] using induction rename
      | some entry =>
          by_cases owner : entry.1 = file
          · simp only [renameSlot, owner, if_true, Option.some.injEq] at rename
            subst rename
            simp [findSlot]
          · simp only [renameSlot, owner, if_false, Option.map_eq_some_iff] at rename
            obtain ⟨rest, rename, rfl⟩ := rename
            simpa [findSlot, owner] using induction rename

theorem findSlot_of_renameSlot_none {file : Nat} {name : Text} {slots : List Slot}
    (rename : renameSlot file name slots = none) : findSlot file slots = none := by
  induction slots with
  | nil => rfl
  | cons slot slots induction =>
      cases slot with
      | none => exact induction (by simpa [renameSlot] using rename)
      | some entry =>
          by_cases owner : entry.1 = file
          · simp [renameSlot, owner] at rename
          · simp only [renameSlot, owner, if_false, Option.map_eq_none_iff] at rename
            simpa [findSlot, owner] using induction rename

theorem mem_of_findSlot {file : Nat} {name : Text} {slots : List Slot}
    (found : findSlot file slots = some name) : ∃ owner, some (owner, name) ∈ slots := by
  induction slots with
  | nil => cases found
  | cons slot slots induction =>
      cases slot with
      | none =>
          obtain ⟨owner, mem⟩ := induction found
          exact ⟨owner, List.mem_cons_of_mem _ mem⟩
      | some entry =>
          by_cases same : entry.1 = file
          · simp only [findSlot, same, if_true, Option.some.injEq] at found
            subst found
            exact ⟨entry.1, List.mem_cons_self⟩
          · simp only [findSlot, same, if_false] at found
            obtain ⟨owner, mem⟩ := induction found
            exact ⟨owner, List.mem_cons_of_mem _ mem⟩

/-- The part of a name that is kept. -/
def keptName (name : Text) : Text := name.take (PLANG_MAX_NAME_LEN - 1)

theorem keptName_of_fits {name : Text} (fits : name.length < PLANG_MAX_NAME_LEN) :
    keptName name = name :=
  List.take_of_length_le (Nat.le_sub_one_of_lt fits)

theorem length_fillSlot {entry : Nat × Text} {slots filled : List Slot}
    (fill : fillSlot entry slots = some filled) : filled.length = slots.length := by
  induction slots generalizing filled with
  | nil => cases fill
  | cons slot slots induction =>
      cases slot with
      | none =>
          obtain rfl := Option.some.inj fill
          rfl
      | some other =>
          simp only [fillSlot, Option.map_eq_some_iff] at fill
          obtain ⟨rest, fill, rfl⟩ := fill
          simp [induction fill]

theorem mem_fillSlot {entry : Nat × Text} {slots filled : List Slot} {slot : Slot}
    (fill : fillSlot entry slots = some filled) (mem : slot ∈ filled) :
    slot = some entry ∨ slot ∈ slots := by
  induction slots generalizing filled with
  | nil => cases fill
  | cons first slots induction =>
      cases first with
      | none =>
          obtain rfl := Option.some.inj fill
          exact (List.mem_cons.mp mem).imp_right (List.mem_cons_of_mem _)
      | some other =>
          simp only [fillSlot, Option.map_eq_some_iff] at fill
          obtain ⟨rest, fill, rfl⟩ := fill
          obtain rfl | mem := List.mem_cons.mp mem
          · exact .inr List.mem_cons_self
          · exact (induction fill mem).imp_right (List.mem_cons_of_mem _)

theorem length_renameSlot {file : Nat} {name : Text} {slots renamed : List Slot}
    (rename : renameSlot file name slots = some renamed) : renamed.length = slots.length := by
  induction slots generalizing renamed with
  | nil => cases rename
  | cons slot slots induction =>
      cases slot with
      | none =>
          simp only [renameSlot, Option.map_eq_some_iff] at rename
          obtain ⟨rest, rename, rfl⟩ := rename
          simp [induction rename]
      | some entry =>
          by_cases owner : entry.1 = file
          · simp only [renameSlot, owner, if_true, Option.some.injEq] at rename
            simp [← rename]
          · simp only [renameSlot, owner, if_false, Option.map_eq_some_iff] at rename
            obtain ⟨rest, rename, rfl⟩ := rename
            simp [induction rename]

theorem mem_renameSlot {file : Nat} {name : Text} {slots renamed : List Slot} {slot : Slot}
    (rename : renameSlot file name slots = some renamed) (mem : slot ∈ renamed) :
    slot = some (file, name) ∨ slot ∈ slots := by
  induction slots generalizing renamed with
  | nil => cases rename
  | cons first slots induction =>
      cases first with
      | none =>
          simp only [renameSlot, Option.map_eq_some_iff] at rename
          obtain ⟨rest, rename, rfl⟩ := rename
          obtain rfl | mem := List.mem_cons.mp mem
          · exact .inr List.mem_cons_self
          · exact (induction rename mem).imp_right (List.mem_cons_of_mem _)
      | some entry =>
          by_cases owner : entry.1 = file
          · simp only [renameSlot, owner, if_true, Option.some.injEq] at rename
            subst rename
            exact (List.mem_cons.mp mem).imp_right (List.mem_cons_of_mem _)
          · simp only [renameSlot, owner, if_false, Option.map_eq_some_iff] at rename
            obtain ⟨rest, rename, rfl⟩ := rename
            obtain rfl | mem := List.mem_cons.mp mem
            · exact .inr List.mem_cons_self
            · exact (induction rename mem).imp_right (List.mem_cons_of_mem _)

/-- A table of names. -/
structure NameTable where
  slots : List Slot
  size : slots.length = PLANG_MAX_BINDINGS
  fits : ∀ owner name, some (owner, name) ∈ slots → name.length < PLANG_MAX_NAME_LEN

theorem keptName_fits (name : Text) : (keptName name).length < PLANG_MAX_NAME_LEN := by
  rw [keptName, List.length_take]
  exact Nat.lt_of_le_of_lt (Nat.min_le_left _ _) (by decide)

namespace NameTable

/-- The table that the runtime starts with. -/
def empty : NameTable where
  slots := List.replicate PLANG_MAX_BINDINGS none
  size := List.length_replicate
  fits := fun _ _ mem => nomatch List.eq_of_mem_replicate mem

/-- The name of a file variable. -/
def find (table : NameTable) (file : Nat) : Option Text := findSlot file table.slots

/-- Forget a file variable. -/
def clear (table : NameTable) (file : Nat) : NameTable where
  slots := clearSlots file table.slots
  size := by rw [clearSlots, List.length_map, table.size]
  fits := by
    intro owner name mem
    obtain ⟨slot, slot_mem, cleared⟩ := List.mem_map.mp mem
    cases slot with
    | none => cases cleared
    | some entry =>
        by_cases same : entry.1 = file
        · simp [clearSlot, same] at cleared
        · simp only [clearSlot, same, if_false, Option.some.injEq] at cleared
          obtain ⟨rfl, rfl⟩ := Prod.mk.inj cleared
          exact table.fits _ _ slot_mem

/-- Remember a name in a free slot. -/
def insert (table : NameTable) (file : Nat) (name : Text) : Option NameTable :=
  match filled : fillSlot (file, keptName name) table.slots with
  | none => none
  | some slots =>
      some
        { slots
          size := (length_fillSlot filled).trans table.size
          fits := fun owner other mem =>
            (mem_fillSlot filled mem).elim
              (fun same => by
                obtain ⟨rfl, rfl⟩ := Prod.mk.inj (Option.some.inj same)
                exact keptName_fits name)
              (table.fits owner other) }

/-- Remember another name for a file variable that has one. -/
def rename (table : NameTable) (file : Nat) (name : Text) : Option NameTable :=
  match renamed : renameSlot file (keptName name) table.slots with
  | none => none
  | some slots =>
      some
        { slots
          size := (length_renameSlot renamed).trans table.size
          fits := fun owner other mem =>
            (mem_renameSlot renamed mem).elim
              (fun same => by
                obtain ⟨rfl, rfl⟩ := Prod.mk.inj (Option.some.inj same)
                exact keptName_fits name)
              (table.fits owner other) }

theorem slots_insert {table inserted : NameTable} {file : Nat} {name : Text}
    (insert : table.insert file name = some inserted) :
    fillSlot (file, keptName name) table.slots = some inserted.slots := by
  rw [NameTable.insert] at insert
  split at insert
  · cases insert
  · obtain rfl := Option.some.inj insert
    assumption

theorem slots_insert_none {table : NameTable} {file : Nat} {name : Text}
    (insert : table.insert file name = none) : fillSlot (file, keptName name) table.slots = none := by
  rw [NameTable.insert] at insert
  split at insert
  · assumption
  · cases insert

theorem slots_rename {table renamed : NameTable} {file : Nat} {name : Text}
    (rename : table.rename file name = some renamed) :
    renameSlot file (keptName name) table.slots = some renamed.slots := by
  rw [NameTable.rename] at rename
  split at rename
  · cases rename
  · obtain rfl := Option.some.inj rename
    assumption

theorem slots_rename_none {table : NameTable} {file : Nat} {name : Text}
    (rename : table.rename file name = none) : renameSlot file (keptName name) table.slots = none := by
  rw [NameTable.rename] at rename
  split at rename
  · assumption
  · cases rename

@[simp] theorem find_clear (table : NameTable) (file : Nat) :
    (table.clear file).find file = none :=
  findSlot_clearSlots file table.slots

theorem find_insert {table inserted : NameTable} {file : Nat} {name : Text}
    (absent : table.find file = none) (insert : table.insert file name = some inserted) :
    inserted.find file = some (keptName name) :=
  findSlot_fillSlot absent (slots_insert insert)

theorem find_rename {table renamed : NameTable} {file : Nat} {name : Text}
    (rename : table.rename file name = some renamed) :
    renamed.find file = some (keptName name) :=
  findSlot_renameSlot (slots_rename rename)

theorem find_of_rename_none {table : NameTable} {file : Nat} {name : Text}
    (rename : table.rename file name = none) : table.find file = none :=
  findSlot_of_renameSlot_none (slots_rename_none rename)

theorem find_fits {table : NameTable} {file : Nat} {name : Text}
    (found : table.find file = some name) : name.length < PLANG_MAX_NAME_LEN := by
  obtain ⟨owner, mem⟩ := mem_of_findSlot found
  exact table.fits owner name mem

/-- The table has room for the name of a file variable. -/
def RoomFor (table : NameTable) (file : Nat) : Prop := hasRoom (clearSlots file table.slots)

theorem roomFor_empty (file : Nat) : empty.RoomFor file :=
  hasRoom_clearSlots (List.mem_replicate.mpr ⟨by decide, rfl⟩)

theorem RoomFor.clear {table : NameTable} {file : Nat} (room : table.RoomFor file) :
    (table.clear file).RoomFor file :=
  hasRoom_clearSlots room

theorem RoomFor.insert {table inserted : NameTable} {file : Nat} {name : Text}
    (insert : table.insert file name = some inserted) : inserted.RoomFor file :=
  hasRoom_clearSlots_fillSlot (slots_insert insert)

theorem RoomFor.insert_isSome {table : NameTable} {file : Nat} (room : table.RoomFor file)
    (name : Text) : ∃ inserted, (table.clear file).insert file name = some inserted := by
  have filled := fillSlot_isSome room (file, keptName name)
  cases insert : (table.clear file).insert file name with
  | some inserted => exact ⟨inserted, rfl⟩
  | none =>
      have unfilled : fillSlot (file, keptName name) (clearSlots file table.slots) = none :=
        slots_insert_none insert
      rw [unfilled] at filled
      cases filled

end NameTable

end Runtime

end Plang
