import Mathlib.Data.List.Induction
import Mathlib.Logic.Function.Basic

/-!
# Files by their names

A map from names to contents, entries put into it one after the other, and names removed again.  When
removing what was put gives the map back that there was before.
-/

namespace Plang.FileMap

variable {κ α : Type*} [DecidableEq κ]

def put (files : κ → Option α) (key : κ) (content : α) : κ → Option α :=
  Function.update files key (some content)

def erase (files : κ → Option α) (key : κ) : κ → Option α := Function.update files key none

/-- Two maps that agree on some names. -/
def AgreeOn (property : κ → Prop) (files other : κ → Option α) : Prop :=
  ∀ key, property key → files key = other key

namespace AgreeOn

variable {property : κ → Prop} {files other third : κ → Option α}

omit [DecidableEq κ] in
theorem refl (files : κ → Option α) : AgreeOn property files files := fun _ _ => rfl

omit [DecidableEq κ] in
theorem trans (first : AgreeOn property files other) (second : AgreeOn property other third) :
    AgreeOn property files third :=
  fun key holds => (first key holds).trans (second key holds)

theorem put (agree : AgreeOn property files other) (key : κ) (content : α) :
    AgreeOn property (FileMap.put files key content) (FileMap.put other key content) := by
  intro name holds
  by_cases same : name = key
  · rw [same, FileMap.put, FileMap.put, Function.update_self, Function.update_self]
  · rw [FileMap.put, FileMap.put, Function.update_of_ne same, Function.update_of_ne same,
      agree name holds]

theorem erase (agree : AgreeOn property files other) (key : κ) :
    AgreeOn property (FileMap.erase files key) (FileMap.erase other key) := by
  intro name holds
  by_cases same : name = key
  · rw [same, FileMap.erase, FileMap.erase, Function.update_self, Function.update_self]
  · rw [FileMap.erase, FileMap.erase, Function.update_of_ne same, Function.update_of_ne same,
      agree name holds]

/-- What is put under another name does not show. -/
theorem put_left (agree : AgreeOn property files other) {key : κ} (apart : ¬property key)
    (content : α) : AgreeOn property (FileMap.put files key content) other := by
  intro name holds
  have ne : name ≠ key := fun same => apart (same ▸ holds)
  rw [FileMap.put, Function.update_of_ne ne, agree name holds]

theorem erase_left (agree : AgreeOn property files other) {key : κ} (apart : ¬property key) :
    AgreeOn property (FileMap.erase files key) other := by
  intro name holds
  have ne : name ≠ key := fun same => apart (same ▸ holds)
  rw [FileMap.erase, Function.update_of_ne ne, agree name holds]

end AgreeOn

/-! ### Entries one after the other -/

def putAll (files : κ → Option α) (entries : List (κ × α)) : κ → Option α :=
  entries.foldl (fun files entry => put files entry.1 entry.2) files

/-- The last content that some entries give a name. -/
def latest (entries : List (κ × α)) (key : κ) : Option α :=
  entries.reverse.lookup key

theorem putAll_append_singleton (files : κ → Option α) (entries : List (κ × α)) (last : κ × α) :
    putAll files (entries ++ [last]) = put (putAll files entries) last.1 last.2 := by
  rw [putAll, List.foldl_append]
  rfl

theorem latest_append_singleton (entries : List (κ × α)) (last : κ × α) (key : κ) :
    latest (entries ++ [last]) key = if key = last.1 then some last.2 else latest entries key := by
  rw [latest, List.reverse_append, List.reverse_singleton, List.singleton_append, List.lookup_cons]
  by_cases same : key = last.1
  · simp [same]
  · simp [beq_eq_false_iff_ne.mpr same, same, latest]

theorem putAll_apply (files : κ → Option α) (entries : List (κ × α)) (key : κ) :
    putAll files entries key = (latest entries key).or (files key) := by
  induction entries using List.reverseRecOn with
  | nil => rfl
  | append_singleton entries last induction =>
      rw [putAll_append_singleton, latest_append_singleton, put]
      by_cases same : key = last.1
      · rw [same, Function.update_self, if_pos rfl, Option.some_or]
      · rw [Function.update_of_ne same, if_neg same, induction]

theorem latest_isSome {entries : List (κ × α)} {key : κ} :
    (latest entries key).isSome = true ↔ key ∈ entries.map Prod.fst := by
  induction entries using List.reverseRecOn with
  | nil => simp [latest]
  | append_singleton entries last induction =>
      rw [latest_append_singleton, List.map_append, List.mem_append, ← induction]
      by_cases same : key = last.1
      · simp [same]
      · simp [same]

theorem putAll_of_mem (files : κ → Option α) {entries : List (κ × α)} {key : κ}
    (occurs : key ∈ entries.map Prod.fst) : putAll files entries key = latest entries key := by
  obtain ⟨content, found⟩ := Option.isSome_iff_exists.mp (latest_isSome.mpr occurs)
  rw [putAll_apply, found, Option.some_or]

theorem putAll_of_not_mem (files : κ → Option α) {entries : List (κ × α)} {key : κ}
    (new : key ∉ entries.map Prod.fst) : putAll files entries key = files key := by
  have none : latest entries key = none := by
    rw [← Option.not_isSome_iff_eq_none, latest_isSome]
    exact new
  rw [putAll_apply, none, Option.none_or]

/-! ### Removing names -/

/-- The names that can be removed are. -/
def removeAll (removes : κ → Bool) (files : κ → Option α) (keys : List κ) : κ → Option α :=
  keys.foldl (fun files key => if removes key then erase files key else files) files

theorem removeAll_apply (removes : κ → Bool) (files : κ → Option α) (keys : List κ) (key : κ) :
    removeAll removes files keys key =
      if key ∈ keys ∧ removes key = true then none else files key := by
  induction keys generalizing files with
  | nil => simp [removeAll]
  | cons head rest induction =>
      rw [removeAll, List.foldl_cons]
      refine (induction _).trans ?_
      by_cases same : key = head
      · subst same
        by_cases removed : removes key = true
        · simp [removed, erase]
        · simp [removed]
      · by_cases removed : removes head = true
        · simp [removed, erase, same]
        · simp [removed, same]

theorem AgreeOn.removeAll {property : κ → Prop} {files other : κ → Option α}
    (agree : AgreeOn property files other) (removes : κ → Bool) (keys : List κ) :
    AgreeOn property (FileMap.removeAll removes files keys)
      (FileMap.removeAll removes other keys) := by
  intro key holds
  rw [removeAll_apply, removeAll_apply, agree key holds]

/-- Entries show unless they say what there was. -/
theorem putAll_agree_iff {property : κ → Prop} {files : κ → Option α} {entries : List (κ × α)}
    (within : ∀ entry ∈ entries, property entry.1) :
    AgreeOn property (putAll files entries) files ↔
      ∀ entry ∈ entries, files entry.1 = latest entries entry.1 := by
  constructor
  · intro agree entry occurs
    rw [← agree entry.1 (within entry occurs), putAll_of_mem files (List.mem_map_of_mem occurs)]
  · intro same key _
    by_cases occurs : key ∈ entries.map Prod.fst
    · obtain ⟨entry, entry_occurs, rfl⟩ := List.mem_map.mp occurs
      rw [putAll_of_mem files occurs, same entry entry_occurs]
    · exact putAll_of_not_mem files occurs

/-- Removing the names again gives back what there was, where it was nothing. -/
theorem removeAll_putAll_agree_iff {property : κ → Prop} {removes : κ → Bool}
    {files : κ → Option α} {entries : List (κ × α)}
    (within : ∀ entry ∈ entries, property entry.1) :
    AgreeOn property (removeAll removes (putAll files entries) (entries.map Prod.fst)) files ↔
      ∀ entry ∈ entries,
        files entry.1 = if removes entry.1 = true then none else latest entries entry.1 := by
  constructor
  · intro agree entry occurs
    have name := List.mem_map_of_mem (f := Prod.fst) occurs
    have same := agree entry.1 (within entry occurs)
    rw [removeAll_apply, putAll_of_mem files name] at same
    rw [← same]
    by_cases removed : removes entry.1 = true
    · rw [if_pos ⟨name, removed⟩, if_pos removed]
    · rw [if_neg fun both => removed both.2, if_neg removed]
  · intro same key _
    rw [removeAll_apply]
    by_cases occurs : key ∈ entries.map Prod.fst
    · obtain ⟨entry, entry_occurs, rfl⟩ := List.mem_map.mp occurs
      have before := same entry entry_occurs
      by_cases removed : removes entry.1 = true
      · rw [if_pos removed] at before
        rw [if_pos ⟨occurs, removed⟩, before]
      · rw [if_neg removed] at before
        rw [if_neg fun both => removed both.2, putAll_of_mem files occurs, before]
    · rw [if_neg fun both => occurs both.1, putAll_of_not_mem files occurs]

end Plang.FileMap
