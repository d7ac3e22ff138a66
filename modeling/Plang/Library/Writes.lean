import Mathlib.Logic.Nontrivial.Basic

/-!
# Pieces written into an image

An image is written piece by piece, later pieces over earlier ones.  Two pieces stand beside each
other, whatever is written, if and only if they are the same contents at one place or share no cell.
-/

namespace Writes

variable {ι β ε κ : Type*}

/-- A piece of an image, by where its contents come from. -/
structure Piece (ι : Type*) where
  source : ι
  offset : Nat
  size : Nat

/-- A piece is written over an image. -/
def put (offset size : Nat) (contents image : Nat → β) : Nat → β := fun cell =>
  if offset ≤ cell ∧ cell < offset + size then contents (cell - offset) else image cell

/-- Pieces are written in order. -/
def write (contents : ι → Nat → β) (image : Nat → β) (pieces : List (Piece ι)) : Nat → β :=
  pieces.foldl (fun image piece => put piece.offset piece.size (contents piece.source) image) image

/-- An image holds some contents at an offset. -/
def Holds (image : Nat → β) (offset size : Nat) (contents : Nat → β) : Prop :=
  ∀ cell < size, image (offset + cell) = contents cell

/-- The pieces share no cell. -/
def Piece.Apart (left right : Piece ι) : Prop :=
  ∀ cell, ¬((left.offset ≤ cell ∧ cell < left.offset + left.size) ∧
    right.offset ≤ cell ∧ cell < right.offset + right.size)

/-- The pieces are of the same contents at one place, or share no cell. -/
def Piece.Agrees (left right : Piece ι) : Prop :=
  (left.source = right.source ∧ left.offset = right.offset) ∨ left.Apart right

variable {contents : ι → Nat → β} {image : Nat → β} {piece : Piece ι} {pieces : List (Piece ι)}

theorem write_append (front back : List (Piece ι)) :
    write contents image (front ++ back) = write contents (write contents image front) back :=
  List.foldl_append

theorem holds_put (offset size : Nat) (contents image : Nat → β) :
    Holds (put offset size contents image) offset size contents := by
  intro cell lt
  rw [put, if_pos ⟨by omega, by omega⟩, Nat.add_sub_cancel_left]

/-- What is held stays, where a piece agrees with it. -/
theorem Holds.put {other : Piece ι} (agrees : other.Agrees piece)
    (holds : Holds image piece.offset piece.size (contents piece.source)) :
    Holds (put other.offset other.size (contents other.source) image) piece.offset piece.size
      (contents piece.source) := by
  intro cell lt
  rw [Writes.put]
  split
  · rename_i inside
    rcases agrees with ⟨source_eq, offset_eq⟩ | apart
    · rw [source_eq, offset_eq, Nat.add_sub_cancel_left]
    · exact absurd ⟨inside, by omega, by omega⟩ (apart (piece.offset + cell))
  · exact holds cell lt

theorem Holds.write (holds : Holds image piece.offset piece.size (contents piece.source))
    (agree : ∀ other ∈ pieces, other.Agrees piece) :
    Holds (write contents image pieces) piece.offset piece.size (contents piece.source) := by
  induction pieces generalizing image with
  | nil => exact holds
  | cons other rest induction =>
      exact induction (holds.put (agree other List.mem_cons_self))
        fun later is_later => agree later (List.mem_cons_of_mem _ is_later)

/-- A piece that every piece agrees with is held at the end. -/
theorem holds_write (is_piece : piece ∈ pieces) (agree : ∀ other ∈ pieces, other.Agrees piece) :
    Holds (write contents image pieces) piece.offset piece.size (contents piece.source) := by
  obtain ⟨front, back, rfl⟩ := List.append_of_mem is_piece
  have written : Holds (write contents image (front ++ [piece])) piece.offset piece.size
      (contents piece.source) := by
    rw [write_append]
    exact holds_put _ _ _ _
  rw [List.append_cons, write_append]
  exact written.write fun other is_later =>
    agree other (List.mem_append_right _ (List.mem_cons_of_mem _ is_later))

/-- Pieces that some image holds, whatever their contents, agree. -/
theorem agrees_of_holds [Nontrivial β] {left right : Piece ι}
    (holds : ∀ contents : ι → Nat → β, ∃ image,
      Holds image left.offset left.size (contents left.source) ∧
        Holds image right.offset right.size (contents right.source)) : left.Agrees right := by
  classical
  by_contra differ
  rw [Piece.Agrees, not_or, Piece.Apart, not_forall_not] at differ
  obtain ⟨elsewhere, cell, in_left, in_right⟩ := differ
  obtain ⟨written, blank, ne⟩ := exists_pair_ne β
  obtain ⟨image, left_holds, right_holds⟩ := holds fun source at_cell =>
    if source = left.source ∧ at_cell = cell - left.offset then written else blank
  have left_eq : image (left.offset + (cell - left.offset)) = written :=
    (left_holds (cell - left.offset) (by omega)).trans (if_pos ⟨rfl, rfl⟩)
  have right_eq := right_holds (cell - right.offset) (by omega)
  rw [Nat.add_sub_of_le in_left.1] at left_eq
  rw [Nat.add_sub_of_le in_right.1, left_eq] at right_eq
  dsimp only at right_eq
  split at right_eq
  · rename_i same
    exact elsewhere ⟨same.1.symm, by omega⟩
  · exact ne right_eq

/-! ### Programs that write -/

/-- The program writes the pieces of a kind, and nothing else. -/
def Puts (contents : ι → Nat → β) (program : (Nat → β) → Except ε (Nat → β))
    (pieces : Piece ι → Prop) : Prop :=
  ∃ listed, (∀ image, program image = .ok (write contents image listed)) ∧
    ∀ piece, piece ∈ listed ↔ pieces piece

namespace Puts

theorem nothing {kind : Piece ι → Prop} (none : ∀ piece, ¬kind piece) :
    Puts (ε := ε) contents (fun image => .ok image) kind :=
  ⟨[], fun _ => rfl, fun piece => iff_of_false List.not_mem_nil (none piece)⟩

theorem single (piece : Piece ι) {kind : Piece ι → Prop} (only : ∀ other, kind other ↔ other = piece) :
    Puts (ε := ε) contents
      (fun image => .ok (put piece.offset piece.size (contents piece.source) image)) kind :=
  ⟨[piece], fun _ => rfl, fun other => List.mem_singleton.trans (only other).symm⟩

theorem congr {program other : (Nat → β) → Except ε (Nat → β)} {kind same : Piece ι → Prop}
    (puts : Puts contents program kind) (program_eq : ∀ image, other image = program image)
    (kind_iff : ∀ piece, same piece ↔ kind piece) : Puts contents other same := by
  obtain ⟨listed, runs, member⟩ := puts
  exact ⟨listed, fun image => (program_eq image).trans (runs image),
    fun piece => (member piece).trans (kind_iff piece).symm⟩

/-- One program after another writes what both write. -/
theorem bind {first second : (Nat → β) → Except ε (Nat → β)} {early late : Piece ι → Prop}
    (puts : Puts contents first early) (puts_rest : Puts contents second late) :
    Puts contents (fun image => first image >>= second) fun piece => early piece ∨ late piece := by
  obtain ⟨front, runs, member⟩ := puts
  obtain ⟨back, runs_rest, member_rest⟩ := puts_rest
  refine ⟨front ++ back, fun image => ?_, fun piece => ?_⟩
  · rw [write_append, ← runs_rest]
    exact congrArg (· >>= second) (runs image)
  · rw [List.mem_append, member, member_rest]

/-- A loop writes what its steps do. -/
theorem foldlM (elems : List κ) {program : (Nat → β) → κ → Except ε (Nat → β)}
    {kind : κ → Piece ι → Prop} (puts : ∀ elem ∈ elems, Puts contents (program · elem) (kind elem)) :
    Puts contents (fun image => elems.foldlM program image)
      fun piece => ∃ elem ∈ elems, kind elem piece := by
  induction elems with
  | nil => exact nothing fun piece ⟨elem, is_elem, _⟩ => List.not_mem_nil is_elem
  | cons elem rest induction =>
      have rest_puts := induction fun other is_other => puts other (List.mem_cons_of_mem _ is_other)
      refine ((puts elem List.mem_cons_self).bind rest_puts).congr (fun image => ?_) fun piece => ?_
      · rw [List.foldlM_cons]
      · simp only [List.mem_cons, exists_eq_or_imp]

/-- A loop whose steps cannot fail. -/
theorem foldl (elems : List κ) {step : (Nat → β) → κ → Nat → β} {kind : κ → Piece ι → Prop}
    (puts : ∀ elem ∈ elems,
      Puts (ε := ε) contents (fun image => .ok (step image elem)) (kind elem)) :
    Puts (ε := ε) contents (fun image => .ok (elems.foldl step image))
      fun piece => ∃ elem ∈ elems, kind elem piece := by
  refine (foldlM elems puts).congr (fun image => ?_) fun _ => Iff.rfl
  have pure_eq : elems.foldlM (fun image elem => (pure (step image elem) : Except ε _)) image =
      pure (elems.foldl step image) := List.foldlM_pure
  exact pure_eq.symm

end Puts

/-- A loop that ends has made each of its steps. -/
theorem step_of_foldlM {σ : Type*} {program : σ → κ → Except ε σ} {elems : List κ} {elem : κ}
    (is_elem : elem ∈ elems) {start final : σ} (ended : elems.foldlM program start = .ok final) :
    ∃ before after, program before elem = .ok after := by
  induction elems generalizing start with
  | nil => cases is_elem
  | cons head rest induction =>
      rw [List.foldlM_cons] at ended
      cases stepped : program start head with
      | error failure =>
          rw [stepped] at ended
          cases ended
      | ok next =>
          rw [stepped] at ended
          rcases List.mem_cons.mp is_elem with rfl | in_rest
          · exact ⟨start, next, stepped⟩
          · exact induction in_rest ended

end Writes
