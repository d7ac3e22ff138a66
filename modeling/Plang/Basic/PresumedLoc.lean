import Mathlib.Data.Nat.Count
import Mathlib.Data.Set.Card
import Plang.Basic.SourceManager
import Plang.Library.Utf8

/-!
# Lines and columns

A location is resolved by two binary searches, for its buffer and for its line.  The column counts
characters: a byte that is no part of an encoded character counts by itself.
-/

namespace Plang

/-- `std::upper_bound` on numbers in increasing order: how many of them are not above the value. -/
def upper_bound (bounds : List Nat) (value : Nat) : Nat :=
  (bounds.takeWhile (· ≤ value)).length

/-- `std::upper_bound` splits increasing numbers. -/
theorem takeWhile_eq_filter {bounds : List Nat} (increasing : bounds.Pairwise (· < ·))
    (value : Nat) : bounds.takeWhile (· ≤ value) = bounds.filter (· ≤ value) := by
  induction bounds with
  | nil => rfl
  | cons bound bounds induction =>
      obtain ⟨above, increasing⟩ := List.pairwise_cons.mp increasing
      by_cases below : bound ≤ value
      · rw [List.takeWhile_cons_of_pos (by simpa using below),
          List.filter_cons_of_pos (by simpa using below), induction increasing]
      · rw [List.takeWhile_cons_of_neg (by simpa using below),
          List.filter_cons_of_neg (by simpa using below)]
        symm
        rw [List.filter_eq_nil_iff]
        intro other mem
        have later := above other mem
        simp only [decide_eq_true_eq]
        omega

/-- The search finds the largest of the numbers that is not above the value. -/
theorem upper_bound_found {first value : Nat} {bounds : List Nat}
    (increasing : (first :: bounds).Pairwise (· < ·)) (below : first ≤ value) :
    ∃ index bound, upper_bound (first :: bounds) value = index + 1 ∧
      (first :: bounds)[index]? = some bound ∧ bound ≤ value ∧
      ∀ other ∈ first :: bounds, other ≤ value → other ≤ bound := by
  induction bounds generalizing first with
  | nil => exact ⟨0, first, by simp [upper_bound, below], rfl, below, by simp⟩
  | cons second bounds induction =>
      obtain ⟨above, rest⟩ := List.pairwise_cons.mp increasing
      have counted : upper_bound (first :: second :: bounds) value =
          upper_bound (second :: bounds) value + 1 := by
        rw [upper_bound, List.takeWhile_cons_of_pos (by simpa using below), List.length_cons,
          upper_bound]
      by_cases second_below : second ≤ value
      · obtain ⟨index, bound, index_eq, found, bound_le, largest⟩ := induction rest second_below
        refine ⟨index + 1, bound, by rw [counted, index_eq], found, bound_le, ?_⟩
        intro other mem other_le
        obtain rfl | mem := List.mem_cons.mp mem
        · exact ((above second List.mem_cons_self).trans_le
            (largest second List.mem_cons_self second_below)).le
        · exact largest other mem other_le
      · refine ⟨0, first, ?_, rfl, below, ?_⟩
        · rw [counted, upper_bound, List.takeWhile_cons_of_neg (by simpa using second_below)]
          rfl
        · intro other mem other_le
          obtain rfl | mem := List.mem_cons.mp mem
          · exact le_rfl
          · exfalso
            obtain rfl | mem := List.mem_cons.mp mem
            · exact second_below other_le
            · have := (List.pairwise_cons.mp rest).1 other mem
              omega

/-! ### Characters -/

/-- A byte behind the first one of a character. -/
def isUtf8ContinuationByte (c : Char) : Bool := c.toNat / 64 == 2

/-- The length that a first byte calls for. -/
def utf8LeadLength (c : Char) : Nat :=
  if c.toNat < 0x80 then 1
  else if 0xC2 ≤ c.toNat ∧ c.toNat ≤ 0xDF then 2
  else if 0xE0 ≤ c.toNat ∧ c.toNat ≤ 0xEF then 3
  else if 0xF0 ≤ c.toNat ∧ c.toNat ≤ 0xF4 then 4
  else 1

/-- The length of the character in front of a text, one where there is none. -/
def utf8SequenceLength : Text → Nat
  | [] => 1
  | c :: rest =>
      let len := utf8LeadLength c
      let first := (rest.head?.map Char.toNat).getD 0
      if rest.length + 1 < len then 1
      else if !(rest.take (len - 1)).all isUtf8ContinuationByte then 1
      else if len = 3 ∧ c.toNat = 0xE0 ∧ first < 0xA0 then 1
      else if len = 3 ∧ c.toNat = 0xED ∧ 0xA0 ≤ first then 1
      else if len = 4 ∧ c.toNat = 0xF0 ∧ first < 0x90 then 1
      else if len = 4 ∧ c.toNat = 0xF4 ∧ 0x8F < first then 1
      else len

/-- The bytes of a text. -/
def codes (text : Text) : List Nat := text.map Char.toNat

/-- A cell of a line: an encoded character, or a byte that none begins with. -/
inductive DisplayCell (bytes : List Nat) : Nat → Prop where
  | character (c : Char) (front : Utf8.Front bytes c) : DisplayCell bytes (Utf8.encoded c).length
  | byte (none : ∀ c, ¬Utf8.Front bytes c) : DisplayCell bytes 1

/-- The bytes of a text at which a cell of the display begins. -/
inductive DisplayStart (text : Text) : Nat → Prop where
  | zero : DisplayStart text 0
  | next {pos length : Nat} (start : DisplayStart text pos)
      (cell : DisplayCell ((codes text).drop pos) length) : DisplayStart text (pos + length)

theorem DisplayCell.unique {bytes : List Nat} {length other : Nat} (cell : DisplayCell bytes length)
    (other_cell : DisplayCell bytes other) : length = other := by
  cases cell with
  | character c front =>
      cases other_cell with
      | character d other_front => exact congrArg List.length (front.unique other_front)
      | byte none => exact absurd front (none c)
  | byte none =>
      cases other_cell with
      | character d front => exact absurd front (none d)
      | byte => rfl

theorem DisplayCell.pos {bytes : List Nat} {length : Nat} (cell : DisplayCell bytes length) :
    0 < length := by
  cases cell with
  | character c front =>
      obtain ⟨lead, tails, encoded_eq, -, -⟩ := Utf8.encoded_eq_cons c
      rw [encoded_eq]
      exact Nat.succ_pos _
  | byte => exact Nat.one_pos

@[simp] theorem isUtf8ContinuationByte_eq (c : Char) :
    isUtf8ContinuationByte c = decide (Utf8.IsTail c.toNat) := by
  rw [isUtf8ContinuationByte, Bool.beq_eq_decide_eq, decide_eq_decide, Utf8.IsTail]
  omega

section Lengths

variable {c b d e : Char} {rest : Text}

theorem length_one (lead : utf8LeadLength c = 1) : utf8SequenceLength (c :: rest) = 1 := by
  simp [utf8SequenceLength, lead]

theorem length_two (lead : utf8LeadLength c = 2) :
    utf8SequenceLength (c :: b :: rest) = if Utf8.IsTail b.toNat then 2 else 1 := by
  simp [utf8SequenceLength, lead]

theorem length_three (lead : utf8LeadLength c = 3) :
    utf8SequenceLength (c :: b :: d :: rest) =
      if Utf8.IsTail b.toNat ∧ Utf8.IsTail d.toNat ∧ (c.toNat = 0xE0 → 0xA0 ≤ b.toNat) ∧
          (c.toNat = 0xED → b.toNat < 0xA0) then 3 else 1 := by
  simp only [utf8SequenceLength, lead]
  simp
  unfold Utf8.IsTail
  split_ifs <;> omega

theorem length_four (lead : utf8LeadLength c = 4) :
    utf8SequenceLength (c :: b :: d :: e :: rest) =
      if Utf8.IsTail b.toNat ∧ Utf8.IsTail d.toNat ∧ Utf8.IsTail e.toNat ∧
          (c.toNat = 0xF0 → 0x90 ≤ b.toNat) ∧ (c.toNat = 0xF4 → b.toNat < 0x90) then 4 else 1 := by
  simp only [utf8SequenceLength, lead]
  simp
  unfold Utf8.IsTail
  split_ifs <;> omega

theorem length_short (short : rest.length + 1 < utf8LeadLength c) :
    utf8SequenceLength (c :: rest) = 1 := by
  simp only [utf8SequenceLength]
  rw [if_pos short]

theorem utf8LeadLength_eq (valid : c.toNat < 0x80 ∨ 0xC2 ≤ c.toNat ∧ c.toNat ≤ 0xF4) :
    utf8LeadLength c = Utf8.leadLength c.toNat := by
  unfold utf8LeadLength Utf8.leadLength
  split_ifs <;> omega

theorem utf8LeadLength_cases :
    utf8LeadLength c = 1 ∨ utf8LeadLength c = 2 ∨ utf8LeadLength c = 3 ∨
      utf8LeadLength c = 4 := by
  unfold utf8LeadLength
  split_ifs <;> simp

end Lengths

/-- A first byte tells the length of what it begins, so that so many bytes decide. -/
theorem cell_of_lead {c : Char} {rest : Text} {k : Nat} {good : Prop} [Decidable good]
    (lead : Utf8.leadLength c.toNat = k) (long : k ≤ rest.length + 1)
    (sound : (∃ d, Utf8.encoded d = (codes (c :: rest)).take k) ↔ good) :
    DisplayCell (codes (c :: rest)) (if good then k else 1) := by
  split
  · rename_i holds
    obtain ⟨d, encoded_eq⟩ := sound.mpr holds
    have front : Utf8.Front (codes (c :: rest)) d :=
      ⟨(codes (c :: rest)).drop k, by rw [encoded_eq, List.take_append_drop]⟩
    have cell := DisplayCell.character d front
    rwa [encoded_eq, List.length_take, codes, List.length_map, List.length_cons,
      Nat.min_eq_left long] at cell
  · rename_i fails
    refine DisplayCell.byte fun d front => fails (sound.mp ⟨d, ?_⟩)
    have taken := List.prefix_iff_eq_take.mp (show Utf8.encoded d <+: codes (c :: rest) from front)
    rwa [front.length_eq rfl, lead] at taken

/-- The decoder finds the cell in front of a text. -/
theorem cell_utf8SequenceLength (text : Text) :
    DisplayCell (codes text) (utf8SequenceLength text) := by
  cases text with
  | nil =>
      apply DisplayCell.byte
      intro c front
      have length_le := front.length_le
      obtain ⟨lead, tails, encoded_eq, -, -⟩ := Utf8.encoded_eq_cons c
      rw [encoded_eq] at length_le
      simp [codes] at length_le
  | cons c rest =>
      by_cases valid : c.toNat < 0x80 ∨ 0xC2 ≤ c.toNat ∧ c.toNat ≤ 0xF4
      · have lead := utf8LeadLength_eq valid
        by_cases short : rest.length + 1 < utf8LeadLength c
        · rw [length_short short]
          refine DisplayCell.byte fun d front => ?_
          have length_le := front.length_le
          rw [front.length_eq rfl, ← lead] at length_le
          simp only [codes, List.length_map, List.length_cons] at length_le
          omega
        · rw [not_lt] at short
          obtain one | two | three | four := utf8LeadLength_cases (c := c)
          · rw [length_one one, ← ite_self (c := c.toNat < 0x80) 1]
            exact cell_of_lead (lead.symm.trans one) (by omega) Utf8.encoded_one
          · obtain _ | ⟨b, rest⟩ := rest
            · rw [two] at short
              simp at short
            · rw [length_two two]
              refine cell_of_lead (lead.symm.trans two) (by simp) (Utf8.encoded_two.trans ?_)
              unfold utf8LeadLength at two
              split_ifs at two <;> tauto
          · obtain _ | ⟨b, _ | ⟨d, rest⟩⟩ := rest
            · rw [three] at short
              simp at short
            · rw [three] at short
              simp at short
            · rw [length_three three]
              refine cell_of_lead (lead.symm.trans three) (by simp) (Utf8.encoded_three.trans ?_)
              unfold utf8LeadLength at three
              split_ifs at three <;> tauto
          · obtain _ | ⟨b, _ | ⟨d, _ | ⟨e, rest⟩⟩⟩ := rest
            · rw [four] at short
              simp at short
            · rw [four] at short
              simp at short
            · rw [four] at short
              simp at short
            · rw [length_four four]
              refine cell_of_lead (lead.symm.trans four) (by simp) (Utf8.encoded_four.trans ?_)
              unfold utf8LeadLength at four
              split_ifs at four <;> tauto
      · -- No character begins so.
        have lead : utf8LeadLength c = 1 := by
          unfold utf8LeadLength
          split_ifs <;> omega
        rw [length_one lead]
        exact DisplayCell.byte fun d front => valid front.lead_valid

/-- The column counter: from a place, character by character, to an offset. -/
def columnFrom (text : Text) (off pos column : Nat) : Nat :=
  if pos < off then
    columnFrom text off (pos + utf8SequenceLength (text.drop pos)) (column + 1)
  else column
termination_by off - pos
decreasing_by
  have := (cell_utf8SequenceLength (text.drop pos)).pos
  omega

theorem cellStart_step {text : Text} {pos : Nat} (start : DisplayStart text pos) :
    DisplayStart text (pos + utf8SequenceLength (text.drop pos)) :=
  start.next (by simpa [codes] using cell_utf8SequenceLength (text.drop pos))

/-- A cell begins nowhere inside another one. -/
theorem DisplayStart.apart {text : Text} {pos other length : Nat} (start : DisplayStart text pos)
    (other_start : DisplayStart text other) (cell : DisplayCell ((codes text).drop pos) length)
    (before : pos < other) : pos + length ≤ other := by
  induction sum : pos + other using Nat.strongRecOn generalizing pos other length with
  | ind sum induction =>
      cases other_start with
      | zero => omega
      | @next prior prior_length prior_start prior_cell =>
          have prior_pos := prior_cell.pos
          obtain earlier | rfl | later := Nat.lt_trichotomy pos prior
          · have := induction (pos + prior) (by omega) start prior_start cell earlier rfl
            omega
          · rw [cell.unique prior_cell]
          · have := induction (prior + pos) (by omega) prior_start start prior_cell later rfl
            omega

/-- How many cells of a text begin before an offset. -/
noncomputable def cellsBefore (text : Text) (off : Nat) : Nat :=
  {pos | pos < off ∧ DisplayStart text pos}.ncard

theorem cellsBefore_step {text : Text} {pos : Nat} (start : DisplayStart text pos) :
    cellsBefore text (pos + utf8SequenceLength (text.drop pos)) = cellsBefore text pos + 1 := by
  have cell : DisplayCell ((codes text).drop pos) (utf8SequenceLength (text.drop pos)) := by
    simpa [codes] using cell_utf8SequenceLength (text.drop pos)
  have split :
      {place | place < pos + utf8SequenceLength (text.drop pos) ∧ DisplayStart text place} =
      insert pos {place | place < pos ∧ DisplayStart text place} := by
    ext place
    simp only [Set.mem_ofPred_eq, Set.mem_insert_iff]
    constructor
    · rintro ⟨below, place_start⟩
      obtain earlier | rfl | later := Nat.lt_trichotomy place pos
      · exact .inr ⟨earlier, place_start⟩
      · exact .inl rfl
      · have := start.apart place_start cell later
        omega
    · rintro (rfl | ⟨earlier, place_start⟩)
      · exact ⟨Nat.lt_add_of_pos_right cell.pos, start⟩
      · exact ⟨by omega, place_start⟩
  have finite : {place | place < pos ∧ DisplayStart text place}.Finite :=
    (Set.finite_lt_nat pos).subset fun place inside => inside.1
  rw [cellsBefore, split, Set.ncard_insert_of_notMem (by simp) finite, cellsBefore]

/-- The counter counts the cells that begin before the offset. -/
theorem columnFrom_eq {text : Text} {start rel off column : Nat}
    (here : DisplayStart (text.drop start) rel)
    (counted : column = cellsBefore (text.drop start) rel + 1)
    (within : ∀ pos < rel, DisplayStart (text.drop start) pos → pos < off) :
    columnFrom text (start + off) (start + rel) column =
      cellsBefore (text.drop start) off + 1 := by
  induction left : off - rel using Nat.strongRecOn generalizing rel column with
  | ind left induction =>
      rw [columnFrom]
      by_cases more : rel < off
      · rw [if_pos (by omega)]
        have step := cellStart_step here
        have length_pos := (cell_utf8SequenceLength ((text.drop start).drop rel)).pos
        rw [← List.drop_drop, Nat.add_assoc]
        refine induction _ (by omega) step (by rw [counted, cellsBefore_step here]) ?_ rfl
        intro pos below pos_start
        obtain earlier | rfl | later := Nat.lt_trichotomy pos rel
        · exact within pos earlier pos_start
        · exact more
        · have cell : DisplayCell ((codes (text.drop start)).drop rel)
              (utf8SequenceLength ((text.drop start).drop rel)) := by
            simpa [codes] using cell_utf8SequenceLength ((text.drop start).drop rel)
          have := here.apart pos_start cell later
          omega
      · rw [if_neg (by omega), counted, cellsBefore, cellsBefore]
        congr 2
        ext pos
        simp only [Set.mem_ofPred_eq]
        constructor
        · rintro ⟨below, pos_start⟩
          exact ⟨within pos below pos_start, pos_start⟩
        · rintro ⟨below, pos_start⟩
          exact ⟨by omega, pos_start⟩

theorem columnFrom_start (text : Text) (start off : Nat) :
    columnFrom text (start + off) start 1 = cellsBefore (text.drop start) off + 1 := by
  refine columnFrom_eq (show DisplayStart (text.drop start) 0 from .zero) ?_ (by simp)
  rw [cellsBefore]
  simp

/-! ### Lines -/

/-- A line ends with this byte: a line feed, or a carriage return that no line feed follows. -/
def LineEndAt (text : Text) (pos : Nat) : Prop :=
  text[pos]? = some '\n' ∨ text[pos]? = some '\r' ∧ text[pos + 1]? ≠ some '\n'

instance (text : Text) : DecidablePred (LineEndAt text) :=
  fun _ => inferInstanceAs (Decidable (_ ∨ _))

/-- Where the lines behind a place begin: a carriage return takes a line feed behind it along. -/
def lineStartsFrom : Nat → Text → List Nat
  | _, [] => []
  | pos, '\n' :: rest => (pos + 1) :: lineStartsFrom (pos + 1) rest
  | pos, '\r' :: '\n' :: rest => (pos + 2) :: lineStartsFrom (pos + 2) rest
  | pos, '\r' :: rest => (pos + 1) :: lineStartsFrom (pos + 1) rest
  | pos, _ :: rest => lineStartsFrom (pos + 1) rest

/-- The line starts of a buffer, in order. -/
def Buffer.LineStarts (buffer : Buffer) : List Nat := 0 :: lineStartsFrom 0 buffer.text

/-- The places behind the line ends of a text that begins at a place. -/
def behindEnds (pos : Nat) (text : Text) : List Nat :=
  ((List.range text.length).filter (LineEndAt text ·)).map (pos + · + 1)

theorem behindEnds_cons (pos : Nat) (c : Char) (text : Text) :
    behindEnds pos (c :: text) =
      (if LineEndAt (c :: text) 0 then [pos + 1] else []) ++ behindEnds (pos + 1) text := by
  have behind : ((List.range text.length).map Nat.succ).filter (LineEndAt (c :: text) ·) =
      ((List.range text.length).filter (LineEndAt text ·)).map Nat.succ := by
    rw [List.filter_map]
    rfl
  have moved : ((List.range text.length).filter (LineEndAt text ·)).map
      ((pos + · + 1) ∘ Nat.succ) = behindEnds (pos + 1) text :=
    List.map_congr_left fun place _ => by simp only [Function.comp]; omega
  rw [behindEnds, List.length_cons, List.range_succ_eq_map]
  by_cases ends : LineEndAt (c :: text) 0
  · rw [List.filter_cons_of_pos (by simpa using ends), behind, List.map_cons, List.map_map, moved,
      if_pos ends]
    rfl
  · rw [List.filter_cons_of_neg (by simpa using ends), behind, List.map_map, moved, if_neg ends]
    rfl

/-- Every line but the first begins behind a line end. -/
theorem lineStartsFrom_eq (pos : Nat) (text : Text) :
    lineStartsFrom pos text = behindEnds pos text := by
  induction pos, text using lineStartsFrom.induct with
  | case1 => rfl
  | case2 pos rest induction =>
      rw [lineStartsFrom, induction, behindEnds_cons, if_pos (by simp [LineEndAt])]
      rfl
  | case3 pos rest induction =>
      rw [lineStartsFrom, induction, behindEnds_cons, if_neg (by simp [LineEndAt]), behindEnds_cons,
        if_pos (by simp [LineEndAt])]
      rfl
  | case4 pos rest other induction =>
      have alone : LineEndAt ('\r' :: rest) 0 := by
        refine .inr ⟨rfl, fun feed => ?_⟩
        cases rest with
        | nil => simp at feed
        | cons c rest => exact other rest (by simpa using feed)
      rw [lineStartsFrom, induction, behindEnds_cons, if_pos alone]
      · rfl
      · exact other
  | case5 pos c rest no_feed no_pair no_return induction =>
      have ordinary : ¬LineEndAt (c :: rest) 0 := by
        rintro (feed | ⟨carriage, -⟩)
        · exact no_feed (by simpa using feed)
        · exact no_return (by simpa using carriage)
      rw [lineStartsFrom, induction, behindEnds_cons, if_neg ordinary]
      · rfl
      · exact no_feed
      · exact no_pair
      · exact no_return

theorem lineStarts_increasing (buffer : Buffer) : buffer.LineStarts.Pairwise (· < ·) := by
  rw [Buffer.LineStarts, lineStartsFrom_eq]
  refine List.pairwise_cons.mpr ⟨?_, ?_⟩
  · intro place mem
    obtain ⟨before, -, rfl⟩ := List.mem_map.mp mem
    exact Nat.succ_pos _
  · refine List.Pairwise.map _ ?_ (List.pairwise_lt_range.filter _)
    intro left right before
    omega

theorem mem_lineStarts {buffer : Buffer} {start : Nat} :
    start ∈ buffer.LineStarts ↔
      start = 0 ∨ ∃ pos < buffer.text.length, LineEndAt buffer.text pos ∧ start = pos + 1 := by
  rw [Buffer.LineStarts, lineStartsFrom_eq, List.mem_cons, behindEnds, List.mem_map]
  refine or_congr_right (exists_congr fun pos => ?_)
  rw [List.mem_filter, List.mem_range, decide_eq_true_eq]
  constructor
  · rintro ⟨⟨inside, ends⟩, rfl⟩
    exact ⟨inside, ends, by omega⟩
  · rintro ⟨inside, ends, rfl⟩
    exact ⟨⟨inside, ends⟩, by omega⟩

/-- As many line starts lie at or before an offset as line ends before it, and the first. -/
theorem upper_bound_lineStarts (buffer : Buffer) {off : Nat}
    (inside : off ≤ buffer.text.length) :
    upper_bound buffer.LineStarts off = Nat.count (LineEndAt buffer.text) off + 1 := by
  obtain ⟨more, length_eq⟩ := Nat.exists_eq_add_of_le inside
  have before : (List.range off).countP (fun pos => decide (0 + pos + 1 ≤ off) &&
      decide (LineEndAt buffer.text pos)) = Nat.count (LineEndAt buffer.text) off := by
    refine List.countP_congr fun pos mem => ?_
    have below := List.mem_range.mp mem
    simp [below]
  have behind : ((List.range more).map (off + ·)).countP (fun pos => decide (0 + pos + 1 ≤ off) &&
      decide (LineEndAt buffer.text pos)) = 0 := by
    refine List.countP_eq_zero.mpr fun pos mem => ?_
    obtain ⟨beyond, -, rfl⟩ := List.mem_map.mp mem
    simp only [Bool.and_eq_true, decide_eq_true_eq]
    omega
  rw [upper_bound, takeWhile_eq_filter (lineStarts_increasing buffer), Buffer.LineStarts,
    lineStartsFrom_eq, List.filter_cons_of_pos (by simp), List.length_cons, behindEnds,
    ← List.countP_eq_length_filter, List.countP_map, List.countP_filter, length_eq, List.range_add,
    List.countP_append]
  exact congrArg Nat.succ (congrArg₂ (· + ·) before behind)

/-- A line begins here and the offset lies in it. -/
def LineOf (text : Text) (off start : Nat) : Prop :=
  start ≤ off ∧ (start = 0 ∨ LineEndAt text (start - 1)) ∧
    ∀ pos, start ≤ pos → pos < off → ¬LineEndAt text pos

/-- The start that is looked up is the one of the offset's line. -/
theorem lineOf_lineStarts (buffer : Buffer) {off : Nat} (inside : off ≤ buffer.text.length) :
    ∃ start, buffer.LineStarts[upper_bound buffer.LineStarts off - 1]? = some start ∧
      LineOf buffer.text off start := by
  obtain ⟨index, start, index_eq, found, start_le, largest⟩ :=
    upper_bound_found (lineStarts_increasing buffer) (Nat.zero_le off)
  refine ⟨start, ?_, start_le, ?_, ?_⟩
  · rw [Buffer.LineStarts, index_eq]
    exact found
  · obtain rfl | ⟨pos, -, ends, rfl⟩ := mem_lineStarts.mp (List.mem_of_getElem? found)
    · exact .inl rfl
    · exact .inr ends
  · intro pos start_le below ends
    have listed : pos + 1 ∈ buffer.LineStarts :=
      mem_lineStarts.mpr (.inr ⟨pos, by omega, ends, rfl⟩)
    have := largest (pos + 1) listed below
    omega

/-! ### Locations -/

/-- A location as a person reads it. -/
structure PresumedLoc where
  /-- The name of the buffer. -/
  Filename : Text := []
  /-- Counted from one, zero for nowhere. -/
  Line : Nat := 0
  /-- Counted from one, zero for nowhere. -/
  Column : Nat := 0
  deriving DecidableEq

namespace SourceManager

/-- The buffer a location falls in, by its place among the buffers. -/
def bufferForLoc (sm : SourceManager) (loc : Nat) : Option Nat :=
  if loc = 0 then none
  else
    match upper_bound (sm.buffers.map Buffer.base) loc with
    | 0 => none
    | index + 1 =>
        (sm.buffers[index]?).bind fun buffer =>
          if buffer.base + buffer.text.length < loc then none else some index

/-- The number of a buffer, zero for none. -/
def indexOf (place : Option Nat) : Nat :=
  match place with
  | none => 0
  | some index => index + 1

/-- The buffer of a location. -/
def getFileID (sm : SourceManager) (loc : Nat) : Nat := indexOf (sm.bufferForLoc loc)

/-- The file, the line and the column of a location. -/
def getPresumedLoc (sm : SourceManager) (loc : Nat) : PresumedLoc :=
  match (sm.bufferForLoc loc).bind (sm.buffers[·]?) with
  | none => {}
  | some buffer =>
      let off := loc - buffer.base
      let idx := upper_bound buffer.LineStarts off - 1
      let start := (buffer.LineStarts[idx]?).getD 0
      { Filename := buffer.name, Line := idx + 1, Column := columnFrom buffer.text off start 1 }

theorem bases_increasing (sm : SourceManager) :
    (sm.buffers.map Buffer.base).Pairwise (· < ·) := by
  refine List.Pairwise.map _ (fun left right apart => ?_) sm.laid.separated
  exact lt_of_le_of_lt (Nat.le_add_right _ _) apart

theorem bufferFor_eq {sm : SourceManager} {fid : Nat} {buffer : Buffer}
    (found : sm.bufferFor fid = some buffer) : sm.buffers[fid - 1]? = some buffer := by
  have fid_pos := (bufferFor_fid found).1
  rwa [bufferFor, if_neg fid_pos.ne'] at found

/-- A location in a buffer or at its end falls in that buffer. -/
theorem bufferForLoc_eq {sm : SourceManager} {fid loc : Nat} (inside : sm.InBuffer fid loc) :
    sm.bufferForLoc loc = some (fid - 1) := by
  have loc_pos := inside.pos
  obtain ⟨buffer, known, base_le, le_end⟩ := inside
  have place := bufferFor_eq known
  have increasing := bases_increasing sm
  obtain ⟨first, rest, bases_eq⟩ : ∃ first rest, sm.buffers.map Buffer.base = first :: rest :=
    List.exists_cons_of_ne_nil fun empty => by
      rw [List.map_eq_nil_iff] at empty
      rw [empty] at place
      cases place
  have listed : buffer.base ∈ first :: rest :=
    bases_eq ▸ List.mem_map_of_mem (List.mem_of_getElem? place)
  rw [bases_eq] at increasing
  have first_le : first ≤ loc := by
    obtain same | later := List.mem_cons.mp listed
    · exact same ▸ base_le
    · exact ((List.pairwise_cons.mp increasing).1 _ later).le.trans base_le
  obtain ⟨index, bound, index_eq, found, bound_le, largest⟩ := upper_bound_found increasing first_le
  rw [← bases_eq, List.getElem?_map] at found
  obtain ⟨other, other_place, rfl⟩ := Option.map_eq_some_iff.mp found
  have base_le_other := largest _ listed base_le
  obtain ⟨index_lt, other_eq⟩ := List.getElem?_eq_some_iff.mp other_place
  obtain ⟨fid_lt, buffer_eq⟩ := List.getElem?_eq_some_iff.mp place
  have apart := List.pairwise_iff_getElem.mp sm.laid.separated
  -- An earlier buffer begins before this one, a later one behind the location.
  obtain earlier | rfl | later := Nat.lt_trichotomy index (fid - 1)
  · have := apart index (fid - 1) index_lt fid_lt earlier
    rw [other_eq, buffer_eq] at this
    omega
  · rw [other_place] at place
    obtain rfl := Option.some.inj place
    rw [bufferForLoc, if_neg loc_pos.ne', bases_eq, index_eq]
    simp only [other_place, Option.bind_some]
    rw [if_neg (by omega)]
  · have := apart (fid - 1) index fid_lt index_lt later
    rw [other_eq, buffer_eq] at this
    omega

theorem getFileID_eq {sm : SourceManager} {fid loc : Nat} (inside : sm.InBuffer fid loc) :
    sm.getFileID loc = fid := by
  obtain ⟨buffer, found, -, -⟩ := id inside
  have fid_pos := (bufferFor_fid found).1
  rw [getFileID, bufferForLoc_eq inside, indexOf]
  omega

/-- A location stands for a byte of a buffer, or for the place behind its last one. -/
structure Stands (sm : SourceManager) (loc fid : Nat) (buffer : Buffer) (offset : Nat) : Prop where
  /-- The buffer is found again. -/
  file : sm.getFileID loc = fid
  /-- So is the offset in it. -/
  decoded : (sm.bufferForLoc loc).bind (sm.buffers[·]?) = some buffer ∧ loc - buffer.base = offset
  /-- The name is the buffer's. -/
  name : (sm.getPresumedLoc loc).Filename = buffer.name
  /-- The line is one more than the lines that end before the offset. -/
  line : (sm.getPresumedLoc loc).Line = Nat.count (LineEndAt buffer.text) offset + 1
  /-- The column is one more than the cells that begin before the offset in its line. -/
  column : ∃ start, LineOf buffer.text offset start ∧
    (sm.getPresumedLoc loc).Column = cellsBefore (buffer.text.drop start) (offset - start) + 1

theorem stands {sm : SourceManager} {fid : Nat} {buffer : Buffer}
    (found : sm.bufferFor fid = some buffer) {offset : Nat}
    (in_range : offset ≤ buffer.text.length) :
    sm.Stands (sm.getLocForOffset fid offset) fid buffer offset := by
  have inside := inBuffer_getLocForOffset found offset
  have loc_eq : sm.getLocForOffset fid offset = buffer.base + offset := by
    rw [getLocForOffset_eq found, Nat.min_eq_left in_range]
  have again : (sm.bufferForLoc (sm.getLocForOffset fid offset)).bind (sm.buffers[·]?) =
      some buffer := by
    rw [bufferForLoc_eq inside]
    exact bufferFor_eq found
  have off_eq : sm.getLocForOffset fid offset - buffer.base = offset := by omega
  obtain ⟨start, start_eq, line_of⟩ := lineOf_lineStarts buffer in_range
  have presumed : sm.getPresumedLoc (sm.getLocForOffset fid offset) =
      { Filename := buffer.name
        Line := Nat.count (LineEndAt buffer.text) offset + 1
        Column := cellsBefore (buffer.text.drop start) (offset - start) + 1 } := by
    rw [getPresumedLoc, again]
    simp only [off_eq, start_eq, Option.getD_some]
    rw [upper_bound_lineStarts buffer in_range, Nat.add_sub_cancel, ← columnFrom_start,
      Nat.add_sub_of_le line_of.1]
  exact ⟨getFileID_eq inside, ⟨again, off_eq⟩, by rw [presumed], by rw [presumed],
    start, line_of, by rw [presumed]⟩

/-- The managers that registrations of buffers and files lead to; a refused one changes nothing. -/
inductive Registers : SourceManager → SourceManager → Prop where
  | none (sm : SourceManager) : Registers sm sm
  | buffer {sm between after : SourceManager} {fid : Nat} {name text : Text}
      (before : Registers sm between) (added : between.addBuffer name text = some (fid, after)) :
      Registers sm after
  | file {sm between after : SourceManager} {fid : Nat} {fs : FileSystem} {path : Text}
      (before : Registers sm between) (added : between.addFile fs path = some (fid, after)) :
      Registers sm after

theorem Registers.bounded {sm after : SourceManager} (registers : Registers sm after)
    (bounded : sm.nextBase ≤ maxLocation) : after.nextBase ≤ maxLocation := by
  induction registers with
  | none => exact bounded
  | buffer _ added induction =>
      obtain ⟨fits, -, -, next_eq⟩ := addBuffer_eq_some added
      omega
  | file _ added induction =>
      obtain ⟨text, -, added⟩ := addFile_eq_some added
      obtain ⟨fits, -, -, next_eq⟩ := addBuffer_eq_some added
      omega

theorem Registers.bufferFor {sm after : SourceManager} (registers : Registers sm after) {fid : Nat}
    {buffer : Buffer} (found : sm.bufferFor fid = some buffer) :
    after.bufferFor fid = some buffer := by
  induction registers with
  | none => exact found
  | buffer _ added induction => exact bufferFor_addBuffer added induction
  | file _ added induction =>
      obtain ⟨text, -, added⟩ := addFile_eq_some added
      exact bufferFor_addBuffer added induction

theorem getLocForOffset_injective {sm : SourceManager} {fid other : Nat}
    {buffer other_buffer : Buffer} (found : sm.bufferFor fid = some buffer)
    (other_found : sm.bufferFor other = some other_buffer)
    {offset other_offset : Nat} (in_range : offset ≤ buffer.text.length)
    (other_in_range : other_offset ≤ other_buffer.text.length)
    (same : sm.getLocForOffset fid offset = sm.getLocForOffset other other_offset) :
    fid = other ∧ offset = other_offset := by
  have here := stands found in_range
  have there := stands other_found other_in_range
  rw [← same] at there
  obtain rfl : buffer = other_buffer :=
    Option.some.inj (here.decoded.1.symm.trans there.decoded.1)
  exact ⟨here.file.symm.trans there.file, here.decoded.2.symm.trans there.decoded.2⟩

/-- Locations stand for what they were made from, whatever is registered later. -/
theorem locations_faithful {sm after : SourceManager} (registered : Registers empty sm)
    (later : Registers sm after) {fid : Nat} {buffer : Buffer}
    (found : sm.bufferFor fid = some buffer) {offset : Nat}
    (in_range : offset ≤ buffer.text.length) :
    sm.getLocForOffset fid offset ≤ maxLocation ∧
      after.Stands (sm.getLocForOffset fid offset) fid buffer offset ∧
      ∀ other other_buffer, after.bufferFor other = some other_buffer →
        ∀ other_offset, other_offset ≤ other_buffer.text.length →
          after.getLocForOffset other other_offset = sm.getLocForOffset fid offset →
            other = fid ∧ other_offset = offset := by
  have found_after := later.bufferFor found
  have kept : sm.getLocForOffset fid offset = after.getLocForOffset fid offset := by
    rw [getLocForOffset_eq found, getLocForOffset_eq found_after]
  refine ⟨?_, ?_, ?_⟩
  · have below := (inBuffer_getLocForOffset found offset).lt_nextBase
    have bounded := registered.bounded (by decide)
    omega
  · rw [kept]
    exact stands found_after in_range
  · intro other other_buffer other_found other_offset other_in_range same
    exact getLocForOffset_injective other_found found_after other_in_range in_range
      (same.trans kept)

/-- The place behind a line end that closes the buffer, an empty buffer behind it. -/
theorem locations_faithful_end :
    ∃ sm after : SourceManager,
      Registers empty sm ∧ Registers sm after ∧ after.buffers.length = 2 ∧
        after.Stands (sm.getLocForOffset 1 3) 1 ⟨['a'], ['x', '\r', '\n'], 1⟩ 3 := by
  have first : empty.addBuffer ['a'] ['x', '\r', '\n'] =
      some (1, ((empty.addBuffer ['a'] ['x', '\r', '\n']).get (by decide)).2) := rfl
  have registered := Registers.buffer (.none empty) first
  have later := Registers.buffer (.none _)
    (rfl : ((empty.addBuffer ['a'] ['x', '\r', '\n']).get (by decide)).2.addBuffer ['b'] [] = _)
  exact ⟨_, _, registered, later, rfl, (locations_faithful registered later rfl (by decide)).2.1⟩

end SourceManager

end Plang
