import Plang.Runtime.Capture

/-!
# Captures nest

As long as `realloc` refuses nothing, the stack of buffers is a writer with nested captures: every
`writestr` stores what was written while it was the innermost one.
-/

namespace Plang

namespace Runtime

namespace Capture

variable {refuses : Nat → Bool} {c after : Capture}

/-- No request for memory that is made between two states is refused. -/
def Granted (refuses : Nat → Bool) (c after : Capture) : Prop :=
  ∀ request, c.requests ≤ request → request < after.requests → refuses request = false

/-- The text of a capture as its variable takes it. -/
def asStored (entry : Destination × Text) : Destination × Stored :=
  (entry.1, entry.1.store entry.2)

/-- The captures are those of a writer; `before` was stored earlier. -/
structure Refines (before : List (Destination × Stored)) (c : Capture)
    (sink : Captures.Sink Char Destination) : Prop where
  out : c.output = sink.out
  frames : c.active.map CapFrame.text = sink.frames
  stored : c.stored = before ++ sink.stored.map asStored

/-! ## Reserving memory -/

theorem requests_capStackReserve (need : Nat) :
    c.requests ≤ (c.capStackReserve refuses need).requests := by
  rw [capStackReserve]
  split
  · exact Nat.le_refl _
  · split <;> exact Nat.le_succ _

/-- Reserving slots that are not refused changes nothing but the number of slots. -/
theorem capStackReserve_spec {need : Nat}
    (granted : Granted refuses c (c.capStackReserve refuses need)) :
    ∃ spare requests, c.capStackReserve refuses need = { c with spare, requests } ∧
      need ≤ c.active.length + spare.length := by
  rw [capStackReserve] at granted ⊢
  split at granted <;> rename_i enough
  · rw [if_pos enough]
    exact ⟨c.spare, c.requests, rfl, enough⟩
  · rw [if_neg enough]
    split at granted <;> rename_i refused
    · have allowed := granted c.requests (Nat.le_refl _) (Nat.lt_succ_self _)
      exact absurd refused (by simp [allowed])
    · rw [if_neg refused]
      refine ⟨_, _, rfl, ?_⟩
      have suffices_slots : need ≤ grown 4 (c.active.length + c.spare.length) need :=
        le_grown (by decide)
      simp only [List.length_append, List.length_replicate]
      omega

theorem requests_capReserve (need : Nat) :
    c.requests ≤ (c.capReserve refuses need).requests := by
  rw [capReserve]
  split
  · exact Nat.le_refl _
  · split
    · exact Nat.le_refl _
    · split <;> exact Nat.le_succ _

/-- Reserving room that is not refused changes nothing but the room. -/
theorem capReserve_spec {need : Nat} {frame : CapFrame} {rest : List CapFrame}
    (innermost : c.active = frame :: rest)
    (granted : Granted refuses c (c.capReserve refuses need)) :
    ∃ roomy requests, c.capReserve refuses need = { c with active := roomy :: rest, requests } ∧
      roomy.text = frame.text ∧ need ≤ roomy.cap := by
  rw [capReserve, innermost] at granted ⊢
  dsimp only at granted ⊢
  split at granted <;> rename_i enough
  · rw [dif_pos enough]
    exact ⟨frame, c.requests, by rw [← innermost], rfl, enough⟩
  · rw [dif_neg enough]
    split at granted <;> rename_i refused
    · have allowed := granted c.requests (Nat.le_refl _) (Nat.lt_succ_self _)
      exact absurd refused (by simp [allowed])
    · rw [if_neg refused]
      exact ⟨_, _, rfl, rfl, le_grown (by decide)⟩

/-! ## The steps -/

theorem requests_appendFrame (data : Text) : (c.appendFrame data).requests = c.requests := by
  rw [appendFrame]
  split
  · rfl
  · split <;> rfl

theorem requests_plangWritestrBegin :
    (c.plangWritestrBegin refuses).requests =
      (c.capStackReserve refuses (c.active.length + 1)).requests := by
  rw [plangWritestrBegin]
  split <;> rfl

/-- The number of requests never falls. -/
theorem requests_step (op : Captures.Op Char Destination) :
    c.requests ≤ (step refuses c op).requests := by
  cases op with
  | start =>
      rw [step, requests_plangWritestrBegin]
      exact requests_capStackReserve _
  | write chunk =>
      rw [step, plangOutN]
      split
      · exact Nat.le_refl _
      · split
        · exact Nat.le_refl _
        · rw [requests_appendFrame]
          exact requests_capReserve _
  | finish dest =>
      rw [step, plangWritestrEnd]
      split <;> exact Nat.le_refl _

/-- Beginning a capture opens an empty one. -/
theorem active_plangWritestrBegin (granted : Granted refuses c (c.plangWritestrBegin refuses)) :
    ∃ frame spare requests, c.plangWritestrBegin refuses =
      { c with active := frame :: c.active, spare, requests } ∧ frame.text = [] := by
  rw [Granted, requests_plangWritestrBegin] at granted
  obtain ⟨spare, requests, reserved_eq, enough⟩ := capStackReserve_spec granted
  rw [plangWritestrBegin, reserved_eq]
  rcases spare with _ | ⟨frame, spare⟩
  · exact absurd enough (Nat.not_succ_le_self _)
  · exact ⟨_, spare, requests, rfl, rfl⟩

/-- Writing appends to the innermost capture. -/
theorem active_plangOutN {data : Text} {frame : CapFrame} {rest : List CapFrame}
    (innermost : c.active = frame :: rest) (granted : Granted refuses c (c.plangOutN refuses data)) :
    ∃ written requests, c.plangOutN refuses data =
      { c with active := written :: rest, requests } ∧ written.text = frame.text ++ data := by
  rw [plangOutN] at granted ⊢
  split at granted <;> rename_i empty
  · rw [if_pos empty]
    exact ⟨frame, c.requests, by rw [← innermost], by simp [List.isEmpty_iff.mp empty]⟩
  · rw [if_neg empty]
    simp only [innermost] at granted ⊢
    rw [Granted, requests_appendFrame] at granted
    obtain ⟨roomy, requests, reserved_eq, same_text, room⟩ := capReserve_spec innermost granted
    rw [reserved_eq, appendFrame]
    have fits : roomy.text.length + data.length ≤ roomy.cap := by rwa [same_text]
    dsimp only
    rw [dif_pos fits]
    exact ⟨_, requests, rfl, by rw [← same_text]⟩

/-- One call that is granted its memory does what it does to a writer. -/
theorem Refines.step {before : List (Destination × Stored)}
    {sink : Captures.Sink Char Destination} (refines : Refines before c sink)
    (op : Captures.Op Char Destination) (granted : Granted refuses c (c.step refuses op)) :
    Refines before (c.step refuses op) (sink.step op) := by
  obtain ⟨out, frames, stored⟩ := refines
  cases op with
  | start =>
      obtain ⟨frame, spare, requests, begun, fresh⟩ := active_plangWritestrBegin granted
      rw [Capture.step, begun]
      exact ⟨out, by simp [Captures.Sink.step, frames, fresh], stored⟩
  | write chunk =>
      rcases innermost : c.active with _ | ⟨frame, rest⟩
      · rw [innermost, List.map_nil] at frames
        have put_eq : sink.put chunk = { sink with out := sink.out ++ chunk } := by
          simp [Captures.Sink.put, ← frames]
        rw [Captures.Sink.step, put_eq, Capture.step, plangOutN]
        split <;> rename_i empty
        · rw [List.isEmpty_iff.mp empty, List.append_nil]
          exact ⟨out, by rw [innermost]; exact frames, stored⟩
        · simp only [innermost]
          exact ⟨by rw [← out], frames, stored⟩
      · obtain ⟨written, requests, written_eq, text⟩ := active_plangOutN innermost granted
        rw [innermost, List.map_cons] at frames
        rw [Captures.Sink.step, Capture.step, written_eq]
        refine ⟨?_, ?_, ?_⟩ <;> simp [Captures.Sink.put, ← frames, out, text, stored]
  | finish dest =>
      rw [Captures.Sink.step, Capture.step, plangWritestrEnd]
      rcases innermost : c.active with _ | ⟨frame, rest⟩ <;> rw [innermost] at frames
      · exact ⟨out, by simp [← frames], by simp [← frames, stored, asStored]⟩
      · exact ⟨out, by simp [← frames], by simp [← frames, stored, asStored]⟩

theorem requests_run (ops : List (Captures.Op Char Destination)) :
    c.requests ≤ (c.run refuses ops).requests := by
  induction ops generalizing c with
  | nil => exact Nat.le_refl _
  | cons op ops induction => exact Nat.le_trans (requests_step op) induction

/-- A run that is granted its memory does what it does to a writer. -/
theorem Refines.run {before : List (Destination × Stored)}
    {sink : Captures.Sink Char Destination} (refines : Refines before c sink)
    (ops : List (Captures.Op Char Destination)) (granted : Granted refuses c (c.run refuses ops)) :
    Refines before (c.run refuses ops) (Runs.run Captures.Sink.step sink ops) := by
  induction ops generalizing c sink with
  | nil => exact refines
  | cons op ops induction =>
      have first : Granted refuses c (c.step refuses op) := fun request from_here until_step =>
        granted request from_here (Nat.lt_of_lt_of_le until_step (requests_run ops))
      have later : Granted refuses (c.step refuses op) ((c.step refuses op).run refuses ops) :=
        fun request from_step => granted request (Nat.le_trans (requests_step op) from_step)
      exact induction (refines.step op first) later

/-- The writer whose captures are the frames in use. -/
def writer (c : Capture) : Captures.Sink Char Destination :=
  { out := c.output, frames := c.active.map CapFrame.text }

theorem refines_writer (c : Capture) : Refines c.stored c c.writer :=
  ⟨rfl, rfl, by simp [writer]⟩

/-- In a well-bracketed sequence of `writestr` begins, writes and ends for which memory is not
refused, every end stores what was written while its own begin was the innermost one, as its
variable takes it, and behind the sequence output goes where it went before. -/
theorem plangWritestr_nests (refuses : Nat → Bool) (c : Capture)
    (sequence : Captures.Bracketed Char Destination)
    (granted : Granted refuses c (c.run refuses sequence.ops)) :
    (c.run refuses sequence.ops).stored = c.stored ++ sequence.stored.map asStored ∧
      (c.run refuses sequence.ops).writer = c.writer.put sequence.text := by
  have refines := (refines_writer c).run sequence.ops granted
  rw [Captures.Bracketed.run_ops] at refines
  obtain ⟨out, frames, stored⟩ := refines
  refine ⟨?_, ?_⟩
  · simpa [Captures.Sink.store, writer] using stored
  · refine Captures.Sink.ext ?_ ?_ ?_
    · exact out
    · exact frames
    · simp [writer]

/-- A nested `writestr` on an empty stack. -/
theorem plangWritestr_nests_inner :
    (run (fun _ => false) {} [.start, .write ['a'], .start, .write ['b'], .finish (.string 5),
      .write ['c'], .finish (.fixed 3)]).stored =
      [(.string 5, .string 1 ['b']), (.fixed 3, .fixed ['a', 'c', ' '])] := by
  have nests := plangWritestr_nests (fun _ => false) {}
    (.capture (.chunk ['a'] (.capture (.chunk ['b'] .nil) (.string 5) (.chunk ['c'] .nil)))
      (.fixed 3) .nil) (fun _ _ _ => rfl)
  exact nests.1.trans (by decide)

/-- Where memory is refused, the text of a `writestr` goes out and nothing is stored. -/
theorem plangWritestr_nests_refused :
    (run (fun _ => true) {} [.start, .write ['x'], .finish (.string 5)]).stored ≠
      [asStored (.string 5, ['x'])] := by
  decide

end Capture

end Runtime

end Plang
