import Plang.Lex.ConditionalReader

/-!
# The selected regions are read

A text with well nested conditionals is read as the text of its selected regions is, as long as the
raw scan takes no notice of the comments of the others.
-/

namespace Plang

namespace Reader

variable {opts : LangOptions} {allow : Nat → Bool}

/-- Two texts are read alike, the first from a state in which a branch may be skipped. -/
structure Alike (opts : LangOptions) (allow : Nat → Bool) (conditionals : List (Bool × Bool))
    (skipDepth : Option Nat) (follows : Text → Prop) (pieces : List Piece) (chosen : Text)
    (output : Output) (env : Env) (output' : Output) (env' : Env) : Prop where
  whole : ∀ outer x, follows x →
    Passes opts allow (facing output env (conditionals ++ outer) skipDepth (textOf pieces ++ x))
      pieces x (facing output' env' outer none x)
  chosen : ∀ outer x, StopsToken x →
    Goes opts allow (facing output env outer none (chosen ++ x)) (facing output' env' outer none x)

/-- The region is read as the text selected in it. -/
def Selects (opts : LangOptions) (allow : Nat → Bool) (region : Region) (env : Env)
    (output output' : Output) : Prop :=
  Alike opts allow [] none StopsToken region.pieces (region.selected env).1 output env output'
    (region.selected env).2

/-- The branches are read as the text selected in them, when no branch before has been taken. -/
def SelectsBranch (opts : LangOptions) (allow : Nat → Bool) (more : Branches) (env : Env)
    (output output' : Output) : Prop :=
  Alike opts allow [(false, false)] (some 0) (fun _ => True) more.pieces
    (more.selected env).1 output env output' (more.selected env).2

/-- A branch is read when its condition holds, and the branches behind it are when it does not. -/
theorem alike_choice (turbo : opts.turbo = true) {branch : Region} {more : Branches}
    (branch_nested : branch.WellNested) (more_nested : more.WellNested)
    (lexical : Lexical (branch.pieces ++ more.pieces)) (env : Env) (output : Output) (holds : Bool)
    (branch_selects : holds = true → Unnoticed more.pieces ∧
      ∃ output', Selects opts allow branch env output output')
    (more_selects : holds = false → Unnoticed branch.pieces ∧
      ∃ output', SelectsBranch opts allow more env output output') :
    ∃ output', Alike opts allow [(holds, false)] (if holds then none else some 0) (fun _ => True)
      (branch.pieces ++ more.pieces)
      (if holds then branch.selected env else more.selected env).1 output env output'
      (if holds then branch.selected env else more.selected env).2 := by
  have more_lexical := lexical.suffix (List.suffix_append ..)
  cases holds with
  | true =>
      obtain ⟨unnoticed, output', alike⟩ := branch_selects rfl
      refine ⟨output', fun outer x _ => ?_, alike.chosen⟩
      rw [textOf_append, List.append_assoc]
      exact .append (alike.whole ((true, false) :: outer) _ (more.stopsToken x))
        (passes_taken turbo more_nested more_lexical unnoticed output' _ outer true x)
  | false =>
      obtain ⟨unnoticed, output', alike⟩ := more_selects rfl
      refine ⟨output', fun outer x _ => ?_, alike.chosen⟩
      rw [textOf_append, List.append_assoc]
      exact .append (passes_dead turbo branch_nested lexical.front unnoticed output env _
        (more.stopsToken x)) (alike.whole outer x trivial)

mutual

/-- A region is read as the text selected in it. -/
theorem selects_region (allow : Nat → Bool) (turbo : opts.turbo = true) {region : Region}
    (nested : region.WellNested) (lexical : Lexical region.pieces) {env : Env} (skippable : region.Skippable env)
    (output : Output) : ∃ output', Selects opts allow region env output output' := by
  match region, nested with
  | .plain pieces, plain =>
      obtain ⟨output', reads⟩ := goes_text allow turbo lexical plain output
      exact ⟨output', fun outer x stops => .plain plain (reads env outer x stops) rfl, reads env⟩
  | .directive pieces marker rest, ⟨plain, not_branching, rest_nested⟩ =>
      obtain ⟨front, reads⟩ := goes_text allow turbo lexical.front plain output
      obtain ⟨valid, rest_lexical⟩ := lexical.suffix (List.suffix_append ..)
      obtain ⟨output', rest_alike⟩ :=
        selects_region allow turbo rest_nested rest_lexical skippable front
      have applied (outer : List (Bool × Bool)) (z : Text) : Goes opts allow
          (facing front env outer none (marker.piece.text ++ z))
          (facing front (env.apply marker.body) outer none z) :=
        goes_apply turbo valid.weaken not_branching front env outer z
      refine ⟨output', fun outer x stops => ?_, fun outer x stops => ?_⟩ <;>
        simp only [Region.pieces, Region.selected, textOf_append, textOf_cons, List.append_assoc]
      · exact .append (.plain plain (reads env outer _ (stopsToken_marker marker _)) rfl) <|
          .cons (.marker (applied outer _) rfl (nestingStep_of_not_branching not_branching _))
          (rest_alike.whole outer x stops)
      · exact .trans (reads env outer _ (stopsToken_marker marker _)) <|
          .trans (applied outer _) (rest_alike.chosen outer x stops)
  | .conditional pieces opening branch more rest,
      ⟨plain, opens, branch_nested, more_nested, rest_nested⟩ =>
      obtain ⟨front, reads⟩ := goes_text allow turbo lexical.front plain output
      obtain ⟨valid, inner_lexical⟩ := lexical.suffix (List.suffix_append ..)
      rw [← List.append_assoc] at inner_lexical
      have chain_lexical := inner_lexical.front
      have rest_lexical := inner_lexical.suffix (List.suffix_append ..)
      obtain ⟨middle, chain_alike⟩ := alike_choice turbo branch_nested more_nested chain_lexical env
        front (env.holds opening.body)
        (fun holds => by
          rw [Region.Skippable, if_pos holds] at skippable
          exact ⟨skippable.2.1, selects_region allow turbo branch_nested chain_lexical.front
            skippable.1 front⟩)
        (fun fails => by
          rw [Region.Skippable, fails] at skippable
          exact ⟨skippable.1, selects_branches allow turbo more_nested
            (chain_lexical.suffix (List.suffix_append ..)) skippable.2.1 front⟩)
      have rest_skippable : rest.Skippable
          (if env.holds opening.body then branch.selected env else more.selected env).2 := by
        rw [Region.Skippable] at skippable
        split at skippable
        case isTrue holds => rw [if_pos holds]; exact skippable.2.2
        case isFalse fails => rw [if_neg fails]; exact skippable.2.2
      obtain ⟨output', rest_alike⟩ :=
        selects_region allow turbo rest_nested rest_lexical rest_skippable middle
      refine ⟨output', fun outer x stops => ?_, fun outer x stops => ?_⟩
      · have chain := (chain_alike.whole outer (textOf rest.pieces ++ x) trivial).append
          (rest_alike.whole outer x stops)
        simp only [Region.pieces, Region.selected, textOf_append, textOf_cons, List.append_assoc]
          at chain ⊢
        have opening_step : nestingStep outer.length opening.body = some (outer.length + 1) := by
          simp [nestingStep, opens]
        refine .append (.plain plain (reads env outer _ (stopsToken_marker opening _)) rfl) <|
          .cons (.marker (goes_opening turbo valid.weaken opens front env outer _) ?_ ?_) chain
        · simp [facing]
        · refine opening_step.trans ?_
          cases env.holds opening.body <;> rfl
      · simp only [Region.selected, List.append_assoc, List.cons_append]
        exact .trans (reads env outer _ (endsLine_cons _).stopsToken) <|
          .trans (goes_newline front env outer _) <|
          .trans (chain_alike.chosen outer _ (endsLine_cons _).stopsToken) <|
          .trans (goes_newline middle _ outer _) (rest_alike.chosen outer x stops)

/-- The branches of a conditional are read as the text selected in them. -/
theorem selects_branches (allow : Nat → Bool) (turbo : opts.turbo = true) {more : Branches}
    (nested : more.WellNested) (lexical : Lexical more.pieces) {env : Env} (skippable : more.Skippable env) (output : Output) :
    ∃ output', SelectsBranch opts allow more env output output' := by
  match more, nested with
  | .endif marker, closes =>
      refine ⟨output, fun outer x _ => ?_, fun outer x _ => .refl _⟩
      simp only [Branches.pieces, textOf_cons, textOf_nil, List.append_nil]
      exact .marker (goes_dead_closing lexical.1 closes output env ((false, false) :: outer) x) rfl
        (nestingStep_closing closes outer.length)
  | .elseIf marker branch more, ⟨name, branch_nested, more_nested⟩ =>
      obtain ⟨valid, lexical⟩ := lexical
      obtain ⟨output', chain_alike⟩ := alike_choice turbo branch_nested more_nested lexical env output
        (env.holds marker.body)
        (fun holds => by
          rw [Branches.Skippable, if_pos holds] at skippable
          exact ⟨skippable.2, selects_region allow turbo branch_nested lexical.front skippable.1
            output⟩)
        (fun fails => by
          rw [Branches.Skippable, fails] at skippable
          exact ⟨skippable.1, selects_branches allow turbo more_nested
            (lexical.suffix (List.suffix_append ..)) skippable.2 output⟩)
      refine ⟨output', fun outer x follows => ?_, chain_alike.chosen⟩
      have chain := chain_alike.whole outer x follows
      simp only [Branches.pieces, Branches.selected, textOf_cons, textOf_append, List.append_assoc]
        at chain ⊢
      refine .cons (.marker (goes_dead_elseIf valid.weaken name output env false outer _) ?_ ?_) chain
      · simp [facing]
      · refine (nestingStep_alternative (.inr name) outer.length).trans ?_
        cases env.holds marker.body <;> rfl
  | .otherwise marker branch closing, ⟨name, branch_nested, closes⟩ =>
      obtain ⟨valid, lexical⟩ := lexical
      have closing_valid : closing.piece.Valid none := (lexical.suffix (List.suffix_append ..)).1
      obtain ⟨output', branch_alike⟩ :=
        selects_region allow turbo branch_nested lexical.front skippable output
      refine ⟨output', fun outer x _ => ?_, branch_alike.chosen⟩
      have at_end : StopsToken (textOf [closing.piece] ++ x) := by
        rw [textOf_marker]
        exact stopsToken_marker closing x
      have closed : Passes opts allow
          (facing output' (branch.selected env).2 ((true, true) :: outer) none
            (textOf [closing.piece] ++ x))
          [closing.piece] x (facing output' (branch.selected env).2 outer none x) := by
        rw [textOf_marker]
        exact .marker (goes_closing turbo closing_valid closes output' _ ((true, true) :: outer) x)
          rfl (nestingStep_closing closes outer.length)
      have rest := (branch_alike.whole ((true, true) :: outer) _ at_end).append closed
      rw [Branches.pieces, textOf_cons, textOf_append, List.append_assoc, List.append_assoc]
      exact .cons (.marker (goes_dead_else valid.weaken name output env false outer _)
        (by simp [facing]) (nestingStep_alternative (.inl name) outer.length)) rest

end

end Reader

theorem Reader.ofText_eq (opts : LangOptions) (allow : Nat → Bool) (text : Text) :
    Reader.ofText opts allow text = facing ⟨.Eof, allow 0, []⟩ (Env.initial opts) [] none text := by
  unfold Reader.ofText Reader.returned
  simp only [List.length_nil]
  cases allow 0 <;> rfl

/-- The defines and switches that are in force. -/
def Scanner.env (s : Scanner) : Env := ⟨s.currentDefines, s.switchState⟩

/-- How many conditionals the scanner has found open. -/
def Scanner.opened (s : Scanner) : Nat := s.condStack.length + s.skipDepth.getD 0

namespace Session

variable {fs : FileSystem} {allow : Nat → Bool} {session : Session}

theorem opened_reader (session : Session) (rest : Text) :
    (session.reader rest).opened = session.scanner.opened := by
  simp [Reader.opened, Scanner.opened, reader, Scanner.control]

theorem Pasted.unread_nil (pasted : Pasted fs allow session []) : session.scanner.unread = [] := by
  generalize text_eq : ([] : Text) = text at pasted
  cases pasted with
  | finished unread_nil => exact unread_nil
  | read _ read_ne _ _ => exact absurd (List.append_eq_nil_iff.mp text_eq.symm).1 read_ne
  | opened _ _ => cases text_eq

/-- A text without files is read as the tree says: in front of every directive as many frames are
open as conditionals are in the text, all are closed at the end, the defines and switches are those of
the selected regions, and the tokens are those of the text of the selected regions. -/
theorem selected_regions_are_read (start : session.Start fs allow)
    (turbo : session.scanner.opts.turbo = true)
    (ends_in_file : ∀ turns, (session.run fs allow turns).scanner.DirectiveEndsInFile)
    {region : Region} (pasted : Pasted fs allow session (textOf region.pieces))
    (lexical : Lexical region.pieces) (nested : region.WellNested)
    (skippable : region.Skippable (Env.initial session.scanner.opts)) :
    (∀ front braced body back, region.pieces = front ++ .directive braced body :: back →
      ∃ turns,
        Pasted fs allow (session.run fs allow turns) (textOf (.directive braced body :: back)) ∧
        nesting 0 front = some (session.run fs allow turns).scanner.opened) ∧
    ∃ turns, (session.run fs allow turns).scanner.unread = [] ∧
      (session.run fs allow turns).scanner.opened = 0 ∧
      (session.run fs allow turns).scanner.env =
        (region.selected (Env.initial session.scanner.opts)).2 ∧
      ∀ (sm after : SourceManager) (sourceName content : Text) (fid : Nat),
        SourceManager.dropByteOrderMark content =
          (region.selected (Env.initial session.scanner.opts)).1 →
        sm.addBuffer sourceName content = some (fid, after) →
        ∃ last, ((ofBuffer allow sm sourceName content session.scanner.opts).run noFiles allow
            last).scanner.unread = [] ∧
          ((ofBuffer allow sm sourceName content session.scanner.opts).run noFiles allow
              last).lexemes = (session.run fs allow turns).lexemes := by
  have fresh := start.fresh
  have plain : session.Plain := .inl turbo
  obtain ⟨output, alike⟩ := Reader.selects_region allow turbo nested lexical skippable
    ⟨.Eof, allow 0, []⟩
  have passes := alike.whole [] [] stopsToken_nil
  simp only [List.append_nil, ← Reader.ofText_eq, ← fresh.reader] at passes
  -- the session follows the reader
  have follows {reader : Reader} (goes : Reader.Goes session.scanner.opts allow
      (session.reader (textOf region.pieces)) reader) :
      ∃ turns, Pasted fs allow (session.run fs allow turns) reader.rest ∧
        (session.run fs allow turns).reader reader.rest = reader := by
    obtain ⟨turns, rfl⟩ := goes
    obtain ⟨rest, pasted_rest, run_eq⟩ := pasted.run plain ends_in_file turns
    rw [run_eq]
    exact ⟨turns, pasted_rest, rfl⟩
  constructor
  · intro front braced body back pieces_eq
    obtain ⟨reader, goes, rest_eq, count⟩ := passes.counts front braced body back pieces_eq
    obtain ⟨turns, pasted_rest, reader_eq⟩ := follows goes
    rw [rest_eq, List.append_nil] at pasted_rest
    refine ⟨turns, pasted_rest, ?_⟩
    rw [← opened_reader _ reader.rest, reader_eq, ← count, fresh.reader, Reader.ofText_eq]
    rfl
  · obtain ⟨turns, pasted_rest, reader_eq⟩ := follows passes.goes
    refine ⟨turns, pasted_rest.unread_nil, ?_, ?_,
      fun sm after sourceName content fid content_eq added => ?_⟩
    · exact (opened_reader _ _).symm.trans (congrArg Reader.opened reader_eq)
    · exact congrArg (fun reader => Env.mk reader.control.currentDefines reader.control.switchState)
        reader_eq
    · have no_marker : session.scanner.opts.turbo = true →
          '\x1a' ∉ SourceManager.dropByteOrderMark content := by
        intro _ member
        rw [content_eq] at member
        rcases region.mem_selected member with inside | newline
        · exact pasted.no_ctrlZ turbo (fresh.no_ctrlZ turbo) inside
        · cases newline
      obtain ⟨single_unread, single_opts⟩ := unread_ofBuffer allow added no_marker
      have single_fresh : Fresh allow (ofBuffer allow sm sourceName content session.scanner.opts) :=
        (show Start noFiles allow _ from .inr ⟨_, _, _, _, rfl⟩).fresh
      obtain ⟨last, last_eq⟩ := alike.chosen [] [] stopsToken_nil
      obtain ⟨_, _, single_eq⟩ := run_noFiles allow single_fresh.stack last
      rw [single_unread, content_eq, single_fresh.reader, single_opts, Reader.ofText_eq] at single_eq
      rw [List.append_nil, single_eq] at last_eq
      exact ⟨last, congrArg Reader.rest last_eq,
        (congrArg Reader.tokens last_eq).trans (congrArg Reader.tokens reader_eq).symm⟩

/-- A session over a text in memory. -/
def textSession (text : Text) : Session :=
  ofBuffer (fun _ => false) .empty "main".toList text { std := .Turbo }

/-- `{$IFDEF X}a{$ELSE}b{$ENDIF}`. -/
def choiceExample : Region :=
  .conditional [] ⟨true, "IFDEF X".toList⟩ (.plain [.byte 'a'])
    (.otherwise ⟨true, "ELSE".toList⟩ (.plain [.byte 'b']) ⟨true, "ENDIF".toList⟩) (.plain [])

theorem selected_regions_are_read_choice :
    (∀ front braced body back, choiceExample.pieces = front ++ .directive braced body :: back →
      ∃ turns, Pasted noFiles (fun _ => false)
          ((textSession (textOf choiceExample.pieces)).run noFiles (fun _ => false) turns)
          (textOf (.directive braced body :: back)) ∧
        nesting 0 front = some ((textSession (textOf choiceExample.pieces)).run noFiles
          (fun _ => false) turns).scanner.opened) ∧
    ∃ turns, ((textSession (textOf choiceExample.pieces)).run noFiles (fun _ => false)
          turns).scanner.unread = [] ∧
      ((textSession (textOf choiceExample.pieces)).run noFiles (fun _ => false)
        turns).scanner.opened = 0 ∧
      ((textSession (textOf choiceExample.pieces)).run noFiles (fun _ => false) turns).scanner.env =
        (choiceExample.selected (Env.initial { std := .Turbo })).2 ∧
      ∀ (sm after : SourceManager) (sourceName content : Text) (fid : Nat),
        SourceManager.dropByteOrderMark content =
          (choiceExample.selected (Env.initial { std := .Turbo })).1 →
        sm.addBuffer sourceName content = some (fid, after) →
        ∃ last, ((ofBuffer (fun _ => false) sm sourceName content { std := .Turbo }).run noFiles
            (fun _ => false) last).scanner.unread = [] ∧
          ((ofBuffer (fun _ => false) sm sourceName content { std := .Turbo }).run noFiles
              (fun _ => false) last).lexemes =
            ((textSession (textOf choiceExample.pieces)).run noFiles (fun _ => false)
              turns).lexemes := by
  have stack_nil : (textSession (textOf choiceExample.pieces)).scanner.includeStack = [] := rfl
  have unread_eq : (textSession (textOf choiceExample.pieces)).scanner.unread =
      textOf choiceExample.pieces := by decide +kernel
  have nested : choiceExample.WellNested := by
    refine ⟨by simp, by decide, ?_, ⟨by decide, ?_, by decide⟩, by simp [Region.WellNested]⟩ <;>
      simp [Region.WellNested, Piece.Plain]
  have unnoticed : Unnoticed (Region.plain [.byte 'a']).pieces :=
    ⟨by simp [QuietPieces, Region.pieces], by simp [CommentsKeepOut, Region.pieces]⟩
  have skippable : choiceExample.Skippable (Env.initial { std := .Turbo }) := by
    rw [choiceExample, Region.Skippable, if_neg (by decide)]
    exact ⟨unnoticed, trivial, trivial⟩
  exact selected_regions_are_read (.inr ⟨_, _, _, _, rfl⟩) rfl
    (fun turns _ _ stack_ne => absurd (run_noFiles _ stack_nil turns).1 stack_ne)
    (unread_eq ▸ pasted_noFiles _ stack_nil) (by decide +kernel) nested skippable

/-- `{$IFDEF X} { don't } {$ENDIF} x := 'a';`. -/
def apostropheExample : Region :=
  .conditional [] ⟨true, "IFDEF X".toList⟩ (.plain (commentBranch " don't "))
    (.endif ⟨true, "ENDIF".toList⟩) (.plain (" x := ".toList.map .byte ++ [.quoted ['a'], .byte ';']))

/-- The text is well nested and `x := 'a';` is selected, but the text is read up to its end without a
token, and the conditional is still open there. -/
theorem selected_region_not_read :
    apostropheExample.WellNested ∧ Lexical apostropheExample.pieces ∧
      (textSession (textOf apostropheExample.pieces)).scanner.unread =
        textOf apostropheExample.pieces ∧
      (apostropheExample.selected (Env.initial { std := .Turbo })).1 = "\n\n x := 'a';".toList ∧
      ((textSession "\n\n x := 'a';".toList).run noFiles (fun _ => false) 9).lexemes =
        [(.Identifier, "x".toList), (.Assign, ":=".toList), (.StringLit, "a".toList),
          (.Semicolon, ";".toList)] ∧
      ((textSession (textOf apostropheExample.pieces)).run noFiles (fun _ => false)
        11).scanner.unread = [] ∧
      ((textSession (textOf apostropheExample.pieces)).run noFiles (fun _ => false) 11).lexemes = [] ∧
      ((textSession (textOf apostropheExample.pieces)).run noFiles (fun _ => false)
        11).scanner.opened = 1 := by
  refine ⟨⟨by simp, by decide, ?_, ?_, ?_⟩, by decide +kernel, by decide +kernel,
    by decide +kernel, by decide +kernel, by decide +kernel, by decide +kernel, by decide +kernel⟩
  · simp [Region.WellNested, commentBranch, Piece.Plain]
  · rw [Branches.WellNested]
    decide
  · intro piece member
    rcases List.mem_append.mp member with early | late
    · obtain ⟨c, _, rfl⟩ := List.mem_map.mp early
      trivial
    · simp only [List.mem_cons, List.not_mem_nil, or_false] at late
      rcases late with rfl | rfl <;> trivial

end Session

end Plang
