import Plang.Basic.MessageCatalog
import Plang.Basic.PresumedLoc

/-!
# The entries of a message catalogue

An entry begins with its context and goes on up to a blank line, an obsolete line, the next context,
or the next message once it is translated.  A fuzzy flag belongs to the next entry that begins, live
or obsolete.
-/

namespace Plang.Catalog

/-! ### Well-formed text -/

theorem isTail_eq (c : Char) : (c.toNat / 64 == 2) = decide (Utf8.IsTail c.toNat) :=
  isUtf8ContinuationByte_eq c

section Decoder

variable {c b d e : Char} {rest : Text}

theorem guards_eq {short wrong good : Prop} [Decidable short] [Decidable wrong] [Decidable good]
    {tails behind : Bool} (same : good ↔ ¬short ∧ tails = true ∧ ¬wrong) :
    (if short then false
      else if (!tails) = true then false
      else if wrong then false else behind) = (decide good && behind) := by
  by_cases is_short : short
  · simp [same, is_short]
  · by_cases is_wrong : wrong
    · simp [same, is_wrong]
    · cases tails <;> simp [same, is_short, is_wrong]

theorem validUtf8_one (lead : c.toNat < 0x80) : validUtf8 (c :: rest) = validUtf8 rest := by
  rw [validUtf8]
  simp only [lead, if_true]

theorem validUtf8_two (lead : 0xC0 ≤ c.toNat ∧ c.toNat ≤ 0xDF) :
    validUtf8 (c :: b :: rest) =
      (decide (0xC2 ≤ c.toNat ∧ c.toNat ≤ 0xDF ∧ Utf8.IsTail b.toNat) && validUtf8 rest) := by
  rw [validUtf8]
  simp only [isTail_eq]
  rw [if_neg (by omega), if_pos lead]
  simp only [List.length_cons, List.take_succ_cons, List.take_zero, List.all_cons, List.all_nil,
    List.foldl_cons, List.foldl_nil, List.drop_succ_cons, List.drop_zero]
  apply guards_eq
  simp only [Bool.and_true, decide_eq_true_eq]
  unfold Utf8.IsTail
  omega

theorem validUtf8_three (lead : 0xE0 ≤ c.toNat ∧ c.toNat ≤ 0xEF) :
    validUtf8 (c :: b :: d :: rest) =
      (decide (0xE0 ≤ c.toNat ∧ c.toNat ≤ 0xEF ∧ Utf8.IsTail b.toNat ∧ Utf8.IsTail d.toNat ∧
        (c.toNat = 0xE0 → 0xA0 ≤ b.toNat) ∧ (c.toNat = 0xED → b.toNat < 0xA0)) &&
          validUtf8 rest) := by
  rw [validUtf8]
  simp only [isTail_eq]
  rw [if_neg (by omega), if_neg (by omega), if_pos lead]
  simp only [List.length_cons, List.take_succ_cons, List.take_zero, List.all_cons, List.all_nil,
    List.foldl_cons, List.foldl_nil, List.drop_succ_cons, List.drop_zero]
  apply guards_eq
  simp only [Bool.and_true, Bool.and_eq_true, decide_eq_true_eq]
  unfold Utf8.IsTail
  omega

theorem validUtf8_four (lead : 0xF0 ≤ c.toNat ∧ c.toNat ≤ 0xF7) :
    validUtf8 (c :: b :: d :: e :: rest) =
      (decide (0xF0 ≤ c.toNat ∧ c.toNat ≤ 0xF4 ∧ Utf8.IsTail b.toNat ∧ Utf8.IsTail d.toNat ∧
        Utf8.IsTail e.toNat ∧ (c.toNat = 0xF0 → 0x90 ≤ b.toNat) ∧
          (c.toNat = 0xF4 → b.toNat < 0x90)) && validUtf8 rest) := by
  rw [validUtf8]
  simp only [isTail_eq]
  rw [if_neg (by omega), if_neg (by omega), if_neg (by omega), if_pos lead]
  simp only [List.length_cons, List.take_succ_cons, List.take_zero, List.all_cons, List.all_nil,
    List.foldl_cons, List.foldl_nil, List.drop_succ_cons, List.drop_zero]
  apply guards_eq
  simp only [Bool.and_true, Bool.and_eq_true, decide_eq_true_eq]
  unfold Utf8.IsTail
  omega

/-- A character that is cut off. -/
theorem validUtf8_short (lead : 0xC0 ≤ c.toNat ∧ c.toNat ≤ 0xF7)
    (short : rest.length + 1 < Utf8.leadLength c.toNat) : validUtf8 (c :: rest) = false := by
  unfold Utf8.leadLength at short
  rw [validUtf8, if_neg (by omega)]
  by_cases two : c.toNat ≤ 0xDF
  · rw [if_pos (by omega)]
    exact if_pos (by split_ifs at short <;> omega)
  · rw [if_neg (by omega)]
    by_cases three : c.toNat ≤ 0xEF
    · rw [if_pos (by omega)]
      exact if_pos (by split_ifs at short <;> omega)
    · rw [if_neg (by omega), if_pos (by omega)]
      exact if_pos (by split_ifs at short <;> omega)

theorem validUtf8_wrong (wrong : 0x80 ≤ c.toNat ∧ (c.toNat < 0xC0 ∨ 0xF7 < c.toNat)) :
    validUtf8 (c :: rest) = false := by
  rw [validUtf8, if_neg (by omega), if_neg (by omega), if_neg (by omega), if_neg (by omega)]

end Decoder

/-- The check goes on behind a character as the encodings do. -/
theorem validUtf8_step {c : Char} {rest : Text} {k : Nat} {good : Prop} [Decidable good]
    (again : validUtf8 ((c :: rest).drop k) = true ↔ Utf8.Valid (codes ((c :: rest).drop k)))
    (lead : Utf8.leadLength c.toNat = k)
    (sound : (∃ d, Utf8.encoded d = (codes (c :: rest)).take k) ↔ good)
    (checked : validUtf8 (c :: rest) = (decide good && validUtf8 ((c :: rest).drop k))) :
    validUtf8 (c :: rest) = true ↔ Utf8.Valid (codes (c :: rest)) := by
  have decided : Utf8.Valid (codes (c :: rest)) ↔ _ := Utf8.valid_cons_iff lead sound
  rw [checked, Bool.and_eq_true, decide_eq_true_eq, again, decided, codes, List.map_drop]
  rfl

/-- The check accepts the encodings of sequences of scalars. -/
theorem validUtf8_iff (text : Text) : validUtf8 text = true ↔ Utf8.Valid (codes text) := by
  induction length : text.length using Nat.strongRecOn generalizing text with
  | ind length induction =>
      subst length
      cases text with
      | nil => simp [validUtf8, codes, Utf8.valid_nil]
      | cons c rest =>
          have again (k : Nat) (k_pos : 0 < k) : validUtf8 ((c :: rest).drop k) = true ↔
              Utf8.Valid (codes ((c :: rest).drop k)) :=
            induction _ (by simp; omega) ((c :: rest).drop k) rfl
          by_cases wrong : 0x80 ≤ c.toNat ∧ (c.toNat < 0xC0 ∨ 0xF7 < c.toNat)
          · rw [validUtf8_wrong wrong]
            exact iff_of_false Bool.false_ne_true (Utf8.not_valid_of_lead (by omega))
          · by_cases short : rest.length + 1 < Utf8.leadLength c.toNat
            · have lead : 0xC0 ≤ c.toNat := by
                unfold Utf8.leadLength at short
                split_ifs at short <;> omega
              rw [validUtf8_short (by omega) short]
              exact iff_of_false Bool.false_ne_true
                (Utf8.not_valid_of_short (by simpa [codes] using short))
            · by_cases one : c.toNat < 0x80
              · refine validUtf8_step (again 1 (by decide)) (by simp [Utf8.leadLength, one])
                  Utf8.encoded_one ?_
                rw [validUtf8_one one, decide_eq_true one, Bool.true_and]
                rfl
              · rw [not_lt] at short
                by_cases two : c.toNat ≤ 0xDF
                · have lead : Utf8.leadLength c.toNat = 2 := by
                    unfold Utf8.leadLength
                    split_ifs <;> omega
                  rw [lead] at short
                  obtain _ | ⟨b, rest⟩ := rest
                  · simp at short
                  · exact validUtf8_step (again 2 (by decide)) lead Utf8.encoded_two
                      (validUtf8_two (by omega))
                · by_cases three : c.toNat ≤ 0xEF
                  · have lead : Utf8.leadLength c.toNat = 3 := by
                      unfold Utf8.leadLength
                      split_ifs <;> omega
                    rw [lead] at short
                    obtain _ | ⟨b, _ | ⟨d, rest⟩⟩ := rest
                    · simp at short
                    · simp at short
                    · exact validUtf8_step (again 3 (by decide)) lead Utf8.encoded_three
                        (validUtf8_three (by omega))
                  · have lead : Utf8.leadLength c.toNat = 4 := by
                      unfold Utf8.leadLength
                      split_ifs <;> omega
                    rw [lead] at short
                    obtain _ | ⟨b, _ | ⟨d, _ | ⟨e, rest⟩⟩⟩ := rest
                    · simp at short
                    · simp at short
                    · simp at short
                    · exact validUtf8_step (again 4 (by decide)) lead Utf8.encoded_four
                        (validUtf8_four (by omega))

/-! ### Placeholders -/

/-- The placeholders of a message. -/
def placeholders (text : Text) : Set Nat :=
  {index | ∃ before c after, text = before ++ '%' :: c :: after ∧ c.isDigit = true ∧
    index = c.toNat - '0'.toNat}

theorem mem_placeholders_cons {c : Char} {text : Text} {index : Nat} :
    index ∈ placeholders (c :: text) ↔
      (c = '%' ∧ ∃ d after, text = d :: after ∧ d.isDigit = true ∧
        index = d.toNat - '0'.toNat) ∨ index ∈ placeholders text := by
  constructor
  · rintro ⟨before, d, after, text_eq, digit, value⟩
    cases before with
    | nil =>
        obtain ⟨rfl, rfl⟩ := List.cons.inj text_eq
        exact .inl ⟨rfl, d, after, rfl, digit, value⟩
    | cons first before =>
        exact .inr ⟨before, d, after, (List.cons.inj text_eq).2, digit, value⟩
  · rintro (⟨rfl, d, after, rfl, digit, value⟩ | ⟨before, d, after, rfl, digit, value⟩)
    · exact ⟨[], d, after, rfl, digit, value⟩
    · exact ⟨c :: before, d, after, rfl, digit, value⟩

/-- The mask has the placeholders' bits. -/
theorem testBit_placeholderMask (text : Text) (index : Nat) :
    (placeholderMask text).testBit index = true ↔ index ∈ placeholders text := by
  induction text using placeholderMask.induct with
  | case1 c rest digit induction =>
      have not_percent : c ≠ '%' := by
        rintro rfl
        exact absurd digit (by decide)
      rw [placeholderMask, if_pos digit, Nat.testBit_or, Bool.or_eq_true, induction,
        mem_placeholders_cons, mem_placeholders_cons, Nat.one_shiftLeft, Nat.testBit_two_pow,
        decide_eq_true_eq]
      constructor
      · rintro (same | later)
        · exact .inl ⟨rfl, c, rest, rfl, digit, same.symm⟩
        · exact .inr (.inr later)
      · rintro (⟨-, d, after, text_eq, -, value⟩ | ⟨percent, -⟩ | later)
        · obtain ⟨rfl, rfl⟩ := List.cons.inj text_eq
          exact .inl value.symm
        · exact absurd percent not_percent
        · exact .inr later
  | case2 c rest digit induction =>
      rw [placeholderMask, if_neg digit, induction, mem_placeholders_cons (c := '%')]
      constructor
      · exact .inr
      · rintro (⟨-, d, after, text_eq, is_digit, -⟩ | later)
        · obtain ⟨rfl, rfl⟩ := List.cons.inj text_eq
          exact absurd is_digit digit
        · exact later
  | case3 c rest other induction =>
      rw [placeholderMask, induction, mem_placeholders_cons]
      · constructor
        · exact .inr
        · rintro (⟨rfl, d, after, rfl, -, -⟩ | later)
          · exact absurd rfl (other d after rfl)
          · exact later
      · exact other
  | case4 =>
      refine iff_of_false (by simp [placeholderMask]) ?_
      rintro ⟨before, c, after, text_eq, -, -⟩
      exact absurd text_eq (by simp)

theorem placeholderMask_eq_iff (text other : Text) :
    placeholderMask text = placeholderMask other ↔ placeholders text = placeholders other := by
  constructor
  · intro same
    ext index
    rw [← testBit_placeholderMask, ← testBit_placeholderMask, same]
  · intro same
    apply Nat.eq_of_testBit_eq
    intro index
    rw [Bool.eq_iff_iff, testBit_placeholderMask, testBit_placeholderMask, same]

/-! ### Entries -/

/-- A string that a line adds to a field is well formed, and so is every other line. -/
def Line.wellFormed : Line → Bool
  | .plural | .other => false
  | .msgctxt text | .msgid text | .msgstr text | .quoted text => text.2
  | .blank | .obsolete | .fuzzyFlag | .comment => true

/-- A line that holds a translation. -/
def Line.translates : Line → Bool
  | .msgstr _ => true
  | _ => false

/-- The lines of an entry behind its first one. -/
def ownLines : Bool → List Line → List Line
  | _, [] => []
  | translated, line :: rest =>
      match line with
      | .blank | .obsolete | .msgctxt _ => []
      | .msgid text => if translated then [] else .msgid text :: ownLines false rest
      | .msgstr text => .msgstr text :: ownLines true rest
      | line => line :: ownLines translated rest

/-- The text of a field: what its lines hold and the quoted lines below them. -/
def fieldText (field : Field) : Field → List Line → Text
  | _, [] => []
  | current, line :: rest =>
      match line with
      | .msgid text => (if field = .Id then text.1 else []) ++ fieldText field .Id rest
      | .msgstr text => (if field = .Str then text.1 else []) ++ fieldText field .Str rest
      | .quoted text => (if field = current then text.1 else []) ++ fieldText field current rest
      | _ => fieldText field current rest

/-- An entry with a context. -/
structure Entry where
  /-- The lines above, the nearest first. -/
  above : List Line
  ctxt : Text
  str : Text
  wellFormed : Bool
  translated : Bool
  deriving DecidableEq

/-- The entry that begins with a context. -/
def entryAt (above : List Line) (ctxt : Text × Bool) (rest : List Line) : Entry :=
  let own := ownLines false rest
  { above
    ctxt := ctxt.1 ++ fieldText .Ctxt .Ctxt own
    str := fieldText .Str .Ctxt own
    wellFormed := ctxt.2 && own.all Line.wellFormed
    translated := own.any Line.translates }

/-- The entries with a context, in order. -/
def entriesFrom : List Line → List Line → List Entry
  | _, [] => []
  | above, line :: rest =>
      match line with
      | .msgctxt text => entryAt above text rest :: entriesFrom (line :: above) rest
      | _ => entriesFrom (line :: above) rest

/-- A translation of the message that a context names. -/
structure Translates (formats : Text → Option Text) (ctxt str : Text) : Prop where
  encoded : Utf8.Valid (codes str)
  named : (∃ name format, ctxt = PoDiagPrefix ++ name ∧ formats name = some format ∧
      placeholders str = placeholders format) ∨
    PoTokenPrefix <+: ctxt ∨ PoLabelPrefix <+: ctxt

/-- An entry that translates its message. -/
structure Entry.Valid (formats : Text → Option Text) (entry : Entry) : Prop where
  wellFormed : entry.wellFormed = true
  translated : entry.translated = true
  nonempty : entry.str ≠ []
  translates : Translates formats entry.ctxt entry.str

/-! ### Flags -/

/-- An entry is under way below these lines, the nearest first. -/
def underWay : List Line → Bool
  | [] => false
  | line :: above =>
      match line with
      | .blank | .obsolete => false
      | .msgctxt _ | .msgid _ | .msgstr _ | .plural => true
      | _ => underWay above

/-- The entry under way has its translation. -/
def translatedAbove : List Line → Bool
  | [] => false
  | line :: above =>
      match line with
      | .blank | .obsolete | .msgctxt _ | .msgid _ => false
      | .msgstr _ => true
      | _ => translatedAbove above

/-- A fuzzy flag stands above, and no entry, live or obsolete, begins below it. -/
def ownFlag : List Line → Bool
  | [] => false
  | line :: above =>
      match line with
      | .fuzzyFlag => true
      | .obsolete | .msgctxt _ => false
      | .msgid _ => (underWay above && !translatedAbove above) && ownFlag above
      | .msgstr _ | .plural => underWay above && ownFlag above
      | _ => ownFlag above

/-- The lines above end with a translation, which quoted lines continue. -/
def afterTranslation : List Line → Bool
  | [] => false
  | line :: above =>
      match line with
      | .msgstr text => text.2
      | .quoted text => text.2 && afterTranslation above
      | .fuzzyFlag | .comment | .other => afterTranslation above
      | _ => false

/-- A fuzzy flag stands above, below the last context and the last message that comes right behind a
translation. -/
def flagAbove : List Line → Bool
  | [] => false
  | line :: above =>
      match line with
      | .fuzzyFlag => true
      | .msgctxt _ => false
      | .msgid _ => !afterTranslation above && flagAbove above
      | _ => flagAbove above

attribute [grind =] afterTranslation fieldText flagAbove ownLines ownFlag

/-! ### What is stored -/

/-- Translations laid over what there is, the later ones over the earlier ones. -/
def merge (base : Text → Option Text) (translations : List (Text × Text)) : Text → Option Text :=
  translations.foldl (fun built pair => Function.update built pair.1 (some pair.2)) base

theorem merge_append (base : Text → Option Text) (first second : List (Text × Text)) :
    merge base (first ++ second) = merge (merge base first) second := List.foldl_append

section Load

variable {formats : Text → Option Text} {HonourFuzzy : Bool}

/-- An entry that a flush stores. -/
structure Stores (formats : Text → Option Text) (HonourFuzzy : Bool) (P : Pending) : Prop where
  context : P.HasCtxt = true
  good : P.Bad = false
  translated : P.HasStr = true
  nonempty : P.Str ≠ []
  translates : Translates formats P.Ctxt P.Str
  reviewed : HonourFuzzy = true ∨ P.Fuzzy = false

open Classical in
/-- The entry that a flush stores. -/
noncomputable def storedOf (formats : Text → Option Text) (HonourFuzzy : Bool) (P : Pending) :
    List (Text × Text) := if Stores formats HonourFuzzy P then [(P.Ctxt, P.Str)] else []

theorem translates_diag {name str : Text} :
    Translates formats (PoDiagPrefix ++ name) str ↔ Utf8.Valid (codes str) ∧
      ∃ format, formats name = some format ∧ placeholders str = placeholders format := by
  constructor
  · rintro ⟨encoded, ⟨other, format, ctxt_eq, known, same⟩ | ⟨rest, same⟩ | ⟨rest, same⟩⟩
    · obtain rfl := List.append_cancel_left ctxt_eq
      exact ⟨encoded, format, known, same⟩
    · exact absurd (List.cons.inj same).1 (by decide)
    · exact absurd (List.cons.inj same).1 (by decide)
  · rintro ⟨encoded, format, known, same⟩
    exact ⟨encoded, .inl ⟨name, format, rfl, known, same⟩⟩

theorem translates_other {ctxt str : Text} (other : ¬PoDiagPrefix <+: ctxt) :
    Translates formats ctxt str ↔
      Utf8.Valid (codes str) ∧ (PoTokenPrefix <+: ctxt ∨ PoLabelPrefix <+: ctxt) := by
  constructor
  · rintro ⟨encoded, ⟨name, format, rfl, -⟩ | kind⟩
    · exact absurd (List.prefix_append _ _) other
    · exact ⟨encoded, kind⟩
  · rintro ⟨encoded, kind⟩
    exact ⟨encoded, .inr kind⟩

/-- The effect of a flush that refuses nothing. -/
structure Flushed (formats : Text → Option Text) (HonourFuzzy : Bool) (s after : Reading) :
    Prop where
  built : after.Built = merge s.Built (storedOf formats HonourFuzzy s.P)
  loaded : after.R.Loaded = s.R.Loaded + (storedOf formats HonourFuzzy s.P).length
  fatal : after.R.FatalReason = s.R.FatalReason
  pending : after.P = {}
  cur : after.Cur = .None
  flag : after.PendingFuzzy = s.PendingFuzzy

theorem Flushed.of_not_stores {s after : Reading} (kept : ¬Stores formats HonourFuzzy s.P)
    (built : after.Built = s.Built) (loaded : after.R.Loaded = s.R.Loaded)
    (fatal : after.R.FatalReason = s.R.FatalReason) (pending : after.P = {})
    (cur : after.Cur = .None) (flag : after.PendingFuzzy = s.PendingFuzzy) :
    Flushed formats HonourFuzzy s after := by
  have none : storedOf formats HonourFuzzy s.P = [] := if_neg kept
  refine ⟨?_, ?_, fatal, pending, cur, flag⟩
  · rw [none, built]
    rfl
  · rw [none, loaded]
    rfl

theorem Flushed.of_stores {s after : Reading} (stores : Stores formats HonourFuzzy s.P)
    (built : after.Built = Function.update s.Built s.P.Ctxt (some s.P.Str))
    (loaded : after.R.Loaded = s.R.Loaded + 1) (fatal : after.R.FatalReason = s.R.FatalReason)
    (pending : after.P = {}) (cur : after.Cur = .None)
    (flag : after.PendingFuzzy = s.PendingFuzzy) : Flushed formats HonourFuzzy s after := by
  have one : storedOf formats HonourFuzzy s.P = [(s.P.Ctxt, s.P.Str)] := if_pos stores
  refine ⟨?_, ?_, fatal, pending, cur, flag⟩
  · rw [one, built]
    rfl
  · rw [one, loaded]
    rfl

theorem flushed_storeTranslation {s : Reading} {known : Option Text}
    (context : s.P.HasCtxt = true) (good : s.P.Bad = false) (translated : s.P.HasStr = true)
    (translates_iff : Translates formats s.P.Ctxt s.P.Str ↔ Utf8.Valid (codes s.P.Str) ∧
      ∀ format, known = some format → placeholders s.P.Str = placeholders format) :
    Flushed formats HonourFuzzy s (storeTranslation HonourFuzzy s known) := by
  unfold storeTranslation
  dsimp only
  split
  · rename_i empty
    exact .of_not_stores (fun stores => stores.nonempty (List.isEmpty_iff.mp empty))
      rfl rfl rfl rfl rfl rfl
  rename_i nonempty
  split
  · rename_i fuzzy
    refine .of_not_stores (fun stores => ?_) rfl rfl rfl rfl rfl rfl
    obtain honoured | unflagged := stores.reviewed
    · simp [honoured] at fuzzy
    · simp [unflagged] at fuzzy
  rename_i reviewed
  split
  · rename_i invalid
    refine .of_not_stores (fun stores => ?_) rfl rfl rfl rfl rfl rfl
    rw [(validUtf8_iff s.P.Str).mpr stores.translates.encoded] at invalid
    cases invalid
  rename_i valid
  rw [Bool.not_eq_true', Bool.not_eq_false, validUtf8_iff] at valid
  split
  · rename_i holes
    refine .of_not_stores (fun stores => ?_) rfl rfl rfl rfl rfl rfl
    cases known with
    | none => cases holes
    | some format =>
        have same := (translates_iff.mp stores.translates).2 format rfl
        simp [(placeholderMask_eq_iff _ _).mpr same] at holes
  rename_i whole
  refine .of_stores ⟨context, good, translated, by simpa using nonempty,
    translates_iff.mpr ⟨valid, ?_⟩, ?_⟩ rfl rfl rfl rfl rfl rfl
  · rintro format rfl
    simpa [placeholderMask_eq_iff] using whole
  · cases flagged : s.P.Fuzzy
    · exact .inr rfl
    · exact .inl (by simpa [flagged] using reviewed)

theorem flushed_of_flush {s after : Reading} (ok : flush formats HonourFuzzy s = .ok after) :
    Flushed formats HonourFuzzy s after := by
  unfold flush at ok
  dsimp only at ok
  split at ok
  · rename_i no_context
    have kept : ¬Stores formats HonourFuzzy s.P := fun stores => by
      rw [stores.context] at no_context
      exact absurd no_context (by decide)
    split at ok
    · obtain rfl := Except.ok.inj ok
      exact .of_not_stores kept rfl rfl rfl rfl rfl rfl
    · split at ok
      · obtain rfl := Except.ok.inj ok
        exact .of_not_stores kept rfl rfl rfl rfl rfl rfl
      · split at ok
        · cases ok
        · obtain rfl := Except.ok.inj ok
          exact .of_not_stores kept rfl rfl rfl rfl rfl rfl
  rename_i context
  rw [Bool.not_eq_true', Bool.not_eq_false] at context
  split at ok
  · rename_i bad
    obtain rfl := Except.ok.inj ok
    exact .of_not_stores (fun stores => by simp [stores.good] at bad) rfl rfl rfl rfl rfl rfl
  rename_i good
  split at ok
  · rename_i untranslated
    obtain rfl := Except.ok.inj ok
    exact .of_not_stores (fun stores => by simp [stores.translated] at untranslated)
      rfl rfl rfl rfl rfl rfl
  rename_i translated
  have good : s.P.Bad = false := by simpa using good
  have translated : s.P.HasStr = true := by simpa using translated
  split at ok
  · rename_i diag
    obtain ⟨name, ctxt_eq⟩ := List.isPrefixOf_iff_prefix.mp diag
    rw [← ctxt_eq, List.drop_left] at ok
    split at ok
    · rename_i unknown
      obtain rfl := Except.ok.inj ok
      refine .of_not_stores (fun stores => ?_) rfl rfl rfl rfl rfl rfl
      have translates := stores.translates
      rw [← ctxt_eq, translates_diag] at translates
      obtain ⟨-, format, known, -⟩ := translates
      rw [unknown] at known
      cases known
    · rename_i format known
      obtain rfl := Except.ok.inj ok
      refine flushed_storeTranslation context good translated ?_
      rw [← ctxt_eq, translates_diag]
      simp [known]
  · rename_i no_diag
    have other : Translates formats s.P.Ctxt s.P.Str ↔ _ :=
      translates_other (mt List.isPrefixOf_iff_prefix.mpr no_diag)
    split at ok
    · rename_i unknown
      obtain rfl := Except.ok.inj ok
      refine .of_not_stores (fun stores => ?_) rfl rfl rfl rfl rfl rfl
      have kind := (other.mp stores.translates).2
      rw [← List.isPrefixOf_iff_prefix, ← List.isPrefixOf_iff_prefix] at kind
      simp only [Bool.and_eq_true, Bool.not_eq_true'] at unknown
      obtain token | label := kind
      · exact absurd token (by simp [unknown.1])
      · exact absurd label (by simp [unknown.2])
    · rename_i kind
      obtain rfl := Except.ok.inj ok
      refine flushed_storeTranslation context good translated ?_
      rw [other, ← List.isPrefixOf_iff_prefix, ← List.isPrefixOf_iff_prefix]
      refine and_congr_right fun _ => iff_of_true ?_ (fun _ impossible => nomatch impossible)
      by_contra neither
      simp_all

/-! ### Runs -/

/-- An entry as it is when the lines that belong to it have been read. -/
def completed (P : Pending) (current : Field) (lines : List Line) : Pending :=
  let own := ownLines P.HasStr lines
  { P with
    Ctxt := P.Ctxt ++ fieldText .Ctxt current own
    Str := P.Str ++ fieldText .Str current own
    HasStr := P.HasStr || own.any Line.translates
    Bad := P.Bad || !own.all Line.wellFormed }

open Classical in
/-- The translations of entries that are stored, given which of them carry a flag. -/
noncomputable def translationsOf (formats : Text → Option Text) (HonourFuzzy : Bool)
    (flagged : List Line → Bool) (entries : List Entry) : List (Text × Text) :=
  (entries.filter fun entry =>
    decide (entry.Valid formats ∧ (HonourFuzzy = true ∨ flagged entry.above = false))).map
      fun entry => (entry.ctxt, entry.str)

/-- The entries that the rest of a text stores. -/
noncomputable def remaining (formats : Text → Option Text) (HonourFuzzy : Bool) (s : Reading)
    (above lines : List Line) : List (Text × Text) :=
  storedOf formats HonourFuzzy (completed s.P s.Cur lines) ++
    translationsOf formats HonourFuzzy flagAbove (entriesFrom above lines)

/-- An entry that is not going to be stored. -/
def Dead (P : Pending) : Prop := P.HasCtxt = false ∨ P.Bad = true

theorem storedOf_dead {P : Pending} (dead : Dead P) : storedOf formats HonourFuzzy P = [] := by
  refine if_neg fun stores => ?_
  obtain no_context | bad := dead
  · rw [stores.context] at no_context
    cases no_context
  · rw [stores.good] at bad
    cases bad

theorem Dead.completed {P : Pending} (dead : Dead P) (current : Field) (lines : List Line) :
    Dead (completed P current lines) := by
  obtain no_context | bad := dead
  · exact .inl no_context
  · exact .inr (by simp [Catalog.completed, bad])

/-- The pending entry agrees with the lines above. -/
structure Coherent (s : Reading) (above : List Line) : Prop where
  flag : s.PendingFuzzy = flagAbove above
  current : s.Cur = .Str ↔ afterTranslation above = true
  field : Dead s.P ∨ s.Cur ≠ .None ∧ (s.P.HasStr = true ↔ s.Cur = .Str)

/-- One line: the entries that it stores and the pending one behind it, against those that were to
be stored. -/
structure Step (formats : Text → Option Text) (HonourFuzzy : Bool) (s after : Reading)
    (above : List Line) (line : Line) (rest : List Line) : Prop where
  coherent : Coherent after (line :: above)
  stored : ∃ now, after.Built = merge s.Built now ∧ after.R.Loaded = s.R.Loaded + now.length ∧
    remaining formats HonourFuzzy s above (line :: rest) =
      now ++ remaining formats HonourFuzzy after (line :: above) rest
  fatal : after.R.FatalReason = s.R.FatalReason

theorem completed_of_own {P : Pending} {current : Field} {lines : List Line}
    (own : ownLines P.HasStr lines = []) : completed P current lines = P := by
  simp [completed, own, fieldText]

theorem remaining_dead {s : Reading} (dead : Dead s.P) (above lines : List Line) :
    remaining formats HonourFuzzy s above lines =
      translationsOf formats HonourFuzzy flagAbove (entriesFrom above lines) := by
  rw [remaining, storedOf_dead (dead.completed s.Cur lines), List.nil_append]

theorem dead_empty : Dead {} := .inl rfl

/-- A line that only ends an entry. -/
theorem Step.of_flush {s after : Reading} {above rest : List Line} {line : Line}
    (coherent : Coherent s above) (flushed : Flushed formats HonourFuzzy s after)
    (own : ownLines s.P.HasStr (line :: rest) = [])
    (flag : flagAbove (line :: above) = flagAbove above)
    (current : afterTranslation (line :: above) = false)
    (entries : entriesFrom above (line :: rest) = entriesFrom (line :: above) rest) :
    Step formats HonourFuzzy s after above line rest := by
  have dead : Dead after.P := flushed.pending ▸ dead_empty
  refine ⟨⟨?_, ?_, .inl dead⟩, ⟨_, flushed.built, flushed.loaded, ?_⟩, flushed.fatal⟩
  · rw [flushed.flag, coherent.flag, flag]
  · rw [flushed.cur, current]
    simp
  · rw [remaining_dead dead, remaining, completed_of_own own, entries]

/-- A line that stores nothing. -/
theorem Step.of_kept {s after : Reading} {above rest : List Line} {line : Line}
    (coherent : Coherent after (line :: above)) (built : after.Built = s.Built)
    (report : after.R = s.R)
    (pending : storedOf formats HonourFuzzy (completed s.P s.Cur (line :: rest)) =
      storedOf formats HonourFuzzy (completed after.P after.Cur rest))
    (entries : entriesFrom above (line :: rest) = entriesFrom (line :: above) rest) :
    Step formats HonourFuzzy s after above line rest :=
  ⟨coherent, ⟨[], built, by rw [report]; rfl, by
    rw [remaining, remaining, pending, entries, List.nil_append]⟩, by rw [report]⟩

/-- What an entry says in English does not count. -/
theorem storedOf_id {P Q : Pending} (same : { P with Id := Q.Id } = Q) :
    storedOf formats HonourFuzzy P = storedOf formats HonourFuzzy Q := by
  have stores_iff : Stores formats HonourFuzzy P ↔
      Stores formats HonourFuzzy { P with Id := Q.Id } :=
    ⟨fun ⟨a, b, c, d, e, f⟩ => ⟨a, b, c, d, e, f⟩, fun ⟨a, b, c, d, e, f⟩ => ⟨a, b, c, d, e, f⟩⟩
  rw [← same, storedOf, storedOf, stores_iff]

theorem storedOf_of_dead {P Q : Pending} (dead : Dead P) (other : Dead Q) :
    storedOf formats HonourFuzzy P = storedOf formats HonourFuzzy Q :=
  (storedOf_dead dead).trans (storedOf_dead other).symm

/-- A malformed string ends what can be stored of the entry. -/
theorem dead_taken {s : Reading} {text : Text × Bool} (malformed : text.2 = false)
    (field : Field) : Dead (taken s text field).P := by
  refine .inr ?_
  simp [taken, malformed]

theorem Dead.taken {s : Reading} (dead : Dead s.P) (text : Text × Bool) (field : Field) :
    Dead (taken s text field).P := by
  cases malformed : text.2 with
  | false => exact dead_taken malformed field
  | true =>
      simp only [Catalog.taken, malformed, if_true]
      cases field <;> exact dead

/-- A line of an entry that is malformed. -/
theorem dead_completed {P : Pending} {current : Field} {line : Line} {lines rest : List Line}
    {translated : Bool} (own : ownLines P.HasStr lines = line :: ownLines translated rest)
    (malformed : line.wellFormed = false) : Dead (completed P current lines) := by
  refine .inr ?_
  simp [completed, own, malformed]

theorem step_msgstr {s : Reading} {above rest : List Line} {text : Text × Bool}
    (coherent : Coherent s above) :
    Step formats HonourFuzzy s (taken { s with P := { s.P with HasStr := true } } text .Str) above
      (.msgstr text) rest := by
  have flag := coherent.flag
  cases malformed : text.2 with
  | false =>
      have dead := dead_taken malformed .Str (s := { s with P := { s.P with HasStr := true } })
      refine .of_kept ⟨?_, ?_, .inl dead⟩ ?_ ?_ ?_ rfl
      · simpa [taken, malformed, flagAbove] using flag
      · simp [taken, malformed, afterTranslation]
      · simp [taken, malformed]
      · simp [taken, malformed]
      · exact storedOf_of_dead (dead_completed rfl (by simpa [Line.wellFormed] using malformed))
          (dead.completed _ _)
  | true =>
      simp only [taken, malformed, if_true]
      refine .of_kept ⟨flag, ?_, .inr ⟨by simp, by simp⟩⟩ rfl rfl ?_ rfl
      · simp [afterTranslation, malformed]
      · simp [completed, ownLines, fieldText, Line.translates, Line.wellFormed, malformed]

theorem step_quoted {s after : Reading} {above rest : List Line} {text : Text × Bool}
    (coherent : Coherent s above)
    (read : readLine formats HonourFuzzy s (.quoted text) = .ok after) :
    Step formats HonourFuzzy s after above (.quoted text) rest := by
  have flag := coherent.flag
  by_cases no_field : s.Cur = .None
  · -- The quoted line continues a string that was dropped.
    have dead : Dead s.P := coherent.field.resolve_right fun live => live.1 no_field
    have still : Dead { s.P with Bad := true } := .inr rfl
    have current : afterTranslation above = false := by
      have := coherent.current
      simpa [no_field] using this
    simp only [readLine, no_field] at read
    obtain rfl := Except.ok.inj read
    refine .of_kept ⟨flag, ?_, .inl still⟩ rfl rfl ?_ rfl
    · simp [afterTranslation, current]
    · exact storedOf_of_dead (dead.completed _ _) (still.completed _ _)
  · have taken_eq : after = taken s text s.Cur := by
      simp only [readLine] at read
      exact (Except.ok.inj read).symm
    subst taken_eq
    cases malformed : text.2 with
    | false =>
        have dead := dead_taken malformed s.Cur (s := s)
        refine .of_kept ⟨?_, ?_, .inl dead⟩ ?_ ?_ ?_ rfl
        · simpa [taken, malformed, flagAbove] using flag
        · simp [taken, malformed, afterTranslation]
        · simp [taken, malformed]
        · simp [taken, malformed]
        · exact storedOf_of_dead (dead_completed rfl (by simpa [Line.wellFormed] using malformed))
            (dead.completed _ _)
    | true =>
        have own : ownLines s.P.HasStr (.quoted text :: rest) =
            .quoted text :: ownLines s.P.HasStr rest := rfl
        have current := coherent.current
        have field := coherent.field
        obtain ⟨R, Built, P, Cur, PendingFuzzy, SawHeader⟩ := s
        cases Cur with
        | None => exact absurd rfl no_field
        | Ctxt =>
            simp only [taken, malformed, if_true]
            refine .of_kept ⟨flag, ?_, field⟩ rfl rfl ?_ rfl
            · simpa [afterTranslation, malformed] using current
            · simp [completed, own, fieldText, Line.translates, Line.wellFormed, malformed]
        | Id =>
            simp only [taken, malformed, if_true]
            refine .of_kept ⟨flag, ?_, field⟩ rfl rfl (storedOf_id ?_) rfl
            · simpa [afterTranslation, malformed] using current
            · simp [completed, own, fieldText, Line.translates, Line.wellFormed, malformed]
        | Str =>
            simp only [taken, malformed, if_true]
            refine .of_kept ⟨flag, ?_, field⟩ rfl rfl ?_ rfl
            · simpa [afterTranslation, malformed] using current
            · simp [completed, own, fieldText, Line.translates, Line.wellFormed, malformed]

theorem step_msgid {s after : Reading} {above rest : List Line} {text : Text × Bool}
    (coherent : Coherent s above)
    (read : readLine formats HonourFuzzy s (.msgid text) = .ok after) :
    Step formats HonourFuzzy s after above (.msgid text) rest := by
  have no_string (s : Reading) : (taken s text .Id).Cur ≠ .Str := by
    simp only [taken]
    split <;> simp
  have kept (s : Reading) : (taken s text .Id).R = s.R ∧ (taken s text .Id).Built = s.Built ∧
      (taken s text .Id).PendingFuzzy = s.PendingFuzzy := by
    simp only [taken]
    split <;> simp
  by_cases at_string : s.Cur = .Str
  · -- The entry is translated: the next one begins.
    simp only [readLine, at_string, if_true] at read
    cases flushed_eq : flush formats HonourFuzzy s with
    | error R => simp [flushed_eq] at read
    | ok fresh =>
        have flushed := flushed_of_flush flushed_eq
        simp only [flushed_eq] at read
        obtain rfl := Except.ok.inj read
        have dead : Dead (taken (beginEntry fresh) text .Id).P := by
          refine Dead.taken (.inl ?_) _ _
          simp [beginEntry, flushed.pending]
        refine ⟨⟨?_, ?_, .inl dead⟩, ⟨storedOf formats HonourFuzzy s.P, ?_, ?_, ?_⟩, ?_⟩
        · rw [(kept _).2.2, flagAbove, coherent.current.mp at_string]
          rfl
        · simp [no_string, afterTranslation]
        · rw [(kept _).2.1]
          exact flushed.built
        · rw [(kept _).1]
          exact flushed.loaded
        · rw [remaining_dead dead, remaining]
          obtain gone | live := coherent.field
          · rw [storedOf_dead gone, storedOf_dead (gone.completed _ _)]
            rfl
          · have own : ownLines s.P.HasStr (.msgid text :: rest) = [] := by
              simp [ownLines, live.2.mpr at_string]
            rw [completed_of_own own]
            rfl
        · rw [(kept _).1]
          exact flushed.fatal
  · simp only [readLine, at_string, if_false, pure_bind] at read
    obtain rfl := Except.ok.inj read
    have current : afterTranslation above = false := by
      have := coherent.current
      simpa [at_string] using this
    have flag : (taken s text .Id).PendingFuzzy = flagAbove (.msgid text :: above) := by
      simp [(kept s).2.2, coherent.flag, flagAbove, current]
    have current_after : (taken s text .Id).Cur = .Str ↔
        afterTranslation (.msgid text :: above) = true := by
      simp [no_string, afterTranslation]
    obtain dead | live := coherent.field
    · exact .of_kept ⟨flag, current_after, .inl (dead.taken _ _)⟩ (kept s).2.1 (kept s).1
        (storedOf_of_dead (dead.completed _ _) ((dead.taken _ _).completed _ _)) rfl
    · have untranslated : s.P.HasStr = false := by
        have := live.2
        simpa [at_string] using this
      have own : ownLines false (.msgid text :: rest) = .msgid text :: ownLines false rest := rfl
      cases malformed : text.2 with
      | false =>
          have dead := dead_taken malformed .Id (s := s)
          exact .of_kept ⟨flag, current_after, .inl dead⟩ (kept s).2.1 (kept s).1
            (storedOf_of_dead (dead_completed (untranslated ▸ own)
              (by simpa [Line.wellFormed] using malformed)) (dead.completed _ _)) rfl
      | true =>
          refine .of_kept ⟨flag, current_after, .inr ?_⟩ (kept s).2.1 (kept s).1
            (storedOf_id ?_) rfl
          · simp [taken, malformed, untranslated]
          · simp [completed, own, fieldText, taken, Line.translates, Line.wellFormed, malformed,
              untranslated]

/-- An entry with a context as it is pending behind its first line. -/
theorem translationsOf_cons {above rest : List Line} {text : Text × Bool} {entries : List Entry}
    {s : Reading} (pending : s.P = { HasCtxt := true, Fuzzy := flagAbove above }) :
    translationsOf formats HonourFuzzy flagAbove (entryAt above text rest :: entries) =
      storedOf formats HonourFuzzy
          (completed (taken s text .Ctxt).P (taken s text .Ctxt).Cur rest) ++
        translationsOf formats HonourFuzzy flagAbove entries := by
  cases malformed : text.2 with
  | false =>
      rw [storedOf_dead ((dead_taken malformed .Ctxt).completed _ _), translationsOf,
        List.filter_cons_of_neg]
      · rfl
      · simp only [decide_eq_true_eq]
        rintro ⟨valid, -⟩
        simpa [entryAt, malformed] using valid.wellFormed
  | true =>
      have completed_eq : completed (taken s text .Ctxt).P (taken s text .Ctxt).Cur rest =
          { Ctxt := (entryAt above text rest).ctxt
            Str := (entryAt above text rest).str
            HasCtxt := true
            HasStr := (entryAt above text rest).translated
            Fuzzy := flagAbove above
            Bad := !(entryAt above text rest).wellFormed } := by
        simp [taken, malformed, pending, completed, entryAt]
      have stores_iff : Stores formats HonourFuzzy
            (completed (taken s text .Ctxt).P (taken s text .Ctxt).Cur rest) ↔
          (entryAt above text rest).Valid formats ∧
            (HonourFuzzy = true ∨ flagAbove (entryAt above text rest).above = false) := by
        rw [completed_eq]
        constructor
        · rintro ⟨-, good, translated, nonempty, translates, reviewed⟩
          exact ⟨⟨by simpa using good, translated, nonempty, translates⟩, reviewed⟩
        · rintro ⟨⟨good, translated, nonempty, translates⟩, reviewed⟩
          exact ⟨rfl, by simpa using good, translated, nonempty, translates, reviewed⟩
      by_cases stores : Stores formats HonourFuzzy
          (completed (taken s text .Ctxt).P (taken s text .Ctxt).Cur rest)
      · rw [storedOf, if_pos stores, translationsOf,
          List.filter_cons_of_pos (by simpa using stores_iff.mp stores), completed_eq]
        rfl
      · rw [storedOf, if_neg stores, translationsOf,
          List.filter_cons_of_neg (by simpa using mt stores_iff.mpr stores)]
        rfl

theorem step_msgctxt {s after : Reading} {above rest : List Line} {text : Text × Bool}
    (coherent : Coherent s above)
    (read : readLine formats HonourFuzzy s (.msgctxt text) = .ok after) :
    Step formats HonourFuzzy s after above (.msgctxt text) rest := by
  simp only [readLine] at read
  cases flushed_eq : flush formats HonourFuzzy s with
  | error R => simp [flushed_eq] at read
  | ok fresh =>
      have flushed := flushed_of_flush flushed_eq
      simp only [flushed_eq] at read
      obtain rfl := Except.ok.inj read
      have field (s : Reading) : (taken s text .Ctxt).R = s.R ∧
          (taken s text .Ctxt).Built = s.Built ∧
          (taken s text .Ctxt).PendingFuzzy = s.PendingFuzzy ∧
          (taken s text .Ctxt).Cur ≠ .Str ∧
          (text.2 = true → (taken s text .Ctxt).Cur = .Ctxt ∧
            (taken s text .Ctxt).P.HasStr = s.P.HasStr) := by
        simp only [taken]
        split <;> simp [*]
      refine ⟨⟨?_, ?_, ?_⟩, ⟨storedOf formats HonourFuzzy s.P, ?_, ?_, ?_⟩, ?_⟩
      · rw [(field _).2.2.1]
        rfl
      · simp [(field _).2.2.2.1, afterTranslation]
      · cases malformed : text.2 with
        | false => exact .inl (dead_taken malformed _)
        | true =>
            refine .inr ⟨?_, ?_⟩
            · rw [((field _).2.2.2.2 malformed).1]
              simp
            · rw [((field _).2.2.2.2 malformed).1, ((field _).2.2.2.2 malformed).2]
              simp [beginEntry, flushed.pending]
      · rw [(field _).2.1]
        exact flushed.built
      · rw [(field _).1]
        exact flushed.loaded
      · rw [remaining, remaining, completed_of_own rfl]
        refine congrArg _ (translationsOf_cons ?_)
        simp [beginEntry, flushed.pending, flushed.flag, coherent.flag]
      · rw [(field _).1]
        exact flushed.fatal

theorem step_readLine {s after : Reading} {above rest : List Line} {line : Line}
    (coherent : Coherent s above) (read : readLine formats HonourFuzzy s line = .ok after) :
    Step formats HonourFuzzy s after above line rest := by
  cases line with
  | blank => exact .of_flush coherent (flushed_of_flush read) rfl rfl rfl rfl
  | obsolete => exact .of_flush coherent (flushed_of_flush read) rfl rfl rfl rfl
  | fuzzyFlag =>
      obtain rfl := Except.ok.inj read
      exact .of_kept ⟨rfl, coherent.current, coherent.field⟩ rfl rfl rfl rfl
  | comment =>
      obtain rfl := Except.ok.inj read
      exact .of_kept ⟨coherent.flag, coherent.current, coherent.field⟩ rfl rfl rfl rfl
  | msgctxt text => exact step_msgctxt coherent read
  | plural =>
      obtain rfl := Except.ok.inj read
      have dead : Dead { s.P with Bad := true } := .inr rfl
      refine .of_kept ⟨coherent.flag, by simp [afterTranslation], .inl dead⟩ rfl rfl ?_ rfl
      exact storedOf_of_dead (dead_completed rfl rfl) (dead.completed _ _)
  | msgid text => exact step_msgid coherent read
  | msgstr text =>
      obtain rfl := Except.ok.inj read
      exact step_msgstr coherent
  | quoted text => exact step_quoted coherent read
  | other =>
      obtain rfl := Except.ok.inj read
      have dead : Dead { s.P with Bad := true } := .inr rfl
      refine .of_kept ⟨coherent.flag, coherent.current, .inl dead⟩ rfl rfl ?_ rfl
      exact storedOf_of_dead (dead_completed rfl rfl) (dead.completed _ _)

/-- Reading the rest of a text stores its entries. -/
theorem run_stored {lines : List Line} {s final : Reading} {above : List Line}
    (coherent : Coherent s above)
    (ran : lines.foldlM (readLine formats HonourFuzzy) s >>= flush formats HonourFuzzy =
      .ok final) :
    final.Built = merge s.Built (remaining formats HonourFuzzy s above lines) ∧
      final.R.Loaded = s.R.Loaded + (remaining formats HonourFuzzy s above lines).length ∧
      final.R.FatalReason = s.R.FatalReason := by
  induction lines generalizing s above with
  | nil =>
      have flushed := flushed_of_flush (show flush formats HonourFuzzy s = .ok final from ran)
      have last : remaining formats HonourFuzzy s above [] =
          storedOf formats HonourFuzzy s.P := by
        rw [remaining, completed_of_own rfl]
        exact List.append_nil _
      rw [last]
      exact ⟨flushed.built, flushed.loaded, flushed.fatal⟩
  | cons line rest induction =>
      rw [List.foldlM_cons] at ran
      cases read : readLine formats HonourFuzzy s line with
      | error R =>
          rw [read] at ran
          cases ran
      | ok after =>
          rw [read] at ran
          obtain ⟨coherent_after, ⟨now, built, loaded, remaining_eq⟩, fatal⟩ :=
            (step_readLine coherent read : Step formats HonourFuzzy s after above line rest)
          obtain ⟨built_rest, loaded_rest, fatal_rest⟩ := induction coherent_after ran
          refine ⟨?_, ?_, fatal_rest.trans fatal⟩
          · rw [built_rest, built, remaining_eq, merge_append]
          · rw [loaded_rest, loaded, remaining_eq, List.length_append, Nat.add_assoc]

theorem headerRefusal_ne_nil {header reason : Text} (refused : headerRefusal header = some reason) :
    reason ≠ [] := by
  unfold headerRefusal at refused
  dsimp only at refused
  split at refused
  · obtain rfl := Option.some.inj refused
    simp
  · split at refused
    · obtain rfl := Option.some.inj refused
      simp
    · cases refused

theorem flush_error {s : Reading} {R : CatalogReport}
    (refused : flush formats HonourFuzzy s = .error R) : R.FatalReason ≠ [] := by
  unfold flush at refused
  dsimp only at refused
  split at refused
  · split at refused
    · cases refused
    · split at refused
      · cases refused
      · split at refused
        · rename_i reason header
          obtain rfl := Except.error.inj refused
          exact headerRefusal_ne_nil header
        · cases refused
  · repeat' split at refused
    all_goals cases refused

theorem readLine_error {s : Reading} {line : Line} {R : CatalogReport}
    (refused : readLine formats HonourFuzzy s line = .error R) : R.FatalReason ≠ [] := by
  have bound {f : Reading → Except CatalogReport Reading} (total : ∀ s R, f s ≠ .error R)
      (refused : flush formats HonourFuzzy s >>= f = .error R) : R.FatalReason ≠ [] := by
    cases flushed : flush formats HonourFuzzy s with
    | error other =>
        rw [flushed] at refused
        obtain rfl := Except.error.inj refused
        exact flush_error flushed
    | ok after =>
        rw [flushed] at refused
        exact absurd refused (total after R)
  cases line with
  | blank => exact flush_error refused
  | obsolete => exact flush_error refused
  | fuzzyFlag => cases refused
  | comment => cases refused
  | msgctxt text => exact bound (fun _ _ impossible => by cases impossible) refused
  | plural => cases refused
  | msgid text =>
      simp only [readLine] at refused
      split at refused
      · rw [map_eq_pure_bind, bind_assoc] at refused
        exact bound (fun _ _ impossible => by cases impossible) refused
      · cases refused
  | msgstr text => cases refused
  | quoted text =>
      simp only [readLine] at refused
      split at refused <;> cases refused
  | other => cases refused

theorem run_error {lines : List Line} {s : Reading} {R : CatalogReport}
    (refused : lines.foldlM (readLine formats HonourFuzzy) s >>= flush formats HonourFuzzy =
      .error R) : R.FatalReason ≠ [] := by
  induction lines generalizing s with
  | nil => exact flush_error (show flush formats HonourFuzzy s = .error R from refused)
  | cons line rest induction =>
      rw [List.foldlM_cons] at refused
      cases read : readLine formats HonourFuzzy s line with
      | error other =>
          rw [read] at refused
          obtain rfl := Except.error.inj refused
          exact readLine_error read
      | ok after =>
          rw [read] at refused
          exact induction refused

end Load

/-! ### Whose flag it is -/

theorem translatedAbove_of_afterTranslation {above : List Line}
    (after : afterTranslation above = true) : translatedAbove above = true := by
  induction above with
  | nil => cases after
  | cons line above induction =>
      cases line with
      | blank | obsolete | msgctxt | plural | msgid => cases after
      | msgstr => rfl
      | fuzzyFlag | comment | other => exact induction after
      | quoted text =>
          rw [afterTranslation, Bool.and_eq_true] at after
          exact induction after.2

/-- An entry's own flag is one that the reader sees above it. -/
theorem flagAbove_of_ownFlag {above : List Line} (own : ownFlag above = true) :
    flagAbove above = true := by
  induction above with
  | nil => cases own
  | cons line above induction =>
      cases line with
      | fuzzyFlag => rfl
      | obsolete | msgctxt => cases own
      | blank | comment | quoted | other => exact induction own
      | msgid text =>
          rw [ownFlag, Bool.and_eq_true, Bool.and_eq_true, Bool.not_eq_true'] at own
          rw [flagAbove, induction own.2, Bool.and_true, Bool.not_eq_true', ← Bool.not_eq_true]
          intro after
          rw [translatedAbove_of_afterTranslation after] at own
          cases own.1.2
      | msgstr | plural =>
          rw [ownFlag, Bool.and_eq_true] at own
          exact induction own.2

/-- No valid entry without a flag of its own stands below the flag of another one. -/
def OwnFlags (formats : Text → Option Text) (HonourFuzzy : Bool) (lines : List Line) : Prop :=
  HonourFuzzy = true ∨ ∀ entry ∈ entriesFrom [] lines, entry.Valid formats →
    flagAbove entry.above = true → ownFlag entry.above = true

section Sublist

variable {formats : Text → Option Text} {HonourFuzzy : Bool}

theorem reviewed_of_flagAbove {entry : Entry}
    (stored : entry.Valid formats ∧ (HonourFuzzy = true ∨ flagAbove entry.above = false)) :
    entry.Valid formats ∧ (HonourFuzzy = true ∨ ownFlag entry.above = false) := by
  refine ⟨stored.1, stored.2.imp_right fun unflagged => ?_⟩
  rw [← Bool.not_eq_true]
  intro own
  rw [flagAbove_of_ownFlag own] at unflagged
  cases unflagged

open Classical in
/-- The reader stores no more than it should. -/
theorem translationsOf_sublist (entries : List Entry) :
    (translationsOf formats HonourFuzzy flagAbove entries).Sublist
      (translationsOf formats HonourFuzzy ownFlag entries) := by
  refine (List.monotone_filter_right entries fun entry stored => ?_).map _
  simp only [decide_eq_true_eq] at stored ⊢
  exact reviewed_of_flagAbove stored

open Classical in
theorem translationsOf_eq_iff (lines : List Line) :
    translationsOf formats HonourFuzzy flagAbove (entriesFrom [] lines) =
        translationsOf formats HonourFuzzy ownFlag (entriesFrom [] lines) ↔
      OwnFlags formats HonourFuzzy lines := by
  constructor
  · intro same
    cases HonourFuzzy with
    | true => exact .inl rfl
    | false =>
        -- A valid entry that is missing makes the list shorter.
        have lengths := congrArg List.length same
        rw [translationsOf, translationsOf, List.length_map, List.length_map] at lengths
        have filters := (List.monotone_filter_right (entriesFrom [] lines)
          (fun entry stored => by
            simp only [decide_eq_true_eq] at stored ⊢
            exact reviewed_of_flagAbove stored)).eq_of_length lengths
        refine .inr fun entry mem valid flagged => ?_
        by_contra unflagged
        have inside : entry ∈ (entriesFrom [] lines).filter fun entry =>
            decide (entry.Valid formats ∧ (false = true ∨ ownFlag entry.above = false)) :=
          List.mem_filter.mpr
            ⟨mem, decide_eq_true ⟨valid, .inr (Bool.eq_false_iff.mpr unflagged)⟩⟩
        rw [← filters, List.mem_filter] at inside
        simp [flagged] at inside
  · rintro (rfl | own)
    · simp only [translationsOf, true_or]
    · refine congrArg _ (List.filter_congr fun entry mem => ?_)
      rw [decide_eq_decide]
      refine ⟨reviewed_of_flagAbove, fun ⟨valid, reviewed⟩ =>
        ⟨valid, reviewed.imp_right fun unflagged => ?_⟩⟩
      rw [← Bool.not_eq_true]
      intro flagged
      rw [own entry mem valid flagged] at unflagged
      cases unflagged

end Sublist

/-! ### Loading -/

/-- Every stored translation translates its message. -/
def Safe (formats : Text → Option Text) (catalog : MessageCatalog) : Prop :=
  ∀ ctxt str, catalog.Entries ctxt = some str → Translates formats ctxt str

theorem merge_safe {formats : Text → Option Text} {base : Text → Option Text}
    {translations : List (Text × Text)}
    (base_safe : ∀ ctxt str, base ctxt = some str → Translates formats ctxt str)
    (safe : ∀ pair ∈ translations, Translates formats pair.1 pair.2) {ctxt str : Text}
    (found : merge base translations ctxt = some str) : Translates formats ctxt str := by
  induction translations generalizing base with
  | nil => exact base_safe ctxt str found
  | cons pair translations induction =>
      have updated (other text : Text)
          (known : Function.update base pair.1 (some pair.2) other = some text) :
          Translates formats other text := by
        by_cases same : other = pair.1
        · rw [same, Function.update_self] at known
          obtain rfl := Option.some.inj known
          exact same ▸ safe pair List.mem_cons_self
        · rw [Function.update_of_ne same] at known
          exact base_safe other text known
      exact induction updated (fun other mem => safe other (List.mem_cons_of_mem _ mem)) found

/-- What a load does to a catalogue: it is refused, or stores what the reader takes for reviewed. -/
theorem loadText_eq (formats : Text → Option Text) (catalog : MessageCatalog) (text : Text)
    (Merge : Bool) :
    (((catalog.loadText formats text Merge).1.FatalReason ≠ [] ∧
        (catalog.loadText formats text Merge).2 = catalog) ∨
      ((catalog.loadText formats text Merge).1.FatalReason = [] ∧
        (catalog.loadText formats text Merge).1.Loaded =
          (translationsOf formats catalog.HonourFuzzy flagAbove
            (entriesFrom [] (linesOf text))).length ∧
        (catalog.loadText formats text Merge).2.Entries =
          merge (if Merge then catalog.Entries else fun _ => none)
            (translationsOf formats catalog.HonourFuzzy flagAbove
              (entriesFrom [] (linesOf text))))) := by
  have coherent : Coherent { Built := if Merge then catalog.Entries else fun _ => none } [] :=
    ⟨rfl, by simp [afterTranslation], .inl dead_empty⟩
  unfold MessageCatalog.loadText
  dsimp only
  split
  · rename_i R refused
    exact .inl ⟨run_error refused, rfl⟩
  · rename_i s accepted
    obtain ⟨built, loaded, fatal⟩ := run_stored coherent accepted
    rw [remaining_dead dead_empty] at built loaded
    exact .inr ⟨fatal, loaded.trans (Nat.zero_add _), built⟩

theorem mem_translationsOf {formats : Text → Option Text} {HonourFuzzy : Bool}
    {flagged : List Line → Bool} {entries : List Entry} {pair : Text × Text}
    (mem : pair ∈ translationsOf formats HonourFuzzy flagged entries) :
    Translates formats pair.1 pair.2 := by
  obtain ⟨entry, stored, rfl⟩ := List.mem_map.mp mem
  have valid := (List.mem_filter.mp stored).2
  simp only [decide_eq_true_eq] at valid
  exact valid.1.translates

theorem safe_loadText {formats : Text → Option Text} {catalog : MessageCatalog}
    (safe : Safe formats catalog) (text : Text) (Merge : Bool) :
    Safe formats (catalog.loadText formats text Merge).2 := by
  obtain ⟨-, same⟩ | ⟨-, -, entries⟩ := loadText_eq formats catalog text Merge
  · rw [same]
    exact safe
  · intro ctxt str found
    rw [entries] at found
    refine merge_safe ?_ (fun pair mem => mem_translationsOf mem) found
    intro other text known
    cases Merge with
    | true => exact safe other text known
    | false => cases known

/-- The operations on a catalogue. -/
inductive CatalogOp where
  | load (text : Text) (Merge : Bool)
  | setHonorFuzzy (Honor : Bool)
  | clear

/-- Do it. -/
def CatalogOp.apply (formats : Text → Option Text) (catalog : MessageCatalog) :
    CatalogOp → MessageCatalog
  | .load text Merge => (catalog.loadText formats text Merge).2
  | .setHonorFuzzy Honor => catalog.setHonorFuzzy Honor
  | .clear => catalog.clear

theorem safe_run (formats : Text → Option Text) (ops : List CatalogOp) {catalog : MessageCatalog}
    (safe : Safe formats catalog) : Safe formats (ops.foldl (CatalogOp.apply formats) catalog) := by
  induction ops generalizing catalog with
  | nil => exact safe
  | cons op ops induction =>
      refine induction ?_
      cases op with
      | load text Merge => exact safe_loadText safe text Merge
      | setHonorFuzzy Honor => exact safe
      | clear => exact fun ctxt str found => nomatch found

/-- A load that takes every valid entry of a text, reviewed or honoured, and nothing else. -/
structure Exact (formats : Text → Option Text) (catalog : MessageCatalog) (lines : List Line)
    (Merge : Bool) (R : CatalogReport) (after : MessageCatalog) : Prop where
  entries : after.Entries = merge (if Merge then catalog.Entries else fun _ => none)
    (translationsOf formats catalog.HonourFuzzy ownFlag (entriesFrom [] lines))
  loaded : R.Loaded =
    (translationsOf formats catalog.HonourFuzzy ownFlag (entriesFrom [] lines)).length

/-- A load changes nothing or stores translations only; it stores all of them when no entry stands
below another one's flag. -/
theorem loadText_exact_iff (formats : Text → Option Text) (ops : List CatalogOp) (text : Text)
    (Merge : Bool) :
    let catalog := ops.foldl (CatalogOp.apply formats) {}
    let load := catalog.loadText formats text Merge
    (load.1.FatalReason ≠ [] → load.2 = catalog) ∧ Safe formats load.2 ∧
      (load.1.FatalReason = [] → (Exact formats catalog (linesOf text) Merge load.1 load.2 ↔
        OwnFlags formats catalog.HonourFuzzy (linesOf text))) := by
  intro catalog load
  have safe : Safe formats catalog := safe_run formats ops fun _ _ found => nomatch found
  refine ⟨?_, safe_loadText safe text Merge, ?_⟩
  · intro refused
    obtain ⟨-, same⟩ | ⟨accepted, -⟩ := loadText_eq formats catalog text Merge
    · exact same
    · exact absurd accepted refused
  · intro accepted
    obtain ⟨refused, -⟩ | ⟨-, loaded, entries⟩ := loadText_eq formats catalog text Merge
    · exact absurd accepted refused
    rw [← translationsOf_eq_iff]
    constructor
    · intro exact_load
      exact (translationsOf_sublist _).eq_of_length (loaded.symm.trans exact_load.loaded)
    · intro same
      exact ⟨by rw [← same]; exact entries, by rw [← same]; exact loaded⟩

/-- A reviewed translation below an obsolete entry that had been fuzzy. -/
def obsoleteAbove : Text :=
  "#, fuzzy\n#~ msgid \"old\"\n\nmsgctxt \"label/note\"\nmsgstr \"Hinweis\"\n".toList

/-- The reviewed entry is dropped. -/
theorem loadText_drops_reviewed :
    let load := ({} : MessageCatalog).loadText (fun _ => none) obsoleteAbove false
    load.1.FatalReason = [] ∧ load.1.Fuzzy = 1 ∧
      ¬Exact (fun _ => none) {} (linesOf obsoleteAbove) false load.1 load.2 := by
  have dropped : (({} : MessageCatalog).loadText (fun _ => none) obsoleteAbove false).1 =
      { Fuzzy := 1 } := by decide +kernel
  have one : entriesFrom [] (linesOf obsoleteAbove) =
      [entryAt [.blank, .obsolete, .fuzzyFlag] ("label/note".toList, true)
        [.msgstr ("Hinweis".toList, true), .blank]] := by decide +kernel
  refine ⟨by rw [dropped], by rw [dropped], fun complete => ?_⟩
  have stored := complete.loaded
  rw [dropped, one, translationsOf, List.filter_cons_of_pos] at stored
  · cases stored
  · simp only [decide_eq_true_eq]
    refine ⟨⟨by decide, by decide, by decide, ?_, .inr (.inr ?_)⟩, .inr (by decide)⟩
    · exact ⟨"Hinweis".toList, by decide +kernel⟩
    · exact ⟨"note".toList, by decide +kernel⟩

end Plang.Catalog
