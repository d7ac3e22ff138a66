import Plang.Runtime.Val

/-!
# The error positions of `Val`

What is in front of the digits of a text is told apart in one way only, so that the parser's parts
are those of the language.  A text is refused behind the longest part of it that can be continued,
except where that part is the least integer of 64 bits: its magnitude is taken for an overflow.
-/

namespace Plang.Runtime

open Numerals ViablePrefix

/-! ### Digits -/

theorem toNat_toLower (c : Char) :
    c.toLower.toNat = if 65 ≤ c.toNat ∧ c.toNat ≤ 90 then c.toNat + 32 else c.toNat := by
  have upper : (c.val ≥ 'A'.val ∧ c.val ≤ 'Z'.val) ↔ 65 ≤ c.toNat ∧ c.toNat ≤ 90 := Iff.rfl
  by_cases letter : c.val ≥ 'A'.val ∧ c.val ≤ 'Z'.val
  · have lowered : c.toLower.val = c.val + ('a'.val - 'A'.val) := congrArg Char.val (dif_pos letter)
    have bounds := upper.mp letter
    rw [if_pos bounds, Char.toNat, lowered, UInt32.toNat_add]
    exact Nat.mod_eq_of_lt (by change c.toNat + 32 < 2 ^ 32; omega)
  · have same : c.toLower = c := dif_neg letter
    rw [if_neg (upper.not.mp letter), same]

theorem valDigit_eq (c : Char) (radix : Nat) :
    valDigit c radix = if isDigitOf radix c then some (digitValue c) else none := by
  have upper : c.isUpper ↔ 65 ≤ c.toNat ∧ c.toNat ≤ 90 := decide_eq_true_iff
  have within (a b : Char) : (decide (c.val ≥ a.val) && decide (c.val ≤ b.val)) = true ↔
      a.toNat ≤ c.toNat ∧ c.toNat ≤ b.toNat := by
    rw [Bool.and_eq_true, decide_eq_true_iff, decide_eq_true_iff]
    exact Iff.rfl
  have lower : c.isLower ↔ 97 ≤ c.toNat ∧ c.toNat ≤ 122 := within 'a' 'z'
  have digit : c.isDigit = decide (48 ≤ c.toNat ∧ c.toNat ≤ 57) :=
    Bool.eq_iff_iff.mpr ((within '0' '9').trans decide_eq_true_iff.symm)
  have alnum : c.isAlphanum = decide (65 ≤ c.toNat ∧ c.toNat ≤ 90 ∨ 97 ≤ c.toNat ∧ c.toNat ≤ 122 ∨
      48 ≤ c.toNat ∧ c.toNat ≤ 57) := by
    change ((c.isUpper || c.isLower) || c.isDigit) = _
    rw [Bool.eq_iff_iff, Bool.or_eq_true, Bool.or_eq_true, upper, lower, digit, decide_eq_true_iff,
      decide_eq_true_iff, or_assoc]
  have range (a b : Char) : (a ≤ c ∧ c ≤ b) ↔ a.toNat ≤ c.toNat ∧ c.toNat ≤ b.toNat := Iff.rfl
  have value : digitValue c = if 48 ≤ c.toNat ∧ c.toNat ≤ 57 then c.toNat - 48
      else (if 65 ≤ c.toNat ∧ c.toNat ≤ 90 then c.toNat + 32 else c.toNat) - 97 + 10 := by
    rw [digitValue, digit, toNat_toLower]
    simp
  rw [valDigit, isDigitOf, alnum, value]
  simp only [range]
  change Option.filter _ (if 48 ≤ c.toNat ∧ c.toNat ≤ 57 then some (c.toNat - 48)
    else if 97 ≤ c.toNat ∧ c.toNat ≤ 122 then some (c.toNat - 97 + 10)
    else if 65 ≤ c.toNat ∧ c.toNat ≤ 90 then some (c.toNat - 65 + 10) else none) = _
  by_cases decimal : 48 ≤ c.toNat ∧ c.toNat ≤ 57
  · simp [decimal, Option.filter_some]
  · by_cases small : 97 ≤ c.toNat ∧ c.toNat ≤ 122
    · have not_upper : ¬(65 ≤ c.toNat ∧ c.toNat ≤ 90) := by omega
      simp [decimal, small, not_upper, Option.filter_some]
    · by_cases large : 65 ≤ c.toNat ∧ c.toNat ≤ 90
      · have shifted : c.toNat + 32 - 97 = c.toNat - 65 := by omega
        simp [decimal, small, large, shifted, Option.filter_some]
      · simp [decimal, small, large]

/-- A digit is neither a blank nor a sign. -/
theorem digit_visible {radix : Nat} {c : Char} (digit : isDigitOf radix c) :
    isValSpace c = false ∧ c ≠ '+' ∧ c ≠ '-' := by
  rw [isDigitOf, Bool.and_eq_true] at digit
  have alphanumeric := digit.1
  refine ⟨?_, ?_, ?_⟩
  · by_contra blank
    rw [Bool.not_eq_false, isValSpace] at blank
    simp only [Bool.or_eq_true, beq_iff_eq] at blank
    rcases blank with ((rfl | rfl) | rfl) | rfl <;> revert alphanumeric <;> decide
  · rintro rfl
    revert alphanumeric
    decide
  · rintro rfl
    revert alphanumeric
    decide

/-! ### Headers -/

/-- The text begins with the prefix of a radix. -/
def Announces (text : Text) : Prop :=
  ∃ announced radix rest, (announced, radix) ∈ radixPrefixes ∧ announced ≠ [] ∧
    text = announced ++ rest

/-- The text behind a header is not taken for more of the header. -/
structure Header.Plain (h : Header) (body : Text) : Prop where
  no_sign : h.sign = [] → h.announced = [] → ∀ c rest, body = c :: rest →
    isValSpace c = false ∧ c ≠ '+' ∧ c ≠ '-'
  no_announcement : h.announced = [] → ¬Announces body

theorem valRadix_append {announced rest : Text} {radix : Nat}
    (listed : (announced, radix) ∈ radixPrefixes) (some_ : announced ≠ []) :
    valRadix (announced ++ rest) = (radix, rest) := by
  simp only [radixPrefixes, List.mem_cons, Prod.mk.injEq, List.not_mem_nil, or_false] at listed
  rcases listed with ⟨rfl, rfl⟩ | ⟨rfl, rfl⟩ | ⟨rfl, rfl⟩ | ⟨rfl, rfl⟩ | ⟨rfl, rfl⟩ | ⟨rfl, rfl⟩ |
    ⟨rfl, rfl⟩ | ⟨rfl, rfl⟩
  · exact absurd rfl some_
  all_goals rfl

theorem valRadix_of_not_announces {text : Text} (plain : ¬Announces text) :
    valRadix text = (10, text) := by
  rw [valRadix.eq_def]
  split
  · exact absurd ⟨['$'], 16, _, by decide, by decide, rfl⟩ plain
  · exact absurd ⟨['x'], 16, _, by decide, by decide, rfl⟩ plain
  · exact absurd ⟨['X'], 16, _, by decide, by decide, rfl⟩ plain
  · exact absurd ⟨['0', 'x'], 16, _, by decide, by decide, rfl⟩ plain
  · exact absurd ⟨['0', 'X'], 16, _, by decide, by decide, rfl⟩ plain
  · exact absurd ⟨['&'], 8, _, by decide, by decide, rfl⟩ plain
  · exact absurd ⟨['%'], 2, _, by decide, by decide, rfl⟩ plain
  · rfl

/-- What is announced is taken off, and nothing else is. -/
theorem valRadix_spec (text : Text) :
    ∃ announced, (announced, (valRadix text).1) ∈ radixPrefixes ∧
      text = announced ++ (valRadix text).2 ∧ (announced = [] → ¬Announces (valRadix text).2) := by
  by_cases announces : Announces text
  · obtain ⟨announced, radix, rest, listed, some_, rfl⟩ := announces
    rw [valRadix_append listed some_]
    exact ⟨announced, listed, rfl, fun none_ => absurd none_ some_⟩
  · rw [valRadix_of_not_announces announces]
    exact ⟨[], .head _, rfl, fun _ => announces⟩

/-- A prefix does not begin like what is in front of it. -/
theorem announced_begins {announced body rest : Text} {radix : Nat} {c : Char}
    (listed : (announced, radix) ∈ radixPrefixes) (some_ : announced ≠ [])
    (begins : announced ++ body = c :: rest) : isValSpace c = false ∧ c ≠ '+' ∧ c ≠ '-' := by
  simp only [radixPrefixes, List.mem_cons, Prod.mk.injEq, List.not_mem_nil, or_false] at listed
  rcases listed with ⟨rfl, rfl⟩ | ⟨rfl, rfl⟩ | ⟨rfl, rfl⟩ | ⟨rfl, rfl⟩ | ⟨rfl, rfl⟩ | ⟨rfl, rfl⟩ |
    ⟨rfl, rfl⟩ | ⟨rfl, rfl⟩
  · exact absurd rfl some_
  all_goals
    obtain ⟨rfl, _⟩ := List.cons.inj begins
    decide

theorem valSign_append {sign rest : Text} {negative : Bool} (listed : (sign, negative) ∈ signs)
    (some_ : sign ≠ []) : valSign (sign ++ rest) = (negative, rest) := by
  simp only [signs, List.mem_cons, Prod.mk.injEq, List.not_mem_nil, or_false] at listed
  rcases listed with ⟨rfl, rfl⟩ | ⟨rfl, rfl⟩ | ⟨rfl, rfl⟩
  · exact absurd rfl some_
  all_goals rfl

theorem valSign_spec (text : Text) :
    ∃ sign, (sign, (valSign text).1) ∈ signs ∧ text = sign ++ (valSign text).2 ∧
      (sign = [] → ∀ c rest, text = c :: rest → c ≠ '+' ∧ c ≠ '-') := by
  rw [valSign.eq_def]
  split
  · exact ⟨['+'], .tail _ (.head _), rfl, fun none_ => by cases none_⟩
  · exact ⟨['-'], .tail _ (.tail _ (.head _)), rfl, fun none_ => by cases none_⟩
  · rename_i no_plus no_minus
    refine ⟨[], .head _, rfl, fun _ c rest same => ⟨?_, ?_⟩⟩
    · rintro rfl
      exact no_plus rest same
    · rintro rfl
      exact no_minus rest same

/-- Every text has a header. -/
theorem exists_header (text : Text) :
    ∃ (h : Header) (body : Text), text = h.text ++ body ∧ h.Plain body := by
  obtain ⟨sign, sign_mem, signed, unsigned⟩ := valSign_spec (text.dropWhile isValSpace)
  obtain ⟨announced, announced_mem, prefixed, plain⟩ :=
    valRadix_spec (valSign (text.dropWhile isValSpace)).2
  refine ⟨⟨text.takeWhile isValSpace, sign, _, announced, _, ?_, sign_mem, announced_mem⟩,
    (valRadix (valSign (text.dropWhile isValSpace)).2).2, ?_, ?_, plain⟩
  · intro c blank
    exact List.all_eq_true.mp List.all_takeWhile c blank
  · rw [Header.text, List.append_assoc, List.append_assoc, ← prefixed, ← signed,
      List.takeWhile_append_dropWhile]
  · intro no_sign no_announced c rest body
    have begins : text.dropWhile isValSpace = c :: rest := by
      rw [signed, prefixed, body]
      rw [show sign = [] from no_sign, show announced = [] from no_announced]
      rfl
    have visible := List.head?_dropWhile_not isValSpace text
    rw [begins] at visible
    exact ⟨visible, unsigned no_sign c rest begins⟩

/-- A text that begins like a prefix is as long, or the zero of one. -/
theorem announced_le {announced body more rest : Text} {radix : Nat}
    (listed : (announced, radix) ∈ radixPrefixes) (begins : body ++ more = announced ++ rest)
    (some_ : body ≠ []) (decided : body ≠ ['0']) : announced.length ≤ body.length := by
  simp only [radixPrefixes, List.mem_cons, Prod.mk.injEq, List.not_mem_nil, or_false] at listed
  have short : announced.length ≤ 1 ∨ ∃ x, announced = ['0', x] := by
    rcases listed with ⟨rfl, rfl⟩ | ⟨rfl, rfl⟩ | ⟨rfl, rfl⟩ | ⟨rfl, rfl⟩ | ⟨rfl, rfl⟩ | ⟨rfl, rfl⟩ |
      ⟨rfl, rfl⟩ | ⟨rfl, rfl⟩ <;> simp
  have pos := List.length_pos_iff.mpr some_
  rcases short with short | ⟨x, rfl⟩
  · omega
  · cases body with
    | nil => exact absurd rfl some_
    | cons first body =>
        obtain ⟨rfl, _⟩ := List.cons.inj begins
        cases body with
        | nil => exact absurd rfl decided
        | cons second body => simp

namespace Header

variable {h : Header} {body : Text}

theorem text_append (h : Header) (body : Text) :
    h.text ++ body = h.blanks ++ (h.sign ++ (h.announced ++ body)) := by
  rw [text, List.append_assoc, List.append_assoc]

/-- What stands behind the place of a sign, if there is none, is no sign and not blank. -/
theorem Plain.unsigned (plain : h.Plain body) (no_sign : h.sign = []) {c : Char} {rest : Text}
    (begins : h.announced ++ body = c :: rest) : isValSpace c = false ∧ c ≠ '+' ∧ c ≠ '-' := by
  by_cases no_announced : h.announced = []
  · rw [no_announced, List.nil_append] at begins
    exact plain.no_sign no_sign no_announced c rest begins
  · exact announced_begins h.announced_mem no_announced begins

theorem Plain.valSign (plain : h.Plain body) :
    Runtime.valSign (h.sign ++ (h.announced ++ body)) = (h.negative, h.announced ++ body) := by
  by_cases no_sign : h.sign = []
  · have positive : h.negative = false := by
      have listed := h.sign_mem
      rw [no_sign] at listed
      simpa [signs] using listed
    rw [no_sign, positive, List.nil_append, valSign.eq_def]
    split
    · rename_i begins
      exact absurd rfl (plain.unsigned no_sign begins).2.1
    · rename_i begins
      exact absurd rfl (plain.unsigned no_sign begins).2.2
    · rfl
  · exact valSign_append h.sign_mem no_sign

theorem Plain.valRadix (plain : h.Plain body) :
    Runtime.valRadix (h.announced ++ body) = (h.radix, body) := by
  by_cases no_announced : h.announced = []
  · have ten : h.radix = 10 := by
      have listed := h.announced_mem
      rw [no_announced] at listed
      simpa [radixPrefixes] using listed
    rw [no_announced, List.nil_append, ten]
    exact valRadix_of_not_announces (plain.no_announcement no_announced)
  · exact valRadix_append h.announced_mem no_announced

/-- The text behind the blanks begins with no blank. -/
theorem Plain.visible (plain : h.Plain body) {c : Char} {rest : Text}
    (begins : h.sign ++ (h.announced ++ body) = c :: rest) : isValSpace c = false := by
  by_cases no_sign : h.sign = []
  · rw [no_sign, List.nil_append] at begins
    exact (plain.unsigned no_sign begins).1
  · have listed := h.sign_mem
    simp only [signs, List.mem_cons, Prod.mk.injEq, List.not_mem_nil, or_false] at listed
    rcases listed with ⟨none_, _⟩ | ⟨plus, _⟩ | ⟨minus, _⟩
    · exact absurd none_ no_sign
    · rw [plus] at begins
      obtain ⟨rfl, _⟩ := List.cons.inj begins
      rfl
    · rw [minus] at begins
      obtain ⟨rfl, _⟩ := List.cons.inj begins
      rfl

theorem Plain.dropWhile (plain : h.Plain body) :
    (h.text ++ body).dropWhile isValSpace = h.sign ++ (h.announced ++ body) := by
  rw [text_append, List.dropWhile_append_of_pos h.all_blank]
  cases begins : h.sign ++ (h.announced ++ body) with
  | nil => rfl
  | cons c rest =>
      rw [List.dropWhile_cons_of_neg]
      rw [plain.visible begins]
      exact Bool.false_ne_true

/-- A text is divided in one way only. -/
theorem Plain.unique {k : Header} {other : Text} (plain : h.Plain body) (also : k.Plain other)
    (same : h.text ++ body = k.text ++ other) :
    h.negative = k.negative ∧ h.radix = k.radix ∧ body = other := by
  have behind := plain.dropWhile.symm.trans ((congrArg _ same).trans also.dropWhile)
  have signed := plain.valSign.symm.trans ((congrArg _ behind).trans also.valSign)
  obtain ⟨negative, unsigned⟩ := Prod.mk.inj signed
  have announced := plain.valRadix.symm.trans ((congrArg _ unsigned).trans also.valRadix)
  obtain ⟨radix, digits⟩ := Prod.mk.inj announced
  exact ⟨negative, radix, digits⟩

/-- Two characters are enough to tell a prefix. -/
theorem Plain.append (plain : h.Plain body) (some_ : body ≠ []) (decided : body ≠ ['0'])
    (more : Text) : h.Plain (body ++ more) where
  no_sign no_sign no_announced c rest begins := by
    cases body with
    | nil => exact absurd rfl some_
    | cons first body =>
        obtain ⟨rfl, _⟩ := List.cons.inj begins
        exact plain.no_sign no_sign no_announced first body rfl
  no_announcement no_announced := by
    rintro ⟨announced, radix, rest, listed, announced_ne, begins⟩
    refine plain.no_announcement no_announced ?_
    refine ⟨announced, radix, body.drop announced.length, listed, announced_ne, ?_⟩
    have front : (body ++ more).take announced.length = announced := by
      rw [begins]
      exact List.take_left' rfl
    rw [List.take_append_of_le_length (announced_le listed begins some_ decided)] at front
    exact (List.take_append_drop announced.length body).symm.trans
      (congrArg (· ++ body.drop announced.length) front)

theorem Plain.of_append {more : Text} (plain : h.Plain (body ++ more)) : h.Plain body where
  no_sign no_sign no_announced c rest begins := by
    refine plain.no_sign no_sign no_announced c (rest ++ more) ?_
    rw [begins]
    rfl
  no_announcement no_announced := by
    rintro ⟨announced, radix, rest, listed, announced_ne, begins⟩
    refine plain.no_announcement no_announced ⟨announced, radix, rest ++ more, listed, announced_ne, ?_⟩
    rw [begins, List.append_assoc]

theorem radix_of_no_announced (no_announced : h.announced = []) : h.radix = 10 := by
  have listed := h.announced_mem
  rw [no_announced] at listed
  simpa [radixPrefixes] using listed

/-- Digits are not taken for more of the header. -/
theorem plain_of_digits (digits : ∀ c ∈ body, isDigitOf h.radix c) : h.Plain body where
  no_sign _ _ c rest begins := digit_visible (digits c (begins ▸ List.mem_cons_self))
  no_announcement no_announced := by
    rw [radix_of_no_announced no_announced] at digits
    rintro ⟨announced, radix, rest, listed, announced_ne, begins⟩
    have decimal : ∀ c ∈ announced, isDigitOf 10 c := by
      intro c inside
      exact digits c (begins ▸ List.mem_append_left rest inside)
    simp only [radixPrefixes, List.mem_cons, Prod.mk.injEq, List.not_mem_nil, or_false] at listed
    rcases listed with ⟨rfl, rfl⟩ | ⟨rfl, rfl⟩ | ⟨rfl, rfl⟩ | ⟨rfl, rfl⟩ | ⟨rfl, rfl⟩ | ⟨rfl, rfl⟩ |
      ⟨rfl, rfl⟩ | ⟨rfl, rfl⟩
    · exact announced_ne rfl
    all_goals exact absurd (List.all_eq_true.mpr decimal) (by decide)

theorem two_le_radix (h : Header) : 2 ≤ h.radix := by
  have listed := h.announced_mem
  simp only [radixPrefixes, List.mem_cons, Prod.mk.injEq, List.not_mem_nil, or_false] at listed
  omega

theorem radix_bounds (h : Header) : 0 < h.radix ∧ h.radix ≤ 16 := by
  have listed := h.announced_mem
  simp only [radixPrefixes, List.mem_cons, Prod.mk.injEq, List.not_mem_nil, or_false] at listed
  omega

end Header

/-! ### What the loop does -/

section Loop

variable {radix pos mag : Nat} {digits rest : Text}

theorem digitValue_le {c : Char} (bounds : 0 < radix ∧ radix ≤ 16) (digit : isDigitOf radix c) :
    digitValue c ≤ maxInt64 := by
  rw [isDigitOf, Bool.and_eq_true, decide_eq_true_iff] at digit
  rw [maxInt64]
  omega

/-- Digits below the limit are all taken. -/
theorem valDigits_append (bounds : 0 < radix ∧ radix ≤ 16) (all : ∀ c ∈ digits, isDigitOf radix c)
    (fits : value digitValue radix mag digits ≤ maxInt64) :
    valDigits radix (digits ++ rest) ⟨pos, mag, none⟩ =
      valDigits radix rest ⟨pos + digits.length, value digitValue radix mag digits, none⟩ := by
  induction digits generalizing pos mag with
  | nil => rfl
  | cons d digits induction =>
      have digit := all d List.mem_cons_self
      have taken : mag * radix + digitValue d ≤ maxInt64 := (le_value bounds.1).trans fits
      have kept : ¬(maxInt64 - digitValue d) / radix < mag :=
        (div_lt_iff bounds.1 (digitValue_le bounds digit)).not.mpr (not_lt.mpr taken)
      have unwrapped : (mag * radix + digitValue d) % 2 ^ 64 = mag * radix + digitValue d :=
        Nat.mod_eq_of_lt (by rw [maxInt64] at taken; omega)
      rw [List.cons_append, valDigits, valDigit_eq, if_pos digit]
      dsimp only
      rw [Option.isSome_none, if_neg Bool.false_ne_true, if_neg kept, unwrapped,
        induction (fun c inside => all c (List.mem_cons_of_mem d inside)) fits, List.length_cons,
        value_cons, Nat.add_right_comm, Nat.add_assoc]

/-- The loop stops where no digit is. -/
theorem valDigits_stops {state : ValDigits}
    (stops : ∀ c more, rest = c :: more → isDigitOf radix c = false) :
    valDigits radix rest state = state := by
  cases rest with
  | nil => rfl
  | cons c more =>
      rw [valDigits, valDigit_eq, stops c more rfl]
      rfl

theorem overflowAt_valDigits (text : Text) (state : ValDigits) (too_big : state.overflowAt.isSome) :
    (valDigits radix text state).overflowAt = state.overflowAt := by
  induction text generalizing state with
  | nil => rfl
  | cons c text induction =>
      rw [valDigits]
      split
      · rfl
      · rw [if_pos too_big]
        exact induction _ too_big

/-- The digit that crosses the limit is noted. -/
theorem valDigits_overflow {d : Char} (bounds : 0 < radix ∧ radix ≤ 16)
    (all : ∀ c ∈ digits ++ [d], isDigitOf radix c)
    (fits : value digitValue radix mag digits ≤ maxInt64)
    (too_big : maxInt64 < value digitValue radix mag (digits ++ [d])) :
    (valDigits radix (digits ++ d :: rest) ⟨pos, mag, none⟩).overflowAt =
      some (pos + digits.length) := by
  have digit : isDigitOf radix d := all d (List.mem_append_right digits List.mem_cons_self)
  rw [value_concat] at too_big
  have crossed := (div_lt_iff bounds.1 (digitValue_le bounds digit)).mpr too_big
  rw [valDigits_append bounds (fun c inside => all c (List.mem_append_left _ inside)) fits,
    valDigits, valDigit_eq, if_pos digit]
  dsimp only
  rw [Option.isSome_none, if_neg Bool.false_ne_true, if_pos crossed]
  exact overflowAt_valDigits rest _ rfl

end Loop

/-! ### What the parser answers -/

section Answers

variable {h : Header} {digits rest : Text}

/-- The digits begin behind the header. -/
theorem plangValParseInt_eq (plain : h.Plain rest) :
    plangValParseInt (h.text ++ rest) false =
      match (valDigits h.radix rest ⟨h.text.length, 0, none⟩).overflowAt with
      | some overflow => { outVal := 0, outCode := overflow + 1 }
      | none =>
          let state := valDigits h.radix rest ⟨h.text.length, 0, none⟩
          if state.pos = h.text.length then { outVal := 0, outCode := state.pos + 1 }
          else if state.pos ≠ (h.text ++ rest).length then
            { outVal := 0, outCode := state.pos + 1 }
          else { outVal := applySign h.negative state.mag, outCode := 0 } := by
  have start : (h.text ++ rest).length - rest.length = h.text.length := by
    rw [List.length_append, Nat.add_sub_cancel]
  rw [plangValParseInt, plain.dropWhile, plain.valSign]
  dsimp only
  rw [if_neg (by simp), plain.valRadix]
  dsimp only
  rw [start]
  rfl

/-- A digit that crosses the limit is where the error is. -/
theorem answer_overflow {d : Char} (plain : h.Plain (digits ++ d :: rest))
    (all : ∀ c ∈ digits ++ [d], isDigitOf h.radix c)
    (fits : value digitValue h.radix 0 digits ≤ maxInt64)
    (too_big : maxInt64 < value digitValue h.radix 0 (digits ++ [d])) :
    plangValParseInt (h.text ++ (digits ++ d :: rest)) false =
      ⟨0, (h.text ++ digits).length + 1⟩ := by
  have behind : (h.text ++ digits).length = h.text.length + digits.length := List.length_append
  rw [plangValParseInt_eq plain, valDigits_overflow h.radix_bounds all fits too_big, behind]

/-- What is not a digit is where the error is, or the end if there is no digit. -/
theorem answer_stopped (plain : h.Plain (digits ++ rest))
    (all : ∀ c ∈ digits, isDigitOf h.radix c)
    (fits : value digitValue h.radix 0 digits ≤ maxInt64)
    (stops : ∀ c more, rest = c :: more → isDigitOf h.radix c = false)
    (short : digits = [] ∨ rest ≠ []) :
    plangValParseInt (h.text ++ (digits ++ rest)) false = ⟨0, (h.text ++ digits).length + 1⟩ := by
  have behind : (h.text ++ digits).length = h.text.length + digits.length := List.length_append
  rw [plangValParseInt_eq plain, valDigits_append h.radix_bounds all fits, valDigits_stops stops,
    behind]
  dsimp only
  split
  · rfl
  · rename_i taken
    rcases short with rfl | more
    · exact absurd rfl taken
    · have pos := List.length_pos_iff.mpr more
      refine if_pos ?_
      rw [List.length_append, List.length_append]
      omega

theorem answer_value (some_ : digits ≠ []) (all : ∀ c ∈ digits, isDigitOf h.radix c)
    (fits : value digitValue h.radix 0 digits ≤ maxInt64) :
    plangValParseInt (h.text ++ digits) false =
      ⟨applySign h.negative (value digitValue h.radix 0 digits), 0⟩ := by
  have taken := @valDigits_append h.radix h.text.length 0 digits [] h.radix_bounds all fits
  rw [List.append_nil] at taken
  have pos := List.length_pos_iff.mpr some_
  rw [plangValParseInt_eq (Header.plain_of_digits all), taken, valDigits_stops (by simp)]
  dsimp only
  rw [if_neg (by omega), if_neg (by rw [List.length_append]; omega)]

end Answers

/-! ### The language and the parser -/

section Language

variable {h : Header} {body digits rest : Text} {v : Int}

/-- What a text stands for is what stands behind its header. -/
theorem denotes_iff (plain : h.Plain body) :
    Denotes (h.text ++ body) v ↔ body ≠ [] ∧ (∀ c ∈ body, isDigitOf h.radix c) ∧
      v = applySign h.negative (value digitValue h.radix 0 body) := by
  constructor
  · rintro ⟨k, digits, same, some_, all, rfl⟩
    obtain ⟨negative, radix, rfl⟩ := plain.unique (Header.plain_of_digits all) same
    rw [negative, radix]
    exact ⟨some_, all, rfl⟩
  · rintro ⟨some_, all, rfl⟩
    exact ⟨h, body, rfl, some_, all, rfl⟩

theorem represents_of_fits (some_ : digits ≠ []) (all : ∀ c ∈ digits, isDigitOf h.radix c)
    (fits : value digitValue h.radix 0 digits ≤ maxInt64) :
    Represents (h.text ++ digits) (applySign h.negative (value digitValue h.radix 0 digits)) := by
  refine ⟨⟨h, digits, rfl, some_, all, rfl⟩, ?_⟩
  rw [maxInt64] at fits
  rw [applySign]
  split <;> omega

/-- Digits below the limit can be continued, if need be by a zero. -/
theorem viable_of_fits (all : ∀ c ∈ digits, isDigitOf h.radix c)
    (fits : value digitValue h.radix 0 digits ≤ maxInt64) :
    Viable IntegerText (h.text ++ digits) := by
  by_cases none_ : digits = []
  · have zero : isDigitOf h.radix '0' := by
      rw [isDigitOf, Bool.and_eq_true, decide_eq_true_iff]
      exact ⟨rfl, h.radix_bounds.1⟩
    have only : ∀ c ∈ ['0'], isDigitOf h.radix c := by
      intro c mem
      rwa [List.mem_singleton.mp mem]
    rw [none_, List.append_nil]
    refine ⟨['0'], _, represents_of_fits (List.cons_ne_nil _ _) only ?_⟩
    rw [value_cons, value_nil, Nat.zero_mul]
    exact digitValue_le h.radix_bounds zero
  · exact viable_of_mem ⟨_, represents_of_fits none_ all fits⟩

/-- Only digits whose magnitude is not too great can be continued. -/
theorem digits_of_viable (plain : h.Plain body) (some_ : body ≠ []) (decided : body ≠ ['0'])
    (viable : Viable IntegerText (h.text ++ body)) :
    (∀ c ∈ body, isDigitOf h.radix c) ∧
      (value digitValue h.radix 0 body ≤ maxInt64 ∨
        h.negative ∧ value digitValue h.radix 0 body = 2 ^ 63) := by
  obtain ⟨more, v, denotes, above, below⟩ := viable
  rw [List.append_assoc, denotes_iff (plain.append some_ decided more)] at denotes
  obtain ⟨_, all, rfl⟩ := denotes
  refine ⟨fun c mem => all c (List.mem_append_left more mem), ?_⟩
  have grown := @value_le_append _ digitValue h.radix 0 body more h.radix_bounds.1
  rw [applySign] at above below
  rw [maxInt64]
  split at above
  · rename_i negative
    rcases Nat.lt_or_ge (value digitValue h.radix 0 body) (2 ^ 63) with small | great
    · exact .inl (by omega)
    · exact .inr ⟨negative, by omega⟩
  · rename_i positive
    rw [if_neg positive] at below
    omega

end Language

/-! ### The error positions -/

/-- No part of the text that it begins with is one of the least integer. -/
def SparesLeast (text : Text) : Prop := ∀ front, front <+: text → ¬Denotes front (-2 ^ 63)

section Positions

variable {h : Header} {body digits rest : Text}

/-- The forms of the text behind a header. -/
theorem body_cases (h : Header) (body : Text) :
    (∃ digits d rest, body = digits ++ d :: rest ∧
      (∀ c ∈ digits ++ [d], isDigitOf h.radix c) ∧
      value digitValue h.radix 0 digits ≤ maxInt64 ∧
      maxInt64 < value digitValue h.radix 0 (digits ++ [d])) ∨
    (∃ digits rest, body = digits ++ rest ∧ (∀ c ∈ digits, isDigitOf h.radix c) ∧
      value digitValue h.radix 0 digits ≤ maxInt64 ∧
      (∀ c more, rest = c :: more → isDigitOf h.radix c = false) ∧ (digits = [] ∨ rest ≠ [])) ∨
    body ≠ [] ∧ (∀ c ∈ body, isDigitOf h.radix c) ∧
      value digitValue h.radix 0 body ≤ maxInt64 := by
  have all : ∀ c ∈ body.takeWhile (isDigitOf h.radix), isDigitOf h.radix c :=
    List.all_eq_true.mp List.all_takeWhile
  have split : body = body.takeWhile (isDigitOf h.radix) ++ body.dropWhile (isDigitOf h.radix) :=
    List.takeWhile_append_dropWhile.symm
  by_cases too_big : maxInt64 < value digitValue h.radix 0 (body.takeWhile (isDigitOf h.radix))
  · obtain ⟨front, d, back, digits, fits, crossed⟩ := exists_crossing (Nat.zero_le _) too_big
    refine .inl ⟨front, d, back ++ body.dropWhile (isDigitOf h.radix), ?_, ?_, fits, crossed⟩
    · rw [digits] at split
      exact split.trans (List.append_assoc _ _ _)
    · intro c mem
      refine all c ?_
      rw [digits, ← List.singleton_append, ← List.append_assoc]
      exact List.mem_append_left back mem
  · have fits := not_lt.mp too_big
    have stops : ∀ c more, body.dropWhile (isDigitOf h.radix) = c :: more →
        isDigitOf h.radix c = false := by
      intro c more begins
      have first := List.head?_dropWhile_not (isDigitOf h.radix) body
      rwa [begins] at first
    by_cases short : body.takeWhile (isDigitOf h.radix) = [] ∨
        body.dropWhile (isDigitOf h.radix) ≠ []
    · exact .inr (.inl ⟨_, _, split, all, fits, stops, short⟩)
    · rw [not_or, not_not] at short
      rw [short.2, List.append_nil] at split
      rw [← split] at all fits short
      exact .inr (.inr ⟨short.1, all, fits⟩)

/-- An error that is not the end is where the digits end that can be continued. -/
theorem failsBehind_of_not_viable {c : Char} (all : ∀ c ∈ digits, isDigitOf h.radix c)
    (fits : value digitValue h.radix 0 digits ≤ maxInt64)
    (stuck : ¬Viable IntegerText (h.text ++ (digits ++ [c]))) :
    FailsBehind IntegerText (h.text ++ (digits ++ c :: rest)) (h.text ++ digits).length := by
  rw [← List.append_assoc]
  refine ⟨?_, ?_, fun _ => ?_⟩
  · rw [List.take_left' rfl]
    exact viable_of_fits all fits
  · rw [@List.length_append _ _ (c :: rest)]
    exact Nat.le_add_right _ _
  · rw [List.take_length_add_append]
    rwa [List.append_assoc]

theorem decided_of_value {radix : Nat} {body : Text} (some_ : value digitValue radix 0 body ≠ 0) :
    body ≠ [] ∧ body ≠ ['0'] := by
  constructor
  · rintro rfl
    exact some_ rfl
  · rintro rfl
    exact some_ (by rw [value_cons, value_nil, Nat.zero_mul]; rfl)

/-- The error of an overflow, unless what crosses the limit is the least integer. -/
theorem failsBehind_overflow {d : Char} (plain : h.Plain (digits ++ d :: rest))
    (all : ∀ c ∈ digits ++ [d], isDigitOf h.radix c)
    (fits : value digitValue h.radix 0 digits ≤ maxInt64)
    (too_big : maxInt64 < value digitValue h.radix 0 (digits ++ [d]))
    (spares : SparesLeast (h.text ++ (digits ++ d :: rest))) :
    FailsBehind IntegerText (h.text ++ (digits ++ d :: rest)) (h.text ++ digits).length := by
  refine failsBehind_of_not_viable (fun c mem => all c (List.mem_append_left _ mem)) fits ?_
  intro viable
  have front : (digits ++ d :: rest) = digits ++ [d] ++ rest := by
    rw [List.append_assoc]
    rfl
  rw [front] at plain spares
  obtain ⟨some_, decided⟩ := decided_of_value (show value digitValue h.radix 0 (digits ++ [d]) ≠ 0 by omega)
  obtain ⟨_, small | ⟨negative, least⟩⟩ := digits_of_viable plain.of_append some_ decided viable
  · omega
  · refine spares (h.text ++ (digits ++ [d])) ?_ ⟨h, _, rfl, some_, all, ?_⟩
    · exact ⟨rest, List.append_assoc _ _ _⟩
    · rw [least, applySign, if_pos negative]
      rfl

/-- The error of a text that has no digits, or something else behind them. -/
theorem failsBehind_stopped (plain : h.Plain (digits ++ rest))
    (all : ∀ c ∈ digits, isDigitOf h.radix c)
    (fits : value digitValue h.radix 0 digits ≤ maxInt64)
    (stops : ∀ c more, rest = c :: more → isDigitOf h.radix c = false) :
    FailsBehind IntegerText (h.text ++ (digits ++ rest)) (h.text ++ digits).length := by
  cases rest with
  | nil =>
      rw [List.append_nil]
      refine ⟨?_, le_rfl, fun before => absurd before (lt_irrefl _)⟩
      rw [List.take_length]
      exact viable_of_fits all fits
  | cons c rest =>
      have not_digit := stops c rest rfl
      refine failsBehind_of_not_viable all fits fun viable => ?_
      have front : (digits ++ c :: rest) = digits ++ [c] ++ rest := by
        rw [List.append_assoc]
        rfl
      rw [front] at plain
      by_cases zero : digits ++ [c] = ['0']
      · have is_zero : c = '0' := by
          have last := congrArg List.getLast? zero
          rw [List.getLast?_concat] at last
          exact Option.some.inj last
        rw [is_zero, isDigitOf, Bool.and_eq_false_iff, decide_eq_false_iff_not] at not_digit
        rcases not_digit with wrong | wrong
        · cases wrong
        · exact wrong h.radix_bounds.1
      · have digits := (digits_of_viable plain.of_append (by simp) zero viable).1 c (by simp)
        rw [not_digit] at digits
        cases digits

end Positions

/-- `Val` is exact: it succeeds for the texts of the integers of 64 bits, with their values, and
says of any other text where it goes wrong. -/
structure ValExact (text : Text) : Prop where
  succeeds : (plangValParseInt text false).outCode = 0 ↔ IntegerText text
  value : ∀ v, Represents text v → (plangValParseInt text false).outVal = v
  position : (plangValParseInt text false).outCode ≠ 0 →
    FailsBehind IntegerText text ((plangValParseInt text false).outCode - 1)

/-- An error where the language has one is exact. -/
theorem valExact_of_fails {text : Text} {n : Nat} (answer : plangValParseInt text false = ⟨0, n + 1⟩)
    (fails : FailsBehind IntegerText text n) (not_mem : ¬IntegerText text) : ValExact text where
  succeeds := by
    rw [answer]
    exact iff_of_false (Nat.succ_ne_zero n) not_mem
  value v represents := absurd ⟨v, represents⟩ not_mem
  position _ := by
    rw [answer]
    exact fails

theorem valExact_of_sparesLeast {text : Text} (spares : SparesLeast text) : ValExact text := by
  obtain ⟨h, body, rfl, plain⟩ := exists_header text
  rcases body_cases h body with ⟨digits, d, rest, rfl, all, fits, too_big⟩ |
    ⟨digits, rest, rfl, all, fits, stops, short⟩ | ⟨some_, all, fits⟩
  · have fails := failsBehind_overflow plain all fits too_big spares
    refine valExact_of_fails (answer_overflow plain all fits too_big) fails (fails.not_mem ?_)
    rw [List.length_append, List.length_append, List.length_append, List.length_cons]
    omega
  · have fails := failsBehind_stopped plain all fits stops
    refine valExact_of_fails (answer_stopped plain all fits stops short) fails ?_
    rintro ⟨v, denotes, _⟩
    obtain ⟨some_, digits_all, _⟩ := (denotes_iff plain).mp denotes
    cases rest with
    | nil =>
        rw [List.append_nil] at some_
        exact short.elim some_ fun more => more rfl
    | cons c rest =>
        have digit := digits_all c (List.mem_append_right digits List.mem_cons_self)
        rw [stops c rest rfl] at digit
        cases digit
  · have answer := answer_value some_ all fits
    have represents := represents_of_fits some_ all fits
    refine ⟨?_, fun v other => ?_, fun failed => ?_⟩
    · rw [answer]
      exact iff_of_true rfl ⟨_, represents⟩
    · rw [answer]
      exact ((denotes_iff plain).mp other.1).2.2.symm
    · rw [answer] at failed
      exact absurd rfl failed

/-- The least integer is taken for an overflow of its last digit. -/
theorem not_valExact_of_least {text front : Text} (begins : front <+: text)
    (least : Denotes front (-2 ^ 63)) : ¬ValExact text := by
  intro exact_
  obtain ⟨more, rfl⟩ := begins
  have accepted : Viable IntegerText front :=
    viable_of_mem ⟨_, least, by decide, by decide⟩
  obtain ⟨h, digits, rfl, some_, all, value_eq⟩ := least
  have magnitude : value digitValue h.radix 0 digits = 2 ^ 63 := by
    rw [applySign] at value_eq
    split at value_eq
    · omega
    · omega
  have decided := decided_of_value (show value digitValue h.radix 0 digits ≠ 0 by omega)
  have plain := (Header.plain_of_digits all).append some_ decided.2 more
  rcases List.eq_nil_or_concat' digits with none_ | ⟨front, d, rfl⟩
  · exact some_ none_
  have text_eq : h.text ++ (front ++ [d]) ++ more = h.text ++ (front ++ d :: more) := by
    rw [List.append_assoc, List.append_assoc]
    rfl
  have body_eq : front ++ [d] ++ more = front ++ d :: more := List.append_assoc _ _ _
  have fits : value digitValue h.radix 0 front ≤ maxInt64 := by
    have grown := Nat.mul_le_mul_left (value digitValue h.radix 0 front) h.two_le_radix
    rw [value_concat] at magnitude
    rw [maxInt64]
    omega
  have too_big : maxInt64 < value digitValue h.radix 0 (front ++ [d]) := by
    rw [magnitude, maxInt64]
    decide
  rw [body_eq] at plain
  have position := exact_.position
  rw [text_eq, answer_overflow plain all fits too_big] at position
  obtain ⟨_, _, stuck⟩ := position (Nat.succ_ne_zero _)
  have length_eq : (h.text ++ (front ++ [d])).length = (h.text ++ front).length + 1 := by
    rw [← List.append_assoc, List.length_append, List.length_singleton]
  dsimp only at stuck
  rw [Nat.add_sub_cancel, ← text_eq] at stuck
  refine stuck ?_ ?_
  · rw [@List.length_append _ _ more, length_eq]
    omega
  · rwa [List.take_left' length_eq]

/-- `Val` is exact for a text exactly if no part that it begins with is the least integer. -/
theorem valExact_iff_sparesLeast (text : Text) : ValExact text ↔ SparesLeast text := by
  constructor
  · intro exact_ front begins least
    exact not_valExact_of_least begins least exact_
  · exact valExact_of_sparesLeast

/-- The least integer of 64 bits is a text of the language, and is refused. -/
theorem least_not_valExact : ¬ValExact "-9223372036854775808".toList := by
  intro exact_
  have refused : (plangValParseInt "-9223372036854775808".toList false).outCode = 20 := by
    decide +kernel
  have accepted : IntegerText "-9223372036854775808".toList := by
    refine ⟨-2 ^ 63, ⟨⟨[], ['-'], true, [], 10, by simp, by simp [signs], by simp [radixPrefixes]⟩,
      "9223372036854775808".toList, by decide +kernel, by decide +kernel,
      List.all_eq_true.mp (by decide +kernel), by decide +kernel⟩, by decide, by decide⟩
  rw [exact_.succeeds.mpr accepted] at refused
  cases refused

/-- For an unsigned destination a minus sign is refused, with the position behind it. -/
theorem plangValParseInt_unsigned (text : Text) :
    plangValParseInt text true =
      if (valSign (text.dropWhile isValSpace)).1 then
        ⟨0, (text.takeWhile isValSpace).length + 2⟩
      else plangValParseInt text false := by
  have blanks : text.length - (text.dropWhile isValSpace).length =
      (text.takeWhile isValSpace).length := by
    have lengths := congrArg List.length (@List.takeWhile_append_dropWhile _ isValSpace text)
    rw [List.length_append] at lengths
    omega
  rw [plangValParseInt, plangValParseInt, blanks]
  dsimp only
  cases (valSign (text.dropWhile isValSpace)).1 with
  | true => rfl
  | false => rfl

end Plang.Runtime
