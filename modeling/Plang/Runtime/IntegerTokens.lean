import Mathlib.Data.List.TakeWhile
import Plang.Runtime.ValPosition

/-!
# Integers as tokens

`Read` of an integer takes a sign and the announcement of a radix off a token and gives the rest to
the library, which takes blanks, a sign and `0x` of its own.  The tokens that are accepted are those
of both grammars one after the other.
-/

namespace Plang.Runtime

open Numerals

/-! ### What the library reads -/

/-- The prefixes that `strtoll` skips between the sign and the digits. -/
def hexPrefixes (radix : Nat) : List Text :=
  if radix = 16 then [[], ['0', 'x'], ['0', 'X']] else [[]]

/-- The whole of a text as `strtoll` reads it: blanks, a sign, for radix 16 `0x`, and digits. -/
def Loose (radix : Nat) (body : Text) (negative : Bool) (size : Nat) : Prop :=
  ∃ blanks sign hex digits, (∀ c ∈ blanks, isspace c) ∧ (sign, negative) ∈ signs ∧
    hex ∈ hexPrefixes radix ∧ digits ≠ [] ∧ (∀ c ∈ digits, isDigitOf radix c) ∧
    body = blanks ++ (sign ++ (hex ++ digits)) ∧ size = value digitValue radix 0 digits

theorem splitSign_eq (text : Text) : splitSign text = valSign text := by
  rw [splitSign.eq_def, valSign.eq_def]
  split
  · rfl
  · rfl
  · rename_i no_minus no_plus
    split
    · rename_i rest
      exact absurd rfl (no_plus rest)
    · rename_i rest
      exact absurd rfl (no_minus rest)
    · rfl

theorem isspace_of_digit {radix : Nat} {c : Char} (digit : isDigitOf radix c) :
    isspace c = false := by
  rw [isDigitOf, Bool.and_eq_true] at digit
  have alphanumeric := digit.1
  by_contra blank
  rw [Bool.not_eq_false, isspace] at blank
  simp only [Bool.or_eq_true, beq_iff_eq] at blank
  rcases blank with ((((rfl | rfl) | rfl) | rfl) | rfl) | rfl <;> revert alphanumeric <;> decide

/-- `0x` is taken off where a digit follows. -/
theorem skipHexPrefix_spec (radix : Nat) (text : Text) :
    ∃ hex ∈ hexPrefixes radix, text = hex ++ skipHexPrefix radix text := by
  have nothing : [] ∈ hexPrefixes radix := by
    rw [hexPrefixes]
    split <;> exact .head _
  rw [skipHexPrefix.eq_def]
  split
  · rename_i x digit rest
    split
    · rename_i skipped
      obtain ⟨rfl, rfl | rfl, -⟩ := skipped
      · exact ⟨['0', 'x'], by decide, rfl⟩
      · exact ⟨['0', 'X'], by decide, rfl⟩
    · exact ⟨[], nothing, rfl⟩
  · exact ⟨[], nothing, rfl⟩

theorem skipHexPrefix_append {radix : Nat} {hex digits : Text} (listed : hex ∈ hexPrefixes radix)
    (some_ : digits ≠ []) (all : ∀ c ∈ digits, isDigitOf radix c) :
    skipHexPrefix radix (hex ++ digits) = digits := by
  obtain ⟨d, rest, rfl⟩ := List.exists_cons_of_ne_nil some_
  have digit := all d List.mem_cons_self
  have plain : skipHexPrefix radix (d :: rest) = d :: rest := by
    rw [skipHexPrefix.eq_def]
    split
    · rename_i x digit more begins
      rw [begins]
      refine if_neg ?_
      rintro ⟨rfl, is_x, -⟩
      have x_digit := all x (begins ▸ .tail _ (.head _))
      rcases is_x with rfl | rfl <;> revert x_digit <;> decide
    · rfl
  rw [hexPrefixes] at listed
  split at listed
  · rename_i sixteen
    subst sixteen
    simp only [List.mem_cons, List.not_mem_nil, or_false] at listed
    rcases listed with rfl | rfl | rfl
    · exact plain
    · exact if_pos ⟨rfl, .inl rfl, digit⟩
    · exact if_pos ⟨rfl, .inr rfl, digit⟩
  · rw [List.mem_singleton.mp listed]
    exact plain

/-- A sign is taken off where it stands. -/
theorem splitSign_append {sign rest : Text} {negative : Bool} (listed : (sign, negative) ∈ signs)
    (unsigned : sign = [] → ∀ c more, rest = c :: more → c ≠ '+' ∧ c ≠ '-') :
    splitSign (sign ++ rest) = (negative, rest) := by
  rw [splitSign_eq]
  by_cases none_ : sign = []
  · subst none_
    have positive : negative = false := by
      simpa [signs] using listed
    rw [positive, List.nil_append, valSign.eq_def]
    split
    · rename_i more
      exact absurd rfl (unsigned rfl _ more rfl).1
    · rename_i more
      exact absurd rfl (unsigned rfl _ more rfl).2
    · rfl
  · exact valSign_append listed none_

theorem hex_begins {radix : Nat} {hex digits rest : Text} {c : Char}
    (listed : hex ∈ hexPrefixes radix) (all : ∀ c ∈ digits, isDigitOf radix c)
    (begins : hex ++ digits = c :: rest) : isspace c = false ∧ c ≠ '+' ∧ c ≠ '-' := by
  have visible : ∀ d ∈ digits, isspace d = false ∧ d ≠ '+' ∧ d ≠ '-' := fun d inside =>
    ⟨isspace_of_digit (all d inside), (digit_visible (all d inside)).2⟩
  have plain (begins : digits = c :: rest) : isspace c = false ∧ c ≠ '+' ∧ c ≠ '-' :=
    visible c (begins ▸ List.mem_cons_self)
  rw [hexPrefixes] at listed
  split at listed
  · simp only [List.mem_cons, List.not_mem_nil, or_false] at listed
    rcases listed with rfl | rfl | rfl
    · exact plain begins
    all_goals
      obtain ⟨rfl, -⟩ := List.cons.inj begins
      decide
  · rw [List.mem_singleton.mp listed] at begins
    exact plain begins

theorem sign_visible {sign rest more : Text} {negative : Bool} {c : Char}
    (listed : (sign, negative) ∈ signs) (some_ : sign ≠ []) (begins : sign ++ more = c :: rest) :
    isspace c = false := by
  simp only [signs, List.mem_cons, Prod.mk.injEq, List.not_mem_nil, or_false] at listed
  rcases listed with ⟨rfl, rfl⟩ | ⟨rfl, rfl⟩ | ⟨rfl, rfl⟩
  · exact absurd rfl some_
  all_goals
    obtain ⟨rfl, -⟩ := List.cons.inj begins
    decide

/-- A number that the library reads to the end. -/
theorem leadingNumber_iff {radix : Nat} {body : Text} {negative : Bool} {size : Nat} :
    leadingNumber radix body = some (negative, size, []) ↔ Loose radix body negative size := by
  constructor
  · intro read
    rw [leadingNumber] at read
    obtain ⟨sign, sign_mem, signed, -⟩ := valSign_spec (body.dropWhile isspace)
    rw [← splitSign_eq] at sign_mem signed
    rcases split : splitSign (body.dropWhile isspace) with ⟨minus, unsigned⟩
    rw [split] at sign_mem signed
    obtain ⟨hex, hex_mem, skipped⟩ := skipHexPrefix_spec radix unsigned
    simp only [split] at read
    split at read
    · cases read
    · rename_i some_
      obtain ⟨rfl, rfl, nothing⟩ : minus = negative ∧
          value digitValue radix 0 ((skipHexPrefix radix unsigned).takeWhile (isDigitOf radix)) =
            size ∧
          (skipHexPrefix radix unsigned).drop
            ((skipHexPrefix radix unsigned).takeWhile (isDigitOf radix)).length = [] := by
        simpa [Prod.ext_iff, value] using Option.some.inj read
      have digits : (skipHexPrefix radix unsigned).takeWhile (isDigitOf radix) =
          skipHexPrefix radix unsigned :=
        (List.takeWhile_prefix _).eq_of_length_le (List.drop_eq_nil_iff.mp nothing)
      refine ⟨body.takeWhile isspace, sign, hex, _,
        List.all_eq_true.mp List.all_takeWhile, sign_mem, hex_mem, by simpa using some_,
        List.all_eq_true.mp List.all_takeWhile, ?_, rfl⟩
      rw [digits, ← skipped, ← signed, List.takeWhile_append_dropWhile]
  · rintro ⟨blanks, sign, hex, digits, blank, sign_mem, hex_mem, some_, all, rfl, rfl⟩
    have unblanked : (blanks ++ (sign ++ (hex ++ digits))).dropWhile isspace =
        sign ++ (hex ++ digits) := by
      rw [List.dropWhile_append_of_pos blank]
      refine List.dropWhile_eq_self_iff.mpr fun long => ?_
      obtain ⟨c, rest, begins⟩ := List.exists_cons_of_length_pos long
      simp only [begins, List.getElem_cons_zero]
      refine Bool.eq_false_iff.mp ?_
      by_cases unsigned : sign = []
      · subst unsigned
        exact (hex_begins hex_mem all begins).1
      · exact sign_visible sign_mem unsigned begins
    have signed : splitSign (sign ++ (hex ++ digits)) = (negative, hex ++ digits) :=
      splitSign_append sign_mem fun _ _ _ begins => (hex_begins hex_mem all begins).2
    have taken : digits.takeWhile (isDigitOf radix) = digits := List.takeWhile_eq_self_iff.mpr all
    rw [leadingNumber, unblanked]
    simp only [signed, skipHexPrefix_append hex_mem some_ all, taken]
    rw [if_neg (by simpa using some_), List.drop_length]
    rfl

/-- The integer is one of 64 bits. -/
def InInt64 (v : Int) : Prop := -2 ^ 63 ≤ v ∧ v < 2 ^ 63

/-- The integer that `Read` makes of the rest of a token, behind the sign and the announcement. -/
def convert (radix : Nat) (negative : Bool) (body : Text) : Option Int :=
  let parsed := strtoll radix body
  if body.isEmpty ∨ ¬parsed.rest.isEmpty ∨ parsed.outOfRange then none
  else some (if negative then -parsed.value else parsed.value)

theorem convert_iff {radix : Nat} {negative : Bool} {body : Text} {v : Int} :
    convert radix negative body = some v ↔ ∃ minus size, Loose radix body minus size ∧
      InInt64 (applySign minus size) ∧
      v = if negative then -applySign minus size else applySign minus size := by
  rw [convert, strtoll]
  rcases found : leadingNumber radix body with _ | ⟨minus, size, rest⟩
  · simp only [List.isEmpty_iff]
    rw [if_pos (by by_cases empty : body = [] <;> simp [empty])]
    constructor
    · intro impossible
      cases impossible
    · rintro ⟨minus, size, loose, -⟩
      rw [leadingNumber_iff.mpr loose] at found
      cases found
  · have value_eq : (if minus = true then -(size : Int) else size) = applySign minus size := rfl
    simp only [value_eq, List.isEmpty_iff, decide_eq_true_eq]
    constructor
    · intro read
      split at read
      · cases read
      · rename_i accepted
        obtain ⟨some_, nothing, fits⟩ :
            body ≠ [] ∧ rest = [] ∧ InInt64 (applySign minus size) := by
          rw [not_or, not_or, not_not] at accepted
          exact ⟨accepted.1, accepted.2.1, by rw [InInt64]; omega⟩
        subst nothing
        refine ⟨minus, size, leadingNumber_iff.mp found, fits, ?_⟩
        rw [InInt64] at fits
        rw [← Option.some.inj read, min_eq_right (by omega), max_eq_right (by omega)]
    · rintro ⟨minus', size', loose, fits, rfl⟩
      rw [leadingNumber_iff.mpr loose] at found
      cases found
      obtain ⟨_, _, _, digits, -, -, -, some_, -, rfl, -⟩ := loose
      rw [InInt64] at fits
      rw [if_neg (by simp [some_]; omega), min_eq_right (by omega), max_eq_right (by omega)]

/-! ### Signs and announcements -/

/-- The prefixes that announce a radix, each with its radix. -/
def announcements : List (Text × Nat) :=
  [(['$'], 16), (['0', 'x'], 16), (['0', 'X'], 16), (['&'], 8), (['%'], 2)]

/-- The token is a sign, an announcement and more. -/
structure Announcing (token : Text) (negative : Bool) (radix : Nat) (body : Text) : Prop where
  split : ∃ sign announced, (sign, negative) ∈ signs ∧ (announced, radix) ∈ announcements ∧
    token = sign ++ (announced ++ body)

theorem turboRadixPrefix_append {announced body : Text} {radix : Nat}
    (listed : (announced, radix) ∈ announcements) :
    turboRadixPrefix (announced ++ body) = (radix, body) := by
  simp only [announcements, List.mem_cons, Prod.mk.injEq, List.not_mem_nil, or_false] at listed
  rcases listed with ⟨rfl, rfl⟩ | ⟨rfl, rfl⟩ | ⟨rfl, rfl⟩ | ⟨rfl, rfl⟩ | ⟨rfl, rfl⟩ <;> rfl

theorem turboRadixPrefix_cases (text : Text) :
    turboRadixPrefix text = (10, text) ∨
      ∃ announced, (announced, (turboRadixPrefix text).1) ∈ announcements ∧
        text = announced ++ (turboRadixPrefix text).2 := by
  rw [turboRadixPrefix.eq_def]
  split
  · exact .inr ⟨['$'], .head _, rfl⟩
  · exact .inr ⟨['0', 'x'], .tail _ (.head _), rfl⟩
  · exact .inr ⟨['0', 'X'], .tail _ (.tail _ (.head _)), rfl⟩
  · exact .inr ⟨['&'], .tail _ (.tail _ (.tail _ (.head _))), rfl⟩
  · exact .inr ⟨['%'], .tail _ (.tail _ (.tail _ (.tail _ (.head _)))), rfl⟩
  · exact .inl rfl

theorem radix_of_listed {announced : Text} {radix : Nat}
    (listed : (announced, radix) ∈ announcements) : radix = 16 ∨ radix = 8 ∨ radix = 2 := by
  simp only [announcements, List.mem_cons, Prod.mk.injEq, List.not_mem_nil, or_false] at listed
  omega

/-- An announcing token is converted as it announces. -/
theorem Announcing.turboInteger {token body : Text} {negative : Bool} {radix : Nat}
    (announcing : Announcing token negative radix body) :
    turboInteger token = convert radix negative body := by
  obtain ⟨sign, announced, sign_mem, listed, rfl⟩ := announcing.split
  have announced_eq := @turboRadixPrefix_append announced body radix listed
  have other : radix ≠ 10 := by
    have := radix_of_listed listed
    omega
  simp only [signs, List.mem_cons, Prod.mk.injEq, List.not_mem_nil, or_false] at sign_mem
  rcases sign_mem with ⟨rfl, rfl⟩ | ⟨rfl, rfl⟩ | ⟨rfl, rfl⟩
  · have unsigned : turboSignedRadixPrefix (announced ++ body) = none := by
      simp only [announcements, List.mem_cons, Prod.mk.injEq, List.not_mem_nil, or_false] at listed
      rcases listed with ⟨rfl, rfl⟩ | ⟨rfl, rfl⟩ | ⟨rfl, rfl⟩ | ⟨rfl, rfl⟩ | ⟨rfl, rfl⟩ <;> rfl
    rw [Plang.Runtime.turboInteger, List.nil_append, unsigned]
    simp only [Option.isSome_none, Bool.false_eq_true, if_false, announced_eq]
    rfl
  · have signed : turboSignedRadixPrefix (['+'] ++ (announced ++ body)) = some false :=
      if_pos ⟨.inr rfl, ne_of_eq_of_ne (congrArg Prod.fst announced_eq) other⟩
    rw [Plang.Runtime.turboInteger, signed]
    simp only [Option.isSome_some, if_true, List.cons_append, List.nil_append, List.drop_succ_cons,
      List.drop_zero, announced_eq]
    rfl
  · have signed : turboSignedRadixPrefix (['-'] ++ (announced ++ body)) = some true :=
      if_pos ⟨.inl rfl, ne_of_eq_of_ne (congrArg Prod.fst announced_eq) other⟩
    rw [Plang.Runtime.turboInteger, signed]
    simp only [Option.isSome_some, if_true, List.cons_append, List.nil_append, List.drop_succ_cons,
      List.drop_zero, announced_eq]
    rfl

/-- Any other token is converted as a decimal number. -/
theorem turboInteger_of_plain {token : Text}
    (plain : ∀ negative radix body, ¬Announcing token negative radix body) :
    turboInteger token = convert 10 false token := by
  have unsigned : turboSignedRadixPrefix token = none := by
    rw [turboSignedRadixPrefix.eq_def]
    split
    · rename_i sign rest
      refine if_neg ?_
      rintro ⟨is_sign, announced⟩
      obtain plain_rest | ⟨announced, listed, rest_eq⟩ := turboRadixPrefix_cases rest
      · rw [plain_rest] at announced
        exact announced rfl
      · rcases is_sign with rfl | rfl
        · exact plain true _ _ ⟨['-'], announced, by decide, listed, congrArg _ rest_eq⟩
        · exact plain false _ _ ⟨['+'], announced, by decide, listed, congrArg _ rest_eq⟩
    · rfl
  have decimal : turboRadixPrefix token = (10, token) := by
    obtain plain_token | ⟨announced, listed, token_eq⟩ := turboRadixPrefix_cases token
    · exact plain_token
    · exact absurd ⟨[], announced, .head _, listed, token_eq⟩ (plain false _ _)
  rw [turboInteger, unsigned]
  simp only [Option.isSome_none, Bool.false_eq_true, if_false, decimal]
  rfl

/-- There is one way to read an announcement. -/
theorem Announcing.unique {token body other : Text} {negative minus : Bool} {radix base : Nat}
    (announcing : Announcing token negative radix body)
    (also : Announcing token minus base other) : negative = minus ∧ radix = base ∧ body = other := by
  obtain ⟨sign, announced, sign_mem, listed, rfl⟩ := announcing.split
  obtain ⟨sign', announced', sign_mem', listed', same⟩ := also.split
  have unsign : ∀ {sign announced body : Text} {negative : Bool} {radix : Nat},
      (sign, negative) ∈ signs → (announced, radix) ∈ announcements →
      valSign (sign ++ (announced ++ body)) = (negative, announced ++ body) := by
    intro sign announced body negative radix sign_mem listed
    rw [← splitSign_eq]
    refine splitSign_append sign_mem fun _ c more begins => ?_
    simp only [announcements, List.mem_cons, Prod.mk.injEq, List.not_mem_nil, or_false] at listed
    rcases listed with ⟨rfl, rfl⟩ | ⟨rfl, rfl⟩ | ⟨rfl, rfl⟩ | ⟨rfl, rfl⟩ | ⟨rfl, rfl⟩ <;>
    · obtain ⟨rfl, -⟩ := List.cons.inj begins
      decide
  have signs_eq := congrArg valSign same
  rw [unsign sign_mem listed, unsign sign_mem' listed'] at signs_eq
  obtain ⟨rfl, rest_eq⟩ := Prod.ext_iff.mp signs_eq
  have radix_eq := congrArg turboRadixPrefix rest_eq
  rw [turboRadixPrefix_append listed, turboRadixPrefix_append listed'] at radix_eq
  exact ⟨rfl, Prod.ext_iff.mp radix_eq⟩

/-! ### The language -/

/-- Digits of a radix, at least one. -/
structure Digits (radix : Nat) (digits : Text) : Prop where
  filled : digits ≠ []
  all : ∀ c ∈ digits, isDigitOf radix c

/-- A sign or none, an announcement or none, and digits of that radix. -/
def Numeral (token : Text) (v : Int) : Prop :=
  ∃ sign negative announced radix digits, (sign, negative) ∈ signs ∧
    (announced, radix) ∈ ([], 10) :: announcements ∧ token = sign ++ (announced ++ digits) ∧
    Digits radix digits ∧ v = applySign negative (value digitValue radix 0 digits)

/-- The text that the library skips in front of digits: blanks, a sign and, for radix 16, `0x`. -/
def Skipped (radix : Nat) (lead : Text) (minus : Bool) : Prop :=
  ∃ blanks sign hex, (∀ c ∈ blanks, isspace c) ∧ (sign, minus) ∈ signs ∧ hex ∈ hexPrefixes radix ∧
    lead = blanks ++ (sign ++ hex)

/-- Something that only the library takes: blanks, a second sign or `0x` behind an announcement,
or blanks in front of a decimal number. -/
def Stray (token : Text) : Prop :=
  (∃ negative radix lead minus digits, Announcing token negative radix (lead ++ digits) ∧
    Skipped radix lead minus ∧ lead ≠ [] ∧ Digits radix digits ∧
    InInt64 (applySign minus (value digitValue radix 0 digits))) ∨
  (∃ blank lead minus digits, token = blank :: (lead ++ digits) ∧ isspace blank ∧
    Skipped 10 lead minus ∧ Digits 10 digits ∧
    InInt64 (applySign minus (value digitValue 10 0 digits)))

/-- The least integer, with its radix announced. -/
def AnnouncedLeast (token : Text) : Prop :=
  ∃ radix digits, Announcing token true radix digits ∧ Digits radix digits ∧
    value digitValue radix 0 digits = 2 ^ 63

theorem loose_iff {radix : Nat} {body : Text} {minus : Bool} {size : Nat} :
    Loose radix body minus size ↔ ∃ lead digits, Skipped radix lead minus ∧ Digits radix digits ∧
      body = lead ++ digits ∧ size = value digitValue radix 0 digits := by
  constructor
  · rintro ⟨blanks, sign, hex, digits, blank, sign_mem, hex_mem, some_, all, body_eq, size_eq⟩
    refine ⟨blanks ++ (sign ++ hex), digits, ⟨blanks, sign, hex, blank, sign_mem, hex_mem, rfl⟩,
      ⟨some_, all⟩, ?_, size_eq⟩
    rw [body_eq, List.append_assoc, List.append_assoc]
  · rintro ⟨lead, digits, ⟨blanks, sign, hex, blank, sign_mem, hex_mem, rfl⟩, digits_of, body_eq,
      size_eq⟩
    refine ⟨blanks, sign, hex, digits, blank, sign_mem, hex_mem, digits_of.filled, digits_of.all, ?_,
      size_eq⟩
    rw [body_eq, List.append_assoc, List.append_assoc]

/-- Nothing is skipped in front of plain digits. -/
theorem Digits.loose {radix : Nat} {digits : Text} (plain : Digits radix digits) :
    Loose radix digits false (value digitValue radix 0 digits) := by
  refine loose_iff.mpr ⟨[], digits, ⟨[], [], [], ?_, .head _, ?_, rfl⟩, plain, rfl, rfl⟩
  · intro c inside
    cases inside
  · rw [hexPrefixes]
    split <;> exact .head _

theorem Loose.unique {radix : Nat} {body : Text} {minus negative : Bool} {size other : Nat}
    (loose : Loose radix body minus size) (also : Loose radix body negative other) :
    minus = negative ∧ size = other := by
  have same := leadingNumber_iff.mpr loose
  rw [leadingNumber_iff.mpr also] at same
  cases same
  exact ⟨rfl, rfl⟩

/-- What is skipped does not begin like a digit. -/
theorem Skipped.not_digits {radix : Nat} {lead digits : Text} {minus : Bool}
    (skipped : Skipped radix lead minus) (some_ : lead ≠ [])
    (digits_of : Digits radix (lead ++ digits)) : False := by
  obtain ⟨blanks, sign, hex, blank, sign_mem, hex_mem, rfl⟩ := skipped
  have all : ∀ c ∈ blanks ++ (sign ++ hex), isDigitOf radix c := fun c inside =>
    digits_of.all c (List.mem_append_left _ inside)
  cases blanks with
  | cons c rest =>
      have digit := all c List.mem_cons_self
      have space := blank c List.mem_cons_self
      rw [isspace_of_digit digit] at space
      cases space
  | nil =>
      by_cases unsigned : sign = []
      · subst unsigned
        rw [hexPrefixes] at hex_mem
        split at hex_mem
        · rename_i sixteen
          subst sixteen
          simp only [List.mem_cons, List.not_mem_nil, or_false] at hex_mem
          rcases hex_mem with rfl | rfl | rfl
          · exact some_ rfl
          · exact absurd (all 'x' (.tail _ (.head _))) (by decide)
          · exact absurd (all 'X' (.tail _ (.head _))) (by decide)
        · exact some_ (List.mem_singleton.mp hex_mem)
      · simp only [signs, List.mem_cons, Prod.mk.injEq, List.not_mem_nil, or_false] at sign_mem
        rcases sign_mem with ⟨rfl, -⟩ | ⟨rfl, -⟩ | ⟨rfl, -⟩
        · exact unsigned rfl
        · exact (digit_visible (all '+' List.mem_cons_self)).2.1 rfl
        · exact (digit_visible (all '-' List.mem_cons_self)).2.2 rfl

/-- A decimal number announces nothing. -/
theorem Loose.not_announcing {token : Text} {minus : Bool} {size : Nat}
    (loose : Loose 10 token minus size) (negative : Bool) (radix : Nat) (body : Text) :
    ¬Announcing token negative radix body := by
  intro announcing
  obtain ⟨blanks, sign, hex, digits, blank, sign_mem, hex_mem, -, all, token_eq, -⟩ := loose
  obtain ⟨sign', announced, -, listed, same⟩ := announcing.split
  obtain ⟨c, marks, inside⟩ : ∃ c ∈ ['$', 'x', 'X', '&', '%'], c ∈ announced := by
    simp only [announcements, List.mem_cons, Prod.mk.injEq, List.not_mem_nil, or_false] at listed
    rcases listed with ⟨rfl, -⟩ | ⟨rfl, -⟩ | ⟨rfl, -⟩ | ⟨rfl, -⟩ | ⟨rfl, -⟩
    · exact ⟨'$', by decide, by decide⟩
    · exact ⟨'x', by decide, by decide⟩
    · exact ⟨'X', by decide, by decide⟩
    · exact ⟨'&', by decide, by decide⟩
    · exact ⟨'%', by decide, by decide⟩
  have occurs : c ∈ blanks ++ (sign ++ (hex ++ digits)) := by
    rw [← token_eq, same]
    simp [inside]
  rw [List.mem_singleton.mp hex_mem, List.nil_append, List.mem_append, List.mem_append] at occurs
  have silent : ∀ c ∈ ['$', 'x', 'X', '&', '%'], isspace c = false ∧ c ∉ ['+', '-'] ∧
      isDigitOf 10 c = false := by
    intro c marks
    simp only [List.mem_cons, List.not_mem_nil, or_false] at marks
    rcases marks with rfl | rfl | rfl | rfl | rfl <;> decide
  obtain ⟨not_blank, not_sign, not_digit⟩ := silent c marks
  rcases occurs with first | second | third
  · rw [blank c first] at not_blank
    cases not_blank
  · refine not_sign ?_
    simp only [signs, List.mem_cons, Prod.mk.injEq, List.not_mem_nil, or_false] at sign_mem
    rcases sign_mem with ⟨rfl, -⟩ | ⟨rfl, -⟩ | ⟨rfl, -⟩
    · cases second
    · exact List.mem_singleton.mp second ▸ .head _
    · exact List.mem_singleton.mp second ▸ .tail _ (.head _)
  · rw [all c third] at not_digit
    cases not_digit

theorem loose_of_signed {sign digits : Text} {negative : Bool} (sign_mem : (sign, negative) ∈ signs)
    (digits_of : Digits 10 digits) :
    Loose 10 (sign ++ digits) negative (value digitValue 10 0 digits) :=
  ⟨[], sign, [], digits, (fun _ inside => nomatch inside), sign_mem, .head _, digits_of.filled,
    digits_of.all, rfl, rfl⟩

theorem numeral_of_announcing {token body : Text} {negative : Bool} {radix : Nat} {v : Int}
    (announcing : Announcing token negative radix body) :
    Numeral token v ↔
      Digits radix body ∧ v = applySign negative (value digitValue radix 0 body) := by
  constructor
  · rintro ⟨sign, minus, announced, base, digits, sign_mem, listed, rfl, digits_of, rfl⟩
    rcases List.mem_cons.mp listed with plain | listed
    · obtain ⟨rfl, rfl⟩ := Prod.mk.inj plain
      exact absurd announcing ((loose_of_signed sign_mem digits_of).not_announcing _ _ _)
    · obtain ⟨rfl, rfl, rfl⟩ :=
        announcing.unique ⟨sign, announced, sign_mem, listed, rfl⟩
      exact ⟨digits_of, rfl⟩
  · rintro ⟨digits_of, rfl⟩
    obtain ⟨sign, announced, sign_mem, listed, rfl⟩ := announcing.split
    exact ⟨sign, negative, announced, radix, body, sign_mem, .tail _ listed, rfl, digits_of, rfl⟩

theorem numeral_of_plain {token : Text} {v : Int}
    (plain : ∀ negative radix body, ¬Announcing token negative radix body) :
    Numeral token v ↔ ∃ sign negative digits, (sign, negative) ∈ signs ∧ token = sign ++ digits ∧
      Digits 10 digits ∧ v = applySign negative (value digitValue 10 0 digits) := by
  constructor
  · rintro ⟨sign, negative, announced, radix, digits, sign_mem, listed, rfl, digits_of, rfl⟩
    rcases List.mem_cons.mp listed with none_ | listed
    · obtain ⟨rfl, rfl⟩ := Prod.mk.inj none_
      exact ⟨sign, negative, digits, sign_mem, rfl, digits_of, rfl⟩
    · exact absurd ⟨sign, announced, sign_mem, listed, rfl⟩ (plain negative radix digits)
  · rintro ⟨sign, negative, digits, sign_mem, rfl, digits_of, rfl⟩
    exact ⟨sign, negative, [], 10, digits, sign_mem, .head _, rfl, digits_of, rfl⟩

/-- What is accepted is the value of the numeral, if it is one. -/
theorem Numeral.eq_of_read {token : Text} {v w : Int} (numeral : Numeral token v)
    (read : turboInteger token = some w) : w = v := by
  by_cases announces : ∃ negative radix body, Announcing token negative radix body
  · obtain ⟨negative, radix, body, announcing⟩ := announces
    obtain ⟨digits_of, rfl⟩ := (numeral_of_announcing announcing).mp numeral
    rw [announcing.turboInteger] at read
    obtain ⟨minus, size, loose, -, rfl⟩ := convert_iff.mp read
    obtain ⟨rfl, rfl⟩ := loose.unique digits_of.loose
    rfl
  · simp only [not_exists] at announces
    obtain ⟨sign, negative, digits, sign_mem, rfl, digits_of, rfl⟩ :=
      (numeral_of_plain announces).mp numeral
    rw [turboInteger_of_plain announces] at read
    obtain ⟨minus, size, loose, -, rfl⟩ := convert_iff.mp read
    obtain ⟨rfl, rfl⟩ := loose.unique (loose_of_signed sign_mem digits_of)
    rfl

theorem Skipped.cons {lead : Text} {minus : Bool} {blank : Char} (space : isspace blank)
    (skipped : Skipped 10 lead minus) : Skipped 10 (blank :: lead) minus := by
  obtain ⟨blanks, sign, hex, all, sign_mem, hex_mem, rfl⟩ := skipped
  exact ⟨blank :: blanks, sign, hex, List.forall_mem_cons.mpr ⟨space, all⟩, sign_mem, hex_mem, rfl⟩

theorem Stray.not_numeral {token : Text} {v : Int} (stray : Stray token) : ¬Numeral token v := by
  intro numeral
  rcases stray with ⟨negative, radix, lead, minus, digits, announcing, skipped, some_, -, -⟩ |
    ⟨blank, lead, minus, digits, rfl, space, skipped, digits_of, -⟩
  · exact skipped.not_digits some_ ((numeral_of_announcing announcing).mp numeral).1
  · have loose := loose_iff.mpr ⟨_, digits, skipped.cons space, digits_of, rfl, rfl⟩
    obtain ⟨sign, negative, others, sign_mem, same, others_of, -⟩ :=
      (numeral_of_plain loose.not_announcing).mp numeral
    suffices isspace blank = false by
      rw [space] at this
      cases this
    by_cases unsigned : sign = []
    · subst unsigned
      rw [List.nil_append] at same
      exact isspace_of_digit (others_of.all blank (same ▸ List.mem_cons_self))
    · exact sign_visible sign_mem unsigned same.symm

theorem AnnouncedLeast.numeral {token : Text} (least : AnnouncedLeast token) :
    Numeral token (-2 ^ 63) := by
  obtain ⟨radix, digits, announcing, digits_of, size⟩ := least
  refine (numeral_of_announcing announcing).mpr ⟨digits_of, ?_⟩
  rw [size]
  rfl

/-- An announcing token is a numeral in range, and spared, if its digits are below the limit. -/
theorem spared_of_announcing {token body : Text} {negative : Bool} {radix : Nat}
    (announcing : Announcing token negative radix body) :
    (∃ v, Numeral token v ∧ InInt64 v) ∧ ¬AnnouncedLeast token ↔
      Digits radix body ∧ value digitValue radix 0 body < 2 ^ 63 := by
  constructor
  · rintro ⟨⟨v, numeral, fits⟩, spared⟩
    obtain ⟨digits_of, rfl⟩ := (numeral_of_announcing announcing).mp numeral
    refine ⟨digits_of, ?_⟩
    rw [InInt64, applySign] at fits
    cases negative with
    | true =>
        have other : value digitValue radix 0 body ≠ 2 ^ 63 := fun least =>
          spared ⟨radix, body, announcing, digits_of, least⟩
        rw [if_pos rfl] at fits
        omega
    | false =>
        rw [if_neg Bool.false_ne_true] at fits
        omega
  · rintro ⟨digits_of, below⟩
    refine ⟨⟨_, (numeral_of_announcing announcing).mpr ⟨digits_of, rfl⟩, ?_⟩, ?_⟩
    · rw [InInt64, applySign]
      split <;> omega
    · rintro ⟨base, others, again, -, least⟩
      obtain ⟨-, rfl, rfl⟩ := announcing.unique again
      omega

theorem accepted_of_announcing {token body : Text} {negative : Bool} {radix : Nat}
    (announcing : Announcing token negative radix body) :
    (∃ v, turboInteger token = some v) ↔
      Stray token ∨ (∃ v, Numeral token v ∧ InInt64 v) ∧ ¬AnnouncedLeast token := by
  rw [announcing.turboInteger, spared_of_announcing announcing]
  constructor
  · rintro ⟨v, read⟩
    obtain ⟨minus, size, loose, fits, -⟩ := convert_iff.mp read
    obtain ⟨lead, digits, skipped, digits_of, rfl, rfl⟩ := loose_iff.mp loose
    by_cases none_ : lead = []
    · subst none_
      obtain ⟨rfl, -⟩ := loose.unique digits_of.loose
      rw [InInt64, applySign, if_neg Bool.false_ne_true] at fits
      exact .inr ⟨digits_of, by exact_mod_cast fits.2⟩
    · exact .inl (.inl ⟨negative, radix, lead, minus, digits, announcing, skipped, none_, digits_of,
        fits⟩)
  · rintro ((⟨minus, base, lead, sign, digits, again, skipped, -, digits_of, fits⟩ |
      ⟨blank, lead, minus, digits, rfl, space, skipped, digits_of, -⟩) | ⟨digits_of, below⟩)
    · obtain ⟨rfl, rfl, rfl⟩ := announcing.unique again
      exact ⟨_, convert_iff.mpr ⟨sign, _, loose_iff.mpr ⟨lead, digits, skipped, digits_of, rfl, rfl⟩,
        fits, rfl⟩⟩
    · have loose := loose_iff.mpr ⟨_, digits, skipped.cons space, digits_of, rfl, rfl⟩
      exact absurd announcing (loose.not_announcing _ _ _)
    · refine ⟨_, convert_iff.mpr ⟨false, _, digits_of.loose, ?_, rfl⟩⟩
      rw [InInt64, applySign, if_neg Bool.false_ne_true]
      omega

theorem accepted_of_plain {token : Text}
    (plain : ∀ negative radix body, ¬Announcing token negative radix body) :
    (∃ v, turboInteger token = some v) ↔
      Stray token ∨ (∃ v, Numeral token v ∧ InInt64 v) ∧ ¬AnnouncedLeast token := by
  rw [turboInteger_of_plain plain]
  constructor
  · rintro ⟨v, read⟩
    obtain ⟨minus, size, ⟨blanks, sign, hex, digits, blank, sign_mem, hex_mem, some_, all, rfl, rfl⟩,
      fits, -⟩ := convert_iff.mp read
    obtain rfl := List.mem_singleton.mp hex_mem
    cases blanks with
    | nil =>
        refine .inr ⟨⟨_, (numeral_of_plain plain).mpr ⟨sign, minus, digits, sign_mem, rfl,
          ⟨some_, all⟩, rfl⟩, fits⟩, ?_⟩
        rintro ⟨radix, others, announcing, -⟩
        exact plain _ _ _ announcing
    | cons c rest =>
        obtain ⟨space, blank⟩ := List.forall_mem_cons.mp blank
        refine .inl (.inr ⟨c, rest ++ (sign ++ []), minus, digits, ?_, space,
          ⟨rest, sign, [], blank, sign_mem, hex_mem, rfl⟩, ⟨some_, all⟩, fits⟩)
        simp
  · rintro ((⟨minus, base, lead, sign, digits, again, -⟩ |
      ⟨blank, lead, minus, digits, rfl, space, skipped, digits_of, fits⟩) | ⟨⟨v, numeral, fits⟩, -⟩)
    · exact absurd again (plain _ _ _)
    · have loose := loose_iff.mpr ⟨_, digits, skipped.cons space, digits_of, rfl, rfl⟩
      exact ⟨_, convert_iff.mpr ⟨minus, _, loose, fits, rfl⟩⟩
    · obtain ⟨sign, negative, digits, sign_mem, rfl, digits_of, rfl⟩ :=
        (numeral_of_plain plain).mp numeral
      exact ⟨_, convert_iff.mpr ⟨negative, _, loose_of_signed sign_mem digits_of, fits, rfl⟩⟩

/-- The tokens that are accepted: strays, and the numerals of 64 bits but for the least integer with
its radix announced. -/
theorem accepted_iff (token : Text) :
    (∃ v, turboInteger token = some v) ↔
      Stray token ∨ (∃ v, Numeral token v ∧ InInt64 v) ∧ ¬AnnouncedLeast token := by
  by_cases announces : ∃ negative radix body, Announcing token negative radix body
  · obtain ⟨_, _, _, announcing⟩ := announces
    exact accepted_of_announcing announcing
  · simp only [not_exists] at announces
    exact accepted_of_plain announces

/-! ### Exactness -/

/-- The token is converted if it is a numeral of 64 bits, and then to its value. -/
def ExactToken (token : Text) : Prop :=
  ∀ v, turboInteger (cString token) = some v ↔ Numeral token v ∧ InInt64 v

/-- Up to its first zero byte the token is no stray; a zero byte does not stand behind a numeral that
is accepted; and the token is not the least integer with its radix announced. -/
structure Regular (token : Text) : Prop where
  no_stray : ¬Stray (cString token)
  no_zero : cString token ≠ token → ∀ v, Numeral (cString token) v → InInt64 v →
    AnnouncedLeast (cString token)
  not_least : ¬AnnouncedLeast token

/-- There is no zero byte in a numeral. -/
theorem Numeral.cString_eq {token : Text} {v : Int} (numeral : Numeral token v) :
    cString token = token := by
  obtain ⟨sign, negative, announced, radix, digits, sign_mem, listed, rfl, digits_of, -⟩ := numeral
  refine List.takeWhile_eq_self_iff.mpr fun c occurs => ?_
  rw [bne_iff_ne]
  rintro rfl
  rcases List.mem_append.mp occurs with inside | inside
  · simp only [signs, List.mem_cons, Prod.mk.injEq, List.not_mem_nil, or_false] at sign_mem
    rcases sign_mem with ⟨rfl, -⟩ | ⟨rfl, -⟩ | ⟨rfl, -⟩ <;> revert inside <;> decide
  · rcases List.mem_append.mp inside with inside | inside
    · simp only [announcements, List.mem_cons, Prod.mk.injEq, List.not_mem_nil, or_false] at listed
      rcases listed with ⟨rfl, -⟩ | ⟨rfl, -⟩ | ⟨rfl, -⟩ | ⟨rfl, -⟩ | ⟨rfl, -⟩ | ⟨rfl, -⟩ <;>
        revert inside <;> decide
    · have digit := digits_of.all _ inside
      rw [isDigitOf, Bool.and_eq_true] at digit
      exact absurd digit.1 (by decide)

theorem exact_iff_regular (token : Text) : ExactToken token ↔ Regular token := by
  constructor
  · intro exact_
    refine ⟨fun stray => ?_, fun cut v numeral fits => ?_, fun least => ?_⟩
    · obtain ⟨v, read⟩ := (accepted_iff _).mpr (.inl stray)
      have numeral := ((exact_ v).mp read).1
      rw [numeral.cString_eq] at stray
      exact stray.not_numeral numeral
    · by_contra spared
      obtain ⟨w, read⟩ := (accepted_iff _).mpr (.inr ⟨⟨v, numeral, fits⟩, spared⟩)
      exact cut ((exact_ w).mp read).1.cString_eq
    · have read := (exact_ _).mpr ⟨least.numeral, le_refl _, by decide⟩
      have whole := least.numeral.cString_eq
      rw [whole] at read
      rcases (accepted_iff _).mp ⟨_, read⟩ with stray | ⟨-, spared⟩
      · exact stray.not_numeral least.numeral
      · exact spared least
  · intro regular v
    constructor
    · intro read
      rcases (accepted_iff _).mp ⟨v, read⟩ with stray | ⟨⟨w, numeral, fits⟩, spared⟩
      · exact absurd stray regular.no_stray
      · have whole : cString token = token := by
          by_contra cut
          exact spared (regular.no_zero cut w numeral fits)
        obtain rfl := numeral.eq_of_read read
        exact ⟨whole ▸ numeral, fits⟩
    · rintro ⟨numeral, fits⟩
      rw [numeral.cString_eq]
      obtain ⟨w, read⟩ := (accepted_iff _).mpr (.inr ⟨⟨v, numeral, fits⟩, regular.not_least⟩)
      rw [read, numeral.eq_of_read read]

end Plang.Runtime
