import Mathlib.Data.List.Basic

/-!
# UTF-8

The encodings of the Unicode scalars as bytes, bytes being numbers: which bytes encode a scalar, and
that no encoding is the beginning of another one.
-/

namespace Utf8

/-- The bytes of a scalar. -/
def encoded (c : Char) : List Nat := (String.utf8EncodeChar c).map UInt8.toNat

/-- A sequence of encodings. -/
def Valid (bytes : List Nat) : Prop := ∃ chars : List Char, bytes = chars.flatMap encoded

/-- A byte behind the first one of an encoding. -/
def IsTail (byte : Nat) : Prop := 0x80 ≤ byte ∧ byte ≤ 0xBF

instance (byte : Nat) : Decidable (IsTail byte) := inferInstanceAs (Decidable (_ ∧ _))

theorem toNat_lt (c : Char) : c.toNat < 0x110000 := by
  obtain below | ⟨-, below⟩ := c.valid
  · exact Nat.lt_trans below (by decide)
  · exact below

theorem encoded_eq (c : Char) :
    encoded c =
      if c.toNat ≤ 0x7F then [c.toNat]
      else if c.toNat ≤ 0x7FF then [c.toNat / 64 + 0xC0, c.toNat % 64 + 0x80]
      else if c.toNat ≤ 0xFFFF then
        [c.toNat / 4096 + 0xE0, c.toNat / 64 % 64 + 0x80, c.toNat % 64 + 0x80]
      else
        [c.toNat / 262144 + 0xF0, c.toNat / 4096 % 64 + 0x80, c.toNat / 64 % 64 + 0x80,
          c.toNat % 64 + 0x80] := by
  have scalar := toNat_lt c
  simp only [encoded, String.utf8EncodeChar, Char.toNat_val]
  generalize c.toNat = v at *
  split
  · simp only [List.map_cons, List.map_nil, UInt8.toNat_ofNat', List.cons.injEq, and_true]
    omega
  · split
    · simp only [List.map_cons, List.map_nil, UInt8.toNat_ofNat', List.cons.injEq, and_true]
      omega
    · split
      · simp only [List.map_cons, List.map_nil, UInt8.toNat_ofNat', List.cons.injEq, and_true]
        omega
      · simp only [List.map_cons, List.map_nil, UInt8.toNat_ofNat', List.cons.injEq, and_true]
        omega

/-- The numbers of the scalars. -/
def IsScalar (value : Nat) : Prop := value < 0xD800 ∨ 0xDFFF < value ∧ value < 0x110000

theorem exists_char {value : Nat} (scalar : IsScalar value) : ∃ c : Char, c.toNat = value :=
  ⟨Char.ofNatAux value scalar, rfl⟩

theorem isScalar_toNat (c : Char) : IsScalar c.toNat := c.valid

/-- The encodings of one byte. -/
theorem encoded_one {a : Nat} : (∃ c, encoded c = [a]) ↔ a < 0x80 := by
  constructor
  · rintro ⟨c, same⟩
    rw [encoded_eq] at same
    split at same
    · have value := (List.cons.inj same).1
      omega
    · split at same
      · simp at same
      · split at same <;> simp at same
  · intro below
    obtain ⟨c, value⟩ := exists_char (.inl (show a < 0xD800 by omega))
    refine ⟨c, ?_⟩
    rw [encoded_eq, value, if_pos (by omega)]

/-- The encodings of two bytes. -/
theorem encoded_two {a b : Nat} :
    (∃ c, encoded c = [a, b]) ↔ 0xC2 ≤ a ∧ a ≤ 0xDF ∧ IsTail b := by
  unfold IsTail
  constructor
  · rintro ⟨c, same⟩
    rw [encoded_eq] at same
    split at same
    · simp at same
    · split at same
      · simp only [List.cons.injEq, and_true] at same
        omega
      · split at same <;> simp at same
  · intro bounds
    obtain ⟨c, value⟩ := exists_char
      (.inl (show (a - 0xC0) * 64 + (b - 0x80) < 0xD800 by omega))
    refine ⟨c, ?_⟩
    rw [encoded_eq, value, if_neg (by omega), if_pos (by omega)]
    simp only [List.cons.injEq, and_true]
    omega

/-- The encodings of three bytes: the surrogates and what two bytes encode are left out. -/
theorem encoded_three {a b d : Nat} :
    (∃ c, encoded c = [a, b, d]) ↔
      0xE0 ≤ a ∧ a ≤ 0xEF ∧ IsTail b ∧ IsTail d ∧ (a = 0xE0 → 0xA0 ≤ b) ∧ (a = 0xED → b < 0xA0) := by
  unfold IsTail
  constructor
  · rintro ⟨c, same⟩
    have scalar := isScalar_toNat c
    unfold IsScalar at scalar
    rw [encoded_eq] at same
    split at same
    · simp at same
    · split at same
      · simp at same
      · split at same
        · simp only [List.cons.injEq, and_true] at same
          omega
        · simp at same
  · intro bounds
    obtain ⟨c, value⟩ := exists_char
      (show IsScalar ((a - 0xE0) * 4096 + (b - 0x80) * 64 + (d - 0x80)) by unfold IsScalar; omega)
    refine ⟨c, ?_⟩
    rw [encoded_eq, value, if_neg (by omega), if_neg (by omega), if_pos (by omega)]
    simp only [List.cons.injEq, and_true]
    omega

/-- The encodings of four bytes: what three bytes encode and what no scalar has is left out. -/
theorem encoded_four {a b d e : Nat} :
    (∃ c, encoded c = [a, b, d, e]) ↔
      0xF0 ≤ a ∧ a ≤ 0xF4 ∧ IsTail b ∧ IsTail d ∧ IsTail e ∧ (a = 0xF0 → 0x90 ≤ b) ∧
        (a = 0xF4 → b < 0x90) := by
  unfold IsTail
  constructor
  · rintro ⟨c, same⟩
    have scalar := isScalar_toNat c
    unfold IsScalar at scalar
    rw [encoded_eq] at same
    split at same
    · simp at same
    · split at same
      · simp at same
      · split at same
        · simp at same
        · simp only [List.cons.injEq, and_true] at same
          omega
  · intro bounds
    obtain ⟨c, value⟩ := exists_char
      (show IsScalar ((a - 0xF0) * 262144 + (b - 0x80) * 4096 + (d - 0x80) * 64 + (e - 0x80)) by
        unfold IsScalar; omega)
    refine ⟨c, ?_⟩
    rw [encoded_eq, value, if_neg (by omega), if_neg (by omega), if_neg (by omega)]
    simp only [List.cons.injEq, and_true]
    omega

/-- The first byte tells how many there are. -/
def leadLength (byte : Nat) : Nat :=
  if byte < 0x80 then 1 else if byte < 0xE0 then 2 else if byte < 0xF0 then 3 else 4

theorem encoded_eq_cons (c : Char) :
    ∃ lead tails, encoded c = lead :: tails ∧ (encoded c).length = leadLength lead ∧
      ∀ byte ∈ tails, IsTail byte := by
  have scalar := toNat_lt c
  unfold IsTail leadLength
  rw [encoded_eq]
  split
  · exact ⟨_, _, rfl, by rw [if_pos (by omega)]; rfl, by simp⟩
  · split
    · refine ⟨_, _, rfl, ?_, ?_⟩
      · rw [if_neg (by omega), if_pos (by omega)]
        rfl
      · simp only [List.mem_cons, List.not_mem_nil, or_false, forall_eq]
        omega
    · split
      · refine ⟨_, _, rfl, ?_, ?_⟩
        · rw [if_neg (by omega), if_neg (by omega), if_pos (by omega)]
          rfl
        · simp only [List.mem_cons, List.not_mem_nil, or_false, forall_eq_or_imp, forall_eq]
          omega
      · refine ⟨_, _, rfl, ?_, ?_⟩
        · rw [if_neg (by omega), if_neg (by omega), if_neg (by omega)]
          rfl
        · simp only [List.mem_cons, List.not_mem_nil, or_false, forall_eq_or_imp, forall_eq]
          omega

/-- A scalar stands in front of the bytes. -/
def Front (bytes : List Nat) (c : Char) : Prop := encoded c <+: bytes

theorem Front.length_eq {bytes : List Nat} {c : Char} (front : Front bytes c) {lead : Nat}
    {rest : List Nat} (bytes_eq : bytes = lead :: rest) : (encoded c).length = leadLength lead := by
  obtain ⟨own, tails, encoded_eq, length, -⟩ := encoded_eq_cons c
  obtain ⟨behind, rfl⟩ := front
  rw [encoded_eq] at bytes_eq
  rw [← (List.cons.inj bytes_eq).1, length]

theorem Front.length_le {bytes : List Nat} {c : Char} (front : Front bytes c) :
    (encoded c).length ≤ bytes.length := List.IsPrefix.length_le front

/-- The first bytes of a character. -/
theorem Front.lead_valid {lead : Nat} {rest : List Nat} {c : Char}
    (front : Front (lead :: rest) c) : lead < 0x80 ∨ 0xC2 ≤ lead ∧ lead ≤ 0xF4 := by
  have scalar := toNat_lt c
  obtain ⟨behind, same⟩ := front
  rw [encoded_eq] at same
  split at same
  · have value := (List.cons.inj same).1
    omega
  · split at same
    · have value := (List.cons.inj same).1
      omega
    · split at same
      · have value := (List.cons.inj same).1
        omega
      · have value := (List.cons.inj same).1
        omega

/-- No encoding begins another one. -/
theorem Front.unique {bytes : List Nat} {c d : Char} (front : Front bytes c)
    (other : Front bytes d) : encoded c = encoded d := by
  obtain ⟨lead, tails, encoded_eq, -, -⟩ := encoded_eq_cons c
  obtain ⟨behind, bytes_eq⟩ := front
  have starts : bytes = lead :: (tails ++ behind) := by rw [← bytes_eq, encoded_eq]; rfl
  have lengths : (encoded c).length = (encoded d).length :=
    (Front.length_eq ⟨behind, bytes_eq⟩ starts).trans (other.length_eq starts).symm
  have taken := List.prefix_iff_eq_take.mp (show encoded c <+: bytes from ⟨behind, bytes_eq⟩)
  rw [taken, lengths, ← List.prefix_iff_eq_take.mp other]

theorem encoded_ne_nil (c : Char) : encoded c ≠ [] := by
  obtain ⟨lead, tails, encoded_eq, -, -⟩ := encoded_eq_cons c
  rw [encoded_eq]
  exact List.cons_ne_nil _ _

theorem valid_nil : Valid [] := ⟨[], rfl⟩

/-- Behind a scalar the rest decides. -/
theorem valid_encoded_append (c : Char) (rest : List Nat) :
    Valid (encoded c ++ rest) ↔ Valid rest := by
  constructor
  · rintro ⟨chars, same⟩
    cases chars with
    | nil => exact absurd (List.append_eq_nil_iff.mp same).1 (encoded_ne_nil c)
    | cons d chars =>
        have first : encoded c = encoded d :=
          Front.unique ⟨rest, rfl⟩ (show Front (encoded c ++ rest) d from ⟨_, same.symm⟩)
        rw [List.flatMap_cons, first] at same
        exact ⟨chars, List.append_cancel_left same⟩
  · rintro ⟨chars, rfl⟩
    exact ⟨c :: chars, rfl⟩

theorem Valid.front {bytes : List Nat} (valid : Valid bytes) (ne : bytes ≠ []) :
    ∃ c, Front bytes c := by
  obtain ⟨chars, rfl⟩ := valid
  cases chars with
  | nil => exact absurd rfl ne
  | cons c chars => exact ⟨c, _, rfl⟩

/-- A first byte tells the length of what it begins, so that so many bytes decide. -/
theorem valid_cons_iff {lead k : Nat} {rest : List Nat} {good : Prop}
    (lead_length : leadLength lead = k)
    (sound : (∃ c, encoded c = (lead :: rest).take k) ↔ good) :
    Valid (lead :: rest) ↔ good ∧ Valid ((lead :: rest).drop k) := by
  constructor
  · intro valid
    obtain ⟨c, front⟩ := valid.front (List.cons_ne_nil _ _)
    have taken := List.prefix_iff_eq_take.mp (show encoded c <+: lead :: rest from front)
    rw [front.length_eq rfl, lead_length] at taken
    refine ⟨sound.mp ⟨c, taken⟩, ?_⟩
    rwa [← List.take_append_drop k (lead :: rest), ← taken, valid_encoded_append] at valid
  · rintro ⟨holds, valid⟩
    obtain ⟨c, taken⟩ := sound.mpr holds
    rw [← List.take_append_drop k (lead :: rest), ← taken]
    exact (valid_encoded_append c _).mpr valid

/-- A character that is cut off. -/
theorem not_valid_of_short {lead : Nat} {rest : List Nat}
    (short : rest.length + 1 < leadLength lead) : ¬Valid (lead :: rest) := by
  intro valid
  obtain ⟨c, front⟩ := valid.front (List.cons_ne_nil _ _)
  have length_le := front.length_le
  rw [front.length_eq rfl, List.length_cons] at length_le
  omega

theorem not_valid_of_lead {lead : Nat} {rest : List Nat}
    (wrong : ¬(lead < 0x80 ∨ 0xC2 ≤ lead ∧ lead ≤ 0xF4)) : ¬Valid (lead :: rest) := by
  intro valid
  obtain ⟨c, front⟩ := valid.front (List.cons_ne_nil _ _)
  exact wrong front.lead_valid

end Utf8
