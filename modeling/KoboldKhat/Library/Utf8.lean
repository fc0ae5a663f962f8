import Mathlib.Data.List.Basic
import Mathlib.Data.Nat.Notation

/-!
# UTF-8

Bytes are UTF-8 when they are the encoding of some characters (`IsUtf8`). For a machine that reads
the bytes one by one, what matters is how the bytes of one character look: `Encodes` lists their
four shapes with the number of the character, without overlong forms, surrogates and numbers past
the last plane. These are the encodings of the characters (`encodes_utf8EncodeChar`,
`Encodes.utf8EncodeChar_ofNat`), so a proof about UTF-8 is an induction in which characters are put
in front (`IsUtf8.induction`). A cut in front of a byte of ASCII never goes through a character
(`IsUtf8.cut`).
-/

set_option autoImplicit false
set_option relaxedAutoImplicit false

namespace KoboldKhat.Library

/-- The bytes are the encoding of some characters. -/
def IsUtf8 (bytes : List UInt8) : Prop :=
  ∃ characters : List Char, bytes = characters.flatMap String.utf8EncodeChar

/-- A byte that can stand behind the first one of a character. -/
def IsTail (byte : UInt8) : Prop :=
  0x80 ≤ byte.toNat ∧ byte.toNat ≤ 0xBF

/-- The bytes of one character, and its number. -/
inductive Encodes : List UInt8 → ℕ → Prop
  | one {number : ℕ} {first : UInt8} (small : first.toNat ≤ 0x7F) (value : number = first.toNat) :
      Encodes [first] number
  | two {number : ℕ} {first second : UInt8} (lead : 0xC2 ≤ first.toNat ∧ first.toNat ≤ 0xDF)
      (tail : IsTail second)
      (value : number = (first.toNat - 0xC0) * 64 + (second.toNat - 0x80)) :
      Encodes [first, second] number
  | three {number : ℕ} {first second third : UInt8}
      (lead : 0xE0 ≤ first.toNat ∧ first.toNat ≤ 0xEF) (tails : IsTail second ∧ IsTail third)
      (shortest : first.toNat = 0xE0 → 0xA0 ≤ second.toNat)
      (scalar : first.toNat = 0xED → second.toNat ≤ 0x9F)
      (value : number =
        ((first.toNat - 0xE0) * 64 + (second.toNat - 0x80)) * 64 + (third.toNat - 0x80)) :
      Encodes [first, second, third] number
  | four {number : ℕ} {first second third fourth : UInt8}
      (lead : 0xF0 ≤ first.toNat ∧ first.toNat ≤ 0xF4)
      (tails : IsTail second ∧ IsTail third ∧ IsTail fourth)
      (shortest : first.toNat = 0xF0 → 0x90 ≤ second.toNat)
      (scalar : first.toNat = 0xF4 → second.toNat ≤ 0x8F)
      (value : number = (((first.toNat - 0xF0) * 64 + (second.toNat - 0x80)) * 64 +
        (third.toNat - 0x80)) * 64 + (fourth.toNat - 0x80)) :
      Encodes [first, second, third, fourth] number

/-- A character has no number of a surrogate, and none past the last plane. -/
theorem toNat_range (character : Char) :
    character.toNat < 0xD800 ∨ 0xDFFF < character.toNat ∧ character.toNat < 0x110000 :=
  character.valid

/-- The bytes of a character have one of the shapes. -/
theorem encodes_utf8EncodeChar (character : Char) :
    Encodes (String.utf8EncodeChar character) character.toNat := by
  have hrange := toNat_range character
  have hnumber : character.val.toNat = character.toNat := rfl
  unfold String.utf8EncodeChar
  simp only [hnumber]
  generalize character.toNat = number at hrange
  split_ifs with hone htwo hthree
  · apply Encodes.one
    all_goals simp only [UInt8.toNat_ofNat']
    all_goals omega
  · apply Encodes.two
    all_goals simp only [IsTail, UInt8.toNat_ofNat']
    all_goals omega
  · apply Encodes.three
    all_goals simp only [IsTail, UInt8.toNat_ofNat']
    all_goals omega
  · apply Encodes.four
    all_goals simp only [IsTail, UInt8.toNat_ofNat']
    all_goals omega

/-- A character has at least one byte. -/
theorem Encodes.length_pos {bytes : List UInt8} {number : ℕ} (hencodes : Encodes bytes number) :
    0 < bytes.length := by
  cases hencodes with
  | _ => exact Nat.succ_pos _

/-- A character is a byte of ASCII, or it has no bytes of ASCII. -/
theorem Encodes.ascii_or_large {bytes : List UInt8} {number : ℕ} (hencodes : Encodes bytes number) :
    (∃ byte, bytes = [byte] ∧ number = byte.toNat) ∨
      0x80 ≤ number ∧ ∀ byte ∈ bytes, 0x80 ≤ byte.toNat := by
  cases hencodes with
  | one small value => exact .inl ⟨_, rfl, value⟩
  | two lead tail value =>
    unfold IsTail at tail
    refine .inr ⟨by omega, ?_⟩
    simp only [List.forall_mem_cons, List.not_mem_nil, false_imp_iff, implies_true, and_true]
    omega
  | three lead tails shortest scalar value =>
    unfold IsTail at tails
    refine .inr ⟨by omega, ?_⟩
    simp only [List.forall_mem_cons, List.not_mem_nil, false_imp_iff, implies_true, and_true]
    omega
  | four lead tails shortest scalar value =>
    unfold IsTail at tails
    refine .inr ⟨by omega, ?_⟩
    simp only [List.forall_mem_cons, List.not_mem_nil, false_imp_iff, implies_true, and_true]
    omega

/-- The number of a shape is the number of a character. -/
theorem Encodes.isValidChar {bytes : List UInt8} {number : ℕ} (hencodes : Encodes bytes number) :
    number.isValidChar := by
  unfold Nat.isValidChar
  cases hencodes with
  | one small value => omega
  | two lead tail value =>
    unfold IsTail at tail
    omega
  | three lead tails shortest scalar value =>
    unfold IsTail at tails
    omega
  | four lead tails shortest scalar value =>
    unfold IsTail at tails
    omega

/-- Bytes of one of the shapes are the encoding of the character with their number. -/
theorem Encodes.utf8EncodeChar_ofNat {bytes : List UInt8} {number : ℕ}
    (hencodes : Encodes bytes number) :
    String.utf8EncodeChar (Char.ofNat number) = bytes := by
  have hnumber : (Char.ofNat number).val.toNat = number := by
    rw [Char.ofNat, dif_pos hencodes.isValidChar]
    rfl
  unfold String.utf8EncodeChar
  simp only [hnumber]
  cases hencodes with
  | one small value =>
    rw [if_pos (by omega)]
    simp only [List.cons.injEq, and_true, ← UInt8.toNat_inj, UInt8.toNat_ofNat']
    omega
  | two lead tail value =>
    unfold IsTail at tail
    rw [if_neg (by omega), if_pos (by omega)]
    simp only [List.cons.injEq, and_true, ← UInt8.toNat_inj, UInt8.toNat_ofNat']
    omega
  | three lead tails shortest scalar value =>
    unfold IsTail at tails
    rw [if_neg (by omega), if_neg (by omega), if_pos (by omega)]
    simp only [List.cons.injEq, and_true, ← UInt8.toNat_inj, UInt8.toNat_ofNat']
    omega
  | four lead tails shortest scalar value =>
    unfold IsTail at tails
    rw [if_neg (by omega), if_neg (by omega), if_neg (by omega)]
    simp only [List.cons.injEq, and_true, ← UInt8.toNat_inj, UInt8.toNat_ofNat']
    omega

/-- No bytes at all are UTF-8. -/
theorem IsUtf8.nil : IsUtf8 [] :=
  ⟨[], rfl⟩

/-- UTF-8 with a character in front is UTF-8. -/
theorem IsUtf8.append {bytes rest : List UInt8} {number : ℕ} (hencodes : Encodes bytes number)
    (hrest : IsUtf8 rest) : IsUtf8 (bytes ++ rest) := by
  obtain ⟨characters, rfl⟩ := hrest
  refine ⟨Char.ofNat number :: characters, ?_⟩
  rw [List.flatMap_cons, hencodes.utf8EncodeChar_ofNat]

/-- UTF-8 behind UTF-8 is UTF-8. -/
theorem IsUtf8.concat {bytes rest : List UInt8} (hbytes : IsUtf8 bytes) (hrest : IsUtf8 rest) :
    IsUtf8 (bytes ++ rest) := by
  obtain ⟨characters, rfl⟩ := hbytes
  obtain ⟨others, rfl⟩ := hrest
  exact ⟨characters ++ others, List.flatMap_append.symm⟩

/-- What holds of no bytes, and with a character in front if it holds without, holds of UTF-8. -/
theorem IsUtf8.induction {holds : List UInt8 → Prop} (nil : holds [])
    (append : ∀ bytes number rest, Encodes bytes number → holds rest → holds (bytes ++ rest))
    {bytes : List UInt8} (hvalid : IsUtf8 bytes) : holds bytes := by
  obtain ⟨characters, rfl⟩ := hvalid
  induction characters with
  | nil => exact nil
  | cons character characters ih =>
    exact append _ _ _ (encodes_utf8EncodeChar character) ih

/-- ASCII is UTF-8. -/
theorem isUtf8_of_ascii {bytes : List UInt8} (hbytes : ∀ byte ∈ bytes, byte.toNat ≤ 0x7F) :
    IsUtf8 bytes := by
  induction bytes with
  | nil => exact .nil
  | cons byte bytes ih =>
    obtain ⟨hbyte, hrest⟩ := List.forall_mem_cons.mp hbytes
    exact .append (.one hbyte rfl) (ih hrest)

/-! ### Cutting at ASCII -/

/-- What is behind a byte of ASCII at the beginning of UTF-8 is UTF-8. -/
theorem IsUtf8.of_cons {byte : UInt8} {rest : List UInt8} (hvalid : IsUtf8 (byte :: rest))
    (hascii : byte.toNat ≤ 0x7F) : IsUtf8 rest := by
  obtain ⟨characters, hbytes⟩ := hvalid
  cases characters with
  | nil => cases hbytes
  | cons character characters =>
    rw [List.flatMap_cons] at hbytes
    rcases (encodes_utf8EncodeChar character).ascii_or_large with ⟨first, hfirst, -⟩ | ⟨-, hlarge⟩
    · rw [hfirst] at hbytes
      exact ⟨characters, (List.cons.inj hbytes).2⟩
    · have hlength := (encodes_utf8EncodeChar character).length_pos
      obtain ⟨first, others, hfirst⟩ := List.exists_cons_of_length_pos hlength
      rw [hfirst] at hbytes hlarge
      have hsmall := hlarge first List.mem_cons_self
      rw [← (List.cons.inj hbytes).1] at hsmall
      omega

/-- UTF-8 without bytes of ASCII at its beginning is UTF-8. -/
theorem IsUtf8.dropWhile {drops : UInt8 → Bool}
    (hascii : ∀ byte, drops byte = true → byte.toNat ≤ 0x7F) {bytes : List UInt8}
    (hvalid : IsUtf8 bytes) : IsUtf8 (bytes.dropWhile drops) := by
  induction bytes with
  | nil => exact .nil
  | cons byte rest ih =>
    by_cases hdrops : drops byte = true
    · rw [List.dropWhile_cons_of_pos hdrops]
      exact ih (hvalid.of_cons (hascii byte hdrops))
    · rw [List.dropWhile_cons_of_neg hdrops]
      exact hvalid

/-- A cut of UTF-8 in front of a byte of ASCII leaves UTF-8 on both sides. -/
theorem IsUtf8.cut {stays : UInt8 → Bool}
    (hascii : ∀ byte, stays byte = false → byte.toNat ≤ 0x7F) {bytes : List UInt8}
    (hvalid : IsUtf8 bytes) :
    IsUtf8 (bytes.takeWhile stays) ∧ IsUtf8 (bytes.dropWhile stays) := by
  have hsplit : IsUtf8 bytes ∧ IsUtf8 (bytes.takeWhile stays) ∧ IsUtf8 (bytes.dropWhile stays) := by
    refine @IsUtf8.induction (fun bytes ↦
      IsUtf8 bytes ∧ IsUtf8 (bytes.takeWhile stays) ∧ IsUtf8 (bytes.dropWhile stays))
      ⟨.nil, .nil, .nil⟩ ?_ bytes hvalid
    rintro character number rest hencodes ⟨hrest, htaken, hdropped⟩
    refine ⟨.append hencodes hrest, ?_⟩
    by_cases hstays : ∀ byte ∈ character, stays byte = true
    · rw [List.takeWhile_append_of_pos hstays, List.dropWhile_append_of_pos hstays]
      exact ⟨.append hencodes htaken, hdropped⟩
    · obtain ⟨byte, hbyte, hstops⟩ : ∃ byte ∈ character, stays byte = false := by
        simpa using hstays
      rcases hencodes.ascii_or_large with ⟨single, rfl, -⟩ | ⟨-, hlarge⟩
      · obtain rfl := List.mem_singleton.mp hbyte
        rw [List.singleton_append, List.takeWhile_cons_of_neg (by simp [hstops]),
          List.dropWhile_cons_of_neg (by simp [hstops])]
        exact ⟨.nil, .append hencodes hrest⟩
      · have hsmall := hascii byte hstops
        have hbig := hlarge byte hbyte
        omega
  exact hsplit.2

end KoboldKhat.Library
