import KoboldKhat.Parser.Numbers
import KoboldKhat.Serializer.Dump

/-!
# Integers are read back

`dump_integer` writes two digits at a time, from the last ones on. They are the decimal digits of
the number (`decimal_dumpDigits`) without a zero in front (`exists_head_dumpDigits`), so what is
written for an integer is the text of a number (`numberText_dumpInteger`). The lexer reads the same
integer from it: as an unsigned one if it is not negative (`numberOf_dumpInteger_natCast`), and as a
signed one if it is (`numberOf_dumpInteger_of_neg`).
-/

set_option autoImplicit false
set_option relaxedAutoImplicit false

namespace KoboldKhat.Parser

open Serializer

section Digits

variable {strtod : Bytes → Double} {value : ℕ} {digits : Bytes}

/-- One more digit. -/
theorem decimal_concat (digits : Bytes) (digit : UInt8) :
    decimal (digits ++ [digit]) = 10 * decimal digits + (digit.toNat - 0x30) := by
  rw [decimal, List.foldl_append]
  rfl

/-- The character of a digit is a digit. -/
theorem decimalDigit_toNat (hvalue : value < 10) : (decimalDigit value).toNat = 0x30 + value := by
  rw [decimalDigit, UInt8.toNat_ofNat']
  omega

theorem isDigit_decimalDigit (hvalue : value < 10) : isDigit (decimalDigit value) = true := by
  rw [isDigit, decimalDigit_toNat hvalue, decide_eq_true_eq]
  omega

/-- Two more digits. -/
theorem decimal_append_digitsTo99 (hvalue : value < 100) :
    decimal (digits ++ digitsTo99 value) = 100 * decimal digits + value := by
  have htens : (decimalDigit (value / 10)).toNat = 0x30 + value / 10 :=
    decimalDigit_toNat (by omega)
  have hones : (decimalDigit (value % 10)).toNat = 0x30 + value % 10 :=
    decimalDigit_toNat (by omega)
  rw [digitsTo99, List.append_cons, decimal_concat, decimal_concat, htens, hones]
  omega

/-- The digits of a number have its value. -/
theorem decimal_dumpDigits (value : ℕ) : decimal (dumpDigits value) = value := by
  fun_induction dumpDigits value with
  | case1 value hlarge ih =>
    rw [decimal_append_digitsTo99 (Nat.mod_lt value (by decide)), ih]
    omega
  | case2 value hsmall htwo =>
    have htwice := @decimal_append_digitsTo99 value [] (by omega)
    rw [List.nil_append] at htwice
    rw [htwice]
    exact Nat.zero_add value
  | case3 value hsmall hone =>
    have honce := decimal_concat [] (decimalDigit value)
    rw [List.nil_append, decimalDigit_toNat (by omega)] at honce
    rw [honce]
    show 10 * 0 + _ = value
    omega

/-- They are digits. -/
theorem isDigit_of_mem_dumpDigits (value : ℕ) : ∀ byte ∈ dumpDigits value, isDigit byte = true := by
  have htwo : ∀ value < 100, ∀ byte ∈ digitsTo99 value, isDigit byte = true := by
    intro value hvalue
    exact List.forall_mem_cons.mpr ⟨isDigit_decimalDigit (by omega),
      List.forall_mem_singleton.mpr (isDigit_decimalDigit (by omega))⟩
  fun_induction dumpDigits value with
  | case1 value hlarge ih =>
    exact List.forall_mem_append.mpr ⟨ih, htwo _ (Nat.mod_lt value (by decide))⟩
  | case2 value hsmall htens => exact htwo value (by omega)
  | case3 value hsmall hone =>
    exact List.forall_mem_singleton.mpr (isDigit_decimalDigit (by omega))

/-- There is no zero in front. -/
theorem exists_head_dumpDigits (hvalue : 0 < value) :
    ∃ first later, dumpDigits value = first :: later ∧ 0x31 ≤ first.toNat := by
  fun_induction dumpDigits value with
  | case1 value hlarge ih =>
    obtain ⟨first, later, hdigits, hfirst⟩ := ih (by omega)
    exact ⟨first, later ++ digitsTo99 (value % 100), by rw [hdigits, List.cons_append], hfirst⟩
  | case2 value hsmall htwo =>
    refine ⟨_, _, rfl, ?_⟩
    rw [decimalDigit_toNat (by omega)]
    omega
  | case3 value hsmall hone =>
    refine ⟨_, _, rfl, ?_⟩
    rw [decimalDigit_toNat (by omega)]
    omega

/-- Digits do not make a number a double. -/
theorem typeBehind_of_digits (hdigits : ∀ byte ∈ digits, isDigit byte = true)
    (type : NumberType) : typeBehind type digits = type := by
  refine if_neg fun hany ↦ ?_
  obtain ⟨byte, hbyte, hfloating⟩ := List.any_eq_true.mp hany
  have hdigit := hdigits byte hbyte
  simp only [isDigit, decide_eq_true_eq] at hdigit
  simp only [isFloating, isPoint, isExponent, Bool.or_eq_true, decide_eq_true_eq] at hfloating
  omega

/-- The digits of a positive number are the text of a number without a sign. -/
theorem unsignedText_dumpDigits (hvalue : 0 < value) : UnsignedText (dumpDigits value) := by
  have hdigits := isDigit_of_mem_dumpDigits value
  obtain ⟨first, later, hsplit, hfirst⟩ := exists_head_dumpDigits hvalue
  rw [hsplit] at hdigits ⊢
  obtain ⟨hhead, hlater⟩ := List.forall_mem_cons.mp hdigits
  simp only [isDigit, decide_eq_true_eq] at hhead
  refine .inr (one_cons_iff.mpr ⟨?_, later, [], (List.append_nil later).symm, hlater, ?_⟩)
  · rw [decide_eq_true_eq]
    omega
  · exact .inr (.inl rfl)

/-- The digits of a number are those of an unsigned one. -/
theorem numberOf_dumpDigits (hrange : value < 2 ^ 64) :
    numberOf strtod (dumpDigits value) = .unsigned (.ofNat value) := by
  have htype : textType (dumpDigits value) = .unsigned := by
    have hdigits := isDigit_of_mem_dumpDigits value
    rw [textType, typeBehind_of_digits hdigits]
    refine if_neg fun hminus ↦ ?_
    have hdigit := hdigits 0x2D (List.mem_of_mem_head? hminus)
    cases hdigit
  rw [numberOf, htype, convertNumber, strtoull, decimal_dumpDigits, if_pos hrange]
  rfl

/-- The digits of a number behind a minus sign are those of a signed one. -/
theorem numberOf_minus_dumpDigits (hrange : value ≤ 2 ^ 63) :
    numberOf strtod (ascii "-" ++ dumpDigits value) = .integer (.ofInt (-value)) := by
  have htype : textType (ascii "-" ++ dumpDigits value) = .integer := by
    show typeBehind .integer (ascii "-" ++ dumpDigits value) = .integer
    exact typeBehind_of_digits (isDigit_of_mem_dumpDigits value) .integer
  have htail : (ascii "-" ++ dumpDigits value).tail = dumpDigits value := rfl
  rw [numberOf, htype, convertNumber, strtoll, htail, decimal_dumpDigits, if_pos hrange]
  rfl

end Digits

section Integers

variable {strtod : Bytes → Double}

/-- What is written for an integer is the text of a number. -/
theorem numberText_dumpInteger (value : ℤ) : NumberText (dumpInteger value) := by
  rw [dumpInteger]
  split_ifs with hzero hnegative
  · simp [NumberText, UnsignedText, ascii, FractionText, ExponentText]
  · exact .inl (one_cons_iff.mpr ⟨rfl, unsignedText_dumpDigits (by omega)⟩)
  · exact .inr (unsignedText_dumpDigits (by omega))

/-- A zero is read as an unsigned one. -/
theorem numberOf_zero : numberOf strtod (ascii "0") = .unsigned 0 := rfl

/-- What is written for an integer that is not negative is read as an unsigned one. -/
theorem numberOf_dumpInteger_natCast {value : ℕ} (hrange : value < 2 ^ 64) :
    numberOf strtod (dumpInteger value) = .unsigned (.ofNat value) := by
  rw [dumpInteger]
  split_ifs with hzero hnegative
  · obtain rfl : value = 0 := by omega
    exact numberOf_zero
  · omega
  · rw [Int.natAbs_natCast]
    exact numberOf_dumpDigits hrange

/-- What is written for a negative integer is read as a signed one. -/
theorem numberOf_dumpInteger_of_neg {value : Int64} (hnegative : value.toInt < 0) :
    numberOf strtod (dumpInteger value.toInt) = .integer value := by
  have hrange := value.le_toInt
  rw [dumpInteger, if_neg (by omega), if_pos hnegative,
    numberOf_minus_dumpDigits (by omega), Int.ofNat_natAbs_of_nonpos (by omega), Int.neg_neg,
    Int64.ofInt_toInt]

end Integers

end KoboldKhat.Parser
