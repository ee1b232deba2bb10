import MacroScript.SourceMap.Vlq
import Mathlib.Tactic.Ring
import Mathlib.Tactic.NormNum

/-!
# Numbers read back from their digits

The text of a number ends with the first digit that announces no other, so texts of numbers that
are written one behind the other can be told apart.  Every 64-bit number but the least is read
back as it was.
-/

namespace MacroScript.Vlq

variable {value : Int64}

/-! ## Digits -/

theorem digitValue?_digitChar {value : Nat} (isDigit : value < 64) :
    digitValue? (digitChar value) = some value := by
  have all : ∀ digit : Fin 64, digitValue? (digitChar digit) = some digit.val := by
    decide +kernel
  exact all ⟨value, isDigit⟩

theorem digitChar_mem_alphabet (value : Nat) : digitChar value ∈ alphabet := by
  unfold digitChar
  rw [List.getD_eq_getElem?_getD]
  cases found : alphabet[value]? with
  | none => decide
  | some c => exact List.mem_of_getElem? found

theorem decodeFrom_nil : decodeFrom 0 0 [] = some [] :=
  rfl

theorem decodeFrom_cons (partialWord shift : Nat) (c : Char) (rest : List Char) :
    decodeFrom partialWord shift (c :: rest) =
      match digitValue? c with
      | none => none
      | some digit =>
        if digit < 32 then
          (decodeFrom 0 0 rest).map (ofWord (partialWord + digit % 32 * 2 ^ shift) :: ·)
        else decodeFrom (partialWord + digit % 32 * 2 ^ shift) (shift + 5) rest :=
  rfl

/-- The digits that are written for a word, round by round: five bits at a time, until no more than
five are left. -/
inductive Rounds : (word : Nat) → List Nat → Prop
  | last {word : Nat} (small : word < 32) : Rounds word [word]
  | more {word : Nat} {rest : List Nat} (large : ¬ word < 32) (later : Rounds (word / 32) rest) :
      Rounds word ((word % 32 + 32) :: rest)

/-- With enough digits the last round is reached. -/
theorem rounds_digits {count word : Nat} (enough : word < 32 ^ (count + 1)) :
    Rounds word (digits (count + 1) word) := by
  induction count generalizing word with
  | zero =>
    have small : word < 32 := by simpa using enough
    rw [digits, if_pos small]
    exact .last small
  | succ count ih =>
    by_cases small : word < 32
    · rw [digits, if_pos small]
      exact .last small
    · have fewer : word / 32 < 32 ^ (count + 1) := by
        rw [Nat.div_lt_iff_lt_mul (by decide), ← Nat.pow_succ]
        exact enough
      rw [digits, if_neg small]
      exact .more small (ih fewer)

theorem Rounds.lt_of_mem {word digit : Nat} {written : List Nat} (rounds : Rounds word written)
    (mem : digit ∈ written) : digit < 64 := by
  induction rounds with
  | last small =>
    obtain rfl := List.mem_singleton.mp mem
    omega
  | more large later ih =>
    rcases List.mem_cons.mp mem with rfl | behind
    · omega
    · exact ih behind

/-- The digits of a word, in front of other digits, are read as the word. -/
theorem Rounds.decodeFrom {word : Nat} {written : List Nat} (rounds : Rounds word written)
    (partialWord shift : Nat) (rest : List Char) :
    decodeFrom partialWord shift (written.map digitChar ++ rest) =
      (decodeFrom 0 0 rest).map (ofWord (partialWord + word * 2 ^ shift) :: ·) := by
  induction rounds generalizing partialWord shift with
  | @last word small =>
    simp only [List.map_cons, List.map_nil, List.cons_append, List.nil_append, decodeFrom_cons,
      digitValue?_digitChar (show word < 64 by omega), if_pos small, Nat.mod_eq_of_lt small]
  | @more word written large later ih =>
    have goesOn : ¬ word % 32 + 32 < 32 := by omega
    have sum : partialWord + word % 32 * 2 ^ shift + word / 32 * 2 ^ (shift + 5) =
        partialWord + word * 2 ^ shift := by
      have parts := Nat.mod_add_div word 32
      calc partialWord + word % 32 * 2 ^ shift + word / 32 * 2 ^ (shift + 5)
          = partialWord + (word % 32 + 32 * (word / 32)) * 2 ^ shift := by ring
        _ = partialWord + word * 2 ^ shift := by rw [parts]
    rw [List.map_cons, List.cons_append, decodeFrom_cons, digitValue?_digitChar (by omega)]
    simp only [if_neg goesOn, Nat.add_mod_right, Nat.mod_mod]
    rw [ih, sum]

/-! ## Numbers -/

theorem toNat_toUInt64_of_nonneg (nonneg : 0 ≤ value.toInt) :
    (value.toUInt64.toNat : Int) = value.toInt := by
  have bits : value.toInt =
      if 2 * value.toUInt64.toNat < 2 ^ 64 then (value.toUInt64.toNat : Int)
      else (value.toUInt64.toNat : Int) - (2 ^ 64 : Nat) :=
    BitVec.toInt_eq_toNat_cond value.toBitVec
  have bound := value.toUInt64.toNat_lt
  split at bits
  · exact bits.symm
  · omega

theorem toNat_shiftLeft_one {word : UInt64} (fits : word.toNat < 2 ^ 63) :
    (word <<< 1).toNat = 2 * word.toNat := by
  rw [UInt64.toNat_shiftLeft, Nat.shiftLeft_eq, Nat.mod_eq_of_lt]
  · exact Nat.mul_comm _ _
  · change word.toNat * 2 < 2 ^ 64
    omega

theorem ofWord_two_mul (magnitude : Nat) : ofWord (2 * magnitude) = magnitude := by
  have even : ¬ 2 * magnitude % 2 = 1 := by omega
  rw [ofWord, if_neg even, Nat.mul_div_cancel_left magnitude (by decide)]

theorem ofWord_two_mul_add_one (magnitude : Nat) : ofWord (2 * magnitude + 1) = -magnitude := by
  have odd : (2 * magnitude + 1) % 2 = 1 := by omega
  have half : (2 * magnitude + 1) / 2 = magnitude := by omega
  rw [ofWord, if_pos odd, half]

/-- The word of a number stands for it, unless its magnitude cannot be doubled. -/
theorem ofWord_signedWord (notLeast : value ≠ Int64.minValue) :
    ofWord (signedWord value).toNat = value.toInt := by
  have above : -2 ^ 63 < value.toInt := by
    apply lt_of_le_of_ne (Int64.le_toInt value)
    intro least
    exact notLeast (Int64.toInt_inj.mp (least.symm.trans Int64.toInt_minValue.symm))
  have below := Int64.toInt_lt value
  by_cases negative : value.toInt < 0
  · have isNegative : value < 0 := Int64.lt_iff_toInt_lt.mpr negative
    have fits : value.toInt.natAbs < 2 ^ 63 := by omega
    have magnitude : value.toInt.natAbs.toUInt64.toNat = value.toInt.natAbs :=
      UInt64.toNat_ofNat_of_lt' (Nat.lt_trans fits (by decide))
    have word : (signedWord value).toNat = 2 * value.toInt.natAbs + 1 := by
      rw [signedWord, if_pos isNegative, UInt64.toNat_or, toNat_shiftLeft_one (by omega),
        magnitude]
      exact (Nat.two_pow_add_eq_or_of_lt (i := 1) (by decide) _).symm
    rw [word, ofWord_two_mul_add_one]
    omega
  · have notNegative : ¬ value < 0 := fun less => negative (Int64.lt_iff_toInt_lt.mp less)
    have same := toNat_toUInt64_of_nonneg (Int.not_lt.mp negative)
    have word : (signedWord value).toNat = 2 * value.toUInt64.toNat := by
      rw [signedWord, if_neg notNegative, toNat_shiftLeft_one (by omega)]
    rw [word, ofWord_two_mul, same]

theorem rounds_signedWord (value : Int64) :
    Rounds (signedWord value).toNat (digits maxDigits (signedWord value).toNat) :=
  rounds_digits (Nat.lt_trans (signedWord value).toNat_lt (by norm_num))

theorem decodeFrom_encode (notLeast : value ≠ Int64.minValue) (rest : List Char) :
    decodeFrom 0 0 ((encode value).toList ++ rest) =
      (decodeFrom 0 0 rest).map (value.toInt :: ·) := by
  rw [encode, String.toList_ofList, (rounds_signedWord value).decodeFrom, Nat.pow_zero, Nat.mul_one,
    Nat.zero_add, ofWord_signedWord notLeast]

theorem mem_alphabet_of_mem_encode {c : Char} (mem : c ∈ (encode value).toList) :
    c ∈ alphabet := by
  rw [encode, String.toList_ofList] at mem
  obtain ⟨digit, -, rfl⟩ := List.mem_map.mp mem
  exact digitChar_mem_alphabet digit

/-- Numbers that are written one behind the other, none of them the least one, are read back.  For
every number, the least one included, writing ends with the last round, and all digits have six
bits. -/
theorem decode_join_encode (values : List Int64) (notLeast : Int64.minValue ∉ values) :
    decode (String.join (values.map encode)) = some (values.map Int64.toInt) ∧
      ∀ value : Int64, let written := digits maxDigits (signedWord value).toNat
        Rounds (signedWord value).toNat written ∧ ∀ digit ∈ written, digit < 64 := by
  constructor
  · rw [decode, String.toList_join]
    induction values with
    | nil => rfl
    | cons value rest ih =>
      have others := ih fun mem => notLeast (List.mem_cons_of_mem value mem)
      have first : value ≠ Int64.minValue := fun same => notLeast (same ▸ List.mem_cons_self)
      simp only [List.map_cons, List.flatMap_cons]
      rw [decodeFrom_encode first, others]
      rfl
  · intro value
    exact ⟨rounds_signedWord value, fun _ => (rounds_signedWord value).lt_of_mem⟩

/-- The greatest number and its negative are read back, between smaller ones.  The least number has
one digit only, since its magnitude is lost. -/
theorem decode_join_encode_extremes :
    Int64.minValue ∉ [0, Int64.maxValue, -Int64.maxValue, 16] ∧
      decode (String.join ([0, Int64.maxValue, -Int64.maxValue, 16].map encode)) =
        some [0, 2 ^ 63 - 1, -(2 ^ 63 - 1), 16] ∧
      Rounds 1 (digits maxDigits (signedWord Int64.minValue).toNat) := by
  have notLeast : Int64.minValue ∉ [0, Int64.maxValue, -Int64.maxValue, 16] := by decide
  have both := decode_join_encode _ notLeast
  exact ⟨notLeast, both.1, (both.2 Int64.minValue).1⟩

end MacroScript.Vlq
