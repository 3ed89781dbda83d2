import Mathlib.Data.Nat.Digits.Lemmas

/-!
The number routines of `ScopedString`: the characters that they append, which are the digits of the
number with its sign, filled up to a least length.
-/

namespace Scudo.ScopedString

def maxLen : Nat := 30

/-- The loop that fills `NumBuffer`, here with `Pos` elements, lowest digit first. A write behind the
buffer fails its check. -/
def digitLoop (base absoluteValue : Nat) (numBuffer : List Nat) : Option (List Nat) :=
  if numBuffer.length < maxLen then
    let numBuffer' := numBuffer ++ [absoluteValue % base]
    if absoluteValue / base > 0 then digitLoop base (absoluteValue / base) numBuffer' else some numBuffer'
  else none
termination_by maxLen - numBuffer.length
decreasing_by
  rw [List.length_append, List.length_singleton]
  omega

/-- The `memset` behind the digits. -/
def padBuffer (minNumberLength : Nat) (numBuffer : List Nat) : List Nat :=
  if numBuffer.length < minNumberLength then
    numBuffer ++ List.replicate (minNumberLength - numBuffer.length) 0
  else numBuffer

/-- The loop over the leading zeros, highest element first: what it pushes, and what is left. -/
def skipZeros (padWithZero : Bool) : List Nat → List Char × List Nat
  | [] => ([], [])
  | digit :: digits =>
    if digit = 0 then
      let c := if padWithZero ∨ digits = [] then '0' else ' '
      let rest := skipZeros padWithZero digits
      (c :: rest.1, rest.2)
    else ([], digit :: digits)

def digitChar (upper : Bool) (digit : Nat) : Char :=
  if digit < 10 then Char.ofNat ('0'.toNat + digit)
  else Char.ofNat ((if upper then 'A'.toNat else 'a'.toNat) + digit - 10)

/-- The characters that `appendNumber` pushes. Where a `RAW_CHECK` fails there are none. -/
def appendNumber (absoluteValue base minNumberLength : Nat) (padWithZero negative upper : Bool) :
    Option (List Char) :=
  if ¬(base = 10 ∨ base = 16) then none
  else if ¬(base = 10 ∨ negative = false) then none
  else if ¬(absoluteValue ≠ 0 ∨ negative = false) then none
  else if ¬minNumberLength < maxLen then none
  else
    let minNumberLength :=
      if negative ∧ minNumberLength ≠ 0 then minNumberLength - 1 else minNumberLength
    let first := if negative ∧ padWithZero then ['-'] else []
    match digitLoop base absoluteValue [] with
    | none => none
    | some numBuffer =>
      let zeros := skipZeros padWithZero (padBuffer minNumberLength numBuffer).reverse
      let second := if negative ∧ padWithZero = false then ['-'] else []
      some (first ++ zeros.1 ++ second ++ zeros.2.map (digitChar upper))

def appendUnsigned (num base minNumberLength : Nat) (padWithZero upper : Bool) : Option (List Char) :=
  appendNumber num base minNumberLength padWithZero false upper

/-- `INT64_MIN` has no opposite. -/
def appendSignedDecimal (num : Int) (minNumberLength : Nat) (padWithZero : Bool) :
    Option (List Char) :=
  let negative := decide (num < 0)
  let unsignedNum := if num = -2 ^ 63 then (2 ^ 63 - 1 : Nat) + 1
    else (if negative then -num else num).toNat
  appendNumber unsignedNum 10 minNumberLength padWithZero negative false

section Reference

/-- The digits of a number, the lowest one first; zero has one. -/
def digitsOf (base value : Nat) : List Nat := if value = 0 then [0] else Nat.digits base value

/-- The digits, the highest one first. -/
def numeral (upper : Bool) (base value : Nat) : List Char :=
  (digitsOf base value).reverse.map (digitChar upper)

/-- The number as it should be: zeros stand between the sign and the digits, and spaces before the
sign. -/
def rendering (base minNumberLength : Nat) (padWithZero upper negative : Bool) (value : Nat) :
    List Char :=
  let sign := if negative then ['-'] else []
  let digits := numeral upper base value
  let fill := minNumberLength - (sign.length + digits.length)
  if padWithZero then sign ++ List.replicate fill '0' ++ digits
  else List.replicate fill ' ' ++ sign ++ digits

def charValue (c : Char) : Nat :=
  if c.toNat < 'A'.toNat then c.toNat - '0'.toNat
  else if c.toNat < 'a'.toNat then c.toNat - 'A'.toNat + 10
  else c.toNat - 'a'.toNat + 10

/-- Reads digits, the highest one first. -/
def parseDigits (base : Nat) (digits : List Char) : Nat :=
  digits.foldl (fun value c => value * base + charValue c) 0

/-- Reads a number with spaces and a sign before it. -/
def parseNumber (base : Nat) (text : List Char) : Int :=
  match text.dropWhile (· == ' ') with
  | '-' :: digits => -(parseDigits base digits : Int)
  | digits => parseDigits base digits

end Reference

section Digits

variable {base value : Nat}

theorem digitsOf_lt (large : 2 ≤ base) {digit : Nat} (member : digit ∈ digitsOf base value) :
    digit < base := by
  unfold digitsOf at member
  split_ifs at member
  · rw [List.mem_singleton.mp member]
    omega
  · exact Nat.digits_lt_base (by omega) member

theorem digitsOf_step (large : 2 ≤ base) (more : 0 < value / base) :
    digitsOf base value = value % base :: digitsOf base (value / base) := by
  have some_ : value ≠ 0 := by
    rintro rfl
    simp at more
  unfold digitsOf
  rw [if_neg some_, if_neg (by omega), Nat.digits_def' (by omega) (Nat.pos_of_ne_zero some_)]

theorem digitsOf_last (large : 2 ≤ base) (last : value / base = 0) :
    digitsOf base value = [value % base] := by
  unfold digitsOf
  split_ifs with zero
  · rw [zero, Nat.zero_mod]
  · rw [Nat.digits_def' (by omega) (Nat.pos_of_ne_zero zero), last, Nat.digits_zero]

/-- The loop finds all digits, where the buffer has room for them. -/
theorem digitLoop_eq (large : 2 ≤ base) (numBuffer : List Nat)
    (room : numBuffer.length + (digitsOf base value).length ≤ maxLen) :
    digitLoop base value numBuffer = some (numBuffer ++ digitsOf base value) := by
  fun_induction digitLoop base value numBuffer with
  | case1 value numBuffer inside numBuffer' more ih =>
    rw [digitsOf_step large more] at room ⊢
    have append : numBuffer' = numBuffer ++ [value % base] := rfl
    rw [ih (by rw [append, List.length_append]; simp only [List.length_cons, List.length_nil] at *; omega),
      append, List.append_assoc]
    rfl
  | case2 value numBuffer inside numBuffer' last =>
    rw [digitsOf_last large (Nat.eq_zero_of_not_pos last)]
  | case3 value numBuffer full =>
    have some_ : 0 < (digitsOf base value).length := by
      unfold digitsOf
      split_ifs with zero
      · exact Nat.one_pos
      · exact List.length_pos_iff.mpr (Nat.digits_ne_nil_iff_ne_zero.mpr zero)
    omega

/-- The highest digit is not zero, but for that of zero. -/
theorem digitsOf_reverse (base : Nat) {value : Nat} (some_ : value ≠ 0) :
    ∃ digit digits, (digitsOf base value).reverse = digit :: digits ∧ digit ≠ 0 := by
  have digits_ : Nat.digits base value ≠ [] := Nat.digits_ne_nil_iff_ne_zero.mpr some_
  unfold digitsOf
  rw [if_neg some_]
  refine ⟨(Nat.digits base value).getLast digits_, (Nat.digits base value).dropLast.reverse, ?_,
    Nat.getLast_digit_ne_zero base some_⟩
  rw [← List.reverse_concat, List.dropLast_concat_getLast]

theorem digitsOf_length (bases : base = 10 ∨ base = 16) (word : value < 2 ^ 64) :
    (digitsOf base value).length ≤ 20 := by
  unfold digitsOf
  split_ifs with zero
  · decide
  · rcases bases with rfl | rfl
    · exact (Nat.digits_length_le_iff (by decide) value).mpr (by omega)
    · exact (Nat.digits_length_le_iff (by decide) value).mpr (by omega)

end Digits

section Text

variable {base value : Nat} {padWithZero upper : Bool}

def fillChar (padWithZero : Bool) : Char := if padWithZero then '0' else ' '

theorem skipZeros_replicate {digit : Nat} (digits : List Nat) (some_ : digit ≠ 0) (count : Nat) :
    skipZeros padWithZero (List.replicate count 0 ++ digit :: digits) =
      (List.replicate count (fillChar padWithZero), digit :: digits) := by
  induction count with
  | zero => simp [skipZeros, some_]
  | succ count ih =>
    rw [List.replicate_succ, List.cons_append, skipZeros, ih]
    simp [fillChar, List.replicate_succ]

/-- The last zero is pushed as a digit. -/
theorem skipZeros_zero (count : Nat) :
    skipZeros padWithZero (List.replicate count 0 ++ [0]) =
      (List.replicate count (fillChar padWithZero) ++ ['0'], []) := by
  induction count with
  | zero => simp [skipZeros]
  | succ count ih =>
    rw [List.replicate_succ, List.cons_append, skipZeros, ih]
    simp [fillChar, List.replicate_succ]

/-- The buffer, highest element first. -/
theorem padBuffer_reverse (minNumberLength : Nat) (numBuffer : List Nat) :
    (padBuffer minNumberLength numBuffer).reverse =
      List.replicate (minNumberLength - numBuffer.length) 0 ++ numBuffer.reverse := by
  unfold padBuffer
  split_ifs with short
  · rw [List.reverse_append, List.reverse_replicate]
  · rw [Nat.sub_eq_zero_of_le (Nat.le_of_not_lt short), List.replicate_zero, List.nil_append]

theorem padBuffer_length (minNumberLength : Nat) (numBuffer : List Nat) :
    (padBuffer minNumberLength numBuffer).length = max minNumberLength numBuffer.length := by
  unfold padBuffer
  split_ifs with short
  · rw [List.length_append, List.length_replicate]
    omega
  · omega

theorem numeral_length : (numeral upper base value).length = (digitsOf base value).length := by
  unfold numeral
  rw [List.length_map, List.length_reverse]

/-- The digits with what fills them up. A sign can only stand in between where there are digits. -/
theorem skipZeros_numeral (minNumberLength : Nat) :
    ∃ digits, skipZeros padWithZero (padBuffer minNumberLength (digitsOf base value)).reverse =
        (List.replicate (minNumberLength - (numeral upper base value).length) (fillChar padWithZero) ++
          (if value = 0 then ['0'] else []), digits) ∧
      (if value = 0 then ['0'] else []) ++ digits.map (digitChar upper) =
        numeral upper base value ∧ (value ≠ 0 → digits.map (digitChar upper) = numeral upper base value) := by
  rw [padBuffer_reverse, numeral_length]
  by_cases zero : value = 0
  · have one : digitsOf base value = [0] := if_pos zero
    refine ⟨[], ?_, ?_, fun some_ => absurd zero some_⟩
    · rw [one, List.reverse_singleton, skipZeros_zero, if_pos zero]
    · unfold numeral
      rw [one, if_pos zero]
      simp [digitChar]
  · obtain ⟨digit, digits, parts, some_⟩ := digitsOf_reverse base zero
    refine ⟨digit :: digits, ?_, ?_, fun _ => ?_⟩
    · rw [parts, skipZeros_replicate digits some_, if_neg zero, List.append_nil]
    · unfold numeral
      rw [parts, if_neg zero, List.nil_append]
    · unfold numeral
      rw [parts]

theorem appendNumber_eq {negative : Bool} {minNumberLength : Nat} (bases : base = 10 ∨ base = 16)
    (decimal : base = 10 ∨ negative = false) (some_ : value ≠ 0 ∨ negative = false)
    (word : value < 2 ^ 64) (short : minNumberLength < maxLen) :
    appendNumber value base minNumberLength padWithZero negative upper =
      some (rendering base minNumberLength padWithZero upper negative value) := by
  have large : 2 ≤ base := by omega
  have few := digitsOf_length bases word
  have buffer : digitLoop base value [] = some (digitsOf base value) := by
    apply digitLoop_eq large
    rw [List.length_nil]
    unfold maxLen
    omega
  unfold appendNumber rendering
  rw [if_neg (not_not.mpr bases), if_neg (not_not.mpr decimal), if_neg (not_not.mpr some_),
    if_neg (not_not.mpr short), buffer]
  dsimp only
  cases negative with
  | false =>
    obtain ⟨digits, skipped, whole, -⟩ := @skipZeros_numeral base value padWithZero upper minNumberLength
    simp only [Bool.false_eq_true, false_and, if_false, List.nil_append, List.append_nil,
      List.length_nil, Nat.zero_add]
    rw [skipped]
    dsimp only
    rw [List.append_assoc, whole]
    cases padWithZero <;> rfl
  | true =>
    have number : value ≠ 0 := by simpa using some_
    obtain ⟨digits, skipped, -, whole⟩ := @skipZeros_numeral base value padWithZero upper
      (if minNumberLength ≠ 0 then minNumberLength - 1 else minNumberLength)
    have fill : (if minNumberLength ≠ 0 then minNumberLength - 1 else minNumberLength) -
        (numeral upper base value).length =
          minNumberLength - (1 + (numeral upper base value).length) := by
      split_ifs <;> omega
    simp only [true_and, if_true, List.length_singleton]
    rw [skipped, whole number, fill, if_neg number, List.append_nil]
    cases padWithZero <;> simp [fillChar]

end Text

section Parse

variable {base value : Nat} {padWithZero upper negative : Bool}

theorem charValue_digitChar : ∀ digit < 16, charValue (digitChar upper digit) = digit ∧
    digitChar upper digit ≠ ' ' ∧ digitChar upper digit ≠ '-' := by
  cases upper <;> decide

theorem parseDigits_append_zeros (count : Nat) (digits : List Char) :
    parseDigits base (List.replicate count '0' ++ digits) = parseDigits base digits := by
  have zero : charValue '0' = 0 := by decide
  induction count with
  | zero => rfl
  | succ count ih =>
    rw [← ih, List.replicate_succ, List.cons_append]
    unfold parseDigits
    rw [List.foldl_cons, zero, Nat.zero_mul]

/-- Digits are read back. -/
theorem parseDigits_numeral (bases : base = 10 ∨ base = 16) :
    parseDigits base (numeral upper base value) = value := by
  have large : 2 ≤ base := by omega
  have small : ∀ digit ∈ digitsOf base value, digit < 16 := by
    intro digit member
    have lt := digitsOf_lt large member
    omega
  have digits_ : Nat.ofDigits base (digitsOf base value) = value := by
    unfold digitsOf
    split_ifs with zero
    · rw [zero]
      simp
    · exact Nat.ofDigits_digits base value
  have read : ∀ digits : List Nat, (∀ digit ∈ digits, digit < 16) →
      digits.foldr (fun digit value => value * base + charValue (digitChar upper digit)) 0 =
        Nat.ofDigits base digits := by
    intro digits
    induction digits with
    | nil => exact fun _ => rfl
    | cons digit digits ih =>
      intro less
      obtain ⟨first, rest⟩ := List.forall_mem_cons.mp less
      rw [List.foldr_cons, ih rest, (charValue_digitChar digit first).1, Nat.ofDigits_cons]
      ring
  unfold parseDigits numeral
  rw [List.foldl_map, List.foldl_reverse, read _ small, digits_]

theorem dropWhile_spaces (count : Nat) {c : Char} (other : c ≠ ' ') (text : List Char) :
    (List.replicate count ' ' ++ c :: text).dropWhile (· == ' ') = c :: text := by
  induction count with
  | zero => simp [other]
  | succ count ih =>
    rw [List.replicate_succ, List.cons_append, List.dropWhile_cons]
    exact ih

theorem parseNumber_negative (count : Nat) (digits : List Char) :
    parseNumber base (List.replicate count ' ' ++ '-' :: digits) = -(parseDigits base digits : Int) := by
  unfold parseNumber
  rw [dropWhile_spaces count (by decide)]
  rfl

theorem parseNumber_digits (count : Nat) {c : Char} (space : c ≠ ' ') (sign : c ≠ '-')
    (digits : List Char) :
    parseNumber base (List.replicate count ' ' ++ c :: digits) = parseDigits base (c :: digits) := by
  unfold parseNumber
  rw [dropWhile_spaces count space]
  split
  · next same => exact absurd (List.cons.inj same).1 sign
  · rfl

/-- A numeral starts with a digit. -/
theorem numeral_head (bases : base = 10 ∨ base = 16) :
    ∃ c digits, numeral upper base value = c :: digits ∧ c ≠ ' ' ∧ c ≠ '-' := by
  have large : 2 ≤ base := by omega
  have some_ : (digitsOf base value).reverse ≠ [] := by
    rw [List.reverse_ne_nil_iff]
    unfold digitsOf
    split_ifs with zero
    · exact List.cons_ne_nil _ _
    · exact Nat.digits_ne_nil_iff_ne_zero.mpr zero
  obtain ⟨digit, digits, parts⟩ := List.exists_cons_of_ne_nil some_
  have lt : digit < base := by
    apply digitsOf_lt large
    rw [← List.mem_reverse, parts]
    exact List.mem_cons_self
  obtain ⟨-, space, sign⟩ := @charValue_digitChar upper digit (by omega)
  refine ⟨digitChar upper digit, digits.map (digitChar upper), ?_, space, sign⟩
  unfold numeral
  rw [parts, List.map_cons]

/-- The number is read back from its rendering. -/
theorem parseNumber_rendering (bases : base = 10 ∨ base = 16) (minNumberLength : Nat) :
    parseNumber base (rendering base minNumberLength padWithZero upper negative value) =
      if negative then -(value : Int) else value := by
  have whole : parseDigits base (numeral upper base value) = value := parseDigits_numeral bases
  obtain ⟨c, digits, parts, space, sign⟩ := @numeral_head base value upper bases
  unfold rendering
  dsimp only
  cases padWithZero with
  | true =>
    cases negative with
    | true =>
      have text := @parseNumber_negative base 0
      simp only [List.replicate_zero, List.nil_append] at text
      simp only [if_true, List.cons_append, List.nil_append]
      rw [text, parseDigits_append_zeros, whole]
    | false =>
      simp only [Bool.false_eq_true, if_false, if_true, List.nil_append]
      generalize minNumberLength - _ = fill
      have text := fun {c} => @parseNumber_digits base 0 c
      simp only [List.replicate_zero, List.nil_append] at text
      cases fill with
      | zero =>
        rw [List.replicate_zero, List.nil_append, parts, text space sign, ← parts, whole]
      | succ fill =>
        rw [List.replicate_succ, List.cons_append, text (by decide) (by decide), ← List.cons_append,
          ← List.replicate_succ, parseDigits_append_zeros, whole]
  | false =>
    cases negative with
    | true =>
      simp only [Bool.false_eq_true, if_false, if_true, List.append_assoc, List.singleton_append]
      rw [parseNumber_negative, whole]
    | false =>
      simp only [Bool.false_eq_true, if_false, List.append_nil]
      rw [parts, parseNumber_digits _ space sign, ← parts, whole]

end Parse

/-- Every number is appended as it should be and can be read back, and the buffer has room for its
digits and for what fills them up. -/
theorem numbers_exact :
    (∀ value base minNumberLength padWithZero upper, value < 2 ^ 64 → base = 10 ∨ base = 16 →
      minNumberLength < maxLen →
      appendUnsigned value base minNumberLength padWithZero upper =
        some (rendering base minNumberLength padWithZero upper false value)) ∧
    (∀ num : Int, ∀ minNumberLength padWithZero, -2 ^ 63 ≤ num → num < 2 ^ 63 →
      minNumberLength < maxLen →
      appendSignedDecimal num minNumberLength padWithZero =
        some (rendering 10 minNumberLength padWithZero false (decide (num < 0)) num.natAbs)) ∧
    (∀ value base minNumberLength, value < 2 ^ 64 → base = 10 ∨ base = 16 →
      minNumberLength < maxLen → ∃ numBuffer, digitLoop base value [] = some numBuffer ∧
        (padBuffer minNumberLength numBuffer).length ≤ maxLen) ∧
    ∀ value base minNumberLength padWithZero upper negative, base = 10 ∨ base = 16 →
      parseDigits base (numeral upper base value) = value ∧
      parseNumber base (rendering base minNumberLength padWithZero upper negative value) =
        if negative then -(value : Int) else value := by
  refine ⟨?_, ?_, ?_, ?_⟩
  · intro value base minNumberLength padWithZero upper word bases short
    exact appendNumber_eq bases (Or.inr rfl) (Or.inr rfl) word short
  · intro num minNumberLength padWithZero least most short
    have unsigned : (if num = -2 ^ 63 then (2 ^ 63 - 1 : Nat) + 1
        else (if decide (num < 0) then -num else num).toNat) = num.natAbs := by
      split_ifs with lowest negative
      · rw [lowest]
        decide
      · have below : num < 0 := by simpa using negative
        omega
      · have above : ¬num < 0 := by simpa using negative
        omega
    unfold appendSignedDecimal
    dsimp only
    rw [unsigned]
    apply appendNumber_eq (Or.inl rfl) (Or.inl rfl) _ (by omega) short
    by_cases zero : num = 0
    · exact Or.inr (by simp [zero])
    · exact Or.inl (Int.natAbs_ne_zero.mpr zero)
  · intro value base minNumberLength word bases short
    have few := digitsOf_length bases word
    have room : digitLoop base value [] = some (digitsOf base value) := by
      apply digitLoop_eq (by omega)
      rw [List.length_nil]
      unfold maxLen
      omega
    refine ⟨_, room, ?_⟩
    rw [padBuffer_length]
    unfold maxLen at *
    omega
  · intro value base minNumberLength padWithZero upper negative bases
    exact ⟨parseDigits_numeral bases, parseNumber_rendering bases minNumberLength⟩

example : rendering 10 6 true false true 42 = "-00042".toList := by decide

end Scudo.ScopedString
