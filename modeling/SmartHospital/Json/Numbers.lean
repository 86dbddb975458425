import SmartHospital.Json.Scanning

/-! A spelled number is read to its end, and an integer exactly or not as an integer. -/
namespace SmartHospital.Json

/-- The number with more digits behind it. -/
def valueFrom (value : Nat) (text : Bytes) : Nat := text.foldl (fun acc d => 10 * acc + (d.toNat - 48)) value

theorem valueFrom_cons (value : Nat) (c : UInt8) (text : Bytes) :
    valueFrom value (c :: text) = valueFrom (10 * value + (c.toNat - 48)) text := by
  rw [valueFrom,valueFrom,List.foldl_cons]

theorem le_valueFrom (value : Nat) (text : Bytes) : value ≤ valueFrom value text := by
  induction text generalizing value with
  | nil => exact le_rfl
  | cons c text ih =>
    have next := ih (10 * value + (c.toNat - 48))
    rw [valueFrom_cons]
    omega

/-- One more digit than the first. -/
theorem ten_mul_le_valueFrom {text : Bytes} (more : text ≠ []) (value : Nat) : 10 * value ≤ valueFrom value text := by
  obtain ⟨c,rest,rfl⟩ := List.exists_cons_of_ne_nil more
  have next := le_valueFrom (10 * value + (c.toNat - 48)) rest
  rw [valueFrom_cons]
  omega

/-- The loop finds the number if it keeps within the limit, and nothing otherwise: the
64-bit arithmetic never wraps. -/
theorem magnitude_eq {text : Bytes} (digits : Digits text) (limit value : Nat) (tens : 10 ≤ limit)
    (most : limit ≤ maxLargestUInt) (within : value ≤ limit) :
    magnitude (limit / 10) (limit % 10) value text =
      if valueFrom value text ≤ limit then some (valueFrom value text) else none := by
  induction text generalizing value with
  | nil => exact (if_pos within).symm
  | cons c text ih =>
    have isDigit : Decimal.isDigit c = true := digits c (List.mem_cons_self ..)
    have range := Decimal.digit_range isDigit
    have rest : Digits text := fun d member => digits d (List.mem_cons_of_mem c member)
    have notFalse : ¬ Decimal.isDigit c = false := by simp [isDigit]
    rw [magnitude,if_neg notFalse,valueFrom_cons]
    dsimp only
    split
    · rename_i beyond
      -- what was read so far is past the limit, or will be with the next digit
      have least := le_valueFrom (10 * value + (c.toNat - 48)) text
      have past : limit < valueFrom (10 * value + (c.toNat - 48)) text := by
        rcases beyond with ⟨reached,above | more | large⟩
        · omega
        · have next := ten_mul_le_valueFrom more (10 * value + (c.toNat - 48))
          omega
        · omega
      exact (if_neg (by omega)).symm
    · rename_i fits
      have next : 10 * value + (c.toNat - 48) ≤ limit := by
        by_contra above
        refine fits ⟨by omega,?_⟩
        by_cases more : text = []
        · right
          right
          have whole := Nat.div_add_mod limit 10
          by_contra small
          have below : ¬ limit / 10 < value := fun above => fits ⟨by omega,.inl above⟩
          omega
        · exact .inr (.inl more)
      have same : (value * 10 + (c.toNat - 48)) % 2 ^ 64 = 10 * value + (c.toNat - 48) := by
        unfold maxLargestUInt at most
        rw [Nat.mod_eq_of_lt (by omega)]
        omega
      rw [same,ih rest _ next]

variable {floating : Floating}

theorem Digits.not_minus {text : Bytes} (digits : Digits text) : (text.head? == some minus) = false := by
  cases text with
  | nil => rfl
  | cons c text =>
    have range := Decimal.digit_range (digits c (List.mem_cons_self ..))
    have different : c ≠ minus := by
      rintro rfl
      simp [minus] at range
    simpa using different

/-- The value an integer is stored as. -/
def integer (z : Int) : Value floating := if z ≤ maxLargestInt then .int z else .uint z.toNat

/-- The integer with a sign in front of its digits. -/
def signed (negative : Bool) (text : Bytes) : Bytes := if negative = true then minus :: text else text

def signedValue (negative : Bool) (text : Bytes) : Int :=
  if negative = true then -(Decimal.value text : Int) else Decimal.value text

/-- Every integer from the least of 64 bits to the greatest without a sign is read as
itself; any other is left to the reading of a double. -/
theorem decodeNumber_exact {text : Bytes} (digits : Digits text) (negative : Bool) :
    (decodeNumber (signed negative text) : Except Problem (Value floating)) =
      if -(minLargestMagnitude : Int) ≤ signedValue negative text ∧ signedValue negative text ≤ maxLargestUInt then
        .ok (integer (signedValue negative text))
      else decodeDouble (signed negative text) := by
  cases negative with
  | true =>
    have found := magnitude_eq digits minLargestMagnitude 0 (by decide) (by decide) (by decide)
    have first : ((signed true text).head? == some minus) = true := rfl
    have tail : (signed true text).tail = text := rfl
    have whole : valueFrom 0 text = Decimal.value text := rfl
    have number : signedValue true text = -(Decimal.value text : Int) := rfl
    rw [whole] at found
    simp only [decodeNumber,first,if_true,tail,found,number]
    by_cases fits : Decimal.value text ≤ minLargestMagnitude
    · have low : -(minLargestMagnitude : Int) ≤ -(Decimal.value text : Int) ∧
        -(Decimal.value text : Int) ≤ maxLargestUInt := ⟨by omega,by unfold maxLargestUInt; omega⟩
      have small : -(Decimal.value text : Int) ≤ maxLargestInt := by unfold maxLargestInt; omega
      rw [if_pos fits,if_pos low,integer,if_pos small]
      have parts : -((Decimal.value text / 10 : Nat) : Int) * 10 - ((Decimal.value text % 10 : Nat) : Int) =
        -(Decimal.value text : Int) := by omega
      simp only [parts]
    · rw [if_neg fits,if_neg (by omega)]
  | false =>
    have found := magnitude_eq digits maxLargestUInt 0 (by decide) le_rfl (Nat.zero_le _)
    have first : ((signed false text).head? == some minus) = false := digits.not_minus
    have whole : valueFrom 0 text = Decimal.value text := rfl
    have number : signedValue false text = Decimal.value text := rfl
    have same : signed false text = text := rfl
    rw [whole] at found
    rw [same] at first
    simp only [decodeNumber,same,first,Bool.false_eq_true,if_false,found,number]
    by_cases fits : Decimal.value text ≤ maxLargestUInt
    · rw [if_pos fits,if_pos (by omega),integer]
      simp only [Nat.cast_le,Int.toNat_natCast]
      exact (apply_ite Except.ok _ _ _).symm
    · rw [if_neg fits,if_neg (by omega)]

/-- The least integer of 64 bits. -/
theorem least_exact : (decodeNumber (Bytes.ofString "-9223372036854775808") : Except Problem (Value noDoubles)) =
    .ok (.int (-9223372036854775808)) := by
  have digits : Digits (Bytes.ofString "9223372036854775808") := List.all_eq_true.mp rfl
  exact decodeNumber_exact digits true

/-- Nothing else is a digit. -/
theorem digit_ne {c d : UInt8} (isDigit : Decimal.isDigit c = true) (other : Decimal.isDigit d = false) : c ≠ d := by
  rintro rfl
  simp [isDigit] at other

theorem digit_unmarked {c : UInt8} (isDigit : Decimal.isDigit c = true) : mark? c = none := by
  have other (d : UInt8) (no : Decimal.isDigit d = false) : ¬ c = d := digit_ne isDigit no
  simp only [mark?,other openBrace rfl,other closeBrace rfl,other openBracket rfl,other closeBracket rfl,
    other comma rfl,other colon rfl,other 0 rfl,if_false]

theorem digit_visible {c : UInt8} (isDigit : Decimal.isDigit c = true) : isSpace c = false := by
  have other (d : UInt8) (no : Decimal.isDigit d = false) : c ≠ d := digit_ne isDigit no
  simp [isSpace,other 32 rfl,other 9 rfl,other carriageReturn rfl,other lineFeed rfl]

section

variable {text rest behind : Bytes}

theorem skipDigits_append (digits : Digits text) (stop : ∀ c ∈ rest.head?, Decimal.isDigit c = false) :
    skipDigits (text ++ rest) = rest := by
  rw [skipDigits,List.dropWhile_append_of_pos digits]
  cases rest with
  | nil => rfl
  | cons c rest => exact List.dropWhile_cons_of_neg (by simp [stop c rfl])

theorem Stops.not_digit (stops : Stops rest) : ∀ c ∈ rest.head?, Decimal.isDigit c = false := by
  intro c first
  have quiet := stops c first
  simp only [continues,Bool.or_eq_false_iff] at quiet
  exact quiet.1.1.1.1.1.2

theorem exponent_append (exponential : Exponent text) (stops : Stops rest) : exponent (text ++ rest) = rest := by
  cases exponential with
  | none =>
    cases rest with
    | nil => rfl
    | cons c rest =>
      have quiet := stops c rfl
      simp only [continues,Bool.or_eq_false_iff,beq_eq_false_iff_ne] at quiet
      have noLetter : ¬ (c = 101 ∨ c = 69) := by
        rintro (letter | letter)
        · exact quiet.1.1.1.2 letter
        · exact quiet.1.1.2 letter
      rw [List.nil_append,exponent.eq_def]
      exact if_neg noLetter
  | @unsigned c text letter digits =>
    rw [List.cons_append,exponent.eq_def]
    simp only [if_pos letter]
    split
    · rename_i atEnd
      exact (List.append_eq_nil_iff.mp atEnd).2.symm
    · rename_i s others split
      have noSign : ¬ (s = plus ∨ s = minus) := by
        cases text with
        | nil =>
          have quiet := stops s (by rw [← List.nil_append rest,split]; rfl)
          simp only [continues,Bool.or_eq_false_iff,beq_eq_false_iff_ne] at quiet
          rintro (sign | sign)
          · exact quiet.1.2 sign
          · exact quiet.2 sign
        | cons d text =>
          have isDigit : Decimal.isDigit d = true := digits d (List.mem_cons_self ..)
          obtain ⟨rfl,_⟩ := List.cons.inj split
          rintro (sign | sign)
          · exact digit_ne isDigit (by rfl) sign
          · exact digit_ne isDigit (by rfl) sign
      rw [if_neg noSign,← split]
      exact skipDigits_append digits stops.not_digit
  | @signed c s text letter sign digits =>
    rw [List.cons_append,List.cons_append,exponent.eq_def]
    simp only [if_pos letter,if_pos sign]
    exact skipDigits_append digits stops.not_digit

/-- The exponent, or what stands behind the number, goes on with neither digits nor a
fraction, and is not taken for infinity. -/
theorem exponent_head (exponential : Exponent text) (stops : Stops rest) :
    ∀ c ∈ (text ++ rest).head?, (c ≠ 73 ∧ Decimal.isDigit c = false) ∧ c ≠ dot := by
  intro c first
  cases exponential with
  | none =>
    have quiet := stops c first
    simp only [continues,Bool.or_eq_false_iff,beq_eq_false_iff_ne] at quiet
    exact ⟨quiet.1.1.1.1.1,quiet.1.1.1.1.2⟩
  | unsigned letter digits =>
    cases first
    rcases letter with rfl | rfl <;> decide
  | signed letter sign digits =>
    cases first
    rcases letter with rfl | rfl <;> decide

theorem fraction_append (fractional : Fraction text)
    (stop : ∀ c ∈ rest.head?, (c ≠ 73 ∧ Decimal.isDigit c = false) ∧ c ≠ dot) : fraction (text ++ rest) = rest := by
  cases fractional with
  | none =>
    cases rest with
    | nil => rfl
    | cons c rest => exact if_neg (stop c rfl).2
  | some digits =>
    rw [List.cons_append,fraction,if_pos rfl]
    exact skipDigits_append digits fun c first => (stop c first).1.2

theorem fraction_head (fractional : Fraction text)
    (stop : ∀ c ∈ rest.head?, (c ≠ 73 ∧ Decimal.isDigit c = false) ∧ c ≠ dot) :
    ∀ c ∈ (text ++ rest).head?, c ≠ 73 ∧ Decimal.isDigit c = false := by
  intro c first
  cases fractional with
  | none => exact (stop c first).1
  | some digits =>
    cases first
    decide

theorem tokenAt_digit {c : UInt8} {current : Bytes} (isDigit : Decimal.isDigit c = true)
    (read : readNumber false current = (true, rest)) : tokenAt c current = (.number, rest) := by
  have notQuote : ¬ c = quote := digit_ne isDigit rfl
  have notSlash : ¬ c = slash := digit_ne isDigit rfl
  simp only [tokenAt,digit_unmarked isDigit,if_neg notQuote,if_neg notSlash,if_pos isDigit,read]

theorem tokenAt_sign {c : UInt8} {current : Bytes} (isSign : c = plus ∨ c = minus)
    (read : readNumber true current = (true, rest)) : tokenAt c current = (.number, rest) := by
  have scanned : tokenAt c current = ending .number (readNumber true current) := by
    rcases isSign with rfl | rfl <;> rfl
  rw [scanned,read]
  rfl

/-- Behind its first character, a number is read to its end. -/
theorem readNumber_parts {integral fraction' exponent' : Bytes} (digits : Digits integral)
    (fractional : Fraction fraction') (exponential : Exponent exponent') (stops : Stops rest) (checkInf : Bool) :
    readNumber checkInf (integral ++ (fraction' ++ (exponent' ++ rest))) = (true, rest) := by
  have stop := exponent_head exponential stops
  have behind := fraction_head fractional stop
  have finite : ¬ (checkInf = true ∧ (integral ++ (fraction' ++ (exponent' ++ rest))).head? = some 73) := by
    rintro ⟨_,first⟩
    cases integral with
    | nil => exact (behind 73 first).1 rfl
    | cons d integral =>
      have isDigit : Decimal.isDigit d = true := digits d (List.mem_cons_self ..)
      exact digit_ne isDigit (d := 73) rfl (Option.some.inj first)
  rw [readNumber,if_neg finite,skipDigits_append digits fun c first => (behind c first).2,
    fraction_append fractional stop,exponent_append exponential stops]

/-- A number is read to its end. -/
theorem readToken_numeral (numeral : Numeral text) (stops : Stops rest) :
    (readToken (text ++ rest)).Is .number text rest := by
  obtain ⟨sign,integral,fraction',exponent',rfl,oneSign,digits,nonempty,fractional,exponential⟩ := numeral
  have signed (c : UInt8) (isSign : c = plus ∨ c = minus) :
      (readToken (c :: (integral ++ (fraction' ++ (exponent' ++ rest))))).Is .number
        (c :: integral ++ fraction' ++ exponent') rest := by
    have read := readNumber_parts digits fractional exponential stops true
    have visible : isSpace c = false := by rcases isSign with rfl | rfl <;> rfl
    exact readToken_at visible (tokenAt_sign isSign read) (by simp)
  rcases oneSign with rfl | rfl | rfl
  · obtain ⟨d,more,rfl⟩ := List.exists_cons_of_ne_nil (nonempty.resolve_left fun none => none rfl)
    have isDigit : Decimal.isDigit d = true := digits d (List.mem_cons_self ..)
    have others : Digits more := fun c member => digits c (List.mem_cons_of_mem d member)
    have read := readNumber_parts others fractional exponential stops false
    have whole : d :: (more ++ (fraction' ++ (exponent' ++ rest))) = d :: more ++ fraction' ++ exponent' ++ rest := by
      simp
    have token := readToken_at (digit_visible isDigit) (tokenAt_digit isDigit read) whole
    simpa using token
  · simpa using signed plus (.inl rfl)
  · simpa using signed minus (.inr rfl)

end

end SmartHospital.Json
