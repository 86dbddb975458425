import SmartHospital.Json.Scanning

/-! A spelled string is found by the tokens and decoded to its text, in UTF-8. -/
namespace SmartHospital.Json

/-- A leading byte or a continuation: marker bits over the low bits of a code point. -/
theorem marked_byte (i a n : Nat) : (2 ^ i * a) ||| ((2 ^ i - 1) &&& n) = n % 2 ^ i + 2 ^ i * a := by
  rw [Nat.and_comm,Nat.and_two_pow_sub_one_eq_mod,← Nat.two_pow_add_eq_or_of_lt (Nat.mod_lt n (Nat.two_pow_pos i)),
    Nat.add_comm]

theorem toNat_le (ch : Char) : ch.toNat ≤ 0x10FFFF := by
  have valid := ch.valid
  have value : ch.toNat = ch.val.toNat := rfl
  unfold UInt32.isValidChar Nat.isValidChar at valid
  omega

/-- The encoder of the reader is UTF-8. -/
theorem codePointToUTF8_char (ch : Char) : codePointToUTF8 ch.toNat = String.utf8EncodeChar ch := by
  have most := toNat_le ch
  have two := marked_byte 5 6 (ch.toNat >>> 6)
  have three := marked_byte 4 14 (ch.toNat >>> 12)
  have four := marked_byte 3 30 (ch.toNat >>> 18)
  have next (n : Nat) := marked_byte 6 2 n
  simp only [Nat.shiftRight_eq_div_pow,Nat.reducePow,Nat.reduceMul,Nat.reduceSub] at two three four next
  unfold codePointToUTF8 String.utf8EncodeChar
  simp only [Nat.shiftRight_eq_div_pow,Nat.reducePow,two,three,four,next,if_pos most]
  rfl

theorem codePointToUTF8_half {half : Nat} (least : 0xDC00 ≤ half) (most : half ≤ 0xDFFF) :
    codePointToUTF8 half = halfBytes half := by
  have three := marked_byte 4 14 (half >>> 12)
  have next (n : Nat) := marked_byte 6 2 n
  simp only [Nat.shiftRight_eq_div_pow,Nat.reducePow,Nat.reduceMul,Nat.reduceSub] at three next
  have top : half / 4096 % 16 = 13 := by omega
  unfold codePointToUTF8
  rw [if_neg (by omega),if_neg (by omega),if_pos (by omega)]
  simp only [Nat.shiftRight_eq_div_pow,Nat.reducePow,three,next,top,halfBytes,Nat.add_comm 128]
  rfl

theorem HexDigit.plain {c : UInt8} {digit : Nat} (hex : HexDigit c digit) : c ≠ quote ∧ c ≠ backslash := by
  constructor
  all_goals
    rintro rfl
    unfold HexDigit at hex
    simp [quote,backslash] at hex
    omega

theorem hexDigit?_eq {c : UInt8} {digit : Nat} (hex : HexDigit c digit) : hexDigit? c = some digit := by
  unfold HexDigit at hex
  unfold hexDigit?
  simp only [UInt8.le_iff_toNat_le,UInt8.reduceToNat]
  rcases hex with ⟨few,code⟩ | ⟨many,few,lower | upper⟩
  · rw [if_pos (by omega)]
    congr 1
    omega
  · rw [if_neg (by omega),if_pos (by omega)]
    congr 1
    omega
  · rw [if_neg (by omega),if_neg (by omega),if_pos (by omega)]
    congr 1
    omega

theorem decodeUnicodeEscapeSequence_hex (limit : Bytes) {hex : Bytes} {unicode : Nat} (digits : Hex4 hex unicode)
    (rest : Bytes) : decodeUnicodeEscapeSequence limit (hex ++ rest) = .ok (unicode, rest) := by
  obtain ⟨one,two,three,four⟩ := digits
  have enough (n : Nat) : ¬ (n + 1 + 1 + 1 + 1 < 4) := by omega
  simp [decodeUnicodeEscapeSequence,hexDigits,getNextChar,hexDigit?_eq one,hexDigit?_eq two,hexDigit?_eq three,
    hexDigit?_eq four,enough]

theorem Hex4.length {hex : Bytes} {unicode : Nat} (digits : Hex4 hex unicode) : hex.length = 4 := by
  cases digits
  rfl

theorem readString_hex {hex : Bytes} {unicode : Nat} (digits : Hex4 hex unicode) (rest : Bytes) :
    readString (hex ++ rest) = readString rest := by
  obtain ⟨one,two,three,four⟩ := digits
  simp only [List.cons_append,List.nil_append]
  rw [readString_plain one.plain.2 one.plain.1,readString_plain two.plain.2 two.plain.1,
    readString_plain three.plain.2 three.plain.1,readString_plain four.plain.2 four.plain.1]

section

variable {limit text body rest : Bytes}

/-- A text without quotes and backslashes stands for itself. -/
theorem quoted_plain (plain : ∀ c ∈ text, c ≠ quote ∧ c ≠ backslash) : Quoted text text := by
  induction text with
  | nil => exact .nil
  | cons c text ih =>
    obtain ⟨notQuote,notBackslash⟩ := plain c (List.mem_cons_self ..)
    exact .plain notQuote notBackslash (ih fun d member => plain d (List.mem_cons_of_mem c member))

/-- The end of a spelled string is found. -/
theorem readString_quoted (quoted : Quoted text body) (rest : Bytes) :
    readString (body ++ quote :: rest) = (true, rest) := by
  induction quoted with
  | nil => exact readString_quote rest
  | plain notQuote notBackslash _ ih => rw [List.cons_append,readString_plain notBackslash notQuote,ih]
  | escape _ _ ih => rw [List.cons_append,List.cons_append,readString_escape,ih]
  | unicode _ digits _ ih =>
    rw [List.cons_append,List.cons_append,List.cons_append,List.cons_append,List.append_assoc,readString_escape,
      readString_hex digits,ih]
  | half _ _ digits _ ih =>
    rw [List.cons_append,List.cons_append,List.cons_append,List.cons_append,List.append_assoc,readString_escape,
      readString_hex digits,ih]
  | pair _ first second _ _ ih =>
    simp only [List.cons_append,List.append_assoc]
    rw [readString_escape,readString_hex first,readString_escape,readString_hex second,ih]

theorem escapes_known {letter c : UInt8} (known : (letter, c) ∈ escapes) :
    letter ≠ 117 ∧ escaped? letter = some c := by
  simp only [escapes,List.mem_cons,List.not_mem_nil,or_false,Prod.mk.injEq] at known
  rcases known with ⟨rfl,rfl⟩ | ⟨rfl,rfl⟩ | ⟨rfl,rfl⟩ | ⟨rfl,rfl⟩ | ⟨rfl,rfl⟩ | ⟨rfl,rfl⟩ | ⟨rfl,rfl⟩ | ⟨rfl,rfl⟩
  all_goals exact ⟨by decide,by decide⟩

/-- No character stands among the surrogates. -/
theorem not_surrogate (ch : Char) : ¬ (0xD800 ≤ ch.toNat ∧ ch.toNat ≤ 0xDBFF) := by
  have valid := ch.valid
  have value : ch.toNat = ch.val.toNat := rfl
  unfold UInt32.isValidChar Nat.isValidChar at valid
  omega

theorem decodeUnicodeCodePoint_basic (limit : Bytes) {unicode : Nat} (single : ¬ (0xD800 ≤ unicode ∧ unicode ≤ 0xDBFF))
    {hex : Bytes} (digits : Hex4 hex unicode) (rest : Bytes) :
    decodeUnicodeCodePoint limit (hex ++ rest) = .ok (unicode, rest) := by
  simp only [decodeUnicodeCodePoint,decodeUnicodeEscapeSequence_hex limit digits rest,if_neg single]

theorem secondHalf_low (unicode : Nat) {low : Bytes} {surrogatePair : Nat} (second : Hex4 low surrogatePair)
    (rest : Bytes) : secondHalf limit unicode (backslash :: 117 :: (low ++ rest)) =
      .ok (0x10000 + ((unicode &&& 0x3FF) <<< 10) + (surrogatePair &&& 0x3FF), rest) := by
  have long : ¬ (backslash :: 117 :: (low ++ rest)).length < 6 := by
    simp only [List.length_cons,List.length_append,second.length]
    omega
  unfold secondHalf
  rw [if_neg long]
  simp only [getNextChar,if_true,decodeUnicodeEscapeSequence_hex limit second]
  rfl

/-- The two halves of a pair make one number, whatever stands above the low bits of the second. -/
theorem pair_value {v half : Nat} (low : 0x10000 ≤ v) (high : v ≤ 0x10FFFF)
    (bits : half % 0x400 = (v - 0x10000) % 0x400) :
    0x10000 + (((0xD800 + (v - 0x10000) / 0x400) &&& 0x3FF) <<< 10) + (half &&& 0x3FF) = v := by
  have ten (n : Nat) : n &&& 0x3FF = n % 0x400 := Nat.and_two_pow_sub_one_eq_mod n 10
  rw [ten,ten,Nat.shiftLeft_eq,bits]
  omega

theorem decodeUnicodeCodePoint_pair (limit : Bytes) (ch : Char) (extended : 0x10000 ≤ ch.toNat) {high low : Bytes}
    {half : Nat} (first : Hex4 high (0xD800 + (ch.toNat - 0x10000) / 0x400)) (second : Hex4 low half)
    (bits : half % 0x400 = (ch.toNat - 0x10000) % 0x400) (rest : Bytes) :
    decodeUnicodeCodePoint limit (high ++ backslash :: 117 :: (low ++ rest)) = .ok (ch.toNat, rest) := by
  have most := toNat_le ch
  have lead : 0xD800 ≤ 0xD800 + (ch.toNat - 0x10000) / 0x400 ∧ 0xD800 + (ch.toNat - 0x10000) / 0x400 ≤ 0xDBFF := by
    omega
  rw [decodeUnicodeCodePoint,decodeUnicodeEscapeSequence_hex limit first]
  simp only
  rw [if_pos lead,secondHalf_low _ second,pair_value extended most bits]

theorem stringLoop_again {current decoded : Bytes} {next : Bytes × Bytes}
    (turn : stringTurn limit (current, decoded) = .again next) :
    (stringLoop limit).run (current, decoded) = (stringLoop limit).run next :=
  Loop.run_again turn

theorem stringTurn_unicode {current : Bytes} {unicode : Nat}
    (point : decodeUnicodeCodePoint limit current = .ok (unicode, rest)) (decoded : Bytes) : stringTurn limit (backslash :: 117 :: current, decoded) =
      .again (rest, decoded ++ codePointToUTF8 unicode) := by
  have notQuote : backslash ≠ quote := by decide
  rw [stringTurn,if_neg notQuote,if_pos rfl,escapeTurn,if_pos rfl,point]

/-- A spelled string is decoded to its text. -/
theorem stringLoop_quoted (quoted : Quoted text body) (decoded : Bytes) :
    (stringLoop limit).run (body, decoded) = .ok (decoded ++ text) := by
  induction quoted generalizing decoded with
  | nil => rw [List.append_nil]; exact Loop.run_leave rfl
  | @plain c text body notQuote notBackslash _ ih =>
    have turn : stringTurn limit (c :: body, decoded) = .again (body, decoded ++ [c]) := by
      rw [stringTurn,if_neg notQuote,if_neg notBackslash]
    rw [stringLoop_again turn,ih,List.append_assoc,List.singleton_append]
  | @escape letter c text body known _ ih =>
    obtain ⟨notUnicode,one⟩ := escapes_known known
    have notQuote : backslash ≠ quote := by decide
    have turn : stringTurn limit (backslash :: letter :: body, decoded) = .again (body, decoded ++ [c]) := by
      rw [stringTurn,if_neg notQuote,if_pos rfl,escapeTurn,if_neg notUnicode,one]
    rw [stringLoop_again turn,ih,List.append_assoc,List.singleton_append]
  | @unicode hex text body ch _ digits _ ih =>
    have turn := stringTurn_unicode (decodeUnicodeCodePoint_basic limit (not_surrogate ch) digits body) decoded
    rw [List.cons_append,List.cons_append,stringLoop_again turn,ih,codePointToUTF8_char,List.append_assoc]
  | @pair high low half text body ch extended first second bits _ ih =>
    have turn := stringTurn_unicode (decodeUnicodeCodePoint_pair limit ch extended first second bits body) decoded
    rw [stringLoop_again turn,ih,codePointToUTF8_char,List.append_assoc]
  | @half half hex text body least most digits _ ih =>
    have turn := stringTurn_unicode (decodeUnicodeCodePoint_basic limit (by omega) digits body) decoded
    rw [List.cons_append,List.cons_append,stringLoop_again turn,ih,codePointToUTF8_half least most,List.append_assoc]

theorem readToken_quoted (quoted : Quoted text body) (rest : Bytes) :
    (readToken (quote :: body ++ quote :: rest)).Is .string (quote :: body ++ [quote]) rest := by
  have scanned : tokenAt quote (body ++ quote :: rest) = (.string, rest) := by
    have same : tokenAt quote (body ++ quote :: rest) = ending .string (readString (body ++ quote :: rest)) := rfl
    rw [same,readString_quoted quoted]
    rfl
  exact readToken_at rfl scanned (by simp)

theorem decodeString_quoted (quoted : Quoted text body) {token : Token}
    (known : token.Is .string (quote :: body ++ [quote]) rest) : decodeString token = .ok text := by
  have inner : token.text.tail.dropLast = body := by simp [text_of_is known]
  rw [decodeString,inner]
  exact stringLoop_quoted quoted []

end

end SmartHospital.Json
