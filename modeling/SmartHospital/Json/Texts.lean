import SmartHospital.Json.Strings
import SmartHospital.Json.Tokens

/-! What is decoded from the text of a token is spelled by it. -/
namespace SmartHospital.Json

section

variable {limit current rest body : Bytes} {unicode : Nat} {c : UInt8}

theorem hexDigit_of {digit : Nat} (found : hexDigit? c = some digit) : HexDigit c digit := by
  unfold hexDigit? at found
  simp only [UInt8.le_iff_toNat_le,UInt8.reduceToNat] at found
  unfold HexDigit
  split at found
  · cases found
    omega
  split at found
  · cases found
    omega
  split at found
  · cases found
    omega
  · contradiction

theorem hexDigits_succ {index found : Nat} (read : hexDigits limit (index + 1) unicode current = .ok (found, rest)) :
    ∃ c digit behind, current = c :: behind ∧ HexDigit c digit ∧
      hexDigits limit index (unicode * 16 + digit) behind = .ok (found, rest) := by
  rw [hexDigits] at read
  dsimp only at read
  split at read
  · rename_i digit known
    cases current with
    | nil =>
      have none : hexDigit? (getNextChar []).1 = none := rfl
      rw [none] at known
      contradiction
    | cons c behind => exact ⟨c,digit,behind,rfl,hexDigit_of known,read⟩
  · contradiction

theorem decodeUnicodeEscapeSequence_front (read : decodeUnicodeEscapeSequence limit current = .ok (unicode, rest)) :
    ∃ hex, Hex4 hex unicode ∧ current = hex ++ rest := by
  unfold decodeUnicodeEscapeSequence at read
  split at read
  · contradiction
  · obtain ⟨a,p,_,rfl,one,read⟩ := hexDigits_succ read
    obtain ⟨b,q,_,rfl,two,read⟩ := hexDigits_succ read
    obtain ⟨c,r,_,rfl,three,read⟩ := hexDigits_succ read
    obtain ⟨d,s,_,rfl,four,read⟩ := hexDigits_succ read
    obtain ⟨rfl,rfl⟩ := Prod.mk.inj (Except.ok.inj read)
    rw [Nat.zero_mul,Nat.zero_add]
    exact ⟨[a,b,c,d],.digits one two three four,rfl⟩

theorem getNextChar_front (next : (getNextChar current).1 = c) (some : c ≠ 0) :
    current = c :: (getNextChar current).2 := by
  cases current with
  | nil => exact absurd next.symm some
  | cons d current => exact congrArg (· :: current) next

theorem secondHalf_front {first : Nat} (read : secondHalf limit first current = .ok (unicode, rest)) :
    ∃ low half, Hex4 low half ∧ current = backslash :: 117 :: (low ++ rest) ∧
      unicode = 0x10000 + ((first &&& 0x3FF) <<< 10) + (half &&& 0x3FF) := by
  unfold secondHalf at read
  split at read
  · contradiction
  dsimp only at read
  split at read
  · rename_i isBackslash
    split at read
    · rename_i isUnicode
      have one := getNextChar_front isBackslash (by decide)
      have two := getNextChar_front isUnicode (by decide)
      generalize (getNextChar (getNextChar current).2).2 = behind at read two
      cases sequence : decodeUnicodeEscapeSequence limit behind with
      | error problem =>
        rw [sequence] at read
        contradiction
      | ok found =>
        obtain ⟨half,further⟩ := found
        obtain ⟨low,digits,rfl⟩ := decodeUnicodeEscapeSequence_front sequence
        rw [sequence] at read
        obtain ⟨rfl,rfl⟩ := Prod.mk.inj (Except.ok.inj read)
        exact ⟨low,half,digits,by rw [one,two],rfl⟩
    · contradiction
  · contradiction

/-- An escape that is read, or a pair of them. -/
theorem decodeUnicodeCodePoint_front (read : decodeUnicodeCodePoint limit current = .ok (unicode, rest)) :
    (∃ hex, Hex4 hex unicode ∧ ¬ (0xD800 ≤ unicode ∧ unicode ≤ 0xDBFF) ∧ current = hex ++ rest) ∨
      ∃ high first low half, Hex4 high first ∧ (0xD800 ≤ first ∧ first ≤ 0xDBFF) ∧ Hex4 low half ∧
        current = high ++ backslash :: 117 :: (low ++ rest) ∧
        unicode = 0x10000 + ((first &&& 0x3FF) <<< 10) + (half &&& 0x3FF) := by
  unfold decodeUnicodeCodePoint at read
  split at read
  · contradiction
  · rename_i first behind sequence
    obtain ⟨hex,digits,rfl⟩ := decodeUnicodeEscapeSequence_front sequence
    split at read
    · rename_i surrogate
      obtain ⟨low,half,second,rfl,value⟩ := secondHalf_front read
      exact .inr ⟨hex,first,low,half,digits,surrogate,second,rfl,value⟩
    · rename_i single
      obtain ⟨rfl,rfl⟩ := Prod.mk.inj (Except.ok.inj read)
      exact .inl ⟨hex,digits,single,rfl⟩

theorem Hex4.lt {hex : Bytes} (digits : Hex4 hex unicode) : unicode < 0x10000 := by
  obtain ⟨one,two,three,four⟩ := digits
  unfold HexDigit at one two three four
  omega

/-- A character with a number that is no half of a pair. -/
theorem exists_char (most : unicode ≤ 0x10FFFF) (single : ¬ (0xD800 ≤ unicode ∧ unicode ≤ 0xDFFF)) :
    ∃ ch : Char, ch.toNat = unicode := by
  have valid : unicode.isValidChar := by
    unfold Nat.isValidChar
    omega
  exact ⟨Char.ofNatAux unicode valid,rfl⟩

theorem escaped?_known {letter c : UInt8} (known : escaped? letter = some c) : (letter, c) ∈ escapes := by
  unfold escaped? at known
  split at known
  · rename_i itself
    cases known
    rcases itself with rfl | rfl | rfl <;> decide
  all_goals
    repeat' split at known
    all_goals first
      | contradiction
      | (rename_i first; subst first; cases known; decide)

/-- What an escape is decoded to, it spells. -/
theorem quoted_point (read : decodeUnicodeCodePoint limit current = .ok (unicode, rest)) :
    (∀ text, Quoted text rest → Quoted (codePointToUTF8 unicode ++ text) (backslash :: 117 :: current)) ∧
      ∀ more, readString (backslash :: 117 :: (current ++ more)) = readString (rest ++ more) := by
  rcases decodeUnicodeCodePoint_front read with
    ⟨hex,digits,single,rfl⟩ | ⟨high,first,low,half,digits,surrogate,second,rfl,value⟩
  · constructor
    · intro text quoted
      by_cases lone : 0xDC00 ≤ unicode ∧ unicode ≤ 0xDFFF
      · rw [codePointToUTF8_half lone.1 lone.2]
        exact .half lone.1 lone.2 digits quoted
      · have small := digits.lt
        obtain ⟨ch,rfl⟩ := exists_char (show unicode ≤ 0x10FFFF by omega) (by omega)
        rw [codePointToUTF8_char]
        exact .unicode small digits quoted
    · intro more
      rw [readString_escape,List.append_assoc,readString_hex digits]
  · constructor
    · intro text quoted
      have ten (n : Nat) : n &&& 0x3FF = n % 0x400 := Nat.and_two_pow_sub_one_eq_mod n 10
      rw [ten,ten,Nat.shiftLeft_eq] at value
      obtain ⟨ch,rfl⟩ := exists_char (show unicode ≤ 0x10FFFF by omega) (by omega)
      rw [codePointToUTF8_char]
      have same : first = 0xD800 + (ch.toNat - 0x10000) / 0x400 := by omega
      exact .pair (by omega) (same ▸ digits) second (by omega) quoted
    · intro more
      rw [readString_escape]
      simp only [List.append_assoc,List.cons_append]
      rw [readString_hex digits,readString_escape,readString_hex second]

theorem escapeTurn_leaves {decoded whole : Bytes} (behind : Bytes) :
    escapeTurn limit decoded behind ≠ .leave (.ok whole) := by
  unfold escapeTurn
  repeat' split
  all_goals simp

theorem stringTurn_leave {decoded whole : Bytes} (turn : stringTurn limit (current, decoded) = .leave (.ok whole)) :
    whole = decoded ∧ (current = [] ∨ ∃ behind, current = quote :: behind) := by
  cases current with
  | nil =>
    cases turn
    exact ⟨rfl,.inl rfl⟩
  | cons c behind =>
    rw [stringTurn] at turn
    split at turn
    · rename_i first
      subst first
      cases turn
      exact ⟨rfl,.inr ⟨behind,rfl⟩⟩
    split at turn
    · exact absurd turn (escapeTurn_leaves behind)
    · contradiction

/-- What a turn decodes, the text that it passes over spells, and a scan passes over it too. -/
theorem stringTurn_again {decoded : Bytes} {next : Bytes × Bytes}
    (turn : stringTurn limit (current, decoded) = .again next) : ∃ front, next.2 = decoded ++ front ∧
      (∀ text, Quoted text next.1 → Quoted (front ++ text) current) ∧
      ∀ more, readString (current ++ more) = readString (next.1 ++ more) := by
  cases current with
  | nil => contradiction
  | cons c behind =>
    rw [stringTurn] at turn
    split at turn
    · contradiction
    rename_i notQuote
    split at turn
    · rename_i first
      subst first
      cases behind with
      | nil => contradiction
      | cons letter behind =>
        rw [escapeTurn] at turn
        split at turn
        · rename_i isUnicode
          subst isUnicode
          split at turn
          · contradiction
          · rename_i unicode further point
            cases turn
            obtain ⟨quoted,scanned⟩ := quoted_point point
            exact ⟨_,rfl,quoted,scanned⟩
        · split at turn
          · rename_i character known
            cases turn
            exact ⟨[character],rfl,fun _ quoted => .escape (escaped?_known known) quoted,
              fun more => readString_escape letter (behind ++ more)⟩
          · contradiction
    · rename_i notBackslash
      cases turn
      exact ⟨[c],rfl,fun _ quoted => .plain notQuote notBackslash quoted,
        fun more => readString_plain notBackslash notQuote (behind ++ more)⟩

/-- Between its quotes, a string that was scanned to the end spells what it is decoded to. -/
theorem stringLoop_sound {whole : Bytes} (s : Bytes × Bytes) : readString (s.1 ++ quote :: rest) = (true, rest) →
    (stringLoop limit).run s = .ok whole → ∃ text, whole = s.2 ++ text ∧ Quoted text s.1 := by
  apply Loop.run_induction (stringLoop limit) (fun s result => readString (s.1 ++ quote :: rest) = (true, rest) →
    result = .ok whole → ∃ text, whole = s.2 ++ text ∧ Quoted text s.1)
  · rintro ⟨current,decoded⟩ _ turn scanned rfl
    obtain ⟨rfl,atEnd | ⟨behind,rfl⟩⟩ := stringTurn_leave turn
    · exact ⟨[],(List.append_nil _).symm,atEnd ▸ .nil⟩
    · rw [List.cons_append,readString_quote] at scanned
      have same := congrArg List.length (Prod.mk.inj scanned).2
      simp only [List.length_append,List.length_cons] at same
      omega
  · rintro ⟨current,decoded⟩ next turn later scanned read
    obtain ⟨front,more,quoted,passed⟩ := stringTurn_again turn
    rw [passed] at scanned
    obtain ⟨text,rfl,inside⟩ := later scanned read
    exact ⟨front ++ text,by rw [more,List.append_assoc],quoted text inside⟩

end

variable {floating : Floating}

section

variable {current stop behind : Bytes} {c : UInt8} {kind : TokenType} {v : Value floating}

theorem scanned_string (scanned : Scanned c behind kind stop) (isString : kind = .string) :
    ∃ body, c :: behind = quote :: body ++ quote :: stop ∧ readString (body ++ quote :: stop) = (true, stop) := by
  cases scanned with
  | mark marked =>
    subst isString
    exact absurd (mark?_eq marked).2 (by decide)
  | string read =>
    obtain ⟨body,rfl⟩ := readString_true read
    exact ⟨body,rfl,read⟩
  | _ => contradiction

/-- A string that is decoded spells its text. -/
theorem decodeString_sound {token : Token} {text : Bytes} (start : token.start = c :: behind)
    (scanned : Scanned c behind token.type token.stop) (isString : token.type = .string)
    (decodes : decodeString token = .ok text) :
    ∃ body, token.start = quote :: body ++ quote :: token.stop ∧ Quoted text body := by
  obtain ⟨body,whole,read⟩ := scanned_string scanned isString
  have known : token.Is .string (quote :: body ++ [quote]) token.stop := ⟨isString,by simp [start,whole],rfl⟩
  have inner : token.text.tail.dropLast = body := by simp [text_of_is known]
  rw [decodeString,inner] at decodes
  obtain ⟨_,rfl,quoted⟩ := stringLoop_sound (body,[]) read decodes
  exact ⟨body,start.trans whole,quoted⟩

theorem scanned_number (scanned : Scanned c behind kind stop) (isNumber : kind = .number) :
    ∃ text, Nonempty (Numeral text) ∧ c :: behind = text ++ stop := by
  cases scanned with
  | mark marked =>
    subst isNumber
    exact absurd (mark?_eq marked).2 (by decide)
  | digit isDigit read =>
    obtain ⟨i,f,e,digits,fractional,exponential,rfl⟩ := readNumber_front read
    have integral : Digits (c :: i) := List.forall_mem_cons.mpr ⟨isDigit,digits⟩
    exact ⟨[] ++ (c :: i) ++ f ++ e,⟨[],c :: i,f,e,rfl,.inl rfl,integral,.inr (List.cons_ne_nil _ _),fractional,
      exponential⟩,by simp⟩
  | sign isSign read =>
    obtain ⟨i,f,e,digits,fractional,exponential,rfl⟩ := readNumber_front read
    have oneSign : [c] = [] ∨ [c] = [plus] ∨ [c] = [minus] := by
      rcases isSign with rfl | rfl
      · exact .inr (.inr rfl)
      · exact .inr (.inl rfl)
    exact ⟨[c] ++ i ++ f ++ e,⟨[c],i,f,e,rfl,oneSign,digits,.inl (List.cons_ne_nil _ _),fractional,exponential⟩,
      by simp⟩
  | _ => contradiction

theorem decodeNumber_sound {token : Token} (start : token.start = c :: behind)
    (scanned : Scanned c behind token.type token.stop) (isNumber : token.type = .number)
    (decodes : decodeNumber token.text = .ok v) :
    ∃ text, token.start = text ++ token.stop ∧ SpellsWith stray (.value v) 1 text := by
  obtain ⟨text,⟨numeral⟩,whole⟩ := scanned_number scanned isNumber
  have known : token.Is .number text token.stop := ⟨isNumber,start.trans whole,rfl⟩
  rw [text_of_is known] at decodes
  exact ⟨text,known.start,.number numeral decodes⟩

/-- The literals. -/
theorem scanned_literal (scanned : Scanned c behind kind stop) :
    (kind = .true → c :: behind = Bytes.ofString "true" ++ stop) ∧
      (kind = .false → c :: behind = Bytes.ofString "false" ++ stop) ∧
      (kind = .null → c :: behind = Bytes.ofString "null" ++ stop) := by
  cases scanned with
  | mark marked =>
    refine ⟨?_,?_,?_⟩
    all_goals
      rintro rfl
      exact absurd (mark?_eq marked).2 (by decide)
  | true => exact ⟨fun _ => rfl,by simp,by simp⟩
  | false => exact ⟨by simp,fun _ => rfl,by simp⟩
  | null => exact ⟨by simp,by simp,fun _ => rfl⟩
  | _ => simp

end

end SmartHospital.Json
