import SmartHospital.Support.Decimal
import SmartHospital.Support.Loop

/-! The tokens of jsoncpp.cpp's `OurReader` under the settings of `CharReaderBuilder`:
comments are allowed and not collected, special floats and single quotes are off. A
`Location` is what the document still holds from there on. -/
namespace SmartHospital.Json

def quote : UInt8 := 34
def backslash : UInt8 := 92
def slash : UInt8 := 47
def star : UInt8 := 42
def lineFeed : UInt8 := 10
def carriageReturn : UInt8 := 13
def minus : UInt8 := 45
def plus : UInt8 := 43
def dot : UInt8 := 46
def comma : UInt8 := 44
def colon : UInt8 := 58
def openBracket : UInt8 := 91
def closeBracket : UInt8 := 93
def openBrace : UInt8 := 123
def closeBrace : UInt8 := 125

inductive TokenType where
  | endOfStream | objectBegin | objectEnd | arrayBegin | arrayEnd | string | number
  | true | false | null | arraySeparator | memberSeparator | comment | error
  deriving DecidableEq, Repr

structure Token where
  type : TokenType
  start : Bytes
  stop : Bytes
  within : stop <:+ start

/-- The characters between `start_` and `end_`. -/
def Token.text (token : Token) : Bytes := token.start.take (token.start.length - token.stop.length)

def isSpace (c : UInt8) : Bool := c == 32 || c == 9 || c == carriageReturn || c == lineFeed

def skipSpaces (current : Bytes) : Bytes := current.dropWhile isSpace

def getNextChar : Bytes → UInt8 × Bytes
  | [] => (0, [])
  | c :: current => (c, current)

/-- `match` -/
def matchPattern (pattern current : Bytes) : Bool × Bytes :=
  if pattern.isPrefixOf current = true then (true, current.drop pattern.length) else (false, current)

/-- From behind the opening quote. Only a quote leaves the loop before the end. -/
def readString : Bytes → Bool × Bytes
  | [] => (false, [])
  | c :: current =>
    if c = backslash then
      match current with
      | [] => (false, [])
      | _ :: current => readString current
    else if c = quote then (true, current)
    else readString current

def skipDigits (current : Bytes) : Bytes := current.dropWhile Decimal.isDigit

def fraction : Bytes → Bytes
  | [] => []
  | c :: current => if c = dot then skipDigits current else c :: current

def exponent : Bytes → Bytes
  | [] => []
  | c :: current =>
    if c = 101 ∨ c = 69 then
      match current with
      | [] => []
      | s :: rest => if s = plus ∨ s = minus then skipDigits rest else skipDigits (s :: rest)
    else c :: current

/-- From behind the first character. -/
def readNumber (checkInf : Bool) (current : Bytes) : Bool × Bytes :=
  if checkInf = true ∧ current.head? = some 73 then (false, current.tail)
  else (true, exponent (fraction (skipDigits current)))

def readCStyleComment : Bytes → Bool × Bytes
  | c :: d :: current =>
    if c = star ∧ d = slash then (true, current) else readCStyleComment (d :: current)
  | current =>
    let (c, current) := getNextChar current
    (c == slash, current)

def readCppStyleComment : Bytes → Bytes
  | [] => []
  | c :: current =>
    if c = lineFeed then current
    else if c = carriageReturn then
      match current with
      | [] => []
      | d :: rest => if d = lineFeed then rest else d :: rest
    else readCppStyleComment current

/-- From behind the first slash. -/
def readComment (current : Bytes) : Bool × Bytes :=
  let (c, current) := getNextChar current
  if c = star then readCStyleComment current
  else if c = slash then (true, readCppStyleComment current)
  else (false, current)

/-- A token that was not read to its end is an error. -/
def ending (type : TokenType) (result : Bool × Bytes) : TokenType × Bytes :=
  (if result.1 = true then type else .error, result.2)

/-- The tokens of one character; `getNextChar` returns a zero at the end. -/
def mark? (c : UInt8) : Option TokenType :=
  if c = openBrace then some .objectBegin
  else if c = closeBrace then some .objectEnd
  else if c = openBracket then some .arrayBegin
  else if c = closeBracket then some .arrayEnd
  else if c = comma then some .arraySeparator
  else if c = colon then some .memberSeparator
  else if c = 0 then some .endOfStream
  else none

/-- The `switch` on the first character of a token. -/
def tokenAt (c : UInt8) (current : Bytes) : TokenType × Bytes :=
  match mark? c with
  | some type => (type, current)
  | none =>
    if c = quote then ending .string (readString current)
    else if c = slash then ending .comment (readComment current)
    else if Decimal.isDigit c = true then (.number, (readNumber false current).2)
    else if c = minus ∨ c = plus then ending .number (readNumber true current)
    else if c = 116 then ending .true (matchPattern (Bytes.ofString "rue") current)
    else if c = 102 then ending .false (matchPattern (Bytes.ofString "alse") current)
    else if c = 110 then ending .null (matchPattern (Bytes.ofString "ull") current)
    else (.error, current)

section

variable {current rest : Bytes} {c : UInt8}

theorem getNextChar_suffix (current : Bytes) : (getNextChar current).2 <:+ current := by
  cases current with
  | nil => exact List.suffix_rfl
  | cons c current => exact List.suffix_cons c current

theorem matchPattern_suffix (pattern current : Bytes) : (matchPattern pattern current).2 <:+ current := by
  unfold matchPattern
  split
  · exact List.drop_suffix _ _
  · exact List.suffix_rfl

theorem readString_suffix (current : Bytes) : (readString current).2 <:+ current := by
  fun_induction readString current with
  | case1 => exact List.suffix_rfl
  | case2 => exact List.nil_suffix
  | case3 d rest ih => exact (ih.trans (List.suffix_cons _ _)).trans (List.suffix_cons _ _)
  | case4 => exact List.suffix_cons _ _
  | case5 c current _ _ ih => exact ih.trans (List.suffix_cons _ _)

theorem fraction_suffix (current : Bytes) : fraction current <:+ current := by
  fun_cases fraction current with
  | case1 => exact List.suffix_rfl
  | case2 => exact (List.dropWhile_suffix _).trans (List.suffix_cons _ _)
  | case3 => exact List.suffix_rfl

theorem exponent_suffix (current : Bytes) : exponent current <:+ current := by
  fun_cases exponent current with
  | case1 => exact List.suffix_rfl
  | case2 => exact List.nil_suffix
  | case3 c _ s rest =>
    exact ((List.dropWhile_suffix _).trans (List.suffix_cons _ _)).trans (List.suffix_cons _ _)
  | case4 c _ s rest => exact (List.dropWhile_suffix _).trans (List.suffix_cons _ _)
  | case5 => exact List.suffix_rfl

theorem readNumber_suffix (checkInf : Bool) (current : Bytes) : (readNumber checkInf current).2 <:+ current := by
  unfold readNumber
  split
  · exact List.tail_suffix _
  · exact ((exponent_suffix _).trans (fraction_suffix _)).trans (List.dropWhile_suffix _)

theorem readCStyleComment_suffix (current : Bytes) : (readCStyleComment current).2 <:+ current := by
  fun_induction readCStyleComment current with
  | case1 c d current => exact (List.suffix_cons _ _).trans (List.suffix_cons _ _)
  | case2 c d current _ ih => exact ih.trans (List.suffix_cons _ _)
  | case3 current _ c rest first =>
    have taken := getNextChar_suffix current
    rw [first] at taken
    exact taken

theorem readCppStyleComment_suffix (current : Bytes) : readCppStyleComment current <:+ current := by
  fun_induction readCppStyleComment current with
  | case1 => exact List.suffix_rfl
  | case2 => exact List.suffix_cons _ _
  | case3 => exact List.nil_suffix
  | case4 => exact (List.suffix_cons _ _).trans (List.suffix_cons _ _)
  | case5 => exact List.suffix_cons _ _
  | case6 c current _ _ ih => exact ih.trans (List.suffix_cons _ _)

theorem readComment_suffix (current : Bytes) : (readComment current).2 <:+ current := by
  unfold readComment
  dsimp only
  split
  · exact (readCStyleComment_suffix _).trans (getNextChar_suffix current)
  split
  · exact (readCppStyleComment_suffix _).trans (getNextChar_suffix current)
  · exact getNextChar_suffix current

theorem tokenAt_suffix (c : UInt8) (current : Bytes) : (tokenAt c current).2 <:+ current := by
  unfold tokenAt
  split
  · exact List.suffix_rfl
  split
  · exact readString_suffix current
  split
  · exact readComment_suffix current
  split
  · exact readNumber_suffix _ current
  split
  · exact readNumber_suffix _ current
  split
  · exact matchPattern_suffix _ current
  split
  · exact matchPattern_suffix _ current
  split
  · exact matchPattern_suffix _ current
  · exact List.suffix_rfl

end

def readToken (current : Bytes) : Token :=
  let start := skipSpaces current
  let first := getNextChar start
  let scanned := tokenAt first.1 first.2
  ⟨scanned.1,start,scanned.2,(tokenAt_suffix _ _).trans (getNextChar_suffix start)⟩

theorem readToken_start (current : Bytes) : (readToken current).start = skipSpaces current := rfl

theorem readToken_suffix (current : Bytes) : (readToken current).stop <:+ current :=
  (readToken current).within.trans (List.dropWhile_suffix _)

/-- Every token takes a character, except the one at the end. -/
theorem readToken_shorter {current : Bytes} (more : (readToken current).type ≠ .endOfStream) :
    (readToken current).stop.length < current.length := by
  have spaces : (skipSpaces current).length ≤ current.length := (List.dropWhile_suffix _).length_le
  cases start : skipSpaces current with
  | nil => exact absurd (by simp [readToken,start,getNextChar,tokenAt,mark?]; decide) more
  | cons c rest =>
    have scanned := (tokenAt_suffix c rest).length_le
    have stop : (readToken current).stop = (tokenAt c rest).2 := by simp [readToken,start,getNextChar]
    rw [start,List.length_cons] at spaces
    rw [stop]
    omega

@[simp] theorem readString_quote (rest : Bytes) : readString (quote :: rest) = (true, rest) := by
  rw [readString.eq_def]
  rfl

@[simp] theorem readString_escape (d : UInt8) (rest : Bytes) :
    readString (backslash :: d :: rest) = readString rest := by
  rw [readString.eq_def]
  rfl

theorem readString_plain {c : UInt8} (notBackslash : c ≠ backslash) (notQuote : c ≠ quote) (rest : Bytes) :
    readString (c :: rest) = readString rest := by
  rw [readString.eq_def]
  simp [notBackslash,notQuote]

theorem readString_true {current rest : Bytes} (read : readString current = (true, rest)) :
    ∃ body, current = body ++ quote :: rest := by
  induction current using readString.induct with
  | case1 => simp [readString] at read
  | case2 => simp [readString] at read
  | case3 d current ih =>
    rw [readString_escape] at read
    obtain ⟨body,rfl⟩ := ih read
    exact ⟨backslash :: d :: body,rfl⟩
  | case4 current notBackslash =>
    rw [readString_quote] at read
    cases read
    exact ⟨[],rfl⟩
  | case5 c current notBackslash notQuote ih =>
    rw [readString_plain notBackslash notQuote] at read
    obtain ⟨body,rfl⟩ := ih read
    exact ⟨c :: body,rfl⟩

theorem ending_type {type : TokenType} {result : Bool × Bytes} :
    (ending type result).1 = type ∨ (ending type result).1 = .error := by
  unfold ending
  split
  · exact .inl rfl
  · exact .inr rfl

/-- Only a quote starts a string. -/
theorem tokenAt_string {c : UInt8} {current : Bytes} (isString : (tokenAt c current).1 = .string) :
    c = quote ∧ readString current = (true, (tokenAt c current).2) := by
  by_cases first : c = quote
  · subst first
    have scanned : tokenAt quote current = ending .string (readString current) := rfl
    rw [scanned] at isString ⊢
    cases read : readString current with
    | mk finished rest =>
      rw [read] at isString
      cases finished with
      | true => exact ⟨rfl,rfl⟩
      | false => contradiction
  · unfold tokenAt at isString
    split at isString
    · rename_i type marked
      simp only at isString
      subst isString
      unfold mark? at marked
      repeat' split at marked
      all_goals contradiction
    · rw [if_neg first] at isString
      repeat' split at isString
      all_goals first
        | contradiction
        | exact absurd isString (by rcases ending_type with same | same <;> rw [same] <;> decide)

/-- A string token is a text between two quotes. -/
theorem readToken_string {current : Bytes} (isString : (readToken current).type = .string) :
    ∃ body, (readToken current).start = quote :: body ++ quote :: (readToken current).stop := by
  obtain ⟨first,read⟩ := tokenAt_string isString
  obtain ⟨body,rest⟩ := readString_true read
  refine ⟨body,?_⟩
  cases start : skipSpaces current with
  | nil => simp [start,getNextChar] at rest
  | cons c behind =>
    simp only [start,getNextChar] at first rest
    rw [readToken_start,start,first,List.cons_append]
    congr 1
    simpa [readToken,start,getNextChar] using rest

/-- The loop of `skipCommentTokens`, and of every place that reads on behind a comment. -/
def commentTokens : Loop Bytes Token where
  body current :=
    if (readToken current).type = .comment then .again (readToken current).stop else .leave (readToken current)
  size := List.length
  shrinks {current next} again := by
    split at again
    · rename_i isComment
      cases again
      exact readToken_shorter (by simp [isComment])
    · contradiction

def skipCommentTokens (current : Bytes) : Token := commentTokens.run current

/-- The loop of `recoverFromError`: no token it reads adds an error. -/
def recovery (skipUntilToken : TokenType) : Loop Bytes Bytes where
  body current :=
    if (readToken current).type = skipUntilToken ∨ (readToken current).type = .endOfStream then
      .leave (readToken current).stop
    else .again (readToken current).stop
  size := List.length
  shrinks {current next} again := by
    split at again
    · contradiction
    · rename_i goesOn
      cases again
      exact readToken_shorter fun atEnd => goesOn (.inr atEnd)

theorem skipCommentTokens_comment {current : Bytes} (isComment : (readToken current).type = .comment) :
    skipCommentTokens current = skipCommentTokens (readToken current).stop :=
  Loop.run_again (if_pos isComment)

theorem skipCommentTokens_other {current : Bytes} (other : (readToken current).type ≠ .comment) :
    skipCommentTokens current = readToken current :=
  Loop.run_leave (if_neg other)

/-- The token behind the comments is read as any other. -/
theorem skipCommentTokens_reads (current : Bytes) : ∃ behind, behind <:+ current ∧
    skipCommentTokens current = readToken behind ∧ (readToken behind).type ≠ .comment := by
  apply Loop.run_induction commentTokens
    (fun current token => ∃ behind, behind <:+ current ∧ token = readToken behind ∧ (readToken behind).type ≠ .comment)
  · intro current token turn
    simp only [commentTokens] at turn
    split at turn
    · contradiction
    · rename_i other
      cases turn
      exact ⟨current,List.suffix_rfl,rfl,other⟩
  · intro current next turn later
    simp only [commentTokens] at turn
    split at turn
    · cases turn
      obtain ⟨behind,further,same,other⟩ := later
      exact ⟨behind,further.trans (readToken_suffix current),same,other⟩
    · contradiction

theorem skipCommentTokens_start (current : Bytes) : (skipCommentTokens current).start <:+ current := by
  obtain ⟨behind,further,same,_⟩ := skipCommentTokens_reads current
  rw [same]
  exact (List.dropWhile_suffix _).trans further

theorem skipCommentTokens_suffix (current : Bytes) : (skipCommentTokens current).stop <:+ current :=
  (skipCommentTokens current).within.trans (skipCommentTokens_start current)

theorem skipCommentTokens_shorter {current : Bytes} (more : (skipCommentTokens current).type ≠ .endOfStream) :
    (skipCommentTokens current).stop.length < current.length := by
  obtain ⟨behind,further,same,_⟩ := skipCommentTokens_reads current
  rw [same] at more ⊢
  exact (readToken_shorter more).trans_le further.length_le

theorem recovery_suffix (skipUntilToken : TokenType) (current : Bytes) :
    (recovery skipUntilToken).run current <:+ current := by
  apply Loop.run_induction (recovery skipUntilToken) (fun current rest => rest <:+ current)
  · intro current rest turn
    simp only [recovery] at turn
    split at turn
    · cases turn
      exact readToken_suffix current
    · contradiction
  · intro current next turn later
    simp only [recovery] at turn
    split at turn
    · contradiction
    · cases turn
      exact later.trans (readToken_suffix current)

end SmartHospital.Json
