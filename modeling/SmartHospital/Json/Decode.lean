import SmartHospital.Json.Token
import SmartHospital.Json.Value

/-! What `OurReader` makes of the text of a number or a string. -/
namespace SmartHospital.Json

/-- A message and where it points. -/
structure Problem where
  message : Bytes
  extra : Option Bytes

/-- Unsigned 64-bit limits. -/
def maxLargestUInt : Nat := 18446744073709551615
def maxLargestInt : Nat := 9223372036854775807

/-- The magnitude of the smallest integer. -/
def minLargestMagnitude : Nat := 9223372036854775808

/-- The loop of `decodeNumber`; `none` is left to `decodeDouble`. -/
def magnitude (threshold maxLastDigit value : Nat) : Bytes → Option Nat
  | [] => some value
  | c :: current =>
    if Decimal.isDigit c = false then none
    else
      let digit := c.toNat - 48
      if threshold ≤ value ∧ (threshold < value ∨ current ≠ [] ∨ maxLastDigit < digit) then none
      else magnitude threshold maxLastDigit ((value * 10 + digit) % 2 ^ 64) current

variable {floating : Floating}

def decodeDouble (text : Bytes) : Except Problem (Value floating) :=
  match floating.extract text with
  | none => .error ⟨39 :: text ++ 39 :: Bytes.ofString " is not a number.", none⟩
  | some value => .ok (.real value)

def decodeNumber (text : Bytes) : Except Problem (Value floating) :=
  let isNegative := text.head? == some minus
  let limit := if isNegative = true then minLargestMagnitude else maxLargestUInt
  match magnitude (limit / 10) (limit % 10) 0 (if isNegative = true then text.tail else text) with
  | none => decodeDouble text
  | some value =>
    if isNegative = true then .ok (.int (-((value / 10 : Nat) : Int) * 10 - ((value % 10 : Nat) : Int)))
    else if value ≤ maxLargestInt then .ok (.int value)
    else .ok (.uint value)

/-- The bytes of a code point, at most four. -/
def codePointToUTF8 (cp : Nat) : Bytes :=
  if cp ≤ 0x7f then [UInt8.ofNat cp]
  else if cp ≤ 0x7FF then
    [UInt8.ofNat (0xC0 ||| (0x1f &&& (cp >>> 6))), UInt8.ofNat (0x80 ||| (0x3f &&& cp))]
  else if cp ≤ 0xFFFF then
    [UInt8.ofNat (0xE0 ||| (0xf &&& (cp >>> 12))), UInt8.ofNat (0x80 ||| (0x3f &&& (cp >>> 6))),
      UInt8.ofNat (0x80 ||| (0x3f &&& cp))]
  else if cp ≤ 0x10FFFF then
    [UInt8.ofNat (0xF0 ||| (0x7 &&& (cp >>> 18))), UInt8.ofNat (0x80 ||| (0x3f &&& (cp >>> 12))),
      UInt8.ofNat (0x80 ||| (0x3f &&& (cp >>> 6))), UInt8.ofNat (0x80 ||| (0x3f &&& cp))]
  else []

def hexDigit? (c : UInt8) : Option Nat :=
  if 48 ≤ c ∧ c ≤ 57 then some (c.toNat - 48)
  else if 97 ≤ c ∧ c ≤ 102 then some (c.toNat - 97 + 10)
  else if 65 ≤ c ∧ c ≤ 70 then some (c.toNat - 65 + 10)
  else none

/-- The digits of an escape from `current` on; `limit` is what stands behind the string. -/
def hexDigits (limit : Bytes) : (index unicode : Nat) → (current : Bytes) → Except Problem (Nat × Bytes)
  | 0, unicode, current => .ok (unicode, current)
  | index + 1, unicode, current =>
    let (c, current) := getNextChar current
    match hexDigit? c with
    | some digit => hexDigits limit index (unicode * 16 + digit) current
    | none =>
      .error ⟨Bytes.ofString "Bad unicode escape sequence in string: hexadecimal digit expected.",
        some (current ++ limit)⟩

def decodeUnicodeEscapeSequence (limit current : Bytes) : Except Problem (Nat × Bytes) :=
  if current.length < 4 then
    .error ⟨Bytes.ofString "Bad unicode escape sequence in string: four digits expected.", some (current ++ limit)⟩
  else hexDigits limit 4 0 current

/-- The second half of a surrogate pair. -/
def secondHalf (limit : Bytes) (unicode : Nat) (current : Bytes) : Except Problem (Nat × Bytes) :=
  if current.length < 6 then
    .error ⟨Bytes.ofString "additional six characters expected to parse unicode surrogate pair.",
      some (current ++ limit)⟩
  else
    let missing (current : Bytes) : Except Problem (Nat × Bytes) :=
      .error ⟨Bytes.ofString "expecting another \\u token to begin the second half of a unicode surrogate pair",
        some (current ++ limit)⟩
    let (c, current) := getNextChar current
    if c = backslash then
      let (c, current) := getNextChar current
      if c = 117 then
        (decodeUnicodeEscapeSequence limit current).map fun (surrogatePair, current) =>
          (0x10000 + ((unicode &&& 0x3FF) <<< 10) + (surrogatePair &&& 0x3FF), current)
      else missing current
    else missing current

def decodeUnicodeCodePoint (limit current : Bytes) : Except Problem (Nat × Bytes) :=
  match decodeUnicodeEscapeSequence limit current with
  | .error problem => .error problem
  | .ok (unicode, current) =>
    if 0xD800 ≤ unicode ∧ unicode ≤ 0xDBFF then secondHalf limit unicode current else .ok (unicode, current)

/-- The escapes of one character. -/
def escaped? (escape : UInt8) : Option UInt8 :=
  if escape = quote ∨ escape = slash ∨ escape = backslash then some escape
  else if escape = 98 then some 8
  else if escape = 102 then some 12
  else if escape = 110 then some lineFeed
  else if escape = 114 then some carriageReturn
  else if escape = 116 then some 9
  else none

/-- Behind a backslash. -/
def escapeTurn (limit decoded : Bytes) : Bytes → Turn (Bytes × Bytes) (Except Problem Bytes)
  | [] => .leave (.error ⟨Bytes.ofString "Empty escape sequence in string", some limit⟩)
  | escape :: current =>
    if escape = 117 then
      match decodeUnicodeCodePoint limit current with
      | .error problem => .leave (.error problem)
      | .ok (unicode, current) => .again (current, decoded ++ codePointToUTF8 unicode)
    else
      match escaped? escape with
      | some character => .again (current, decoded ++ [character])
      | none => .leave (.error ⟨Bytes.ofString "Bad escape sequence in string", some (current ++ limit)⟩)

/-- One turn of the loop of `decodeString`, over what is left and what is decoded. -/
def stringTurn (limit : Bytes) : Bytes × Bytes → Turn (Bytes × Bytes) (Except Problem Bytes)
  | ([], decoded) => .leave (.ok decoded)
  | (c :: current, decoded) =>
    if c = quote then .leave (.ok decoded)
    else if c = backslash then escapeTurn limit decoded current
    else .again (current, decoded ++ [c])

/-- A problem in the text in front of `limit` points into it. -/
def Problem.Within (limit current : Bytes) (problem : Problem) : Prop :=
  ∀ location ∈ problem.extra, limit <:+ location ∧ location <:+ current ++ limit

/-- What reading an escape may do: it goes on, or points at what it does not like. -/
def Reads (limit current : Bytes) : Except Problem (Nat × Bytes) → Prop
  | .ok result => result.2 <:+ current
  | .error problem => problem.Within limit current

section

variable {limit current rest : Bytes}

theorem append_suffix (further : rest <:+ current) (limit : Bytes) : rest ++ limit <:+ current ++ limit := by
  obtain ⟨front,rfl⟩ := further
  exact ⟨front,(List.append_assoc ..).symm⟩

theorem Problem.within_at (message : Bytes) (further : rest <:+ current) :
    Problem.Within limit current ⟨message,some (rest ++ limit)⟩ := by
  rintro _ ⟨⟩
  exact ⟨List.suffix_append rest limit,append_suffix further limit⟩

theorem Problem.Within.mono {problem : Problem} (within : problem.Within limit rest) (further : rest <:+ current) :
    problem.Within limit current := by
  intro location member
  exact ⟨(within location member).1,(within location member).2.trans (append_suffix further limit)⟩

theorem Reads.mono {result : Except Problem (Nat × Bytes)} (reads : Reads limit rest result)
    (further : rest <:+ current) : Reads limit current result := by
  cases result with
  | ok result => exact List.IsSuffix.trans reads further
  | error problem => exact Problem.Within.mono reads further

theorem hexDigits_reads (limit : Bytes) (index unicode : Nat) (current : Bytes) :
    Reads limit current (hexDigits limit index unicode current) := by
  induction index generalizing unicode current with
  | zero => exact List.suffix_rfl
  | succ index ih =>
    rw [hexDigits]
    dsimp only
    split
    · exact (ih _ _).mono (getNextChar_suffix current)
    · exact Problem.within_at _ (getNextChar_suffix current)

theorem decodeUnicodeEscapeSequence_reads (limit current : Bytes) :
    Reads limit current (decodeUnicodeEscapeSequence limit current) := by
  unfold decodeUnicodeEscapeSequence
  split
  · exact Problem.within_at _ List.suffix_rfl
  · exact hexDigits_reads _ _ _ _

theorem secondHalf_reads (limit : Bytes) (unicode : Nat) (current : Bytes) :
    Reads limit current (secondHalf limit unicode current) := by
  have one := getNextChar_suffix current
  have two := (getNextChar_suffix (getNextChar current).2).trans one
  unfold secondHalf
  split
  · exact Problem.within_at _ List.suffix_rfl
  dsimp only
  split
  · split
    · have sequence := decodeUnicodeEscapeSequence_reads limit (getNextChar (getNextChar current).2).2
      cases read : decodeUnicodeEscapeSequence limit (getNextChar (getNextChar current).2).2 with
      | ok pair =>
        rw [read] at sequence
        exact List.IsSuffix.trans sequence two
      | error problem =>
        rw [read] at sequence
        exact Problem.Within.mono sequence two
    · exact Problem.within_at _ two
  · exact Problem.within_at _ one

theorem decodeUnicodeCodePoint_reads (limit current : Bytes) :
    Reads limit current (decodeUnicodeCodePoint limit current) := by
  have sequence := decodeUnicodeEscapeSequence_reads limit current
  unfold decodeUnicodeCodePoint
  split
  · rename_i problem failed
    rw [failed] at sequence
    exact sequence
  · rename_i unicode rest read
    rw [read] at sequence
    split
    · exact (secondHalf_reads _ _ _).mono sequence
    · exact sequence

/-- What one turn over a string may do. -/
def StringTurn (limit current : Bytes) : Turn (Bytes × Bytes) (Except Problem Bytes) → Prop
  | .again next => next.1 <:+ current.tail ∧ current ≠ []
  | .leave (.ok _) => True
  | .leave (.error problem) => problem.Within limit current

theorem escapeTurn_reads (limit decoded : Bytes) (c : UInt8) (current : Bytes) :
    StringTurn limit (c :: current) (escapeTurn limit decoded current) := by
  cases current with
  | nil => exact Problem.within_at _ (List.nil_suffix : ([] : Bytes) <:+ _)
  | cons escape current =>
    have behind : current <:+ escape :: current := List.suffix_cons ..
    rw [escapeTurn]
    split
    · have point := decodeUnicodeCodePoint_reads limit current
      split
      · rename_i problem failed
        rw [failed] at point
        exact Problem.Within.mono point (behind.trans (List.suffix_cons ..))
      · rename_i unicode rest read
        rw [read] at point
        exact ⟨List.IsSuffix.trans point behind,List.cons_ne_nil _ _⟩
    · split
      · exact ⟨behind,List.cons_ne_nil _ _⟩
      · exact Problem.within_at _ (behind.trans (List.suffix_cons ..))

theorem stringTurn_reads (limit : Bytes) (s : Bytes × Bytes) : StringTurn limit s.1 (stringTurn limit s) := by
  obtain ⟨current,decoded⟩ := s
  cases current with
  | nil => trivial
  | cons c current =>
    rw [stringTurn]
    split
    · trivial
    split
    · exact escapeTurn_reads limit decoded c current
    · exact ⟨List.suffix_rfl,List.cons_ne_nil _ _⟩

end

/-- The loop of `decodeString`. -/
def stringLoop (limit : Bytes) : Loop (Bytes × Bytes) (Except Problem Bytes) where
  body := stringTurn limit
  size s := s.1.length
  shrinks {s next} again := by
    have turn := stringTurn_reads limit s
    rw [again] at turn
    have shorter := turn.1.length_le
    have nonempty := List.length_pos_iff.mpr turn.2
    rw [List.length_tail] at shorter
    omega

/-- The text of a string token between its quotes, and what stands from the closing one on. -/
def decodeString (token : Token) : Except Problem Bytes :=
  (stringLoop (quote :: token.stop)).run (token.text.tail.dropLast, [])

theorem stringLoop_within {limit : Bytes} {s : Bytes × Bytes} {problem : Problem}
    (failed : (stringLoop limit).run s = .error problem) : problem.Within limit s.1 := by
  revert failed
  apply Loop.run_induction (stringLoop limit)
    (fun s result => result = .error problem → problem.Within limit s.1)
  · rintro s _ leaves rfl
    have turn := stringTurn_reads limit s
    simp only [stringLoop] at leaves
    rw [leaves] at turn
    exact turn
  · intro s next again later failed
    have turn := stringTurn_reads limit s
    simp only [stringLoop] at again
    rw [again] at turn
    exact (later failed).mono (turn.1.trans (List.tail_suffix _))

/-- A string token is its text between two quotes. -/
theorem decodeString_within {token : Token} {body : Bytes} {problem : Problem}
    (quoted : token.start = quote :: body ++ quote :: token.stop) (failed : decodeString token = .error problem) :
    ∀ location ∈ problem.extra, location <:+ token.start ∧ token.stop <:+ location := by
  have text : token.text.tail.dropLast = body := by
    have whole : token.start = quote :: (body ++ [quote]) ++ token.stop := by simp [quoted]
    rw [Token.text,whole,List.length_append,Nat.add_sub_cancel,List.take_left]
    simp
  intro location member
  obtain ⟨behind,inside⟩ := stringLoop_within failed location member
  rw [text] at inside
  refine ⟨?_,(List.suffix_cons _ _).trans behind⟩
  rw [quoted]
  exact inside.trans (List.suffix_cons _ _)

theorem decodeNumber_extra {text : Bytes} {problem : Problem}
    (failed : (decodeNumber text : Except Problem (Value floating)) = .error problem) : problem.extra = none := by
  unfold decodeNumber at failed
  dsimp only at failed
  split at failed
  · unfold decodeDouble at failed
    split at failed
    · cases failed
      rfl
    · contradiction
  · split at failed
    · contradiction
    split at failed <;> contradiction

end SmartHospital.Json
