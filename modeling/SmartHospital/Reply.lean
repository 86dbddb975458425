import SmartHospital.Message

/-! The reply encoder of ssdpController.cpp and the sender threads that read its
buffer. A reply is framed by a length byte in front of a C string, both in one
256-byte array. -/
namespace SmartHospital

def buffLen : Nat := 256

/-- Size of the static array `keepAliveChar`. -/
def keepAliveCharLen : Nat := 4

/-- The branches of `makeMessage` on the state; `host` is what `getLocalHost` returns. -/
def appendState (host : Bytes) (keepAlive : Int) (data : CArray buffLen) :
    ControllerMsgState → Option (CArray buffLen)
  | .ok => do
    let data ← data.strcat (Bytes.ofString "OK")
    let data ← data.strcat [colon]
    let data ← data.strcat host
    let data ← data.strcat [colon]
    let keepAliveChar ← (CArray.zeros keepAliveCharLen).strcpy (Decimal.print keepAlive)
    let digits ← keepAliveChar.cstr?
    data.strcat digits
  | .rlsd => data.strcat (Bytes.ofString "RLSD")
  | .nok => data.strcat (Bytes.ofString "NOK")

def makeMessage (host : Bytes) (keepAlive : Int) (clientId : Bytes) (state : ControllerMsgState) :
    Option (CArray buffLen) := do
  let data ← (CArray.zeros buffLen).strcpy clientId
  let data ← data.strcat [colon]
  let data ← data.strcat controllerName
  let data ← data.strcat [colon]
  let data ← appendState host keepAlive data state
  let text ← data.cstr?
  -- the length is stored in one byte: a text of 255 characters leaves it zero
  let buffer ← (CArray.zeros buffLen).set 0 (UInt8.ofNat (text.length + 1))
  buffer.strcat text

/-- The bytes given to `sendto`. -/
def sendThreadFunction (params : CArray buffLen) : Option Bytes := do
  let buffLen ← params.cells[0]?
  params.slice 1 buffLen.toNat

/-- The dotted form of an IPv4 address, `inet_ntoa`. -/
def inetNtoa (a b c d : UInt8) : Bytes :=
  let dot := Bytes.ofString "."
  Decimal.digits a.toNat ++ dot ++ Decimal.digits b.toNat ++ dot ++
    Decimal.digits c.toNat ++ dot ++ Decimal.digits d.toNat

/-- The fields of a reply behind the two ids. -/
def replyBody (host : Bytes) (keepAlive : Int) : ControllerMsgState → Bytes
  | .ok => ControllerMsgState.word .ok ++ colon :: (host ++ colon :: Decimal.print keepAlive)
  | st => st.word

def replyText (host : Bytes) (keepAlive : Int) (clientId : Bytes) (state : ControllerMsgState) : Bytes :=
  clientId ++ colon :: (controllerName ++ colon :: replyBody host keepAlive state)

/-- The array `keepAliveChar` has room for the printed number. -/
def KeepAliveFits (keepAlive : Int) : Prop := (Decimal.print keepAlive).length < keepAliveCharLen

theorem keepAlive_fits (low : 0 ≤ keepAlive) (high : keepAlive ≤ 999) : KeepAliveFits keepAlive := by
  rw [KeepAliveFits,Decimal.print,if_neg (by omega)]
  have := (Decimal.length_digits_le (n := keepAlive.natAbs) (k := 3) (by omega)).mpr (by omega)
  simp only [keepAliveCharLen]
  omega

@[simp] theorem nul_ne_colon : (0 : UInt8) ≠ colon := by decide
@[simp] theorem controllerName_nul_free : 0 ∉ controllerName := by decide
@[simp] theorem controllerName_colon_free : colon ∉ controllerName := by decide
@[simp] theorem word_nul_free (st : ControllerMsgState) : 0 ∉ st.word := by cases st <;> decide
@[simp] theorem word_colon_free (st : ControllerMsgState) : colon ∉ st.word := by cases st <;> decide

theorem print_nul_free (z : Int) : 0 ∉ Decimal.print z := by
  intro member
  rcases Decimal.mem_print z 0 member with h | h
  · revert h; decide
  · revert h; decide

theorem print_colon_free (z : Int) : colon ∉ Decimal.print z := by
  intro member
  rcases Decimal.mem_print z colon member with h | h
  · revert h; decide
  · revert h; decide

section Address

variable (a b c d : UInt8)

theorem digits_byte : (Decimal.digits a.toNat).length ≤ 3 :=
  (Decimal.length_digits_le (by decide)).mpr (a.toNat_lt.trans (by decide))

theorem inetNtoa_length : (inetNtoa a b c d).length ≤ 15 := by
  have first := digits_byte a
  have second := digits_byte b
  have third := digits_byte c
  have fourth := digits_byte d
  have dot : (Bytes.ofString ".").length = 1 := rfl
  simp only [inetNtoa,List.length_append,dot]
  omega

theorem inetNtoa_least : 7 ≤ (inetNtoa a b c d).length := by
  have some (n : Nat) : 1 ≤ (Decimal.digits n).length := List.length_pos_of_ne_nil (Decimal.digits_ne_nil n)
  have first := some a.toNat
  have second := some b.toNat
  have third := some c.toNat
  have fourth := some d.toNat
  have dot : (Bytes.ofString ".").length = 1 := rfl
  simp only [inetNtoa,List.length_append,dot]
  omega

theorem inetNtoa_digit_or_dot : ∀ x ∈ inetNtoa a b c d, Decimal.isDigit x = true ∨ x = 46 := by
  intro x member
  have dot : Bytes.ofString "." = [46] := rfl
  simp only [inetNtoa,dot,List.mem_append,List.mem_singleton] at member
  rcases member with (((((h | h) | h) | h) | h) | h) | h
  · exact .inl (Decimal.isDigit_of_mem _ x h)
  · exact .inr h
  · exact .inl (Decimal.isDigit_of_mem _ x h)
  · exact .inr h
  · exact .inl (Decimal.isDigit_of_mem _ x h)
  · exact .inr h
  · exact .inl (Decimal.isDigit_of_mem _ x h)

theorem inetNtoa_nul_free : 0 ∉ inetNtoa a b c d := by
  intro member
  rcases inetNtoa_digit_or_dot a b c d 0 member with h | h
  · revert h; decide
  · revert h; decide

theorem inetNtoa_colon_free : colon ∉ inetNtoa a b c d := by
  intro member
  rcases inetNtoa_digit_or_dot a b c d colon member with h | h
  · revert h; decide
  · revert h; decide

end Address

theorem appendState_eq (textFree : 0 ∉ text) (hostFree : 0 ∉ host)
    (room : st = .ok → KeepAliveFits keepAlive) :
    ((CArray.padded buffLen text).bind (appendState host keepAlive · st)) =
      CArray.padded buffLen (text ++ replyBody host keepAlive st) := by
  cases st with
  | ok =>
    obtain ⟨a,printed,_⟩ := CArray.padded_of_lt (room rfl)
    have number := print_nul_free keepAlive
    have ascii : 0 ∉ Bytes.ofString "OK" := by decide
    simp only [appendState,Option.bind_eq_bind,CArray.strcpy_zeros number,printed,
      CArray.cstr?_padded printed number,Option.bind_some]
    simp (disch := simp [textFree,hostFree,ascii,number]) only [CArray.padded_bind_strcat,CArray.padded_strcat]
    simp [replyBody,ControllerMsgState.word]
  | rlsd => exact CArray.padded_strcat textFree (by decide)
  | nok => exact CArray.padded_strcat textFree (by decide)

theorem replyBody_nul_free (hostFree : 0 ∉ host) : 0 ∉ replyBody host keepAlive st := by
  cases st <;> simp [replyBody,hostFree,print_nul_free]

theorem replyText_nul_free (idFree : 0 ∉ clientId) (hostFree : 0 ∉ host) :
    0 ∉ replyText host keepAlive clientId st := by
  simp [replyText,idFree,replyBody_nul_free hostFree]

section Fields

variable {clientId host : Bytes} {keepAlive : Int} {st : ControllerMsgState}

theorem reply_receiver (idFree : colon ∉ clientId) :
    field 0 (replyText host keepAlive clientId st) = clientId := by
  rw [replyText,field_zero idFree]

theorem reply_sender (idFree : colon ∉ clientId) :
    field 1 (replyText host keepAlive clientId st) = controllerName := by
  rw [replyText,field_succ idFree,field_zero controllerName_colon_free]

theorem reply_word (idFree : colon ∉ clientId) :
    field 2 (replyText host keepAlive clientId st) = st.word := by
  rw [replyText,field_succ idFree,field_succ controllerName_colon_free]
  cases st with
  | ok => exact field_zero (word_colon_free .ok) _
  | nok => exact field_last (word_colon_free .nok)
  | rlsd => exact field_last (word_colon_free .rlsd)

theorem reply_host (idFree : colon ∉ clientId) (hostFree : colon ∉ host) :
    field 3 (replyText host keepAlive clientId .ok) = host := by
  rw [replyText,field_succ idFree,field_succ controllerName_colon_free,replyBody,
    field_succ (word_colon_free .ok),field_zero hostFree]

theorem reply_number (idFree : colon ∉ clientId) (hostFree : colon ∉ host) :
    field 4 (replyText host keepAlive clientId .ok) = Decimal.print keepAlive := by
  rw [replyText,field_succ idFree,field_succ controllerName_colon_free,replyBody,
    field_succ (word_colon_free .ok),field_succ hostFree,field_last (print_colon_free keepAlive)]

end Fields

/-- What the buffer holds once a text of at most 255 characters is framed. -/
def framed (text : Bytes) : Bytes :=
  if text.length ≤ 254 then
    UInt8.ofNat (text.length + 1) :: text ++ List.replicate (buffLen - (text.length + 1)) 0
  else text ++ [0]

theorem length_byte (h : text.length ≤ 254) :
    (UInt8.ofNat (List.length text + 1)).toNat = text.length + 1 := by
  rw [UInt8.toNat_ofNat']
  omega

theorem frame_eq (free : 0 ∉ text) (room : text.length ≤ 255) :
    ∃ buffer : CArray buffLen, buffer.cells = framed text ∧
      ((CArray.zeros buffLen).set 0 (UInt8.ofNat (text.length + 1))).bind (·.strcat text) = some buffer := by
  by_cases fits : text.length ≤ 254
  · have length := length_byte fits
    have positive : UInt8.ofNat (text.length + 1) ≠ 0 := by
      intro zero
      rw [zero] at length
      simp at length
    obtain ⟨buffer,composed,cells⟩ := CArray.padded_of_lt (n := buffLen)
      (t := UInt8.ofNat (text.length + 1) :: text) (by simp [buffLen]; omega)
    refine ⟨buffer,?_,?_⟩
    · simp [cells,framed,fits]
    · rw [CArray.set_zeros _ (by decide),CArray.padded_strcat (by simpa using positive.symm) free]
      exact composed
  · have full : text.length = 255 := by omega
    obtain ⟨buffer,composed,cells⟩ := CArray.padded_of_lt (n := buffLen) (t := text) (by simp [buffLen]; omega)
    refine ⟨buffer,?_,?_⟩
    · simp [cells,framed,full,buffLen]
    · have wrapped : UInt8.ofNat (text.length + 1) = 0 := by rw [full]; rfl
      rw [wrapped,CArray.set_zeros_nul (by decide),CArray.padded_strcat (by simp) free]
      exact composed

theorem makeMessage_stages (idFree : 0 ∉ clientId) (hostFree : 0 ∉ host)
    (room : st = .ok → KeepAliveFits keepAlive) :
    makeMessage host keepAlive clientId st =
      (CArray.padded buffLen (replyText host keepAlive clientId st)).bind fun data =>
        (data.cstr?).bind fun text =>
        ((CArray.zeros buffLen).set 0 (UInt8.ofNat (text.length + 1))).bind (·.strcat text) := by
  simp only [makeMessage,Option.bind_eq_bind,CArray.strcpy_zeros idFree]
  simp (disch := simp [idFree]) only [CArray.padded_bind_strcat]
  rw [← Option.bind_assoc,appendState_eq (by simp [idFree]) hostFree room]
  simp [replyText]

/-- A text of up to 255 characters is composed; the length byte is right for all
of them but those of exactly 255. -/
theorem makeMessage_composes (idFree : 0 ∉ clientId) (hostFree : 0 ∉ host)
    (room : st = .ok → KeepAliveFits keepAlive)
    (fits : (replyText host keepAlive clientId st).length ≤ 255) :
    ∃ buffer, makeMessage host keepAlive clientId st = some buffer ∧
      buffer.cells = framed (replyText host keepAlive clientId st) := by
  have free : 0 ∉ replyText host keepAlive clientId st := replyText_nul_free idFree hostFree
  obtain ⟨data,padded,_⟩ := CArray.padded_of_lt (n := buffLen)
    (t := replyText host keepAlive clientId st) (by simp only [buffLen]; omega)
  obtain ⟨buffer,cells,composed⟩ := frame_eq free fits
  refine ⟨buffer,?_,cells⟩
  rw [makeMessage_stages idFree hostFree room,padded,Option.bind_some,CArray.cstr?_padded padded free,
    Option.bind_some,composed]

theorem replyText_length (host : Bytes) (keepAlive : Int) (clientId : Bytes) (st : ControllerMsgState) :
    (replyText host keepAlive clientId st).length = clientId.length + 14 + (replyBody host keepAlive st).length := by
  have name : controllerName.length = 12 := rfl
  simp only [replyText,List.length_append,List.length_cons,name]
  omega

theorem replyBody_length (dotted : host.length ≤ 15) (room : st = .ok → KeepAliveFits keepAlive) :
    (replyBody host keepAlive st).length ≤ 22 := by
  cases st with
  | ok =>
    have digits : (Decimal.print keepAlive).length < 4 := room rfl
    have word : (ControllerMsgState.word .ok).length = 2 := rfl
    simp only [replyBody,List.length_append,List.length_cons,word]
    omega
  | nok =>
    have word : (ControllerMsgState.word .nok).length ≤ 22 := by decide
    exact word
  | rlsd =>
    have word : (ControllerMsgState.word .rlsd).length ≤ 22 := by decide
    exact word

/-- A number that does not fit `keepAliveChar` never yields an OK reply. -/
theorem makeMessage_keepAlive (composed : makeMessage host keepAlive clientId .ok = some buffer) :
    KeepAliveFits keepAlive := by
  by_contra overflow
  have number : (CArray.zeros keepAliveCharLen).strcpy (Decimal.print keepAlive) = none := by
    rw [CArray.strcpy_zeros (print_nul_free keepAlive)]
    exact CArray.padded_of_le (not_lt.mp overflow)
  simp [makeMessage,appendState,number] at composed

/-- Whatever was composed is the framed text, within the array. -/
theorem makeMessage_framed (idFree : 0 ∉ clientId) (hostFree : 0 ∉ host)
    (composed : makeMessage host keepAlive clientId st = some buffer) :
    (replyText host keepAlive clientId st).length ≤ 255 ∧
      buffer.cells = framed (replyText host keepAlive clientId st) := by
  have room : st = .ok → KeepAliveFits keepAlive := by
    rintro rfl
    exact makeMessage_keepAlive composed
  have fits : (replyText host keepAlive clientId st).length ≤ 255 := by
    by_contra long
    rw [makeMessage_stages idFree hostFree room,
      CArray.padded_of_le (by simp only [buffLen]; omega)] at composed
    contradiction
  obtain ⟨other,same,cells⟩ := makeMessage_composes idFree hostFree room fits
  obtain rfl := Option.some.inj (same.symm.trans composed)
  exact ⟨fits,cells⟩

/-- The arrays hold a text of up to 255 characters, with a number of up to three. -/
theorem makeMessage_isSome_iff (idFree : 0 ∉ clientId) (hostFree : 0 ∉ host) :
    (∃ buffer, makeMessage host keepAlive clientId st = some buffer) ↔
      (replyText host keepAlive clientId st).length ≤ 255 ∧ (st = .ok → KeepAliveFits keepAlive) := by
  constructor
  · rintro ⟨buffer,composed⟩
    refine ⟨(makeMessage_framed idFree hostFree composed).1,?_⟩
    rintro rfl
    exact makeMessage_keepAlive composed
  · rintro ⟨fits,room⟩
    obtain ⟨buffer,composed,_⟩ := makeMessage_composes idFree hostFree room fits
    exact ⟨buffer,composed⟩

/-- The host goes through `c_str`. -/
theorem makeMessage_host (host : Bytes) :
    makeMessage (upToNul host) keepAlive clientId st = makeMessage host keepAlive clientId st := by
  cases st with
  | ok => simp only [makeMessage,appendState,CArray.strcat_upToNul]
  | nok => rfl
  | rlsd => rfl

theorem sendThreadFunction_isSome (buffer : CArray buffLen) : ∃ bytes, sendThreadFunction buffer = some bytes := by
  have room : 0 < buffer.cells.length := by
    rw [buffer.size]
    decide
  have bound := buffer.cells[0].toNat_lt
  have inside : 1 + buffer.cells[0].toNat ≤ buffLen := by simp only [buffLen]; omega
  simp [sendThreadFunction,List.getElem?_eq_getElem room,CArray.slice_of_le inside]

theorem sendThreadFunction_length (copied : sendThreadFunction buffer = some bytes) : bytes.length ≤ 255 := by
  simp only [sendThreadFunction,Option.bind_eq_bind,Option.bind_eq_some_iff,CArray.slice] at copied
  obtain ⟨count,_,copied⟩ := copied
  split at copied
  · have bound := count.toNat_lt
    obtain rfl := Option.some.inj copied
    simp only [List.length_take]
    omega
  · contradiction

theorem sendThreadFunction_eq {buffer : CArray buffLen} (cells : buffer.cells = b :: rest) :
    sendThreadFunction buffer = some (rest.take b.toNat) := by
  have bound := b.toNat_lt
  simp only [sendThreadFunction,cells,List.getElem?_cons_zero,Option.bind_eq_bind,Option.bind_some]
  rw [CArray.slice_of_le (by simp only [buffLen]; omega),cells]
  rfl

/-- A sender that still finds the composed buffer sends the text and its NUL. -/
theorem sendThreadFunction_framed {buffer : CArray buffLen} (cells : buffer.cells = framed text)
    (fits : text.length ≤ 254) : sendThreadFunction buffer = some (text ++ [0]) := by
  rw [framed,if_pos fits] at cells
  obtain ⟨k,hk⟩ : ∃ k, buffLen - (text.length + 1) = k + 1 := ⟨254 - text.length, by simp only [buffLen]; omega⟩
  rw [hk,List.replicate_succ,List.cons_append] at cells
  rw [sendThreadFunction_eq cells,length_byte fits,List.take_append,List.take_of_length_le (by omega)]
  simp

/-- What is sent of a text of 255 characters: its first byte stands where the length
byte was. -/
def wrapped (text : Bytes) : Bytes := (text.drop 1 ++ [0]).take (text.headD 0).toNat

theorem sendThreadFunction_wrapped {buffer : CArray buffLen} (cells : buffer.cells = framed text)
    (full : text.length = 255) : sendThreadFunction buffer = some (wrapped text) := by
  cases text with
  | nil => contradiction
  | cons b rest =>
    rw [framed,if_neg (by omega)] at cells
    exact sendThreadFunction_eq cells

end SmartHospital
