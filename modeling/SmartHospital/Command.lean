import SmartHospital.Topic

/-! The answer to a reading: `on_message` of mqttController.cpp, from the delivered
topic and payload to the published command. -/
namespace SmartHospital.Mqtt

open TopicFilter

structure Room where
  temperatureThreshold : Int
  indorLightThreshold : Int
  outLightThreshold : Int
  deriving DecidableEq, Repr

/-- `static room rooms[3]` -/
abbrev Rooms := Vector Room 3

/-- The rooms as `main` sets them. -/
def initialRooms : Rooms := Vector.replicate 3 ⟨22, 50, 70⟩

/-- `rooms[index]` -/
def Rooms.at? (rooms : Rooms) (index : Int) : Option Room :=
  if 0 ≤ index then rooms[index.toNat]? else none

theorem Rooms.getElem?_fin (rooms : Rooms) (k : Fin 3) : rooms[(k : Nat)]? = some (rooms.get k) :=
  Vector.getElem?_eq_getElem k.isLt

theorem Rooms.get_setIfInBounds (rooms : Rooms) (k i : Fin 3) (element : Room) :
    Vector.get (rooms.setIfInBounds k element) i = if i = k then element else rooms.get i := by
  apply Option.some.inj
  rw [← Rooms.getElem?_fin,Vector.getElem?_setIfInBounds,if_pos k.isLt,Rooms.getElem?_fin]
  by_cases same : i = k
  · rw [if_pos same,if_pos (congrArg Fin.val same.symm)]
  · rw [if_neg same,if_neg fun equal => same (Fin.ext equal.symm)]

structure MosquittoMessage where
  topic : Bytes
  payload : Bytes
  deriving DecidableEq

/-- The arguments of `mosquitto_publish`. -/
structure Publish where
  topic : Bytes
  payload : Bytes
  qos : Nat
  retain : Bool
  deriving DecidableEq

/-- The first byte of the payload is the reading; an empty payload has none. -/
def answerMessage (sign : CharSign) (rooms : Rooms) (sensor : Sensors) (inMessage : Bytes)
    (outMessage : CArray messageLen) (room : Int) : Option (CArray messageLen) :=
  match sensor with
  | .temperature => do
    let reading ← inMessage.head?
    let element ← rooms.at? (room - 1)
    if sign.value reading < element.temperatureThreshold then outMessage.strcpy (Bytes.ofString "ukljuci")
    else outMessage.strcpy (Bytes.ofString "iskljuci")
  | .indorLight => do
    let reading ← inMessage.head?
    let element ← rooms.at? (room - 1)
    if sign.value reading < element.indorLightThreshold then outMessage.strcpy (Bytes.ofString "ukljuci")
    else outMessage.strcpy (Bytes.ofString "iskljuci")
  | .door => outMessage.strcpy (Bytes.ofString "zakljucaj")
  | .outLight => do
    let reading ← inMessage.head?
    let element ← rooms.at? (room - 1)
    if sign.value reading > element.outLightThreshold then outMessage.strcpy (Bytes.ofString "spusti")
    else outMessage.strcpy (Bytes.ofString "podigni")

/-- Neither local array is initialized; a sensor that was not set has no meaning. -/
def onMessage (sign : CharSign) (rooms : Rooms) (outMessage : CArray messageLen) (outTopic : CArray buffLen)
    (msg : MosquittoMessage) : Option Publish := do
  let parsed ← parseTopic sign (msg.topic ++ [0]) outTopic
  let sensor ← parsed.sensor
  let outMessage ← answerMessage sign rooms sensor msg.payload outMessage parsed.room
  let topic ← parsed.outTopic.cstr?
  let payload ← outMessage.slice 0 messageLen
  some ⟨topic, payload, 2, false⟩

/-- The command chosen for a reading. -/
def word (s : Sensors) (reading : Int) (element : Room) : Bytes :=
  match s with
  | .temperature =>
    if reading < element.temperatureThreshold then Bytes.ofString "ukljuci" else Bytes.ofString "iskljuci"
  | .indorLight =>
    if reading < element.indorLightThreshold then Bytes.ofString "ukljuci" else Bytes.ofString "iskljuci"
  | .door => Bytes.ofString "zakljucaj"
  | .outLight =>
    if reading > element.outLightThreshold then Bytes.ofString "spusti" else Bytes.ofString "podigni"

/-- The command with what it is chosen from; a door is locked without looking at either. -/
def answerText (sign : CharSign) (rooms : Rooms) (s : Sensors) (inMessage : Bytes) (room : Int) : Option Bytes :=
  if s = .door then some (Bytes.ofString "zakljucaj")
  else inMessage.head?.bind fun reading => (rooms.at? (room - 1)).map (word s (sign.value reading))

theorem answerMessage_eq (sign : CharSign) (rooms : Rooms) (s : Sensors) (inMessage : Bytes)
    (outMessage : CArray messageLen) (room : Int) :
    answerMessage sign rooms s inMessage outMessage room =
      (answerText sign rooms s inMessage room).bind outMessage.strcpy := by
  cases s with
  | door => rfl
  | _ =>
    cases inMessage with
    | nil => rfl
    | cons reading rest =>
      simp only [answerMessage,answerText,List.head?_cons,Option.bind_eq_bind,Option.bind_some,
        reduceCtorEq,if_false]
      cases rooms.at? (room - 1) with
      | none => rfl
      | some element =>
        simp only [Option.bind_some,Option.map_some,word]
        exact (apply_ite outMessage.strcpy _ _ _).symm

theorem word_length (s : Sensors) (reading : Int) (element : Room) : (word s reading element).length ≤ 9 := by
  cases s <;> simp only [word]
  all_goals first | decide | (split <;> decide)

theorem word_nul_free (s : Sensors) (reading : Int) (element : Room) : 0 ∉ word s reading element := by
  cases s <;> simp only [word]
  all_goals first | decide | (split <;> decide)

section

variable {sign : CharSign} {rooms : Rooms} {s : Sensors} {inMessage text level payload : Bytes} {room : Int}

theorem answerText_word (answered : answerText sign rooms s inMessage room = some text) :
    ∃ reading element, text = word s reading element := by
  unfold answerText at answered
  by_cases door : s = .door
  · subst door
    rw [if_pos rfl] at answered
    exact ⟨0,⟨0,0,0⟩,(Option.some.inj answered).symm⟩
  · rw [if_neg door] at answered
    obtain ⟨reading,_,chosen⟩ := Option.bind_eq_some_iff.mp answered
    obtain ⟨element,_,same⟩ := Option.map_eq_some_iff.mp chosen
    exact ⟨_,element,same.symm⟩

theorem answerText_length (answered : answerText sign rooms s inMessage room = some text) :
    text.length ≤ 9 := by
  obtain ⟨reading,element,rfl⟩ := answerText_word answered
  exact word_length s reading element

theorem answerText_nul_free (answered : answerText sign rooms s inMessage room = some text) : 0 ∉ text := by
  obtain ⟨reading,element,rfl⟩ := answerText_word answered
  exact word_nul_free s reading element

/-- Whatever the array held stays behind the terminator of the command. -/
theorem answerMessage_some (answered : answerText sign rooms s inMessage room = some text)
    (outMessage : CArray messageLen) : ∃ out, answerMessage sign rooms s inMessage outMessage room = some out ∧
      out.cells = text ++ 0 :: outMessage.cells.drop (text.length + 1) := by
  have free : upToNul text = text := upToNul_of_free (answerText_nul_free answered)
  have fits : (upToNul text).length < messageLen :=
    (free.symm ▸ answerText_length answered).trans_lt (by decide)
  obtain ⟨out,written,cells⟩ := outMessage.strcpy_of_lt fits
  rw [free] at cells
  exact ⟨out,by rw [answerMessage_eq,answered,Option.bind_some,written],cells⟩

/-- What `onMessage` publishes for a topic that has room. -/
theorem onMessage_fits (single : slash ∉ level) (fits : Fits level s) (outMessage : CArray messageLen)
    (outTopic : CArray buffLen) :
    onMessage sign rooms outMessage outTopic ⟨topic level s.name, payload⟩ =
      (answerText sign rooms s payload (sign.value (marker level) - sign.value 48)).map fun text =>
        ⟨upToNul (trunk level) ++ s.command, text ++ 0 :: outMessage.cells.drop (text.length + 1), 2, false⟩ := by
  obtain ⟨parsed,done,number,sensor,name⟩ := parseTopic_fits sign single fits outTopic
  simp only [onMessage,done,sensor,name,number,Option.bind_eq_bind,Option.bind_some]
  cases answered : answerText sign rooms s payload (sign.value (marker level) - sign.value 48) with
  | none => rw [answerMessage_eq,answered]; rfl
  | some text =>
    obtain ⟨out,written,cells⟩ := answerMessage_some answered outMessage
    rw [written,Option.bind_some,out.slice_whole,cells]
    rfl

theorem onMessage_overrun (single : slash ∉ level) (overrun : ¬ Fits level s) (outMessage : CArray messageLen)
    (outTopic : CArray buffLen) :
    onMessage sign rooms outMessage outTopic ⟨topic level s.name, payload⟩ = none := by
  simp only [onMessage,parseTopic_overrun sign single overrun outTopic,Option.bind_eq_bind,Option.bind_none]

theorem Rooms.at?_isSome_iff (rooms : Rooms) (index : Int) : (rooms.at? index).isSome ↔ 0 ≤ index ∧ index < 3 := by
  unfold Rooms.at?
  split
  · rename_i nonneg
    rw [Option.isSome_iff_ne_none,ne_eq,Vector.getElem?_eq_none_iff]
    omega
  · simp [*]

/-- The characters of the three rooms. -/
def IsRoom (c : UInt8) : Prop := 49 ≤ c.toNat ∧ c.toNat ≤ 51

/-- The element of `rooms` for a character. -/
theorem index_range (sign : CharSign) (c : UInt8) :
    (0 ≤ sign.value c - sign.value 48 - 1 ∧ sign.value c - sign.value 48 - 1 < 3) ↔ IsRoom c := by
  have one := sign.value_eq_iff (c := c) (show 49 < 128 by decide)
  have two := sign.value_eq_iff (c := c) (show 50 < 128 by decide)
  have three := sign.value_eq_iff (c := c) (show 51 < 128 by decide)
  rw [value_zero,IsRoom]
  omega

theorem isRoom_marker_iff (level : Bytes) : IsRoom (marker level) ↔ ∃ c ∈ level.getLast?, IsRoom c := by
  cases last : level.getLast? with
  | none => simp [marker,last,IsRoom,slash]
  | some c => simp [marker,last]

theorem answerText_isSome_iff (sign : CharSign) (rooms : Rooms) :
    (answerText sign rooms s payload (sign.value (marker level) - sign.value 48)).isSome ↔
      s = .door ∨ payload ≠ [] ∧ ∃ c ∈ level.getLast?, IsRoom c := by
  rw [← isRoom_marker_iff,← index_range sign (marker level),← Rooms.at?_isSome_iff rooms]
  unfold answerText
  by_cases door : s = .door
  · simp [door]
  · cases payload with
    | nil => simp [door]
    | cons reading rest => simp [door]

/-- Every array has room, and what the answer looks at is there: the reading, and the
element of `rooms` for the last character of the level. A door needs neither. -/
structure InBounds (level : Bytes) (s : Sensors) (payload : Bytes) : Prop where
  fits : Fits level s
  consulted : s = .door ∨ payload ≠ [] ∧ ∃ c ∈ level.getLast?, IsRoom c

/-- `onMessage` stays in bounds exactly when the lengths have room and the level ends in
one of the rooms with a reading in the payload. -/
theorem onMessage_in_bounds_iff (sign : CharSign) (rooms : Rooms) (outMessage : CArray messageLen)
    (outTopic : CArray buffLen) (single : slash ∉ level) :
    (onMessage sign rooms outMessage outTopic ⟨topic level s.name, payload⟩).isSome ↔ InBounds level s payload := by
  by_cases fits : Fits level s
  · rw [onMessage_fits single fits,Option.isSome_map,answerText_isSome_iff]
    exact ⟨fun consulted => ⟨fits,consulted⟩,InBounds.consulted⟩
  · rw [onMessage_overrun single fits]
    constructor
    · intro missing
      contradiction
    · intro inBounds
      exact absurd inBounds.fits fits

end

/-- A reading of the first room. -/
theorem first_room_in_bounds :
    (onMessage .signed initialRooms (CArray.zeros messageLen) (CArray.zeros buffLen)
      ⟨topic (Bytes.ofString "1") Sensors.temperature.name, [20]⟩).isSome :=
  (onMessage_in_bounds_iff .signed _ _ _ (show slash ∉ Bytes.ofString "1" by decide)).mpr
    ⟨by decide,.inr ⟨by decide,49,rfl,by unfold IsRoom; decide⟩⟩

/-- A reading of a fourth room has no element of `rooms`. -/
theorem fourth_room_out_of_bounds :
    (onMessage .signed initialRooms (CArray.zeros messageLen) (CArray.zeros buffLen)
      ⟨topic (Bytes.ofString "4") Sensors.temperature.name, [20]⟩).isSome = false := by
  have single : slash ∉ Bytes.ofString "4" := by decide
  rw [onMessage_fits single (by decide)]
  decide

end SmartHospital.Mqtt
