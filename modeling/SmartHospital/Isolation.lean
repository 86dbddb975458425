import SmartHospital.Command

/-! What the answer to a reading depends on: the element of `rooms` it is computed from,
and the initial contents of the array it is composed in. -/
namespace SmartHospital.Mqtt

open TopicFilter

/-- The index of `rooms` that the answer to a topic uses. -/
def consulted (sign : CharSign) (outTopic : CArray buffLen) (name : Bytes) : Option Int :=
  (parseTopic sign (name ++ [0]) outTopic).map fun parsed => parsed.room - 1

/-- Thresholds of the room of `first` have no effect on the answer to `second`. -/
def Isolated (sign : CharSign) (outMessage : CArray messageLen) (outTopic : CArray buffLen) (first : Bytes)
    (second : MosquittoMessage) : Prop :=
  ∀ rooms rooms' : Rooms, (∀ k : Fin 3, consulted sign outTopic first ≠ some (k : Int) → rooms.get k = rooms'.get k) →
    onMessage sign rooms outMessage outTopic second = onMessage sign rooms' outMessage outTopic second

def published (sign : CharSign) (rooms : Rooms) (outTopic : CArray buffLen) (msg : MosquittoMessage)
    (outMessage : CArray messageLen) : Option Bytes :=
  (onMessage sign rooms outMessage outTopic msg).map Publish.payload

section

variable {sign : CharSign} {rooms : Rooms} {s : Sensors} {level payload : Bytes}

theorem consulted_eq (sign : CharSign) (outTopic : CArray buffLen) (single : slash ∉ level) (fits : Fits level s) :
    consulted sign outTopic (topic level s.name) = some (sign.value (marker level) - sign.value 48 - 1) := by
  obtain ⟨parsed,done,number,_⟩ := parseTopic_fits sign single fits outTopic
  rw [consulted,done,Option.map_some,number]

/-- An answer in bounds is chosen by the reading and one element of `rooms`. -/
theorem inBounds_consulted (inBounds : InBounds level s payload) (notDoor : s ≠ .door) :
    ∃ (reading : UInt8) (k : Fin 3), payload.head? = some reading ∧ level.getLast? = some (marker level) ∧
      ∀ sign : CharSign, sign.value (marker level) - sign.value 48 - 1 = (k : Int) := by
  rcases inBounds.consulted with door | ⟨nonempty,c,last,digit⟩
  · exact absurd door notDoor
  · obtain ⟨reading,rest,rfl⟩ := List.exists_cons_of_ne_nil nonempty
    have same : marker level = c := by rw [marker,last,Option.getD_some]
    obtain ⟨low,high⟩ := digit
    refine ⟨reading,⟨c.toNat - 49,by omega⟩,rfl,same ▸ last,?_⟩
    intro sign
    have value := (sign.value_eq_iff (c := c) (show c.toNat < 128 by omega)).mpr rfl
    rw [same,value_zero,value]
    simp only
    omega

theorem Rooms.at?_fin (rooms : Rooms) (k : Fin 3) : rooms.at? (k : Int) = some (rooms.get k) := by
  have nonneg : (0 : Int) ≤ (k : Int) := Int.natCast_nonneg _
  rw [Rooms.at?,if_pos nonneg,Int.toNat_natCast,Rooms.getElem?_fin]

/-- The last characters of the levels of two answers are the same just if the elements are. -/
theorem consulted_ne_iff {level₁ level₂ payload₁ payload₂ : Bytes} (sign : CharSign) (outTopic : CArray buffLen)
    (notDoor : s ≠ .door) (single₁ : slash ∉ level₁) (single₂ : slash ∉ level₂)
    (inBounds₁ : InBounds level₁ s payload₁) (inBounds₂ : InBounds level₂ s payload₂) :
    consulted sign outTopic (topic level₁ s.name) ≠ consulted sign outTopic (topic level₂ s.name) ↔
      level₁.getLast? ≠ level₂.getLast? := by
  obtain ⟨_,_,_,last₁,_⟩ := inBounds_consulted inBounds₁ notDoor
  obtain ⟨_,_,_,last₂,_⟩ := inBounds_consulted inBounds₂ notDoor
  have values := sign.value_inj (c := marker level₁) (d := marker level₂)
  rw [consulted_eq sign outTopic single₁ inBounds₁.fits,consulted_eq sign outTopic single₂ inBounds₂.fits,last₁,last₂]
  simp only [ne_eq,Option.some.injEq,← values]
  omega

/-- Below every reading, and above. -/
def lowRoom : Room := ⟨-129, -129, -129⟩
def highRoom : Room := ⟨256, 256, 256⟩

theorem word_low_ne_high (notDoor : s ≠ .door) (sign : CharSign) (reading : UInt8) :
    word s (sign.value reading) lowRoom ≠ word s (sign.value reading) highRoom := by
  obtain ⟨least,most⟩ := sign.value_range reading
  have below : ¬ sign.value reading < -129 := by omega
  have under : sign.value reading < 256 := by omega
  have above : sign.value reading > -129 := by omega
  have notOver : ¬ sign.value reading > 256 := by omega
  cases s with
  | temperature => simp only [word,lowRoom,highRoom,below,under,if_true,if_false]; decide
  | indorLight => simp only [word,lowRoom,highRoom,below,under,if_true,if_false]; decide
  | outLight => simp only [word,lowRoom,highRoom,above,notOver,if_true,if_false]; decide
  | door => exact absurd rfl notDoor

theorem answerText_fin {reading : UInt8} {k : Fin 3} (notDoor : s ≠ .door) (first : payload.head? = some reading)
    (index : room - 1 = (k : Int)) (rooms : Rooms) :
    answerText sign rooms s payload room = some (word s (sign.value reading) (rooms.get k)) := by
  rw [answerText,if_neg notDoor,first,Option.bind_some,index,Rooms.at?_fin,Option.map_some]

end

section

variable {s : Sensors} {level₁ level₂ payload₁ payload₂ : Bytes}

/-- Two levels are answered in isolation exactly if they end in different characters. -/
theorem isolated_iff (sign : CharSign) (outMessage : CArray messageLen) (outTopic : CArray buffLen)
    (notDoor : s ≠ .door) (single₁ : slash ∉ level₁) (single₂ : slash ∉ level₂)
    (inBounds₁ : InBounds level₁ s payload₁) (inBounds₂ : InBounds level₂ s payload₂) :
    Isolated sign outMessage outTopic (topic level₁ s.name) ⟨topic level₂ s.name, payload₂⟩ ↔
      level₁.getLast? ≠ level₂.getLast? := by
  rw [← consulted_ne_iff sign outTopic notDoor single₁ single₂ inBounds₁ inBounds₂]
  obtain ⟨reading,k,first,_,index⟩ := inBounds_consulted inBounds₂ notDoor
  have element := consulted_eq sign outTopic single₂ inBounds₂.fits
  rw [index sign] at element
  have answer (rooms : Rooms) : onMessage sign rooms outMessage outTopic ⟨topic level₂ s.name, payload₂⟩ = _ :=
    onMessage_fits single₂ inBounds₂.fits outMessage outTopic
  simp only [answerText_fin notDoor first (index sign),Option.map_some] at answer
  rw [Isolated,element]
  constructor
  · intro isolated same
    -- the one element both answers use is moved across the reading
    have apart := isolated (Vector.replicate 3 lowRoom) ((Vector.replicate 3 lowRoom).setIfInBounds k highRoom) ?_
    · rw [answer,answer] at apart
      have payloads := congrArg (fun p => upToNul p.payload) (Option.some.inj apart)
      simp only [upToNul_append_nul,upToNul_of_free (word_nul_free _ _ _)] at payloads
      have before : (Vector.replicate 3 lowRoom).get k = lowRoom := Vector.getElem_replicate k.isLt
      rw [Rooms.get_setIfInBounds,if_pos rfl,before] at payloads
      exact word_low_ne_high notDoor sign reading payloads
    · intro other elsewhere
      have different : k ≠ other := by
        rintro rfl
        exact elsewhere same
      rw [Rooms.get_setIfInBounds,if_neg different.symm]
  · intro different rooms rooms' agree
    rw [answer,answer,agree k different]

/-- Two answers are computed from different elements of `rooms`, and neither room's
thresholds matter to the other, exactly if the levels end in different characters. -/
theorem room_isolation_iff (sign : CharSign) (outMessage : CArray messageLen) (outTopic : CArray buffLen)
    (notDoor : s ≠ .door) (single₁ : slash ∉ level₁) (single₂ : slash ∉ level₂)
    (inBounds₁ : InBounds level₁ s payload₁) (inBounds₂ : InBounds level₂ s payload₂) :
    (consulted sign outTopic (topic level₁ s.name) ≠ consulted sign outTopic (topic level₂ s.name) ↔
      level₁.getLast? ≠ level₂.getLast?) ∧
    (Isolated sign outMessage outTopic (topic level₁ s.name) ⟨topic level₂ s.name, payload₂⟩ ↔
      level₁.getLast? ≠ level₂.getLast?) :=
  ⟨consulted_ne_iff sign outTopic notDoor single₁ single₂ inBounds₁ inBounds₂,
    isolated_iff sign outMessage outTopic notDoor single₁ single₂ inBounds₁ inBounds₂⟩

end

theorem first_room_answered : InBounds (Bytes.ofString "1") .temperature [20] :=
  ⟨by decide,.inr ⟨by decide,49,rfl,by unfold IsRoom; decide⟩⟩

theorem second_room_answered : InBounds (Bytes.ofString "2") .temperature [20] :=
  ⟨by decide,.inr ⟨by decide,50,rfl,by unfold IsRoom; decide⟩⟩

theorem eleventh_room_answered : InBounds (Bytes.ofString "11") .temperature [20] :=
  ⟨by decide,.inr ⟨by decide,49,rfl,by unfold IsRoom; decide⟩⟩

theorem first_and_second_isolated :
    Isolated .signed (CArray.zeros messageLen) (CArray.zeros buffLen)
      (topic (Bytes.ofString "1") Sensors.temperature.name)
      ⟨topic (Bytes.ofString "2") Sensors.temperature.name, [20]⟩ :=
  (room_isolation_iff .signed _ _ (by decide) (show slash ∉ Bytes.ofString "1" by decide)
    (show slash ∉ Bytes.ofString "2" by decide) first_room_answered second_room_answered).2.mpr (by decide)

/-- A room 11 is answered with the thresholds of room 1. -/
theorem eleventh_room_not_isolated :
    Bytes.ofString "1" ≠ Bytes.ofString "11" ∧
      InBounds (Bytes.ofString "1") .temperature [20] ∧ InBounds (Bytes.ofString "11") .temperature [20] ∧
      consulted .signed (CArray.zeros buffLen) (topic (Bytes.ofString "1") Sensors.temperature.name) =
        consulted .signed (CArray.zeros buffLen) (topic (Bytes.ofString "11") Sensors.temperature.name) ∧
      ¬ Isolated .signed (CArray.zeros messageLen) (CArray.zeros buffLen)
        (topic (Bytes.ofString "1") Sensors.temperature.name)
        ⟨topic (Bytes.ofString "11") Sensors.temperature.name, [20]⟩ := by
  have one : slash ∉ Bytes.ofString "1" := by decide
  have eleven : slash ∉ Bytes.ofString "11" := by decide
  refine ⟨by decide,first_room_answered,eleventh_room_answered,?_,?_⟩
  · rw [consulted_eq _ _ one first_room_answered.fits,consulted_eq _ _ eleven eleventh_room_answered.fits]
    rfl
  · intro isolated
    have different := (isolated_iff .signed _ _ (by decide) one eleven first_room_answered eleventh_room_answered).mp
      isolated
    exact different rfl

section

variable {s : Sensors} {level payload : Bytes}

/-- Two published payloads agree exactly as far as the initial arrays do behind the
terminator of the command; so no message is answered without bytes of the stack. -/
theorem published_leaks (sign : CharSign) (rooms : Rooms) (outTopic : CArray buffLen) (single : slash ∉ level)
    (inBounds : InBounds level s payload) :
    (∃ text, answerText sign rooms s payload (sign.value (marker level) - sign.value 48) = some text ∧
      ∀ first second : CArray messageLen,
        published sign rooms outTopic ⟨topic level s.name, payload⟩ first =
            published sign rooms outTopic ⟨topic level s.name, payload⟩ second ↔
          first.cells.drop (text.length + 1) = second.cells.drop (text.length + 1)) ∧
    ¬ ∀ first second : CArray messageLen,
      published sign rooms outTopic ⟨topic level s.name, payload⟩ first =
        published sign rooms outTopic ⟨topic level s.name, payload⟩ second := by
  obtain ⟨text,answered⟩ := Option.isSome_iff_exists.mp ((answerText_isSome_iff sign rooms).mpr inBounds.consulted)
  have bytes (outMessage : CArray messageLen) :
      published sign rooms outTopic ⟨topic level s.name, payload⟩ outMessage =
        some (text ++ 0 :: outMessage.cells.drop (text.length + 1)) := by
    rw [published,onMessage_fits single inBounds.fits,answered]
    rfl
  have agree (first second : CArray messageLen) :
      published sign rooms outTopic ⟨topic level s.name, payload⟩ first =
          published sign rooms outTopic ⟨topic level s.name, payload⟩ second ↔
        first.cells.drop (text.length + 1) = second.cells.drop (text.length + 1) := by
    rw [bytes,bytes]
    simp
  refine ⟨⟨text,answered,agree⟩,?_⟩
  intro same
  have tails := (agree (CArray.zeros messageLen) ⟨List.replicate messageLen 1,List.length_replicate⟩).mp (same _ _)
  have short := answerText_length answered
  obtain ⟨k,more⟩ : ∃ k, messageLen - (text.length + 1) = k + 1 := ⟨messageLen - text.length - 2,by
    simp only [messageLen]
    omega⟩
  simp [CArray.zeros,List.drop_replicate,more,List.replicate_succ] at tails

end

/-- The reading of the first room is published with what was in the array. -/
theorem first_room_leaks : ¬ ∀ first second : CArray messageLen,
    published .signed initialRooms (CArray.zeros buffLen)
        ⟨topic (Bytes.ofString "1") Sensors.temperature.name, [20]⟩ first =
      published .signed initialRooms (CArray.zeros buffLen)
        ⟨topic (Bytes.ofString "1") Sensors.temperature.name, [20]⟩ second :=
  (published_leaks .signed _ _ (show slash ∉ Bytes.ofString "1" by decide) first_room_answered).2

/-- A door is locked with nine letters, a terminator and ten bytes of the stack. -/
theorem door_leaks :
    published .signed initialRooms (CArray.zeros buffLen)
        ⟨topic (Bytes.ofString "1") Sensors.door.name, [1]⟩ (CArray.zeros messageLen) ≠
      published .signed initialRooms (CArray.zeros buffLen)
        ⟨topic (Bytes.ofString "1") Sensors.door.name, [1]⟩ ⟨List.replicate messageLen 1,List.length_replicate⟩ := by
  have single : slash ∉ Bytes.ofString "1" := by decide
  have fits : Fits (Bytes.ofString "1") .door := by decide
  rw [published,published,onMessage_fits single fits,onMessage_fits single fits]
  decide

end SmartHospital.Mqtt
