import SmartHospital.Request

/-! The bytes the two request threads of ssdpClient.cpp pass to `sendto`, with the
array the text is composed in. `none` is a write past that array. -/
namespace SmartHospital.Client

/-- `sizeof str` where `str` is initialized with the controller's name. -/
def strSize : Nat := controllerName.length + 1

/-- A thread up to its loop: `buffLen` and the contents of `buffer`, for an array of any size. -/
def request (size : Nat) (clientDescription : Bytes) : Option (UInt8 × Bytes) := do
  let str ← CArray.padded size controllerName
  let str ← str.strcat clientDescription
  let text ← str.cstr?
  let buffLen := UInt8.ofNat (text.length + 1)
  let buffer ← str.slice 0 buffLen.toNat
  some (buffLen, buffer)

def sendThreadFunction (clientName type attr : Bytes) : Option (UInt8 × Bytes) :=
  let clientDescription := [colon] ++ clientName ++ [colon] ++ type ++ [colon] ++ attr
  request strSize clientDescription

def keepAliveThreadFunction (clientName : Bytes) : Option (UInt8 × Bytes) :=
  let clientDescription := [colon] ++ clientName ++ [colon] ++ Bytes.ofString "Alive"
  request strSize clientDescription

/-- No write past the array, the whole text with its terminator in the datagram, and
its length in the byte. -/
def Complete (text : Bytes) (sent : Option (UInt8 × Bytes)) : Prop :=
  ∃ buffLen, sent = some (buffLen, text ++ [0]) ∧ buffLen.toNat = text.length + 1

theorem not_complete_none (text : Bytes) : ¬ Complete text none := by
  rintro ⟨_,sent,_⟩
  contradiction

section

variable {description : Bytes}

theorem request_eq (size : Nat) (free : 0 ∉ description) :
    request size description = (CArray.padded size (controllerName ++ description)).bind fun str =>
      (str.slice 0 (UInt8.ofNat ((controllerName ++ description).length + 1)).toNat).map fun buffer =>
        (UInt8.ofNat ((controllerName ++ description).length + 1), buffer) := by
  have nameFree : 0 ∉ controllerName := by decide
  have textFree : 0 ∉ controllerName ++ description := by simp [nameFree,free]
  simp only [request,Option.bind_eq_bind]
  rw [CArray.padded_bind_strcat nameFree free]
  cases composed : CArray.padded size (controllerName ++ description) with
  | none => rfl
  | some str =>
    rw [Option.bind_some,Option.bind_some,CArray.cstr?_padded composed textFree]
    simp [Option.map_eq_bind]

theorem request_transmitted (size : Nat) (free : 0 ∉ description) (room : (composed description).length < size) :
    request size description =
      some (UInt8.ofNat ((composed description).length + 1), transmitted (composed description)) := by
  rw [composed,upToNul_of_free free] at *
  rw [request_eq size free,transmitted]
  generalize controllerName ++ description = text at *
  obtain ⟨str,held,cells⟩ := CArray.padded_of_lt room
  have byte : (UInt8.ofNat (text.length + 1)).toNat ≤ text.length + 1 := by
    rw [UInt8.toNat_ofNat']
    exact Nat.mod_le _ _
  have inside : 0 + (UInt8.ofNat (text.length + 1)).toNat ≤ size := by omega
  obtain ⟨rest,more⟩ : ∃ rest, size - text.length = rest + 1 := ⟨size - text.length - 1,by omega⟩
  have terminated : str.cells = text ++ [0] ++ List.replicate rest 0 := by
    rw [cells,more,List.replicate_succ,List.append_assoc,List.singleton_append]
  have whole : (UInt8.ofNat (text.length + 1)).toNat ≤ (text ++ [0]).length := by
    rw [List.length_append,List.length_singleton]
    exact byte
  rw [held,Option.bind_some,CArray.slice_of_le inside,terminated,List.drop_zero,
    List.take_append_of_le_length whole]
  rfl

theorem complete_iff (size : Nat) (free : 0 ∉ description) :
    Complete (composed description) (request size description) ↔ (composed description).length < min size 255 := by
  rw [Nat.lt_min]
  constructor
  · rintro ⟨buffLen,sent,length⟩
    have byte := buffLen.toNat_lt
    rw [request_eq size free] at sent
    obtain ⟨str,held,_⟩ := Option.bind_eq_some_iff.mp sent
    have room := (CArray.padded_eq_some held).1
    rw [composed,upToNul_of_free free] at *
    exact ⟨room,by omega⟩
  · rintro ⟨room,short⟩
    refine ⟨UInt8.ofNat ((composed description).length + 1),?_,?_⟩
    · rw [request_transmitted size free room,transmitted_eq (Nat.le_of_lt_succ short)]
    · rw [UInt8.toNat_ofNat']
      omega

theorem request_overrun (nonempty : description ≠ []) (free : 0 ∉ description) :
    request strSize description = none := by
  have long : strSize ≤ (controllerName ++ description).length := by
    have some := List.length_pos_iff.mpr nonempty
    rw [List.length_append,strSize]
    omega
  rw [request_eq strSize free,CArray.padded_of_le long]
  rfl

end

section

variable {clientName type attr : Bytes}

/-- Neither thread ever composes its text inside the array, so neither datagram is complete. -/
theorem requests_never_complete (nameFree : 0 ∉ clientName) (typeFree : 0 ∉ type) (attrFree : 0 ∉ attr) :
    sendThreadFunction clientName type attr = none ∧ keepAliveThreadFunction clientName = none ∧
      ¬ Complete (announcement clientName type attr) (sendThreadFunction clientName type attr) ∧
      ¬ Complete (aliveMessage clientName) (keepAliveThreadFunction clientName) := by
  have wordFree : 0 ∉ Bytes.ofString "Alive" := by decide
  have send : sendThreadFunction clientName type attr = none :=
    request_overrun (by simp) (by simp [nameFree,typeFree,attrFree,colon])
  have keepAlive : keepAliveThreadFunction clientName = none :=
    request_overrun (by simp) (by simp [nameFree,wordFree,colon])
  refine ⟨send,keepAlive,?_,?_⟩
  · rw [send]
    exact not_complete_none _
  · rw [keepAlive]
    exact not_complete_none _

end

theorem requests_never_complete_empty : ¬ Complete (announcement [] [] []) (sendThreadFunction [] [] []) :=
  have free : 0 ∉ ([] : Bytes) := List.not_mem_nil
  (requests_never_complete free free free).2.2.1

/-- The MQTT controller announces itself and already writes past the array. -/
theorem controller_request_incomplete :
    ¬ Complete (announcement (Bytes.ofString "Controller") (Bytes.ofString "controller") (Bytes.ofString "controller"))
      (sendThreadFunction (Bytes.ofString "Controller") (Bytes.ofString "controller")
        (Bytes.ofString "controller")) := by
  have overrun : sendThreadFunction (Bytes.ofString "Controller") (Bytes.ofString "controller")
    (Bytes.ofString "controller") = none := by decide
  rw [overrun]
  exact not_complete_none _

end SmartHospital.Client
