import SmartHospital.Reply

/-! The two request encoders of ssdpClient.cpp. Both append a description to the
controller's name in `str`; the text is taken as composed there. -/
namespace SmartHospital.Client

/-- The text in `str` once `strcat` has appended the description's C string. -/
def composed (clientDescription : Bytes) : Bytes := controllerName ++ upToNul clientDescription

theorem composed_nul_free (clientDescription : Bytes) : 0 ∉ composed clientDescription := by
  simp [composed,nul_free_upToNul]

/-- The text `SendThreadFunction` builds. -/
def announcement (clientName type attr : Bytes) : Bytes :=
  composed ([colon] ++ clientName ++ [colon] ++ type ++ [colon] ++ attr)

/-- The text `KeepAliveThreadFunction` builds. -/
def aliveMessage (clientName : Bytes) : Bytes :=
  composed ([colon] ++ clientName ++ [colon] ++ Bytes.ofString "Alive")

/-- The bytes both threads give to `sendto`: the length goes through one byte. -/
def transmitted (str : Bytes) : Bytes :=
  let buffLen := UInt8.ofNat (str.length + 1)
  (str ++ [0]).take buffLen.toNat

theorem transmitted_eq (fits : str.length ≤ 254) : transmitted str = str ++ [0] := by
  have length : (UInt8.ofNat (List.length str + 1)).toNat = str.length + 1 := by
    rw [UInt8.toNat_ofNat']
    omega
  rw [transmitted,length]
  exact List.take_of_length_le (by simp)

section

variable {clientName type attr : Bytes}

theorem announcement_eq (nameFree : 0 ∉ clientName) (typeFree : 0 ∉ type) (attrFree : 0 ∉ attr) :
    announcement clientName type attr =
      controllerName ++ colon :: (clientName ++ colon :: (type ++ colon :: attr)) := by
  rw [announcement,composed,upToNul_of_free (by simp [nameFree,typeFree,attrFree])]
  simp

theorem aliveMessage_eq (nameFree : 0 ∉ clientName) :
    aliveMessage clientName = controllerName ++ colon :: (clientName ++ colon :: Bytes.ofString "Alive") := by
  have wordFree : 0 ∉ Bytes.ofString "Alive" := by decide
  rw [aliveMessage,composed,upToNul_of_free (by simp [nameFree,wordFree])]
  simp

theorem aliveMessage_length (nameFree : 0 ∉ clientName) :
    (aliveMessage clientName).length = clientName.length + 19 := by
  have word : (Bytes.ofString "Alive").length = 5 := rfl
  have name : controllerName.length = 12 := rfl
  rw [aliveMessage_eq nameFree]
  simp only [List.length_append,List.length_cons,word,name]
  omega

/-- Field by field, an announcement reads back when no earlier field is split. -/
theorem announcement_fields (nameFree : 0 ∉ clientName) (typeFree : 0 ∉ type) (attrFree : 0 ∉ attr) :
    field 0 (announcement clientName type attr) = controllerName ∧
    (field 1 (announcement clientName type attr) = clientName ↔ colon ∉ clientName) ∧
    (colon ∉ clientName → (field 2 (announcement clientName type attr) = type ↔ colon ∉ type)) ∧
    (colon ∉ clientName → colon ∉ type →
      (field 3 (announcement clientName type attr) = attr ↔ colon ∉ attr)) := by
  rw [announcement_eq nameFree typeFree attrFree,field_succ controllerName_colon_free,
    field_succ controllerName_colon_free,field_succ controllerName_colon_free]
  refine ⟨field_zero controllerName_colon_free _,Fields.first_eq_iff,?_,?_⟩
  · intro name
    rw [field_succ name]
    exact Fields.first_eq_iff
  · intro name kind
    rw [field_succ name,field_succ kind]
    exact Fields.last_eq_iff

theorem announcement_decodes (self : ClientMessage) (nameFree : 0 ∉ clientName) (typeFree : 0 ∉ type)
    (attrFree : 0 ∉ attr) (short : Short (announcement clientName type attr)) :
    self.parse (announcement clientName type attr) =
        (true, ⟨⟨controllerName, clientName⟩, type, attr⟩) ↔
      colon ∉ clientName ∧ colon ∉ type ∧ colon ∉ attr ∧ type ≠ Bytes.ofString "Alive" := by
  obtain ⟨receiver,sender,kind,purpose⟩ := announcement_fields nameFree typeFree attrFree
  rw [ClientMessage.parse_eq self short]
  constructor
  · intro parsed
    split at parsed
    · simp at parsed
    · rename_i regular
      simp only [Prod.mk.injEq,ClientMessage.mk.injEq,Message.mk.injEq,true_and] at parsed
      obtain ⟨⟨_,senderEq⟩,typeEq,purposeEq⟩ := parsed
      have name := sender.mp senderEq
      have type := (kind name).mp typeEq
      exact ⟨name,type,(purpose name type).mp purposeEq,typeEq ▸ regular⟩
  · rintro ⟨name,single,last,regular⟩
    rw [receiver,sender.mpr name,(kind name).mpr single,(purpose name single).mpr last,if_neg regular]

theorem alive_decodes (self : ClientMessage) (nameFree : 0 ∉ clientName) (short : Short (aliveMessage clientName)) :
    ((self.parse (aliveMessage clientName)).1 = false ∧
      (self.parse (aliveMessage clientName)).2.receiverId = controllerName ∧
      (self.parse (aliveMessage clientName)).2.senderId = clientName) ↔ colon ∉ clientName := by
  rw [ClientMessage.parse_eq self short,aliveMessage_eq nameFree,field_succ controllerName_colon_free,
    field_zero controllerName_colon_free,field_succ controllerName_colon_free]
  constructor
  · rintro ⟨_,_,sender⟩
    apply Fields.first_eq_iff.mp
    split at sender <;> exact sender
  · intro name
    have word : field 0 (Bytes.ofString "Alive") = Bytes.ofString "Alive" := by decide
    rw [field_succ name,word,if_pos rfl]
    exact ⟨rfl,rfl,field_zero name _⟩

/-- Both requests against the one decoder, whatever the object held before. -/
theorem request_round_trip (self : ClientMessage) (nameFree : 0 ∉ clientName) (typeFree : 0 ∉ type)
    (attrFree : 0 ∉ attr) (fits : (announcement clientName type attr).length ≤ 254) :
    (((self.parse (announcement clientName type attr)).1 = true ∧
        (self.parse (announcement clientName type attr)).2.receiverId = controllerName ∧
        (self.parse (announcement clientName type attr)).2.senderId = clientName ∧
        (self.parse (announcement clientName type attr)).2.type = type ∧
        (self.parse (announcement clientName type attr)).2.purpose = attr) ↔
      (colon ∉ clientName ∧ colon ∉ type ∧ colon ∉ attr ∧ type ≠ Bytes.ofString "Alive")) ∧
    (((self.parse (aliveMessage clientName)).1 = false ∧
        (self.parse (aliveMessage clientName)).2.receiverId = controllerName ∧
        (self.parse (aliveMessage clientName)).2.senderId = clientName) ↔ colon ∉ clientName) := by
  have short : Short (announcement clientName type attr) := by unfold Short; omega
  have length : (aliveMessage clientName).length ≤ 258 := by
    rw [announcement_eq nameFree typeFree attrFree] at fits
    rw [aliveMessage_length nameFree]
    have name : controllerName.length = 12 := rfl
    simp only [List.length_append,List.length_cons,name] at fits
    omega
  refine ⟨?_,alive_decodes self nameFree (by unfold Short; omega)⟩
  rw [← announcement_decodes self nameFree typeFree attrFree short]
  constructor
  · rintro ⟨regular,receiver,sender,kind,purpose⟩
    exact Prod.ext regular (ClientMessage.ext receiver sender kind purpose)
  · intro parsed
    rw [parsed]
    exact ⟨rfl,rfl,rfl,rfl,rfl⟩

end

/-- A temperature sensor as the JSON files describe it. -/
theorem sensor_request_round_trip :
    let self : ClientMessage := ⟨⟨[], Bytes.ofString "Client_2"⟩, [], Bytes.ofString "light"⟩
    let parsed := self.parse (announcement (Bytes.ofString "Client_1") (Bytes.ofString "sensor")
      (Bytes.ofString "temperature"))
    (parsed.1 = true ∧ parsed.2.receiverId = controllerName ∧ parsed.2.senderId = Bytes.ofString "Client_1" ∧
      parsed.2.type = Bytes.ofString "sensor" ∧ parsed.2.purpose = Bytes.ofString "temperature") ∧
    (self.parse (aliveMessage (Bytes.ofString "Client_1"))).1 = false :=
  have ⟨regular,alive⟩ := request_round_trip _ (by decide) (by decide) (by decide) (by decide)
  ⟨regular.mpr (by decide),(alive.mpr (by decide)).1⟩

end SmartHospital.Client
