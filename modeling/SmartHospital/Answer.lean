import SmartHospital.Membership

/-! Which reply a decoded request calls for, and whether the reply has room in the
arrays it is composed in. -/
namespace SmartHospital.Controller

/-- The state the branches give `makeMessage`, if they call it. -/
def replyState (validClients : ControllerClass) (r : State) (regularMsg : Bool) : Option ControllerMsgState :=
  if r.clientMsg.receiverId = controllerName then
    if regularMsg = true then
      if validClients.isInList r.clientMsg.type r.clientMsg.purpose = true then some .ok else some .nok
    else if isInConnectedClients r r.clientMsg.senderId = true then none else some .rlsd
  else none

/-- The lists behind the critical sections of the branches. -/
def record (validClients : ControllerClass) (r : State) (regularMsg : Bool) : State :=
  match replyState validClients r regularMsg with
  | some .ok => enlist r
  | some _ => r
  | none => if r.clientMsg.receiverId = controllerName then renew r else r

variable {validClients : ControllerClass} {s r : State} {regularMsg : Bool} {st : ControllerMsgState}
  {received : Received} {host bytes : Bytes}

/-- The loop body in two parts: the lists, and the reply if there is one. -/
theorem receiveThreadFunction_answer (head : receive s received = .next (r, regularMsg)) :
    receiveThreadFunction validClients host s received =
      match replyState validClients r regularMsg with
      | some st => reply host (record validClients r regularMsg) st
      | none => .next (record validClients r regularMsg, none) := by
  simp only [receiveThreadFunction,head]
  by_cases mine : r.clientMsg.receiverId = controllerName
  · cases regularMsg with
    | true =>
      by_cases valid : validClients.isInList r.clientMsg.type r.clientMsg.purpose = true
      · simp [replyState,record,mine,valid]
      · simp [replyState,record,mine,valid]
    | false =>
      by_cases connected : isInConnectedClients r r.clientMsg.senderId = true
      · simp [replyState,record,mine,connected]
      · simp [replyState,record,mine,connected]
  · simp [replyState,record,mine]

/-- Neither list section touches what a reply is composed from. -/
theorem record_keeps (validClients : ControllerClass) (r : State) (regularMsg : Bool) :
    (record validClients r regularMsg).clientMsg = r.clientMsg ∧
      (record validClients r regularMsg).keepAlive = r.keepAlive ∧
      (record validClients r regularMsg).buffer = r.buffer := by
  unfold record
  split
  · exact enlist_keeps r
  · exact ⟨rfl,rfl,rfl⟩
  · split <;> exact ⟨rfl,rfl,rfl⟩

theorem replyState_rlsd (called : replyState validClients r regularMsg = some .rlsd) :
    r.clientMsg.receiverId = controllerName ∧ regularMsg = false := by
  unfold replyState at called
  repeat' split at called
  all_goals simp_all

/-- The text has at most 254 characters, and the buffer is written within its bounds:
the true length in front, the text behind it. -/
structure Capacity (host : Bytes) (keepAlive : Int) (clientId : Bytes) (st : ControllerMsgState) : Prop where
  fits : (replyText host keepAlive clientId st).length ≤ 254
  framed : ∃ buffer count rest, makeMessage host keepAlive clientId st = some buffer ∧
    count.toNat = (replyText host keepAlive clientId st).length + 1 ∧
    buffer.cells = count :: (replyText host keepAlive clientId st ++ 0 :: rest)

/-- The lengths that leave a reply its room: none for a release, that of the id for a
refusal, and those of the id, the host and the number for an OK. -/
def HasRoom (host : Bytes) (keepAlive : Int) (clientId : Bytes) : ControllerMsgState → Prop
  | .rlsd => True
  | .nok => clientId.length ≤ 237
  | .ok => clientId.length + host.length + (Decimal.print keepAlive).length ≤ 236 ∧ KeepAliveFits keepAlive

section Room

variable {clientId : Bytes} {keepAlive : Int}

theorem capacity_iff (idFree : 0 ∉ clientId) (hostFree : 0 ∉ host) : Capacity host keepAlive clientId st ↔
    (replyText host keepAlive clientId st).length ≤ 254 ∧ (st = .ok → KeepAliveFits keepAlive) := by
  constructor
  · rintro ⟨fits,buffer,_,_,composed,_⟩
    refine ⟨fits,?_⟩
    rintro rfl
    exact makeMessage_keepAlive composed
  · rintro ⟨fits,room⟩
    obtain ⟨buffer,composed,cells⟩ := makeMessage_composes idFree hostFree room (Nat.le_succ_of_le fits)
    obtain ⟨spare,left⟩ : ∃ spare, buffLen - ((replyText host keepAlive clientId st).length + 1) = spare + 1 :=
      ⟨254 - (replyText host keepAlive clientId st).length,by simp only [buffLen]; omega⟩
    rw [framed,if_pos fits,left,List.replicate_succ] at cells
    exact ⟨fits,buffer,_,_,composed,length_byte fits,cells⟩

theorem replyText_ok_length : (replyText host keepAlive clientId .ok).length =
    clientId.length + host.length + (Decimal.print keepAlive).length + 18 := by
  have word : (ControllerMsgState.word .ok).length = 2 := rfl
  rw [replyText_length]
  simp only [replyBody,List.length_append,List.length_cons,word]
  omega

theorem replyText_nok_length : (replyText host keepAlive clientId .nok).length = clientId.length + 17 := by
  rw [replyText_length]
  rfl

theorem replyText_rlsd_length : (replyText host keepAlive clientId .rlsd).length = clientId.length + 18 := by
  rw [replyText_length]
  rfl

theorem capacity_iff_room (idFree : 0 ∉ clientId) (hostFree : 0 ∉ host)
    (release : st = .rlsd → clientId.length ≤ 236) :
    Capacity host keepAlive clientId st ↔ HasRoom host keepAlive clientId st := by
  rw [capacity_iff idFree hostFree]
  cases st with
  | ok =>
    rw [replyText_ok_length,HasRoom]
    constructor
    · rintro ⟨fits,room⟩
      exact ⟨by omega,room rfl⟩
    · rintro ⟨short,room⟩
      exact ⟨by omega,fun _ => room⟩
  | nok =>
    rw [replyText_nok_length,HasRoom]
    simp only [reduceCtorEq,false_implies,and_true]
    omega
  | rlsd =>
    have short := release rfl
    rw [replyText_rlsd_length,HasRoom]
    simp only [reduceCtorEq,false_implies,and_true,iff_true]
    omega

end Room

/-- The Alive in a buffer of 256 bytes leaves 236 for the id: the release that answers it
fits to the byte. -/
theorem alive_sender_length (head : receive s (.datagram bytes) = .next (r, false))
    (mine : r.clientMsg.receiverId = controllerName) : r.clientMsg.senderId.length ≤ 236 := by
  obtain ⟨msg,text,regular,rfl⟩ := receive_next head
  have room := CArray.length_cstr?_lt text
  have short : Short msg := room.trans (by decide)
  rw [ClientMessage.parse_eq _ short] at regular mine ⊢
  split at regular
  · rename_i alive
    simp only [alive,if_true] at mine ⊢
    have word : (field 2 msg).length = 5 := congrArg List.length alive
    have name : (field 0 msg).length = 12 := congrArg List.length mine
    have third : field 2 msg ≠ [] := List.ne_nil_of_length_eq_add_one word
    have whole := length_fields third
    simp only [buffLen] at room
    omega
  · contradiction

/-- A reply to any datagram, in any state and for any address of the host, keeps within
its arrays and its length byte exactly if the decoded id leaves it the room. -/
theorem reply_capacity_iff (a b c d : UInt8) (head : receive s (.datagram bytes) = .next (r, regularMsg))
    (called : replyState validClients r regularMsg = some st) :
    Capacity (inetNtoa a b c d) s.keepAlive r.clientMsg.senderId st ↔
      HasRoom (inetNtoa a b c d) s.keepAlive r.clientMsg.senderId st := by
  apply capacity_iff_room (receive_sender head).1 (inetNtoa_nul_free a b c d)
  rintro rfl
  obtain ⟨mine,rfl⟩ := replyState_rlsd called
  exact alive_sender_length head mine

theorem refusal_has_room : ∃ r,
    receive initial (.datagram (Bytes.ofString "Controller_1:Client_1:x:y" ++ [0])) = .next (r, true) ∧
      replyState doorSensors r true = some .nok ∧ Capacity doorHost initial.keepAlive r.clientMsg.senderId .nok := by
  obtain ⟨r,head,called,short⟩ : ∃ r,
    receive initial (.datagram (Bytes.ofString "Controller_1:Client_1:x:y" ++ [0])) = .next (r, true) ∧
      replyState doorSensors r true = some .nok ∧ r.clientMsg.senderId.length ≤ 237 := ⟨_,rfl,rfl,by decide⟩
  exact ⟨r,head,called,(reply_capacity_iff 192 168 1 1 head called).mpr short⟩

def bareRequest (clientId : Bytes) : Bytes := controllerName ++ colon :: clientId

theorem bareRequest_parse {clientId : Bytes} (single : colon ∉ clientId) (short : clientId.length ≤ 241) :
    (self : ClientMessage) → self.parse (bareRequest clientId) = (true, ⟨⟨controllerName, clientId⟩, [], []⟩) := by
  intro self
  have range : Short (bareRequest clientId) := by
    have name : controllerName.length = 12 := rfl
    simp only [Short,bareRequest,List.length_append,List.length_cons,name]
    omega
  have empty : ([] : Bytes) ≠ Bytes.ofString "Alive" := by decide
  rw [ClientMessage.parse_eq self range,bareRequest,field_succ controllerName_colon_free,
    field_succ controllerName_colon_free,field_succ controllerName_colon_free,field_zero controllerName_colon_free,
    field_last single,field_beyond single,field_beyond single,if_neg empty]

theorem compose_overlong (nulFree : 0 ∉ s.clientMsg.senderId)
    (long : 255 < (replyText (upToNul host) s.keepAlive s.clientMsg.senderId st).length) :
    compose host s st = none := by
  apply Option.eq_none_iff_forall_ne_some.mpr
  intro s' composed
  obtain ⟨buffer,made,_⟩ := compose_eq_some.mp composed
  rw [← makeMessage_host] at made
  have within := (makeMessage_framed nulFree (nul_free_upToNul host) made).1
  omega

theorem overlong_undefined (head : receive s (.datagram bytes) = .next (r, regularMsg))
    (called : replyState validClients r regularMsg = some st)
    (long : 255 < (replyText (upToNul host) r.keepAlive r.clientMsg.senderId st).length) :
    receiveThreadFunction validClients host s (.datagram bytes) = .undefined := by
  obtain ⟨sameMsg,sameNumber,_⟩ := record_keeps validClients r regularMsg
  have nulFree := (receive_sender head).1
  rw [← sameMsg] at nulFree long
  rw [← sameNumber] at long
  rw [receiveThreadFunction_answer head,called]
  simp only [reply,compose_overlong nulFree long]

def overlongId : Bytes := List.replicate 241 65

theorem overlongId_head : ∃ r, receive initial (.datagram (bareRequest overlongId ++ [0])) = .next (r, true) ∧
    r.clientMsg = ⟨⟨controllerName, overlongId⟩, [], []⟩ := by
  have only : ∀ b ≠ 65, b ∉ overlongId := fun b other member => other (List.eq_of_mem_replicate member)
  have length : overlongId.length = 241 := List.length_replicate
  have free : 0 ∉ bareRequest overlongId := by simp [bareRequest,only]
  have fits : (bareRequest overlongId).length ≤ 254 := by
    rw [bareRequest,List.length_append,List.length_cons,length]
    decide
  have head := receive_text initial free fits
  rw [bareRequest_parse (only colon (by decide)) length.le] at head
  exact ⟨_,head,rfl⟩

/-- Its request fits the receive buffer, and the refusal runs past the end of `data`. -/
theorem refusal_overruns : ∃ r, receive initial (.datagram (bareRequest overlongId ++ [0])) = .next (r, true) ∧
    replyState doorSensors r true = some .nok ∧ ¬ Capacity doorHost initial.keepAlive r.clientMsg.senderId .nok ∧
    receiveThreadFunction doorSensors doorHost initial (.datagram (bareRequest overlongId ++ [0])) = .undefined := by
  have length : overlongId.length = 241 := List.length_replicate
  obtain ⟨r,head,decoded⟩ := overlongId_head
  have called : replyState doorSensors r true = some .nok := by
    simp only [replyState,decoded]
    rfl
  refine ⟨r,head,called,?_,overlong_undefined head called ?_⟩
  · rintro ⟨within,_⟩
    rw [replyText_nok_length,decoded,length] at within
    omega
  · rw [replyText_nok_length,decoded,length]
    omega

end SmartHospital.Controller
