import SmartHospital.Client

/-! A reply from the controller's encoder through the wire into a client's object. -/
namespace SmartHospital

theorem Client.act_controllerMsg (s : Client.State) : (Client.act s).controllerMsg = s.controllerMsg := by
  unfold Client.act
  repeat' split
  all_goals rfl

def decoded (host : Bytes) (keepAlive : Int) (clientId : Bytes) : ControllerMsgState → ControllerMessage
  | .ok => ⟨⟨clientId, controllerName⟩, .ok, keepAlive, host⟩
  | st => ⟨⟨clientId, controllerName⟩, st, 0, []⟩

section

variable {clientId host : Bytes} {keepAlive : Int} {st : ControllerMsgState}

theorem parse_replyText (self : ControllerMessage) (idSingle : colon ∉ clientId) (hostSingle : colon ∉ host)
    (low : Decimal.intMin ≤ keepAlive) (high : keepAlive ≤ Decimal.intMax)
    (short : Short (replyText host keepAlive clientId st)) :
    (self.parse (replyText host keepAlive clientId st)).2 = decoded host keepAlive clientId st := by
  rw [ControllerMessage.parse_eq self short,reply_receiver idSingle,reply_sender idSingle,reply_word idSingle]
  cases st with
  | ok =>
    rw [reply_host idSingle hostSingle,reply_number idSingle hostSingle,Decimal.extract_print low high]
    exact if_pos rfl
  | nok => rfl
  | rlsd => rfl

theorem parse_broker (self : ControllerMessage) (idSingle : colon ∉ clientId) (hostSingle : colon ∉ host)
    (short : Short (replyText host keepAlive clientId .ok)) :
    (self.parse (replyText host keepAlive clientId .ok)).2.brokerIP = host := by
  rw [ControllerMessage.parse_eq self short,reply_word idSingle,reply_host idSingle hostSingle]
  rfl

/-- The reply a sender puts on the wire is the one the client decodes: ids, state,
broker address and interval, for ids and hosts free of the separator and of NUL. -/
theorem reply_round_trip (clientName : Bytes) (s : Client.State)
    (idSingle : colon ∉ clientId) (idFree : 0 ∉ clientId) (hostSingle : colon ∉ host) (hostFree : 0 ∉ host)
    (low : 0 ≤ keepAlive) (high : keepAlive ≤ 999)
    (fits : (replyText host keepAlive clientId st).length ≤ 254) :
    ∃ buffer, makeMessage host keepAlive clientId st = some buffer ∧
      sendThreadFunction buffer = some (replyText host keepAlive clientId st ++ [0]) ∧
      ∃ after, Client.receiveThreadFunction clientName s
          (.datagram (replyText host keepAlive clientId st ++ [0])) = .next after ∧
        after.controllerMsg = decoded host keepAlive clientId st := by
  have room : st = .ok → KeepAliveFits keepAlive := fun _ => keepAlive_fits low high
  obtain ⟨buffer,composed,cells⟩ := makeMessage_composes idFree hostFree room (Nat.le_succ_of_le fits)
  refine ⟨buffer,composed,sendThreadFunction_framed cells fits,?_⟩
  have framed : (replyText host keepAlive clientId st ++ [0]).length ≤ 255 := length_terminated fits
  have text : upToNul (replyText host keepAlive clientId st ++ [0]) = replyText host keepAlive clientId st := by
    rw [upToNul_append_nul,upToNul_of_free (replyText_nul_free idFree hostFree)]
  have short : Short (replyText host keepAlive clientId st) := Nat.lt_of_le_of_lt fits (by decide)
  have parsed := parse_replyText s.controllerMsg idSingle hostSingle
    (low.trans' (by decide)) (high.trans (by decide)) short
  obtain ⟨stored,body⟩ := Client.receive_short clientName s framed
  rw [text,parsed] at body
  refine ⟨_,body,?_⟩
  split
  · exact Client.act_controllerMsg _
  · rfl

end

def longId : Bytes := List.replicate 200 65

/-- The length byte has its top bit set here. -/
theorem long_reply_round_trip :
    let text := replyText (Bytes.ofString "192.168.1.1") 60 longId .ok
    let s := Client.start (CArray.zeros buffLen) ⟨⟨[], []⟩, .nok, 7, []⟩
    ∃ buffer, makeMessage (Bytes.ofString "192.168.1.1") 60 longId .ok = some buffer ∧
      sendThreadFunction buffer = some (text ++ [0]) ∧
      ∃ after, Client.receiveThreadFunction (Bytes.ofString "Client_1") s (.datagram (text ++ [0])) = .next after ∧
        after.controllerMsg = decoded (Bytes.ofString "192.168.1.1") 60 longId .ok := by
  have absent : ∀ b ≠ 65, b ∉ longId := fun b other member => other (List.eq_of_mem_replicate member)
  have fits : (replyText (Bytes.ofString "192.168.1.1") 60 longId .ok).length ≤ 254 := by
    rw [replyText,List.length_append,longId,List.length_replicate]
    decide
  exact reply_round_trip _ _ (absent _ (by decide)) (absent _ (by decide)) (by decide) (by decide)
    (by decide) (by decide) fits

end SmartHospital
