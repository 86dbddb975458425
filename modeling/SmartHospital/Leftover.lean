import SmartHospital.Answer

/-! What the controller's handling of a datagram owes to the datagram, and what to the
bytes and the message object that earlier ones have left behind. -/
namespace SmartHospital.Controller

/-- What the handling is meant to depend on besides the datagram. -/
def SameControl (s t : State) : Prop :=
  s.connectedClients = t.connectedClients ∧ s.newConnectedClients = t.newConnectedClients ∧
    s.firstStart = t.firstStart ∧ s.keepAlive = t.keepAlive

/-- What a handled datagram shows: the bytes of the reply, if there is one, and the lists. -/
def shown : Outcome (State × Option ControllerMsgState) → Option (Option Bytes × List Bytes × List Bytes)
  | .next (s, answer) =>
    some (answer.bind fun _ => sendThreadFunction s.buffer, s.connectedClients, s.newConnectedClients)
  | _ => none

variable {validClients : ControllerClass} {host bytes : Bytes} {s t u r v : State} {regularMsg : Bool}
  {st : ControllerMsgState}

/-- Two decoded requests the branches cannot tell apart. An Alive leaves type and
purpose as an earlier request set them; no branch looks at them then. -/
structure Alike (r v : State) (regularMsg : Bool) : Prop where
  control : SameControl r v
  receiver : r.clientMsg.receiverId = v.clientMsg.receiverId
  sender : r.clientMsg.senderId = v.clientMsg.senderId
  kind : regularMsg = true → r.clientMsg.type = v.clientMsg.type ∧ r.clientMsg.purpose = v.clientMsg.purpose

theorem replyState_alike (validClients : ControllerClass) (alike : Alike r v regularMsg) :
    replyState validClients r regularMsg = replyState validClients v regularMsg := by
  obtain ⟨⟨connected,_,_,_⟩,receiver,sender,kind⟩ := alike
  cases regularMsg with
  | true =>
    obtain ⟨type,purpose⟩ := kind rfl
    simp only [replyState,receiver,type,purpose,if_true]
  | false =>
    have member : isInConnectedClients r r.clientMsg.senderId = isInConnectedClients v v.clientMsg.senderId := by
      rw [isInConnectedClients,isInConnectedClients,connected,sender]
    simp only [replyState,receiver,member,Bool.false_eq_true,if_false]

theorem enlist_alike (control : SameControl r v) (sender : r.clientMsg.senderId = v.clientMsg.senderId) :
    SameControl (enlist r) (enlist v) := by
  obtain ⟨connected,fresh,first,keepAlive⟩ := control
  unfold enlist
  rw [first]
  split
  · exact ⟨by simp only [connected,sender],fresh,rfl,keepAlive⟩
  · exact ⟨connected,by simp only [fresh,sender],rfl,keepAlive⟩

theorem record_alike (validClients : ControllerClass) (alike : Alike r v regularMsg) :
    SameControl (record validClients r regularMsg) (record validClients v regularMsg) := by
  have same := replyState_alike validClients alike
  obtain ⟨control,receiver,sender,_⟩ := alike
  unfold record
  rw [same,receiver]
  split
  · exact enlist_alike control sender
  · exact control
  · split
    · obtain ⟨connected,fresh,first,keepAlive⟩ := control
      exact ⟨connected,by simp only [renew,fresh,sender],first,keepAlive⟩
    · exact control

/-- The reply is composed anew, whatever the buffer held. -/
theorem shown_reply (control : SameControl r v) (sender : r.clientMsg.senderId = v.clientMsg.senderId) :
    shown (reply host r st) = shown (reply host v st) := by
  obtain ⟨connected,fresh,_,keepAlive⟩ := control
  have same : makeMessage host r.keepAlive r.clientMsg.senderId st =
      makeMessage host v.keepAlive v.clientMsg.senderId st := by
    rw [keepAlive,sender]
  cases made : makeMessage host v.keepAlive v.clientMsg.senderId st with
  | none => simp [reply,compose,same,made,shown]
  | some buffer => simp [reply,compose,same,made,shown,connected,fresh]

theorem shown_alike (head : receive s received = .next (r, regularMsg))
    (other : receive t received' = .next (v, regularMsg))
    (alike : Alike r v regularMsg) :
    shown (receiveThreadFunction validClients host s received) =
      shown (receiveThreadFunction validClients host t received') := by
  have control := record_alike validClients alike
  rw [receiveThreadFunction_answer head,receiveThreadFunction_answer other,replyState_alike validClients alike]
  split
  · apply shown_reply control
    rw [(record_keeps _ _ _).1,(record_keeps _ _ _).1,alike.sender]
  · simp only [shown,Option.bind_none,control.1,control.2.1]

/-- A datagram with a terminator in the part that fits is decoded by itself. -/
theorem receive_terminated (s : State) (terminated : 0 ∈ bytes.take buffLen) :
    receive s (.datagram bytes) =
      .next ({ s with buffer := s.buffer.load bytes, clientMsg := (s.clientMsg.parse (upToNul bytes)).2 },
        (s.clientMsg.parse (upToNul bytes)).1) := by
  rw [receive_eq,CArray.cstr?_load s.buffer terminated]

theorem short_terminated (terminated : 0 ∈ bytes.take buffLen) : Short (upToNul bytes) := by
  have whole := upToNul_append_of_mem terminated (bytes.drop buffLen)
  rw [List.take_append_drop] at whole
  rw [whole]
  have inside := (upToNul_isPrefix (bytes.take buffLen)).length_le
  have room : (bytes.take buffLen).length ≤ buffLen := List.length_take_le _ _
  simp only [Short,buffLen] at *
  omega

theorem parse_alike (self other : ClientMessage) (short : Short msg) :
    (self.parse msg).1 = (other.parse msg).1 ∧
      (self.parse msg).2.receiverId = (other.parse msg).2.receiverId ∧
      (self.parse msg).2.senderId = (other.parse msg).2.senderId ∧
      ((self.parse msg).1 = true → (self.parse msg).2.type = (other.parse msg).2.type ∧
        (self.parse msg).2.purpose = (other.parse msg).2.purpose) := by
  rw [ClientMessage.parse_eq self short,ClientMessage.parse_eq other short]
  split
  · exact ⟨rfl,rfl,rfl,nofun⟩
  · exact ⟨rfl,rfl,rfl,fun _ => ⟨rfl,rfl⟩⟩

/-- Two states that differ in what is left over handle a terminated datagram alike. -/
theorem shown_terminated (control : SameControl s t) (terminated : 0 ∈ bytes.take buffLen) :
    shown (receiveThreadFunction validClients host s (.datagram bytes)) =
      shown (receiveThreadFunction validClients host t (.datagram bytes)) := by
  obtain ⟨same,receiver,sender,kind⟩ := parse_alike s.clientMsg t.clientMsg (short_terminated terminated)
  have head := receive_terminated s terminated
  have other := receive_terminated t terminated
  rw [← same] at other
  exact shown_alike head other ⟨control,receiver,sender,kind⟩

def spelled (s : State) (bytes : Bytes) : State := { s with clientMsg := (s.clientMsg.parse (upToNul bytes)).2 }

def spelledRegular (s : State) (bytes : Bytes) : Bool := (s.clientMsg.parse (upToNul bytes)).1

/-- The reply that request calls for, if any, can be composed within the arrays. -/
def Composable (validClients : ControllerClass) (host : Bytes) (s : State) (bytes : Bytes) : Prop :=
  ∀ st, replyState validClients (spelled s bytes) (spelledRegular s bytes) = some st →
    (replyText (upToNul host) s.keepAlive (spelled s bytes).clientMsg.senderId st).length ≤ 255 ∧
      (st = .ok → KeepAliveFits s.keepAlive)

theorem shown_reply_isSome : (∃ result, shown (reply host r st) = some result) ↔
    ∃ buffer, makeMessage host r.keepAlive r.clientMsg.senderId st = some buffer := by
  cases made : makeMessage host r.keepAlive r.clientMsg.senderId st with
  | none => simp [reply,compose,made,shown]
  | some buffer => simp [reply,compose,made,shown]

theorem shown_isSome_iff (terminated : 0 ∈ bytes.take buffLen) :
    (∃ result, shown (receiveThreadFunction validClients host s (.datagram bytes)) = some result) ↔
      Composable validClients host s bytes := by
  have head := receive_terminated s terminated
  have idFree := (receive_sender head).1
  obtain ⟨sameMsg,sameNumber,_⟩ := record_keeps validClients
    { s with buffer := s.buffer.load bytes, clientMsg := (s.clientMsg.parse (upToNul bytes)).2 }
    (s.clientMsg.parse (upToNul bytes)).1
  have called : replyState validClients
      { s with buffer := s.buffer.load bytes, clientMsg := (s.clientMsg.parse (upToNul bytes)).2 }
      (s.clientMsg.parse (upToNul bytes)).1 = replyState validClients (spelled s bytes) (spelledRegular s bytes) := rfl
  rw [receiveThreadFunction_answer head,called]
  cases answered : replyState validClients (spelled s bytes) (spelledRegular s bytes) with
  | none => simp [Composable,answered,shown]
  | some st =>
    simp only [Composable,answered,Option.some.injEq,forall_eq']
    rw [shown_reply_isSome,sameMsg,sameNumber,← makeMessage_host]
    exact makeMessage_isSome_iff idFree (nul_free_upToNul host)

/-- Whatever the reply, the buffer holds its text with the length byte in front. -/
theorem reply_made (hostFree : 0 ∉ host) (dotted : host.length ≤ 15)
    (head : receive s (.datagram bytes) = .next (r, regularMsg))
    (handled : receiveThreadFunction validClients host s (.datagram bytes) = .next (s', some st)) :
    (replyText host s.keepAlive r.clientMsg.senderId st).length ≤ 255 ∧
      s'.buffer.cells = framed (replyText host s.keepAlive r.clientMsg.senderId st) ∧
      (replyBody host s.keepAlive st).length ≤ 22 := by
  have idFree := (receive_sender head).1
  have made := (reply_composed head handled).1
  obtain ⟨fits,cells⟩ := makeMessage_framed idFree hostFree made
  refine ⟨fits,cells,replyBody_length dotted ?_⟩
  rintro rfl
  exact makeMessage_keepAlive made

/-- Every run leaves a terminator in the receive buffer. -/
def Terminated (s : State) : Prop := 0 ∈ s.buffer.cells

theorem framed_terminated (text : Bytes) (room : text.length ≤ 255) : 0 ∈ framed text := by
  unfold framed
  split
  · obtain ⟨spare,left⟩ : ∃ spare, buffLen - (text.length + 1) = spare + 1 :=
      ⟨254 - text.length,by simp only [buffLen]; omega⟩
    rw [left,List.replicate_succ]
    exact List.mem_cons_of_mem _ (List.mem_append_right text (List.mem_cons_self ..))
  · exact List.mem_append_right text (List.mem_singleton_self 0)

theorem compose_terminated (nulFree : 0 ∉ s.clientMsg.senderId) (composed : compose host s st = some t) :
    Terminated t := by
  obtain ⟨buffer,made,rfl⟩ := compose_eq_some.mp composed
  rw [← makeMessage_host] at made
  obtain ⟨room,cells⟩ := makeMessage_framed nulFree (nul_free_upToNul host) made
  rw [Terminated,cells]
  exact framed_terminated _ room

theorem receive_next_terminated (head : receive s (.datagram bytes) = .next (r, regularMsg)) : Terminated r := by
  obtain ⟨msg,text,_,rfl⟩ := receive_next head
  unfold CArray.cstr? at text
  split at text
  · assumption
  · contradiction

theorem step_terminated (terminated : Terminated s) (step : (machine validClients).step s input = some t) :
    Terminated t := by
  cases input with
  | tick =>
    obtain rfl := Option.some.inj step
    rw [Terminated,tick_buffer]
    exact terminated
  | datagram host bytes =>
    obtain ⟨answer,handled⟩ := machine_datagram.mp step
    obtain ⟨r,regularMsg,head,handled⟩ := receiveThreadFunction_next.mp handled
    have loaded := receive_next_terminated head
    have nulFree := (receive_sender head).1
    cases handled with
    | ignored => exact loaded
    | admitted mine valid composed => exact compose_terminated ((enlist_keeps r).1 ▸ nulFree) composed
    | refused mine invalid composed => exact compose_terminated nulFree composed
    | renewed => exact loaded
    | released mine unknown composed => exact compose_terminated nulFree composed

theorem reaches_terminated {allowed : Input → Prop} (reached : (machine validClients).Reaches allowed initial s) :
    Terminated s := by
  apply Machine.Reaches.invariant Terminated _ reached
  · exact List.mem_replicate.mpr ⟨by decide,rfl⟩
  · exact fun _ _ _ terminated _ step => step_terminated terminated step

/-- A datagram that is not for the controller changes nothing but the leftovers. -/
theorem stranger_step (validClients : ControllerClass) (host : Bytes) (s : State)
    (stranger : field 0 (upToNul bytes) ≠ controllerName) (terminated : 0 ∈ bytes.take buffLen) :
    ∃ t, (machine validClients).step s (.datagram host bytes) = some t ∧ SameControl t s ∧
      t.buffer = s.buffer.load bytes := by
  have head := receive_terminated s terminated
  have receiver := (ClientMessage.parse_ids s.clientMsg (short_terminated terminated)).1
  have handled : receiveThreadFunction validClients host s (.datagram bytes) = .next (_, none) :=
    receiveThreadFunction_next.mpr ⟨_,_,head,.ignored (receiver ▸ stranger)⟩
  exact ⟨_,machine_datagram.mpr ⟨none,handled⟩,⟨rfl,rfl,rfl,rfl⟩,rfl⟩

/-- A string for no one in front, and no terminator behind it. -/
def hollow : Bytes := 0 :: List.replicate 255 1

theorem hollow_step (validClients : ControllerClass) (host : Bytes) (s : State) :
    ∃ t, (machine validClients).step s (.datagram host hollow) = some t ∧ SameControl t s ∧
      t.buffer.cells = hollow := by
  have terminated : 0 ∈ hollow.take buffLen := List.mem_cons_self ..
  have stranger : field 0 (upToNul hollow) ≠ controllerName := by
    have empty : upToNul hollow = [] := rfl
    rw [empty]
    decide
  have length : hollow.length = buffLen := by
    rw [hollow,List.length_cons,List.length_replicate]
    rfl
  obtain ⟨t,step,control,buffer⟩ := stranger_step validClients host s stranger terminated
  refine ⟨t,step,control,?_⟩
  rw [buffer]
  exact CArray.load_full _ length

/-- The rest of a buffer without a terminator decides whether there is a string at all. -/
theorem receive_stuck (nonempty : bytes ≠ []) (free : 0 ∉ bytes.take buffLen) (full : t.buffer.cells = hollow) :
    receive t (.datagram bytes) = .undefined := by
  have loaded : 0 ∉ (t.buffer.load bytes).cells := by
    obtain ⟨b,rest,rfl⟩ := List.exists_cons_of_ne_nil nonempty
    rw [CArray.load_cells,full,List.mem_append,not_or]
    refine ⟨free,?_⟩
    intro behind
    have tail : 0 ∈ (List.replicate 255 1 : Bytes) := List.mem_of_mem_drop behind
    have one := List.eq_of_mem_replicate tail
    contradiction
  have missing : (t.buffer.load bytes).cstr? = none := if_neg loaded
  rw [receive_eq,missing]

end SmartHospital.Controller
