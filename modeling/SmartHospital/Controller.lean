import SmartHospital.Reply
import SmartHospital.Support.Machine
import SmartHospital.Support.Socket

/-! The receive loop and the list thread of ssdpController.cpp over the client
classes of jsonParser.cpp. Datagrams and ticks are handled one at a time here. -/
namespace SmartHospital.Controller

structure ClientClass where
  type : Bytes
  attr : Bytes
  deriving DecidableEq

structure ControllerClass where
  clients : List ClientClass
  deriving DecidableEq

/-- The constructor over the type and attribute of each entry of the "clients" array. -/
def ControllerClass.load (entries : List (Bytes × Bytes)) : ControllerClass :=
  ⟨entries.map fun entry => ⟨entry.1, entry.2⟩⟩

def ControllerClass.isInList (self : ControllerClass) (type attr : Bytes) : Bool :=
  self.clients.any fun it => it == ⟨type, attr⟩

/-- KA_BASE -/
def kaBase : Int := 60

/-- KA_EDGE -/
def kaEdge : Nat := 30

/-- The statics of the translation unit with the receive thread's locals. -/
structure State where
  buffer : CArray buffLen
  clientMsg : ClientMessage
  connectedClients : List Bytes
  newConnectedClients : List Bytes
  firstStart : Bool
  keepAlive : Int

def initial : State where
  buffer := CArray.zeros buffLen
  clientMsg := ⟨⟨[], []⟩, [], []⟩
  connectedClients := []
  newConnectedClients := []
  firstStart := true
  keepAlive := kaBase

def isInConnectedClients (s : State) (client : Bytes) : Bool :=
  s.connectedClients.any fun it => it == client

/-- The head of the receive loop: the state with the decoded request, and `regularMsg`.
The failure test compares an `unsigned char` with zero. -/
def receive (s : State) (received : Received) : Outcome (State × Bool) :=
  let (buffer, result) := recvfrom s.buffer received
  let buffLen := UInt8.ofInt result
  if (buffLen.toNat : Int) < 0 then .exit
  else
    match buffer.cstr? with
    | none => .undefined
    | some msg =>
      let (regularMsg, clientMsg) := s.clientMsg.parse msg
      .next ({ s with buffer := buffer, clientMsg := clientMsg }, regularMsg)

/-- The critical section of an announcement. -/
def enlist (s : State) : State :=
  if s.firstStart = true then { s with connectedClients := s.connectedClients ++ [s.clientMsg.senderId] }
  else { s with newConnectedClients := s.newConnectedClients ++ [s.clientMsg.senderId] }

/-- The second critical section of an Alive. -/
def renew (s : State) : State :=
  { s with newConnectedClients := s.newConnectedClients ++ [s.clientMsg.senderId] }

/-- `makeMessage` into the receive buffer; a reply that does not fit has no meaning. -/
def compose (host : Bytes) (s : State) (state : ControllerMsgState) : Option State :=
  (makeMessage host s.keepAlive s.clientMsg.senderId state).map fun buffer => { s with buffer := buffer }

/-- `makeMessage` and the start of a sender. -/
def reply (host : Bytes) (s : State) (state : ControllerMsgState) :
    Outcome (State × Option ControllerMsgState) :=
  match compose host s state with
  | none => .undefined
  | some s => .next (s, some state)

/-- The loop body of `ReceiveThreadFunction` with the reply it sends, if any. -/
def receiveThreadFunction (validClients : ControllerClass) (host : Bytes) (s : State) (received : Received) :
    Outcome (State × Option ControllerMsgState) :=
  match receive s received with
  | .exit => .exit
  | .undefined => .undefined
  | .next (s, regularMsg) =>
    if s.clientMsg.receiverId = controllerName then
      if regularMsg = true then
        if validClients.isInList s.clientMsg.type s.clientMsg.purpose = true then reply host (enlist s) .ok
        else reply host s .nok
      else if isInConnectedClients s s.clientMsg.senderId = true then .next (renew s, none)
      else reply host s .rlsd
    else .next (s, none)

/-- The loop body of `clientListThreadFunction` behind its `usleep`. -/
def clientListThreadFunction (s : State) : State :=
  let s :=
    if s.firstStart = true then { s with firstStart := false }
    else { s with connectedClients := s.newConnectedClients, newConnectedClients := [] }
  if s.connectedClients.length > kaEdge then { s with keepAlive := kaBase + kaBase / 100 * 20 }
  else { s with keepAlive := kaBase }

def SameLists (a b : State) : Prop :=
  a.connectedClients = b.connectedClients ∧ a.newConnectedClients = b.newConnectedClients

theorem initial_keepAlive : KeepAliveFits initial.keepAlive := keepAlive_fits (by decide) (by decide)

theorem isInConnectedClients_iff : isInConnectedClients s client = true ↔ client ∈ s.connectedClients := by
  simp [isInConnectedClients]

/-- The failure test never holds, so only a missing terminator stops the head of the loop. -/
theorem receive_eq (s : State) (bytes : Bytes) : receive s (.datagram bytes) =
    match (s.buffer.load bytes).cstr? with
    | none => .undefined
    | some msg =>
      .next ({ s with buffer := s.buffer.load bytes, clientMsg := (s.clientMsg.parse msg).2 },
        (s.clientMsg.parse msg).1) := by
  have nonneg : ¬ (((UInt8.ofInt (recvfrom s.buffer (.datagram bytes)).2).toNat : Int) < 0) := by omega
  unfold receive
  dsimp only
  rw [if_neg nonneg]
  rfl

theorem receive_next (received : receive s (.datagram bytes) = .next (r, regularMsg)) :
    ∃ msg, (s.buffer.load bytes).cstr? = some msg ∧ regularMsg = (s.clientMsg.parse msg).1 ∧
      r = { s with buffer := s.buffer.load bytes, clientMsg := (s.clientMsg.parse msg).2 } := by
  rw [receive_eq] at received
  split at received
  · contradiction
  · rename_i msg text
    cases received
    exact ⟨msg,text,rfl,rfl⟩

theorem receive_buffer (received : receive s (.datagram bytes) = .next (r, regularMsg)) :
    r.buffer = s.buffer.load bytes := by
  obtain ⟨_,_,_,rfl⟩ := receive_next received
  rfl

/-- A datagram with its own terminator is parsed as the text in front of it. -/
theorem receive_text (s : State) (free : 0 ∉ text) (fits : text.length ≤ 254) :
    receive s (.datagram (text ++ [0])) =
      .next ({ s with buffer := s.buffer.load (text ++ [0]), clientMsg := (s.clientMsg.parse text).2 },
        (s.clientMsg.parse text).1) := by
  have room : text.length < buffLen := Nat.lt_of_le_of_lt fits (by decide)
  rw [receive_eq,CArray.cstr?_load_terminated s.buffer free room]

/-- The receiver that is compared is the first field of the buffer's string. -/
theorem receive_receiver (received : receive s (.datagram bytes) = .next (r, regularMsg)) :
    r.clientMsg.receiverId = field 0 (upToNul (s.buffer.load bytes).cells) := by
  obtain ⟨msg,text,_,rfl⟩ := receive_next received
  have short : Short msg := (CArray.length_cstr?_lt text).trans (by decide)
  rw [← CArray.cstr?_eq text]
  exact (ClientMessage.parse_ids _ short).1

theorem receive_lists (received : receive s (.datagram bytes) = .next (r, regularMsg)) :
    r.connectedClients = s.connectedClients ∧ r.newConnectedClients = s.newConnectedClients ∧
      r.firstStart = s.firstStart ∧ r.keepAlive = s.keepAlive := by
  obtain ⟨_,_,_,rfl⟩ := receive_next received
  exact ⟨rfl,rfl,rfl,rfl⟩

/-- The decoded sender is a field of a C string. -/
theorem receive_sender (received : receive s (.datagram bytes) = .next (r, regularMsg)) :
    0 ∉ r.clientMsg.senderId ∧ colon ∉ r.clientMsg.senderId := by
  obtain ⟨msg,text,_,rfl⟩ := receive_next received
  have short : Short msg := (CArray.length_cstr?_lt text).trans (by decide)
  rw [(ClientMessage.parse_ids _ short).2]
  exact ⟨fun nul => CArray.cstr?_nul_free text (mem_of_mem_field 1 msg nul),field_free 1 msg⟩

theorem enlist_keeps (s : State) :
    (enlist s).clientMsg = s.clientMsg ∧ (enlist s).keepAlive = s.keepAlive ∧ (enlist s).buffer = s.buffer := by
  unfold enlist
  split <;> exact ⟨rfl,rfl,rfl⟩

theorem compose_eq_some : compose host s st = some s' ↔
    ∃ buffer, makeMessage host s.keepAlive s.clientMsg.senderId st = some buffer ∧ s' = { s with buffer := buffer } := by
  simp [compose,eq_comm]

/-- Composing leaves in the buffer what a sender will copy as the reply. -/
theorem compose_intact (nulFree : 0 ∉ s.clientMsg.senderId) (composed : compose host s st = some s')
    (fits : (replyText (upToNul host) s.keepAlive s.clientMsg.senderId st ++ [0]).length ≤ 255) :
    sendThreadFunction s'.buffer = some (replyText (upToNul host) s.keepAlive s.clientMsg.senderId st ++ [0]) := by
  obtain ⟨buffer,made,rfl⟩ := compose_eq_some.mp composed
  rw [← makeMessage_host] at made
  obtain ⟨_,cells⟩ := makeMessage_framed nulFree (nul_free_upToNul host) made
  rw [List.length_append] at fits
  exact sendThreadFunction_framed cells (Nat.le_of_succ_le_succ fits)

theorem reply_eq_next : reply host s st = .next (s', answer) ↔ compose host s st = some s' ∧ answer = some st := by
  unfold reply
  split
  · rename_i failed
    simp [failed]
  · rename_i t composed
    simp [composed,eq_comm]

/-- What handling a decoded request can do. -/
inductive Handled (validClients : ControllerClass) (host : Bytes) (r : State) :
    Bool → State → Option ControllerMsgState → Prop where
  | ignored (other : r.clientMsg.receiverId ≠ controllerName) : Handled validClients host r regularMsg r none
  | admitted (mine : r.clientMsg.receiverId = controllerName)
      (valid : validClients.isInList r.clientMsg.type r.clientMsg.purpose = true)
      (composed : compose host (enlist r) .ok = some s') : Handled validClients host r true s' (some .ok)
  | refused (mine : r.clientMsg.receiverId = controllerName)
      (invalid : validClients.isInList r.clientMsg.type r.clientMsg.purpose = false)
      (composed : compose host r .nok = some s') : Handled validClients host r true s' (some .nok)
  | renewed (mine : r.clientMsg.receiverId = controllerName)
      (connected : r.clientMsg.senderId ∈ r.connectedClients) : Handled validClients host r false (renew r) none
  | released (mine : r.clientMsg.receiverId = controllerName)
      (unknown : r.clientMsg.senderId ∉ r.connectedClients)
      (composed : compose host r .rlsd = some s') : Handled validClients host r false s' (some .rlsd)

theorem receiveThreadFunction_next :
    receiveThreadFunction validClients host s received = .next (s', answer) ↔
      ∃ r regularMsg, receive s received = .next (r, regularMsg) ∧
        Handled validClients host r regularMsg s' answer := by
  constructor
  · intro handled
    unfold receiveThreadFunction at handled
    split at handled
    · contradiction
    · contradiction
    · rename_i r regularMsg head
      refine ⟨r,regularMsg,head,?_⟩
      split at handled
      · rename_i mine
        cases regularMsg with
        | true =>
          simp only [if_true] at handled
          split at handled
          · rename_i valid
            obtain ⟨composed,rfl⟩ := reply_eq_next.mp handled
            exact .admitted mine valid composed
          · rename_i invalid
            obtain ⟨composed,rfl⟩ := reply_eq_next.mp handled
            exact .refused mine (Bool.eq_false_iff.mpr invalid) composed
        | false =>
          simp only [Bool.false_eq_true,if_false] at handled
          split at handled
          · rename_i connected
            cases handled
            exact .renewed mine (isInConnectedClients_iff.mp connected)
          · rename_i unknown
            obtain ⟨composed,rfl⟩ := reply_eq_next.mp handled
            exact .released mine (mt isInConnectedClients_iff.mpr unknown) composed
      · rename_i other
        cases handled
        exact .ignored other
  · rintro ⟨r,regularMsg,head,handled⟩
    simp only [receiveThreadFunction,head]
    cases handled with
    | ignored other => exact if_neg other
    | admitted mine valid composed => simpa [mine,valid,reply_eq_next] using composed
    | refused mine invalid composed => simpa [mine,invalid,reply_eq_next] using composed
    | renewed mine connected => simp [mine,isInConnectedClients_iff.mpr connected]
    | released mine unknown composed =>
      have absent := Bool.eq_false_iff.mpr (mt isInConnectedClients_iff.mp unknown)
      simpa [mine,absent,reply_eq_next] using composed

/-- A reply is composed from the decoded request and the interval of the state. -/
theorem reply_composed (head : receive s (.datagram bytes) = .next (r, regularMsg))
    (handled : receiveThreadFunction validClients host s (.datagram bytes) = .next (s', some st)) :
    makeMessage host s.keepAlive r.clientMsg.senderId st = some s'.buffer ∧ s'.clientMsg = r.clientMsg := by
  have sameNumber := (receive_lists head).2.2.2
  obtain ⟨r',regular',other,handled⟩ := receiveThreadFunction_next.mp handled
  cases head.symm.trans other
  cases handled with
  | admitted _ _ composed =>
    obtain ⟨buffer,made,rfl⟩ := compose_eq_some.mp composed
    rw [(enlist_keeps r).1,(enlist_keeps r).2.1,sameNumber] at made
    exact ⟨made,(enlist_keeps r).1⟩
  | refused _ _ composed =>
    obtain ⟨buffer,made,rfl⟩ := compose_eq_some.mp composed
    exact ⟨sameNumber ▸ made,rfl⟩
  | released _ _ composed =>
    obtain ⟨buffer,made,rfl⟩ := compose_eq_some.mp composed
    exact ⟨sameNumber ▸ made,rfl⟩

/-- A tick moves the lists and sets the interval; nothing else changes. -/
theorem tick_eq (s : State) : ∃ keepAlive, clientListThreadFunction s =
    { s with
      connectedClients := if s.firstStart = true then s.connectedClients else s.newConnectedClients
      newConnectedClients := if s.firstStart = true then s.newConnectedClients else []
      firstStart := false
      keepAlive := keepAlive } := by
  obtain ⟨buffer,clientMsg,connected,fresh,first,keepAlive⟩ := s
  unfold clientListThreadFunction
  cases first <;> simp only [Bool.false_eq_true,if_true,if_false] <;> split <;> exact ⟨_,rfl⟩

/-- The first tick only ends the start phase. -/
theorem tick_first (first : s.firstStart = true) :
    ∃ keepAlive, clientListThreadFunction s = { s with firstStart := false, keepAlive := keepAlive } := by
  obtain ⟨keepAlive,after⟩ := tick_eq s
  refine ⟨keepAlive,?_⟩
  rw [after,if_pos first,if_pos first]

theorem tick_later (later : s.firstStart = false) :
    ∃ keepAlive, clientListThreadFunction s =
      { s with connectedClients := s.newConnectedClients, newConnectedClients := [], keepAlive := keepAlive } := by
  obtain ⟨keepAlive,after⟩ := tick_eq s
  have started : ¬ s.firstStart = true := Bool.eq_false_iff.mp later
  refine ⟨keepAlive,?_⟩
  rw [after,if_neg started,if_neg started,← later]

theorem tick_lists (s : State) :
    (clientListThreadFunction s).connectedClients =
        (if s.firstStart = true then s.connectedClients else s.newConnectedClients) ∧
      (clientListThreadFunction s).newConnectedClients = if s.firstStart = true then s.newConnectedClients else [] := by
  obtain ⟨_,after⟩ := tick_eq s
  rw [after]
  exact ⟨rfl,rfl⟩

theorem tick_firstStart (s : State) : (clientListThreadFunction s).firstStart = false := by
  obtain ⟨_,after⟩ := tick_eq s
  rw [after]

theorem tick_clientMsg (s : State) : (clientListThreadFunction s).clientMsg = s.clientMsg := by
  obtain ⟨_,after⟩ := tick_eq s
  rw [after]

theorem tick_buffer (s : State) : (clientListThreadFunction s).buffer = s.buffer := by
  obtain ⟨_,after⟩ := tick_eq s
  rw [after]

/-- A tick neither reads nor writes what a reception writes. -/
theorem tick_received (s : State) (buffer : CArray buffLen) (clientMsg : ClientMessage) :
    clientListThreadFunction { s with buffer := buffer, clientMsg := clientMsg } =
      { clientListThreadFunction s with buffer := buffer, clientMsg := clientMsg } := by
  obtain ⟨_,_,_,_,first,_⟩ := s
  unfold clientListThreadFunction
  cases first <;> simp only [Bool.false_eq_true,if_true,if_false] <;> split <;> rfl

/-- Reception does not look at the lists, so a tick may as well come first. -/
theorem receive_tick (received : receive s (.datagram bytes) = .next (r, regularMsg)) :
    receive (clientListThreadFunction s) (.datagram bytes) = .next (clientListThreadFunction r, regularMsg) := by
  obtain ⟨msg,text,rfl,rfl⟩ := receive_next received
  have commutes := tick_received s (s.buffer.load bytes) (s.clientMsg.parse msg).2
  rw [receive_eq,tick_buffer,tick_clientMsg,text,commutes]

inductive Input where
  | datagram (host bytes : Bytes)
  | tick
  deriving DecidableEq

/-- The controller over datagrams and ticks; `host` is what `getLocalHost` would return. -/
def machine (validClients : ControllerClass) : Machine State Input where
  step s
    | .datagram host bytes => (receiveThreadFunction validClients host s (.datagram bytes)).next?.map Prod.fst
    | .tick => some (clientListThreadFunction s)

theorem machine_datagram : (machine validClients).step s (.datagram host bytes) = some s' ↔
    ∃ answer, receiveThreadFunction validClients host s (.datagram bytes) = .next (s', answer) := by
  constructor
  · intro step
    obtain ⟨⟨_,answer⟩,handled,rfl⟩ := Option.map_eq_some_iff.mp step
    exact ⟨answer,Outcome.next?_eq_some.mp handled⟩
  · rintro ⟨answer,handled⟩
    exact Option.map_eq_some_iff.mpr ⟨_,Outcome.next?_eq_some.mpr handled,rfl⟩

end SmartHospital.Controller
