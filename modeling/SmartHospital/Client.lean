import SmartHospital.Reply
import SmartHospital.Support.Machine
import SmartHospital.Support.Socket

/-! The receive thread of ssdpClient.cpp and the worker threads it starts and
cancels. Threads are handles in a table: `pthread_create` succeeds with a handle
not used before and `pthread_cancel` takes effect at once. -/
namespace SmartHospital.Client

inductive Routine where
  | send | receive | keepAlive
  deriving DecidableEq, Repr

abbrev Handle := Nat

structure Threads where
  running : List (Handle × Routine)
  fresh : Handle
  /-- Every cancelled handle, with whether it belonged to a running thread then. -/
  cancels : List (Handle × Bool)
  deriving DecidableEq

def Threads.isRunning (t : Threads) (handle : Handle) : Bool :=
  t.running.any fun thread => thread.1 == handle

def Threads.create (t : Threads) (routine : Routine) : Handle × Threads :=
  (t.fresh, { t with running := t.running ++ [(t.fresh, routine)], fresh := t.fresh + 1 })

def Threads.cancel (t : Threads) (handle : Handle) : Threads :=
  { t with
    running := t.running.filter fun thread => thread.1 != handle
    cancels := t.cancels ++ [(handle, t.isRunning handle)] }

def Threads.count (t : Threads) (routine : Routine) : Nat :=
  t.running.countP fun thread => thread.2 == routine

/-- The statics of the translation unit with the receive thread's locals. -/
structure State where
  buffer : CArray buffLen
  controllerMsg : ControllerMessage
  keepAliveStarted : Bool
  keepAlive : Int
  mqttBrokerAddress : Bytes
  receiveThread : Handle
  sendThread : Handle
  keepAliveThread : Handle
  /-- Calls of `cv.notify_one` so far. -/
  notifications : Nat
  threads : Threads

/-- `StartSSDPClientFunction`. The receive thread's buffer and the numbers of its
message object are not initialized; a static handle that was never set is zero. -/
def start (buffer : CArray buffLen) (controllerMsg : ControllerMessage) : State :=
  let threads : Threads := ⟨[], 1, []⟩
  let (sendThread, threads) := threads.create .send
  let (receiveThread, threads) := threads.create .receive
  { buffer := buffer
    controllerMsg := controllerMsg
    keepAliveStarted := false
    keepAlive := 0
    mqttBrokerAddress := []
    receiveThread := receiveThread
    sendThread := sendThread
    keepAliveThread := 0
    notifications := 0
    threads := threads }

/-- What the receive loop does with a message addressed to this client. -/
def act (s : State) : State :=
  if s.controllerMsg.state = .ok then
    if s.keepAliveStarted = false then
      let threads := s.threads.cancel s.sendThread
      let (keepAliveThread, threads) := threads.create .keepAlive
      { s with
        keepAliveStarted := true
        mqttBrokerAddress := s.controllerMsg.brokerIP
        notifications := s.notifications + 1
        keepAlive := s.controllerMsg.keepAlive
        keepAliveThread := keepAliveThread
        threads := threads }
    else s
  else if s.controllerMsg.state = .rlsd then
    let threads := s.threads.cancel s.keepAliveThread
    let (sendThread, threads) := threads.create .send
    { s with keepAliveStarted := false, sendThread := sendThread, threads := threads }
  else s

/-- The head of the receive loop: the buffer and the string that `parse` is given. -/
def receive (buffer : CArray buffLen) (received : Received) : Outcome (CArray buffLen × Bytes) :=
  let (buffer, result) := recvfrom buffer received
  let buffLen := UInt8.ofInt result
  if (buffLen.toNat : Int) < 0 then .exit
  else
    match buffer.set buffLen.toNat 0 with
    | none => .undefined
    | some buffer =>
      match buffer.cstr? with
      | none => .undefined
      | some msg => .next (buffer, msg)

/-- The loop body of `ReceiveThreadFunction`. -/
def receiveThreadFunction (clientName : Bytes) (s : State) (received : Received) : Outcome State :=
  match receive s.buffer received with
  | .exit => .exit
  | .undefined => .undefined
  | .next (buffer, msg) =>
    let controllerMsg := (s.controllerMsg.parse msg).2
    let s := { s with buffer := buffer, controllerMsg := controllerMsg }
    .next (if s.controllerMsg.receiverId = clientName then act s else s)

/-- A datagram below the buffer's size is terminated behind its last byte, so the
string that is parsed does not depend on what the buffer held before. -/
theorem receive_short (clientName : Bytes) (s : State) (short : List.length bytes ≤ 255) :
    ∃ buffer, receiveThreadFunction clientName s (.datagram bytes) =
      let controllerMsg := (s.controllerMsg.parse (upToNul bytes)).2
      let s := { s with buffer := buffer, controllerMsg := controllerMsg }
      .next (if controllerMsg.receiverId = clientName then act s else s) := by
  have room : bytes.length < buffLen := Nat.lt_succ_of_le short
  obtain ⟨buffer,stored,text⟩ := CArray.set_load_terminator s.buffer room
  have count : min bytes.length buffLen = bytes.length := by simp only [buffLen]; omega
  have byte := count_byte short
  have nonneg : ¬ ((bytes.length : Int) < 0) := by omega
  refine ⟨buffer,?_⟩
  simp only [receiveThreadFunction,receive,recvfrom,count,byte,nonneg,if_false,stored,text]

end SmartHospital.Client
