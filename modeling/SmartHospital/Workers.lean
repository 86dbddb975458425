import SmartHospital.Client

/-! The client's worker threads under any sequence of controller messages. The flag
`keepAliveStarted` and two overwritten handles stand for the one worker that runs. -/
namespace SmartHospital.Client

variable {clientName : Bytes}

/-- A datagram that decodes to a controller message for this client. -/
structure Notice (clientName : Bytes) where
  bytes : Bytes
  state : ControllerMsgState
  short : bytes.length ≤ 255
  receiver : field 0 (upToNul bytes) = clientName
  status : field 2 (upToNul bytes) = state.word

/-- Every reply the controller composes within its limit is one. -/
def Notice.ofReply (host : Bytes) (keepAlive : Int) (clientId : Bytes) (st : ControllerMsgState)
    (idFree : 0 ∉ clientId) (hostFree : 0 ∉ host) (single : colon ∉ clientId)
    (fits : (replyText host keepAlive clientId st).length ≤ 254) : Notice clientId where
  bytes := replyText host keepAlive clientId st ++ [0]
  state := st
  short := length_terminated fits
  receiver := by
    rw [upToNul_append_nul,upToNul_of_free (replyText_nul_free idFree hostFree)]
    exact reply_receiver single
  status := by
    rw [upToNul_append_nul,upToNul_of_free (replyText_nul_free idFree hostFree)]
    exact reply_word single

def handling (clientName : Bytes) : Machine State (Notice clientName) where
  step s notice := (receiveThreadFunction clientName s (.datagram notice.bytes)).next?

theorem short_of_length {msg : Bytes} (h : msg.length ≤ 255) : Short (upToNul msg) := by
  have := (upToNul_isPrefix msg).length_le
  unfold Short
  omega

/-- The thread that runs besides the receive thread, by the flag. -/
def worker (s : State) : Handle × Routine :=
  if s.keepAliveStarted = true then (s.keepAliveThread, .keepAlive) else (s.sendThread, .send)

/-- The flag and the handles describe the thread table. -/
structure Sound (s : State) : Prop where
  running : s.threads.running = [(s.receiveThread, .receive), worker s] ∨
    s.threads.running = [worker s, (s.receiveThread, .receive)]
  apart : s.receiveThread ≠ (worker s).1
  receiveOld : s.receiveThread < s.threads.fresh
  workerOld : (worker s).1 < s.threads.fresh
  parked : s.keepAliveStarted = false →
    s.keepAliveThread ≠ s.sendThread ∧ s.keepAliveThread ≠ s.receiveThread
  live : ∀ c ∈ s.threads.cancels, c.2 = true

/-- One worker runs, of the kind the flag says, and no cancel has missed. -/
structure Healthy (s : State) : Prop where
  started : s.keepAliveStarted = true →
    s.threads.count .keepAlive = 1 ∧ s.threads.count .send = 0
  stopped : s.keepAliveStarted = false →
    s.threads.count .send = 1 ∧ s.threads.count .keepAlive = 0
  live : ∀ c ∈ s.threads.cancels, c.2 = true

theorem start_sound (buffer : CArray buffLen) (msg : ControllerMessage) : Sound (start buffer msg) := by
  constructor <;> simp [start,Threads.create,worker]

theorem Sound.healthy (sound : Sound s) : Healthy s := by
  constructor
  · intro flag
    rcases sound.running with h | h <;> simp [Threads.count,h,worker,flag]
  · intro flag
    rcases sound.running with h | h <;> simp [Threads.count,h,worker,flag]
  · exact sound.live

/-- A notice always reaches the branches on the state it names, with the flag and
the thread table as they were. -/
theorem handling_step (s : State) (notice : Notice clientName) :
    ∃ heard : State, (Sound s → Sound heard) ∧ heard.keepAliveStarted = s.keepAliveStarted ∧
      heard.controllerMsg.state = notice.state ∧
      (handling clientName).step s notice = some (act heard) := by
  obtain ⟨buffer,body⟩ := receive_short clientName s notice.short
  have short := short_of_length notice.short
  have mine : (s.controllerMsg.parse (upToNul notice.bytes)).2.receiverId = clientName :=
    (ControllerMessage.parse_ids _ short).1.trans notice.receiver
  refine ⟨{ s with buffer := buffer, controllerMsg := (s.controllerMsg.parse (upToNul notice.bytes)).2 },
    ?_,rfl,ControllerMessage.parse_state _ _ short notice.status,?_⟩
  · intro sound
    exact ⟨sound.running,sound.apart,sound.receiveOld,sound.workerOld,sound.parked,sound.live⟩
  · simp only [handling,body,mine,if_true,Outcome.next?]

theorem cancel_create (sound : Sound s) (routine : Routine) :
    ((s.threads.cancel (worker s).1).create routine) =
      (s.threads.fresh, ⟨[(s.receiveThread, .receive), (s.threads.fresh, routine)],
        s.threads.fresh + 1, s.threads.cancels ++ [((worker s).1, true)]⟩) := by
  have apart := sound.apart
  rcases sound.running with h | h <;>
    simp [Threads.create,Threads.cancel,Threads.isRunning,h,apart]

theorem act_ok_sound (sound : Sound s) (ok : s.controllerMsg.state = .ok) :
    Sound (act s) ∧ (act s).keepAliveStarted = true := by
  cases flag : s.keepAliveStarted with
  | true => simpa [act,ok,flag] using sound
  | false =>
    have target : s.sendThread = (worker s).1 := by simp [worker,flag]
    have old : s.receiveThread ≠ s.threads.fresh := Nat.ne_of_lt sound.receiveOld
    simp only [act,ok,flag,if_true,target,cancel_create sound .keepAlive]
    refine ⟨⟨?_,old,?_,?_,?_,?_⟩,trivial⟩
    · exact .inl rfl
    · exact Nat.lt_succ_of_lt sound.receiveOld
    · exact Nat.lt_succ_self _
    · intro impossible
      contradiction
    · simpa [or_imp,forall_and] using sound.live

theorem act_nok (nok : s.controllerMsg.state = .nok) : act s = s := by
  simp [act,nok]

theorem act_rlsd_sound (sound : Sound s) (rlsd : s.controllerMsg.state = .rlsd)
    (flag : s.keepAliveStarted = true) : Sound (act s) ∧ (act s).keepAliveStarted = false := by
  have target : s.keepAliveThread = (worker s).1 := by simp [worker,flag]
  have old : s.receiveThread ≠ s.threads.fresh := Nat.ne_of_lt sound.receiveOld
  simp only [act,rlsd,reduceCtorEq,if_false,if_true,target,cancel_create sound .send]
  refine ⟨⟨?_,old,?_,?_,?_,?_⟩,trivial⟩
  · exact .inl rfl
  · exact Nat.lt_succ_of_lt sound.receiveOld
  · exact Nat.lt_succ_self _
  · intro _
    exact ⟨Nat.ne_of_lt sound.workerOld,sound.apart.symm⟩
  · simpa [or_imp,forall_and] using sound.live

/-- Released without a keep-alive thread, the client cancels a handle that is not running. -/
theorem act_rlsd_unsound (sound : Sound s) (rlsd : s.controllerMsg.state = .rlsd)
    (flag : s.keepAliveStarted = false) : ¬ Healthy (act s) := by
  intro healthy
  obtain ⟨notSend,notReceive⟩ := sound.parked flag
  have missed : s.threads.isRunning s.keepAliveThread = false := by
    rcases sound.running with h | h <;>
      simp [Threads.isRunning,h,worker,flag,notSend.symm,notReceive.symm]
  have := healthy.live (s.keepAliveThread, false)
    (by simp [act,rlsd,Threads.create,Threads.cancel,missed])
  contradiction

/-- Every RLSD comes after an OK that no other RLSD has answered yet. -/
def RlsdFollowsOk : Bool → List ControllerMsgState → Prop
  | _, [] => True
  | _, .ok :: rest => RlsdFollowsOk true rest
  | started, .nok :: rest => RlsdFollowsOk started rest
  | started, .rlsd :: rest => started = true ∧ RlsdFollowsOk false rest

/-- After each message of the sequence the client is healthy. -/
def StaysHealthy (clientName : Bytes) (s : State) (notices : List (Notice clientName)) : Prop :=
  ∀ handled rest, notices = handled ++ rest →
    ∃ now, (handling clientName).run s handled = some now ∧ Healthy now

theorem staysHealthy_cons (first : (handling clientName).step s notice = some next) (healthy : Healthy s) :
    StaysHealthy clientName s (notice :: rest) ↔ StaysHealthy clientName next rest := by
  constructor
  · intro all handled left eq
    obtain ⟨now,reached,good⟩ := all (notice :: handled) left (by rw [eq]; rfl)
    obtain ⟨middle,step,later⟩ := Machine.run_cons.mp reached
    obtain rfl := Option.some.inj (step.symm.trans first)
    exact ⟨now,later,good⟩
  · intro all handled left eq
    cases handled with
    | nil => exact ⟨s,rfl,healthy⟩
    | cons head handled =>
      obtain ⟨rfl,rfl⟩ := List.cons.inj eq
      obtain ⟨now,reached,good⟩ := all handled left rfl
      exact ⟨now,Machine.run_cons.mpr ⟨next,first,reached⟩,good⟩

theorem staysHealthy_iff (sound : Sound s) (notices : List (Notice clientName)) :
    StaysHealthy clientName s notices ↔
      RlsdFollowsOk s.keepAliveStarted (notices.map Notice.state) := by
  induction notices generalizing s with
  | nil =>
    simp only [List.map_nil,RlsdFollowsOk,iff_true]
    intro handled rest eq
    obtain ⟨rfl,_⟩ := List.nil_eq_append_iff.mp eq
    exact ⟨s,rfl,sound.healthy⟩
  | cons notice rest ih =>
    obtain ⟨heard,keeps,same,state,step⟩ := handling_step s notice
    have sane := keeps sound
    rw [staysHealthy_cons step sound.healthy,← same]
    cases kind : notice.state with
    | ok =>
      obtain ⟨next,flag⟩ := act_ok_sound sane (state.trans kind)
      rw [ih next,flag,List.map_cons,kind,RlsdFollowsOk]
    | nok =>
      rw [act_nok (state.trans kind),ih sane,List.map_cons,kind,RlsdFollowsOk]
    | rlsd =>
      rw [List.map_cons,kind,RlsdFollowsOk]
      cases flag : heard.keepAliveStarted with
      | true =>
        obtain ⟨next,released⟩ := act_rlsd_sound sane (state.trans kind) flag
        rw [ih next,released]
        simp
      | false =>
        have broken := act_rlsd_unsound sane (state.trans kind) flag
        simp only [Bool.false_eq_true,false_and,iff_false]
        intro all
        obtain ⟨now,reached,good⟩ := all [] rest rfl
        obtain rfl := Option.some.inj reached
        exact broken good

/-- From the state `StartSSDPClientFunction` sets up, the client keeps exactly the
worker its flag names, and cancels only running threads, as long as no RLSD comes
while no keep-alive thread was started since the last one; and not otherwise. -/
theorem one_worker_iff (clientName : Bytes) (buffer : CArray buffLen) (msg : ControllerMessage)
    (notices : List (Notice clientName)) :
    StaysHealthy clientName (start buffer msg) notices ↔
      RlsdFollowsOk false (notices.map Notice.state) :=
  staysHealthy_iff (start_sound buffer msg) notices

def sampleNotice (st : ControllerMsgState) : Notice (Bytes.ofString "Client_1") :=
  .ofReply (Bytes.ofString "192.168.1.1") 60 (Bytes.ofString "Client_1") st
    (by decide) (by decide) (by decide) (by cases st <;> decide)

/-- The network delivers the controller's RLSD twice. -/
theorem rlsd_delivered_twice :
    ¬ StaysHealthy (Bytes.ofString "Client_1") (start (CArray.zeros buffLen) ⟨⟨[], []⟩, .nok, 0, []⟩)
      [sampleNotice .ok, sampleNotice .rlsd, sampleNotice .rlsd] := by
  rw [staysHealthy_iff (start_sound _ _)]
  simp [RlsdFollowsOk,sampleNotice,Notice.ofReply]

end SmartHospital.Client
