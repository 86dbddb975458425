import Mathlib.Logic.Function.Basic
import SmartHospital.HandOff
import SmartHospital.Request
import SmartHospital.RoundTrip
import SmartHospital.Workers

/-! One controller and its clients on a multicast group. Datagrams in flight can be
delivered to anyone, any number of times and in any order, or be lost. -/
namespace SmartHospital

open Controller

/-- A client's configuration, within the limits of the message format. -/
structure Member where
  name : Bytes
  type : Bytes
  attr : Bytes
  nulFree : 0 ∉ name ∧ 0 ∉ type ∧ 0 ∉ attr
  single : colon ∉ name ∧ colon ∉ type ∧ colon ∉ attr
  notController : name ≠ controllerName
  notAlive : type ≠ Bytes.ofString "Alive"
  fits : (Client.announcement name type attr).length ≤ 254

structure Group (ι : Type*) where
  controller : Split
  clients : ι → Client.State
  /-- The datagrams in flight. -/
  network : List Bytes

inductive Event (ι : Type*) where
  /-- The controller receives. -/
  | take (bytes : Bytes)
  /-- The controller goes on; the octets are those of its address. -/
  | proceed (a b c d : UInt8)
  | tick
  | announce (i : ι)
  | alive (i : ι)
  /-- A client receives. -/
  | deliver (i : ι) (bytes : Bytes)
  | lose (bytes : Bytes)

variable {ι : Type*} [DecidableEq ι]

/-- A sender copies its reply as soon as it is composed, and a reply longer than 254
characters is not part of this system. The clients' requests are taken as composed. -/
def group (validClients : ControllerClass) (members : ι → Member) : Machine (Group ι) (Event ι) where
  step g
    | .take bytes =>
      if bytes ∈ g.network then
        ((sections validClients).step g.controller (.receive bytes)).map fun t => { g with controller := t }
      else none
    | .proceed a b c d =>
      let host := inetNtoa a b c d
      ((sections validClients).step g.controller (.proceed host)).bind fun t =>
        match g.controller.phase with
        | .answer state =>
          if (replyText host g.controller.state.keepAlive g.controller.state.clientMsg.senderId state).length ≤ 254 then
            (sendThreadFunction t.state.buffer).map fun bytes =>
              { g with controller := t, network := g.network ++ [bytes] }
          else none
        | _ => some { g with controller := t }
    | .tick => ((sections validClients).step g.controller .tick).map fun t => { g with controller := t }
    | .announce i =>
      let m := members i
      if 0 < (g.clients i).threads.count .send then
        some { g with network := g.network ++ [Client.transmitted (Client.announcement m.name m.type m.attr)] }
      else none
    | .alive i =>
      if 0 < (g.clients i).threads.count .keepAlive then
        some { g with network := g.network ++ [Client.transmitted (Client.aliveMessage (members i).name)] }
      else none
    | .deliver i bytes =>
      if bytes ∈ g.network then
        (Client.receiveThreadFunction (members i).name (g.clients i) (.datagram bytes)).next?.map fun s =>
          { g with clients := Function.update g.clients i s }
      else none
    | .lose bytes => some { g with network := g.network.erase bytes }

/-- Every party has just been started; a client's receive buffer and message object are
not initialized. -/
def Group.start (buffers : ι → CArray buffLen) (messages : ι → ControllerMessage) : Group ι :=
  ⟨.start, fun i => Client.start (buffers i) (messages i), []⟩

/-- The controller takes in a valid announcement of `c`. -/
def Announced (validClients : ControllerClass) (c : Bytes) (g : Group ι) (event : Event ι) : Prop :=
  ∃ bytes, event = .take bytes ∧ Announces validClients c g.controller.state bytes

/-- The controller composes an OK for `c` that names the host: what a sender copies out of
the buffer then is that reply. -/
def Granted (c host : Bytes) (g : Group ι) (event : Event ι) : Prop :=
  ∃ x y z w s, event = .proceed x y z w ∧ host = inetNtoa x y z w ∧ g.controller.phase = .answer .ok ∧
    g.controller.state.clientMsg.senderId = c ∧ compose host g.controller.state .ok = some s ∧
    sendThreadFunction s.buffer = some (replyText host g.controller.state.keepAlive c .ok ++ [0])

/-- What can be in flight: a request, or a reply whose OK was granted. -/
inductive InFlight (granted : Bytes → Bytes → Prop) : Bytes → Prop where
  | request (rest : Bytes) (free : 0 ∉ controllerName ++ colon :: rest)
      (fits : (controllerName ++ colon :: rest).length ≤ 254) :
      InFlight granted (controllerName ++ colon :: rest ++ [0])
  | reply (host clientId : Bytes) (keepAlive : Int) (st : ControllerMsgState)
      (idFree : 0 ∉ clientId) (idSingle : colon ∉ clientId) (hostFree : 0 ∉ host) (hostSingle : colon ∉ host)
      (fits : (replyText host keepAlive clientId st).length ≤ 254) (backed : st = .ok → granted clientId host) :
      InFlight granted (replyText host keepAlive clientId st ++ [0])

/-- The parties and the network agree on what was announced and granted so far. -/
structure Agreed (members : ι → Member) (announced : Bytes → Prop) (granted : Bytes → Bytes → Prop)
    (g : Group ι) : Prop where
  flight : ∀ bytes ∈ g.network, InFlight granted bytes
  backed : ∀ c host, granted c host → announced c
  admitted : g.controller.phase = .announced ∨ g.controller.phase = .answer .ok →
    announced g.controller.state.clientMsg.senderId
  clean : SenderClean g.controller
  started : ∀ i, (g.clients i).keepAliveStarted = true →
    granted (members i).name (g.clients i).mqttBrokerAddress
  short : ∀ i, 0 < (g.clients i).threads.count .keepAlive → (members i).name.length ≤ 235

theorem InFlight.mono {granted granted' : Bytes → Bytes → Prop} (flight : InFlight granted bytes)
    (kept : ∀ c host, granted c host → granted' c host) : InFlight granted' bytes := by
  cases flight with
  | request rest free fits => exact .request rest free fits
  | reply host clientId keepAlive st idFree idSingle hostFree hostSingle fits backed =>
    exact .reply host clientId keepAlive st idFree idSingle hostFree hostSingle fits fun ok => kept _ _ (backed ok)

section Client

open Client

variable {s s' : Client.State}

/-- The flag is on because it was, or because of an OK whose address was taken over. -/
theorem act_started (started : (act s).keepAliveStarted = true) :
    s.keepAliveStarted = true ∧ (act s).mqttBrokerAddress = s.mqttBrokerAddress ∨
      s.controllerMsg.state = .ok ∧ (act s).mqttBrokerAddress = s.controllerMsg.brokerIP := by
  cases kind : s.controllerMsg.state with
  | ok =>
    cases flag : s.keepAliveStarted with
    | true =>
      have same : act s = s := by simp [act,kind,flag]
      exact .inl ⟨rfl,by rw [same]⟩
    | false => exact .inr ⟨rfl,by simp [act,kind,flag]⟩
  | nok =>
    rw [act_nok kind] at started ⊢
    exact .inl ⟨started,rfl⟩
  | rlsd => simp [act,kind] at started

theorem count_cancel (t : Threads) (handle : Handle) (routine : Routine) :
    (t.cancel handle).count routine ≤ t.count routine :=
  List.filter_sublist.countP_le

theorem act_keepAlive (running : 0 < (act s).threads.count .keepAlive) :
    0 < s.threads.count .keepAlive ∨ s.controllerMsg.state = .ok := by
  cases kind : s.controllerMsg.state with
  | ok => exact .inr rfl
  | nok => exact .inl (act_nok kind ▸ running)
  | rlsd =>
    have same : (act s).threads.count .keepAlive = (s.threads.cancel s.keepAliveThread).count .keepAlive := by
      simp [act,kind,Threads.create,Threads.count]
    exact .inl (Nat.lt_of_lt_of_le (same ▸ running) (count_cancel _ _ _))

/-- A client whose name fits an OK reply has room for its own requests too. -/
theorem name_of_grant {host clientId : Bytes} {keepAlive : Int}
    (fits : (replyText host keepAlive clientId .ok).length ≤ 254) : clientId.length ≤ 235 := by
  have printed : 0 < (Decimal.print keepAlive).length := by
    unfold Decimal.print
    split
    · exact Nat.succ_pos _
    · exact List.length_pos_of_ne_nil (Decimal.digits_ne_nil _)
  have word : (ControllerMsgState.word .ok).length = 2 := rfl
  rw [replyText_length] at fits
  simp only [replyBody,List.length_append,List.length_cons,word] at fits
  omega

/-- What a delivery can change in a client that is not named like the controller. -/
theorem deliver_effect {granted : Bytes → Bytes → Prop} (flight : InFlight granted bytes)
    (other : name ≠ controllerName) (handled : receiveThreadFunction name s (.datagram bytes) = .next s') :
    (s'.keepAliveStarted = true →
      s.keepAliveStarted = true ∧ s'.mqttBrokerAddress = s.mqttBrokerAddress ∨ granted name s'.mqttBrokerAddress) ∧
    (0 < s'.threads.count .keepAlive → 0 < s.threads.count .keepAlive ∨ name.length ≤ 235) := by
  cases flight with
  | request rest free fits =>
    have short := length_terminated fits
    have text : Short (controllerName ++ colon :: rest) := Nat.lt_of_le_of_lt fits (by decide)
    obtain ⟨buffer,body⟩ := receive_short name s short
    rw [upToNul_append_nul,upToNul_of_free free] at body
    have receiver := (ControllerMessage.parse_ids s.controllerMsg text).1
    rw [field_zero controllerName_colon_free] at receiver
    have stranger : ¬ (s.controllerMsg.parse (controllerName ++ colon :: rest)).2.receiverId = name := by
      rw [receiver]
      exact other.symm
    simp only [stranger,if_false] at body
    cases handled.symm.trans body
    exact ⟨fun on => .inl ⟨on,rfl⟩,.inl⟩
  | reply host clientId keepAlive st idFree idSingle hostFree hostSingle fits backed =>
    have short := length_terminated fits
    have text : Short (replyText host keepAlive clientId st) := Nat.lt_of_le_of_lt fits (by decide)
    obtain ⟨buffer,body⟩ := receive_short name s short
    rw [upToNul_append_nul,upToNul_of_free (replyText_nul_free idFree hostFree)] at body
    have state := ControllerMessage.parse_state s.controllerMsg st text (reply_word idSingle)
    have receiver := (ControllerMessage.parse_ids s.controllerMsg text).1
    rw [reply_receiver idSingle] at receiver
    by_cases mine : clientId = name
    · subst mine
      simp only [receiver,if_true] at body
      cases handled.symm.trans body
      constructor
      · intro on
        rcases act_started on with old | ⟨ok,taken⟩
        · exact .inl old
        · obtain rfl : st = .ok := state.symm.trans ok
          have address : (s.controllerMsg.parse (replyText host keepAlive clientId .ok)).2.brokerIP = host :=
            parse_broker s.controllerMsg idSingle hostSingle text
          rw [taken]
          exact .inr (address.symm ▸ backed rfl)
      · intro running
        rcases act_keepAlive running with old | ok
        · exact .inl old
        · obtain rfl : st = .ok := state.symm.trans ok
          exact .inr (name_of_grant fits)
    · have stranger : ¬ (s.controllerMsg.parse (replyText host keepAlive clientId st)).2.receiverId = name := by
        rw [receiver]
        exact mine
      simp only [stranger,if_false] at body
      cases handled.symm.trans body
      exact ⟨fun on => .inl ⟨on,rfl⟩,.inl⟩

end Client

/-- What the sender of a reply copies is the reply that was called for. -/
theorem reply_sent {t t' : Split} (clean : SenderClean t) (moved : Moved validClients t (.proceed (inetNtoa x y z w)) t')
    (phase : t.phase = .answer st)
    (fits : (replyText (inetNtoa x y z w) t.state.keepAlive t.state.clientMsg.senderId st).length ≤ 254)
    (sent : sendThreadFunction t'.state.buffer = some bytes) :
    bytes = replyText (inetNtoa x y z w) t.state.keepAlive t.state.clientMsg.senderId st ++ [0] ∧
      compose (inetNtoa x y z w) t.state st = some t'.state := by
  cases moved with
  | answered here composed =>
    cases phase.symm.trans here
    have host := upToNul_of_free (inetNtoa_nul_free x y z w)
    have intact := compose_intact clean.1 composed (by rw [host]; exact length_terminated fits)
    rw [host] at intact
    exact ⟨Option.some.inj (sent.symm.trans intact),composed⟩
  | enlisted here => exact nomatch phase.symm.trans here
  | checked here => exact nomatch phase.symm.trans here
  | missed here => exact nomatch phase.symm.trans here
  | renewed here => exact nomatch phase.symm.trans here

/-- The announcement behind an OK on its way. -/
theorem moved_admitted {t t' : Split} {announced announced' : Bytes → Prop} (moved : Moved validClients t label t')
    (admitted : t.phase = .announced ∨ t.phase = .answer .ok → announced t.state.clientMsg.senderId)
    (kept : ∀ c, announced c → announced' c)
    (new : ∀ c bytes, label = .receive bytes → Announces validClients c t.state bytes → announced' c) :
    t'.phase = .announced ∨ t'.phase = .answer .ok → announced' t'.state.clientMsg.senderId := by
  cases moved with
  | received waiting head =>
    rintro (phase | phase)
    · obtain ⟨mine,rfl,valid⟩ := dispatch_announced.mp phase
      exact new _ _ rfl ⟨_,head,mine,valid,rfl⟩
    · exact absurd phase dispatch_ne_ok
  | enlisted phase =>
    intro _
    rw [(enlist_keeps t.state).1]
    exact kept _ (admitted (.inl phase))
  | checked => simp
  | missed => simp
  | renewed => simp
  | answered => simp
  | ticked =>
    rw [tick_clientMsg]
    exact fun phase => kept _ (admitted phase)

section Step

variable {validClients : ControllerClass} {members : ι → Member} {g g' : Group ι} {event : Event ι}
  {announced announced' : Bytes → Prop} {granted granted' : Bytes → Bytes → Prop}

theorem announcement_in_flight (m : Member) :
    InFlight granted (Client.transmitted (Client.announcement m.name m.type m.attr)) := by
  have eq := Client.announcement_eq m.nulFree.1 m.nulFree.2.1 m.nulFree.2.2
  have fits := m.fits
  rw [Client.transmitted_eq fits,eq]
  rw [eq] at fits
  have free : 0 ∉ controllerName ++ colon :: (m.name ++ colon :: (m.type ++ colon :: m.attr)) :=
    eq ▸ Client.composed_nul_free _
  exact .request _ free fits

theorem alive_in_flight (m : Member) (short : m.name.length ≤ 235) :
    InFlight granted (Client.transmitted (Client.aliveMessage m.name)) := by
  have eq := Client.aliveMessage_eq m.nulFree.1
  have fits : (Client.aliveMessage m.name).length ≤ 254 := by
    rw [Client.aliveMessage_length m.nulFree.1]
    omega
  rw [Client.transmitted_eq fits,eq]
  rw [eq] at fits
  have free : 0 ∉ controllerName ++ colon :: (m.name ++ colon :: Bytes.ofString "Alive") :=
    eq ▸ Client.composed_nul_free _
  exact .request _ free fits

inductive Stepped (validClients : ControllerClass) (members : ι → Member) (g : Group ι) : Event ι → Group ι → Prop where
  | took (moved : Moved validClients g.controller (.receive bytes) t) :
      Stepped validClients members g (.take bytes) { g with controller := t }
  | replied (moved : Moved validClients g.controller (.proceed (inetNtoa x y z w)) t)
      (phase : g.controller.phase = .answer st)
      (fits : (replyText (inetNtoa x y z w) g.controller.state.keepAlive
        g.controller.state.clientMsg.senderId st).length ≤ 254)
      (sent : sendThreadFunction t.state.buffer = some bytes) :
      Stepped validClients members g (.proceed x y z w) { g with controller := t, network := g.network ++ [bytes] }
  | proceeded (moved : Moved validClients g.controller (.proceed (inetNtoa x y z w)) t)
      (other : ∀ st, g.controller.phase ≠ .answer st) :
      Stepped validClients members g (.proceed x y z w) { g with controller := t }
  | ticked (moved : Moved validClients g.controller .tick t) :
      Stepped validClients members g .tick { g with controller := t }
  | announced (i : ι) :
      Stepped validClients members g (.announce i) { g with network := g.network ++
        [Client.transmitted (Client.announcement (members i).name (members i).type (members i).attr)] }
  | alive (i : ι) (running : 0 < (g.clients i).threads.count .keepAlive) :
      Stepped validClients members g (.alive i) { g with network := g.network ++
        [Client.transmitted (Client.aliveMessage (members i).name)] }
  | delivered (i : ι) (flying : bytes ∈ g.network)
      (handled : Client.receiveThreadFunction (members i).name (g.clients i) (.datagram bytes) = .next s) :
      Stepped validClients members g (.deliver i bytes) { g with clients := Function.update g.clients i s }
  | lost : Stepped validClients members g (.lose bytes) { g with network := g.network.erase bytes }

theorem group_step (step : (group validClients members).step g event = some g') :
    Stepped validClients members g event g' := by
  cases event with
  | take bytes =>
    simp only [group] at step
    split at step
    · obtain ⟨t,moved,rfl⟩ := Option.map_eq_some_iff.mp step
      exact .took (sections_step.mp moved)
    · contradiction
  | proceed x y z w =>
    obtain ⟨t,moved,rest⟩ := Option.bind_eq_some_iff.mp step
    have moved := sections_step.mp moved
    split at rest
    · rename_i phase
      split at rest
      · rename_i fits
        obtain ⟨bytes,sent,rfl⟩ := Option.map_eq_some_iff.mp rest
        exact .replied moved phase fits sent
      · contradiction
    · rename_i other
      cases rest
      exact .proceeded moved other
  | tick =>
    cases step
    exact .ticked .ticked
  | announce i =>
    simp only [group] at step
    split at step
    · cases step
      exact .announced i
    · contradiction
  | alive i =>
    simp only [group] at step
    split at step
    · rename_i running
      cases step
      exact .alive i running
    · contradiction
  | deliver i bytes =>
    simp only [group] at step
    split at step
    · rename_i flying
      obtain ⟨s,handled,rfl⟩ := Option.map_eq_some_iff.mp step
      exact .delivered i flying (Outcome.next?_eq_some.mp handled)
    · contradiction
  | lose bytes =>
    cases step
    exact .lost

theorem agreed_step (agreed : Agreed members announced granted g) (stepped : Stepped validClients members g event g')
    (keptAnnounced : ∀ c, announced c → announced' c)
    (newAnnounced : ∀ c, Announced validClients c g event → announced' c)
    (allGranted : ∀ c host, granted' c host ↔ granted c host ∨ Granted c host g event) :
    Agreed members announced' granted' g' := by
  obtain ⟨flight,backed,admitted,clean,started,short⟩ := agreed
  have keptGranted : ∀ c host, granted c host → granted' c host := fun c host old => (allGranted c host).mpr (.inl old)
  have flight' := fun bytes member => (flight bytes member).mono keptGranted
  have started' := fun i on => keptGranted _ _ (started i on)
  have admitted' := fun phase => keptAnnounced _ (admitted phase)
  have backed' : ∀ c host, granted' c host → announced' c := by
    intro c host grant
    rcases (allGranted c host).mp grant with old | ⟨_,_,_,_,_,_,_,phase,rfl,_⟩
    · exact keptAnnounced c (backed c host old)
    · exact admitted' (.inr phase)
  cases stepped with
  | took moved =>
    refine ⟨flight',backed',moved_admitted moved admitted keptAnnounced ?_,moved_clean moved clean,started',short⟩
    rintro c bytes same announces
    cases same
    exact newAnnounced c ⟨_,rfl,announces⟩
  | replied moved phase fits sent =>
    obtain ⟨rfl,composed⟩ := reply_sent clean moved phase fits sent
    refine ⟨List.forall_mem_append.mpr ⟨flight',List.forall_mem_singleton.mpr ?_⟩,backed',
      moved_admitted moved admitted keptAnnounced (by simp),moved_clean moved clean,started',short⟩
    apply InFlight.reply _ _ _ _ clean.1 clean.2 (inetNtoa_nul_free _ _ _ _) (inetNtoa_colon_free _ _ _ _) fits
    rintro rfl
    exact (allGranted _ _).mpr (.inr ⟨_,_,_,_,_,rfl,rfl,phase,rfl,composed,sent⟩)
  | proceeded moved =>
    exact ⟨flight',backed',moved_admitted moved admitted keptAnnounced (by simp),moved_clean moved clean,started',short⟩
  | ticked moved =>
    exact ⟨flight',backed',moved_admitted moved admitted keptAnnounced (by simp),moved_clean moved clean,started',short⟩
  | announced i =>
    refine ⟨List.forall_mem_append.mpr ⟨flight',List.forall_mem_singleton.mpr ?_⟩,backed',admitted',clean,
      started',short⟩
    exact announcement_in_flight (members i)
  | alive i running =>
    refine ⟨List.forall_mem_append.mpr ⟨flight',List.forall_mem_singleton.mpr ?_⟩,backed',admitted',clean,
      started',short⟩
    exact alive_in_flight (members i) (short i running)
  | delivered i flying handled =>
    obtain ⟨on,runs⟩ := deliver_effect (flight' _ flying) (members i).notController handled
    refine ⟨flight',backed',admitted',clean,?_,?_⟩
    · intro j
      by_cases same : j = i
      · subst same
        simp only [Function.update_self]
        intro started
        rcases on started with ⟨old,address⟩ | grant
        · exact address ▸ started' j old
        · exact grant
      · simpa only [Function.update_of_ne same] using started' j
    · intro j
      by_cases same : j = i
      · subst same
        simp only [Function.update_self]
        intro running
        exact (runs running).elim (short j) id
      · simpa only [Function.update_of_ne same] using short j
  | lost => exact ⟨fun bytes member => flight' bytes (List.mem_of_mem_erase member),backed',admitted',clean,started',short⟩

/-- In every reachable state of the closed system, a client whose keep-alive thread was
started has been admitted: the controller took in a valid announcement under its name
and composed an OK for it, with the host that the client now uses as broker address. -/
theorem started_was_granted (validClients : ControllerClass) (members : ι → Member) (buffers : ι → CArray buffLen)
    (messages : ι → ControllerMessage)
    (reached : (group validClients members).run (.start buffers messages) events = some g)
    (started : (g.clients i).keepAliveStarted = true) :
    (group validClients members).Occurs (Announced validClients (members i).name) (.start buffers messages) events ∧
      (group validClients members).Occurs (Granted (members i).name (g.clients i).mqttBrokerAddress)
        (.start buffers messages) events := by
  have agreed : Agreed members
      (fun c => (group validClients members).Occurs (Announced validClients c) (.start buffers messages) events)
      (fun c host => (group validClients members).Occurs (Granted c host) (.start buffers messages) events) g := by
    apply Machine.run_history (fun past g => Agreed members
      (fun c => (group validClients members).Occurs (Announced validClients c) (.start buffers messages) past)
      (fun c host => (group validClients members).Occurs (Granted c host) (.start buffers messages) past) g) _ _ reached
    · intro past g event g' before agreed step
      apply agreed_step agreed (group_step step)
      · intro c old
        exact old.append [event]
      · intro c now
        exact Machine.occurs_last before now
      · intro c host
        exact Machine.occurs_snoc before step
    · constructor <;> simp [Group.start,Split.start,initial,SenderClean,Client.start,Client.Threads.create,
        Client.Threads.count]
  have grant := agreed.started i started
  exact ⟨agreed.backed _ _ grant,grant⟩

end Step

def doorMember : Member where
  name := doorId
  type := Bytes.ofString "sensor"
  attr := Bytes.ofString "door"
  nulFree := by decide
  single := by decide
  notController := by decide
  notAlive := by decide
  fits := by decide

def doorStart : Group Unit := .start (fun _ => CArray.zeros buffLen) fun _ => ⟨⟨[], []⟩, .nok, 0, []⟩

/-- A client announces itself and hears the controller's OK. -/
def doorEvents : List (Event Unit) :=
  [.announce (), .take doorRequest, .proceed 192 168 1 1, .proceed 192 168 1 1,
    .deliver () (replyText doorHost kaBase doorId .ok ++ [0])]

theorem door_was_granted : ∃ g, (group doorSensors fun _ => doorMember).run doorStart doorEvents = some g ∧
    (g.clients ()).mqttBrokerAddress = doorHost ∧
    (group doorSensors fun _ => doorMember).Occurs (Granted doorId doorHost) doorStart doorEvents := by
  have evaluated : ((group doorSensors fun _ => doorMember).run doorStart doorEvents).map (fun g =>
      ((g.clients ()).keepAliveStarted, (g.clients ()).mqttBrokerAddress)) = some (true, doorHost) := by
    decide +kernel
  obtain ⟨g,reached,values⟩ := Option.map_eq_some_iff.mp evaluated
  obtain ⟨started,address⟩ := Prod.mk.inj values
  have grant := (started_was_granted doorSensors (fun _ => doorMember) _ _ reached started).2
  rw [address] at grant
  exact ⟨g,reached,address,grant⟩

end SmartHospital
