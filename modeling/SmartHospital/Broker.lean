import SmartHospital.Decoding

/-! The address of the broker on its way from the receive thread to a call of
`getBrokerAddres`. Only that call takes the mutex, so it never waits for it; and a
notification wakes the call if it sleeps, or no one. A message is an OK if the object it
is decoded into says so. -/
namespace SmartHospital.Client

/-- Where a call of `getBrokerAddres` is. -/
inductive Call where
  | called
  | locked
  | waiting
  | woken
  | returned (address : Bytes)
  deriving DecidableEq

/-- Where the receive thread is in the branch of a first OK. -/
inductive Branch where
  | idle
  | flagged
  | assigned
  | notified
  deriving DecidableEq

structure Lookup where
  client : State
  branch : Branch
  call : Call
  /-- The address in every OK handled so far. -/
  handled : List Bytes

inductive Turn where
  | lock
  | wait
  /-- A spurious wake-up. -/
  | wake
  | finish
  | receive (received : Received)
  | proceed

/-- A message for this client, up to the first statement that others can see. -/
def enter (l : Lookup) (s : State) : Lookup :=
  if s.controllerMsg.state = .ok then
    if s.keepAliveStarted = false then
      { l with
        client := { s with keepAliveStarted := true, threads := s.threads.cancel s.sendThread }
        branch := .flagged }
    else { l with client := s, handled := l.handled ++ [s.controllerMsg.brokerIP] }
  else { l with client := act s }

/-- The next statement in the branch of a first OK. -/
def proceed (l : Lookup) : Option Lookup :=
  let s := l.client
  match l.branch with
  | .idle => none
  | .flagged =>
    some
      { l with
        client := { s with mqttBrokerAddress := s.controllerMsg.brokerIP }
        branch := .assigned
        handled := l.handled ++ [s.controllerMsg.brokerIP] }
  | .assigned =>
    some
      { l with
        client := { s with notifications := s.notifications + 1 }
        branch := .notified
        call := if l.call = .waiting then .woken else l.call }
  | .notified =>
    let (keepAliveThread, threads) := s.threads.create .keepAlive
    some
      { l with
        client :=
          { s with
            keepAlive := s.controllerMsg.keepAlive
            keepAliveThread := keepAliveThread
            threads := threads }
        branch := .idle }

def lookup (clientName : Bytes) : Machine Lookup Turn where
  step l
    | .lock => if l.call = .called then some { l with call := .locked } else none
    | .wait => if l.call = .locked then some { l with call := .waiting } else none
    | .wake => if l.call = .waiting then some { l with call := .woken } else none
    | .finish => if l.call = .woken then some { l with call := .returned l.client.mqttBrokerAddress } else none
    | .receive received =>
      if l.branch = .idle then
        (receive l.client.buffer received).next?.map fun (buffer, msg) =>
          let controllerMsg := (l.client.controllerMsg.parse msg).2
          let s := { l.client with buffer := buffer, controllerMsg := controllerMsg }
          if controllerMsg.receiverId = clientName then enter l s else { l with client := s }
      else none
    | .proceed => proceed l

def Lookup.start (buffer : CArray buffLen) (controllerMsg : ControllerMessage) : Lookup :=
  ⟨Client.start buffer controllerMsg, .idle, .called, []⟩

/-- What one turn can do to the flag, the address and the call. -/
inductive Turned (l : Lookup) : Turn → Lookup → Prop where
  | locked (here : l.call = .called) : Turned l .lock { l with call := .locked }
  | slept (here : l.call = .locked) : Turned l .wait { l with call := .waiting }
  | woke (here : l.call = .waiting) : Turned l .wake { l with call := .woken }
  | finished (here : l.call = .woken) : Turned l .finish { l with call := .returned l.client.mqttBrokerAddress }
  | flagged (s : State) (off : l.client.keepAliveStarted = false)
      (address : s.mqttBrokerAddress = l.client.mqttBrokerAddress) :
      Turned l (.receive received) { l with client := s, branch := .flagged }
  | ignored (s : State) (brokerIP : Bytes) (idle : l.branch = .idle) (on : l.client.keepAliveStarted = true)
      (address : s.mqttBrokerAddress = l.client.mqttBrokerAddress) :
      Turned l (.receive received) { l with client := s, handled := l.handled ++ [brokerIP] }
  | passed (s : State) (idle : l.branch = .idle) (kept : s.keepAliveStarted = true → l.client.keepAliveStarted = true)
      (address : s.mqttBrokerAddress = l.client.mqttBrokerAddress) :
      Turned l (.receive received) { l with client := s }
  | proceeded (next : proceed l = some l') : Turned l .proceed l'

variable {clientName : Bytes} {l l' : Lookup} {s s' : State} {turn : Turn} {turns : List Turn} {buffer : CArray buffLen}
  {controllerMsg : ControllerMessage}

theorem enter_ok (ok : s.controllerMsg.state = .ok) (idle : s.keepAliveStarted = false) : enter l s =
    { l with
      client := { s with keepAliveStarted := true, threads := s.threads.cancel s.sendThread }
      branch := .flagged } := by
  rw [enter,if_pos ok,if_pos idle]

theorem enter_ignored (ok : s.controllerMsg.state = .ok) (started : s.keepAliveStarted = true) :
    enter l s = { l with client := s, handled := l.handled ++ [s.controllerMsg.brokerIP] } := by
  rw [enter,if_pos ok,if_neg (Bool.not_eq_false _ ▸ started)]

theorem enter_other (other : s.controllerMsg.state ≠ .ok) : enter l s = { l with client := act s } := if_neg other

/-- Statement by statement, the receive thread does what the loop body does. -/
theorem enter_turns (clientName : Bytes) (idle : l.branch = .idle) : ∃ statements l',
    (lookup clientName).run (enter l s) (List.replicate statements .proceed) = some l' ∧
      l'.client = act s ∧ l'.branch = .idle := by
  by_cases ok : s.controllerMsg.state = .ok
  · cases started : s.keepAliveStarted with
    | false =>
      rw [enter_ok ok started]
      refine ⟨3,_,rfl,?_,rfl⟩
      simp [act,ok,started,Threads.create]
    | true =>
      rw [enter_ignored ok started]
      refine ⟨0,_,rfl,?_,idle⟩
      simp [act,ok,started]
  · rw [enter_other ok]
    exact ⟨0,_,rfl,rfl,idle⟩

theorem loop_body_turns (idle : l.branch = .idle)
    (handled : receiveThreadFunction clientName l.client received = .next s') :
    ∃ statements l', (lookup clientName).run l (.receive received :: List.replicate statements .proceed) = some l' ∧
      l'.client = s' ∧ l'.branch = .idle := by
  simp only [receiveThreadFunction] at handled
  split at handled
  · contradiction
  · contradiction
  · rename_i buffer msg head
    obtain rfl := Outcome.next.inj handled
    have step : (lookup clientName).step l (.receive received) =
        some (if (l.client.controllerMsg.parse msg).2.receiverId = clientName then
          enter l { l.client with buffer := buffer, controllerMsg := (l.client.controllerMsg.parse msg).2 }
        else
          { l with
            client := { l.client with buffer := buffer, controllerMsg := (l.client.controllerMsg.parse msg).2 } }) := by
      simp [lookup,idle,head,Outcome.next?]
    by_cases mine : (l.client.controllerMsg.parse msg).2.receiverId = clientName
    · simp only [mine,if_true] at step ⊢
      obtain ⟨statements,l',rest,result⟩ := enter_turns clientName idle
      exact ⟨statements,l',Machine.run_cons.mpr ⟨_,step,rest⟩,result⟩
    · simp only [mine,if_false] at step ⊢
      exact ⟨0,_,Machine.run_cons.mpr ⟨_,step,rfl⟩,rfl,idle⟩

theorem act_other (other : s.controllerMsg.state ≠ .ok) :
    ((act s).keepAliveStarted = true → s.keepAliveStarted = true) ∧
      (act s).mqttBrokerAddress = s.mqttBrokerAddress := by
  unfold act
  rw [if_neg other]
  split
  · exact ⟨nofun,rfl⟩
  · exact ⟨id,rfl⟩

theorem enter_turned (idle : l.branch = .idle) (flag : s.keepAliveStarted = l.client.keepAliveStarted)
    (address : s.mqttBrokerAddress = l.client.mqttBrokerAddress) : Turned l (.receive received) (enter l s) := by
  by_cases ok : s.controllerMsg.state = .ok
  · cases started : s.keepAliveStarted with
    | false =>
      rw [enter_ok ok started]
      exact .flagged _ (flag ▸ started) address
    | true =>
      rw [enter_ignored ok started]
      exact .ignored s _ idle (flag ▸ started) address
  · rw [enter_other ok]
    obtain ⟨kept,same⟩ := act_other ok
    exact .passed _ idle (flag ▸ kept) (same.trans address)

theorem lookup_step (step : (lookup clientName).step l turn = some l') : Turned l turn l' := by
  cases turn with
  | lock =>
    obtain ⟨here,done⟩ := Option.ite_none_right_eq_some.mp step
    cases done
    exact .locked here
  | wait =>
    obtain ⟨here,done⟩ := Option.ite_none_right_eq_some.mp step
    cases done
    exact .slept here
  | wake =>
    obtain ⟨here,done⟩ := Option.ite_none_right_eq_some.mp step
    cases done
    exact .woke here
  | finish =>
    obtain ⟨here,done⟩ := Option.ite_none_right_eq_some.mp step
    cases done
    exact .finished here
  | proceed => exact .proceeded step
  | receive received =>
    obtain ⟨idle,step⟩ := Option.ite_none_right_eq_some.mp step
    obtain ⟨⟨buffer,msg⟩,_,rfl⟩ := Option.map_eq_some_iff.mp step
    dsimp only
    split
    · exact enter_turned idle rfl rfl
    · exact .passed _ idle id rfl

/-- The notification of the OK in hand is still to come. -/
def Outstanding (l : Lookup) : Prop := l.branch = .flagged ∨ l.branch = .assigned

/-- What the receive thread keeps, whatever the call does. -/
structure Linked (l : Lookup) : Prop where
  address : l.handled ≠ [] → l.client.mqttBrokerAddress ∈ l.handled
  started : l.client.keepAliveStarted = true → l.branch = .flagged ∨ l.handled ≠ []
  assigned : l.branch = .assigned → l.handled ≠ []

theorem linked_step (linked : Linked l) (turned : Turned l turn l') : Linked l' := by
  obtain ⟨address,started,assigned⟩ := linked
  cases turned with
  | locked here => exact ⟨address,started,assigned⟩
  | slept here => exact ⟨address,started,assigned⟩
  | woke here => exact ⟨address,started,assigned⟩
  | finished here => exact ⟨address,started,assigned⟩
  | flagged s off same => exact ⟨fun some => same ▸ address some,fun _ => .inl rfl,nofun⟩
  | ignored s brokerIP idle on same =>
    have before : l.handled ≠ [] := (started on).resolve_left (by rw [idle]; nofun)
    have more : l.handled ++ [brokerIP] ≠ [] := by simp
    exact ⟨fun _ => List.mem_append_left _ (same ▸ address before),fun _ => .inr more,fun _ => more⟩
  | passed s idle kept same => exact ⟨fun some => same ▸ address some,fun on => started (kept on),assigned⟩
  | proceeded next =>
    unfold proceed at next
    split at next
    · contradiction
    · cases next
      have more : l.handled ++ [l.client.controllerMsg.brokerIP] ≠ [] := by simp
      exact ⟨fun _ => List.mem_append_right _ (List.mem_singleton_self _),fun _ => .inr more,fun _ => more⟩
    · rename_i here
      cases next
      exact ⟨address,fun _ => .inr (assigned here),nofun⟩
    · rename_i here
      cases next
      exact ⟨address,fun on => .inr ((started on).resolve_left fun flagged => nomatch here.symm.trans flagged),nofun⟩

theorem run_linked (reached : (lookup clientName).run (.start buffer controllerMsg) turns = some l) : Linked l := by
  apply Machine.run_invariant Linked _ reached
  · exact ⟨nofun,nofun,nofun⟩
  · exact fun _ _ _ linked step => linked_step linked (lookup_step step)

/-- The wait begins when its notification has been given already, or ends before the
first OK. -/
def Hazard (l : Lookup) : Turn → Prop
  | .wait => l.client.keepAliveStarted = true ∧ ¬ Outstanding l
  | .wake => l.handled = []
  | _ => False

/-- What the call relies on. -/
structure Served (l : Lookup) : Prop where
  result : l.call = .returned address → address ∈ l.handled
  woken : l.call = .woken → l.handled ≠ []
  asleep : l.call = .waiting → l.client.keepAliveStarted = true → Outstanding l

theorem served_step (linked : Linked l) (served : Served l) (safe : ¬ Hazard l turn) (turned : Turned l turn l') :
    Served l' := by
  obtain ⟨result,woken,asleep⟩ := served
  cases turned with
  | locked here => exact ⟨nofun,nofun,nofun⟩
  | slept here => exact ⟨nofun,nofun,fun _ on => by_contra fun given => safe ⟨on,given⟩⟩
  | woke here => exact ⟨nofun,fun _ => safe,nofun⟩
  | finished here =>
    refine ⟨?_,nofun,nofun⟩
    rintro _ ⟨⟩
    exact linked.address (woken here)
  | flagged s off same => exact ⟨result,woken,fun _ _ => .inl rfl⟩
  | ignored s brokerIP idle on same =>
    have more : l.handled ++ [brokerIP] ≠ [] := by simp
    refine ⟨fun returned => List.mem_append_left _ (result returned),fun _ => more,?_⟩
    exact fun waiting _ => asleep waiting on
  | passed s idle kept same => exact ⟨result,woken,fun waiting on => asleep waiting (kept on)⟩
  | proceeded next =>
    unfold proceed at next
    split at next
    · contradiction
    · cases next
      have more : l.handled ++ [l.client.controllerMsg.brokerIP] ≠ [] := by simp
      exact ⟨fun returned => List.mem_append_left _ (result returned),fun _ => more,fun _ _ => .inr rfl⟩
    · rename_i here
      cases next
      have before := linked.assigned here
      by_cases waiting : l.call = .waiting
      · rw [if_pos waiting]
        exact ⟨nofun,fun _ => before,nofun⟩
      · rw [if_neg waiting]
        exact ⟨result,woken,fun asleep => absurd asleep waiting⟩
    · rename_i here
      cases next
      refine ⟨result,woken,fun waiting on => ?_⟩
      rcases asleep waiting on with flagged | assigned
      · exact nomatch here.symm.trans flagged
      · exact nomatch here.symm.trans assigned

theorem run_served (reached : (lookup clientName).run (.start buffer controllerMsg) turns = some l)
    (safe : ¬ (lookup clientName).Occurs Hazard (.start buffer controllerMsg) turns) : Served l := by
  apply Machine.run_avoiding Served _ _ reached safe
  · intro past l turn l' before served calm step
    exact served_step (run_linked before) served calm (lookup_step step)
  · exact ⟨nofun,nofun,nofun⟩

/-- The address returned is that of an OK, and the call does not sleep through one. -/
structure Honoured (l : Lookup) : Prop where
  result : ∀ address, l.call = .returned address → address ∈ l.handled
  awake : ¬ (l.call = .waiting ∧ l.handled ≠ [] ∧ l.client.keepAliveStarted = true ∧ ¬ Outstanding l)

theorem Served.honoured (served : Served l) : Honoured l := by
  refine ⟨fun _ => served.result,?_⟩
  rintro ⟨waiting,_,on,given⟩
  exact given (served.asleep waiting on)

/-- In every state of a run, and if the call returns right there, the address is that of
an OK and the call does not sleep through one: exactly if it never begins to wait with
the flag on and the notification given, and is never woken before the first OK. -/
theorem lookup_honoured_iff (clientName : Bytes) (buffer : CArray buffLen) (controllerMsg : ControllerMessage)
    (reached : (lookup clientName).run (.start buffer controllerMsg) turns = some l) :
    (∀ front back t, turns = front ++ back → (lookup clientName).run (.start buffer controllerMsg) front = some t →
      Honoured t ∧ ∀ t', (lookup clientName).step t .finish = some t' → Honoured t') ↔
      ¬ (lookup clientName).Occurs Hazard (.start buffer controllerMsg) turns := by
  constructor
  · intro honoured happens
    obtain ⟨past,turn,after,t,next,rfl,early,hazard,step,late⟩ := happens.around reached
    obtain ⟨now,behind⟩ := honoured (past ++ [turn]) after next (by simp) late
    cases lookup_step step with
    | slept here =>
      obtain ⟨on,given⟩ := hazard
      have some := ((run_linked early).started on).resolve_left fun flagged => given (.inl flagged)
      exact now.awake ⟨rfl,some,on,given⟩
    | woke here =>
      have returns : (lookup clientName).step { t with call := .woken } .finish =
        some { t with call := .returned t.client.mqttBrokerAddress } := rfl
      have member := (behind _ returns).result _ rfl
      have none : t.handled = [] := hazard
      rw [none] at member
      contradiction
    | locked => exact hazard
    | finished => exact hazard
    | flagged => exact hazard
    | ignored => exact hazard
    | passed => exact hazard
    | proceeded => exact hazard
  · rintro safe front back t rfl there
    have quiet : ¬ (lookup clientName).Occurs Hazard (.start buffer controllerMsg) front :=
      fun early => safe (early.append back)
    have served := run_served there quiet
    refine ⟨served.honoured,?_⟩
    intro t' step
    exact (served_step (run_linked there) served id (lookup_step step)).honoured

/-- A client's OK on its way. -/
def doorOk : Received := .datagram (Bytes.ofString "Client_1:Controller_1:OK:192.168.1.1:60" ++ [0])

def doorLookup : Lookup := .start (CArray.zeros buffLen) ⟨⟨[], []⟩, .nok, 0, []⟩

/-- The wait begins, the OK comes, and the call returns. -/
theorem wait_before_ok : ∃ l,
    (lookup (Bytes.ofString "Client_1")).run doorLookup
        [.lock, .wait, .receive doorOk, .proceed, .proceed, .finish] = some l ∧
      l.call = .returned (Bytes.ofString "192.168.1.1") ∧ Honoured l := by
  have quiet : ¬ (lookup (Bytes.ofString "Client_1")).Occurs Hazard doorLookup
      [.lock, .wait, .receive doorOk, .proceed, .proceed, .finish] := by
    rw [Machine.occurs_cons rfl,Machine.occurs_cons rfl,Machine.occurs_cons rfl,Machine.occurs_cons rfl,
      Machine.occurs_cons rfl,Machine.occurs_cons rfl]
    rintro (none | ⟨on,_⟩ | none | none | none | none | none)
    · exact none
    · contradiction
    all_goals first | exact none | exact Machine.not_occurs_nil _ none
  have honoured := (lookup_honoured_iff _ (CArray.zeros buffLen) ⟨⟨[], []⟩, .nok, 0, []⟩ rfl).mpr quiet
  exact ⟨_,rfl,rfl,(honoured _ [] _ (List.append_nil _).symm rfl).1⟩

/-- Behind the notification the call sleeps on with the flag on; and woken too early, it
returns the empty address. -/
theorem lookup_not_honoured :
    (∃ l, (lookup (Bytes.ofString "Client_1")).run doorLookup
        [.receive doorOk, .proceed, .proceed, .proceed, .lock, .wait] = some l ∧ ¬ Honoured l) ∧
      ∃ l, (lookup (Bytes.ofString "Client_1")).run doorLookup [.lock, .wait, .wake, .finish] = some l ∧
        l.call = .returned [] ∧ ¬ Honoured l := by
  constructor
  · refine ⟨_,rfl,?_⟩
    rintro ⟨_,awake⟩
    apply awake
    refine ⟨rfl,List.cons_ne_nil _ _,rfl,?_⟩
    rintro (flagged | assigned) <;> contradiction
  · refine ⟨_,rfl,rfl,?_⟩
    rintro ⟨result,_⟩
    exact List.not_mem_nil (result [] rfl)

end SmartHospital.Client
