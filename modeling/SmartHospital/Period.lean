import SmartHospital.Leftover
import SmartHospital.Load
import Mathlib.Tactic.Tauto

/-! One period of the running controller, between two ticks. The list that is asked is
not the list that is written then, so what a datagram is worth is settled when the
period starts. -/
namespace SmartHospital.Controller

structure Log where
  state : State
  sent : List Bytes

/-- `machine` with the bytes of every reply written down. -/
def logging (validClients : ControllerClass) : Machine Log Input where
  step l
    | .datagram host bytes =>
      (receiveThreadFunction validClients host l.state (.datagram bytes)).next?.map fun (s, answer) =>
        ⟨s, l.sent ++ (answer.bind fun _ => sendThreadFunction s.buffer).toList⟩
    | .tick => some ⟨clientListThreadFunction l.state, l.sent⟩

variable {validClients : ControllerClass} {host bytes : Bytes} {s t r : State} {regularMsg : Bool} {inputs : List Input}

def loggingSimulation (validClients : ControllerClass) :
    Machine.Simulation (logging validClients) (machine validClients) where
  abs := Log.state
  label _ input := input
  sound := by
    intro l input next step
    cases input with
    | tick => exact congrArg (Option.map Log.state) step
    | datagram host bytes =>
      obtain ⟨⟨s,answer⟩,handled,rfl⟩ := Option.map_eq_some_iff.mp step
      exact Option.map_eq_some_iff.mpr ⟨_,handled,rfl⟩

theorem logging_run (whole : (logging validClients).run l inputs = some l') :
    (machine validClients).run l.state inputs = some l'.state :=
  (loggingSimulation validClients).run_inputs (fun _ _ => rfl) whole

def withFresh (s : State) (fresh : List Bytes) : State := { s with newConnectedClients := fresh }

theorem receive_withFresh (head : receive s (.datagram bytes) = .next (r, regularMsg)) (fresh : List Bytes) :
    receive (withFresh s fresh) (.datagram bytes) = .next (withFresh r fresh, regularMsg) := by
  obtain ⟨msg,text,rfl,rfl⟩ := receive_next head
  rw [receive_eq]
  simp only [withFresh,text]

/-- The branches ask the connected list only, and append to the other. -/
theorem record_withFresh (started : r.firstStart = false) (fresh : List Bytes) :
    record validClients (withFresh r fresh) regularMsg =
      withFresh (record validClients (withFresh r []) regularMsg)
        (fresh ++ (record validClients (withFresh r []) regularMsg).newConnectedClients) := by
  have called : ∀ xs, replyState validClients (withFresh r xs) regularMsg = replyState validClients r regularMsg :=
    fun _ => rfl
  have receiver : ∀ xs, (withFresh r xs).clientMsg = r.clientMsg := fun _ => rfl
  unfold record
  rw [called,called,receiver,receiver]
  split
  · simp [enlist,started,withFresh]
  · simp [withFresh]
  · split
    · simp [renew,withFresh]
    · simp [withFresh]

def behind (fresh : List Bytes) : Option Bytes × List Bytes × List Bytes → Option Bytes × List Bytes × List Bytes
  | (reply, connected, added) => (reply, connected, fresh ++ added)

theorem shown_reply_withFresh (fresh : List Bytes) :
    shown (reply host (withFresh r (fresh ++ r.newConnectedClients)) st) =
      (shown (reply host r st)).map (behind fresh) := by
  cases made : makeMessage host r.keepAlive r.clientMsg.senderId st with
  | none => simp [reply,compose,made,shown,withFresh]
  | some buffer => simp [reply,compose,made,shown,behind,withFresh]

theorem shown_withFresh (started : s.firstStart = false) (terminated : 0 ∈ bytes.take buffLen) (fresh : List Bytes) :
    shown (receiveThreadFunction validClients host (withFresh s fresh) (.datagram bytes)) =
      (shown (receiveThreadFunction validClients host (withFresh s []) (.datagram bytes))).map (behind fresh) := by
  have head := receive_terminated s terminated
  have first := (receive_lists head).2.2.1.trans started
  have called : ∀ r regularMsg, replyState validClients (withFresh r fresh) regularMsg =
    replyState validClients (withFresh r []) regularMsg := fun _ _ => rfl
  rw [receiveThreadFunction_answer (receive_withFresh head fresh),
    receiveThreadFunction_answer (receive_withFresh head []),record_withFresh first,called]
  split
  · exact shown_reply_withFresh fresh
  · rfl

theorem shown_eq_some {o : Outcome (State × Option ControllerMsgState)} :
    shown o = some (sent, connected, fresh) ↔ ∃ s answer, o = .next (s, answer) ∧
      (answer.bind fun _ => sendThreadFunction s.buffer) = sent ∧ s.connectedClients = connected ∧
      s.newConnectedClients = fresh := by
  cases o with
  | next result =>
    obtain ⟨s,answer⟩ := result
    simp [shown]
  | exit => simp [shown]
  | undefined => simp [shown]

/-- The datagram ends its own string, and what it calls for at the start of the period
fits the reply buffer. -/
def Fits (validClients : ControllerClass) (host : Bytes) (s : State) (bytes : Bytes) : Prop :=
  0 ∈ bytes.take buffLen ∧ ∀ st, replyState validClients (spelled s bytes) (spelledRegular s bytes) = some st →
    (replyText (upToNul host) s.keepAlive (spelled s bytes).clientMsg.senderId st).length ≤ 255

def Log.outcome (l : Log) : Set Bytes × Set Bytes :=
  ({c | c ∈ l.state.newConnectedClients}, {reply | reply ∈ l.sent})

/-- What an input of the period adds to them. -/
def worth (validClients : ControllerClass) (s : State) : Input → Set Bytes × Set Bytes
  | .datagram host bytes =>
    match shown (receiveThreadFunction validClients host (withFresh s []) (.datagram bytes)) with
    | some (sent, _, added) => ({c | c ∈ added}, {reply | sent = some reply})
    | none => ⊥
  | .tick => ⊥

/-- Within the period, nothing moves but the new list and the leftovers. -/
def Within (s t : State) : Prop := SameControl t (withFresh s t.newConnectedClients)

theorem period_step (started : s.firstStart = false) (interval : KeepAliveFits s.keepAlive)
    (fits : Fits validClients host s bytes) (l : Log) (within : Within s l.state) :
    ∃ next, (logging validClients).step l (.datagram host bytes) = some next ∧ Within s next.state ∧
      next.outcome = l.outcome ⊔ worth validClients s (.datagram host bytes) := by
  obtain ⟨terminated,room⟩ := fits
  have composable : Composable validClients host (withFresh s []) bytes :=
    fun st called => ⟨room st called,fun _ => interval⟩
  obtain ⟨⟨sent,connected,added⟩,first⟩ := (shown_isSome_iff terminated).mpr composable
  have now : shown (receiveThreadFunction validClients host l.state (.datagram bytes)) =
      some (sent, connected, l.state.newConnectedClients ++ added) := by
    rw [shown_terminated within terminated,shown_withFresh started terminated,first]
    rfl
  obtain ⟨s',answer,handled,replied,_,fresh⟩ := shown_eq_some.mp now
  obtain ⟨keepAlive,firstStart,connected⟩ := datagram_keeps handled
  obtain ⟨sameConnected,_,sameFirst,sameNumber⟩ := within
  refine ⟨⟨s',l.sent ++ sent.toList⟩,?_,?_,?_⟩
  · simp only [logging,handled,Outcome.next?,Option.map_some,replied]
  · have kept := connected (sameFirst.trans started)
    exact ⟨kept.trans sameConnected,rfl,firstStart.trans sameFirst,keepAlive.trans sameNumber⟩
  · rw [Log.outcome,fresh,worth,first]
    apply Prod.ext
    · ext c
      simp [Log.outcome]
    · ext reply
      simp [Log.outcome]

/-- Behind the first tick, lists of datagrams with the same members bring the same ids
and the same replies, in whatever order and however often. -/
theorem period_order_irrelevant (host : Bytes) {first second : List Bytes}
    (reached : (machine validClients).run initial inputs = some s) (started : s.firstStart = false)
    (same : ∀ bytes, bytes ∈ first ↔ bytes ∈ second) (fits : ∀ bytes ∈ first, Fits validClients host s bytes) :
    ∃ u v, (logging validClients).run ⟨s, []⟩ (first.map (.datagram host) ++ [.tick]) = some u ∧
      (logging validClients).run ⟨s, []⟩ (second.map (.datagram host) ++ [.tick]) = some v ∧
      (∀ c, c ∈ u.state.connectedClients ↔ c ∈ v.state.connectedClients) ∧
      ∀ reply, reply ∈ u.sent ↔ reply ∈ v.sent := by
  have interval : KeepAliveFits s.keepAlive := run_keepAlive reached ▸ initial_keepAlive
  have steps : ∀ input ∈ first.map (Input.datagram host), ∀ l, Within s l.state →
      ∃ next, (logging validClients).step l input = some next ∧ Within s next.state ∧
        next.outcome = l.outcome ⊔ worth validClients s input := by
    intro input member l within
    obtain ⟨bytes,listed,rfl⟩ := List.mem_map.mp member
    exact period_step started interval (fits bytes listed) l within
  have members : ∀ input, input ∈ first.map (Input.datagram host) ↔ input ∈ second.map (Input.datagram host) := by
    intro input
    simp only [List.mem_map,same]
  have here : Within s (Log.mk s []).state := ⟨rfl,rfl,rfl,rfl⟩
  obtain ⟨u,v,one,other,withinU,withinV,outcome⟩ :=
    Machine.run_same_members (fun l => Within s l.state) Log.outcome (worth validClients s) steps here members
  obtain ⟨ids,replies⟩ := Prod.mk.inj outcome
  have ticked : ∀ l : Log, Within s l.state →
      (clientListThreadFunction l.state).connectedClients = l.state.newConnectedClients := by
    rintro l ⟨_,_,first,_⟩
    have running : ¬ l.state.firstStart = true := Bool.eq_false_iff.mp (first.trans started)
    rw [(tick_lists l.state).1,if_neg running]
  refine ⟨_,_,Machine.run_snoc.mpr ⟨u,one,rfl⟩,Machine.run_snoc.mpr ⟨v,other,rfl⟩,?_,?_⟩
  · intro c
    rw [ticked u withinU,ticked v withinV]
    exact Set.ext_iff.mp ids c
  · exact fun reply => Set.ext_iff.mp replies reply

theorem door_period : ∃ s u v, (machine doorSensors).run initial [.datagram doorHost doorRequest, .tick] = some s ∧
    (logging doorSensors).run ⟨s, []⟩ ([doorRequest, doorAlive].map (.datagram doorHost) ++ [.tick]) = some u ∧
    (logging doorSensors).run ⟨s, []⟩
        ([doorAlive, doorRequest, doorAlive].map (.datagram doorHost) ++ [.tick]) = some v ∧
    (∀ c, c ∈ u.state.connectedClients ↔ c ∈ v.state.connectedClients) ∧ ∀ reply, reply ∈ u.sent ↔ reply ∈ v.sent := by
  obtain ⟨s,reached,started,fits⟩ : ∃ s,
    (machine doorSensors).run initial [.datagram doorHost doorRequest, .tick] = some s ∧ s.firstStart = false ∧
      ∀ bytes ∈ [doorRequest, doorAlive], Fits doorSensors doorHost s bytes := by
    refine ⟨_,rfl,rfl,?_⟩
    simp only [List.forall_mem_cons,List.not_mem_nil,false_implies,implies_true,and_true]
    constructor
    · refine ⟨by decide,?_⟩
      intro st called
      cases called
      decide
    · refine ⟨by decide,?_⟩
      intro st called
      cases called
  have same : ∀ bytes, bytes ∈ [doorRequest, doorAlive] ↔ bytes ∈ [doorAlive, doorRequest, doorAlive] := by
    intro bytes
    simp only [List.mem_cons,List.not_mem_nil,or_false]
    tauto
  obtain ⟨u,v,results⟩ := period_order_irrelevant doorHost reached started same fits
  exact ⟨s,u,v,reached,results⟩

end SmartHospital.Controller
