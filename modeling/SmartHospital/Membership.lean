import SmartHospital.Controller
import SmartHospital.Request
import SmartHospital.Support.Rotation

/-! The two client lists as a rotating roster. Every step of the controller is one
operation on it, so the laws of the roster are laws of the lists. -/
namespace SmartHospital.Controller

variable {validClients : ControllerClass} {c : Bytes}

/-- The datagram decodes to an announcement of `c` that the configuration admits. -/
def Announces (validClients : ControllerClass) (c : Bytes) (s : State) (bytes : Bytes) : Prop :=
  ∃ r, receive s (.datagram bytes) = .next (r, true) ∧ r.clientMsg.receiverId = controllerName ∧
    validClients.isInList r.clientMsg.type r.clientMsg.purpose = true ∧ r.clientMsg.senderId = c

/-- The datagram decodes to an Alive of `c`. -/
def AliveFrom (c : Bytes) (s : State) (bytes : Bytes) : Prop :=
  ∃ r, receive s (.datagram bytes) = .next (r, false) ∧ r.clientMsg.receiverId = controllerName ∧
    r.clientMsg.senderId = c

/-- An Alive of `c` received while `c` is in the connected list. -/
def AliveConnected (c : Bytes) (s : State) (input : Input) : Prop :=
  ∃ host bytes, input = .datagram host bytes ∧ AliveFrom c s bytes ∧ c ∈ s.connectedClients

/-- What keeps `c` a member: a valid announcement, or an Alive while connected. -/
def Heard (validClients : ControllerClass) (c : Bytes) (s : State) (input : Input) : Prop :=
  (∃ host bytes, input = .datagram host bytes ∧ Announces validClients c s bytes) ∨ AliveConnected c s input

open Rotation

def roster (s : State) : Roster Bytes :=
  ⟨{c | c ∈ s.connectedClients}, {c | c ∈ s.newConnectedClients}, s.firstStart = true⟩

/-- The operation a decoded request amounts to. -/
def request (validClients : ControllerClass) (r : State) (regularMsg : Bool) : Op Bytes :=
  if r.clientMsg.receiverId = controllerName then
    if regularMsg = true then
      if validClients.isInList r.clientMsg.type r.clientMsg.purpose = true then .enrol r.clientMsg.senderId
      else .idle
    else .renew r.clientMsg.senderId
  else .idle

def operation (validClients : ControllerClass) (s : State) : Input → Op Bytes
  | .tick => .rotate
  | .datagram _ bytes =>
    match receive s (.datagram bytes) with
    | .next (r, regularMsg) => request validClients r regularMsg
    | _ => .idle

theorem request_enrol : request validClients r regularMsg = .enrol c ↔
    regularMsg = true ∧ r.clientMsg.receiverId = controllerName ∧
      validClients.isInList r.clientMsg.type r.clientMsg.purpose = true ∧ r.clientMsg.senderId = c := by
  unfold request
  repeat' split
  all_goals simp [*]

theorem request_renew : request validClients r regularMsg = .renew c ↔
    regularMsg = false ∧ r.clientMsg.receiverId = controllerName ∧ r.clientMsg.senderId = c := by
  unfold request
  repeat' split
  all_goals simp_all

theorem request_ne_rotate : request validClients r regularMsg ≠ .rotate := by
  unfold request
  repeat' split
  all_goals simp

/-- A datagram amounts to something exactly when its head decodes to that request. -/
theorem operation_datagram {op : Op Bytes} (busy : op ≠ .idle) :
    operation validClients s (.datagram host bytes) = op ↔
      ∃ r regularMsg, receive s (.datagram bytes) = .next (r, regularMsg) ∧ request validClients r regularMsg = op := by
  simp only [operation]
  split
  · rename_i r regularMsg head
    constructor
    · intro same
      exact ⟨r,regularMsg,head,same⟩
    · rintro ⟨r',regular',other,same⟩
      cases head.symm.trans other
      exact same
  · rename_i stuck
    constructor
    · intro idle
      exact absurd idle.symm busy
    · rintro ⟨r,regularMsg,head,_⟩
      exact absurd head (stuck r regularMsg)

theorem operation_rotate : operation validClients s input = .rotate ↔ input = .tick := by
  cases input with
  | tick => simp [operation]
  | datagram host bytes =>
    rw [operation_datagram (by simp)]
    simp [request_ne_rotate]

theorem operation_enrol : operation validClients s (.datagram host bytes) = .enrol c ↔
    Announces validClients c s bytes := by
  rw [operation_datagram (by simp)]
  simp [request_enrol,Announces]

theorem operation_renew : operation validClients s (.datagram host bytes) = .renew c ↔ AliveFrom c s bytes := by
  rw [operation_datagram (by simp)]
  simp [request_renew,AliveFrom]

theorem renews_iff : Renews c (roster s) (operation validClients s input) ↔ AliveConnected c s input := by
  cases input with
  | tick => simp [Renews,operation,AliveConnected]
  | datagram host bytes => simp [Renews,operation_renew,AliveConnected,roster]

theorem marks_iff : Marks c (roster s) (operation validClients s input) ↔ Heard validClients c s input := by
  rw [Marks,renews_iff,Heard]
  apply or_congr_left
  cases input with
  | tick => simp [operation]
  | datagram host bytes => simp [operation_enrol]

theorem roster_compose (composed : compose host s st = some s') : roster s' = roster s := by
  obtain ⟨_,_,rfl⟩ := compose_eq_some.mp composed
  rfl

theorem roster_enlist (s : State) : roster (enlist s) = (roster s).enrol s.clientMsg.senderId := by
  unfold enlist
  split
  · rename_i first
    simp [roster,Roster.enrol,first]
  · rename_i later
    simp [roster,Roster.enrol,later]

theorem roster_renew (connected : s.clientMsg.senderId ∈ s.connectedClients) :
    roster (renew s) = (roster s).renew s.clientMsg.senderId := by
  simp [roster,renew,Roster.renew,connected]

theorem roster_unknown (unknown : c ∉ s.connectedClients) : (roster s).renew c = roster s := by
  simp [roster,Roster.renew,unknown]

theorem roster_tick (s : State) : roster (clientListThreadFunction s) = (roster s).rotate := by
  cases first : s.firstStart with
  | true =>
    obtain ⟨keepAlive,after⟩ := tick_first first
    simp [after,roster,Roster.rotate,first]
  | false =>
    obtain ⟨keepAlive,after⟩ := tick_later first
    simp [after,roster,Roster.rotate,first]

/-- Handling a request applies its operation to the roster. -/
theorem handled_roster (handled : Handled validClients host r regularMsg s' answer) :
    roster s' = (roster r).apply (request validClients r regularMsg) := by
  cases handled with
  | ignored other => simp [request,other,Roster.apply]
  | admitted mine valid composed =>
    simp [request,mine,valid,Roster.apply,roster_compose composed,roster_enlist]
  | refused mine invalid composed => simp [request,mine,invalid,Roster.apply,roster_compose composed]
  | renewed mine connected => simp [request,mine,Roster.apply,roster_renew connected]
  | released mine unknown composed =>
    simp [request,mine,Roster.apply,roster_compose composed,roster_unknown unknown]

theorem receive_roster (received : receive s (.datagram bytes) = .next (r, regularMsg)) :
    roster r = roster s := by
  obtain ⟨connected,fresh,first,_⟩ := receive_lists received
  rw [roster,connected,fresh,first]
  rfl

/-- The controller's lists are a rotating roster. -/
def rotating (validClients : ControllerClass) : (machine validClients).Simulation (Rotation.machine Bytes) where
  abs := roster
  label := operation validClients
  sound s input next step := by
    cases input with
    | tick =>
      obtain rfl := Option.some.inj step
      exact congrArg some (roster_tick s).symm
    | datagram host bytes =>
      obtain ⟨answer,handled⟩ := machine_datagram.mp step
      obtain ⟨r,regularMsg,head,handled⟩ := receiveThreadFunction_next.mp handled
      simp [Rotation.machine,operation,head,handled_roster handled,receive_roster head]

@[simp] theorem rotating_abs (s : State) : (rotating validClients).abs s = roster s := rfl

@[simp] theorem rotating_label (s : State) (input : Input) :
    (rotating validClients).label s input = operation validClients s input := rfl

theorem roster_initial : roster initial = .empty := by
  simp [roster,initial,Roster.empty]

section Runs

variable {inputs : List Input} {s final : State}

theorem calm_iff (whole : (machine validClients).run s inputs = some final) :
    Calm ((rotating validClients).trace s inputs) ↔ .tick ∉ inputs := by
  apply not_congr
  rw [(rotating validClients).mem_trace_iff whole (· = .tick) fun _ _ => operation_rotate]
  simp

theorem heard_iff (whole : (machine validClients).run s inputs = some final) :
    (Rotation.machine Bytes).Occurs (Marks c) (roster s) ((rotating validClients).trace s inputs) ↔
      (machine validClients).Occurs (Heard validClients c) s inputs := by
  have transfer := (rotating validClients).occurs_iff whole (Marks c)
  simpa only [rotating_abs,rotating_label,marks_iff] using transfer

theorem alive_iff (whole : (machine validClients).run s inputs = some final) :
    (Rotation.machine Bytes).Occurs (Renews c) (roster s) ((rotating validClients).trace s inputs) ↔
      (machine validClients).Occurs (AliveConnected c) s inputs := by
  have transfer := (rotating validClients).occurs_iff whole (Renews c)
  simpa only [rotating_abs,rotating_label,renews_iff] using transfer

theorem firstStart_iff (whole : (machine validClients).run initial inputs = some final) :
    final.firstStart = true ↔ .tick ∉ inputs := by
  have abstracted := (rotating validClients).run whole
  rw [← calm_iff whole]
  constructor
  · intro first rotated
    exact started_of_rotation rotated abstracted first
  · intro calm
    exact (calm_starting calm abstracted).mpr rfl

/-- Right after a tick other than the first, the members are those heard from since
the tick before, and those whose Alive came before a first tick that began the period. -/
theorem period_membership (reached : (machine validClients).run initial (before ++ [.tick]) = some s)
    (quiet : .tick ∉ inputs) (whole : (machine validClients).run s inputs = some final) :
    c ∈ (clientListThreadFunction final).connectedClients ↔
      (machine validClients).Occurs (Heard validClients c) s inputs ∨
        .tick ∉ before ∧ (machine validClients).Occurs (AliveConnected c) initial before := by
  obtain ⟨last,first,_⟩ := Machine.run_append_eq_some.mp reached
  have abstracted := (rotating validClients).run reached
  have ends : (rotating validClients).trace last [.tick] = [.rotate] := rfl
  rw [(rotating validClients).trace_append first,ends,rotating_abs,roster_initial] at abstracted
  have law := period_law (a := c) abstracted ((calm_iff whole).mpr quiet) ((rotating validClients).run whole)
  rw [rotating_abs,rotating_abs,heard_iff whole,calm_iff first,← roster_initial,alive_iff first,← roster_tick] at law
  exact law

/-- So the lists follow the rule "heard from in the period" unless the period begins
with the first tick and an Alive that came before it is all there was of the client. -/
theorem membership_law_iff (c : Bytes) (reached : (machine validClients).run initial (before ++ [.tick]) = some s)
    (quiet : .tick ∉ inputs) (whole : (machine validClients).run s inputs = some final) :
    (c ∈ (clientListThreadFunction final).connectedClients ↔
        (machine validClients).Occurs (Heard validClients c) s inputs) ↔
      .tick ∈ before ∨ ¬ (machine validClients).Occurs (AliveConnected c) initial before ∨
        (machine validClients).Occurs (Heard validClients c) s inputs := by
  rw [period_membership reached quiet whole]
  tauto

/-- A configuration with one kind of client, and the requests of one such client. -/
def doorSensors : ControllerClass := .load [(Bytes.ofString "sensor", Bytes.ofString "door")]

def doorId : Bytes := Bytes.ofString "Client_1"

def doorHost : Bytes := inetNtoa 192 168 1 1

def doorRequest : Bytes :=
  Client.transmitted (Client.announcement doorId (Bytes.ofString "sensor") (Bytes.ofString "door"))

def doorAlive : Bytes := Client.transmitted (Client.aliveMessage doorId)

theorem announced_client_is_member : ∃ s s',
    (machine doorSensors).run initial [.tick, .tick] = some s ∧
      (machine doorSensors).run s [.datagram doorHost doorRequest] = some s' ∧
      (doorId ∈ (clientListThreadFunction s').connectedClients ↔
        (machine doorSensors).Occurs (Heard doorSensors doorId) s [.datagram doorHost doorRequest]) := by
  refine ⟨_,_,rfl,rfl,?_⟩
  have reached : (machine doorSensors).run initial ([.tick] ++ [.tick]) = some _ := rfl
  have quiet : .tick ∉ [Input.datagram doorHost doorRequest] := by decide
  exact (membership_law_iff doorId reached quiet rfl).mpr (.inl (by decide))

/-- An Alive before the first tick outlives a second tick in front of which nothing
was received. -/
theorem silent_client_stays : ∃ s,
    (machine doorSensors).run initial [.datagram doorHost doorRequest, .datagram doorHost doorAlive, .tick] = some s ∧
      doorId ∈ (clientListThreadFunction s).connectedClients ∧
      ¬ (machine doorSensors).Occurs (Heard doorSensors doorId) s [] :=
  ⟨_,rfl,by decide,Machine.not_occurs_nil _⟩

/-- The Alive is taken up: no reply, and `c` is appended to the new list. -/
def Accepted (validClients : ControllerClass) (host c : Bytes) (s : State) (bytes : Bytes) : Prop :=
  ∃ s', receiveThreadFunction validClients host s (.datagram bytes) = .next (s', none) ∧
    s'.newConnectedClients = s.newConnectedClients ++ [c]

theorem accepted_iff (alive : AliveFrom c s bytes) :
    Accepted validClients host c s bytes ↔ c ∈ s.connectedClients := by
  obtain ⟨r,head,mine,sender⟩ := alive
  obtain ⟨connected,fresh,_,_⟩ := receive_lists head
  constructor
  · rintro ⟨s',handled,_⟩
    obtain ⟨r',regularMsg,other,handled⟩ := receiveThreadFunction_next.mp handled
    cases head.symm.trans other
    cases handled with
    | ignored stranger => exact absurd mine stranger
    | renewed _ member => exact connected ▸ sender ▸ member
  · intro member
    refine ⟨renew r,receiveThreadFunction_next.mpr ⟨r,false,head,.renewed mine ?_⟩,?_⟩
    · rw [sender,connected]
      exact member
    · simp [renew,sender,fresh]

theorem granted_roster
    (granted : receiveThreadFunction validClients host s (.datagram bytes) = .next (s', some .ok)) :
    roster s' = (roster s).enrol s'.clientMsg.senderId := by
  obtain ⟨r,regularMsg,head,handled⟩ := receiveThreadFunction_next.mp granted
  cases handled with
  | admitted mine valid composed =>
    rw [roster_compose composed,roster_enlist,receive_roster head]
    obtain ⟨_,_,rfl⟩ := compose_eq_some.mp composed
    unfold enlist
    split <;> rfl

theorem one_tick (ticks : inputs.count .tick ≤ 1) (ticked : Input.tick ∈ inputs) :
    ∃ early late, inputs = early ++ .tick :: late ∧ .tick ∉ early ∧ .tick ∉ late := by
  obtain ⟨early,late,rfl,free⟩ := List.eq_append_cons_of_mem ticked
  refine ⟨early,late,rfl,free,?_⟩
  apply List.count_eq_zero.mp
  rw [List.count_append,List.count_cons_self] at ticks
  omega

/-- An Alive that comes before the second tick after the client's OK is accepted if the
OK was given before the first tick, to a client already connected, or if a tick has
come between; otherwise it is not. -/
theorem alive_after_ok_iff (reached : (machine validClients).run initial before = some s)
    (granted : receiveThreadFunction validClients host s (.datagram announcement) = .next (s1, some .ok))
    (sender : s1.clientMsg.senderId = c)
    (between : (machine validClients).run s1 inputs = some s2) (ticks : inputs.count .tick ≤ 1)
    (alive : AliveFrom c s2 bytes) :
    Accepted validClients later c s2 bytes ↔
      .tick ∉ before ∨ c ∈ s.connectedClients ∨ .tick ∈ inputs := by
  subst sender
  rw [accepted_iff alive,← firstStart_iff reached]
  have abstracted := (rotating validClients).run between
  rw [rotating_abs,rotating_abs,granted_roster granted] at abstracted
  by_cases ticked : Input.tick ∈ inputs
  · obtain ⟨early,late,rfl,front,back⟩ := one_tick ticks ticked
    obtain ⟨middle,first,rest⟩ := Machine.run_append_eq_some.mp between
    obtain ⟨turned,step,last⟩ := Machine.run_cons.mp rest
    rw [(rotating validClients).trace_append first,(rotating validClients).trace_cons step] at abstracted
    have member := current_after_rotation ((calm_iff first).mpr front) ((calm_iff last).mpr back) abstracted
    simp only [ticked,or_true,iff_true]
    exact member
  · have law := current_before_rotation ((calm_iff between).mpr ticked) abstracted
    simp only [ticked,or_false]
    exact law

end Runs

theorem accepted_behind_a_tick : ∃ s s1 s2,
    (machine doorSensors).run initial [.tick] = some s ∧
      receiveThreadFunction doorSensors doorHost s (.datagram doorRequest) = .next (s1, some .ok) ∧
      (machine doorSensors).run s1 [.tick] = some s2 ∧
      Accepted doorSensors doorHost doorId s2 doorAlive := by
  refine ⟨_,_,_,rfl,rfl,rfl,?_⟩
  have reached : (machine doorSensors).run initial [.tick] = some _ := rfl
  have granted : receiveThreadFunction doorSensors doorHost (clientListThreadFunction initial)
    (.datagram doorRequest) = .next (_, some .ok) := rfl
  have ticks : [Input.tick].count .tick ≤ 1 := by decide
  refine (alive_after_ok_iff reached granted rfl rfl ticks ?_).mpr (.inr (.inr (by decide)))
  exact ⟨_,rfl,rfl,rfl⟩

/-- A client that announces itself after the first tick is released by its first
Alive when no tick comes between. -/
theorem released_after_ok : ∃ s s1 s2,
    (machine doorSensors).run initial [.tick] = some s ∧
      receiveThreadFunction doorSensors doorHost s (.datagram doorRequest) = .next (s1, some .ok) ∧
      AliveFrom doorId s1 doorAlive ∧
      receiveThreadFunction doorSensors doorHost s1 (.datagram doorAlive) = .next (s2, some .rlsd) :=
  ⟨_,_,_,rfl,rfl,⟨_,rfl,rfl,rfl⟩,rfl⟩

end SmartHospital.Controller
