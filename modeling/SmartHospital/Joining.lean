import SmartHospital.Decoding
import SmartHospital.Deployment
import SmartHospital.Load

/-! Joining stays possible. However far the group has come, a client that the controller
lists can still be started: the controller can finish what it is at, and one more
announcement is answered. -/
namespace SmartHospital

open Controller

section Client

open Client

variable {s s' : Client.State} {name : Bytes} {received : Received}

/-- A client without a keep-alive thread is announcing itself. -/
def Announcing (s : Client.State) : Prop := s.keepAliveStarted = false → 0 < s.threads.count .send

theorem act_announcing (announcing : Announcing s) : Announcing (act s) := by
  cases kind : s.controllerMsg.state with
  | ok =>
    cases flag : s.keepAliveStarted with
    | true =>
      have same : act s = s := by simp [act,kind,flag]
      rw [same]
      exact announcing
    | false => exact fun off => absurd off (by simp [act,kind,flag])
  | nok =>
    rw [act_nok kind]
    exact announcing
  | rlsd =>
    intro _
    simp [act,kind,Threads.create,Threads.count]

theorem receive_announcing (announcing : Announcing s)
    (handled : receiveThreadFunction name s received = .next s') : Announcing s' := by
  simp only [Client.receiveThreadFunction] at handled
  split at handled
  · contradiction
  · contradiction
  · cases handled
    split
    · exact act_announcing announcing
    · exact announcing

/-- An OK starts the client if nothing has started it before. -/
theorem ok_starts {host : Bytes} {keepAlive : Int} (s : Client.State) (nameFree : 0 ∉ name) (nameSingle : colon ∉ name)
    (hostFree : 0 ∉ host) (fits : (replyText host keepAlive name .ok).length ≤ 254) : ∃ s',
    receiveThreadFunction name s (.datagram (replyText host keepAlive name .ok ++ [0])) = .next s' ∧
      s'.keepAliveStarted = true := by
  have text : Short (replyText host keepAlive name .ok) := Nat.lt_of_le_of_lt fits (by decide)
  obtain ⟨buffer,body⟩ := receive_short name s (length_terminated fits)
  rw [upToNul_append_nul,upToNul_of_free (replyText_nul_free nameFree hostFree)] at body
  have state := ControllerMessage.parse_state s.controllerMsg .ok text (reply_word nameSingle)
  have receiver := (ControllerMessage.parse_ids s.controllerMsg text).1
  rw [reply_receiver nameSingle] at receiver
  refine ⟨_,body,?_⟩
  rw [if_pos receiver]
  cases flag : s.keepAliveStarted <;> simp [act,state]

end Client

variable {ι : Type*} {members : ι → Member} {entries : List (Bytes × Bytes)} {g g' : Group ι} {event : Event ι}

structure Ready (g : Group ι) : Prop where
  interval : KeepAliveFits g.controller.state.keepAlive
  announcing : ∀ i, Announcing (g.clients i)

theorem moved_interval {validClients : ControllerClass} {t t' : Split} {label : Label}
    (moved : Moved validClients t label t') (interval : KeepAliveFits t.state.keepAlive) :
    KeepAliveFits t'.state.keepAlive := by
  cases moved with
  | received _ head =>
    rw [(receive_lists head).2.2.2]
    exact interval
  | enlisted =>
    rw [(enlist_keeps t.state).2.1]
    exact interval
  | checked => exact interval
  | missed => exact interval
  | renewed => exact interval
  | answered _ composed =>
    obtain ⟨_,_,rfl⟩ := compose_eq_some.mp composed
    exact interval
  | ticked =>
    rw [tick_keepAlive]
    exact initial_keepAlive

variable [DecidableEq ι]

theorem ready_step {validClients : ControllerClass} (ready : Ready g) (stepped : Stepped validClients members g event g') :
    Ready g' := by
  obtain ⟨interval,announcing⟩ := ready
  cases stepped with
  | took moved => exact ⟨moved_interval moved interval,announcing⟩
  | replied moved => exact ⟨moved_interval moved interval,announcing⟩
  | proceeded moved => exact ⟨moved_interval moved interval,announcing⟩
  | ticked moved => exact ⟨moved_interval moved interval,announcing⟩
  | announced => exact ⟨interval,announcing⟩
  | alive => exact ⟨interval,announcing⟩
  | delivered i flying handled =>
    refine ⟨interval,fun j => ?_⟩
    by_cases same : j = i
    · subst same
      simp only [Function.update_self]
      exact receive_announcing (announcing j) handled
    · simp only [Function.update_of_ne same]
      exact announcing j
  | lost => exact ⟨interval,announcing⟩

section Reached

variable {validClients : ControllerClass}

theorem run_ready {buffers : ι → CArray buffLen} {messages : ι → ControllerMessage}
    (reached : (group validClients members).run (.start buffers messages) events = some g) : Ready g := by
  refine Machine.run_invariant Ready (fun _ _ _ ready step => ready_step ready (group_step step)) reached ⟨?_,?_⟩
  · exact initial_keepAlive
  · intro i _
    simp [Group.start,Client.start,Client.Threads.create,Client.Threads.count]

/-- The controller goes on with this address. -/
def Event.From (a b c d : UInt8) : Event ι → Prop
  | .proceed x y z w => x = a ∧ y = b ∧ z = c ∧ w = d
  | _ => True

structure Serving (t : Split) : Prop where
  interval : KeepAliveFits t.state.keepAlive
  clean : SenderClean t
  short : t.state.clientMsg.senderId.length ≤ 218

theorem Serving.enlist {t : Split} (serving : Serving t) (phase : Phase) (replied : Option ControllerMsgState) :
    Serving ⟨Controller.enlist t.state, phase, replied⟩ := by
  obtain ⟨same,number,_⟩ := enlist_keeps t.state
  obtain ⟨interval,clean,short⟩ := serving
  rw [SenderClean,← same] at clean
  exact ⟨number.symm ▸ interval,clean,same.symm ▸ short⟩

section Address

variable (validClients : ControllerClass) (members : ι → Member) (a b c d : UInt8)

/-- The controller answers what it is at, whichever address it has. -/
theorem answer_proceeds (serving : Serving g.controller) (phase : g.controller.phase = .answer st) : ∃ s,
    (replyText (inetNtoa a b c d) g.controller.state.keepAlive g.controller.state.clientMsg.senderId st).length ≤ 254 ∧
    (group validClients members).step g (.proceed a b c d) =
      some { g with
        controller := ⟨s, .idle, some st⟩
        network := g.network ++ [replyText (inetNtoa a b c d) g.controller.state.keepAlive
          g.controller.state.clientMsg.senderId st ++ [0]] } := by
  obtain ⟨interval,clean,short⟩ := serving
  have hostFree := inetNtoa_nul_free a b c d
  have body : (replyBody (inetNtoa a b c d) g.controller.state.keepAlive st).length ≤ 22 :=
    replyBody_length (inetNtoa_length a b c d) fun _ => interval
  have fits : (replyText (inetNtoa a b c d) g.controller.state.keepAlive
      g.controller.state.clientMsg.senderId st).length ≤ 254 := by
    rw [replyText_length]
    omega
  obtain ⟨buffer,made,cells⟩ := makeMessage_composes clean.1 hostFree (fun _ => interval) (Nat.le_succ_of_le fits)
  have composed : compose (inetNtoa a b c d) g.controller.state st = some { g.controller.state with buffer := buffer } :=
    compose_eq_some.mpr ⟨buffer,made,rfl⟩
  have sent := sendThreadFunction_framed cells fits
  refine ⟨{ g.controller.state with buffer := buffer },fits,?_⟩
  simp only [group,sections,proceed,phase,composed,Option.map_some,Option.bind_some,if_pos fits,sent]

theorem proceed_silent {t : Split} (moved : proceed (inetNtoa a b c d) g.controller = some t)
    (silent : ∀ st, g.controller.phase ≠ .answer st) :
    (group validClients members).step g (.proceed a b c d) = some { g with controller := t } := by
  simp only [group,sections,moved,Option.bind_some]

/-- The controller can finish what it is at, without a client's doing. -/
def Finishes (g : Group ι) : Prop :=
  ∃ g', (group validClients members).Reaches (Event.From a b c d) g g' ∧ g'.controller.phase = .idle ∧
    g'.clients = g.clients

variable {validClients members a b c d}

theorem finishes_answer (serving : Serving g.controller) (phase : g.controller.phase = .answer st) :
    Finishes validClients members a b c d g := by
  obtain ⟨s,_,step⟩ := answer_proceeds validClients members a b c d serving phase
  exact ⟨_,.single step ⟨rfl,rfl,rfl,rfl⟩,rfl,rfl⟩

theorem finishes_silent {t : Split} (moved : proceed (inetNtoa a b c d) g.controller = some t)
    (silent : ∀ st, g.controller.phase ≠ .answer st)
    (later : Finishes validClients members a b c d { g with controller := t }) :
    Finishes validClients members a b c d g := by
  obtain ⟨g',reaches,done⟩ := later
  have step := proceed_silent validClients members a b c d moved silent
  exact ⟨g',.trans (.single step ⟨rfl,rfl,rfl,rfl⟩) reaches,done⟩

theorem controller_finishes (serving : g.controller.phase ≠ .idle → Serving g.controller) :
    Finishes validClients members a b c d g := by
  cases phase : g.controller.phase with
  | idle => exact ⟨g,.refl g,phase,rfl⟩
  | answer st => exact finishes_answer (serving (by simp [phase])) phase
  | announced =>
    have moved : proceed (inetNtoa a b c d) g.controller =
        some ⟨enlist g.controller.state, .answer .ok, g.controller.replied⟩ := by
      rw [proceed,phase]
    exact finishes_silent moved (by simp [phase]) (finishes_answer ((serving (by simp [phase])).enlist _ _) rfl)
  | found =>
    have moved : proceed (inetNtoa a b c d) g.controller =
        some ⟨renew g.controller.state, .idle, g.controller.replied⟩ := by
      rw [proceed,phase]
    exact finishes_silent moved (by simp [phase]) ⟨_,.refl _,rfl,rfl⟩
  | alive =>
    by_cases connected : isInConnectedClients g.controller.state g.controller.state.clientMsg.senderId = true
    · have moved : proceed (inetNtoa a b c d) g.controller = some { g.controller with phase := .found } := by
        rw [proceed,phase]
        exact if_pos connected
      have renewed : proceed (inetNtoa a b c d) { g.controller with phase := .found } =
        some ⟨renew g.controller.state, .idle, g.controller.replied⟩ := rfl
      exact finishes_silent moved (by simp [phase]) (finishes_silent renewed (by simp) ⟨_,.refl _,rfl,rfl⟩)
    · have moved : proceed (inetNtoa a b c d) g.controller = some { g.controller with phase := .answer .rlsd } := by
        rw [proceed,phase]
        exact if_neg connected
      obtain ⟨interval,clean,short⟩ := serving (by simp [phase])
      exact finishes_silent moved (by simp [phase]) (finishes_answer ⟨interval,clean,short⟩ rfl)

end Address

theorem grant_starts (validClients : ControllerClass) (i : ι) {host : Bytes} {keepAlive : Int} (hostFree : 0 ∉ host)
    (fits : (replyText host keepAlive (members i).name .ok).length ≤ 254)
    (flying : replyText host keepAlive (members i).name .ok ++ [0] ∈ g.network) : ∃ s,
      (group validClients members).step g (.deliver i (replyText host keepAlive (members i).name .ok ++ [0])) =
        some { g with clients := Function.update g.clients i s } ∧ s.keepAliveStarted = true := by
  obtain ⟨s,handled,started⟩ := ok_starts (g.clients i) (members i).nulFree.1 (members i).single.1 hostFree fits
  exact ⟨s,by simp [group,flying,handled,Outcome.next?],started⟩

/-- A controller that waits takes in the announcement of a client that it lists. -/
theorem announcement_taken (allowed : Event ι → Prop) (i : ι) (announce : allowed (.announce i))
    (take : ∀ bytes, allowed (.take bytes)) (idle : g.controller.phase = .idle)
    (sending : 0 < (g.clients i).threads.count .send)
    (listed : validClients.isInList (members i).type (members i).attr = true) : ∃ r network,
      r.keepAlive = g.controller.state.keepAlive ∧ r.clientMsg.senderId = (members i).name ∧
      (group validClients members).Reaches allowed g ⟨⟨r, .announced, none⟩, g.clients, network⟩ := by
  obtain ⟨r,received,parsed⟩ := announcement_received (members i) g.controller.state
  generalize request : Client.transmitted (Client.announcement (members i).name (members i).type (members i).attr) =
    bytes at received
  have announced : (group validClients members).step g (.announce i) =
    some { g with network := g.network ++ [bytes] } := by simp [group,sending,request]
  have dispatched : dispatch validClients r true = .announced := by simp [dispatch,parsed,listed]
  have took : (group validClients members).step { g with network := g.network ++ [bytes] } (.take bytes) =
      some ⟨⟨r, .announced, none⟩, g.clients, g.network ++ [bytes]⟩ := by
    simp [group,sections,idle,received,dispatched]
  exact ⟨r,_,(receive_lists received).2.2.2,by rw [parsed],.trans (.single announced announce) (.single took (take _))⟩

/-- The steps of an admission, from a waiting controller to the client. -/
theorem announcement_starts (a b c d : UInt8) (i : ι) (interval : KeepAliveFits g.controller.state.keepAlive)
    (idle : g.controller.phase = .idle) (sending : 0 < (g.clients i).threads.count .send)
    (listed : validClients.isInList (members i).type (members i).attr = true)
    (short : (members i).name.length ≤ 218) : ∃ g',
      (group validClients members).Reaches (Event.From a b c d) g g' ∧ (g'.clients i).keepAliveStarted = true := by
  obtain ⟨r,network,number,sender,taken⟩ := announcement_taken (Event.From a b c d) i trivial (fun _ => trivial) idle
    sending listed
  have serving : Serving ⟨r, .announced, none⟩ := by
    refine ⟨number.symm ▸ interval,?_,sender.symm ▸ short⟩
    rw [SenderClean,sender]
    exact ⟨(members i).nulFree.1,(members i).single.1⟩
  have enlisted : (group validClients members).step ⟨⟨r, .announced, none⟩, g.clients, network⟩ (.proceed a b c d) =
    some ⟨⟨enlist r, .answer .ok, none⟩, g.clients, network⟩ := proceed_silent validClients members a b c d rfl (by simp)
  have answering : Serving ⟨enlist r, .answer .ok, none⟩ := serving.enlist _ _
  obtain ⟨s,fits,answered⟩ := answer_proceeds validClients members a b c d
    (g := ⟨⟨enlist r, .answer .ok, none⟩, g.clients, network⟩) answering rfl
  have name : (enlist r).clientMsg.senderId = (members i).name := by rw [(enlist_keeps r).1,sender]
  simp only [name] at fits answered
  obtain ⟨s',delivered,started⟩ := grant_starts validClients
    (g := ⟨⟨s, .idle, some .ok⟩, g.clients,
      network ++ [replyText (inetNtoa a b c d) (enlist r).keepAlive (members i).name .ok ++ [0]]⟩)
    i (inetNtoa_nul_free a b c d) fits (List.mem_append_right network (List.mem_singleton.mpr rfl))
  refine ⟨_,((taken.trans (.single enlisted ⟨rfl,rfl,rfl,rfl⟩)).trans (.single answered ⟨rfl,rfl,rfl,rfl⟩)).trans
    (.single delivered trivial),?_⟩
  simp only [Function.update_self,started]

end Reached

/-- However far the group has come, whatever was lost or repeated and whatever address the
controller has: a client that its file lists can still be started. -/
theorem listed_can_start (entries : List (Bytes × Bytes)) (members : ι → Member)
    (short : ∀ i, (members i).name.length ≤ 218) (buffers : ι → CArray buffLen) (messages : ι → ControllerMessage)
    (reached : (group (.load entries) members).run (.start buffers messages) events = some g)
    (i : ι) (listed : ((members i).type, (members i).attr) ∈ entries) (a b c d : UInt8) :
    ∃ more g', (∀ event ∈ more, event.From a b c d) ∧ (group (.load entries) members).run g more = some g' ∧
      (g'.clients i).keepAliveStarted = true := by
  have closed := closed_run reached
  have ready := run_ready reached
  have serving : g.controller.phase ≠ .idle → Serving g.controller := by
    intro busy
    obtain ⟨j,name⟩ := closed.sender busy
    exact ⟨ready.interval,closed.agreed.clean,name ▸ short j⟩
  obtain ⟨waiting,⟨front,fine,before⟩,idle,same⟩ : Finishes (.load entries) members a b c d g :=
    controller_finishes serving
  by_cases off : (g.clients i).keepAliveStarted = false
  · have now := run_ready (Machine.run_append_eq_some.mpr ⟨g,reached,before⟩)
    obtain ⟨g',⟨back,good,after⟩,started⟩ := announcement_starts a b c d i now.interval idle
      (now.announcing i (by rw [same]; exact off)) ((isInList_load _ _ _).mpr listed) (short i)
    exact ⟨front ++ back,g',List.forall_mem_append.mpr ⟨fine,good⟩,Machine.run_append_eq_some.mpr ⟨_,before,after⟩,
      started⟩
  · exact ⟨[],g,by simp,rfl,Bool.eq_true_of_not_eq_false off⟩

/-- The door sensor's first announcement is lost; it can still be started. -/
theorem door_can_start : ∃ g,
    (group doorSensors fun _ => doorMember).run doorStart [.announce (),.lose doorRequest,.tick] = some g ∧
      ∃ more g', (∀ event ∈ more, event.From 192 168 1 1) ∧
        (group doorSensors fun _ => doorMember).run g more = some g' ∧ (g'.clients ()).keepAliveStarted = true := by
  obtain ⟨g,reached⟩ : ∃ g,
    (group doorSensors fun _ => doorMember).run doorStart [.announce (),.lose doorRequest,.tick] = some g := ⟨_,rfl⟩
  have short (_ : Unit) : doorMember.name.length ≤ 218 := by decide
  exact ⟨g,reached,listed_can_start _ (fun _ => doorMember) short _ _ reached () (by decide) 192 168 1 1⟩

end SmartHospital
