import SmartHospital.History

/-! Whether the lists and the datagram settle what a reception brings. An empty datagram
repeats what an earlier one has left in the buffer. -/
namespace SmartHospital.Controller

/-- The handling shows the same behind every history that leads to these lists and this
interval; and behind all of them a failed call ends the loop. -/
def Settled (validClients : ControllerClass) (host : Bytes) (s : State) : Received → Prop
  | .datagram bytes => ∃ result, ∀ t, (machine validClients).Reaches Dotted initial t → SameControl t s →
      shown (receiveThreadFunction validClients host t (.datagram bytes)) = some result
  | .failed => ∀ t, (machine validClients).Reaches Dotted initial t → SameControl t s →
      receiveThreadFunction validClients host t .failed = .exit

variable {validClients : ControllerClass} {host bytes : Bytes} {s t : State}

theorem settled_of_terminated (reached : (machine validClients).Reaches Dotted initial s)
    (terminated : 0 ∈ bytes.take buffLen) :
    Settled validClients host s (.datagram bytes) ↔ Composable validClients host s bytes := by
  rw [← shown_isSome_iff terminated]
  constructor
  · rintro ⟨result,same⟩
    exact ⟨result,same s reached ⟨rfl,rfl,rfl,rfl⟩⟩
  · rintro ⟨result,handled⟩
    refine ⟨result,?_⟩
    intro t _ control
    rw [shown_terminated control terminated]
    exact handled

theorem shown_ignored (head : receive s (.datagram bytes) = .next (r, regularMsg))
    (stranger : r.clientMsg.receiverId ≠ controllerName) :
    shown (receiveThreadFunction validClients host s (.datagram bytes)) =
      some (none, s.connectedClients, s.newConnectedClients) := by
  have handled : receiveThreadFunction validClients host s (.datagram bytes) = .next (r, none) :=
    receiveThreadFunction_next.mpr ⟨r,regularMsg,head,.ignored stranger⟩
  obtain ⟨connected,fresh,_,_⟩ := receive_lists head
  rw [handled,shown,connected,fresh]
  rfl

/-- A request for the controller shows: in a reply, or in the new list. -/
theorem shown_addressed (validClients : ControllerClass) (host : Bytes)
    (head : receive s (.datagram bytes) = .next (r, regularMsg))
    (mine : r.clientMsg.receiverId = controllerName) :
    shown (receiveThreadFunction validClients host s (.datagram bytes)) ≠
      some (none, s.connectedClients, s.newConnectedClients) := by
  intro quiet
  obtain ⟨_,fresh,_,_⟩ := receive_lists head
  rw [receiveThreadFunction_answer head] at quiet
  cases called : replyState validClients r regularMsg with
  | none =>
    simp [called,record,mine,renew,shown,fresh] at quiet
  | some st =>
    cases composed : compose host (record validClients r regularMsg) st with
    | none => simp [called,reply,composed,shown] at quiet
    | some s' =>
      obtain ⟨sent,copied⟩ := sendThreadFunction_isSome s'.buffer
      simp [called,reply,composed,shown,copied] at quiet

theorem receive_empty (terminated : Terminated s) : ∃ r regularMsg,
    receive s (.datagram []) = .next (r, regularMsg) ∧ r.clientMsg.receiverId = field 0 (upToNul s.buffer.cells) := by
  have same : s.buffer.load [] = s.buffer := CArray.load_same List.nil_prefix
  have text : (s.buffer.load []).cstr? = some (upToNul s.buffer.cells) := by
    rw [same]
    exact if_pos terminated
  have head := receive_eq s []
  rw [text] at head
  have receiver := receive_receiver head
  rw [same] at receiver
  exact ⟨_,_,head,receiver⟩

theorem reaches_more (reached : (machine validClients).Reaches Dotted initial s)
    (step : (machine validClients).step s (.datagram (inetNtoa 0 0 0 0) bytes) = some t) :
    (machine validClients).Reaches Dotted initial t :=
  reached.trans (Machine.Reaches.single step ⟨0,0,0,0,rfl⟩)

theorem settled_of_empty (reached : (machine validClients).Reaches Dotted initial s) :
    Settled validClients host s (.datagram []) ↔ ¬ Repeatable validClients s := by
  rw [repeatable_iff reached]
  constructor
  · rintro ⟨result,same⟩ ⟨t,there,mine,control⟩
    -- a stranger's empty text first, then the text in question
    have noOne : field 0 (upToNul [0]) ≠ controllerName := by decide
    obtain ⟨u,step,alike,buffer⟩ := stranger_step validClients (inetNtoa 0 0 0 0) s noOne (by decide)
    have elsewhere := reaches_more reached step
    have cleared : field 0 (upToNul u.buffer.cells) = [] := by
      rw [buffer,CArray.load_cells]
      rfl
    obtain ⟨v,regular,quiet,receiver⟩ := receive_empty (reaches_terminated elsewhere)
    have stranger : v.clientMsg.receiverId ≠ controllerName := by
      rw [receiver,cleared]
      decide
    have first := same u elsewhere alike
    rw [shown_ignored quiet stranger,alike.1,alike.2.1] at first
    obtain ⟨r,regularMsg,head,addressed⟩ := receive_empty (reaches_terminated there)
    apply shown_addressed validClients host head (addressed.trans mine)
    rw [same t there control,← first,control.1,control.2.1]
  · intro nothing
    refine ⟨(none, s.connectedClients, s.newConnectedClients),?_⟩
    intro t there control
    obtain ⟨r,regularMsg,head,receiver⟩ := receive_empty (reaches_terminated there)
    have stranger : r.clientMsg.receiverId ≠ controllerName := fun mine =>
      nothing ⟨t,there,receiver.symm.trans mine,control⟩
    rw [shown_ignored head stranger,control.1,control.2.1]

theorem receive_failed : receive s .failed ≠ .exit := by
  have nonneg : ¬ (((UInt8.ofInt (recvfrom s.buffer .failed).2).toNat : Int) < 0) := by omega
  unfold receive
  dsimp only
  rw [if_neg nonneg]
  split <;> nofun

/-- Replies have no way out of the loop, so only its head could end it. -/
theorem receiveThreadFunction_failed : receiveThreadFunction validClients host s .failed ≠ .exit := by
  intro ends
  cases head : receive s .failed with
  | exit => exact receive_failed head
  | undefined => simp [receiveThreadFunction,head] at ends
  | next result =>
    obtain ⟨r,regularMsg⟩ := result
    rw [receiveThreadFunction_answer head] at ends
    split at ends
    · unfold reply at ends
      split at ends <;> contradiction
    · contradiction

theorem settled_of_unterminated (host : Bytes) (reached : (machine validClients).Reaches Dotted initial s)
    (nonempty : bytes ≠ []) (free : 0 ∉ bytes.take buffLen) : ¬ Settled validClients host s (.datagram bytes) := by
  rintro ⟨result,same⟩
  obtain ⟨t,step,control,full⟩ := hollow_step validClients (inetNtoa 0 0 0 0) s
  have shows := same t (reaches_more reached step) control
  simp only [receiveThreadFunction,receive_stuck nonempty free full,shown,reduceCtorEq] at shows

/-- What a reception brings is settled by the lists and the datagram alone exactly if
the datagram ends its own string and calls for no reply that is too long; or if it is
empty and no Alive can have been the last to write the buffer. -/
theorem reception_settled_iff (host : Bytes) (received : Received)
    (reached : (machine validClients).Reaches Dotted initial s) :
    Settled validClients host s received ↔ ∃ bytes, received = .datagram bytes ∧
      (0 ∈ bytes.take buffLen ∧ Composable validClients host s bytes ∨
        bytes = [] ∧ ¬ Repeatable validClients s) := by
  cases received with
  | failed =>
    constructor
    · intro ends
      exact absurd (ends s reached ⟨rfl,rfl,rfl,rfl⟩) receiveThreadFunction_failed
    · rintro ⟨_,other,_⟩
      contradiction
  | datagram bytes =>
    simp only [Received.datagram.injEq,exists_eq_left']
    by_cases terminated : 0 ∈ bytes.take buffLen
    · have nonempty : bytes ≠ [] := by
        rintro rfl
        contradiction
      simp only [settled_of_terminated reached terminated,terminated,nonempty,true_and,false_and,or_false]
    · by_cases empty : bytes = []
      · subst empty
        simp only [settled_of_empty reached,terminated,true_and,false_and,false_or]
      · have unsettled := settled_of_unterminated host reached empty terminated
        simp only [unsettled,terminated,empty,false_and,or_false]

theorem announcement_settled : Settled doorSensors doorHost initial (.datagram doorRequest) := by
  have composable : Composable doorSensors doorHost initial doorRequest := by
    intro st called
    cases called
    exact ⟨by decide,fun _ => initial_keepAlive⟩
  have inside : 0 ∈ doorRequest.take buffLen := by decide
  have here : (machine doorSensors).Reaches Dotted initial initial := .refl initial
  exact (reception_settled_iff doorHost _ here).mpr ⟨doorRequest,rfl,.inl ⟨inside,composable⟩⟩

/-- The announcement of a client, without its NUL. -/
def openRequest : Bytes := Bytes.ofString "Controller_1:Client_1:sensor:door"

/-- Behind a longer datagram for no one, it ends with what is left of that. -/
theorem leftover_refused :
    ∃ t s' t', (machine doorSensors).run initial [.datagram doorHost (List.replicate 40 120 ++ [0])] = some t ∧
      SameControl t initial ∧
      receiveThreadFunction doorSensors doorHost initial (.datagram openRequest) = .next (s', some .ok) ∧
      receiveThreadFunction doorSensors doorHost t (.datagram openRequest) = .next (t', some .nok) ∧
      s'.connectedClients = [doorId] ∧ t'.connectedClients = [] :=
  ⟨_,_,_,rfl,⟨rfl,rfl,rfl,rfl⟩,rfl,rfl,rfl,rfl⟩

end SmartHospital.Controller
