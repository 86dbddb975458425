import SmartHospital.Leftover

/-! The controller hears its own replies: it is a member of the group it sends to, and
requests and replies have one format. -/
namespace SmartHospital.Controller

variable {validClients : ControllerClass} {a b c d : UInt8} {bytes echo : Bytes} {s r s' t : State}
  {st : ControllerMsgState}

/-- Delivered to the controller in this state, the datagram is passed over: it brings no
reply and no change of the lists. -/
def Silent (validClients : ControllerClass) (t : State) (bytes : Bytes) : Prop :=
  ∀ host, ∃ t', receiveThreadFunction validClients host t (.datagram bytes) = .next (t', none) ∧ SameLists t' t

theorem silent_of_other (head : receive t (.datagram bytes) = .next (r, regularMsg))
    (other : r.clientMsg.receiverId ≠ controllerName) : Silent validClients t bytes := by
  intro host
  obtain ⟨connected,fresh,_,_⟩ := receive_lists head
  exact ⟨r,receiveThreadFunction_next.mpr ⟨r,regularMsg,head,.ignored other⟩,connected,fresh⟩

theorem not_silent_of_regular (head : receive t (.datagram bytes) = .next (r, true))
    (mine : r.clientMsg.receiverId = controllerName) : ¬ Silent validClients t bytes := by
  intro silent
  obtain ⟨t',handled,_⟩ := silent []
  obtain ⟨v,regularMsg,again,handled⟩ := receiveThreadFunction_next.mp handled
  cases head.symm.trans again
  cases handled with
  | ignored stranger => exact stranger mine

theorem not_silent_of_stuck (stuck : receive t (.datagram bytes) = .undefined) : ¬ Silent validClients t bytes := by
  intro silent
  obtain ⟨t',handled,_⟩ := silent []
  obtain ⟨_,_,head,_⟩ := receiveThreadFunction_next.mp handled
  exact nomatch stuck.symm.trans head

theorem word_ne_alive (st : ControllerMsgState) : st.word ≠ Bytes.ofString "Alive" := by
  cases st <;> decide

/-- A request parser takes a reply for a regular message of the controller. -/
theorem parse_reply {host clientId : Bytes} {keepAlive : Int} (self : ClientMessage) (idSingle : colon ∉ clientId)
    (short : Short (replyText host keepAlive clientId st)) :
    self.parse (replyText host keepAlive clientId st) =
      (true, ⟨⟨clientId, controllerName⟩, st.word, field 3 (replyText host keepAlive clientId st)⟩) := by
  rw [ClientMessage.parse_eq self short,reply_word idSingle,if_neg (word_ne_alive st),reply_receiver idSingle,
    reply_sender idSingle]

section Delivery

variable {host clientId : Bytes} {keepAlive : Int}

/-- A reply to the controller's own name is a request to the controller. -/
theorem own_name_answered (t : State) (hostFree : 0 ∉ host)
    (fits : (replyText host keepAlive controllerName st).length ≤ 254) :
    ¬ Silent validClients t (replyText host keepAlive controllerName st ++ [0]) := by
  have free : 0 ∉ replyText host keepAlive controllerName st := replyText_nul_free controllerName_nul_free hostFree
  have short : Short (replyText host keepAlive controllerName st) := Nat.lt_of_le_of_lt fits (by decide)
  have head := receive_text t free fits
  rw [parse_reply _ controllerName_colon_free short] at head
  exact not_silent_of_regular head rfl

theorem other_name_silent (t : State) (idFree : 0 ∉ clientId) (idSingle : colon ∉ clientId) (hostFree : 0 ∉ host)
    (other : clientId ≠ controllerName) (fits : (replyText host keepAlive clientId st).length ≤ 254) :
    Silent validClients t (replyText host keepAlive clientId st ++ [0]) := by
  have free : 0 ∉ replyText host keepAlive clientId st := replyText_nul_free idFree hostFree
  have short : Short (replyText host keepAlive clientId st) := Nat.lt_of_le_of_lt fits (by decide)
  have head := receive_text t free fits
  rw [parse_reply _ idSingle short] at head
  exact silent_of_other head other

variable {first : UInt8} {id : Bytes}

/-- Of a reply that filled the array, all but the first byte of the id is sent if that
byte counts up to the NUL. -/
theorem wrapped_silent (t : State) (idFree : 0 ∉ id) (idSingle : colon ∉ id) (hostFree : 0 ∉ host)
    (long : controllerName.length < id.length)
    (full : (replyText host keepAlive (255 :: id) st).length = 255) :
    Silent validClients t (wrapped (replyText host keepAlive (255 :: id) st)) := by
  have length : (replyText host keepAlive id st).length = 254 := Nat.succ.inj full
  have sent : wrapped (replyText host keepAlive (255 :: id) st) = replyText host keepAlive id st ++ [0] := by
    have whole : (replyText host keepAlive id st ++ [0]).length ≤ 255 := length_terminated length.le
    exact List.take_of_length_le whole
  rw [sent]
  apply other_name_silent t idFree idSingle hostFree _ length.le
  rintro rfl
  omega

/-- If the byte is any smaller, the NUL is not sent, and what is read next to the bytes
that are depends on what the buffer held. -/
theorem wrapped_stuck (idFree : 0 ∉ first :: id) (hostFree : 0 ∉ host) (other : first ≠ 255)
    (full : (replyText host keepAlive (first :: id) st).length = 255) (behind : t.buffer.cells = hollow) :
    receive t (.datagram (wrapped (replyText host keepAlive (first :: id) st))) = .undefined := by
  have free : 0 ∉ replyText host keepAlive (first :: id) st := replyText_nul_free idFree hostFree
  have length : (replyText host keepAlive id st).length = 254 := Nat.succ.inj full
  have below : first.toNat ≤ 254 := by
    have bound := first.toNat_lt
    have distinct : first.toNat ≠ 255 := fun same => other (UInt8.toNat_inj.mp same)
    omega
  have positive : first.toNat ≠ 0 := by
    intro zero
    obtain rfl : first = 0 := UInt8.toNat_inj.mp zero
    exact idFree (List.mem_cons_self ..)
  have sent : wrapped (replyText host keepAlive (first :: id) st) =
      (replyText host keepAlive id st).take first.toNat := by
    exact List.take_append_of_le_length (below.trans length.ge)
  rw [sent]
  apply receive_stuck _ _ behind
  · intro none
    have := congrArg List.length none
    rw [List.length_take,length,List.length_nil] at this
    omega
  · intro nul
    exact free (List.mem_cons_of_mem _ (List.mem_of_mem_take (List.mem_of_mem_take nul)))

end Delivery

/-- A reply of the controller that reaches it again is passed over by every state it may
be in by then, unless the request came in the controller's own name, or the reply is one
character too long for its length byte and what is sent of it stops short of its NUL. -/
theorem self_silent_iff (head : receive s (.datagram bytes) = .next (r, regularMsg))
    (handled : receiveThreadFunction validClients (inetNtoa a b c d) s (.datagram bytes) = .next (s', some st))
    (sent : sendThreadFunction s'.buffer = some echo) :
    (∀ inputs t, (machine validClients).run s' inputs = some t → Silent validClients t echo) ↔
      r.clientMsg.senderId ≠ controllerName ∧
        ((replyText (inetNtoa a b c d) s.keepAlive r.clientMsg.senderId st).length = 255 →
          r.clientMsg.senderId.head? = some 255) := by
  obtain ⟨idFree,idSingle⟩ := receive_sender head
  have hostFree := inetNtoa_nul_free a b c d
  obtain ⟨within,cells,body⟩ := reply_made hostFree (inetNtoa_length a b c d) head handled
  rcases Nat.lt_or_eq_of_le within with fits | full
  · have fits := Nat.le_of_lt_succ fits
    obtain rfl := Option.some.inj (sent.symm.trans (sendThreadFunction_framed cells fits))
    constructor
    · intro silent
      refine ⟨?_,fun overlong => absurd overlong (by omega)⟩
      intro own
      have here := silent [] s' rfl
      rw [own] at here fits
      exact own_name_answered s' hostFree fits here
    · rintro ⟨other,_⟩ inputs t _
      exact other_name_silent t idFree idSingle hostFree other fits
  · obtain rfl := Option.some.inj (sent.symm.trans (sendThreadFunction_wrapped cells full))
    have name : controllerName.length = 12 := rfl
    have long := full
    rw [replyText_length] at long
    have other : r.clientMsg.senderId ≠ controllerName := by
      intro own
      rw [own] at long
      omega
    obtain ⟨first,id,spelled⟩ : ∃ first id, r.clientMsg.senderId = first :: id := by
      apply List.exists_cons_of_length_pos
      omega
    rw [spelled] at idFree idSingle full long ⊢
    rw [List.length_cons] at long
    simp only [List.head?_cons,Option.some.injEq,full,forall_const]
    constructor
    · intro silent
      refine ⟨spelled ▸ other,?_⟩
      by_contra below
      obtain ⟨t,step,_,behind⟩ := hollow_step validClients (inetNtoa a b c d) s'
      have reached := Machine.run_singleton (m := machine validClients) s' _ ▸ step
      exact not_silent_of_stuck (wrapped_stuck idFree hostFree below full behind) (silent _ t reached)
    · rintro ⟨_,rfl⟩ inputs t _
      have idFree : 0 ∉ id := fun nul => idFree (List.mem_cons_of_mem _ nul)
      have idSingle : colon ∉ id := fun separator => idSingle (List.mem_cons_of_mem _ separator)
      exact wrapped_silent t idFree idSingle hostFree (by omega) full

theorem door_release_silent : ∃ s' echo,
    receiveThreadFunction doorSensors doorHost initial (.datagram doorAlive) = .next (s', some .rlsd) ∧
      sendThreadFunction s'.buffer = some echo ∧
      ∀ inputs t, (machine doorSensors).run s' inputs = some t → Silent doorSensors t echo := by
  obtain ⟨r,head,sender⟩ : ∃ r, receive initial (.datagram doorAlive) = .next (r, false) ∧
    r.clientMsg.senderId = doorId := ⟨_,rfl,rfl⟩
  obtain ⟨s',handled⟩ : ∃ s', receiveThreadFunction doorSensors doorHost initial (.datagram doorAlive) =
    .next (s', some .rlsd) := ⟨_,rfl⟩
  obtain ⟨echo,sent⟩ := sendThreadFunction_isSome s'.buffer
  refine ⟨s',echo,handled,sent,(self_silent_iff head handled sent).mpr ?_⟩
  rw [sender]
  refine ⟨by decide,fun overlong => ?_⟩
  have short : (replyText doorHost initial.keepAlive doorId .rlsd).length ≠ 255 := by decide
  exact absurd overlong short

def selfReply : Bytes := Bytes.ofString "Controller_1:Controller_1:NOK"

theorem refusal_composes (idFree : 0 ∉ s.clientMsg.senderId) (short : s.clientMsg.senderId.length ≤ 12) :
    ∃ s', compose [] s .nok = some s' := by
  have fits : (replyText [] s.keepAlive s.clientMsg.senderId .nok).length ≤ 255 := by
    rw [replyText_nok_length]
    omega
  have room : ControllerMsgState.nok = .ok → KeepAliveFits s.keepAlive := nofun
  obtain ⟨buffer,made,_⟩ := makeMessage_composes idFree List.not_mem_nil room fits
  exact ⟨_,compose_eq_some.mpr ⟨buffer,made,rfl⟩⟩

theorem self_reply_again (validClients : ControllerClass) (host : Bytes) (t : State)
    (unlisted : validClients.isInList (Bytes.ofString "NOK") [] = false) :
    ∃ t', receiveThreadFunction validClients host t (.datagram (selfReply ++ [0])) = .next (t', some .nok) ∧
      sendThreadFunction t'.buffer = some (selfReply ++ [0]) := by
  have free : 0 ∉ selfReply := by decide
  have fits : (selfReply ++ [0]).length ≤ 255 := by decide
  have head := receive_text t free (by decide)
  have parsed : t.clientMsg.parse selfReply =
    (true, ⟨⟨controllerName, controllerName⟩, Bytes.ofString "NOK", []⟩) := rfl
  rw [parsed] at head
  have idFree := (receive_sender head).1
  have short : controllerName.length ≤ 12 := by decide
  obtain ⟨s',composed⟩ := refusal_composes idFree short
  exact ⟨s',receiveThreadFunction_next.mpr ⟨_,true,head,.refused rfl unlisted composed⟩,
    compose_intact idFree composed fits⟩

/-- One datagram in the controller's own name is enough for replies without end. -/
theorem self_reply_forever :
    (∃ s', receiveThreadFunction doorSensors doorHost initial
        (.datagram (Bytes.ofString "Controller_1:Controller_1:x:y" ++ [0])) = .next (s', some .nok) ∧
      sendThreadFunction s'.buffer = some (selfReply ++ [0])) ∧
    ∀ t, ∃ t', receiveThreadFunction doorSensors doorHost t (.datagram (selfReply ++ [0])) = .next (t', some .nok) ∧
      sendThreadFunction t'.buffer = some (selfReply ++ [0]) :=
  ⟨⟨_,rfl,rfl⟩,fun t => self_reply_again doorSensors doorHost t (by decide)⟩

end SmartHospital.Controller
