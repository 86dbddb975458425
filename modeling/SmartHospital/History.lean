import SmartHospital.Leftover
import SmartHospital.Load

/-! Which lists the controller can have while a text for it is left in the receive buffer,
over all histories: an invariant from one side, histories step by step from the other. -/
namespace SmartHospital.Controller

/-- The address of the host is one that `getLocalHost` can return. -/
def Dotted : Input → Prop
  | .datagram host _ => ∃ a b c d, host = inetNtoa a b c d
  | .tick => True

/-- The configuration admits a client of this name: some text within the buffer announces
it, and the OK has room for the name. -/
def Admissible (validClients : ControllerClass) (c : Bytes) : Prop :=
  ∃ msg, 0 ∉ msg ∧ msg.length ≤ 255 ∧ field 0 msg = controllerName ∧ field 1 msg = c ∧
    field 2 msg ≠ Bytes.ofString "Alive" ∧ validClients.isInList (field 2 msg) (field 3 msg) = true ∧
    c.length ≤ 228

/-- With these lists an Alive may have been the last to write the buffer: the last new
client is a connected one, or ticks have emptied the new list since. -/
def Repeatable (validClients : ControllerClass) (s : State) : Prop :=
  (∃ c ∈ s.connectedClients, s.newConnectedClients.getLast? = some c) ∨
    s.firstStart = false ∧ s.newConnectedClients = [] ∧ ∃ c, Admissible validClients c

def Addressed (s : State) : Prop := field 0 (upToNul s.buffer.cells) = controllerName

variable {validClients : ControllerClass} {host bytes c : Bytes} {ids : List Bytes} {s s' t r : State}
  {regularMsg : Bool} {answer : Option ControllerMsgState} {input : Input}

theorem repeatable_congr (control : SameControl t s) : Repeatable validClients t ↔ Repeatable validClients s := by
  obtain ⟨connected,fresh,first,_⟩ := control
  rw [Repeatable,Repeatable,connected,fresh,first]

structure Recorded (validClients : ControllerClass) (s : State) : Prop where
  admitted : ∀ c, c ∈ s.connectedClients ∨ c ∈ s.newConnectedClients → Admissible validClients c
  starting : s.firstStart = true → ∀ c ∈ s.newConnectedClients, c ∈ s.connectedClients
  addressed : Addressed s → Repeatable validClients s

/-- A composed reply is not for the controller: the length byte in front of it is below
the first letter of the controller's name. -/
theorem framed_other {clientId : Bytes} {keepAlive : Int} (idFree : 0 ∉ clientId) (idSingle : colon ∉ clientId)
    (hostFree : 0 ∉ host) (body : (replyBody host keepAlive st).length ≤ 22)
    (within : (replyText host keepAlive clientId st).length ≤ 255) :
    field 0 (upToNul (framed (replyText host keepAlive clientId st))) ≠ controllerName := by
  have free : 0 ∉ replyText host keepAlive clientId st := replyText_nul_free idFree hostFree
  have length := replyText_length host keepAlive clientId st
  have name : controllerName.length = 12 := rfl
  intro mine
  by_cases fits : (replyText host keepAlive clientId st).length ≤ 254
  · have count := length_byte fits
    rw [framed,if_pos fits] at mine
    generalize UInt8.ofNat ((replyText host keepAlive clientId st).length + 1) = first at count mine
    obtain ⟨spare,left⟩ : ∃ spare, buffLen - ((replyText host keepAlive clientId st).length + 1) = spare + 1 :=
      ⟨254 - (replyText host keepAlive clientId st).length,by simp only [buffLen]; omega⟩
    have whole : 0 ∉ first :: replyText host keepAlive clientId st := by
      rw [List.mem_cons,not_or]
      refine ⟨?_,free⟩
      rintro rfl
      simp at count
    rw [left,List.replicate_succ,upToNul_append_nul,upToNul_of_free whole] at mine
    by_cases separator : first = colon
    · have empty : field 0 (first :: replyText host keepAlive clientId st) = [] :=
        separator ▸ field_zero List.not_mem_nil _
      exact absurd (empty.symm.trans mine) (by decide)
    · have single : colon ∉ first :: clientId := by simp [Ne.symm separator,idSingle]
      have spelled : first :: clientId = controllerName := (field_zero single _).symm.trans mine
      have letter : first = 67 := Option.some.inj (congrArg List.head? spelled)
      have rest : clientId.length + 1 = 12 := congrArg List.length spelled
      rw [letter] at count
      have value : (67 : UInt8).toNat = 67 := rfl
      omega
  · have full : (replyText host keepAlive clientId st).length = 255 := by omega
    rw [framed,if_neg fits,upToNul_append_nul,upToNul_of_free free,reply_receiver idSingle] at mine
    rw [mine] at length full
    omega

theorem replied_other (a b c d : UInt8) (head : receive s (.datagram bytes) = .next (r, regularMsg))
    (handled : receiveThreadFunction validClients (inetNtoa a b c d) s (.datagram bytes) = .next (s', some st)) :
    ¬ Addressed s' := by
  obtain ⟨idFree,idSingle⟩ := receive_sender head
  have hostFree := inetNtoa_nul_free a b c d
  obtain ⟨within,cells,body⟩ := reply_made hostFree (inetNtoa_length a b c d) head handled
  rw [Addressed,cells]
  exact framed_other idFree idSingle hostFree body within

/-- Only an Alive that is taken up leaves a text for the controller. -/
theorem renewed_of_addressed (a b c d : UInt8)
    (whole : receiveThreadFunction validClients (inetNtoa a b c d) s (.datagram bytes) = .next (s', answer))
    (mine : Addressed s') : ∃ c ∈ s'.connectedClients, s'.newConnectedClients.getLast? = some c := by
  obtain ⟨r,regularMsg,head,handled⟩ := receiveThreadFunction_next.mp whole
  cases handled with
  | ignored other =>
    rw [Addressed,receive_buffer head] at mine
    exact absurd ((receive_receiver head).trans mine) other
  | renewed _ member => exact ⟨_,member,by simp [renew]⟩
  | admitted => exact absurd mine (replied_other a b c d head whole)
  | refused => exact absurd mine (replied_other a b c d head whole)
  | released => exact absurd mine (replied_other a b c d head whole)

/-- What was admitted with some address of the host is admitted with the shortest one. -/
theorem announced_admissible (a b c d : UInt8) (interval : s.keepAlive = kaBase)
    (announces : Announces validClients x s bytes)
    (whole : receiveThreadFunction validClients (inetNtoa a b c d) s (.datagram bytes) = .next (s', answer)) :
    Admissible validClients x := by
  obtain ⟨r,head,mine,valid,rfl⟩ := announces
  obtain ⟨v,_,again,handled⟩ := receiveThreadFunction_next.mp whole
  cases head.symm.trans again
  cases handled with
  | ignored other => exact absurd mine other
  | refused _ invalid => exact absurd valid (Bool.eq_false_iff.mp invalid)
  | admitted =>
    have within := (reply_made (inetNtoa_nul_free a b c d) (inetNtoa_length a b c d) head whole).1
    have digits : (Decimal.print kaBase).length = 2 := rfl
    have least := inetNtoa_least a b c d
    obtain ⟨msg,text,regular,rfl⟩ := receive_next head
    have room := CArray.length_cstr?_lt text
    have short : Short msg := room.trans (by decide)
    rw [interval,replyText_ok_length,digits] at within
    rw [ClientMessage.parse_eq _ short] at regular mine valid within ⊢
    split at regular
    · exact nomatch regular
    · rename_i kind
      simp only [kind,if_false] at mine valid within ⊢
      exact ⟨msg,CArray.cstr?_nul_free text,Nat.le_of_lt_succ room,mine,rfl,kind,valid,by omega⟩

theorem starting_step (step : (machine validClients).step s input = some s') (starting : s'.firstStart = true) :
    s.firstStart = true ∧ input ≠ .tick := by
  cases input with
  | tick =>
    obtain rfl := Option.some.inj step
    exact absurd ((tick_firstStart s).symm.trans starting) (by decide)
  | datagram host bytes =>
    obtain ⟨answer,handled⟩ := machine_datagram.mp step
    exact ⟨(datagram_keeps handled).2.1.symm.trans starting,nofun⟩

theorem addressed_step (recorded : Recorded validClients s) (dotted : Dotted input)
    (step : (machine validClients).step s input = some s') (mine : Addressed s') : Repeatable validClients s' := by
  cases input with
  | datagram host bytes =>
    obtain ⟨a,b,c,d,rfl⟩ := dotted
    obtain ⟨answer,handled⟩ := machine_datagram.mp step
    exact .inl (renewed_of_addressed a b c d handled mine)
  | tick =>
    obtain rfl := Option.some.inj step
    obtain ⟨connected,fresh⟩ := tick_lists s
    rw [Addressed,tick_buffer] at mine
    rw [Repeatable,connected,fresh]
    rcases recorded.addressed mine with ⟨c,member,last⟩ | ⟨later,none,some⟩
    · split
      · exact .inl ⟨c,member,last⟩
      · exact .inr ⟨tick_firstStart s,rfl,c,recorded.admitted c (.inl member)⟩
    · rw [later]
      exact .inr ⟨tick_firstStart s,rfl,some⟩

theorem recorded_step (recorded : Recorded validClients s) (interval : s.keepAlive = kaBase) (dotted : Dotted input)
    (step : (machine validClients).step s input = some s') : Recorded validClients s' := by
  have entered := step_entered step
  refine ⟨?_,?_,addressed_step recorded dotted step⟩
  · intro x member
    rcases entered_origin entered member with old | ⟨host,bytes,rfl,announces⟩
    · exact recorded.admitted x old
    · obtain ⟨a,b,c,d,rfl⟩ := dotted
      obtain ⟨answer,handled⟩ := machine_datagram.mp step
      exact announced_admissible a b c d interval announces handled
  · intro starting x member
    obtain ⟨before,datagram⟩ := starting_step step starting
    cases entered with
    | early _ _ connected fresh =>
      rw [fresh] at member
      exact connected ▸ List.mem_append_left _ (recorded.starting before x member)
    | late _ started => exact absurd (started.symm.trans before) (by decide)
    | renewed _ known connected fresh =>
      rw [fresh,List.mem_append,List.mem_singleton] at member
      rcases member with old | rfl
      · exact connected ▸ recorded.starting before x old
      · exact connected ▸ known
    | kept _ connected fresh =>
      rw [fresh] at member
      exact connected ▸ recorded.starting before x member
    | ticked => exact absurd rfl datagram

theorem reaches_recorded (reached : (machine validClients).Reaches Dotted initial s) :
    s.keepAlive = kaBase ∧ Recorded validClients s := by
  apply Machine.Reaches.invariant (fun s => s.keepAlive = kaBase ∧ Recorded validClients s) _ reached
  · refine ⟨rfl,?_,?_,?_⟩
    · rintro c (none | none) <;> exact absurd none List.not_mem_nil
    · exact fun _ c none => absurd none List.not_mem_nil
    · intro mine
      have empty : field 0 (upToNul initial.buffer.cells) = [] := rfl
      exact absurd (empty.symm.trans mine) (by decide)
  · rintro s input next ⟨interval,recorded⟩ dotted step
    exact ⟨step_keepAlive interval step,recorded_step recorded interval dotted step⟩

theorem reaches_datagram (a b c d : UInt8)
    (handled : receiveThreadFunction validClients (inetNtoa a b c d) s (.datagram bytes) = .next (t, answer)) :
    (machine validClients).Reaches Dotted s t :=
  Machine.Reaches.single (machine_datagram.mpr ⟨answer,handled⟩) ⟨a,b,c,d,rfl⟩

theorem reaches_tick (s : State) : (machine validClients).Reaches Dotted s (clientListThreadFunction s) :=
  ⟨[.tick],by simp [Dotted],rfl⟩

theorem announce_step (admissible : Admissible validClients c) (s : State) (interval : s.keepAlive = kaBase) :
    ∃ t, (machine validClients).Reaches Dotted s t ∧
      SameControl t (if s.firstStart = true then { s with connectedClients := s.connectedClients ++ [c] }
        else { s with newConnectedClients := s.newConnectedClients ++ [c] }) := by
  obtain ⟨msg,free,room,mine,sender,kind,valid,short⟩ := admissible
  have size : (msg ++ [0]).length ≤ buffLen := length_terminated room
  have terminated : 0 ∈ (msg ++ [0]).take buffLen := by
    rw [List.take_of_length_le size]
    exact List.mem_append_right _ (List.mem_singleton_self 0)
  obtain ⟨r,head,decoded⟩ : ∃ r, receive s (.datagram (msg ++ [0])) = .next (r, true) ∧
      r.clientMsg = ⟨⟨controllerName, c⟩, field 2 msg, field 3 msg⟩ := by
    have head := receive_terminated s terminated
    have range : Short msg := room.trans_lt (by decide)
    rw [upToNul_append_nul,upToNul_of_free free,ClientMessage.parse_eq _ range,if_neg kind,mine,sender] at head
    exact ⟨_,head,rfl⟩
  obtain ⟨connected,fresh,first,number⟩ := receive_lists head
  obtain ⟨sameMsg,sameNumber,_⟩ := enlist_keeps r
  have idFree : 0 ∉ c := sender ▸ fun nul => free (mem_of_mem_field 1 msg nul)
  have fits : (replyText (inetNtoa 0 0 0 0) kaBase c .ok).length ≤ 255 := by
    have digits : (Decimal.print kaBase).length = 2 := rfl
    have host : (inetNtoa 0 0 0 0).length = 7 := rfl
    rw [replyText_ok_length,digits,host]
    omega
  have hostFree := inetNtoa_nul_free 0 0 0 0
  obtain ⟨buffer,made,_⟩ := makeMessage_composes idFree hostFree (fun _ => initial_keepAlive) fits
  have composed : compose (inetNtoa 0 0 0 0) (enlist r) .ok = some { enlist r with buffer := buffer } := by
    refine compose_eq_some.mpr ⟨buffer,?_,rfl⟩
    rw [sameMsg,sameNumber,number,interval,decoded]
    exact made
  have handled := receiveThreadFunction_next.mpr
    ⟨r,true,head,.admitted (by rw [decoded]) (by rw [decoded]; exact valid) composed⟩
  refine ⟨_,reaches_datagram 0 0 0 0 handled,?_⟩
  unfold enlist
  rw [first]
  split
  · exact ⟨by simp only [connected,decoded],fresh,rfl,number⟩
  · exact ⟨connected,by simp only [fresh,decoded],rfl,number⟩

/-- A connected client's Alive stays in the buffer. -/
theorem alive_step (admissible : Admissible validClients c) (member : c ∈ s.connectedClients) :
    ∃ t, (machine validClients).Reaches Dotted s t ∧
      SameControl t { s with newConnectedClients := s.newConnectedClients ++ [c] } ∧ Addressed t := by
  obtain ⟨msg,free,_,_,sender,_,_,short⟩ := admissible
  have idFree : 0 ∉ c := sender ▸ fun nul => free (mem_of_mem_field 1 msg nul)
  have idSingle : colon ∉ c := sender ▸ field_free 1 msg
  have length := Client.aliveMessage_length idFree
  have fits : (Client.aliveMessage c).length ≤ 254 := by omega
  have range : Short (Client.aliveMessage c) := by unfold Short; omega
  have textFree : 0 ∉ Client.aliveMessage c := Client.composed_nul_free _
  obtain ⟨regular,receiver,decoded⟩ := (Client.alive_decodes s.clientMsg idFree range).mpr idSingle
  obtain ⟨r,head,mine,name⟩ : ∃ r, receive s (.datagram (Client.aliveMessage c ++ [0])) = .next (r, false) ∧
      r.clientMsg.receiverId = controllerName ∧ r.clientMsg.senderId = c := by
    have head := receive_text s textFree fits
    generalize s.clientMsg.parse (Client.aliveMessage c) = parsed at head regular receiver decoded
    rw [regular] at head
    exact ⟨_,head,receiver,decoded⟩
  obtain ⟨connected,fresh,first,number⟩ := receive_lists head
  have handled : receiveThreadFunction validClients (inetNtoa 0 0 0 0) s (.datagram (Client.aliveMessage c ++ [0])) =
      .next (renew r, none) := by
    refine receiveThreadFunction_next.mpr ⟨r,false,head,.renewed mine ?_⟩
    rw [name,connected]
    exact member
  have buffer := receive_buffer head
  refine ⟨_,reaches_datagram 0 0 0 0 handled,⟨connected,?_,first,number⟩,?_⟩
  · simp only [renew,name,fresh]
  · rw [Addressed,renew,buffer]
    exact (receive_receiver head).symm.trans mine

theorem announced_connected (admissible : ∀ c ∈ ids, Admissible validClients c) (s : State)
    (interval : s.keepAlive = kaBase) (starting : s.firstStart = true) :
    ∃ t, (machine validClients).Reaches Dotted s t ∧
      SameControl t { s with connectedClients := s.connectedClients ++ ids } := by
  induction ids generalizing s with
  | nil => exact ⟨s,.refl s,by simp [SameControl]⟩
  | cons c ids ih =>
    obtain ⟨first,others⟩ := List.forall_mem_cons.mp admissible
    obtain ⟨middle,step,control⟩ := announce_step first s interval
    rw [if_pos starting] at control
    have ⟨connected,fresh,same,number⟩ := control
    obtain ⟨t,run,connected',fresh',same',number'⟩ := ih others middle (number.trans interval) (same.trans starting)
    refine ⟨t,step.trans run,?_,fresh'.trans fresh,same'.trans same,number'.trans number⟩
    simp [connected',connected]

/-- Announcements behind the first tick and renewals fill the new list. -/
theorem entered_fresh (admissible : ∀ c ∈ ids, Admissible validClients c) (s : State)
    (interval : s.keepAlive = kaBase) (known : s.firstStart = true → ∀ c ∈ ids, c ∈ s.connectedClients) :
    ∃ t, (machine validClients).Reaches Dotted s t ∧
      SameControl t { s with newConnectedClients := s.newConnectedClients ++ ids } := by
  induction ids generalizing s with
  | nil => exact ⟨s,.refl s,by simp [SameControl]⟩
  | cons c ids ih =>
    obtain ⟨first,others⟩ := List.forall_mem_cons.mp admissible
    obtain ⟨middle,step,control⟩ : ∃ middle, (machine validClients).Reaches Dotted s middle ∧
        SameControl middle { s with newConnectedClients := s.newConnectedClients ++ [c] } := by
      cases phase : s.firstStart with
      | true =>
        obtain ⟨middle,step,control,_⟩ := alive_step first (known phase c (List.mem_cons_self ..))
        exact ⟨middle,step,phase ▸ control⟩
      | false =>
        obtain ⟨middle,step,control⟩ := announce_step first s interval
        rw [if_neg (Bool.eq_false_iff.mp phase)] at control
        exact ⟨middle,step,phase ▸ control⟩
    have ⟨connected,fresh,same,number⟩ := control
    have known : middle.firstStart = true → ∀ c ∈ ids, c ∈ middle.connectedClients := by
      intro starting x member
      rw [connected]
      exact known (same.symm.trans starting) x (List.mem_cons_of_mem _ member)
    obtain ⟨t,run,connected',fresh',same',number'⟩ := ih others middle (number.trans interval) known
    refine ⟨t,step.trans run,connected'.trans connected,?_,same'.trans same,number'.trans number⟩
    simp [fresh',fresh]

theorem connected_reached (admissible : ∀ c ∈ ids, Admissible validClients c) (phase : Bool) :
    ∃ t, (machine validClients).Reaches Dotted initial t ∧
      SameControl t { initial with connectedClients := ids, firstStart := phase } := by
  obtain ⟨t,fill,connected,fresh,first,number⟩ := announced_connected admissible initial rfl rfl
  cases phase with
  | true => exact ⟨t,fill,connected,fresh,first,number⟩
  | false =>
    obtain ⟨keepAlive,after⟩ := tick_first first
    refine ⟨_,fill.trans (reaches_tick t),?_,?_,?_,tick_keepAlive t⟩
    · rw [after]
      exact connected
    · rw [after]
      exact fresh
    · rw [after]

theorem renewal_reached {front : List Bytes} (admissible : ∀ x ∈ ids, Admissible validClients x)
    (member : c ∈ ids) (entered : ∀ x ∈ front, Admissible validClients x) (phase : Bool)
    (known : phase = true → ∀ x ∈ front, x ∈ ids) :
    ∃ t, (machine validClients).Reaches Dotted initial t ∧ Addressed t ∧
      SameControl t
        { initial with connectedClients := ids, newConnectedClients := front ++ [c], firstStart := phase } := by
  obtain ⟨started,begins,connected,fresh,first,number⟩ := connected_reached admissible phase
  have still : started.firstStart = true → ∀ x ∈ front, x ∈ started.connectedClients := fun starting =>
    connected ▸ known (first.symm.trans starting)
  obtain ⟨middle,goes,connected',fresh',first',number'⟩ := entered_fresh entered started number still
  obtain ⟨t,ends,⟨connected'',fresh'',first'',number''⟩,mine⟩ :=
    alive_step (admissible c member) (connected'.trans connected ▸ member : c ∈ middle.connectedClients)
  refine ⟨t,(begins.trans goes).trans ends,mine,(connected''.trans connected').trans connected,?_,
    (first''.trans first').trans first,(number''.trans number').trans number⟩
  simp [fresh'',fresh',fresh,initial]

/-- A tick takes the new list over and leaves the text in the buffer. -/
theorem tick_reached (reached : (machine validClients).Reaches Dotted initial s) (mine : Addressed s)
    (started : s.firstStart = false) (fresh : s.newConnectedClients = ids) :
    ∃ t, (machine validClients).Reaches Dotted initial t ∧ Addressed t ∧
      SameControl t { initial with connectedClients := ids, firstStart := false } := by
  obtain ⟨keepAlive,after⟩ := tick_later started
  refine ⟨_,reached.trans (reaches_tick s),?_,?_,?_,?_,tick_keepAlive s⟩
  · rw [Addressed,tick_buffer]
    exact mine
  · rw [after]
    exact fresh
  · rw [after]
    rfl
  · rw [after]
    exact started

theorem emptied_reached (admissible : ∀ x ∈ ids, Admissible validClients x) (some : Admissible validClients c) :
    ∃ t, (machine validClients).Reaches Dotted initial t ∧ Addressed t ∧
      SameControl t { initial with connectedClients := ids, firstStart := false } := by
  rcases List.eq_nil_or_concat' ids with rfl | ⟨front,d,rfl⟩
  · have alone : ∀ x ∈ [c], Admissible validClients x := by simpa using some
    have nobody : ∀ x ∈ ([] : List Bytes), Admissible validClients x := by simp
    obtain ⟨renewed,first,mine,_,fresh,started,_⟩ :=
      renewal_reached alone (List.mem_singleton_self c) nobody false nofun
    obtain ⟨ticked,second,mine,_,fresh,started,_⟩ := tick_reached first mine started fresh
    exact tick_reached second mine started fresh
  · obtain ⟨entered,last⟩ := List.forall_mem_append.mp admissible
    obtain ⟨renewed,first,mine,_,fresh,started,_⟩ :=
      renewal_reached last (List.mem_singleton_self d) entered false nofun
    exact tick_reached first mine started fresh

/-- Histories with these lists may leave a text for the controller, or none of them does. -/
theorem repeatable_iff (reached : (machine validClients).Reaches Dotted initial s) :
    Repeatable validClients s ↔
      ∃ t, (machine validClients).Reaches Dotted initial t ∧ Addressed t ∧ SameControl t s := by
  obtain ⟨interval,recorded⟩ := reaches_recorded reached
  have connectable : ∀ x ∈ s.connectedClients, Admissible validClients x := fun x member =>
    recorded.admitted x (.inl member)
  constructor
  · rintro (⟨c,member,last⟩ | ⟨started,fresh,c,some⟩)
    · obtain ⟨front,split⟩ := List.getLast?_eq_some_iff.mp last
      have behind : ∀ x ∈ front, x ∈ s.newConnectedClients := fun x member =>
        split ▸ List.mem_append_left _ member
      obtain ⟨t,there,mine,connected,fresh,first,number⟩ := renewal_reached connectable member
        (fun x member => recorded.admitted x (.inr (behind x member))) s.firstStart
        fun starting x member => recorded.starting starting x (behind x member)
      exact ⟨t,there,mine,connected,fresh.trans split.symm,first,number.trans interval.symm⟩
    · obtain ⟨t,there,mine,connected,none,first,number⟩ := emptied_reached connectable some
      exact ⟨t,there,mine,connected,none.trans fresh.symm,first.trans started.symm,number.trans interval.symm⟩
  · rintro ⟨t,there,mine,control⟩
    exact (repeatable_congr control).mp ((reaches_recorded there).2.addressed mine)

end SmartHospital.Controller
