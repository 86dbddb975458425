import SmartHospital.Sections

/-! An Alive handled in two critical sections, against the two orders in which its
handling and a tick could follow each other as a whole. -/
namespace SmartHospital.Controller

variable {validClients : ControllerClass} {c bytes : Bytes} {s r final : State} {t : Split} {steps : List Label}
  {replied : Option ControllerMsgState}

def Label.isProceed : Label → Bool
  | .proceed _ => true
  | _ => false

/-- One reception of the datagram and one tick, anywhere among the thread's own steps. -/
def Interleaving (bytes : Bytes) (steps : List Label) : Prop :=
  steps.filter (!·.isProceed) = [.receive bytes, .tick] ∨ steps.filter (!·.isProceed) = [.tick, .receive bytes]

/-- The lists and the reply of one of the two sequential orders. -/
def Sequential (validClients : ControllerClass) (s : State) (bytes : Bytes) (final : State)
    (replied : Option ControllerMsgState) : Prop :=
  (∃ host s', receiveThreadFunction validClients host s (.datagram bytes) = .next (s', replied) ∧
    SameLists final (clientListThreadFunction s')) ∨
  ∃ host s', receiveThreadFunction validClients host (clientListThreadFunction s) (.datagram bytes) = .next (s', replied) ∧
    SameLists final s'

theorem alone_iff : Alone steps ↔ ∀ label ∈ steps, ¬ (!label.isProceed) = true := by
  apply forall₂_congr
  intro label _
  cases label <;> simp [Label.isProceed]

/-- The thread's own steps fill the gaps between the two marks. -/
theorem split_at_marks (marks : steps.filter (!·.isProceed) = [x, y]) :
    ∃ front middle back, steps = front ++ x :: (middle ++ y :: back) ∧ Alone front ∧ Alone middle ∧ Alone back := by
  obtain ⟨front,rest,rfl,frontAlone,_,tail⟩ := List.filter_eq_cons_iff.mp marks
  obtain ⟨middle,back,rfl,middleAlone,_,none⟩ := List.filter_eq_cons_iff.mp tail
  exact ⟨front,middle,back,rfl,alone_iff.mpr frontAlone,alone_iff.mpr middleAlone,
    alone_iff.mpr (List.filter_eq_nil_iff.mp none)⟩

theorem alive_received (head : receive s (.datagram bytes) = .next (r, false))
    (mine : r.clientMsg.receiverId = controllerName)
    (step : (sections validClients).step ⟨s, .idle, replied⟩ (.receive bytes) = some t) : t = ⟨r, .alive, none⟩ := by
  cases sections_step.mp step with
  | received _ other =>
    cases head.symm.trans other
    simp [dispatch,mine]

theorem alive_settled (mine : r.clientMsg.receiverId = controllerName) (alone : Alone steps)
    (whole : (sections validClients).run ⟨r, .alive, none⟩ steps = some ⟨final, .idle, replied⟩) :
    ∃ host, Handled validClients host r false final replied := by
  rcases alone_alive alone whole with waiting | ⟨connected,found | renewed⟩ | ⟨unknown,answer | ⟨host,s,composed,done⟩⟩
  · simp at waiting
  · simp at found
  · cases renewed
    exact ⟨[],.renewed mine connected⟩
  · simp at answer
  · cases done
    exact ⟨host,.released mine unknown composed⟩

theorem tick_mine (mine : r.clientMsg.receiverId = controllerName) :
    (clientListThreadFunction r).clientMsg.receiverId = controllerName := by
  rw [tick_clientMsg,mine]

/-- Where the tick can fall: before the check, behind the whole handling, or between
the check and what follows from it. -/
theorem tick_within (mine : r.clientMsg.receiverId = controllerName) (middle : Alone before) (back : Alone after)
    (whole : (sections validClients).run ⟨r, .alive, none⟩ (before ++ .tick :: after) = some ⟨final, .idle, replied⟩) :
    (∃ host, Handled validClients host (clientListThreadFunction r) false final replied) ∨
    (∃ host s, Handled validClients host r false s replied ∧ final = clientListThreadFunction s) ∨
    (r.clientMsg.senderId ∈ r.connectedClients ∧ final = renew (clientListThreadFunction r) ∧ replied = none) ∨
    (r.clientMsg.senderId ∉ r.connectedClients ∧ replied = some .rlsd ∧
      ∃ host, compose host (clientListThreadFunction r) .rlsd = some final) := by
  obtain ⟨t,first,rest⟩ := Machine.run_append_eq_some.mp whole
  obtain ⟨t',step,last⟩ := Machine.run_cons.mp rest
  cases sections_step.mp step
  rcases alone_alive middle first with rfl | ⟨connected,rfl | rfl⟩ | ⟨unknown,rfl | ⟨host,s,composed,rfl⟩⟩
  · exact .inl (alive_settled (tick_mine mine) back last)
  · rcases alone_found back last with found | renewed
    · simp at found
    · cases renewed
      exact .inr (.inr (.inl ⟨connected,rfl,rfl⟩))
  · cases alone_idle back last
    exact .inr (.inl ⟨[],_,.renewed mine connected,rfl⟩)
  · rcases alone_answer back last with answer | ⟨host,s,composed,done⟩
    · simp at answer
    · cases done
      exact .inr (.inr (.inr ⟨unknown,rfl,host,composed⟩))
  · cases alone_idle back last
    exact .inr (.inl ⟨host,s,.released mine unknown composed,rfl⟩)

theorem compose_tick (composed : compose host (clientListThreadFunction r) .rlsd = some final) :
    ∃ s, compose host r .rlsd = some s ∧ SameLists final (clientListThreadFunction s) := by
  obtain ⟨buffer,made,rfl⟩ := compose_eq_some.mp composed
  rw [tick_clientMsg] at made
  refine ⟨_,compose_eq_some.mpr ⟨buffer,made,rfl⟩,?_⟩
  simp [SameLists,tick_lists]

theorem sequential_before (head : receive s (.datagram bytes) = .next (r, false))
    (handled : ∃ host, Handled validClients host r false s' replied)
    (same : SameLists final (clientListThreadFunction s')) : Sequential validClients s bytes final replied :=
  have ⟨host,handled⟩ := handled
  .inl ⟨host,s',receiveThreadFunction_next.mpr ⟨r,false,head,handled⟩,same⟩

theorem sequential_after (head : receive s (.datagram bytes) = .next (r, false))
    (handled : ∃ host, Handled validClients host (clientListThreadFunction r) false final replied) :
    Sequential validClients s bytes final replied :=
  have ⟨host,handled⟩ := handled
  .inr ⟨host,final,receiveThreadFunction_next.mpr ⟨_,false,receive_tick head,handled⟩,rfl,rfl⟩

/-- A tick between check and append goes unnoticed in the start phase, where it moves
nothing, and for a client it finds in the new list. -/
theorem covered_between (head : receive s (.datagram bytes) = .next (r, false))
    (mine : r.clientMsg.receiverId = controllerName) (connected : r.clientMsg.senderId ∈ r.connectedClients)
    (covered : s.firstStart = true ∨ r.clientMsg.senderId ∈ s.newConnectedClients) :
    Sequential validClients s bytes (renew (clientListThreadFunction r)) none := by
  obtain ⟨_,sameFresh,sameFirst,_⟩ := receive_lists head
  cases first : s.firstStart with
  | true =>
    apply sequential_before head ⟨[],.renewed mine connected⟩
    simp [SameLists,renew,tick_lists,tick_clientMsg,sameFirst,first]
  | false =>
    have fresh : r.clientMsg.senderId ∈ s.newConnectedClients := by simpa [first] using covered
    refine sequential_after head ⟨[],.renewed (tick_mine mine) ?_⟩
    simpa [tick_clientMsg,tick_lists,sameFirst,first,sameFresh] using fresh

/-- Outside the start phase, the lists torn by a tick between check and append match
neither order unless the client was in the new list already. -/
theorem torn_lists (head : receive s (.datagram bytes) = .next (r, false))
    (mine : r.clientMsg.receiverId = controllerName) (started : s.firstStart = false)
    (fresh : r.clientMsg.senderId ∉ s.newConnectedClients) :
    ¬ Sequential validClients s bytes (renew (clientListThreadFunction r)) none := by
  obtain ⟨_,sameFresh,sameFirst,_⟩ := receive_lists head
  have tickedMine := tick_mine mine
  have ticked := receive_tick head
  rintro (⟨host,s',handled,same,_⟩ | ⟨host,s',handled,_⟩)
  · obtain ⟨r',regularMsg,other,handled⟩ := receiveThreadFunction_next.mp handled
    cases head.symm.trans other
    cases handled with
    | ignored stranger => exact stranger mine
    | renewed =>
      -- the tick has installed the list with the append, not the one without it
      simp [renew,tick_lists,sameFirst,started] at same
  · obtain ⟨r',regularMsg,other,handled⟩ := receiveThreadFunction_next.mp handled
    cases ticked.symm.trans other
    cases handled with
    | ignored stranger => exact stranger tickedMine
    | renewed _ member =>
      rw [tick_clientMsg] at member
      simp [tick_lists,sameFirst,started,sameFresh,fresh] at member

theorem tick_between_run (head : receive s (.datagram bytes) = .next (r, false))
    (mine : r.clientMsg.receiverId = controllerName) (connected : r.clientMsg.senderId ∈ s.connectedClients) :
    (sections validClients).run ⟨s, .idle, none⟩ [.receive bytes, .proceed [], .tick, .proceed []] =
      some ⟨renew (clientListThreadFunction r), .idle, none⟩ := by
  have found : isInConnectedClients r r.clientMsg.senderId = true := by
    rw [isInConnectedClients_iff,(receive_lists head).1]
    exact connected
  simp [Machine.run,sections,head,dispatch,mine,proceed,found]

/-- Every interleaving of the two sections of an Alive with a tick amounts to one of
the sequential orders in the start phase, for a client that is not connected, and for
one already in the new list; in all other states some interleaving does not. -/
theorem alive_atomic_iff (alive : AliveFrom c s bytes) :
    (∀ steps final replied, Interleaving bytes steps →
      (sections validClients).run ⟨s, .idle, none⟩ steps = some ⟨final, .idle, replied⟩ →
      Sequential validClients s bytes final replied) ↔
      s.firstStart = true ∨ c ∉ s.connectedClients ∨ c ∈ s.newConnectedClients := by
  obtain ⟨r,head,mine,rfl⟩ := alive
  obtain ⟨sameConnected,sameFresh,sameFirst,_⟩ := receive_lists head
  constructor
  · intro atomic
    by_contra torn
    simp only [not_or,not_not] at torn
    obtain ⟨started,connected,fresh⟩ := torn
    have between : Interleaving bytes [.receive bytes, .proceed [], .tick, .proceed []] := .inl rfl
    exact torn_lists head mine (Bool.eq_false_iff.mpr started) fresh
      (atomic _ _ _ between (tick_between_run head mine connected))
  · intro condition steps final replied interleaved whole
    rcases interleaved with marks | marks
    · obtain ⟨front,middle,back,rfl,frontAlone,middleAlone,backAlone⟩ := split_at_marks marks
      obtain ⟨t,step,last⟩ := alone_until frontAlone whole
      obtain rfl := alive_received head mine step
      rcases tick_within mine middleAlone backAlone last with
        ⟨host,handled⟩ | ⟨host,s',handled,rfl⟩ | ⟨connected,rfl,rfl⟩ | ⟨unknown,rfl,host,composed⟩
      · exact sequential_after head ⟨host,handled⟩
      · exact sequential_before head ⟨host,handled⟩ ⟨rfl,rfl⟩
      · rcases condition with starting | absent | fresh
        · exact covered_between head mine connected (.inl starting)
        · exact absurd (sameConnected ▸ connected) absent
        · exact covered_between head mine connected (.inr fresh)
      · obtain ⟨s',early,same⟩ := compose_tick composed
        exact sequential_before head ⟨host,.released mine unknown early⟩ same
    · obtain ⟨front,middle,back,rfl,frontAlone,middleAlone,backAlone⟩ := split_at_marks marks
      obtain ⟨t,step,last⟩ := alone_until frontAlone whole
      cases sections_step.mp step
      obtain ⟨t',step,last⟩ := alone_until middleAlone last
      obtain rfl := alive_received (receive_tick head) (tick_mine mine) step
      exact sequential_after head (alive_settled (tick_mine mine) backAlone last)

theorem alive_atomic_at_start : ∃ s, (machine doorSensors).run initial [.datagram doorHost doorRequest] = some s ∧
    ∀ steps final replied, Interleaving doorAlive steps →
      (sections doorSensors).run ⟨s, .idle, none⟩ steps = some ⟨final, .idle, replied⟩ →
      Sequential doorSensors s doorAlive final replied := by
  refine ⟨_,rfl,?_⟩
  refine (alive_atomic_iff (c := doorId) ?_).mpr (.inl rfl)
  exact ⟨_,rfl,rfl,rfl⟩

/-- The tick falls between check and append: the client is in the new list, and in
neither order would it be there. -/
theorem torn_by_tick : ∃ s final,
    (machine doorSensors).run initial [.datagram doorHost doorRequest, .tick] = some s ∧
      AliveFrom doorId s doorAlive ∧
      (sections doorSensors).run ⟨s, .idle, none⟩ [.receive doorAlive, .proceed doorHost, .tick, .proceed doorHost] =
        some ⟨final, .idle, none⟩ ∧
      final.newConnectedClients = [doorId] ∧ ¬ Sequential doorSensors s doorAlive final none := by
  refine ⟨_,_,rfl,⟨_,rfl,rfl,rfl⟩,rfl,rfl,?_⟩
  exact torn_lists rfl rfl rfl (by decide)

end SmartHospital.Controller
