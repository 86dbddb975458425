import SmartHospital.Membership

/-! The receive loop cut at its critical sections, with ticks of the list thread
between them. -/
namespace SmartHospital.Controller

/-- Where the receive thread stands. -/
inductive Phase where
  | idle
  /-- In front of the critical section of a valid announcement. -/
  | announced
  /-- In front of the membership check of an Alive. -/
  | alive
  /-- The check has succeeded and the lock is released again. -/
  | found
  /-- In front of `makeMessage`. -/
  | answer (state : ControllerMsgState)
  deriving DecidableEq

structure Split where
  state : State
  phase : Phase
  /-- The reply made for the request being handled. -/
  replied : Option ControllerMsgState

inductive Label where
  | receive (bytes : Bytes)
  | proceed (host : Bytes)
  | tick
  deriving DecidableEq

/-- The branches between `recvfrom` and the first critical section or reply. -/
def dispatch (validClients : ControllerClass) (r : State) (regularMsg : Bool) : Phase :=
  if r.clientMsg.receiverId = controllerName then
    if regularMsg = true then
      if validClients.isInList r.clientMsg.type r.clientMsg.purpose = true then .announced else .answer .nok
    else .alive
  else .idle

/-- The receive thread up to the release of the next lock or the next sender's start. -/
def proceed (host : Bytes) (t : Split) : Option Split :=
  match t.phase with
  | .idle => none
  | .announced => some { t with state := enlist t.state, phase := .answer .ok }
  | .alive =>
    if isInConnectedClients t.state t.state.clientMsg.senderId = true then some { t with phase := .found }
    else some { t with phase := .answer .rlsd }
  | .found => some { t with state := renew t.state, phase := .idle }
  | .answer state => (compose host t.state state).map fun s => ⟨s, .idle, some state⟩

def sections (validClients : ControllerClass) : Machine Split Label where
  step t
    | .receive bytes =>
      if t.phase = .idle then
        match receive t.state (.datagram bytes) with
        | .next (r, regularMsg) => some ⟨r, dispatch validClients r regularMsg, none⟩
        | _ => none
      else none
    | .proceed host => proceed host t
    | .tick => some { t with state := clientListThreadFunction t.state }

def Split.start : Split := ⟨initial, .idle, none⟩

variable {validClients : ControllerClass}

theorem dispatch_announced : dispatch validClients r regularMsg = .announced ↔
    r.clientMsg.receiverId = controllerName ∧ regularMsg = true ∧
      validClients.isInList r.clientMsg.type r.clientMsg.purpose = true := by
  unfold dispatch
  repeat' split
  all_goals simp_all

theorem dispatch_ne_found : dispatch validClients r regularMsg ≠ .found := by
  unfold dispatch
  repeat' split
  all_goals simp

theorem dispatch_ne_ok : dispatch validClients r regularMsg ≠ .answer .ok := by
  unfold dispatch
  repeat' split
  all_goals simp

/-- What one step can do. -/
inductive Moved (validClients : ControllerClass) (t : Split) : Label → Split → Prop where
  | received (waiting : t.phase = .idle) (head : receive t.state (.datagram bytes) = .next (r, regularMsg)) :
      Moved validClients t (.receive bytes) ⟨r, dispatch validClients r regularMsg, none⟩
  | enlisted (phase : t.phase = .announced) :
      Moved validClients t (.proceed host) ⟨enlist t.state, .answer .ok, t.replied⟩
  | checked (phase : t.phase = .alive) (connected : t.state.clientMsg.senderId ∈ t.state.connectedClients) :
      Moved validClients t (.proceed host) ⟨t.state, .found, t.replied⟩
  | missed (phase : t.phase = .alive) (unknown : t.state.clientMsg.senderId ∉ t.state.connectedClients) :
      Moved validClients t (.proceed host) ⟨t.state, .answer .rlsd, t.replied⟩
  | renewed (phase : t.phase = .found) : Moved validClients t (.proceed host) ⟨renew t.state, .idle, t.replied⟩
  | answered (phase : t.phase = .answer state) (composed : compose host t.state state = some s) :
      Moved validClients t (.proceed host) ⟨s, .idle, some state⟩
  | ticked : Moved validClients t .tick ⟨clientListThreadFunction t.state, t.phase, t.replied⟩

theorem sections_step : (sections validClients).step t label = some t' ↔ Moved validClients t label t' := by
  constructor
  · intro step
    cases label with
    | receive bytes =>
      simp only [sections] at step
      split at step
      · rename_i waiting
        split at step
        · rename_i head
          cases step
          exact .received waiting head
        · contradiction
      · contradiction
    | proceed host =>
      simp only [sections,proceed] at step
      split at step
      · contradiction
      · cases step
        exact .enlisted ‹_›
      · split at step
        · cases step
          exact .checked ‹_› (isInConnectedClients_iff.mp ‹_›)
        · cases step
          exact .missed ‹_› (mt isInConnectedClients_iff.mpr ‹_›)
      · cases step
        exact .renewed ‹_›
      · obtain ⟨s,composed,rfl⟩ := Option.map_eq_some_iff.mp step
        exact .answered ‹_› composed
    | tick =>
      cases step
      exact .ticked
  · intro moved
    cases moved with
    | received waiting head => simp [sections,waiting,head]
    | enlisted phase => simp [sections,proceed,phase]
    | checked phase connected => simp [sections,proceed,phase,isInConnectedClients_iff.mpr connected]
    | missed phase unknown => simp [sections,proceed,phase,isInConnectedClients_iff,unknown]
    | renewed phase => simp [sections,proceed,phase]
    | answered phase composed => simp [sections,proceed,phase,composed]
    | ticked => rfl

/-- The decoded sender is a NUL-free field, between receptions too. -/
def SenderClean (t : Split) : Prop := 0 ∉ t.state.clientMsg.senderId ∧ colon ∉ t.state.clientMsg.senderId

theorem moved_clean (moved : Moved validClients t label t') (clean : SenderClean t) : SenderClean t' := by
  cases moved with
  | received _ head => exact receive_sender head
  | enlisted =>
    unfold SenderClean enlist
    split <;> exact clean
  | checked => exact clean
  | missed => exact clean
  | renewed => exact clean
  | answered _ composed =>
    obtain ⟨_,_,rfl⟩ := compose_eq_some.mp composed
    exact clean
  | ticked =>
    unfold SenderClean
    rw [tick_clientMsg]
    exact clean

/-- No reception and no tick: the thread runs on alone. -/
def Alone (steps : List Label) : Prop := ∀ label ∈ steps, ∃ host, label = .proceed host

section Alone

variable {steps : List Label} {t : Split} {s r : State} {replied : Option ControllerMsgState}

theorem alone_cons : Alone (label :: steps) ↔ (∃ host, label = .proceed host) ∧ Alone steps := by
  simp [Alone]

theorem alone_idle (alone : Alone steps)
    (whole : (sections validClients).run ⟨s, .idle, replied⟩ steps = some t) : t = ⟨s, .idle, replied⟩ := by
  cases steps with
  | nil => exact (Option.some.inj whole).symm
  | cons label steps =>
    obtain ⟨⟨host,rfl⟩,_⟩ := alone_cons.mp alone
    obtain ⟨_,step,_⟩ := Machine.run_cons.mp whole
    cases sections_step.mp step <;> contradiction

/-- Nothing has changed when the first other step is taken. -/
theorem alone_until (alone : Alone front)
    (whole : (sections validClients).run ⟨s, .idle, replied⟩ (front ++ label :: rest) = some final) :
    ∃ t, (sections validClients).step ⟨s, .idle, replied⟩ label = some t ∧
      (sections validClients).run t rest = some final := by
  obtain ⟨there,first,later⟩ := Machine.run_append_eq_some.mp whole
  obtain rfl := alone_idle alone first
  exact Machine.run_cons.mp later

theorem alone_found (alone : Alone steps)
    (whole : (sections validClients).run ⟨r, .found, replied⟩ steps = some t) :
    t = ⟨r, .found, replied⟩ ∨ t = ⟨renew r, .idle, replied⟩ := by
  cases steps with
  | nil => exact .inl (Option.some.inj whole).symm
  | cons label steps =>
    obtain ⟨⟨host,rfl⟩,rest⟩ := alone_cons.mp alone
    obtain ⟨_,step,later⟩ := Machine.run_cons.mp whole
    cases sections_step.mp step with
    | renewed => exact .inr (alone_idle rest later)
    | _ => contradiction

theorem alone_answer (alone : Alone steps)
    (whole : (sections validClients).run ⟨r, .answer st, replied⟩ steps = some t) :
    t = ⟨r, .answer st, replied⟩ ∨ ∃ host s, compose host r st = some s ∧ t = ⟨s, .idle, some st⟩ := by
  cases steps with
  | nil => exact .inl (Option.some.inj whole).symm
  | cons label steps =>
    obtain ⟨⟨host,rfl⟩,rest⟩ := alone_cons.mp alone
    obtain ⟨_,step,later⟩ := Machine.run_cons.mp whole
    cases sections_step.mp step with
    | answered phase composed =>
      cases phase
      exact .inr ⟨host,_,composed,alone_idle rest later⟩
    | _ => contradiction

/-- The stages of an Alive. -/
theorem alone_alive (alone : Alone steps)
    (whole : (sections validClients).run ⟨r, .alive, replied⟩ steps = some t) :
    t = ⟨r, .alive, replied⟩ ∨
      r.clientMsg.senderId ∈ r.connectedClients ∧ (t = ⟨r, .found, replied⟩ ∨ t = ⟨renew r, .idle, replied⟩) ∨
      r.clientMsg.senderId ∉ r.connectedClients ∧ (t = ⟨r, .answer .rlsd, replied⟩ ∨
        ∃ host s, compose host r .rlsd = some s ∧ t = ⟨s, .idle, some .rlsd⟩) := by
  cases steps with
  | nil => exact .inl (Option.some.inj whole).symm
  | cons label steps =>
    obtain ⟨⟨host,rfl⟩,rest⟩ := alone_cons.mp alone
    obtain ⟨_,step,later⟩ := Machine.run_cons.mp whole
    cases sections_step.mp step with
    | checked _ connected => exact .inr (.inl ⟨connected,alone_found rest later⟩)
    | missed _ unknown => exact .inr (.inr ⟨unknown,alone_answer rest later⟩)
    | _ => contradiction

end Alone

/-- Left alone, the split loop does what the loop body does. -/
theorem loop_body_run (replied : Option ControllerMsgState)
    (handled : receiveThreadFunction validClients host s (.datagram bytes) = .next (s', answer)) :
    ∃ steps, Alone steps ∧
      (sections validClients).run ⟨s, .idle, replied⟩ (.receive bytes :: steps) = some ⟨s', .idle, answer⟩ := by
  obtain ⟨r,regularMsg,head,handled⟩ := receiveThreadFunction_next.mp handled
  have first : Moved validClients ⟨s, .idle, replied⟩ (.receive bytes) ⟨r, dispatch validClients r regularMsg, none⟩ :=
    .received rfl head
  have go : Alone [.proceed host] := by simp [Alone]
  have twice : Alone [.proceed host, .proceed host] := by simp [Alone]
  cases handled with
  | ignored other =>
    refine ⟨[],by simp [Alone],Machine.run_cons.mpr ⟨_,sections_step.mpr first,?_⟩⟩
    simp [dispatch,other]
  | admitted mine valid composed =>
    refine ⟨_,twice,Machine.run_cons.mpr ⟨_,sections_step.mpr first,?_⟩⟩
    simp [dispatch,mine,valid,Machine.run,sections,proceed,composed]
  | refused mine invalid composed =>
    refine ⟨_,go,Machine.run_cons.mpr ⟨_,sections_step.mpr first,?_⟩⟩
    simp [dispatch,mine,invalid,Machine.run,sections,proceed,composed]
  | renewed mine connected =>
    refine ⟨_,twice,Machine.run_cons.mpr ⟨_,sections_step.mpr first,?_⟩⟩
    simp [dispatch,mine,isInConnectedClients_iff.mpr connected,Machine.run,sections,proceed]
  | released mine unknown composed =>
    refine ⟨_,twice,Machine.run_cons.mpr ⟨_,sections_step.mpr first,?_⟩⟩
    simp [dispatch,mine,isInConnectedClients_iff,unknown,Machine.run,sections,proceed,composed]

/-- So every run over whole datagrams and ticks is one of the split loop. -/
theorem machine_run (replied : Option ControllerMsgState) (whole : (machine validClients).run s inputs = some final) :
    ∃ steps replied', (sections validClients).run ⟨s, .idle, replied⟩ steps = some ⟨final, .idle, replied'⟩ := by
  induction inputs generalizing s replied with
  | nil =>
    obtain rfl := Option.some.inj whole
    exact ⟨[],replied,rfl⟩
  | cons input rest ih =>
    obtain ⟨middle,first,later⟩ := Machine.run_cons.mp whole
    cases input with
    | tick =>
      obtain rfl := Option.some.inj first
      obtain ⟨steps,replied',run⟩ := ih replied later
      exact ⟨.tick :: steps,replied',Machine.run_cons.mpr ⟨_,sections_step.mpr .ticked,run⟩⟩
    | datagram host bytes =>
      obtain ⟨⟨s',answer⟩,handled,rfl⟩ := Option.map_eq_some_iff.mp first
      obtain ⟨steps,_,body⟩ := loop_body_run replied (Outcome.next?_eq_some.mp handled)
      obtain ⟨more,replied',run⟩ := ih answer later
      exact ⟨(.receive bytes :: steps) ++ more,replied',Machine.run_append_eq_some.mpr ⟨_,body,run⟩⟩

end SmartHospital.Controller
