import Mathlib.Data.List.Perm.Basic
import Mathlib.Data.Multiset.Basic
import SmartHospital.Sections

/-! The hand-off of replies. A sender gets a pointer to the receive buffer and copies
the reply out of it later, while the receive loop goes on with the same buffer. -/
namespace SmartHospital.Controller

structure HandOff where
  split : Split
  /-- The reply composed for each sender that has not copied it yet. -/
  pending : List Bytes
  composed : List Bytes
  /-- For each finished sender, its reply and the datagram it sent. -/
  sent : List (Bytes × Bytes)

inductive Action where
  | loop (label : Label)
  | send (i : Nat)
  deriving DecidableEq

/-- The reply a step composes: the text and its terminator. -/
def composedReply (t : Split) : Label → Option Bytes
  | .proceed host =>
    match t.phase with
    | .answer state =>
      some (replyText (upToNul host) t.state.keepAlive t.state.clientMsg.senderId state ++ [0])
    | _ => none
  | _ => none

def HandOff.record (h : HandOff) (split : Split) : Option Bytes → HandOff
  | some reply => { h with split := split, pending := h.pending ++ [reply], composed := h.composed ++ [reply] }
  | none => { h with split := split }

def HandOff.buffer (h : HandOff) : CArray buffLen := h.split.state.buffer

def handOff (validClients : ControllerClass) : Machine HandOff Action where
  step h
    | .loop label => ((sections validClients).step h.split label).map fun split =>
      h.record split (composedReply h.split label)
    | .send i => do
      let reply ← h.pending[i]?
      let bytes ← sendThreadFunction h.buffer
      some { h with pending := h.pending.eraseIdx i, sent := h.sent ++ [(reply, bytes)] }

def HandOff.start : HandOff := ⟨.start, [], [], []⟩

/-- Each finished sender has sent its own reply, and no reply was sent more often than composed. -/
structure Faithful (h : HandOff) : Prop where
  own : ∀ s ∈ h.sent, s.2 = s.1
  contained : (h.sent.map Prod.snd : Multiset Bytes) ≤ h.composed

/-- Steps that take the reply from a sender that has not copied it yet: a datagram that
overwrites it, another reply in its place, and a reply too long for its length byte. -/
def Disturbs (h : HandOff) : Action → Prop
  | .loop (.receive bytes) =>
    h.pending ≠ [] ∧ sendThreadFunction (h.buffer.load bytes) ≠ sendThreadFunction h.buffer
  | .loop label =>
    ∃ reply, composedReply h.split label = some reply ∧ (255 < reply.length ∨ ∃ other ∈ h.pending, other ≠ reply)
  | .send _ => False

variable {validClients : ControllerClass} {h h' : HandOff} {action : Action} {actions : List Action}

/-- Every sender still finds its reply in the buffer. -/
def Intact (h : HandOff) : Prop := ∀ reply ∈ h.pending, sendThreadFunction h.buffer = some reply

/-- Every reply composed is with a sender, finished or not. -/
def Accounted (h : HandOff) : Prop := (h.sent.map Prod.fst ++ h.pending).Perm h.composed

@[simp] theorem record_buffer (h : HandOff) (split : Split) (made : Option Bytes) :
    (h.record split made).buffer = split.state.buffer := by
  cases made <;> rfl

/-- What a step of the loop does to the buffer: it loads a datagram, leaves the buffer
as it is, or composes a reply in it for a new sender. -/
theorem loop_effect (moved : Moved validClients t label t') :
    (∃ bytes, label = .receive bytes ∧ composedReply t label = none ∧ t'.state.buffer = t.state.buffer.load bytes) ∨
    ((∀ bytes, label ≠ .receive bytes) ∧ composedReply t label = none ∧ t'.state.buffer = t.state.buffer) ∨
    ∃ host st, label = .proceed host ∧ compose host t.state st = some t'.state ∧ composedReply t label =
      some (replyText (upToNul host) t.state.keepAlive t.state.clientMsg.senderId st ++ [0]) := by
  cases moved with
  | received waiting head =>
    obtain ⟨_,_,_,rfl⟩ := receive_next head
    exact .inl ⟨_,rfl,rfl,rfl⟩
  | enlisted phase => exact .inr (.inl ⟨by simp,by simp [composedReply,phase],(enlist_keeps _).2.2⟩)
  | checked phase => exact .inr (.inl ⟨by simp,by simp [composedReply,phase],rfl⟩)
  | missed phase => exact .inr (.inl ⟨by simp,by simp [composedReply,phase],rfl⟩)
  | renewed phase => exact .inr (.inl ⟨by simp,by simp [composedReply,phase],rfl⟩)
  | answered phase composed => exact .inr (.inr ⟨_,_,rfl,composed,by simp [composedReply,phase]⟩)
  | ticked => exact .inr (.inl ⟨by simp,rfl,tick_buffer _⟩)

theorem loop_step (step : (handOff validClients).step h (.loop label) = some h') :
    ∃ split, Moved validClients h.split label split ∧ h' = h.record split (composedReply h.split label) := by
  obtain ⟨split,moved,rfl⟩ := Option.map_eq_some_iff.mp step
  exact ⟨split,sections_step.mp moved,rfl⟩

theorem send_step : (handOff validClients).step h (.send i) = some h' ↔
    ∃ reply bytes, h.pending[i]? = some reply ∧ sendThreadFunction h.buffer = some bytes ∧
      h' = { h with pending := h.pending.eraseIdx i, sent := h.sent ++ [(reply, bytes)] } := by
  simp only [handOff,Option.bind_eq_bind,Option.bind_eq_some_iff,Option.some.injEq]
  constructor
  · rintro ⟨reply,found,bytes,copied,rfl⟩
    exact ⟨reply,bytes,found,copied,rfl⟩
  · rintro ⟨reply,bytes,found,copied,rfl⟩
    exact ⟨reply,found,bytes,copied,rfl⟩

theorem intact_step (clean : SenderClean h.split) (intact : Intact h) (quiet : ¬ Disturbs h action)
    (step : (handOff validClients).step h action = some h') : Intact h' := by
  cases action with
  | send i =>
    obtain ⟨reply,bytes,_,_,rfl⟩ := send_step.mp step
    intro other member
    exact intact other (List.mem_of_mem_eraseIdx member)
  | loop label =>
    obtain ⟨split,moved,rfl⟩ := loop_step step
    rcases loop_effect moved with ⟨bytes,rfl,none,loaded⟩ | ⟨other,none,same⟩ | ⟨host,st,rfl,composed,made⟩
    · rw [none]
      intro reply member
      have busy : h.pending ≠ [] := List.ne_nil_of_mem member
      have same : sendThreadFunction (h.buffer.load bytes) = sendThreadFunction h.buffer := by
        by_contra changed
        exact quiet ⟨busy,changed⟩
      have found := intact reply member
      rw [record_buffer,loaded]
      exact same.trans found
    · rw [none]
      intro reply member
      rw [record_buffer,same]
      exact intact reply member
    · rw [made]
      simp only [Disturbs,made,Option.some.injEq,exists_eq_left',not_or,not_lt,not_exists,not_and,not_not] at quiet
      obtain ⟨fits,alike⟩ := quiet
      have holds := compose_intact clean.1 composed fits
      refine List.forall_mem_append.mpr ⟨?_,List.forall_mem_singleton.mpr holds⟩
      intro reply member
      exact alike reply member ▸ holds

/-- A disturbing step leaves a sender that will send something else. -/
theorem disturbed (intact : Intact h) (disturbs : Disturbs h action)
    (step : (handOff validClients).step h action = some h') : ¬ Intact h' := by
  intro still
  cases action with
  | send i => exact disturbs
  | loop label =>
    obtain ⟨split,moved,rfl⟩ := loop_step step
    rcases loop_effect moved with ⟨bytes,rfl,none,loaded⟩ | ⟨other,none,same⟩ | ⟨host,st,rfl,composed,made⟩
    · obtain ⟨busy,changed⟩ := disturbs
      obtain ⟨reply,member⟩ := List.exists_mem_of_ne_nil _ busy
      rw [none] at still
      have after := still reply member
      rw [record_buffer,loaded] at after
      exact changed (after.trans (intact reply member).symm)
    · cases label with
      | receive bytes => exact other bytes rfl
      | _ => simp [Disturbs,none] at disturbs
    · rw [made] at still
      simp only [Disturbs,made,Option.some.injEq,exists_eq_left'] at disturbs
      have mine := still _ (List.mem_append_right h.pending (List.mem_singleton_self _))
      rcases disturbs with long | ⟨other,member,different⟩
      · exact absurd (sendThreadFunction_length mine) (Nat.not_le.mpr long)
      · have theirs := still other (List.mem_append_left _ member)
        exact different (Option.some.inj (theirs.symm.trans mine))

theorem accounted_step (accounted : Accounted h) (step : (handOff validClients).step h action = some h') :
    Accounted h' := by
  cases action with
  | send i =>
    obtain ⟨reply,bytes,found,_,rfl⟩ := send_step.mp step
    obtain ⟨bound,rfl⟩ := List.getElem?_eq_some_iff.mp found
    refine List.Perm.trans ?_ accounted
    simp only [List.map_append,List.map_cons,List.map_nil,List.append_assoc,List.singleton_append]
    exact (List.getElem_cons_eraseIdx_perm bound).append_left _
  | loop label =>
    obtain ⟨split,_,rfl⟩ := loop_step step
    cases composedReply h.split label with
    | none => exact accounted
    | some reply =>
      simp only [Accounted,HandOff.record]
      rw [← List.append_assoc]
      exact accounted.append_right [reply]

theorem own_step (intact : Intact h) (own : ∀ s ∈ h.sent, s.2 = s.1)
    (step : (handOff validClients).step h action = some h') : ∀ s ∈ h'.sent, s.2 = s.1 := by
  cases action with
  | send i =>
    obtain ⟨reply,bytes,found,copied,rfl⟩ := send_step.mp step
    have mine := intact reply (List.mem_of_getElem? found)
    have faithful : bytes = reply := Option.some.inj (copied.symm.trans mine)
    exact List.forall_mem_append.mpr ⟨own,List.forall_mem_singleton.mpr faithful⟩
  | loop label =>
    obtain ⟨split,_,rfl⟩ := loop_step step
    cases composedReply h.split label <;> exact own

theorem faithful_of_own (own : ∀ s ∈ h.sent, s.2 = s.1) (accounted : Accounted h) : Faithful h := by
  refine ⟨own,?_⟩
  have same : h.sent.map Prod.snd = h.sent.map Prod.fst := List.map_congr_left own
  rw [same,Multiset.coe_le]
  exact (List.sublist_append_left _ h.pending).subperm.trans accounted.subperm

theorem clean_step (clean : SenderClean h.split) (step : (handOff validClients).step h action = some h') :
    SenderClean h'.split := by
  cases action with
  | send i =>
    obtain ⟨_,_,_,_,rfl⟩ := send_step.mp step
    exact clean
  | loop label =>
    obtain ⟨split,moved,rfl⟩ := loop_step step
    cases composedReply h.split label <;> exact moved_clean moved clean

theorem run_clean (reached : (handOff validClients).run .start actions = some h) : SenderClean h.split := by
  apply Machine.run_invariant (SenderClean ·.split) _ reached
  · constructor <;> exact List.not_mem_nil
  · intro h action h' clean step
    exact clean_step clean step

/-- Without a disturbing step, senders find and send their replies. -/
theorem undisturbed_run (reached : (handOff validClients).run .start actions = some h)
    (quiet : ¬ (handOff validClients).Occurs Disturbs .start actions) : Intact h ∧ Faithful h := by
  have invariant : Intact h ∧ Accounted h ∧ ∀ s ∈ h.sent, s.2 = s.1 := by
    apply Machine.run_avoiding (fun h => Intact h ∧ Accounted h ∧ ∀ s ∈ h.sent, s.2 = s.1) _ _ reached quiet
    · rintro past h action h' before ⟨intact,accounted,own⟩ calm step
      exact ⟨intact_step (run_clean before) intact calm step,accounted_step accounted step,own_step intact own step⟩
    · simp [Intact,Accounted,HandOff.start]
  obtain ⟨intact,accounted,own⟩ := invariant
  exact ⟨intact,faithful_of_own own accounted⟩

/-- If senders that copy at once are always faithful, they always find their replies. -/
theorem intact_of_faithful (reached : (handOff validClients).run .start actions = some h)
    (faithful : ∀ i h', (handOff validClients).run .start (actions ++ [.send i]) = some h' → Faithful h') :
    Intact h := by
  intro reply member
  obtain ⟨i,found⟩ := List.mem_iff_getElem?.mp member
  obtain ⟨bytes,copied⟩ := sendThreadFunction_isSome h.buffer
  have step : (handOff validClients).step h (.send i) = some _ := send_step.mpr ⟨reply,bytes,found,copied,rfl⟩
  have sent := faithful i _ (Machine.run_snoc.mpr ⟨h,reached,step⟩)
  have same := sent.own (reply, bytes) (List.mem_append_right _ (List.mem_singleton_self _))
  rw [copied]
  exact congrArg some same

/-- In every state a run passes through, and however its senders go on to copy from
there, each reply is sent by its own sender and unchanged, exactly when no step of the
run disturbs a sender. -/
theorem hand_off_iff (reached : (handOff validClients).run .start actions = some h) :
    (∀ (front back : List Action) (sends : List Nat) (h' : HandOff), actions = front ++ back →
      (handOff validClients).run .start (front ++ sends.map .send) = some h' → Faithful h') ↔
      ¬ (handOff validClients).Occurs Disturbs .start actions := by
  constructor
  · intro faithful happens
    obtain ⟨before,action,after,g,next,rfl,early,disturbs,step,late⟩ := happens.around reached
    have intact : ∀ front back g, before ++ action :: after = front ++ back →
        (handOff validClients).run .start front = some g → Intact g := by
      intro front back g eq there
      apply intact_of_faithful there
      intro i h' sent
      exact faithful front back [i] h' eq sent
    exact disturbed (intact before _ g rfl early) disturbs step (intact _ after next (by simp) late)
  · rintro quiet front back sends h' rfl whole
    obtain ⟨g,there,copying⟩ := Machine.run_append_eq_some.mp whole
    apply (undisturbed_run whole _).2
    rw [Machine.occurs_append there]
    rintro (early | ⟨_,action,_,_,eq,_,disturbs⟩)
    · exact quiet (early.append back)
    · have member : action ∈ sends.map Action.send := eq ▸ List.mem_append_right _ (List.mem_cons_self ..)
      obtain ⟨i,_,rfl⟩ := List.mem_map.mp member
      exact disturbs

/-- One request on a quiet network, up to the creation of its sender. -/
theorem quiet_hand_off :
    let actions : List Action := [.loop (.receive doorRequest), .loop (.proceed doorHost), .loop (.proceed doorHost)]
    ∃ h, (handOff doorSensors).run .start actions = some h ∧ h.pending.length = 1 ∧
      ∀ (front back : List Action) (sends : List Nat) (h' : HandOff), actions = front ++ back →
        (handOff doorSensors).run .start (front ++ sends.map .send) = some h' → Faithful h' := by
  refine ⟨_,rfl,rfl,(hand_off_iff rfl).mpr ?_⟩
  rw [Machine.occurs_cons rfl,Machine.occurs_cons rfl,Machine.occurs_cons rfl]
  rintro (⟨busy,_⟩ | ⟨reply,none,_⟩ | ⟨reply,made,long | ⟨other,member,_⟩⟩ | none)
  · exact busy rfl
  · contradiction
  · cases made
    revert long
    decide
  · contradiction
  · exact Machine.not_occurs_nil _ none

/-- A datagram that arrives before the sender has copied its reply is sent in its place. -/
theorem reply_replaced : ∃ h, (handOff doorSensors).run .start
    [.loop (.receive doorRequest), .loop (.proceed doorHost), .loop (.proceed doorHost),
      .loop (.receive doorAlive), .send 0] = some h ∧ ¬ Faithful h := by
  refine ⟨_,rfl,?_⟩
  intro faithful
  have same := faithful.own _ (List.mem_singleton_self _)
  revert same
  decide

end SmartHospital.Controller
