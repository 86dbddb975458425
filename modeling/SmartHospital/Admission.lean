import SmartHospital.Sections

/-! Where the ids in the two lists come from. -/
namespace SmartHospital.Controller

variable {origin origin' : Bytes → Prop} {s : State} {t t' : Split} {label : Label}
  {entries : List (Bytes × Bytes)}

theorem isInList_load (entries : List (Bytes × Bytes)) (type attr : Bytes) :
    (ControllerClass.load entries).isInList type attr = true ↔ (type, attr) ∈ entries := by
  simp [ControllerClass.isInList,ControllerClass.load]

theorem exists_load (validClients : ControllerClass) : ∃ entries, ControllerClass.load entries = validClients := by
  refine ⟨validClients.clients.map fun c => (c.type, c.attr),?_⟩
  rw [ControllerClass.load,List.map_map]
  exact congrArg ControllerClass.mk (List.map_id validClients.clients)

/-- A datagram taken in as an announcement of `c`, of a kind the configuration lists. -/
def Admission (entries : List (Bytes × Bytes)) (c : Bytes) (t : Split) (label : Label) : Prop :=
  ∃ bytes r, label = .receive bytes ∧ receive t.state (.datagram bytes) = .next (r, true) ∧
    r.clientMsg.receiverId = controllerName ∧ r.clientMsg.senderId = c ∧
    (r.clientMsg.type, r.clientMsg.purpose) ∈ entries

/-- Every listed id has an origin, and so has an id on its way into a list. -/
structure Originated (origin : Bytes → Prop) (t : Split) : Prop where
  connected : ∀ c ∈ t.state.connectedClients, origin c
  fresh : ∀ c ∈ t.state.newConnectedClients, origin c
  pending : t.phase = .announced ∨ t.phase = .found → origin t.state.clientMsg.senderId

theorem enlist_origin (connected : ∀ c ∈ s.connectedClients, origin c) (fresh : ∀ c ∈ s.newConnectedClients, origin c)
    (sender : origin s.clientMsg.senderId) :
    (∀ c ∈ (enlist s).connectedClients, origin c) ∧ ∀ c ∈ (enlist s).newConnectedClients, origin c := by
  have alone := List.forall_mem_singleton.mpr sender
  unfold enlist
  split
  · exact ⟨List.forall_mem_append.mpr ⟨connected,alone⟩,fresh⟩
  · exact ⟨connected,List.forall_mem_append.mpr ⟨fresh,alone⟩⟩

theorem tick_origin (connected : ∀ c ∈ s.connectedClients, origin c) (fresh : ∀ c ∈ s.newConnectedClients, origin c) :
    (∀ c ∈ (clientListThreadFunction s).connectedClients, origin c) ∧
      ∀ c ∈ (clientListThreadFunction s).newConnectedClients, origin c := by
  cases first : s.firstStart with
  | true =>
    obtain ⟨_,after⟩ := tick_first first
    rw [after]
    exact ⟨connected,fresh⟩
  | false =>
    obtain ⟨_,after⟩ := tick_later first
    rw [after]
    exact ⟨fresh,fun _ none => absurd none List.not_mem_nil⟩

/-- A step moves ids between the lists or adds the one whose announcement it took in. -/
theorem moved_originated (moved : Moved (.load entries) t label t') (before : Originated origin t)
    (kept : ∀ c, origin c → origin' c) (new : ∀ c, Admission entries c t label → origin' c) :
    Originated origin' t' := by
  obtain ⟨connected,fresh,pending⟩ := before
  have connected' := fun c member => kept c (connected c member)
  have fresh' := fun c member => kept c (fresh c member)
  cases moved with
  | received waiting head =>
    obtain ⟨sameConnected,sameFresh,_,_⟩ := receive_lists head
    refine ⟨?_,?_,?_⟩
    · rw [sameConnected]
      exact connected'
    · rw [sameFresh]
      exact fresh'
    · rintro (announced | found)
      · obtain ⟨mine,rfl,valid⟩ := dispatch_announced.mp announced
        exact new _ ⟨_,_,rfl,head,mine,rfl,(isInList_load _ _ _).mp valid⟩
      · exact absurd found dispatch_ne_found
  | enlisted phase =>
    obtain ⟨current,next⟩ := enlist_origin connected' fresh' (kept _ (pending (.inl phase)))
    exact ⟨current,next,by simp⟩
  | checked phase member => exact ⟨connected',fresh',fun _ => connected' _ member⟩
  | missed phase unknown => exact ⟨connected',fresh',by simp⟩
  | renewed phase =>
    have sender := List.forall_mem_singleton.mpr (kept _ (pending (.inr phase)))
    exact ⟨connected',List.forall_mem_append.mpr ⟨fresh',sender⟩,by simp⟩
  | answered phase composed =>
    obtain ⟨_,_,rfl⟩ := compose_eq_some.mp composed
    exact ⟨connected',fresh',by simp⟩
  | ticked =>
    obtain ⟨current,next⟩ := tick_origin connected' fresh'
    exact ⟨current,next,fun phase => tick_clientMsg t.state ▸ kept _ (pending phase)⟩

/-- Whatever the configuration, the datagrams and the ticks, also between the two
sections of an Alive: an id is listed only if an announcement of it was admitted. -/
theorem listed_was_admitted (entries : List (Bytes × Bytes)) (past : List Label) (c : Bytes)
    (reached : (sections (.load entries)).run .start past = some t)
    (listed : c ∈ t.state.connectedClients ∨ c ∈ t.state.newConnectedClients) :
    (sections (.load entries)).Occurs (Admission entries c) .start past := by
  have invariant : Originated (fun c => (sections (.load entries)).Occurs (Admission entries c) .start past) t := by
    apply Machine.run_history
      (fun past t => Originated (fun c => (sections (.load entries)).Occurs (Admission entries c) .start past) t)
      _ _ reached
    · intro past t label t' before originated step
      apply moved_originated (sections_step.mp step) originated
      · intro c admitted
        exact admitted.append [label]
      · intro c admission
        exact Machine.occurs_last before admission
    · constructor <;> simp [Split.start,initial]
  rcases listed with member | member
  · exact invariant.connected c member
  · exact invariant.fresh c member

theorem door_was_admitted :
    (sections (.load [(Bytes.ofString "sensor", Bytes.ofString "door")])).Occurs
      (Admission [(Bytes.ofString "sensor", Bytes.ofString "door")] doorId) .start
      [.receive doorRequest, .proceed doorHost, .proceed doorHost, .receive doorAlive, .proceed doorHost, .tick,
        .proceed doorHost] := by
  apply listed_was_admitted _ _ _ rfl
  exact .inr (by decide)

end SmartHospital.Controller
