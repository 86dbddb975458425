import Mathlib.Data.Finset.Card
import SmartHospital.Membership

/-! The number of entries in the connected list, which is to be a number of clients, and
the interval that the tick derives from it. -/
namespace SmartHospital.Controller

/-- What one step does to the lists. -/
inductive Entered (validClients : ControllerClass) (s : State) : Input → State → Prop where
  | early (announces : Announces validClients c s bytes) (starting : s.firstStart = true)
      (connected : s'.connectedClients = s.connectedClients ++ [c])
      (fresh : s'.newConnectedClients = s.newConnectedClients) : Entered validClients s (.datagram host bytes) s'
  | late (announces : Announces validClients c s bytes) (started : s.firstStart = false)
      (connected : s'.connectedClients = s.connectedClients)
      (fresh : s'.newConnectedClients = s.newConnectedClients ++ [c]) : Entered validClients s (.datagram host bytes) s'
  | renewed (alive : AliveFrom c s bytes) (member : c ∈ s.connectedClients)
      (connected : s'.connectedClients = s.connectedClients)
      (fresh : s'.newConnectedClients = s.newConnectedClients ++ [c]) : Entered validClients s (.datagram host bytes) s'
  | kept (silent : ∀ c, ¬ Announces validClients c s bytes ∧ ¬ (AliveFrom c s bytes ∧ c ∈ s.connectedClients))
      (connected : s'.connectedClients = s.connectedClients)
      (fresh : s'.newConnectedClients = s.newConnectedClients) : Entered validClients s (.datagram host bytes) s'
  | ticked : Entered validClients s .tick (clientListThreadFunction s)

variable {validClients : ControllerClass} {c bytes : Bytes} {s s' : State} {input : Input} {inputs before : List Input}

theorem handled_entered (head : receive s (.datagram bytes) = .next (r, regularMsg))
    (handled : Handled validClients host r regularMsg s' answer) :
    Entered validClients s (.datagram host bytes) s' := by
  obtain ⟨connected,fresh,first,_⟩ := receive_lists head
  have only : ∀ c v regular, receive s (.datagram bytes) = .next (v, regular) → v.clientMsg.senderId = c →
      v = r ∧ regular = regularMsg := by
    intro c v regular other _
    cases head.symm.trans other
    exact ⟨rfl,rfl⟩
  cases handled with
  | ignored stranger =>
    refine .kept ?_ connected fresh
    intro c
    constructor
    · rintro ⟨v,other,mine,_,sender⟩
      obtain ⟨rfl,_⟩ := only c v _ other sender
      exact stranger mine
    · rintro ⟨⟨v,other,mine,sender⟩,_⟩
      obtain ⟨rfl,_⟩ := only c v _ other sender
      exact stranger mine
  | admitted mine valid composed =>
    obtain ⟨_,_,rfl⟩ := compose_eq_some.mp composed
    have announces : Announces validClients r.clientMsg.senderId s bytes := ⟨r,head,mine,valid,rfl⟩
    cases starting : s.firstStart with
    | true =>
      refine .early announces starting ?_ ?_
      · simp [enlist,first,starting,connected]
      · simp [enlist,first,starting,fresh]
    | false =>
      refine .late announces starting ?_ ?_
      · simp [enlist,first,starting,connected]
      · simp [enlist,first,starting,fresh]
  | refused mine invalid composed =>
    obtain ⟨_,_,rfl⟩ := compose_eq_some.mp composed
    refine .kept ?_ connected fresh
    intro c
    constructor
    · rintro ⟨v,other,_,valid,sender⟩
      obtain ⟨rfl,_⟩ := only c v _ other sender
      exact absurd valid (Bool.eq_false_iff.mp invalid)
    · rintro ⟨⟨v,other,_,sender⟩,_⟩
      obtain ⟨_,regular⟩ := only c v _ other sender
      contradiction
  | renewed mine member =>
    refine .renewed ⟨r,head,mine,rfl⟩ (connected ▸ member) connected ?_
    rw [renew,fresh]
  | released mine unknown composed =>
    obtain ⟨_,_,rfl⟩ := compose_eq_some.mp composed
    refine .kept ?_ connected fresh
    intro c
    constructor
    · rintro ⟨v,other,_,_,sender⟩
      obtain ⟨_,regular⟩ := only c v _ other sender
      contradiction
    · rintro ⟨⟨v,other,_,sender⟩,member⟩
      obtain ⟨rfl,_⟩ := only c v _ other sender
      rw [connected,sender] at unknown
      exact unknown member

theorem step_entered (step : (machine validClients).step s input = some s') : Entered validClients s input s' := by
  cases input with
  | tick =>
    obtain rfl := Option.some.inj step
    exact .ticked
  | datagram host bytes =>
    obtain ⟨answer,handled⟩ := machine_datagram.mp step
    obtain ⟨r,regularMsg,head,handled⟩ := receiveThreadFunction_next.mp handled
    exact handled_entered head handled

/-- Only an admitted announcement brings an id that was in neither list. -/
theorem entered_origin (entered : Entered validClients s input s')
    (member : c ∈ s'.connectedClients ∨ c ∈ s'.newConnectedClients) :
    (c ∈ s.connectedClients ∨ c ∈ s.newConnectedClients) ∨
      ∃ host bytes, input = .datagram host bytes ∧ Announces validClients c s bytes := by
  cases entered with
  | early announces starting connected fresh =>
    rw [connected,fresh,List.mem_append,List.mem_singleton] at member
    rcases member with (old | rfl) | old
    · exact .inl (.inl old)
    · exact .inr ⟨_,_,rfl,announces⟩
    · exact .inl (.inr old)
  | late announces started connected fresh =>
    rw [connected,fresh,List.mem_append,List.mem_singleton] at member
    rcases member with old | old | rfl
    · exact .inl (.inl old)
    · exact .inl (.inr old)
    · exact .inr ⟨_,_,rfl,announces⟩
  | renewed alive known connected fresh =>
    rw [connected,fresh,List.mem_append,List.mem_singleton] at member
    rcases member with old | old | rfl
    · exact .inl (.inl old)
    · exact .inl (.inr old)
    · exact .inl (.inl known)
  | kept silent connected fresh =>
    rw [connected,fresh] at member
    exact .inl member
  | ticked =>
    rw [(tick_lists s).1,(tick_lists s).2] at member
    split at member
    · exact .inl member
    · rcases member with old | none
      · exact .inl (.inr old)
      · contradiction

/-- The datagram brings an id to a list that holds it already. -/
def Repeats (validClients : ControllerClass) (s : State) (input : Input) : Prop :=
  ∃ c host bytes, input = .datagram host bytes ∧
    (Announces validClients c s bytes ∧ s.firstStart = true ∧ c ∈ s.connectedClients ∨
      Announces validClients c s bytes ∧ s.firstStart = false ∧ c ∈ s.newConnectedClients ∨
      AliveFrom c s bytes ∧ c ∈ s.connectedClients ∧ c ∈ s.newConnectedClients)

/-- Neither list holds an id twice. -/
def Distinct (s : State) : Prop := s.connectedClients.Nodup ∧ s.newConnectedClients.Nodup

theorem nodup_snoc {l : List Bytes} : (l ++ [c]).Nodup ↔ l.Nodup ∧ c ∉ l := by
  rw [← List.concat_eq_append,List.nodup_concat,and_comm]

theorem tick_distinct (distinct : Distinct s) : Distinct (clientListThreadFunction s) := by
  rw [Distinct,(tick_lists s).1,(tick_lists s).2]
  split
  · exact distinct
  · exact ⟨distinct.2,List.nodup_nil⟩

theorem distinct_step (distinct : Distinct s) (once : ¬ Repeats validClients s input)
    (step : (machine validClients).step s input = some s') : Distinct s' := by
  cases step_entered step with
  | early announces starting connected fresh =>
    rw [Distinct,connected,fresh,nodup_snoc]
    exact ⟨⟨distinct.1,fun member => once ⟨_,_,_,rfl,.inl ⟨announces,starting,member⟩⟩⟩,distinct.2⟩
  | late announces started connected fresh =>
    rw [Distinct,connected,fresh,nodup_snoc]
    exact ⟨distinct.1,distinct.2,fun member => once ⟨_,_,_,rfl,.inr (.inl ⟨announces,started,member⟩)⟩⟩
  | renewed alive member connected fresh =>
    rw [Distinct,connected,fresh,nodup_snoc]
    exact ⟨distinct.1,distinct.2,fun listed => once ⟨_,_,_,rfl,.inr (.inr ⟨alive,member,listed⟩)⟩⟩
  | kept silent connected fresh =>
    rw [Distinct,connected,fresh]
    exact distinct
  | ticked => exact tick_distinct distinct

theorem announces_unique (one : Announces validClients c s bytes) (other : Announces validClients d s bytes) :
    c = d := by
  obtain ⟨r,head,_,_,rfl⟩ := one
  obtain ⟨v,again,_,_,rfl⟩ := other
  cases head.symm.trans again
  rfl

theorem alive_unique (one : AliveFrom c s bytes) (other : AliveFrom d s bytes) : c = d := by
  obtain ⟨r,head,_,rfl⟩ := one
  obtain ⟨v,again,_,rfl⟩ := other
  cases head.symm.trans again
  rfl

theorem announces_not_alive (one : Announces validClients c s bytes) (other : AliveFrom d s bytes) : False := by
  obtain ⟨r,head,_⟩ := one
  obtain ⟨v,again,_⟩ := other
  cases head.symm.trans again

/-- A repetition is seen in the list at once. -/
theorem repeats_step (repeats : Repeats validClients s input) (step : (machine validClients).step s input = some s') :
    ¬ Distinct s' := by
  obtain ⟨c,host,bytes,rfl,again⟩ := repeats
  rintro ⟨current,next⟩
  cases step_entered step with
  | early announces starting connected fresh =>
    rw [connected,nodup_snoc] at current
    rcases again with ⟨announced,_,member⟩ | ⟨_,started,_⟩ | ⟨alive,_⟩
    · exact current.2 (announces_unique announced announces ▸ member)
    · exact absurd starting (Bool.eq_false_iff.mp started)
    · exact announces_not_alive announces alive
  | late announces started connected fresh =>
    rw [fresh,nodup_snoc] at next
    rcases again with ⟨_,starting,_⟩ | ⟨announced,_,member⟩ | ⟨alive,_⟩
    · exact absurd starting (Bool.eq_false_iff.mp started)
    · exact next.2 (announces_unique announced announces ▸ member)
    · exact announces_not_alive announces alive
  | renewed alive listed connected fresh =>
    rw [fresh,nodup_snoc] at next
    rcases again with ⟨announced,_⟩ | ⟨announced,_⟩ | ⟨repeated,_,member⟩
    · exact announces_not_alive announced alive
    · exact announces_not_alive announced alive
    · exact next.2 (alive_unique repeated alive ▸ member)
  | kept silent connected fresh =>
    rcases again with ⟨announced,_⟩ | ⟨announced,_⟩ | ⟨alive,member,_⟩
    · exact (silent c).1 announced
    · exact (silent c).1 announced
    · exact (silent c).2 ⟨alive,member⟩

theorem run_distinct (reached : (machine validClients).run initial inputs = some s)
    (once : ¬ (machine validClients).Occurs (Repeats validClients) initial inputs) : Distinct s := by
  apply Machine.run_avoiding Distinct _ _ reached once
  · exact fun _ _ _ _ _ => distinct_step
  · exact ⟨List.nodup_nil,List.nodup_nil⟩

/-- Two ticks bring a repetition in either list to the connected one. -/
theorem ticks_show (validClients : ControllerClass) (repeated : ¬ Distinct s) : ∃ ticks t,
    (machine validClients).run s (List.replicate ticks .tick) = some t ∧ ¬ t.connectedClients.Nodup := by
  by_cases current : s.connectedClients.Nodup
  · have next : ¬ s.newConnectedClients.Nodup := fun next => repeated ⟨current,next⟩
    cases first : s.firstStart with
    | true =>
      refine ⟨2,_,rfl,?_⟩
      obtain ⟨_,after⟩ := tick_first first
      rw [(tick_lists _).1,after]
      exact next
    | false =>
      refine ⟨1,_,rfl,?_⟩
      rw [(tick_lists s).1,first]
      exact next
  · exact ⟨0,s,rfl,current⟩

/-- The size that is compared with `KA_EDGE` counts clients. -/
def CountsClients (s : State) : Prop :=
  s.connectedClients.Nodup ∧ s.connectedClients.length = s.connectedClients.toFinset.card

theorem countsClients_iff : CountsClients s ↔ s.connectedClients.Nodup := by
  constructor
  · exact And.left
  · intro distinct
    exact ⟨distinct,(List.toFinset_card_of_nodup distinct).symm⟩

/-- In every state that a run passes through, and behind any further ticks, the
connected list counts clients exactly if no datagram of the run brings an id to a list
that holds it already. -/
theorem client_count_iff (reached : (machine validClients).run initial inputs = some s) :
    (∀ front back ticks t, inputs = front ++ back →
      (machine validClients).run initial (front ++ List.replicate ticks .tick) = some t → CountsClients t) ↔
      ¬ (machine validClients).Occurs (Repeats validClients) initial inputs := by
  simp only [countsClients_iff]
  constructor
  · intro counts happens
    obtain ⟨past,input,after,u,next,rfl,_,repeats,step,late⟩ := happens.around reached
    obtain ⟨ticks,t,ticking,repeated⟩ := ticks_show validClients (repeats_step repeats step)
    have whole := Machine.run_append_eq_some.mpr ⟨next,late,ticking⟩
    exact repeated (counts (past ++ [input]) after ticks t (by simp) whole)
  · rintro once front back ticks t rfl whole
    apply (run_distinct whole _).1
    obtain ⟨u,there,_⟩ := Machine.run_append_eq_some.mp whole
    rw [Machine.occurs_append there]
    rintro (early | ⟨_,input,_,_,eq,_,repeats⟩)
    · exact once (early.append back)
    · obtain ⟨_,_,_,datagram,_⟩ := repeats
      have member : input ∈ List.replicate ticks Input.tick := eq ▸ List.mem_append_right _ (List.mem_cons_self ..)
      rw [List.eq_of_mem_replicate member] at datagram
      contradiction

theorem one_announcement_counts : ∃ s,
    (machine doorSensors).run initial [.datagram doorHost doorRequest] = some s ∧
      ∀ front back ticks t, [Input.datagram doorHost doorRequest] = front ++ back →
        (machine doorSensors).run initial (front ++ List.replicate ticks .tick) = some t → CountsClients t := by
  refine ⟨_,rfl,(client_count_iff rfl).mpr ?_⟩
  rw [Machine.occurs_cons rfl,not_or]
  refine ⟨?_,Machine.not_occurs_nil _⟩
  rintro ⟨_,_,_,_,⟨_,_,member⟩ | ⟨_,_,member⟩ | ⟨_,member,_⟩⟩
  all_goals exact List.not_mem_nil member

/-- A client that announces itself again before its OK arrives is entered twice. -/
theorem repeated_announcement : ∃ s,
    (machine doorSensors).run initial [.datagram doorHost doorRequest, .datagram doorHost doorRequest] = some s ∧
      s.connectedClients = [doorId, doorId] ∧ ¬ CountsClients s := by
  refine ⟨_,rfl,rfl,?_⟩
  rintro ⟨distinct,_⟩
  exact absurd distinct (by decide)

/-- The interval meant for this many clients, in exact arithmetic: twenty percent more
under load. -/
def adapted (clients : Nat) : Int :=
  if clients > kaEdge then kaBase + kaBase * 20 / 100 else kaBase

/-- A hundredth of the base interval is zero, so that the tick never scales it. -/
theorem tick_keepAlive (s : State) : (clientListThreadFunction s).keepAlive = kaBase := by
  have scaled : kaBase + kaBase / 100 * 20 = kaBase := rfl
  obtain ⟨_,_,_,_,first,_⟩ := s
  unfold clientListThreadFunction
  rw [scaled]
  cases first <;> simp only [Bool.false_eq_true,if_true,if_false] <;> split <;> rfl

/-- Only a tick sets the interval, ends the start phase, or takes the new list over. -/
theorem datagram_keeps (handled : receiveThreadFunction validClients host s (.datagram bytes) = .next (s', answer)) :
    s'.keepAlive = s.keepAlive ∧ s'.firstStart = s.firstStart ∧
      (s.firstStart = false → s'.connectedClients = s.connectedClients) := by
  obtain ⟨r,regularMsg,head,handled⟩ := receiveThreadFunction_next.mp handled
  obtain ⟨connected,_,first,keepAlive⟩ := receive_lists head
  rw [← connected,← first,← keepAlive]
  cases handled with
  | ignored => exact ⟨rfl,rfl,fun _ => rfl⟩
  | admitted mine valid composed =>
    obtain ⟨_,_,rfl⟩ := compose_eq_some.mp composed
    unfold enlist
    split
    · rename_i starting
      exact ⟨rfl,rfl,fun started => absurd starting (Bool.eq_false_iff.mp started)⟩
    · exact ⟨rfl,rfl,fun _ => rfl⟩
  | refused mine invalid composed =>
    obtain ⟨_,_,rfl⟩ := compose_eq_some.mp composed
    exact ⟨rfl,rfl,fun _ => rfl⟩
  | renewed => exact ⟨rfl,rfl,fun _ => rfl⟩
  | released mine unknown composed =>
    obtain ⟨_,_,rfl⟩ := compose_eq_some.mp composed
    exact ⟨rfl,rfl,fun _ => rfl⟩

theorem step_keepAlive (same : s.keepAlive = kaBase) (step : (machine validClients).step s input = some s') :
    s'.keepAlive = kaBase := by
  cases input with
  | tick =>
    obtain rfl := Option.some.inj step
    exact tick_keepAlive s
  | datagram host bytes =>
    obtain ⟨answer,handled⟩ := machine_datagram.mp step
    exact (datagram_keeps handled).1.trans same

theorem run_keepAlive (reached : (machine validClients).run initial inputs = some s) : s.keepAlive = kaBase := by
  apply Machine.run_invariant (·.keepAlive = kaBase) _ reached
  · rfl
  · exact fun _ _ _ same step => step_keepAlive same step

/-- An OK carries the interval of the state it is composed in. -/
theorem granted_interval
    (granted : receiveThreadFunction validClients host s (.datagram bytes) = .next (s', some .ok)) :
    makeMessage host s.keepAlive s'.clientMsg.senderId .ok = some s'.buffer := by
  obtain ⟨r,regularMsg,head,_⟩ := receiveThreadFunction_next.mp granted
  obtain ⟨made,same⟩ := reply_composed head granted
  rw [same]
  exact made

/-- The list that the next tick leaves as the connected one. -/
def coming (s : State) : List Bytes := if s.firstStart = true then s.connectedClients else s.newConnectedClients

/-- Behind any tick, the interval is the one meant for the number of entries, and every
OK up to the next tick carries it, exactly if there are at most `KA_EDGE` entries to come. -/
theorem load_adapted_iff (reached : (machine validClients).run initial before = some s) :
    ((clientListThreadFunction s).keepAlive = adapted (clientListThreadFunction s).connectedClients.length ∧
      ∀ later t host bytes t', .tick ∉ later → (machine validClients).run (clientListThreadFunction s) later = some t →
        receiveThreadFunction validClients host t (.datagram bytes) = .next (t', some .ok) →
        makeMessage host (adapted (clientListThreadFunction s).connectedClients.length) t'.clientMsg.senderId .ok =
          some t'.buffer) ↔
      (coming s).length ≤ kaEdge := by
  have entries : (clientListThreadFunction s).connectedClients = coming s := (tick_lists s).1
  have base := tick_keepAlive s
  rw [entries]
  constructor
  · rintro ⟨interval,_⟩
    by_contra loaded
    rw [base,adapted,if_pos (not_le.mp loaded)] at interval
    contradiction
  · intro light
    have meant : adapted (coming s).length = kaBase := if_neg (not_lt.mpr light)
    have ticked : (machine validClients).run initial (before ++ [.tick]) = some (clientListThreadFunction s) :=
      Machine.run_snoc.mpr ⟨s,reached,rfl⟩
    rw [meant]
    refine ⟨base,?_⟩
    intro later t host bytes t' _ run granted
    have there := run_keepAlive (Machine.run_append_eq_some.mpr ⟨_,ticked,run⟩)
    exact there ▸ granted_interval granted

theorem light_load_adapted : ∃ s, (machine doorSensors).run initial [.datagram doorHost doorRequest] = some s ∧
    (clientListThreadFunction s).keepAlive = adapted (clientListThreadFunction s).connectedClients.length := by
  refine ⟨_,rfl,?_⟩
  have reached : (machine doorSensors).run initial [.datagram doorHost doorRequest] = some _ := rfl
  exact ((load_adapted_iff reached).mpr (by decide)).1

/-- Before the first tick, every announcement of the client is one more entry. -/
theorem door_entered (starting : s.firstStart = true) (interval : s.keepAlive = kaBase) :
    ∃ s', (machine doorSensors).step s (.datagram doorHost doorRequest) = some s' ∧
      s'.connectedClients = s.connectedClients ++ [doorId] ∧ s'.firstStart = true ∧ s'.keepAlive = kaBase := by
  have free : 0 ∉ Bytes.ofString "Controller_1:Client_1:sensor:door" := by decide
  have head := receive_text s free (by decide)
  have parsed : s.clientMsg.parse (Bytes.ofString "Controller_1:Client_1:sensor:door") =
    (true, ⟨⟨controllerName, doorId⟩, Bytes.ofString "sensor", Bytes.ofString "door"⟩) := rfl
  rw [parsed] at head
  obtain ⟨buffer,made⟩ : ∃ buffer, makeMessage doorHost kaBase doorId .ok = some buffer := ⟨_,rfl⟩
  let r : State := { s with
    buffer := s.buffer.load (Bytes.ofString "Controller_1:Client_1:sensor:door" ++ [0])
    clientMsg := ⟨⟨controllerName, doorId⟩, Bytes.ofString "sensor", Bytes.ofString "door"⟩ }
  obtain ⟨sameMsg,sameNumber,_⟩ := enlist_keeps r
  have number : (enlist r).keepAlive = kaBase := sameNumber.trans interval
  have made : makeMessage doorHost (enlist r).keepAlive (enlist r).clientMsg.senderId .ok = some buffer := by
    rw [number,sameMsg]
    exact made
  have composed : compose doorHost (enlist r) .ok = some { enlist r with buffer := buffer } :=
    compose_eq_some.mpr ⟨buffer,made,rfl⟩
  have valid : doorSensors.isInList (Bytes.ofString "sensor") (Bytes.ofString "door") = true := by decide
  have handled := receiveThreadFunction_next.mpr ⟨r,true,head,.admitted rfl valid composed⟩
  refine ⟨_,machine_datagram.mpr ⟨_,handled⟩,?_,?_,?_⟩
  · simp [enlist,r,starting]
  · simp [enlist,r,starting]
  · exact number

theorem doors_entered (n : Nat) : ∃ s,
    (machine doorSensors).run initial (List.replicate n (.datagram doorHost doorRequest)) = some s ∧
      s.connectedClients.length = n ∧ s.firstStart = true ∧ s.keepAlive = kaBase := by
  induction n with
  | zero => exact ⟨initial,rfl,rfl,rfl,rfl⟩
  | succ n ih =>
    obtain ⟨s,reached,entries,starting,interval⟩ := ih
    obtain ⟨s',step,connected,starting',interval'⟩ := door_entered starting interval
    rw [List.replicate_succ']
    refine ⟨s',Machine.run_snoc.mpr ⟨s,reached,step⟩,?_,starting',interval'⟩
    rw [connected,List.length_append,entries]
    rfl

/-- With 31 entries the tick leaves the interval at 60, where 72 is meant. -/
theorem loaded_interval_unscaled : ∃ s,
    (machine doorSensors).run initial (List.replicate 31 (.datagram doorHost doorRequest) ++ [.tick]) = some s ∧
      s.connectedClients.length = 31 ∧ s.keepAlive = 60 ∧ adapted s.connectedClients.length = 72 := by
  obtain ⟨s,reached,entries,starting,_⟩ := doors_entered 31
  have connected : (clientListThreadFunction s).connectedClients = s.connectedClients := by
    rw [(tick_lists s).1,if_pos starting]
  refine ⟨clientListThreadFunction s,Machine.run_snoc.mpr ⟨s,reached,rfl⟩,?_,tick_keepAlive s,?_⟩
  · rw [connected,entries]
  · rw [connected,entries]
    rfl

end SmartHospital.Controller
