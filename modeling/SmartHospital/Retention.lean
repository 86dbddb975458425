import SmartHospital.Answer
import SmartHospital.KeepAlive
import SmartHospital.Load

/-! A client that stays connected, in ideal time: datagrams and their handling take no
time and every `usleep` lasts as long as it says. The thread goes on until its client
is released, and its requests are taken as composed. -/
namespace SmartHospital

open Controller

/-- One client's `KeepAliveThreadFunction`: when it was started, and when its `usleep` ends. -/
structure KeepAliveThread where
  started : Int
  due : Int

/-- The controller, the client's thread, and the time in microseconds. -/
structure Timed where
  controller : State
  now : Int
  nextTick : Int
  thread : Option KeepAliveThread

inductive Moment where
  | tick
  /-- The thread sends; the random number is for its next round. -/
  | alive (host : Bytes) (rand : Nat)
  /-- Anyone's datagram. -/
  | datagram (time : Int) (host bytes : Bytes)
  | start (time : Int) (rand : Nat)

/-- The thread from the beginning of a round to the end of its `usleep`. -/
def sleep (keepAlive started time : Int) (rand : Nat) : Option KeepAliveThread :=
  (Client.keepAliveWait keepAlive rand).map fun wait => ⟨started, time + wait⟩

/-- The controller handles a datagram. A release of `c` ends the thread. -/
def deliver (validClients : ControllerClass) (c host bytes : Bytes) (time : Int) (t : Timed) : Option Timed :=
  (receiveThreadFunction validClients host t.controller (.datagram bytes)).next?.map fun (s, answer) =>
    { t with
      controller := s
      now := time
      thread := if answer = some .rlsd ∧ s.clientMsg.senderId = c then none else t.thread }

/-- Everything at its time: what falls on the instant of a tick comes after it. -/
def timed (validClients : ControllerClass) (keepAlive : Int) (c : Bytes) : Machine Timed Moment where
  step t
    | .tick =>
      if ∀ thread ∈ t.thread, t.nextTick ≤ thread.due then
        some
          { t with
            controller := clientListThreadFunction t.controller
            now := t.nextTick
            nextTick := t.nextTick + keepAlive * 100000 }
      else none
    | .alive host rand =>
      t.thread.bind fun thread =>
        if thread.due < t.nextTick then
          (sleep keepAlive thread.started thread.due rand).bind fun next =>
            deliver validClients c host (Client.transmitted (Client.aliveMessage c)) thread.due
              { t with thread := some next }
        else none
    | .datagram time host bytes =>
      if t.now ≤ time ∧ time < t.nextTick ∧ ∀ thread ∈ t.thread, time ≤ thread.due then
        deliver validClients c host bytes time t
      else none
    | .start time rand =>
      if t.thread = none ∧ t.now ≤ time ∧ time ≤ t.nextTick then
        (sleep keepAlive time time rand).map fun thread => { t with now := time, thread := some thread }
      else none

def Timed.start (keepAlive : Int) : Timed := ⟨initial, 0, keepAlive * 100000, none⟩

inductive Passes (validClients : ControllerClass) (keepAlive : Int) (c : Bytes) (t : Timed) :
    Moment → Timed → Prop where
  | ticked (asleep : ∀ thread ∈ t.thread, t.nextTick ≤ thread.due) :
      Passes validClients keepAlive c t .tick
        { t with
          controller := clientListThreadFunction t.controller
          now := t.nextTick
          nextTick := t.nextTick + keepAlive * 100000 }
  | sent (running : t.thread = some thread) (due : thread.due < t.nextTick)
      (slept : sleep keepAlive thread.started thread.due rand = some next)
      (delivered : deliver validClients c host (Client.transmitted (Client.aliveMessage c)) thread.due
        { t with thread := some next } = some t') : Passes validClients keepAlive c t (.alive host rand) t'
  | received (later : t.now ≤ time) (early : time < t.nextTick) (asleep : ∀ thread ∈ t.thread, time ≤ thread.due)
      (delivered : deliver validClients c host bytes time t = some t') :
      Passes validClients keepAlive c t (.datagram time host bytes) t'
  | started (idle : t.thread = none) (later : t.now ≤ time) (early : time ≤ t.nextTick)
      (slept : sleep keepAlive time time rand = some next) :
      Passes validClients keepAlive c t (.start time rand) { t with now := time, thread := some next }

variable {validClients : ControllerClass} {c host bytes : Bytes} {keepAlive time : Int} {t t' : Timed}
  {thread : KeepAliveThread} {moment : Moment} {before after : List Moment} {s s' : State} {input : Input}
  {inputs : List Input}

section Listed

/-- An id that leaves an OK its room, which is just the room its Alive takes. -/
structure Listed (c : Bytes) : Prop where
  nulFree : 0 ∉ c
  single : colon ∉ c
  short : c.length ≤ 235

theorem announced_listed (interval : s.keepAlive = kaBase) (announces : Announces validClients c s bytes)
    (step : (machine validClients).step s (.datagram host bytes) = some s') : Listed c := by
  obtain ⟨answer,handled⟩ := machine_datagram.mp step
  obtain ⟨r,regularMsg,head,handled⟩ := receiveThreadFunction_next.mp handled
  obtain ⟨v,again,mine,valid,rfl⟩ := announces
  cases head.symm.trans again
  obtain ⟨nulFree,single⟩ := receive_sender head
  refine ⟨nulFree,single,?_⟩
  cases handled with
  | ignored other => exact absurd mine other
  | refused _ invalid _ => exact absurd valid (Bool.eq_false_iff.mp invalid)
  | admitted _ _ composed =>
    obtain ⟨sameMsg,sameNumber,_⟩ := enlist_keeps r
    obtain ⟨buffer,made,_⟩ := compose_eq_some.mp composed
    rw [sameMsg,sameNumber,(receive_lists head).2.2.2,interval,← makeMessage_host] at made
    have fits := (makeMessage_framed nulFree (nul_free_upToNul host) made).1
    have digits : (Decimal.print kaBase).length = 2 := by decide
    rw [replyText_ok_length,digits] at fits
    omega

theorem run_listed (reached : (machine validClients).run initial inputs = some s) :
    ∀ c, c ∈ s.connectedClients ∨ c ∈ s.newConnectedClients → Listed c := by
  apply Machine.run_history (fun _ s => ∀ c, c ∈ s.connectedClients ∨ c ∈ s.newConnectedClients → Listed c) _ _ reached
  · intro past s input next before listed step c member
    rcases entered_origin (step_entered step) member with old | ⟨host,bytes,rfl,announces⟩
    · exact listed c old
    · exact announced_listed (run_keepAlive before) announces step
  · rintro c (member | member) <;> contradiction

/-- What the thread of a listed client sends is decoded as its Alive. -/
theorem Listed.alive (listed : Listed c) (s : State) :
    AliveFrom c s (Client.transmitted (Client.aliveMessage c)) := by
  obtain ⟨nulFree,single,short⟩ := listed
  have length := Client.aliveMessage_length nulFree
  have fits : (Client.aliveMessage c).length ≤ 254 := by omega
  have range : Short (Client.aliveMessage c) := Nat.lt_of_le_of_lt fits (by decide)
  have wordFree : 0 ∉ Bytes.ofString "Alive" := by decide
  have free : 0 ∉ Client.aliveMessage c := by
    rw [Client.aliveMessage_eq nulFree]
    simp [nulFree,wordFree]
  obtain ⟨alive,receiver,sender⟩ := (Client.alive_decodes s.clientMsg nulFree range).mpr single
  have head := receive_text s free fits
  rw [alive] at head
  rw [Client.transmitted_eq fits]
  exact ⟨_,head,receiver,sender⟩

end Listed

theorem sleep_eq_some {started : Int} {rand : Nat} (slept : sleep keepAlive started time rand = some thread) :
    thread.started = started ∧ thread.due ≤ time + keepAlive * 100000 := by
  obtain ⟨wait,defined,rfl⟩ := Option.map_eq_some_iff.mp slept
  obtain ⟨_,rfl,_⟩ := Client.keepAliveWait_eq_some defined
  exact ⟨rfl,by dsimp only; omega⟩

theorem sleep_defined (positive : 1 ≤ keepAlive) (short : keepAlive ≤ 21474) (started time : Int) (rand : Nat) :
    ∃ thread, sleep keepAlive started time rand = some thread := by
  obtain ⟨early,_⟩ := Client.early_range rand positive
  rw [sleep,Client.keepAliveWait_of_range positive (by omega)]
  exact ⟨_,rfl⟩

theorem deliver_eq_some : deliver validClients c host bytes time t = some t' ↔
    ∃ s answer, receiveThreadFunction validClients host t.controller (.datagram bytes) = .next (s, answer) ∧
      t' = { t with
        controller := s
        now := time
        thread := if answer = some .rlsd ∧ s.clientMsg.senderId = c then none else t.thread } := by
  constructor
  · intro delivered
    obtain ⟨⟨s,answer⟩,handled,rfl⟩ := Option.map_eq_some_iff.mp delivered
    exact ⟨s,answer,Outcome.next?_eq_some.mp handled,rfl⟩
  · rintro ⟨s,answer,handled,rfl⟩
    exact Option.map_eq_some_iff.mpr ⟨_,Outcome.next?_eq_some.mpr handled,rfl⟩

theorem timed_step : (timed validClients keepAlive c).step t moment = some t' ↔
    Passes validClients keepAlive c t moment t' := by
  constructor
  · intro step
    cases moment with
    | tick =>
      obtain ⟨asleep,done⟩ := Option.ite_none_right_eq_some.mp step
      cases done
      exact .ticked asleep
    | alive host rand =>
      obtain ⟨thread,running,step⟩ := Option.bind_eq_some_iff.mp step
      obtain ⟨due,step⟩ := Option.ite_none_right_eq_some.mp step
      obtain ⟨next,slept,delivered⟩ := Option.bind_eq_some_iff.mp step
      exact .sent running due slept delivered
    | datagram time host bytes =>
      obtain ⟨⟨later,early,asleep⟩,delivered⟩ := Option.ite_none_right_eq_some.mp step
      exact .received later early asleep delivered
    | start time rand =>
      obtain ⟨⟨idle,later,early⟩,step⟩ := Option.ite_none_right_eq_some.mp step
      obtain ⟨next,slept,rfl⟩ := Option.map_eq_some_iff.mp step
      exact .started idle later early slept
  · intro passes
    cases passes with
    | ticked asleep => exact if_pos asleep
    | sent running due slept delivered => simp [timed,running,due,slept,delivered]
    | received later early asleep delivered => exact (if_pos ⟨later,early,asleep⟩).trans delivered
    | started idle later early slept => simp [timed,idle,later,early,slept]

theorem delivered_input (delivered : deliver validClients c host bytes time t = some t') :
    (machine validClients).step t.controller (.datagram host bytes) = some t'.controller := by
  obtain ⟨s,answer,handled,rfl⟩ := deliver_eq_some.mp delivered
  exact machine_datagram.mpr ⟨answer,handled⟩

/-- Without the clock, the controller's part of a run is one of `machine`. -/
theorem timed_controller (whole : (timed validClients keepAlive c).run (.start keepAlive) before = some t) :
    ∃ inputs, (machine validClients).run initial inputs = some t.controller := by
  apply Machine.run_follows Timed.controller _ whole
  intro t moment t' step
  cases timed_step.mp step with
  | ticked => exact .inr ⟨.tick,rfl⟩
  | sent running due slept delivered =>
    have step := delivered_input delivered
    exact .inr ⟨_,step⟩
  | received later early asleep delivered => exact .inr ⟨_,delivered_input delivered⟩
  | started => exact .inl rfl

/-- A thread's round began before the next tick, unless it is the first. -/
def Timely (keepAlive : Int) (t : Timed) : Prop :=
  ∀ thread ∈ t.thread, thread.due ≤ thread.started + keepAlive * 100000 ∨ thread.due < t.nextTick + keepAlive * 100000

theorem deliver_timely (timely : Timely keepAlive t) (delivered : deliver validClients c host bytes time t = some t') :
    Timely keepAlive t' := by
  obtain ⟨s,answer,_,rfl⟩ := deliver_eq_some.mp delivered
  intro thread member
  dsimp only at member
  split at member
  · contradiction
  · exact timely thread member

theorem run_timely (positive : 1 ≤ keepAlive)
    (whole : (timed validClients keepAlive c).run (.start keepAlive) before = some t) :
    Timely keepAlive t := by
  apply Machine.run_invariant (Timely keepAlive) _ whole
  · rintro thread ⟨⟩
  · intro t moment t' timely step
    cases timed_step.mp step with
    | ticked asleep =>
      intro thread member
      rcases timely thread member with first | later
      · exact .inl first
      · exact .inr (by dsimp only; omega)
    | sent running due slept delivered =>
      refine deliver_timely ?_ delivered
      rintro thread ⟨⟩
      obtain ⟨_,bound⟩ := sleep_eq_some slept
      exact .inr (by dsimp only; omega)
    | received later early asleep delivered => exact deliver_timely timely delivered
    | started idle later early slept =>
      rintro thread ⟨⟩
      obtain ⟨rfl,bound⟩ := sleep_eq_some slept
      exact .inl bound

/-- A connected client that is sure to send before it is dropped: it wakes before the
next tick, or the new list holds it and it wakes before the tick after that. -/
structure Retained (keepAlive : Int) (c : Bytes) (t : Timed) : Prop where
  running : t.controller.firstStart = false
  listed : Listed c
  member : c ∈ t.controller.connectedClients
  awake : ∃ thread, t.thread = some thread ∧
    (thread.due < t.nextTick ∨ c ∈ t.controller.newConnectedClients ∧ thread.due < t.nextTick + keepAlive * 100000)

theorem released_unknown
    (released : receiveThreadFunction validClients host s (.datagram bytes) = .next (s', some .rlsd)) :
    s'.clientMsg.senderId ∉ s.connectedClients := by
  obtain ⟨r,regularMsg,head,handled⟩ := receiveThreadFunction_next.mp released
  obtain ⟨connected,_⟩ := receive_lists head
  cases handled with
  | released mine unknown composed =>
    obtain ⟨_,_,rfl⟩ := compose_eq_some.mp composed
    rw [← connected]
    exact unknown

theorem fresh_grows (step : (machine validClients).step s (.datagram host bytes) = some s')
    (listed : c ∈ s.newConnectedClients) : c ∈ s'.newConnectedClients := by
  cases step_entered step with
  | early announces starting connected fresh => exact fresh ▸ listed
  | late announces started connected fresh => exact fresh ▸ List.mem_append_left _ listed
  | renewed alive member connected fresh => exact fresh ▸ List.mem_append_left _ listed
  | kept silent connected fresh => exact fresh ▸ listed

/-- No datagram drops a connected client or ends its thread. -/
theorem delivered_keeps (delivered : deliver validClients c host bytes time t = some t')
    (running : t.controller.firstStart = false) (member : c ∈ t.controller.connectedClients) :
    t'.controller.firstStart = false ∧ c ∈ t'.controller.connectedClients ∧ t'.thread = t.thread ∧
      t'.nextTick = t.nextTick := by
  obtain ⟨s,answer,handled,rfl⟩ := deliver_eq_some.mp delivered
  obtain ⟨_,first,connected⟩ := datagram_keeps handled
  have kept : ¬ (answer = some .rlsd ∧ s.clientMsg.senderId = c) := by
    rintro ⟨rfl,rfl⟩
    exact released_unknown handled member
  exact ⟨first.trans running,connected running ▸ member,if_neg kept,rfl⟩

theorem delivered_alive (delivered : deliver validClients c host bytes time t = some t')
    (alive : AliveFrom c t.controller bytes) (member : c ∈ t.controller.connectedClients) :
    c ∈ t'.controller.newConnectedClients := by
  have accepted : Accepted validClients host c t.controller bytes := (accepted_iff alive).mpr member
  obtain ⟨s,handled,fresh⟩ := accepted
  obtain ⟨s',answer,other,rfl⟩ := deliver_eq_some.mp delivered
  cases handled.symm.trans other
  rw [fresh]
  exact List.mem_append_right _ (List.mem_singleton_self c)

theorem retained_step (retained : Retained keepAlive c t)
    (step : (timed validClients keepAlive c).step t moment = some t') :
    Retained keepAlive c t' := by
  obtain ⟨running,listed,member,thread,awake,soon⟩ := retained
  cases timed_step.mp step with
  | ticked asleep =>
    -- the thread is not early enough for this tick, so an Alive has come already
    have late := asleep thread awake
    rcases soon with early | ⟨renewed,soon⟩
    · exact absurd early (not_lt.mpr late)
    · obtain ⟨_,after⟩ := tick_later running
      refine ⟨?_,listed,?_,thread,awake,.inl soon⟩
      · rw [after]
        exact running
      · rw [after]
        exact renewed
  | sent now due slept delivered =>
    obtain ⟨first,connected,same,tick⟩ := delivered_keeps delivered running member
    obtain ⟨_,bound⟩ := sleep_eq_some slept
    refine ⟨first,listed,connected,_,same,.inr ⟨?_,?_⟩⟩
    · exact delivered_alive delivered (listed.alive _) member
    · rw [tick]
      dsimp only
      omega
  | received later early asleep delivered =>
    obtain ⟨first,connected,same,tick⟩ := delivered_keeps delivered running member
    refine ⟨first,listed,connected,thread,same.trans awake,?_⟩
    rw [tick]
    exact soon.imp id (And.imp_left (fresh_grows (delivered_input delivered)))
  | started idle => exact nomatch idle.symm.trans awake

def ReleasedByAlive (validClients : ControllerClass) (c : Bytes) (t : Timed) (moment : Moment) : Prop :=
  ∃ host rand s', moment = .alive host rand ∧
    receiveThreadFunction validClients host t.controller (.datagram (Client.transmitted (Client.aliveMessage c))) =
      .next (s', some .rlsd)

theorem retained_not_released (retained : Retained keepAlive c t) : ¬ ReleasedByAlive validClients c t moment := by
  rintro ⟨host,_,_,_,released⟩
  have accepted : Accepted validClients host c t.controller _ :=
    (accepted_iff (retained.listed.alive t.controller)).mpr retained.member
  obtain ⟨_,handled,_⟩ := accepted
  cases handled.symm.trans released

/-- Time does not stop: the tick or the thread's Alive can always come next. -/
theorem retained_goes_on (positive : 1 ≤ keepAlive) (short : keepAlive ≤ 21474) (retained : Retained keepAlive c t)
    (host : Bytes) (rand : Nat) : ∃ t', (timed validClients keepAlive c).step t .tick = some t' ∨
      (timed validClients keepAlive c).step t (.alive host rand) = some t' := by
  obtain ⟨running,listed,member,thread,awake,_⟩ := retained
  by_cases due : thread.due < t.nextTick
  · obtain ⟨next,slept⟩ := sleep_defined positive short thread.started thread.due rand
    have accepted : Accepted validClients host c t.controller _ := (accepted_iff (listed.alive t.controller)).mpr member
    obtain ⟨s,handled,_⟩ := accepted
    have delivered : deliver validClients c host (Client.transmitted (Client.aliveMessage c)) thread.due
        { t with thread := some next } = some _ := deliver_eq_some.mpr ⟨s,none,handled,rfl⟩
    exact ⟨_,.inr (timed_step.mpr (.sent awake due slept delivered))⟩
  · refine ⟨_,.inl (timed_step.mpr (.ticked ?_))⟩
    intro other running
    cases awake.symm.trans running
    exact not_lt.mp due

/-- A client whose thread was started before a tick that leaves it connected wakes up in
every period from then on. -/
theorem retained_at_tick (positive : 1 ≤ keepAlive)
    (reached : (timed validClients keepAlive c).run (.start keepAlive) (before ++ [.tick]) = some t)
    (member : c ∈ t.controller.connectedClients) (awake : t.thread = some thread) (early : thread.started < t.now) :
    Retained keepAlive c t := by
  obtain ⟨inputs,controller⟩ := timed_controller reached
  have listed := run_listed controller c (.inl member)
  obtain ⟨u,whole,last⟩ := Machine.run_snoc.mp reached
  have timely := run_timely positive whole
  cases timed_step.mp last with
  | ticked asleep =>
    obtain ⟨_,after⟩ := tick_eq u.controller
    refine ⟨by rw [after],listed,member,thread,awake,.inl ?_⟩
    rcases timely thread awake with first | later
    · exact Int.lt_of_le_of_lt first (Int.add_lt_add_right early _)
    · exact later

/-- It stays connected in every state from then on, whatever anyone sends, no Alive of
its thread is answered with RLSD, and no such state is the last one. -/
theorem client_retained (positive : 1 ≤ keepAlive) (short : keepAlive ≤ 21474)
    (reached : (timed validClients keepAlive c).run (.start keepAlive) (before ++ [.tick]) = some t)
    (member : c ∈ t.controller.connectedClients) (awake : t.thread = some thread) (early : thread.started < t.now) :
    (∀ after t', (timed validClients keepAlive c).run t after = some t' →
      c ∈ t'.controller.connectedClients ∧ ∀ host rand, ∃ next,
        (timed validClients keepAlive c).step t' .tick = some next ∨
          (timed validClients keepAlive c).step t' (.alive host rand) = some next) ∧
      ∀ after, ¬ (timed validClients keepAlive c).Occurs (ReleasedByAlive validClients c) t after := by
  have retained := retained_at_tick positive reached member awake early
  have always : ∀ after t', (timed validClients keepAlive c).run t after = some t' → Retained keepAlive c t' :=
    fun after t' whole => Machine.run_invariant (Retained keepAlive c) (fun _ _ _ => retained_step) whole retained
  constructor
  · intro after t' whole
    have now := always after t' whole
    exact ⟨now.member,retained_goes_on positive short now⟩
  · rintro after ⟨front,moment,back,u,_,whole,released⟩
    exact retained_not_released (always front u whole) released

/-- A client admitted before the first tick, with its thread started then. -/
theorem door_retained : ∃ t,
    (timed doorSensors 60 doorId).run (.start 60) ([.datagram 0 doorHost doorRequest, .start 0 7] ++ [.tick]) = some t ∧
      ∀ after t', (timed doorSensors 60 doorId).run t after = some t' → doorId ∈ t'.controller.connectedClients := by
  obtain ⟨t,reached,member,thread,awake,early⟩ : ∃ t,
    (timed doorSensors 60 doorId).run (.start 60) ([.datagram 0 doorHost doorRequest, .start 0 7] ++ [.tick]) = some t ∧
      doorId ∈ t.controller.connectedClients ∧ ∃ thread, t.thread = some thread ∧ thread.started < t.now :=
    ⟨_,rfl,List.mem_singleton_self _,_,rfl,by decide⟩
  have retained := client_retained (by decide) (by decide) reached member awake early
  exact ⟨t,reached,fun after t' whole => (retained.1 after t' whole).1⟩

end SmartHospital
