import SmartHospital.Client
import SmartHospital.Support.CInt

/-! The waiting time of a client's keep-alive thread, computed from the interval the
controller named and a random number. -/
namespace SmartHospital.Client

/-- The microseconds `KeepAliveThreadFunction` waits before an Alive. -/
def keepAliveWait (keepAlive rand : Int) : Option Int := do
  let tenth ← CInt.quot keepAlive 10
  let divisor ← CInt.add tenth 1
  let early ← CInt.rem rand divisor
  let wait ← CInt.sub keepAlive early
  let wait ← CInt.mul wait 1000
  CInt.mul wait 100

def SoundWait (keepAlive rand : Int) : Prop :=
  ∃ wait, keepAliveWait keepAlive rand = some wait ∧ 0 < wait ∧ wait ≤ keepAlive * 100000

variable {keepAlive : Int} {rand : Nat}

theorem keepAliveWait_eq_some (defined : keepAliveWait keepAlive rand = some wait) :
    0 ≤ (rand : Int).tmod (keepAlive.tdiv 10 + 1) ∧
      wait = (keepAlive - (rand : Int).tmod (keepAlive.tdiv 10 + 1)) * 100000 ∧ wait ≤ Decimal.intMax := by
  have dividend : 0 ≤ (rand : Int) := Int.natCast_nonneg rand
  simp only [keepAliveWait,CInt.add,CInt.sub,CInt.mul,Option.bind_eq_bind,Option.bind_eq_some_iff,
    CInt.quot_eq_some,CInt.rem_nonneg dividend,CInt.check_eq_some] at defined
  obtain ⟨_,⟨_,rfl,_⟩,_,⟨rfl,_⟩,_,⟨_,rfl⟩,_,⟨rfl,_⟩,_,⟨rfl,_⟩,rfl,_,high⟩ := defined
  exact ⟨Int.tmod_nonneg _ dividend,by omega,high⟩

theorem early_range (rand : Nat) (positive : 1 ≤ keepAlive) :
    0 ≤ (rand : Int) % (keepAlive / 10 + 1) ∧ (rand : Int) % (keepAlive / 10 + 1) ≤ keepAlive / 10 := by
  have divisor : 0 < keepAlive / 10 + 1 := by omega
  have low := Int.emod_nonneg (rand : Int) (Int.ne_of_gt divisor)
  have high := Int.emod_lt_of_pos (rand : Int) divisor
  omega

theorem keepAliveWait_of_range (positive : 1 ≤ keepAlive)
    (short : keepAlive - rand % (keepAlive / 10 + 1) ≤ 21474) :
    keepAliveWait keepAlive rand = some ((keepAlive - rand % (keepAlive / 10 + 1)) * 100000) := by
  obtain ⟨low,high⟩ := early_range rand positive
  have tenth : keepAlive.tdiv 10 = keepAlive / 10 := Int.tdiv_eq_ediv_of_nonneg (by omega)
  have dividend : 0 ≤ (rand : Int) := Int.natCast_nonneg rand
  have early : (rand : Int).tmod (keepAlive / 10 + 1) = rand % (keepAlive / 10 + 1) :=
    Int.tmod_eq_emod_of_nonneg dividend
  simp only [keepAliveWait,CInt.add,CInt.sub,CInt.mul,Option.bind_eq_bind,Option.bind_eq_some_iff,
    CInt.quot_eq_some,CInt.rem_nonneg dividend,CInt.check_eq_some,tenth,Decimal.intMin,Decimal.intMax]
  refine ⟨_,⟨by omega,rfl,by omega⟩,_,⟨rfl,by omega⟩,_,⟨by omega,rfl⟩,_,⟨rfl,?_⟩,_,⟨rfl,?_⟩,?_,?_⟩
  all_goals rw [early]; omega

/-- The computation is sound exactly for a positive interval that is short enough once
the random part is taken off. -/
theorem soundWait_iff : SoundWait keepAlive rand ↔
    1 ≤ keepAlive ∧ keepAlive - rand % (keepAlive / 10 + 1) ≤ 21474 := by
  constructor
  · rintro ⟨wait,defined,positive,_⟩
    obtain ⟨early,rfl,high⟩ := keepAliveWait_eq_some defined
    have interval : 1 ≤ keepAlive := by omega
    have tenth : keepAlive.tdiv 10 = keepAlive / 10 := Int.tdiv_eq_ediv_of_nonneg (by omega)
    rw [tenth,Int.tmod_eq_emod_of_nonneg (Int.natCast_nonneg rand)] at high
    exact ⟨interval,by unfold Decimal.intMax at high; omega⟩
  · rintro ⟨positive,short⟩
    obtain ⟨low,_⟩ := early_range rand positive
    exact ⟨_,keepAliveWait_of_range positive short,by omega,by omega⟩

/-- The object decoded for a message is what the branches on its state look at. -/
def heard (s : State) (msg : Bytes) : State := { s with controllerMsg := (s.controllerMsg.parse msg).2 }

theorem act_keepAlive_interval (ok : (heard s msg).controllerMsg.state = .ok) (idle : s.keepAliveStarted = false) :
    (act (heard s msg)).keepAlive = (heard s msg).controllerMsg.keepAlive := by
  have flag : (heard s msg).keepAliveStarted = false := idle
  simp [act,ok,flag]

/-- A thread started for a message decoded as an OK computes a sound wait exactly if the
number left in the object is positive and short enough with the random part taken off. -/
theorem started_wait_iff (s : State) (msg : Bytes) (rand : Nat) (ok : (heard s msg).controllerMsg.state = .ok)
    (idle : s.keepAliveStarted = false) :
    SoundWait (act (heard s msg)).keepAlive rand ↔
      1 ≤ (heard s msg).controllerMsg.keepAlive ∧
        (heard s msg).controllerMsg.keepAlive - rand % ((heard s msg).controllerMsg.keepAlive / 10 + 1) ≤ 21474 := by
  rw [act_keepAlive_interval ok idle]
  exact soundWait_iff

def idleClient : State := start (CArray.zeros buffLen) ⟨⟨[], []⟩, .nok, 0, []⟩

theorem base_interval_sound :
    SoundWait (act (heard idleClient (Bytes.ofString "Client_1:Controller_1:OK:192.168.1.1:60"))).keepAlive 6 :=
  (started_wait_iff _ _ 6 rfl rfl).mpr (by decide)

/-- With minus ten in the field, the divisor of the remainder is zero. -/
theorem negative_interval_unsound :
    ¬ SoundWait (act (heard idleClient (Bytes.ofString "Client_1:Controller_1:OK:192.168.1.1:-10"))).keepAlive 0 := by
  have number :
    (act (heard idleClient (Bytes.ofString "Client_1:Controller_1:OK:192.168.1.1:-10"))).keepAlive = -10 := rfl
  rw [number]
  rintro ⟨wait,defined,_⟩
  have undefined : keepAliveWait (-10) (0 : Nat) = none := by decide
  exact nomatch undefined.symm.trans defined

end SmartHospital.Client
