import SmartHospital.Command
import SmartHospital.Support.Walk

/-! What mqttPub.cpp publishes, and how often the controller answers it in one way and in
the other. -/
namespace SmartHospital.Mqtt

/-- `i`, which goes round. -/
def reading : Nat → UInt8
  | 0 => 0
  | n + 1 => reading n + 20

/-- How far the least `char` lies below zero. -/
def lowest : CharSign → Nat
  | .unsigned => 0
  | .signed => 128

def lowWord : Sensors → Bytes
  | .outLight => Bytes.ofString "podigni"
  | .door => Bytes.ofString "zakljucaj"
  | _ => Bytes.ofString "ukljuci"

def limit (element : Room) : Sensors → Int
  | .temperature => element.temperatureThreshold
  | .indorLight => element.indorLightThreshold
  | .outLight => element.outLightThreshold + 1
  | .door => 0

theorem reading_toNat (n : Nat) : (reading n).toNat = 20 * n % 256 := by
  induction n with
  | zero => rfl
  | succ n ih =>
    have step : (reading (n + 1)).toNat = ((reading n).toNat + 20) % 256 := UInt8.toNat_add _ _
    omega

theorem value_reading (sign : CharSign) (n : Nat) :
    sign.value (reading n) = 4 * (Walk.place 5 (lowest sign / 4) 64 n : Int) - lowest sign := by
  have byte := reading_toNat n
  cases sign with
  | unsigned =>
    simp only [CharSign.value,byte,Walk.place,lowest]
    omega
  | signed =>
    simp only [CharSign.value,byte,Walk.place,lowest]
    split <;> omega

theorem word_eq_lowWord_iff {s : Sensors} (notDoor : s ≠ .door) (value : Int) (element : Room) :
    word s value element = lowWord s ↔ value < limit element s := by
  have switched : Bytes.ofString "ukljuci" ≠ Bytes.ofString "iskljuci" := by decide
  have rolled : Bytes.ofString "spusti" ≠ Bytes.ofString "podigni" := by decide
  cases s with
  | temperature => exact switched.ite_eq_left_iff
  | indorLight => exact switched.ite_eq_left_iff
  | outLight => exact rolled.ite_eq_right_iff.trans (Int.not_lt.trans Int.lt_add_one_iff.symm)
  | door => exact absurd rfl notDoor

/-- Under unchanged thresholds, any 64 publications in a row are answered with the word for
low readings exactly as often as the limit says, wherever in the walk they start. -/
theorem duty_cycle {s : Sensors} (sign : CharSign) (notDoor : s ≠ .door) (element : Room) (n : Nat) :
    ((Finset.Ico n (n + 64)).filter fun k => word s (sign.value (reading k)) element = lowWord s).card =
      min 64 ((limit element s + lowest sign + 3) / 4).toNat := by
  have prime : Nat.Coprime 64 5 := by decide
  rw [← Walk.card_below prime (lowest sign / 4) n]
  congr 1
  ext k
  rw [Finset.mem_filter,Finset.mem_filter,word_eq_lowWord_iff notDoor,value_reading]
  refine and_congr_right fun _ => ?_
  omega

theorem heater_duty : ((Finset.Ico 100 164).filter fun k =>
    word .temperature (CharSign.signed.value (reading k)) ⟨22, 50, 70⟩ = Bytes.ofString "ukljuci").card = 38 :=
  duty_cycle .signed (show Sensors.temperature ≠ .door by decide) ⟨22, 50, 70⟩ 100

end SmartHospital.Mqtt
