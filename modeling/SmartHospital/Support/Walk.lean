import Mathlib.Data.Finset.Image
import Mathlib.Data.Nat.ModEq
import Mathlib.Order.Interval.Finset.Nat

/-! Going round in steps prime to the length: any window of that length meets every place
once. -/
namespace Walk

variable {a b n m : Nat}

/-- Where the walk stands after `k` steps. -/
def place (a b m k : Nat) : Nat := (a * k + b) % m

theorem place_injOn (prime : Nat.Coprime m a) (b n : Nat) : Set.InjOn (place a b m) (Finset.Ico n (n + m)) := by
  intro k inside l within same
  rw [Finset.mem_coe,Finset.mem_Ico] at inside within
  have close : Nat.ModEq m k l := Nat.ModEq.cancel_left_of_coprime prime (Nat.ModEq.add_right_cancel' b same)
  rcases Nat.le_total k l with le | le
  · have divides := (Nat.modEq_iff_dvd' le).mp close
    have zero := Nat.eq_zero_of_dvd_of_lt divides (by omega)
    omega
  · have divides := (Nat.modEq_iff_dvd' le).mp close.symm
    have zero := Nat.eq_zero_of_dvd_of_lt divides (by omega)
    omega

theorem image_place (prime : Nat.Coprime m a) (b n : Nat) :
    (Finset.Ico n (n + m)).image (place a b m) = Finset.range m := by
  apply Finset.eq_of_subset_of_card_le
  · intro p member
    obtain ⟨k,inside,rfl⟩ := Finset.mem_image.mp member
    rw [Finset.mem_Ico] at inside
    exact Finset.mem_range.mpr (Nat.mod_lt _ (by omega))
  · rw [Finset.card_image_of_injOn (place_injOn prime b n),Finset.card_range,Nat.card_Ico]
    omega

/-- In a window of full length, the places below a bound are met as often as there are such places. -/
theorem card_below (prime : Nat.Coprime m a) (b n c : Nat) :
    ((Finset.Ico n (n + m)).filter fun k => place a b m k < c).card = min m c := by
  have below : (Finset.range m).filter (· < c) = Finset.range (min m c) := by
    ext p
    rw [Finset.mem_filter,Finset.mem_range,Finset.mem_range,lt_min_iff]
  rw [← Finset.card_image_of_injOn ((place_injOn prime b n).mono (Finset.coe_subset.mpr (Finset.filter_subset _ _))),
    ← Finset.card_range (min m c),← below,← image_place prime b n,Finset.filter_image]

end Walk
