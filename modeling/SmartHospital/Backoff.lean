import Mathlib.Algebra.Order.Ring.Nat

/-! `wait` of ssdpClient.cpp, the pause between two announcements. Its frame is static: it
stays as large as it has become when the thread is started again. -/
namespace SmartHospital.Backoff

def maxFrameSize : UInt32 := 8000000

/-- The frame of the first call. -/
def startFrame : UInt32 := 1000000

/-- The microseconds slept, and the frame of the next call. -/
def wait (frame rand : UInt32) : UInt32 × UInt32 :=
  (rand % frame + 1, if frame * 2 > maxFrameSize then maxFrameSize else frame * 2)

def frames (frame : UInt32) : List UInt32 → List UInt32
  | [] => []
  | rand :: rest => frame :: frames (wait frame rand).2 rest

/-- The microseconds slept by calls in a row. -/
def sleeps (frame : UInt32) : List UInt32 → List UInt32
  | [] => []
  | rand :: rest => (wait frame rand).1 :: sleeps (wait frame rand).2 rest

def paused (frame : UInt32) (rands : List UInt32) : Nat := ((sleeps frame rands).map UInt32.toNat).sum

variable {frame : UInt32}

/-- The frame of the call with a number, counted from none. -/
def frameAt (k : Nat) : Nat := min (1000000 * 2 ^ k) 8000000

theorem frameAt_succ (k : Nat) : frameAt (k + 1) = min (2 * frameAt k) 8000000 := by
  simp only [frameAt,Nat.pow_succ]
  omega

theorem frame_doubled (current : frame.toNat = frameAt k) : (frame * 2).toNat = 2 * frame.toNat := by
  have small : frameAt k ≤ 8000000 := Nat.min_le_right _ _
  rw [UInt32.toNat_mul]
  simp only [UInt32.reduceToNat]
  omega

theorem wait_frame (rand : UInt32) (current : frame.toNat = frameAt k) :
    (wait frame rand).2.toNat = frameAt (k + 1) := by
  have small : frameAt k ≤ 8000000 := Nat.min_le_right _ _
  have doubled := frame_doubled current
  rw [frameAt_succ,← current,wait]
  dsimp only
  split
  · rename_i beyond
    rw [gt_iff_lt,UInt32.lt_iff_toNat_lt,doubled] at beyond
    simp only [maxFrameSize,UInt32.reduceToNat] at beyond ⊢
    omega
  · rename_i within
    rw [gt_iff_lt,UInt32.lt_iff_toNat_lt,doubled] at within
    simp only [maxFrameSize,UInt32.reduceToNat] at within
    omega

theorem wait_sleep (rand : UInt32) (current : frame.toNat = frameAt k) :
    1 ≤ (wait frame rand).1.toNat ∧ (wait frame rand).1.toNat ≤ frameAt k := by
  have small : frameAt k ≤ 8000000 := Nat.min_le_right _ _
  have positive : 0 < frameAt k := Nat.lt_min.mpr ⟨Nat.mul_pos (by decide) (Nat.two_pow_pos k),by decide⟩
  have below := Nat.mod_lt rand.toNat positive
  rw [wait,UInt32.toNat_add,UInt32.toNat_mod,current,UInt32.toNat_one]
  omega

theorem sleeps_within (rands : List UInt32) (current : frame.toNat = frameAt k) :
    ∀ j us, (sleeps frame rands)[j]? = some us → 1 ≤ us.toNat ∧ us.toNat ≤ frameAt (k + j) := by
  induction rands generalizing frame k with
  | nil => exact fun j us none => by simp [sleeps] at none
  | cons rand rest ih =>
    intro j us slept
    cases j with
    | zero =>
      obtain rfl := Option.some.inj slept
      exact wait_sleep rand current
    | succ j =>
      have later := ih (wait_frame rand current) j us slept
      rwa [Nat.add_right_comm] at later

theorem frames_at (rands : List UInt32) (current : frame.toNat = frameAt k) :
    ∀ j f, (frames frame rands)[j]? = some f → f.toNat = frameAt (k + j) := by
  induction rands generalizing frame k with
  | nil => exact fun j f none => by simp [frames] at none
  | cons rand rest ih =>
    intro j f there
    cases j with
    | zero =>
      obtain rfl := Option.some.inj there
      exact current
    | succ j =>
      have later := ih (wait_frame rand current) j f there
      rwa [Nat.add_right_comm] at later

theorem paused_cons (rand : UInt32) (rest : List UInt32) :
    paused frame (rand :: rest) = (wait frame rand).1.toNat + paused (wait frame rand).2 rest := by
  rw [paused,sleeps,List.map_cons,List.sum_cons]
  rfl

theorem paused_le (rands : List UInt32) (current : frame.toNat = frameAt k) :
    paused frame rands ≤ 8000000 * rands.length := by
  induction rands generalizing frame k with
  | nil => exact le_rfl
  | cons rand rest ih =>
    have first := (wait_sleep rand current).2.trans (Nat.min_le_right _ _)
    have later := ih (wait_frame rand current)
    rw [paused_cons,List.length_cons]
    omega

/-- In calls one after the other the frame doubles from one second to eight and never runs
over. Every pause lies in its frame, and no run of pauses takes longer than that allows:
from the fourth announcement on, the one with a number comes no later than eight seconds
for each before it, less seventeen. -/
theorem announcement_pace (rands : List UInt32) :
    (∀ j f, (frames startFrame rands)[j]? = some f → f.toNat = frameAt j ∧ (f * 2).toNat = 2 * f.toNat) ∧
      (∀ j us, (sleeps startFrame rands)[j]? = some us → 1 ≤ us.toNat ∧ us.toNat ≤ frameAt j) ∧
      (3 ≤ rands.length → paused startFrame rands + 17000000 ≤ 8000000 * rands.length) := by
  have start : startFrame.toNat = frameAt 0 := rfl
  refine ⟨?_,?_,?_⟩
  · intro j f there
    have size := frames_at rands start j f there
    rw [Nat.zero_add] at size
    exact ⟨size,frame_doubled size⟩
  · intro j us slept
    have within := sleeps_within rands start j us slept
    rwa [Nat.zero_add] at within
  · intro three
    match rands, three with
    | a :: b :: c :: rest, _ =>
      have first := wait_sleep a start
      have second := wait_sleep b (wait_frame a start)
      have third := wait_sleep c (wait_frame b (wait_frame a start))
      have later := paused_le rest (wait_frame c (wait_frame b (wait_frame a start)))
      rw [paused_cons,paused_cons,paused_cons]
      have sizes : frameAt 0 = 1000000 ∧ frameAt (0 + 1) = 2000000 ∧ frameAt (0 + 1 + 1) = 4000000 := ⟨rfl,rfl,rfl⟩
      simp only [List.length_cons]
      omega

end SmartHospital.Backoff
