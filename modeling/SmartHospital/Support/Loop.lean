import Mathlib.Logic.Basic
import Mathlib.Tactic.TypeStar

/-! Loops whose turns shrink their state. The bound on the turns is part of the loop, so
that running it is a total function that computes. -/

/-- A turn goes round again or leaves with a result. -/
inductive Turn (σ ρ : Type*) where
  | again (s : σ)
  | leave (result : ρ)

structure Loop (σ ρ : Type*) where
  body : σ → Turn σ ρ
  size : σ → Nat
  shrinks : ∀ {s next}, body s = .again next → size next < size s

namespace Loop

variable {σ ρ : Type*} (loop : Loop σ ρ)

def turns : (budget : Nat) → (s : σ) → loop.size s < budget → ρ
  | budget + 1, s, enough =>
    match turn : loop.body s with
    | .again next => turns budget next (Nat.lt_of_lt_of_le (loop.shrinks turn) (Nat.le_of_lt_succ enough))
    | .leave result => result

def run (s : σ) : ρ := loop.turns (loop.size s + 1) s (Nat.lt_succ_self _)

variable {loop} {s next : σ} {result : ρ}

theorem turns_leave (turn : loop.body s = .leave result) (budget : Nat) (enough : loop.size s < budget) :
    loop.turns budget s enough = result := by
  cases budget with
  | zero => exact absurd enough (Nat.not_lt_zero _)
  | succ budget =>
    rw [turns]
    split
    · rename_i other
      exact absurd (turn.symm.trans other) (by simp)
    · rename_i other
      exact (Turn.leave.inj (turn.symm.trans other)).symm

theorem turns_again (turn : loop.body s = .again next) (budget : Nat) (enough : loop.size s < budget + 1) :
    ∃ left, loop.turns (budget + 1) s enough = loop.turns budget next left := by
  refine ⟨Nat.lt_of_lt_of_le (loop.shrinks turn) (Nat.le_of_lt_succ enough),?_⟩
  rw [turns]
  split
  · rename_i other
    obtain rfl := Turn.again.inj (turn.symm.trans other)
    rfl
  · rename_i other
    exact absurd (turn.symm.trans other) (by simp)

/-- The budget does not matter. -/
theorem turns_eq (first second : Nat) (enough : loop.size s < first) (other : loop.size s < second) :
    loop.turns first s enough = loop.turns second s other := by
  induction first generalizing s second with
  | zero => exact absurd enough (Nat.not_lt_zero _)
  | succ first ih =>
    cases second with
    | zero => exact absurd other (Nat.not_lt_zero _)
    | succ second =>
      cases turn : loop.body s with
      | leave result => rw [turns_leave turn,turns_leave turn]
      | again next =>
        obtain ⟨_,one⟩ := turns_again turn first enough
        obtain ⟨_,two⟩ := turns_again turn second other
        rw [one,two]
        exact ih _ _ _

theorem run_leave (turn : loop.body s = .leave result) : loop.run s = result := turns_leave turn _ _

theorem run_again (turn : loop.body s = .again next) : loop.run s = loop.run next := by
  obtain ⟨_,same⟩ := turns_again turn (loop.size s) (Nat.lt_succ_self _)
  exact same.trans (turns_eq _ _ _ _)

/-- What becomes of a turn. -/
def after (loop : Loop σ ρ) : Turn σ ρ → ρ
  | .again next => loop.run next
  | .leave result => result

theorem run_eq (loop : Loop σ ρ) (s : σ) : loop.run s = loop.after (loop.body s) := by
  cases turn : loop.body s with
  | again next => exact run_again turn
  | leave result => exact run_leave turn

/-- What holds behind every last turn, and is passed back over every other, holds of the run. -/
theorem run_induction (loop : Loop σ ρ) (property : σ → ρ → Prop)
    (leaves : ∀ s result, loop.body s = .leave result → property s result)
    (goes : ∀ s next, loop.body s = .again next → property next (loop.run next) → property s (loop.run next))
    (s : σ) : property s (loop.run s) := by
  induction size : loop.size s using Nat.strongRecOn generalizing s with
  | ind n ih =>
    cases turn : loop.body s with
    | leave result =>
      rw [run_leave turn]
      exact leaves s result turn
    | again next =>
      rw [run_again turn]
      exact goes s next turn (ih _ (size ▸ loop.shrinks turn) next rfl)

end Loop
