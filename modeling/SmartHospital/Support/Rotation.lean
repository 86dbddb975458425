import Mathlib.Data.Set.Insert
import SmartHospital.Support.Machine

/-! A roster of two generations. Anyone may enrol, members of the current generation
may renew themselves, both for the next one; a rotation puts the next generation in
place. Up to the first rotation enrolment is immediate, and that rotation replaces
nothing. -/
namespace Rotation

@[ext] structure Roster (α : Type*) where
  current : Set α
  next : Set α
  starting : Prop

inductive Op (α : Type*) where
  | enrol (a : α)
  | renew (a : α)
  | rotate
  | idle

variable {α : Type*} {a b : α} {r r' : Roster α} {ops : List (Op α)}

namespace Roster

def empty : Roster α := ⟨∅, ∅, True⟩

def enrol (r : Roster α) (a : α) : Roster α where
  current := {b | b ∈ r.current ∨ r.starting ∧ b = a}
  next := {b | b ∈ r.next ∨ ¬ r.starting ∧ b = a}
  starting := r.starting

def renew (r : Roster α) (a : α) : Roster α :=
  { r with next := {b | b ∈ r.next ∨ a ∈ r.current ∧ b = a} }

def rotate (r : Roster α) : Roster α where
  current := {b | r.starting ∧ b ∈ r.current ∨ ¬ r.starting ∧ b ∈ r.next}
  next := {b | r.starting ∧ b ∈ r.next}
  starting := False

def apply (r : Roster α) : Op α → Roster α
  | .enrol a => r.enrol a
  | .renew a => r.renew a
  | .rotate => r.rotate
  | .idle => r

end Roster

def machine (α : Type*) : Machine (Roster α) (Op α) := ⟨fun r op => some (r.apply op)⟩

/-- An accepted renewal. -/
def Renews (a : α) (r : Roster α) (op : Op α) : Prop := op = .renew a ∧ a ∈ r.current

/-- An operation that carries `a` over into the next generation of a started roster. -/
def Marks (a : α) (r : Roster α) (op : Op α) : Prop := op = .enrol a ∨ Renews a r op

/-- No rotation among the operations. -/
def Calm (ops : List (Op α)) : Prop := .rotate ∉ ops

theorem calm_cons {op : Op α} : Calm (op :: ops) ↔ op ≠ .rotate ∧ Calm ops := by
  simp [Calm,eq_comm]

theorem run_cons {op : Op α} : (machine α).run r (op :: ops) = some r' ↔ (machine α).run (r.apply op) ops = some r' := by
  rw [Machine.run_cons]
  exact ⟨fun ⟨_,first,later⟩ => Option.some.inj first ▸ later,fun later => ⟨_,rfl,later⟩⟩

theorem calm_starting (calm : Calm ops) (whole : (machine α).run r ops = some r') :
    r'.starting = r.starting := by
  induction ops generalizing r with
  | nil => rw [Option.some.inj whole]
  | cons op ops ih =>
    obtain ⟨other,rest⟩ := calm_cons.mp calm
    rw [ih rest (run_cons.mp whole)]
    cases op with
    | rotate => exact absurd rfl other
    | _ => rfl

/-- Within a period nobody leaves either generation. -/
theorem calm_mono (calm : Calm ops) (whole : (machine α).run r ops = some r') :
    r.current ⊆ r'.current ∧ r.next ⊆ r'.next := by
  induction ops generalizing r with
  | nil =>
    obtain rfl := Option.some.inj whole
    exact ⟨subset_rfl,subset_rfl⟩
  | cons op ops ih =>
    obtain ⟨other,rest⟩ := calm_cons.mp calm
    obtain ⟨current,next⟩ := ih rest (run_cons.mp whole)
    refine ⟨subset_trans ?_ current,subset_trans ?_ next⟩
    all_goals
      intro b member
      cases op with
      | enrol _ => exact .inl member
      | renew _ => first | exact member | exact .inl member
      | rotate => exact absurd rfl other
      | idle => exact member

/-- Once started, the current generation is fixed until the next rotation. -/
theorem calm_current (calm : Calm ops) (started : ¬ r.starting) (whole : (machine α).run r ops = some r') :
    r'.current = r.current := by
  induction ops generalizing r with
  | nil => rw [Option.some.inj whole]
  | cons op ops ih =>
    obtain ⟨other,rest⟩ := calm_cons.mp calm
    cases op with
    | enrol a =>
      rw [ih rest (r := r.enrol a) started (run_cons.mp whole)]
      simp [Roster.enrol,started]
    | renew a => exact ih rest (r := r.renew a) started (run_cons.mp whole)
    | rotate => exact absurd rfl other
    | idle => exact ih rest started (run_cons.mp whole)

/-- A period adds to the next generation what its operations carry over, where
`event` says so for one operation in the phase the period lies in. -/
theorem calm_next (event : Roster α → Op α → Prop) (phase : Prop)
    (carried : ∀ r op, r.starting = phase → op ≠ .rotate → (a ∈ (r.apply op).next ↔ a ∈ r.next ∨ event r op))
    (calm : Calm ops) (start : r.starting = phase) (whole : (machine α).run r ops = some r') :
    a ∈ r'.next ↔ a ∈ r.next ∨ (machine α).Occurs event r ops := by
  induction ops generalizing r with
  | nil =>
    obtain rfl := Option.some.inj whole
    simp
  | cons op ops ih =>
    obtain ⟨other,rest⟩ := calm_cons.mp calm
    have same : (r.apply op).starting = r.starting := by
      cases op with
      | rotate => exact absurd rfl other
      | _ => rfl
    have step : (machine α).step r op = some (r.apply op) := rfl
    rw [Machine.occurs_cons step,← or_assoc,← carried r op start other]
    exact ih rest (same.trans start) (run_cons.mp whole)

theorem mem_renew_next : a ∈ (r.renew b).next ↔ a ∈ r.next ∨ Renews a r (.renew b) := by
  simp only [Roster.renew,Renews,Set.mem_ofPred_eq,Op.renew.injEq]
  constructor
  · rintro (member | ⟨member,rfl⟩)
    · exact .inl member
    · exact .inr ⟨rfl,member⟩
  · rintro (member | ⟨rfl,member⟩)
    · exact .inl member
    · exact .inr ⟨member,rfl⟩

theorem calm_next_started (calm : Calm ops) (started : ¬ r.starting) (whole : (machine α).run r ops = some r') :
    a ∈ r'.next ↔ a ∈ r.next ∨ (machine α).Occurs (Marks a) r ops := by
  apply calm_next (Marks a) False _ calm (eq_false started) whole
  intro r op phase other
  cases op with
  | enrol b => simp [Roster.apply,Roster.enrol,Marks,Renews,phase,eq_comm]
  | renew b => simpa [Marks,Roster.apply] using mem_renew_next
  | rotate => exact absurd rfl other
  | idle => simp [Roster.apply,Marks,Renews]

theorem calm_next_starting (calm : Calm ops) (starting : r.starting) (whole : (machine α).run r ops = some r') :
    a ∈ r'.next ↔ a ∈ r.next ∨ (machine α).Occurs (Renews a) r ops := by
  apply calm_next (Renews a) True _ calm (eq_true starting) whole
  intro r op phase other
  cases op with
  | enrol b => simp [Roster.apply,Roster.enrol,Renews,phase]
  | renew b => exact mem_renew_next
  | rotate => exact absurd rfl other
  | idle => simp [Roster.apply,Renews]

/-- The start phase ends for good with the first rotation. -/
theorem started_of_rotation (rotated : .rotate ∈ ops) (whole : (machine α).run r ops = some r') :
    ¬ r'.starting := by
  obtain ⟨front,back,rfl⟩ := List.append_of_mem rotated
  obtain ⟨middle,_,later⟩ := Machine.run_append_eq_some.mp whole
  refine Machine.run_invariant (¬ ·.starting) ?_ (run_cons.mp later) not_false
  intro r op next started step
  obtain rfl := Option.some.inj step
  cases op with
  | rotate => exact not_false
  | _ => exact started

/-- Until the next rotation, an enrolment counts only where it was not needed or
where the roster is still starting. -/
theorem current_before_rotation (calm : Calm ops) (whole : (machine α).run (r.enrol a) ops = some r') :
    a ∈ r'.current ↔ r.starting ∨ a ∈ r.current := by
  by_cases starting : r.starting
  · have enrolled : a ∈ (r.enrol a).current := .inr ⟨starting,rfl⟩
    simp [(calm_mono calm whole).1 enrolled,starting]
  · rw [calm_current calm (r := r.enrol a) starting whole]
    simp [Roster.enrol,starting]

/-- It counts in the period behind that rotation. -/
theorem current_after_rotation (front : Calm before) (back : Calm after)
    (whole : (machine α).run (r.enrol a) (before ++ .rotate :: after) = some r') : a ∈ r'.current := by
  obtain ⟨middle,first,later⟩ := Machine.run_append_eq_some.mp whole
  obtain ⟨current,next⟩ := calm_mono front first
  have phase := calm_starting front first
  have rotated : a ∈ middle.rotate.current := by
    by_cases starting : r.starting
    · exact .inl ⟨phase ▸ starting,current (.inr ⟨starting,rfl⟩)⟩
    · exact .inr ⟨phase ▸ starting,next (.inr ⟨starting,rfl⟩)⟩
  exact (calm_mono back (run_cons.mp later)).1 rotated

/-- A rotation other than the first installs whoever was marked in the period it
ends, and whoever renewed before a first rotation that began this period. -/
theorem period_law (reached : (machine α).run .empty (before ++ [.rotate]) = some r) (calm : Calm ops)
    (whole : (machine α).run r ops = some r') :
    a ∈ r'.rotate.current ↔ (machine α).Occurs (Marks a) r ops ∨
      Calm before ∧ (machine α).Occurs (Renews a) .empty before := by
  obtain ⟨last,first,turned⟩ := Machine.run_append_eq_some.mp reached
  obtain rfl := Option.some.inj (run_cons.mp turned)
  have started : ¬ last.rotate.starting := not_false
  have ended : ¬ r'.starting := calm_starting calm whole ▸ started
  have installed : a ∈ r'.rotate.current ↔ a ∈ r'.next := by simp [Roster.rotate,ended]
  rw [installed,calm_next_started calm started whole,or_comm]
  apply or_congr_right
  by_cases rotated : .rotate ∈ before
  · have gone := started_of_rotation rotated first
    simp [Roster.rotate,Calm,gone,rotated]
  · have phase : last.starting := (calm_starting rotated first).symm ▸ trivial
    have renewed := calm_next_starting (a := a) (r := .empty) rotated trivial first
    simpa [Roster.rotate,Roster.empty,Calm,phase,rotated] using renewed

end Rotation
