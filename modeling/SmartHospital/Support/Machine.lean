import Mathlib.Algebra.Group.Defs
import Mathlib.Data.List.Induction
import Mathlib.Data.Option.Basic
import Mathlib.Order.Lattice

/-! Finite runs of a step function that may refuse an input. A refused input ends
the run; what a run preserves is derived from what one step preserves. -/

/-- A loop body goes round again, leaves the process, or has no defined meaning. -/
inductive Outcome (α : Type*) where
  | next (value : α)
  | exit
  | undefined
  deriving DecidableEq

def Outcome.next? : Outcome α → Option α
  | .next value => some value
  | _ => none

@[simp] theorem Outcome.next?_eq_some {o : Outcome α} : o.next? = some value ↔ o = .next value := by
  cases o <;> simp [Outcome.next?]

structure Machine (σ ι : Type*) where
  step : σ → ι → Option σ

namespace Machine

variable {σ ι : Type*} {m : Machine σ ι}

def run (m : Machine σ ι) (s : σ) : List ι → Option σ
  | [] => some s
  | input :: rest => (m.step s input).bind (m.run · rest)

@[simp] theorem run_nil (s : σ) : m.run s [] = some s := rfl

@[simp] theorem run_singleton (s : σ) (input : ι) : m.run s [input] = m.step s input := by
  simp [run]

theorem run_cons : m.run s (input :: rest) = some final ↔
    ∃ middle, m.step s input = some middle ∧ m.run middle rest = some final :=
  Option.bind_eq_some_iff

theorem run_append (s : σ) (front back : List ι) :
    m.run s (front ++ back) = (m.run s front).bind (m.run · back) := by
  induction front generalizing s with
  | nil => rfl
  | cons input front ih =>
    simp only [List.cons_append,run,Option.bind_assoc]
    congr 1
    funext middle
    exact ih middle

theorem run_append_eq_some : m.run s (front ++ back) = some final ↔
    ∃ middle, m.run s front = some middle ∧ m.run middle back = some final := by
  rw [run_append]
  exact Option.bind_eq_some_iff

theorem run_snoc : m.run s (past ++ [input]) = some next ↔
    ∃ middle, m.run s past = some middle ∧ m.step middle input = some next := by
  simp only [run_append_eq_some,run_singleton]

theorem run_invariant (property : σ → Prop)
    (preserved : ∀ s input next, property s → m.step s input = some next → property next)
    (whole : m.run s inputs = some final) (initial : property s) : property final := by
  induction inputs generalizing s with
  | nil => exact Option.some.inj whole ▸ initial
  | cons input rest ih =>
    obtain ⟨middle,first,later⟩ := run_cons.mp whole
    exact ih later (preserved s input middle initial first)

/-- Some run over allowed inputs leads from one state to the other. -/
def Reaches (m : Machine σ ι) (allowed : ι → Prop) (s final : σ) : Prop :=
  ∃ inputs, (∀ input ∈ inputs, allowed input) ∧ m.run s inputs = some final

section Reaches

variable {allowed : ι → Prop} {middle next : σ}

theorem Reaches.refl (s : σ) : m.Reaches allowed s s := ⟨[],by simp,rfl⟩

theorem Reaches.single (step : m.step s input = some next) (fine : allowed input) : m.Reaches allowed s next :=
  ⟨[input],by simpa using fine,(run_singleton s input).trans step⟩

theorem Reaches.trans (first : m.Reaches allowed s middle) (later : m.Reaches allowed middle final) :
    m.Reaches allowed s final := by
  obtain ⟨front,fine,first⟩ := first
  obtain ⟨back,good,later⟩ := later
  exact ⟨front ++ back,List.forall_mem_append.mpr ⟨fine,good⟩,run_append_eq_some.mpr ⟨middle,first,later⟩⟩

theorem Reaches.invariant (property : σ → Prop)
    (preserved : ∀ s input next, property s → allowed input → m.step s input = some next → property next)
    (reached : m.Reaches allowed s final) (initial : property s) : property final := by
  obtain ⟨inputs,fine,whole⟩ := reached
  induction inputs generalizing s with
  | nil => exact Option.some.inj whole ▸ initial
  | cons input rest ih =>
    obtain ⟨allowed,fine⟩ := List.forall_mem_cons.mp fine
    obtain ⟨middle,first,later⟩ := run_cons.mp whole
    exact ih (preserved s input middle initial allowed first) fine later

end Reaches

/-- An invariant that also speaks of the inputs taken so far. -/
theorem run_history (property : List ι → σ → Prop)
    (preserved : ∀ past s input next, m.run origin past = some s → property past s →
      m.step s input = some next → property (past ++ [input]) next)
    (initial : property [] origin) (whole : m.run origin inputs = some final) :
    property inputs final := by
  induction inputs using List.reverseRecOn generalizing final with
  | nil => exact Option.some.inj whole ▸ initial
  | append_singleton past input ih =>
    obtain ⟨s,before,last⟩ := run_snoc.mp whole
    exact preserved past s input final before (ih before) last

/-- Where a step is one of `n` or leaves the abstracted state alone, a run is a run of `n`. -/
theorem run_follows {n : Machine τ κ} (abs : σ → τ)
    (steps : ∀ s input next, m.step s input = some next →
      abs next = abs s ∨ ∃ label, n.step (abs s) label = some (abs next))
    (whole : m.run s inputs = some final) : ∃ labels, n.run (abs s) labels = some (abs final) := by
  induction inputs generalizing s with
  | nil => exact ⟨[],congrArg some (congrArg abs (Option.some.inj whole))⟩
  | cons input rest ih =>
    obtain ⟨next,first,later⟩ := run_cons.mp whole
    obtain ⟨labels,follows⟩ := ih later
    rcases steps s input next first with same | ⟨label,step⟩
    · exact ⟨labels,same ▸ follows⟩
    · exact ⟨label :: labels,run_cons.mpr ⟨abs next,step,follows⟩⟩

/-- Where each input joins what it is worth to the outcome, a run is bounded by what
bounds every input; neither their order nor their number matters. -/
theorem run_joins [SemilatticeSup ω] (kept : σ → Prop) (outcome : σ → ω) (worth : ι → ω)
    (steps : ∀ input ∈ inputs, ∀ s, kept s →
      ∃ next, m.step s input = some next ∧ kept next ∧ outcome next = outcome s ⊔ worth input)
    (initial : kept s) : ∃ final, m.run s inputs = some final ∧ kept final ∧
      ∀ bound, outcome final ≤ bound ↔ outcome s ≤ bound ∧ ∀ input ∈ inputs, worth input ≤ bound := by
  induction inputs generalizing s with
  | nil => exact ⟨s,rfl,initial,by simp⟩
  | cons input rest ih =>
    obtain ⟨next,step,keeps,joined⟩ := steps input (List.mem_cons_self ..) s initial
    obtain ⟨final,later,kept,bounded⟩ := ih (fun other member => steps other (List.mem_cons_of_mem _ member)) keeps
    refine ⟨final,run_cons.mpr ⟨next,step,later⟩,kept,?_⟩
    intro bound
    rw [bounded,joined,sup_le_iff,List.forall_mem_cons,and_assoc]

theorem run_same_members [SemilatticeSup ω] (kept : σ → Prop) (outcome : σ → ω) (worth : ι → ω)
    (steps : ∀ input ∈ first, ∀ s, kept s →
      ∃ next, m.step s input = some next ∧ kept next ∧ outcome next = outcome s ⊔ worth input)
    (initial : kept s) (same : ∀ input, input ∈ first ↔ input ∈ second) :
    ∃ one other, m.run s first = some one ∧ m.run s second = some other ∧ kept one ∧ kept other ∧
      outcome one = outcome other := by
  obtain ⟨one,first,keptOne,boundOne⟩ := run_joins kept outcome worth steps initial
  obtain ⟨other,second,keptOther,boundOther⟩ :=
    run_joins kept outcome worth (fun input member => steps input ((same input).mpr member)) initial
  refine ⟨one,other,first,second,keptOne,keptOther,eq_of_forall_ge_iff ?_⟩
  intro bound
  rw [boundOne,boundOther]
  simp only [same]

/-- What the inputs of a run are worth together, each in the state it was taken in. -/
def total [AddMonoid ω] (m : Machine σ ι) (worth : σ → ι → ω) : σ → List ι → ω
  | _, [] => 0
  | s, input :: rest => worth s input + ((m.step s input).map (m.total worth · rest)).getD 0

/-- What every step into a sane state changes by the worth of its input, a run changes by
their total; a state that takes a step is sane. -/
theorem run_total [AddMonoid ω] (value : σ → ω) (worth : σ → ι → ω) (sane : σ → Prop)
    (going : ∀ s input next, m.step s input = some next → sane s)
    (steps : ∀ s input next, m.step s input = some next → sane next → value next = value s + worth s input)
    (whole : m.run s inputs = some final) (ended : sane final) : value final = value s + m.total worth s inputs := by
  induction inputs generalizing s with
  | nil =>
    obtain rfl := Option.some.inj whole
    exact (add_zero _).symm
  | cons input rest ih =>
    obtain ⟨next,first,later⟩ := run_cons.mp whole
    have fine : sane next := by
      cases rest with
      | nil => exact Option.some.inj later ▸ ended
      | cons second rest =>
        obtain ⟨_,again,_⟩ := run_cons.mp later
        exact going next second _ again
    rw [ih later,steps s input next first fine,total,first,add_assoc]
    rfl

/-- Some input of the run met the state it was taken in as `event` says. -/
def Occurs (m : Machine σ ι) (event : σ → ι → Prop) (s : σ) (inputs : List ι) : Prop :=
  ∃ before input after at_, inputs = before ++ input :: after ∧ m.run s before = some at_ ∧ event at_ input

variable {event : σ → ι → Prop}

@[simp] theorem not_occurs_nil (s : σ) : ¬ m.Occurs event s [] := by
  rintro ⟨before,input,after,_,eq,_⟩
  simp at eq

theorem occurs_cons (first : m.step s input = some next) :
    m.Occurs event s (input :: rest) ↔ event s input ∨ m.Occurs event next rest := by
  constructor
  · rintro ⟨before,i,after,state,eq,reached,happens⟩
    cases before with
    | nil =>
      obtain ⟨rfl,rfl⟩ := List.cons.inj eq
      cases reached
      exact .inl happens
    | cons head before =>
      obtain ⟨rfl,rfl⟩ := List.cons.inj eq
      obtain ⟨middle,step,later⟩ := run_cons.mp reached
      obtain rfl := Option.some.inj (step.symm.trans first)
      exact .inr ⟨before,i,after,state,rfl,later,happens⟩
  · rintro (happens | ⟨before,i,after,state,rfl,reached,happens⟩)
    · exact ⟨[],input,rest,s,rfl,rfl,happens⟩
    · exact ⟨input :: before,i,after,state,rfl,run_cons.mpr ⟨next,first,reached⟩,happens⟩

theorem Occurs.append (h : m.Occurs event s front) (back : List ι) : m.Occurs event s (front ++ back) := by
  obtain ⟨before,input,after,state,rfl,reached,happens⟩ := h
  exact ⟨before,input,after ++ back,state,by simp,reached,happens⟩

theorem occurs_append (first : m.run s front = some middle) :
    m.Occurs event s (front ++ back) ↔ m.Occurs event s front ∨ m.Occurs event middle back := by
  induction front generalizing s with
  | nil =>
    obtain rfl := Option.some.inj first
    simp
  | cons input front ih =>
    obtain ⟨next,step,later⟩ := run_cons.mp first
    rw [List.cons_append,occurs_cons step,occurs_cons step,ih later,or_assoc]

theorem occurs_snoc (reached : m.run s past = some state) (step : m.step state input = some next) :
    m.Occurs event s (past ++ [input]) ↔ m.Occurs event s past ∨ event state input := by
  rw [occurs_append reached,occurs_cons step]
  simp

theorem occurs_last (reached : m.run s past = some state) (happens : event state input) :
    m.Occurs event s (past ++ [input]) :=
  ⟨past,input,[],state,rfl,reached,happens⟩

/-- An event of a run comes with the states on both sides of its step. -/
theorem Occurs.around (happens : m.Occurs event s inputs) (whole : m.run s inputs = some final) :
    ∃ past input after at_ next, inputs = past ++ input :: after ∧ m.run s past = some at_ ∧ event at_ input ∧
      m.step at_ input = some next ∧ m.run s (past ++ [input]) = some next := by
  obtain ⟨past,input,after,at_,rfl,early,event⟩ := happens
  obtain ⟨there,same,rest⟩ := run_append_eq_some.mp whole
  obtain rfl := Option.some.inj (early.symm.trans same)
  obtain ⟨next,step,_⟩ := run_cons.mp rest
  exact ⟨past,input,after,at_,next,rfl,early,event,step,run_snoc.mpr ⟨at_,early,step⟩⟩

/-- An invariant of the runs in which an event does not occur. -/
theorem run_avoiding (property : σ → Prop)
    (preserved : ∀ past s input next, m.run origin past = some s → property s → ¬ event s input →
      m.step s input = some next → property next)
    (initial : property origin) (whole : m.run origin inputs = some final)
    (quiet : ¬ m.Occurs event origin inputs) : property final := by
  have invariant : ¬ m.Occurs event origin inputs → property final := by
    apply run_history (fun past s => ¬ m.Occurs event origin past → property s) _ _ whole
    · intro past s input next before holds step quiet
      have now := holds fun early => quiet (early.append [input])
      exact preserved past s input next before now (fun happens => quiet (occurs_last before happens)) step
    · exact fun _ => initial
  exact invariant quiet

/-- Every step of `m` is a step of `n` on the abstracted states, under a label that
may depend on the state. -/
structure Simulation (m : Machine σ ι) (n : Machine τ κ) where
  abs : σ → τ
  label : σ → ι → κ
  sound : ∀ s input next, m.step s input = some next → n.step (abs s) (label s input) = some (abs next)

namespace Simulation

variable {τ κ : Type*} {n : Machine τ κ} (sim : Simulation m n)

/-- The labels of a run. -/
def trace : σ → List ι → List κ
  | _, [] => []
  | s, input :: rest => sim.label s input :: ((m.step s input).map (trace · rest)).getD []

theorem trace_cons (first : m.step s input = some next) :
    sim.trace s (input :: rest) = sim.label s input :: sim.trace next rest := by
  simp [trace,first]

theorem trace_append (first : m.run s front = some middle) :
    sim.trace s (front ++ back) = sim.trace s front ++ sim.trace middle back := by
  induction front generalizing s with
  | nil =>
    obtain rfl := Option.some.inj first
    rfl
  | cons input front ih =>
    obtain ⟨next,step,later⟩ := run_cons.mp first
    rw [List.cons_append,trace_cons sim step,trace_cons sim step,ih later,List.cons_append]

theorem run (whole : m.run s inputs = some final) :
    n.run (sim.abs s) (sim.trace s inputs) = some (sim.abs final) := by
  induction inputs generalizing s with
  | nil => exact congrArg _ (congrArg _ (Option.some.inj whole))
  | cons input rest ih =>
    obtain ⟨next,first,later⟩ := run_cons.mp whole
    rw [trace_cons sim first]
    exact run_cons.mpr ⟨sim.abs next,sim.sound _ _ _ first,ih later⟩

/-- Where the inputs are their own labels, a run is a run of the abstract machine. -/
theorem run_inputs {n : Machine τ ι} (sim : Simulation m n) (own : ∀ s input, sim.label s input = input)
    (whole : m.run s inputs = some final) : n.run (sim.abs s) inputs = some (sim.abs final) := by
  have labels : sim.trace s inputs = inputs := by
    induction inputs generalizing s with
    | nil => rfl
    | cons input rest ih =>
      obtain ⟨next,first,later⟩ := run_cons.mp whole
      rw [trace_cons sim first,own,ih later]
  exact labels ▸ sim.run whole

/-- An event of the abstract run is the event of its labels in the concrete one. -/
theorem occurs_iff (whole : m.run s inputs = some final) (event : τ → κ → Prop) :
    n.Occurs event (sim.abs s) (sim.trace s inputs) ↔
      m.Occurs (fun s input => event (sim.abs s) (sim.label s input)) s inputs := by
  induction inputs generalizing s with
  | nil => simp [trace]
  | cons input rest ih =>
    obtain ⟨next,first,later⟩ := run_cons.mp whole
    rw [trace_cons sim first,occurs_cons first,occurs_cons (sim.sound _ _ _ first),ih later]

theorem mem_trace_iff {k : κ} (whole : m.run s inputs = some final) (property : ι → Prop)
    (names : ∀ s input, sim.label s input = k ↔ property input) :
    k ∈ sim.trace s inputs ↔ ∃ input ∈ inputs, property input := by
  induction inputs generalizing s with
  | nil => simp [trace]
  | cons input rest ih =>
    obtain ⟨next,first,later⟩ := run_cons.mp whole
    rw [trace_cons sim first,List.mem_cons,ih later,eq_comm,names]
    simp

end Simulation

end Machine
