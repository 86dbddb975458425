import SmartHospital.Message

/-! Successive calls of `Message::parseOne` against the split of a string at every
colon, and the two parsers as readers of components. -/
namespace SmartHospital

/-- What `n` successive calls of `parseOne` on one string return, and what they leave in it. -/
def parseTimes (n : Nat) (msg : Bytes) : List Bytes × Bytes :=
  match n with
  | 0 => ([], msg)
  | n + 1 =>
    let (ret, msg) := parseOne msg
    let (rets, msg) := parseTimes n msg
    (ret :: rets, msg)

/-- The reference: a string split at every colon. -/
def components (msg : Bytes) : List Bytes := msg.splitOn colon

/-- A component by its position; nothing once the components are used up. -/
def component (msg : Bytes) (i : Nat) : Bytes := (components msg).getD i []

theorem components_append (free : colon ∉ a) (rest : Bytes) :
    components (a ++ colon :: rest) = a :: components rest :=
  List.splitOn_append_cons_self_of_not_mem free rest

theorem components_last (free : colon ∉ a) : components a = [a] := List.splitOn_eq_singleton free

theorem field_eq_component (skip : Nat) (msg : Bytes) : field skip msg = component msg skip := by
  induction skip generalizing msg with
  | zero =>
    by_cases separated : colon ∈ msg
    · obtain ⟨a,b,rfl,free⟩ := List.eq_append_cons_of_mem separated
      rw [field_zero free,component,components_append free,List.getD_cons_zero]
    · rw [field_last separated,component,components_last separated,List.getD_cons_zero]
  | succ skip ih =>
    by_cases separated : colon ∈ msg
    · obtain ⟨a,b,rfl,free⟩ := List.eq_append_cons_of_mem separated
      rw [field_succ free,ih,component,component,components_append free,List.getD_cons_succ]
    · rw [field_beyond separated,component,components_last separated,List.getD_cons_succ]
      rfl

/-- Within the range of `int`, the calls are cuts. -/
theorem parseTimes_eq_cuts (n : Nat) (short : Short msg) : parseTimes n msg = Fields.cuts colon n msg := by
  induction n generalizing msg with
  | zero => rfl
  | succ n ih =>
    rw [parseTimes,Fields.cuts,parseOne_eq short]
    simp only [ih short.rest]

theorem parseTimes_eq (n : Nat) (short : Short msg) :
    parseTimes n msg =
      ((components msg).take n ++ List.replicate (n - (components msg).length) [],
        List.intercalate [colon] ((components msg).drop n)) := by
  rw [parseTimes_eq_cuts n short]
  exact Fields.cuts_eq colon n msg

theorem parseTimes_free (n : Nat) (short : Short msg) (returned : ret ∈ (parseTimes n msg).1) : colon ∉ ret := by
  rw [parseTimes_eq n short] at returned
  rcases List.mem_append.mp returned with taken | exhausted
  · exact Fields.free_of_mem_splitOn msg (List.mem_of_mem_take taken)
  · rw [List.eq_of_mem_replicate exhausted]
    exact List.not_mem_nil

/-- A request read off its components. -/
def ClientMessage.ofComponents (self : ClientMessage) (component : Nat → Bytes) : Bool × ClientMessage :=
  if component 2 = Bytes.ofString "Alive" then
    (false, { self with receiverId := component 0, senderId := component 1 })
  else (true, ⟨⟨component 0, component 1⟩, component 2, component 3⟩)

/-- How many components that reads. -/
def ClientMessage.reads (component : Nat → Bytes) : Nat :=
  if component 2 = Bytes.ofString "Alive" then 3 else 4

/-- A reply read off its components. -/
def ControllerMessage.ofComponents (self : ControllerMessage) (component : Nat → Bytes) : Bool × ControllerMessage :=
  (true,
    if component 2 = Bytes.ofString "OK" then
      ⟨⟨component 0, component 1⟩, .ok, Decimal.extract (component 4) self.keepAlive, component 3⟩
    else if component 2 = Bytes.ofString "RLSD" then ⟨⟨component 0, component 1⟩, .rlsd, 0, []⟩
    else if component 2 = Bytes.ofString "NOK" then ⟨⟨component 0, component 1⟩, .nok, 0, []⟩
    else { self with receiverId := component 0, senderId := component 1 })

def ControllerMessage.reads (component : Nat → Bytes) : Nat :=
  if component 2 = Bytes.ofString "OK" then 5 else 3

theorem ClientMessage.parse_components (self : ClientMessage) (short : Short msg) :
    self.parse msg = self.ofComponents (component msg) := by
  rw [ClientMessage.parse_eq self short,ClientMessage.ofComponents]
  simp only [field_eq_component]

theorem ControllerMessage.parse_components (self : ControllerMessage) (short : Short msg) :
    self.parse msg = self.ofComponents (component msg) := by
  refine Prod.ext (ControllerMessage.parse_true self msg) ?_
  rw [ControllerMessage.parse_eq self short,ControllerMessage.ofComponents]
  simp only [field_eq_component]

section

variable {c d : Nat → Bytes}

/-- What stands behind the last component read is ignored. -/
theorem ClientMessage.ofComponents_congr (self : ClientMessage) (same : ∀ i < ClientMessage.reads c, d i = c i) :
    self.ofComponents d = self.ofComponents c := by
  unfold ClientMessage.reads at same
  by_cases alive : c 2 = Bytes.ofString "Alive"
  · rw [if_pos alive] at same
    rw [ofComponents,ofComponents,same 0 (by decide),same 1 (by decide),same 2 (by decide),if_pos alive,if_pos alive]
  · rw [if_neg alive] at same
    rw [ofComponents,ofComponents,same 0 (by decide),same 1 (by decide),same 2 (by decide),same 3 (by decide)]

theorem ControllerMessage.ofComponents_congr (self : ControllerMessage)
    (same : ∀ i < ControllerMessage.reads c, d i = c i) : self.ofComponents d = self.ofComponents c := by
  unfold ControllerMessage.reads at same
  by_cases ok : c 2 = Bytes.ofString "OK"
  · rw [if_pos ok] at same
    rw [ofComponents,ofComponents,same 0 (by decide),same 1 (by decide),same 2 (by decide),same 3 (by decide),
      same 4 (by decide)]
  · rw [if_neg ok] at same
    rw [ofComponents,ofComponents,same 0 (by decide),same 1 (by decide),same 2 (by decide),if_neg ok,if_neg ok]

end

/-- The tokenizer law: successive calls walk the components and leave the others joined,
so both parsers read by position and ignore whatever follows. -/
theorem tokenizer_law (short : Short msg) :
    (∀ n, parseTimes n msg =
        ((components msg).take n ++ List.replicate (n - (components msg).length) [],
          List.intercalate [colon] ((components msg).drop n)) ∧
      ∀ ret ∈ (parseTimes n msg).1, colon ∉ ret) ∧
    (∀ self : ClientMessage, self.parse msg = self.ofComponents (component msg) ∧
      ∀ other, Short other → (∀ i < ClientMessage.reads (component msg), component other i = component msg i) →
        self.parse other = self.parse msg) ∧
    ∀ self : ControllerMessage, self.parse msg = self.ofComponents (component msg) ∧
      ∀ other, Short other → (∀ i < ControllerMessage.reads (component msg), component other i = component msg i) →
        self.parse other = self.parse msg := by
  refine ⟨fun n => ⟨parseTimes_eq n short,fun ret returned => parseTimes_free n short returned⟩,?_,?_⟩
  · intro self
    refine ⟨self.parse_components short,fun other otherShort same => ?_⟩
    rw [self.parse_components short,self.parse_components otherShort]
    exact self.ofComponents_congr same
  · intro self
    refine ⟨self.parse_components short,fun other otherShort same => ?_⟩
    rw [self.parse_components short,self.parse_components otherShort]
    exact self.ofComponents_congr same

/-- An empty component, a trailing separator, and one call too many. -/
theorem tokenizer_law_trailing :
    parseTimes 5 (Bytes.ofString "a::b:") = ([Bytes.ofString "a", [], Bytes.ofString "b", [], []], []) := by
  have short : Short (Bytes.ofString "a::b:") := by unfold Short; decide
  obtain ⟨calls,_,_⟩ := tokenizer_law short
  rw [(calls 5).1]
  decide

end SmartHospital
