import SmartHospital.Support.Decimal
import SmartHospital.Support.Fields

/-! The message classes of messageParser.cpp. A parser overwrites the fields it
reads in the object it is called on, so an object is an argument and a result. -/
namespace SmartHospital

/-- The separator of every message. -/
def colon : UInt8 := 58

def controllerName : Bytes := Bytes.ofString "Controller_1"

inductive ControllerMsgState where
  | ok | nok | rlsd
  deriving DecidableEq, Repr

structure Message where
  receiverId : Bytes
  senderId : Bytes
  deriving DecidableEq

@[ext] structure ClientMessage extends Message where
  type : Bytes
  purpose : Bytes
  deriving DecidableEq

structure ControllerMessage extends Message where
  state : ControllerMsgState
  keepAlive : Int
  brokerIP : Bytes
  deriving DecidableEq

/-- `msg.find(":")`; `none` is `std::string::npos`. -/
def find (msg : Bytes) : Option Nat := msg.findIdx? (· == colon)

/-- A 64-bit size squeezed into an `int`; `npos` becomes -1. -/
def toInt : Option Nat → Int
  | none => -1
  | some n => (BitVec.ofNat 32 n).toInt

/-- An `int` widened back to a 64-bit size. -/
def toSize (z : Int) : Nat := (BitVec.ofInt 64 z).toNat

/-- `found + 1` of an `int`. Past the greatest one the sum has no meaning; it goes round here. -/
def increment (found : Int) : Int := (BitVec.ofInt 32 (found + 1)).toInt

/-- The returned field and the rest left in the caller's string. -/
def parseOne (msg : Bytes) : Bytes × Bytes :=
  let found := toInt (find msg)
  if found = toInt none then (msg, [])
  else (msg.take (toSize found), msg.drop (toSize (increment found)))

def ClientMessage.parse (self : ClientMessage) (msg : Bytes) : Bool × ClientMessage :=
  let (receiverId, msg) := parseOne msg
  let (senderId, msg) := parseOne msg
  let (msgType, msg) := parseOne msg
  if msgType = Bytes.ofString "Alive" then
    (false, { self with receiverId := receiverId, senderId := senderId })
  else
    let (purpose, _) := parseOne msg
    (true, { receiverId := receiverId, senderId := senderId, type := msgType, purpose := purpose })

def ControllerMessage.parse (self : ControllerMessage) (msg : Bytes) : Bool × ControllerMessage :=
  let (receiverId, msg) := parseOne msg
  let (senderId, msg) := parseOne msg
  let (stat, msg) := parseOne msg
  let self := { self with receiverId := receiverId, senderId := senderId }
  if stat = Bytes.ofString "OK" then
    let (brokerIP, msg) := parseOne msg
    let (keepAl, _) := parseOne msg
    (true, { self with
      state := .ok, brokerIP := brokerIP, keepAlive := Decimal.extract keepAl self.keepAlive })
  else if stat = Bytes.ofString "RLSD" then
    (true, { self with state := .rlsd, brokerIP := [], keepAlive := 0 })
  else if stat = Bytes.ofString "NOK" then
    (true, { self with state := .nok, brokerIP := [], keepAlive := 0 })
  else (true, self)

theorem toInt_of_lt {n : Nat} (h : n < 2147483648) : toInt (some n) = n := by
  rw [toInt,BitVec.toInt_eq_toNat_of_lt]
  all_goals simp only [BitVec.toNat_ofNat]
  all_goals omega

theorem toSize_of_lt {n : Nat} (h : n < 2147483649) : toSize n = n := by
  rw [toSize,BitVec.ofInt_natCast,BitVec.toNat_ofNat]
  omega

theorem increment_of_lt {n : Nat} (h : n < 2147483647) : increment n = (n + 1 : Nat) := by
  have sum : (n : Int) + 1 = (n + 1 : Nat) := by omega
  rw [increment,sum,BitVec.ofInt_natCast]
  exact toInt_of_lt (by omega)

/-- Every position in the string is an `int`. -/
def Short (msg : Bytes) : Prop := msg.length < 2147483648

/-- Within the range of `int`, one call takes the first field off the string. -/
theorem parseOne_eq (short : Short msg) : parseOne msg = Fields.cut colon msg := by
  by_cases separated : colon ∈ msg
  · obtain ⟨a,b,rfl,free⟩ := List.eq_append_cons_of_mem separated
    simp only [Short,List.length_append,List.length_cons] at short
    have found : toInt (find (a ++ colon :: b)) = a.length := by
      have inside : a.length < 2147483648 := by omega
      rw [find,Fields.findIdx?_append free]
      exact toInt_of_lt inside
    have inside : (a.length : Int) ≠ toInt none := by simp only [toInt]; omega
    simp only [parseOne,found,inside,if_false]
    rw [increment_of_lt (by omega),toSize_of_lt (by omega),toSize_of_lt (by omega),Fields.cut_append free]
    simp [List.drop_append]
  · rw [Fields.cut_last separated]
    have missing : find msg = none := Fields.findIdx?_free separated
    rw [parseOne,missing]
    exact if_pos rfl

theorem Short.rest (short : Short msg) : Short (Fields.cut colon msg).2 :=
  (Fields.rest_length msg).trans_lt short

/-- The field a parser reads after `skip` calls on a string. -/
def field (skip : Nat) (msg : Bytes) : Bytes :=
  match skip with
  | 0 => (Fields.cut colon msg).1
  | skip + 1 => field skip (Fields.cut colon msg).2

theorem field_free (skip : Nat) (msg : Bytes) : colon ∉ field skip msg := by
  induction skip generalizing msg with
  | zero => exact Fields.field_free msg
  | succ skip ih => exact ih _

theorem mem_of_mem_field (skip : Nat) (msg : Bytes) (h : b ∈ field skip msg) : b ∈ msg := by
  induction skip generalizing msg with
  | zero => exact (Fields.first_isPrefix msg).subset h
  | succ skip ih => exact (Fields.rest_isSuffix msg).subset (ih _ h)

@[simp] theorem field_zero (free : colon ∉ a) (rest : Bytes) : field 0 (a ++ colon :: rest) = a := by
  rw [field,Fields.cut_append free]

@[simp] theorem field_succ (free : colon ∉ a) (rest : Bytes) (skip : Nat) :
    field (skip + 1) (a ++ colon :: rest) = field skip rest := by
  rw [field,Fields.cut_append free]

@[simp] theorem field_last (free : colon ∉ a) : field 0 a = a := by
  rw [field,Fields.cut_last free]

theorem field_ne_nil (behind : field skip msg ≠ []) : msg ≠ [] := by
  rintro rfl
  induction skip with
  | zero => exact behind rfl
  | succ skip ih => exact ih behind

/-- Behind the last field there is nothing. -/
theorem field_beyond (free : colon ∉ a) (skip : Nat) : field (skip + 1) a = [] := by
  rw [field,Fields.cut_last free]
  by_contra behind
  exact field_ne_nil behind rfl

/-- A message with a third field is at least as long as its three fields and two separators. -/
theorem length_fields (third : field 2 msg ≠ []) :
    (field 0 msg).length + (field 1 msg).length + (field 2 msg).length + 2 ≤ msg.length := by
  have second : field 1 (Fields.cut colon msg).2 ≠ [] := third
  have last : field 0 (Fields.cut colon (Fields.cut colon msg).2).2 ≠ [] := third
  have whole := Fields.length_cut (field_ne_nil second)
  have rest := Fields.length_cut (field_ne_nil last)
  have tail : field 2 msg <+: (Fields.cut colon (Fields.cut colon msg).2).2 := Fields.first_isPrefix _
  have tail := tail.length_le
  simp only [field] at *
  omega

theorem field_two (msg : Bytes) :
    field 2 msg = (Fields.cut colon (Fields.cut colon (Fields.cut colon msg).2).2).1 := rfl

/-- What the call behind `skip` others on one string returns. -/
def parseNth (skip : Nat) (msg : Bytes) : Bytes :=
  match skip with
  | 0 => (parseOne msg).1
  | skip + 1 => parseNth skip (parseOne msg).2

theorem parseNth_eq_field (skip : Nat) (short : Short msg) : parseNth skip msg = field skip msg := by
  induction skip generalizing msg with
  | zero => rw [parseNth,parseOne_eq short,field]
  | succ skip ih =>
    rw [parseNth,parseOne_eq short,field]
    exact ih short.rest

/-- What a request leaves in the object, by field position. -/
theorem ClientMessage.parse_eq (self : ClientMessage) (short : Short msg) :
    self.parse msg =
      if field 2 msg = Bytes.ofString "Alive" then
        (false, { self with receiverId := field 0 msg, senderId := field 1 msg })
      else (true, ⟨⟨field 0 msg, field 1 msg⟩, field 2 msg, field 3 msg⟩) := by
  have first := short.rest
  have second := first.rest
  have third := second.rest
  unfold ClientMessage.parse
  rw [parseOne_eq short]
  dsimp only
  rw [parseOne_eq first,parseOne_eq second,parseOne_eq third,← field_two]
  rfl

theorem ClientMessage.parse_ids (self : ClientMessage) (short : Short msg) :
    (self.parse msg).2.receiverId = field 0 msg ∧ (self.parse msg).2.senderId = field 1 msg := by
  rw [ClientMessage.parse_eq self short]
  split <;> exact ⟨rfl,rfl⟩

/-- Every text is decoded, one way or the other. -/
theorem ControllerMessage.parse_true (self : ControllerMessage) (msg : Bytes) : (self.parse msg).1 = true := by
  unfold ControllerMessage.parse
  dsimp only
  repeat' split
  all_goals rfl

/-- What a reply leaves in the object, call by call, on strings of any length. -/
theorem ControllerMessage.parse_calls (self : ControllerMessage) (msg : Bytes) :
    (self.parse msg).2 =
      if parseNth 2 msg = Bytes.ofString "OK" then
        ⟨⟨parseNth 0 msg, parseNth 1 msg⟩, .ok, Decimal.extract (parseNth 4 msg) self.keepAlive, parseNth 3 msg⟩
      else if parseNth 2 msg = Bytes.ofString "RLSD" then ⟨⟨parseNth 0 msg, parseNth 1 msg⟩, .rlsd, 0, []⟩
      else if parseNth 2 msg = Bytes.ofString "NOK" then ⟨⟨parseNth 0 msg, parseNth 1 msg⟩, .nok, 0, []⟩
      else { self with receiverId := parseNth 0 msg, senderId := parseNth 1 msg } := by
  unfold ControllerMessage.parse
  dsimp only
  split
  · rename_i ok
    exact (if_pos ok).symm
  · rename_i notOk
    refine Eq.trans ?_ (if_neg notOk).symm
    split
    · rename_i rlsd
      exact (if_pos rlsd).symm
    · rename_i notRlsd
      refine Eq.trans ?_ (if_neg notRlsd).symm
      split
      · rename_i nok
        exact (if_pos nok).symm
      · rename_i unknown
        exact (if_neg unknown).symm

/-- What a reply with a known status word leaves in the object, by field position. -/
theorem ControllerMessage.parse_eq (self : ControllerMessage) (short : Short msg) :
    (self.parse msg).2 =
      if field 2 msg = Bytes.ofString "OK" then
        ⟨⟨field 0 msg, field 1 msg⟩, .ok, Decimal.extract (field 4 msg) self.keepAlive, field 3 msg⟩
      else if field 2 msg = Bytes.ofString "RLSD" then ⟨⟨field 0 msg, field 1 msg⟩, .rlsd, 0, []⟩
      else if field 2 msg = Bytes.ofString "NOK" then ⟨⟨field 0 msg, field 1 msg⟩, .nok, 0, []⟩
      else { self with receiverId := field 0 msg, senderId := field 1 msg } := by
  have calls := self.parse_calls msg
  simpa only [parseNth_eq_field _ short] using calls

/-- The word a reply carries for its state. -/
def ControllerMsgState.word : ControllerMsgState → Bytes
  | .ok => Bytes.ofString "OK"
  | .nok => Bytes.ofString "NOK"
  | .rlsd => Bytes.ofString "RLSD"

/-- The word read back decides the state, whatever the object held. -/
theorem ControllerMessage.parse_state (self : ControllerMessage) (st : ControllerMsgState)
    (short : Short msg) (word : field 2 msg = st.word) :
    (self.parse msg).2.state = st := by
  rw [ControllerMessage.parse_eq self short,word]
  cases st <;> simp [ControllerMsgState.word,Bytes.ofString]

theorem ControllerMessage.parse_ids (self : ControllerMessage) (short : Short msg) :
    (self.parse msg).2.receiverId = field 0 msg ∧ (self.parse msg).2.senderId = field 1 msg := by
  rw [ControllerMessage.parse_eq self short]
  repeat' split
  all_goals exact ⟨rfl,rfl⟩

end SmartHospital
