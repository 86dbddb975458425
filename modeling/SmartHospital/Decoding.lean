import SmartHospital.Client

/-! What a client's decoder is given by the receive loop, and what it keeps of earlier
messages. The buffer and the message object are used again for every datagram. -/
namespace SmartHospital

section Object

variable {self a b : ControllerMessage} {msg : Bytes}

theorem parse_ok_keepAlive (word : parseNth 2 msg = Bytes.ofString "OK") :
    (self.parse msg).2.keepAlive = Decimal.extract (parseNth 4 msg) self.keepAlive := by
  rw [self.parse_calls,if_pos word]

/-- A word that names no state leaves the state of the earlier message in place. -/
theorem parse_unknown_state (notOk : parseNth 2 msg ≠ Bytes.ofString "OK")
    (notRlsd : parseNth 2 msg ≠ Bytes.ofString "RLSD") (notNok : parseNth 2 msg ≠ Bytes.ofString "NOK") :
    (self.parse msg).2.state = self.state := by
  rw [self.parse_calls,if_neg notOk,if_neg notRlsd,if_neg notNok]

theorem rlsd_ne_ok : Bytes.ofString "RLSD" ≠ Bytes.ofString "OK" := by decide

theorem nok_ne_ok : Bytes.ofString "NOK" ≠ Bytes.ofString "OK" := by decide

theorem nok_ne_rlsd : Bytes.ofString "NOK" ≠ Bytes.ofString "RLSD" := by decide

theorem parse_rlsd_settled (word : parseNth 2 msg = Bytes.ofString "RLSD") : (a.parse msg).2 = (b.parse msg).2 := by
  rw [a.parse_calls,b.parse_calls,word,if_neg rlsd_ne_ok,if_neg rlsd_ne_ok,if_pos rfl,if_pos rfl]

theorem parse_nok_settled (word : parseNth 2 msg = Bytes.ofString "NOK") : (a.parse msg).2 = (b.parse msg).2 := by
  rw [a.parse_calls,b.parse_calls,word,if_neg nok_ne_ok,if_neg nok_ne_ok,if_neg nok_ne_rlsd,if_neg nok_ne_rlsd,
    if_pos rfl,if_pos rfl]

theorem parse_ok_settled (word : parseNth 2 msg = Bytes.ofString "OK")
    (number : ∃ c ∈ parseNth 4 msg, Decimal.isSpace c = false) : (a.parse msg).2 = (b.parse msg).2 := by
  have same := Decimal.extract_settled_iff.mpr number a.keepAlive b.keepAlive
  rw [a.parse_calls,b.parse_calls,if_pos word,if_pos word,same]

/-- The object decoded from a message of any length is the same whatever the object held
before exactly if the message names a known state and, for an OK, a keep-alive field
that is not blank. -/
theorem parse_settled_iff (msg : Bytes) :
    (∀ a b : ControllerMessage, (a.parse msg).1 = true → (b.parse msg).1 = true →
      (a.parse msg).2 = (b.parse msg).2) ↔
      parseNth 2 msg = Bytes.ofString "RLSD" ∨ parseNth 2 msg = Bytes.ofString "NOK" ∨
        parseNth 2 msg = Bytes.ofString "OK" ∧ ∃ c ∈ parseNth 4 msg, Decimal.isSpace c = false := by
  constructor
  · intro settled
    by_cases rlsd : parseNth 2 msg = Bytes.ofString "RLSD"
    · exact .inl rlsd
    by_cases nok : parseNth 2 msg = Bytes.ofString "NOK"
    · exact .inr (.inl nok)
    by_cases ok : parseNth 2 msg = Bytes.ofString "OK"
    · refine .inr (.inr ⟨ok,Decimal.extract_settled_iff.mp ?_⟩)
      intro first second
      have same := settled ⟨⟨[], []⟩, .ok, first, []⟩ ⟨⟨[], []⟩, .ok, second, []⟩
        (ControllerMessage.parse_true _ _) (ControllerMessage.parse_true _ _)
      have numbers := congrArg ControllerMessage.keepAlive same
      rwa [parse_ok_keepAlive ok,parse_ok_keepAlive ok] at numbers
    · have same := settled ⟨⟨[], []⟩, .ok, 0, []⟩ ⟨⟨[], []⟩, .rlsd, 0, []⟩
        (ControllerMessage.parse_true _ _) (ControllerMessage.parse_true _ _)
      have states := congrArg ControllerMessage.state same
      rw [parse_unknown_state ok rlsd nok,parse_unknown_state ok rlsd nok] at states
      contradiction
  · rintro (rlsd | nok | ⟨ok,number⟩) a b _ _
    · exact parse_rlsd_settled rlsd
    · exact parse_nok_settled nok
    · exact parse_ok_settled ok number

/-- Behind a message with an unknown word, the loop sees the state of the last one. -/
theorem unknown_word_keeps_release :
    let msg := Bytes.ofString "Client_1:Controller_1:HELLO"
    let afterOk : ControllerMessage :=
      ⟨⟨Bytes.ofString "Client_1", controllerName⟩, .ok, 60, Bytes.ofString "192.168.1.1"⟩
    let afterRlsd : ControllerMessage := ⟨⟨Bytes.ofString "Client_1", controllerName⟩, .rlsd, 0, []⟩
    (afterOk.parse msg).1 = true ∧ (afterRlsd.parse msg).1 = true ∧
      (afterOk.parse msg).2.state = .ok ∧ (afterRlsd.parse msg).2.state = .rlsd :=
  ⟨rfl,rfl,rfl,rfl⟩

end Object

namespace Client

/-- The string is that of the bytes received, and a failed call ends the loop. -/
def Faithful (buffer : CArray buffLen) : Received → Prop
  | .datagram bytes => ∃ after, receive buffer (.datagram bytes) = .next (after, upToNul (bytes.take buffLen))
  | .failed => receive buffer .failed = .exit

/-- No result of the call writes outside the buffer or ends the loop: the string is
that in front of the cell its low byte names. -/
theorem receive_eq (buffer : CArray buffLen) (received : Received) : ∃ after,
    receive buffer received = .next (after, upToNul ((recvfrom buffer received).1.cells.take
      (UInt8.ofInt (recvfrom buffer received).2).toNat)) := by
  have room : (UInt8.ofInt (recvfrom buffer received).2).toNat < buffLen := UInt8.toNat_lt _
  obtain ⟨after,stored,text⟩ := CArray.set_terminator (recvfrom buffer received).1 room
  have nonneg : ¬ (((UInt8.ofInt (recvfrom buffer received).2).toNat : Int) < 0) := by omega
  refine ⟨after,?_⟩
  simp only [receive,nonneg,if_false,stored,text]

theorem receive_failed (buffer : CArray buffLen) : receive buffer .failed ≠ .exit := by
  obtain ⟨after,handled⟩ := receive_eq buffer .failed
  simp [handled]

theorem upToNul_eq_nil_iff : upToNul l = [] ↔ l = [] ∨ l.head? = some 0 := by
  cases l with
  | nil => simp [upToNul]
  | cons b rest => simp [upToNul,List.takeWhile_cons]

/-- A count of 256 goes round to zero, and the terminator to the front. -/
theorem receive_full (buffer : CArray buffLen) (full : 256 ≤ List.length bytes) :
    ∃ after, receive buffer (.datagram bytes) = .next (after, []) := by
  obtain ⟨after,handled⟩ := receive_eq buffer (.datagram bytes)
  have count : min bytes.length buffLen = 256 := Nat.min_eq_right full
  have byte : (UInt8.ofInt (256 : Nat)).toNat = 0 := rfl
  rw [recvfrom,count,byte] at handled
  exact ⟨after,handled⟩

theorem receive_fits (buffer : CArray buffLen) (short : List.length bytes ≤ 255) :
    ∃ after, receive buffer (.datagram bytes) = .next (after, upToNul bytes) := by
  obtain ⟨after,handled⟩ := receive_eq buffer (.datagram bytes)
  have whole : bytes.take buffLen = bytes := List.take_of_length_le (Nat.le_succ_of_le short)
  have count : min bytes.length buffLen = bytes.length := Nat.min_eq_left (Nat.le_succ_of_le short)
  simp only [recvfrom,count,count_byte short,CArray.load_cells,whole,List.take_left] at handled
  exact ⟨after,handled⟩

/-- Whatever the buffer held, the decoder is given what was received, no more and no
less, exactly for up to 255 bytes and for a full buffer that starts with NUL. A failed
call is never noticed. -/
theorem receive_faithful_iff (buffer : CArray buffLen) (received : Received) :
    Faithful buffer received ↔
      ∃ bytes, received = .datagram bytes ∧ (bytes.length ≤ 255 ∨ bytes.head? = some 0) := by
  cases received with
  | failed =>
    constructor
    · intro ends
      exact absurd ends (receive_failed buffer)
    · rintro ⟨_,other,_⟩
      contradiction
  | datagram bytes =>
    simp only [Faithful,Received.datagram.injEq,exists_eq_left']
    rcases Nat.lt_or_ge bytes.length 256 with short | full
    · have short := Nat.le_of_lt_succ short
      have whole : bytes.take buffLen = bytes := List.take_of_length_le (Nat.le_succ_of_le short)
      rw [whole]
      exact ⟨fun _ => .inl short,fun _ => receive_fits buffer short⟩
    · obtain ⟨after,handled⟩ := receive_full buffer full
      obtain ⟨b,rest,rfl⟩ := List.exists_cons_of_length_pos (Nat.lt_of_lt_of_le (by decide) full)
      have head : (b :: rest).take buffLen = b :: rest.take 255 := rfl
      have long : ¬ (b :: rest).length ≤ 255 := Nat.not_le.mpr full
      rw [handled,head]
      simp only [long,false_or,Outcome.next.injEq,Prod.mk.injEq,exists_eq_left',eq_comm (a := [])]
      rw [upToNul_eq_nil_iff]
      simp only [reduceCtorEq,false_or,List.head?_cons]

/-- A release that is still in the buffer is decoded again behind a failed call. -/
theorem failed_call_decodes : ∃ buffer after,
    receive buffer .failed = .next (after, Bytes.ofString "Client_1:Controller_1:RLSD") ∧ ¬ Faithful buffer .failed :=
  ⟨(CArray.zeros buffLen).load (Bytes.ofString "Client_1:Controller_1:RLSD"),_,rfl,receive_failed _⟩

end Client

end SmartHospital
