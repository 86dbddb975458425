import SmartHospital.Support.CArray

/-! Reception of one datagram into a fixed buffer. -/

inductive Received where
  | datagram (bytes : Bytes)
  | failed
  deriving DecidableEq

/-- The buffer afterwards and the value `recvfrom` returns. A datagram longer than
the buffer is cut; a failed call returns -1 and writes nothing. -/
def recvfrom (buffer : CArray n) : Received → CArray n × Int
  | .datagram bytes => (buffer.load bytes, (min bytes.length n : Nat))
  | .failed => (buffer, -1)

/-- A byte count of at most 255 survives being stored in an `unsigned char`. -/
theorem count_byte (h : count ≤ 255) : (UInt8.ofInt (count : Nat)).toNat = count := by
  rw [UInt8.ofInt,UInt8.toNat_ofNat']
  omega
