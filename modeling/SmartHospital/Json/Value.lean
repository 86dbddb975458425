import SmartHospital.Support.Decimal

/-! The values of jsoncpp.cpp that a document is read into. What the standard library
makes of floating point texts is a parameter. -/
namespace SmartHospital.Json

/-- `is >> value` and `valueToString` of a double. -/
structure Floating where
  Double : Type
  extract : Bytes → Option Double
  print : Double → Bytes

/-- No text is a double. -/
def noDoubles : Floating := ⟨Unit, fun _ => none, fun _ => []⟩

inductive Value (floating : Floating) where
  | null
  | int (value : Int)
  | uint (value : Nat)
  | real (value : floating.Double)
  | string (value : Bytes)
  | boolean (value : Bool)
  | array (elements : List (Value floating))
  | object (members : List (Bytes × Value floating))

variable {floating : Floating}

def maxInt : Nat := 2147483647

/-- The assertion leaves room for the length in front of the text and the NUL behind it. -/
def duplicateAndPrefixStringValue (value : Bytes) (length : Nat) : Option Bytes :=
  if length ≤ maxInt - 4 - 1 then some (value.take length) else none

/-- `Value(const String&)`: the length goes through `unsigned`. -/
def Value.ofString (value : Bytes) : Option (Value floating) :=
  (duplicateAndPrefixStringValue value (value.length % 2 ^ 32)).map .string

/-- `find` in the map of an object; its order is not looked at by anything here. -/
def lookup (key : Bytes) (members : List (Bytes × Value floating)) : Option (Value floating) :=
  (members.find? fun member => member.1 == key).map Prod.snd

/-- What assigning to the reference that `resolveReference` returns leaves. -/
def assign (key : Bytes) (value : Value floating) : List (Bytes × Value floating) → List (Bytes × Value floating)
  | [] => [(key, value)]
  | member :: members =>
    if member.1 = key then (key, value) :: members else member :: assign key value members

/-- `operator[]` with a key; `none` is the exception of another type. -/
def Value.member (key : Bytes) : Value floating → Option (Value floating)
  | .null => some .null
  | .object members => some ((lookup key members).getD .null)
  | _ => none

/-- `operator[]` with an index -/
def Value.element (index : Nat) : Value floating → Option (Value floating)
  | .null => some .null
  | .array elements => some (elements[index]?.getD .null)
  | _ => none

def Value.size : Value floating → Nat
  | .array elements => elements.length
  | .object members => members.length
  | _ => 0

def Value.asString : Value floating → Option Bytes
  | .null => some []
  | .string value => some value
  | .boolean value => some (if value then Bytes.ofString "true" else Bytes.ofString "false")
  | .int value => some (Decimal.print value)
  | .uint value => some (Decimal.print value)
  | .real value => some (floating.print value)
  | _ => none

theorem ofString_short {value : Bytes} (short : value.length ≤ maxInt - 4 - 1) :
    (Value.ofString value : Option (Value floating)) = some (.string value) := by
  have same : value.length % 2 ^ 32 = value.length := Nat.mod_eq_of_lt (short.trans_lt (by decide))
  rw [Value.ofString,same,duplicateAndPrefixStringValue,if_pos short,List.take_length]
  rfl

theorem ofString_eq_some {value : Bytes} {v : Value floating} (stored : Value.ofString value = some v) :
    ∃ text, v = .string text ∧ text <+: value ∧ text.length ≤ maxInt - 4 - 1 := by
  obtain ⟨text,copied,rfl⟩ := Option.map_eq_some_iff.mp stored
  obtain ⟨short,copied⟩ := Option.ite_none_right_eq_some.mp copied
  cases copied
  exact ⟨_,rfl,List.take_prefix _ _,(List.length_take_le _ _).trans short⟩

@[simp] theorem lookup_assign (key : Bytes) (value : Value floating) (members : List (Bytes × Value floating)) :
    lookup key (assign key value members) = some value := by
  induction members with
  | nil => simp [lookup,assign]
  | cons member members ih =>
    rw [assign]
    split
    · simp [lookup]
    · rename_i other
      simpa [lookup,other] using ih

theorem lookup_assign_other {key other : Bytes} (different : other ≠ key) (value : Value floating)
    (members : List (Bytes × Value floating)) : lookup other (assign key value members) = lookup other members := by
  induction members with
  | nil => simp [lookup,assign,different.symm]
  | cons member members ih =>
    rw [assign]
    split
    · rename_i same
      simp [lookup,different.symm,same]
    · by_cases here : member.1 = other
      · simp [lookup,here]
      · simpa [lookup,here] using ih

end SmartHospital.Json
