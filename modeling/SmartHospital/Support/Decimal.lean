import SmartHospital.Support.CArray
import Mathlib.Data.Nat.Digits.Defs
import Mathlib.Tactic.IntervalCases

/-! Decimal integers as `sprintf "%d"` prints them and as a formatted stream
extraction into a 32-bit `int` reads them back. -/
namespace Decimal

def zero : UInt8 := 48
def minus : UInt8 := 45
def plus : UInt8 := 43

def digits (n : Nat) : Bytes := (Nat.toDigits 10 n).map Char.toUInt8

def print (z : Int) : Bytes :=
  if z < 0 then minus :: digits z.natAbs else digits z.natAbs

/-- `isspace` in the "C" locale. -/
def isSpace (b : UInt8) : Bool := b == 32 || (9 ≤ b && b ≤ 13)

def isDigit (b : UInt8) : Bool := 48 ≤ b && b ≤ 57

def value (ds : Bytes) : Nat := ds.foldl (fun acc d => 10 * acc + (d.toNat - 48)) 0

def intMax : Int := 2147483647
def intMin : Int := -2147483648

/-- Out-of-range numbers are stored as the nearest `int`. -/
def clamp (z : Int) : Int := if z < intMin then intMin else if intMax < z then intMax else z

/-- `stream >> target`. An exhausted stream fails before the extraction and leaves
the target as it was; a field that is no number stores zero. -/
def extract (text : Bytes) (target : Int) : Int :=
  match text.dropWhile isSpace with
  | [] => target
  | c :: rest =>
    if c = minus then clamp (-(value (rest.takeWhile isDigit) : Int))
    else if c = plus then clamp (value (rest.takeWhile isDigit))
    else clamp (value ((c :: rest).takeWhile isDigit))

theorem digit_code (h : n < 10) : n.digitChar.toUInt8 = UInt8.ofNat (48 + n) := by
  interval_cases n <;> rfl

theorem digits_of_lt (h : n < 10) : digits n = [UInt8.ofNat (48 + n)] := by
  rw [digits,Nat.toDigits_of_lt_base h,List.map_cons,digit_code h,List.map_nil]

theorem digits_of_le (h : 10 ≤ n) : digits n = digits (n / 10) ++ [UInt8.ofNat (48 + n % 10)] := by
  rw [digits,Nat.toDigits_of_base_le (by omega) h,List.map_append,List.map_cons,
    digit_code (Nat.mod_lt n (by omega)),List.map_nil,digits]

theorem isDigit_code (h : n < 10) : isDigit (UInt8.ofNat (48 + n)) = true := by
  interval_cases n <;> decide

theorem value_code (h : n < 10) : (UInt8.ofNat (48 + n)).toNat - 48 = n := by
  interval_cases n <;> rfl

theorem digits_ne_nil (n : Nat) : digits n ≠ [] := by
  simp [digits]

theorem isDigit_of_mem (n : Nat) : ∀ d ∈ digits n, isDigit d = true := by
  induction n using Nat.strongRecOn with
  | ind n ih =>
    by_cases small : n < 10
    · rw [digits_of_lt small]
      simpa using isDigit_code small
    · rw [digits_of_le (by omega)]
      intro d member
      rcases List.mem_append.mp member with front | last
      · exact ih (n / 10) (by omega) d front
      · rw [List.mem_singleton.mp last]
        exact isDigit_code (Nat.mod_lt n (by omega))

theorem value_append (ds : Bytes) (d : UInt8) : value (ds ++ [d]) = 10 * value ds + (d.toNat - 48) := by
  simp [value]

@[simp] theorem value_digits (n : Nat) : value (digits n) = n := by
  induction n using Nat.strongRecOn with
  | ind n ih =>
    by_cases small : n < 10
    · rw [digits_of_lt small]
      simpa [value] using value_code small
    · rw [digits_of_le (by omega),value_append,ih (n / 10) (by omega),value_code (Nat.mod_lt n (by omega))]
      omega

theorem digit_range {d : UInt8} (h : isDigit d = true) : 48 ≤ d.toNat ∧ d.toNat ≤ 57 := by
  simpa [isDigit,UInt8.le_iff_toNat_le] using h

theorem digit_not_space {d : UInt8} (h : isDigit d = true) : isSpace d = false := by
  have range := digit_range h
  simp only [isSpace,Bool.or_eq_false_iff,Bool.and_eq_false_iff,beq_eq_false_iff_ne,
    decide_eq_false_iff_not,UInt8.le_iff_toNat_le]
  constructor
  · rintro rfl
    simp at range
  · right
    change ¬ d.toNat ≤ 13
    omega

theorem clamp_of_range (low : intMin ≤ z) (high : z ≤ intMax) : clamp z = z := by
  simp [clamp,not_lt.mpr low,not_lt.mpr high]

theorem takeWhile_digits (n : Nat) : (digits n).takeWhile isDigit = digits n :=
  List.takeWhile_eq_self_iff.mpr (isDigit_of_mem n)

/-- A printed `int` is read back whatever the target held. -/
theorem extract_print (low : intMin ≤ z) (high : z ≤ intMax) (target : Int) :
    extract (print z) target = z := by
  by_cases negative : z < 0
  · have start : (minus :: digits z.natAbs).dropWhile isSpace = minus :: digits z.natAbs := by
      simp [isSpace,minus]
    rw [print,if_pos negative,extract,start]
    simp only [if_true,takeWhile_digits,value_digits]
    rw [show (-(z.natAbs : Int)) = z by omega,clamp_of_range low high]
  · obtain ⟨d,ds,hd⟩ := List.exists_cons_of_ne_nil (digits_ne_nil z.natAbs)
    have first : isDigit d = true := isDigit_of_mem z.natAbs d (by simp [hd])
    have range := digit_range first
    have start : (digits z.natAbs).dropWhile isSpace = d :: ds := by
      rw [hd,List.dropWhile_cons,digit_not_space first]
      rfl
    have notMinus : d ≠ minus := by rintro rfl; simp [minus] at range
    have notPlus : d ≠ plus := by rintro rfl; simp [plus] at range
    rw [print,if_neg negative,extract,start]
    simp only [notMinus,notPlus,if_false]
    rw [← hd,takeWhile_digits,value_digits,show ((z.natAbs : Int)) = z by omega,clamp_of_range low high]

theorem extract_blank (blank : ∀ c ∈ text, isSpace c = true) (target : Int) : extract text target = target := by
  rw [extract,List.dropWhile_eq_nil_iff.mpr blank]

/-- What is read depends on the text alone as soon as there is something to read. -/
theorem extract_settled_iff : (∀ a b, extract text a = extract text b) ↔ ∃ c ∈ text, isSpace c = false := by
  constructor
  · intro same
    by_contra blank
    simp only [not_exists,not_and,Bool.not_eq_false] at blank
    have zero := extract_blank blank 0
    have one := extract_blank blank 1
    have collapsed := zero.symm.trans ((same 0 1).trans one)
    contradiction
  · rintro ⟨c,member,solid⟩ a b
    cases rest : text.dropWhile isSpace with
    | nil =>
      have blank := List.dropWhile_eq_nil_iff.mp rest c member
      simp [solid] at blank
    | cons first tail => simp only [extract,rest]

theorem mem_print (z : Int) : ∀ d ∈ print z, d = minus ∨ isDigit d = true := by
  intro d member
  unfold print at member
  split at member
  · rcases List.mem_cons.mp member with eq | tail
    · exact .inl eq
    · exact .inr (isDigit_of_mem _ _ tail)
  · exact .inr (isDigit_of_mem _ _ member)

theorem length_digits_le (h : 0 < k) : (digits n).length ≤ k ↔ n < 10 ^ k := by
  rw [digits,List.length_map]
  exact Nat.length_toDigits_le_iff (by omega) h

end Decimal
