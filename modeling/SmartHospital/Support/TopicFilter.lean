import SmartHospital.Support.CArray
import SmartHospital.Support.Fields

/-! MQTT topic names and the filters of subscriptions: levels between slashes, `+`
for any one level, `#` for any number of them at the end. -/
namespace TopicFilter

def slash : UInt8 := 47
def plus : UInt8 := 43
def hash : UInt8 := 35
def dollar : UInt8 := 36

def levels (t : Bytes) : List Bytes := t.splitOn slash

/-- Level by level; a trailing `#` also matches its parent level. -/
def levelsMatch : List Bytes → List Bytes → Bool
  | [], names => names.isEmpty
  | level :: filter, names =>
    if level = [hash] then filter.isEmpty
    else
      match names with
      | [] => false
      | name :: names => (level == [plus] || level == name) && levelsMatch filter names

/-- Topics that start with a dollar are left out by a wildcard in the first level. -/
def admits (filter topic : Bytes) : Bool :=
  !(topic.head? == some dollar && (filter.head? == some plus || filter.head? == some hash)) &&
    levelsMatch (levels filter) (levels topic)

/-- A level that stands for itself. -/
structure Literal (level : Bytes) : Prop where
  single : slash ∉ level
  noPlus : plus ∉ level
  noHash : hash ∉ level

namespace Literal

variable {level : Bytes}

theorem ne_plus (literal : Literal level) : level ≠ [plus] := by
  rintro rfl
  exact literal.noPlus (List.mem_singleton_self plus)

theorem ne_hash (literal : Literal level) : level ≠ [hash] := by
  rintro rfl
  exact literal.noHash (List.mem_singleton_self hash)

theorem levelsMatch_cons (literal : Literal level) (filter names : List Bytes) :
    levelsMatch (level :: filter) names = true ↔ ∃ rest, names = level :: rest ∧ levelsMatch filter rest = true := by
  cases names with
  | nil => simp [levelsMatch,literal.ne_hash]
  | cons name names =>
    have same : level = name ↔ name = level := ⟨Eq.symm,Eq.symm⟩
    simp [levelsMatch,literal.ne_hash,literal.ne_plus,same]

end Literal

theorem levelsMatch_plus (filter names : List Bytes) :
    levelsMatch ([plus] :: filter) names = true ↔
      ∃ any rest, names = any :: rest ∧ levelsMatch filter rest = true := by
  have notHash : [plus] ≠ [hash] := by decide
  cases names <;> simp [levelsMatch,notHash]

theorem levelsMatch_nil (names : List Bytes) : levelsMatch [] names = true ↔ names = [] := by
  rw [levelsMatch,List.isEmpty_iff]

/-- A topic of three levels. -/
def three (a b c : Bytes) : Bytes := a ++ slash :: (b ++ slash :: c)

section

variable {a b c : Bytes}

theorem levels_three (first : slash ∉ a) (second : slash ∉ b) (third : slash ∉ c) :
    levels (three a b c) = [a,b,c] := by
  rw [levels,three,List.splitOn_append_cons_self_of_not_mem first,
    List.splitOn_append_cons_self_of_not_mem second,List.splitOn_eq_singleton third]

theorem levels_eq_three {t : Bytes} (split : levels t = [a,b,c]) : slash ∉ b ∧ t = three a b c := by
  constructor
  · apply Fields.free_of_mem_splitOn t
    change b ∈ levels t
    simp [split]
  · have joined : [slash].intercalate (levels t) = t := List.intercalate_splitOn slash
    rw [split] at joined
    rw [← joined,three]
    simp [List.intercalate_cons_cons]

/-- What a filter with one open level between two literal ones lets through. -/
theorem admits_three (first : Literal a) (last : Literal c) (named : a ≠ []) (topic : Bytes) :
    admits (three a [plus] c) topic = true ↔ ∃ level, slash ∉ level ∧ topic = three a level c := by
  have open_ : slash ∉ [plus] := by decide
  obtain ⟨x,rest,rfl⟩ := List.exists_cons_of_ne_nil named
  have notPlus : x ≠ plus := by
    rintro rfl
    exact first.noPlus (List.mem_cons_self ..)
  have notHash : x ≠ hash := by
    rintro rfl
    exact first.noHash (List.mem_cons_self ..)
  have head : (three (x :: rest) [plus] c).head? = some x := rfl
  have ordinary : admits (three (x :: rest) [plus] c) topic =
      levelsMatch (levels (three (x :: rest) [plus] c)) (levels topic) := by
    simp [admits,head,notPlus,notHash]
  rw [ordinary,levels_three first.single open_ last.single,first.levelsMatch_cons]
  simp only [levelsMatch_plus,last.levelsMatch_cons,levelsMatch_nil]
  constructor
  · rintro ⟨_,split,level,_,rfl,_,rfl,rfl⟩
    exact ⟨level,levels_eq_three split⟩
  · rintro ⟨level,single,rfl⟩
    exact ⟨_,levels_three first.single single last.single,level,_,rfl,_,rfl,rfl⟩

/-- Between the same ends, topics are told apart by the open level and the last one. -/
theorem three_inj {b' c' : Bytes} (second : slash ∉ b) (third : slash ∉ c) (second' : slash ∉ b')
    (third' : slash ∉ c') (same : three a b c = three a b' c') : b = b' ∧ c = c' := by
  have tails : b ++ slash :: c = b' ++ slash :: c' := (List.cons.inj (List.append_cancel_left same)).2
  have split : (b ++ slash :: c).splitOn slash = (b' ++ slash :: c').splitOn slash := congrArg _ tails
  rw [List.splitOn_append_cons_self_of_not_mem second,List.splitOn_append_cons_self_of_not_mem second',
    List.splitOn_eq_singleton third,List.splitOn_eq_singleton third'] at split
  simpa using split

end

end TopicFilter
