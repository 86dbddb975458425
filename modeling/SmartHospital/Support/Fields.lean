import Mathlib.Data.List.Basic
import Mathlib.Data.List.TakeWhile

/-! Reading a separated text one field at a time, over any alphabet. -/
namespace Fields

variable {α : Type*} [DecidableEq α] {sep : α} {a b l : List α}

/-- The first field, and what is left behind its separator. -/
def cut (sep : α) (l : List α) : List α × List α :=
  (l.takeWhile (· ≠ sep), (l.dropWhile (· ≠ sep)).tail)

theorem passes (h : sep ∉ a) : ∀ x ∈ a, decide (x ≠ sep) = true := by
  intro x member
  simpa using ne_of_mem_of_not_mem member h

theorem cut_append (h : sep ∉ a) : cut sep (a ++ sep :: b) = (a, b) := by
  rw [cut,List.takeWhile_append_of_pos (passes h),List.dropWhile_append_of_pos (passes h)]
  simp

theorem cut_last (h : sep ∉ a) : cut sep a = (a, []) := by
  rw [cut,List.takeWhile_eq_self_iff.mpr (passes h),List.dropWhile_eq_nil_iff.mpr (passes h)]
  rfl

theorem field_free (l : List α) : sep ∉ (cut sep l).1 := by
  intro member
  simpa using List.mem_takeWhile_imp member

/-- A first field reads back exactly when it holds no separator itself. -/
theorem first_eq_iff : (cut sep (a ++ sep :: b)).1 = a ↔ sep ∉ a := by
  constructor
  · intro same
    rw [← same]
    exact field_free _
  · intro h
    rw [cut_append h]

theorem last_eq_iff : (cut sep a).1 = a ↔ sep ∉ a := by
  constructor
  · intro same
    rw [← same]
    exact field_free _
  · intro h
    rw [cut_last h]

/-- A field behind the first is paid for by the separator as well. -/
theorem length_cut (later : (cut sep l).2 ≠ []) : (cut sep l).1.length + (cut sep l).2.length + 1 = l.length := by
  by_cases separated : sep ∈ l
  · obtain ⟨a,b,rfl,free⟩ := List.eq_append_cons_of_mem separated
    rw [cut_append free]
    simp [Nat.add_assoc]
  · rw [cut_last separated] at later
    contradiction

theorem findIdx?_free (h : sep ∉ a) : a.findIdx? (· == sep) = none := by
  apply List.findIdx?_eq_none_iff.mpr
  intro x member
  simpa using ne_of_mem_of_not_mem member h

/-- The search for the separator stops at the end of the first field. -/
theorem findIdx?_append (h : sep ∉ a) : (a ++ sep :: b).findIdx? (· == sep) = some a.length := by
  rw [List.findIdx?_append,findIdx?_free h]
  simp [List.findIdx?_cons]

theorem first_isPrefix (l : List α) : (cut sep l).1 <+: l := List.takeWhile_prefix _

theorem rest_isSuffix (l : List α) : (cut sep l).2 <:+ l :=
  (List.tail_suffix _).trans (List.dropWhile_suffix _)

theorem rest_length (l : List α) : (cut sep l).2.length ≤ l.length := (rest_isSuffix l).length_le

/-- Every text is a last field, or a first field with a separator and a shorter text behind it. -/
theorem induction_on (sep : α) {P : List α → Prop} (l : List α) (last : ∀ a, sep ∉ a → P a)
    (more : ∀ a b, sep ∉ a → P b → P (a ++ sep :: b)) : P l := by
  induction shorter : l.length using Nat.strong_induction_on generalizing l with
  | _ n ih =>
    by_cases separated : sep ∈ l
    · obtain ⟨a,b,rfl,free⟩ := List.eq_append_cons_of_mem separated
      have less : b.length < n := by
        rw [← shorter]
        simp only [List.length_append,List.length_cons]
        omega
      exact more a b free (ih b.length less b rfl)
    · exact last l separated

/-- No component of the split holds the separator. -/
theorem free_of_mem_splitOn (l : List α) (member : c ∈ l.splitOn sep) : sep ∉ c := by
  induction l using induction_on sep with
  | last a free =>
    rw [List.splitOn_eq_singleton free,List.mem_singleton] at member
    exact member ▸ free
  | more a b free ih =>
    rw [List.splitOn_append_cons_self_of_not_mem free,List.mem_cons] at member
    rcases member with rfl | behind
    · exact free
    · exact ih behind

/-- The fields of `n` cuts after each other, and what is left behind the last. -/
def cuts (sep : α) (n : Nat) (l : List α) : List (List α) × List α :=
  match n with
  | 0 => ([], l)
  | n + 1 =>
    let (field, rest) := cut sep l
    let (fields, rest) := cuts sep n rest
    (field :: fields, rest)

theorem cuts_nil (sep : α) (n : Nat) : cuts sep n [] = (List.replicate n [], []) := by
  induction n with
  | zero => rfl
  | succ n ih =>
    have exhausted : cut sep [] = ([], []) := rfl
    rw [cuts,exhausted]
    simp only [ih,List.replicate_succ]

/-- Cuts against the split: the components in order, then nothing, and the components
that were not taken stay joined. -/
theorem cuts_eq (sep : α) (n : Nat) (l : List α) :
    cuts sep n l = ((l.splitOn sep).take n ++ List.replicate (n - (l.splitOn sep).length) [],
      List.intercalate [sep] ((l.splitOn sep).drop n)) := by
  induction n generalizing l with
  | zero => simp [cuts]
  | succ n ih =>
    by_cases separated : sep ∈ l
    · obtain ⟨a,b,rfl,free⟩ := List.eq_append_cons_of_mem separated
      rw [cuts,cut_append free,List.splitOn_append_cons_self_of_not_mem free]
      simp only [ih,List.take_succ_cons,List.drop_succ_cons,List.length_cons,Nat.add_sub_add_right,List.cons_append]
    · rw [cuts,cut_last separated,List.splitOn_eq_singleton separated]
      simp only [cuts_nil,List.take_succ_cons,List.take_nil,List.drop_succ_cons,List.drop_nil,List.length_singleton,
        Nat.add_sub_cancel,List.singleton_append,List.intercalate_nil]

end Fields
