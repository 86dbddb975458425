import Mathlib.Data.List.Basic
import Mathlib.Data.List.TakeWhile
import Mathlib.Data.Option.Basic

/-! Fixed-size character arrays and the C string functions over them. `none` is
the undefined behaviour of a read or a write past the end of an array; nothing is
assumed about the cells behind a terminator. -/

abbrev Bytes := List UInt8

/-- The bytes of an ASCII literal. -/
def Bytes.ofString (s : String) : Bytes := s.toList.map Char.toUInt8

/-- What a C string function sees of a byte sequence. -/
def upToNul (l : Bytes) : Bytes := l.takeWhile (· ≠ 0)

theorem upToNul_of_free (h : 0 ∉ t) : upToNul t = t := by
  apply List.takeWhile_eq_self_iff.mpr
  intro b member
  simpa using ne_of_mem_of_not_mem member h

/-- Nothing behind a terminator is seen. -/
theorem upToNul_append_nul (t rest : Bytes) : upToNul (t ++ 0 :: rest) = upToNul t := by
  rw [upToNul,List.takeWhile_append]
  split
  · rename_i whole
    have same : upToNul t = t := (List.takeWhile_prefix _).eq_of_length whole
    simpa using same.symm
  · rfl

theorem upToNul_append_of_mem (h : 0 ∈ t) (rest : Bytes) : upToNul (t ++ rest) = upToNul t := by
  obtain ⟨front,back,rfl,_⟩ := List.eq_append_cons_of_mem h
  rw [List.append_assoc,List.cons_append,upToNul_append_nul,upToNul_append_nul]

theorem nul_free_upToNul (l : Bytes) : 0 ∉ upToNul l := by
  intro member
  simpa using List.mem_takeWhile_imp member

theorem upToNul_isPrefix (l : Bytes) : upToNul l <+: l := List.takeWhile_prefix _

theorem upToNul_take (t : Bytes) (i : Nat) : upToNul (t.take i) = (upToNul t).take i :=
  List.take_takeWhile.symm

/-- Behind a terminator nothing counts, wherever the cells are cut. -/
theorem upToNul_take_terminated (t junk : Bytes) (i : Nat) :
    upToNul ((upToNul t ++ 0 :: junk).take i) = upToNul (t.take i) := by
  rw [upToNul_take,upToNul_take,upToNul_append_nul,upToNul_of_free (nul_free_upToNul t)]

theorem length_upToNul_lt (h : 0 ∈ l) : (upToNul l).length < l.length := by
  rcases Nat.lt_or_eq_of_le (upToNul_isPrefix l).length_le with lt | eq
  · exact lt
  · have same : upToNul l = l := (upToNul_isPrefix l).eq_of_length eq
    exact absurd (same.symm ▸ h) (nul_free_upToNul l)

theorem length_terminated {t : Bytes} (h : t.length ≤ k) : (t ++ [0]).length ≤ k + 1 := by
  rw [List.length_append]
  exact Nat.succ_le_succ h

structure CArray (n : Nat) where
  cells : Bytes
  size : cells.length = n
  deriving DecidableEq

namespace CArray

def zeros (n : Nat) : CArray n := ⟨List.replicate n 0, List.length_replicate⟩

/-- A C string is only there when its terminator is inside the array. -/
def cstr? (a : CArray n) : Option Bytes :=
  if 0 ∈ a.cells then some (upToNul a.cells) else none

/-- Copy a block to the front of the array, cut at the array's size. -/
def load (a : CArray n) (block : Bytes) : CArray n :=
  ⟨block.take n ++ a.cells.drop block.length, by
    have := a.size
    simp only [List.length_append, List.length_take, List.length_drop]
    omega⟩

def writeAt (a : CArray n) (offset : Nat) (block : Bytes) : Option (CArray n) :=
  if h : offset + block.length ≤ n then
    some ⟨a.cells.take offset ++ block ++ a.cells.drop (offset + block.length), by
      have := a.size
      simp only [List.length_append, List.length_take, List.length_drop]
      omega⟩
  else none

/-- `a[i] = b` -/
def set (a : CArray n) (i : Nat) (b : UInt8) : Option (CArray n) := a.writeAt i [b]

def strcpy (dst : CArray n) (src : Bytes) : Option (CArray n) :=
  dst.writeAt 0 (upToNul src ++ [0])

def strcat (dst : CArray n) (src : Bytes) : Option (CArray n) :=
  dst.cstr?.bind fun old => dst.writeAt old.length (upToNul src ++ [0])

/-- `memcpy` out of the array. -/
def slice (a : CArray n) (offset count : Nat) : Option Bytes :=
  if offset + count ≤ n then some ((a.cells.drop offset).take count) else none

/-- A text at the front of an otherwise cleared array. -/
def padded (n : Nat) (t : Bytes) : Option (CArray n) :=
  if h : t.length < n then
    some ⟨t ++ List.replicate (n - t.length) 0, by
      simp only [List.length_append, List.length_replicate]
      omega⟩
  else none

theorem padded_of_lt (h : t.length < n) : ∃ a : CArray n, padded n t = some a ∧
    a.cells = t ++ List.replicate (n - t.length) 0 := by
  simp [padded,h]

theorem padded_eq_some (h : padded n t = some a) :
    t.length < n ∧ a.cells = t ++ List.replicate (n - t.length) 0 := by
  unfold padded at h
  split at h
  · cases h
    exact ⟨‹_›, rfl⟩
  · contradiction

theorem padded_of_le (h : n ≤ t.length) : padded n t = none := by
  simp [padded,h]

theorem cstr?_padded (h : padded n t = some a) (free : 0 ∉ t) : a.cstr? = some t := by
  obtain ⟨room,cells⟩ := padded_eq_some h
  obtain ⟨k,hk⟩ : ∃ k, n - t.length = k + 1 := ⟨n - t.length - 1, by omega⟩
  simp [cstr?,cells,hk,List.replicate_succ,upToNul_append_nul,upToNul_of_free free]

theorem cstr?_eq {a : CArray n} (h : a.cstr? = some t) : t = upToNul a.cells := by
  unfold cstr? at h
  split at h
  · exact (Option.some.inj h).symm
  · contradiction

theorem cstr?_nul_free {a : CArray n} (h : a.cstr? = some t) : 0 ∉ t := by
  unfold cstr? at h
  split at h
  · cases h
    exact nul_free_upToNul _
  · contradiction

theorem length_cstr?_lt {a : CArray n} (h : a.cstr? = some t) : t.length < n := by
  unfold cstr? at h
  split at h
  · cases h
    rename_i nul
    simpa only [a.size] using length_upToNul_lt nul
  · contradiction

theorem strcpy_zeros (free : 0 ∉ s) : (zeros n).strcpy s = padded n s := by
  unfold strcpy writeAt padded zeros
  simp only [upToNul_of_free free,Nat.zero_add,List.length_append,List.length_cons,List.length_nil]
  by_cases room : s.length < n
  · obtain ⟨k,hk⟩ : ∃ k, n = s.length + k + 1 := ⟨n - s.length - 1, by omega⟩
    subst hk
    have inside : s.length + 1 ≤ s.length + k + 1 := by omega
    have cleared : s.length + k + 1 - s.length = k + 1 := by omega
    rw [dif_pos inside,dif_pos room]
    simp [cleared,List.replicate_succ]
  · have outside : ¬ (s.length + 1 ≤ n) := by omega
    rw [dif_neg outside,dif_neg room]

theorem set_zeros (b : UInt8) (h : 1 < n) : (zeros n).set 0 b = padded n [b] := by
  obtain ⟨k,rfl⟩ : ∃ k, n = k + 2 := ⟨n - 2, by omega⟩
  simp [set,writeAt,zeros,padded]

theorem set_zeros_nul (h : 0 < n) : (zeros n).set 0 0 = padded n [] := by
  obtain ⟨k,rfl⟩ : ∃ k, n = k + 1 := ⟨n - 1, by omega⟩
  simp [set,writeAt,zeros,padded,List.replicate_succ]

/-- Appending to a padded text pads the longer text, or runs off the end. -/
theorem padded_strcat (textFree : 0 ∉ t) (free : 0 ∉ s) :
    (padded n t).bind (strcat · s) = padded n (t ++ s) := by
  by_cases room : t.length < n
  · obtain ⟨a,ha,cells⟩ := padded_of_lt room
    rw [ha,Option.bind_some,strcat,cstr?_padded ha textFree,Option.bind_some]
    unfold writeAt
    simp only [upToNul_of_free free,List.length_append,List.length_cons,List.length_nil]
    by_cases fits : t.length + s.length < n
    · obtain ⟨k,hk⟩ : ∃ k, n = t.length + s.length + k + 1 := ⟨n - (t.length + s.length) - 1, by omega⟩
      subst hk
      have tail : t.length + s.length + k + 1 - t.length - (s.length + 1) = k := by omega
      simp [padded,cells,List.drop_append,show t.length + (s.length + 1) - t.length = s.length + 1 by omega,
        show t.length + s.length + k + 1 - (t.length + s.length) = k + 1 by omega,List.replicate_succ,
        tail,List.append_assoc,fits,show t.length + (s.length + 1) ≤ t.length + s.length + k + 1 by omega]
    · simp [padded,show ¬ (t.length + (s.length + 1) ≤ n) by omega,fits]
  · rw [padded_of_le (by omega),padded_of_le (by simp; omega)]
    rfl

/-- The form in which a chain of `strcat` calls is folded into one text. -/
theorem padded_bind_strcat (textFree : 0 ∉ t) (free : 0 ∉ s) (next : CArray n → Option β) :
    ((padded n t).bind fun a => (a.strcat s).bind next) = (padded n (t ++ s)).bind next := by
  rw [← padded_strcat textFree free,Option.bind_assoc]

theorem strcat_upToNul (dst : CArray n) (src : Bytes) : dst.strcat (upToNul src) = dst.strcat src := by
  rw [strcat,strcat,upToNul_of_free (nul_free_upToNul src)]

theorem strcpy_upToNul (dst : CArray n) (src : Bytes) : dst.strcpy (upToNul src) = dst.strcpy src := by
  rw [strcpy,strcpy,upToNul_of_free (nul_free_upToNul src)]

theorem slice_of_le {a : CArray n} (h : offset + count ≤ n) :
    a.slice offset count = some ((a.cells.drop offset).take count) := by
  simp [slice,h]

theorem slice_whole (a : CArray n) : a.slice 0 n = some a.cells := by
  rw [slice_of_le (Nat.zero_add n).le,List.drop_zero,List.take_of_length_le a.size.le]

theorem load_cells (a : CArray n) (block : Bytes) :
    (a.load block).cells = block.take n ++ a.cells.drop block.length := rfl

theorem load_full (a : CArray n) (full : block.length = n) : (a.load block).cells = block := by
  rw [load_cells,List.take_of_length_le full.le,List.drop_eq_nil_of_le (by rw [a.size,full]),List.append_nil]

/-- Loading what is there already changes nothing. -/
theorem load_same {a : CArray n} (there : block <+: a.cells) : a.load block = a := by
  obtain ⟨cells,size⟩ := a
  obtain ⟨rest,rfl⟩ := there
  have room : block.length ≤ n := by
    rw [← size]
    simp
  simp [load,List.take_of_length_le room]

/-- A block with a terminator hides whatever the array held before. -/
theorem cstr?_load (a : CArray n) (terminated : 0 ∈ block.take n) : (a.load block).cstr? = some (upToNul block) := by
  have whole := upToNul_append_of_mem terminated (block.drop n)
  rw [List.take_append_drop] at whole
  rw [cstr?,load_cells,if_pos (List.mem_append_left _ terminated),upToNul_append_of_mem terminated,whole]

theorem cstr?_load_terminated (a : CArray n) (free : 0 ∉ t) (room : t.length < n) :
    (a.load (t ++ [0])).cstr? = some t := by
  have inside : 0 ∈ (t ++ [0]).take n := by
    rw [List.take_of_length_le (by simp; omega)]
    exact List.mem_append_right t (List.mem_singleton_self 0)
  rw [cstr?_load a inside,upToNul_append_nul,upToNul_of_free free]

/-- A terminator ends the string at its cell, or earlier. -/
theorem set_terminator (a : CArray n) (room : i < n) :
    ∃ b : CArray n, a.set i 0 = some b ∧ b.cstr? = some (upToNul (a.cells.take i)) := by
  have inside : i + 1 ≤ n := room
  simp only [set,writeAt,List.length_singleton,inside,dif_pos]
  refine ⟨_,rfl,?_⟩
  simp [cstr?,upToNul_append_nul]

/-- A block terminated right behind its last byte also hides it. -/
theorem set_load_terminator (a : CArray n) (room : block.length < n) :
    ∃ b : CArray n, (a.load block).set block.length 0 = some b ∧ b.cstr? = some (upToNul block) := by
  have whole : block.take n = block := List.take_of_length_le (by omega)
  have front : (a.load block).cells.take block.length = block := by
    rw [load_cells,whole]
    exact List.take_left
  have terminated := set_terminator (a.load block) room
  rwa [front] at terminated

section

variable {src t : Bytes} {dst : CArray n}

theorem writeAt_of_le (dst : CArray n) (inside : offset + block.length ≤ n) : ∃ b : CArray n,
    dst.writeAt offset block = some b ∧
      b.cells = dst.cells.take offset ++ block ++ dst.cells.drop (offset + block.length) := by
  simp [writeAt,inside]

theorem writeAt_of_lt (dst : CArray n) (outside : n < offset + block.length) : dst.writeAt offset block = none :=
  dif_neg (Nat.not_le_of_lt outside)

theorem strcpy_of_lt (dst : CArray n) (room : (upToNul src).length < n) : ∃ b : CArray n,
    dst.strcpy src = some b ∧ b.cells = upToNul src ++ 0 :: dst.cells.drop ((upToNul src).length + 1) := by
  have inside : 0 + (upToNul src ++ [0]).length ≤ n := by
    rw [Nat.zero_add]
    exact length_terminated (Nat.le_sub_one_of_lt room) |>.trans (by omega)
  obtain ⟨b,written,cells⟩ := dst.writeAt_of_le inside
  refine ⟨b,written,?_⟩
  rw [cells]
  simp

theorem strcpy_of_le (dst : CArray n) (long : n ≤ (upToNul src).length) : dst.strcpy src = none := by
  apply dst.writeAt_of_lt
  rw [List.length_append,List.length_singleton]
  omega

/-- The string in an array is the front of its cells. -/
theorem take_cstr? (old : dst.cstr? = some t) : dst.cells.take t.length = t := by
  have front := upToNul_isPrefix dst.cells
  rw [← cstr?_eq old] at front
  exact (List.prefix_iff_eq_take.mp front).symm

theorem strcat_of_lt (old : dst.cstr? = some t) (room : t.length + (upToNul src).length < n) :
    ∃ b : CArray n, dst.strcat src = some b ∧ b.cstr? = some (t ++ upToNul src) := by
  have inside : t.length + (upToNul src ++ [0]).length ≤ n := by
    rw [List.length_append,List.length_singleton]
    omega
  obtain ⟨b,written,cells⟩ := dst.writeAt_of_le inside
  have free : 0 ∉ t ++ upToNul src := by
    rw [List.mem_append,not_or]
    exact ⟨cstr?_nul_free old,nul_free_upToNul src⟩
  refine ⟨b,by rw [strcat,old]; exact written,?_⟩
  rw [take_cstr? old,List.append_assoc,List.append_assoc,← List.append_assoc] at cells
  have terminated : 0 ∈ b.cells := by simp [cells]
  rw [cstr?,if_pos terminated,cells,List.singleton_append,upToNul_append_nul,upToNul_of_free free]

theorem strcat_of_le (old : dst.cstr? = some t) (long : n ≤ t.length + (upToNul src).length) :
    dst.strcat src = none := by
  rw [strcat,old]
  apply dst.writeAt_of_lt
  rw [List.length_append,List.length_singleton]
  omega

end

end CArray
