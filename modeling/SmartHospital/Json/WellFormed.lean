import SmartHospital.Json.Numbers

/-! What the reader lets through: values nested within the limit, 64-bit integers, objects
without a repeated name, and no more of anything than is counted. -/
namespace SmartHospital.Json

variable {floating : Floating}

/-- A value nested at most so deep. -/
inductive WellFormed : (room : Nat) → Value floating → Prop where
  | null : WellFormed (room + 1) .null
  | boolean : WellFormed (room + 1) (.boolean b)
  | string (short : text.length ≤ maxInt - 4 - 1) : WellFormed (room + 1) (.string text)
  | real : WellFormed (room + 1) (.real x)
  | int (least : -(minLargestMagnitude : Int) ≤ z) (most : z ≤ maxLargestInt) : WellFormed (room + 1) (.int z)
  | uint (least : maxLargestInt < n) (most : n ≤ maxLargestUInt) : WellFormed (room + 1) (.uint n)
  | array (few : vs.length ≤ maxInt) (inside : ∀ v ∈ vs, WellFormed room v) : WellFormed (room + 1) (.array vs)
  | object (distinct : (ms.map Prod.fst).Nodup) (short : ∀ m ∈ ms, m.1.length < 2 ^ 30)
    (inside : ∀ m ∈ ms, WellFormed room m.2) : WellFormed (room + 1) (.object ms)

/-- The members of an object while it is read. -/
structure Sound (room : Nat) (ms : Members floating) : Prop where
  distinct : (ms.map Prod.fst).Nodup
  short : ∀ m ∈ ms, m.1.length < 2 ^ 30
  inside : ∀ m ∈ ms, WellFormed room m.2

theorem magnitude_digits {threshold maxLastDigit value found : Nat} {text : Bytes}
    (read : magnitude threshold maxLastDigit value text = some found) : Digits text := by
  induction text generalizing value with
  | nil => exact fun c member => absurd member List.not_mem_nil
  | cons c text ih =>
    rw [magnitude] at read
    split at read
    · contradiction
    · rename_i isDigit
      dsimp only at read
      split at read
      · contradiction
      · intro d member
        rcases List.mem_cons.mp member with rfl | later
        · exact Bool.eq_true_of_not_eq_false isDigit
        · exact ih read d later

theorem magnitude_le (limit : Nat) {found : Nat} {text : Bytes} (tens : 10 ≤ limit) (most : limit ≤ maxLargestUInt)
    (read : magnitude (limit / 10) (limit % 10) 0 text = some found) : found ≤ limit := by
  rw [magnitude_eq (magnitude_digits read) limit 0 tens most (Nat.zero_le _)] at read
  split at read
  · rename_i within
    exact Option.some.inj read ▸ within
  · contradiction

theorem decodeNumber_wellFormed {text : Bytes} {v : Value floating} (decodes : decodeNumber text = .ok v) (room : Nat) :
    WellFormed (room + 1) v := by
  unfold decodeNumber at decodes
  dsimp only at decodes
  split at decodes
  · unfold decodeDouble at decodes
    split at decodes
    · contradiction
    · cases decodes
      exact .real
  · rename_i found read
    split at decodes
    · rename_i negative
      simp only [negative,if_true] at read
      have within := magnitude_le minLargestMagnitude (by decide) (by decide) read
      cases decodes
      exact .int (by omega) (by unfold maxLargestInt; omega)
    · rename_i positive
      simp only [positive] at read
      have within := magnitude_le maxLargestUInt (by decide) le_rfl read
      split at decodes
      · rename_i small
        cases decodes
        exact .int (by omega) (by omega)
      · rename_i large
        cases decodes
        exact .uint (Nat.lt_of_not_le large) within

theorem mem_assign {key : Bytes} {value : Value floating} {ms : Members floating} {m : Bytes × Value floating}
    (member : m ∈ assign key value ms) : m = (key, value) ∨ m ∈ ms := by
  induction ms with
  | nil => exact .inl (List.mem_singleton.mp member)
  | cons first ms ih =>
    rw [assign] at member
    split at member
    · rcases List.mem_cons.mp member with same | later
      · exact .inl same
      · exact .inr (List.mem_cons_of_mem _ later)
    · rcases List.mem_cons.mp member with rfl | later
      · exact .inr (List.mem_cons_self ..)
      · exact (ih later).imp id (List.mem_cons_of_mem _)

theorem assign_distinct (key : Bytes) (value : Value floating) {ms : Members floating}
    (distinct : (ms.map Prod.fst).Nodup) : ((assign key value ms).map Prod.fst).Nodup := by
  induction ms with
  | nil => exact List.nodup_cons.mpr ⟨List.not_mem_nil,List.nodup_nil⟩
  | cons first ms ih =>
    obtain ⟨fresh,distinct⟩ := List.nodup_cons.mp distinct
    rw [assign]
    split
    · rename_i same
      exact List.nodup_cons.mpr ⟨same ▸ fresh,distinct⟩
    · rename_i different
      refine List.nodup_cons.mpr ⟨?_,ih distinct⟩
      intro repeated
      obtain ⟨m,member,name⟩ := List.mem_map.mp repeated
      rcases mem_assign member with rfl | old
      · exact different name.symm
      · exact fresh (List.mem_map.mpr ⟨m,old,name⟩)

theorem Sound.assign {room : Nat} {ms : Members floating} (sound : Sound room ms) {name : Bytes}
    (short : name.length < 2 ^ 30) {v : Value floating} (wellFormed : WellFormed room v) :
    Sound room (assign name v ms) := by
  refine ⟨assign_distinct name v sound.distinct,?_,?_⟩
  all_goals
    intro m member
    rcases mem_assign member with rfl | old
  · exact short
  · exact sound.short m old
  · exact wellFormed
  · exact sound.inside m old

/-- What a read lets through. -/
def Answer.Yields (property : α → Prop) : Answer α → Prop
  | .success value _ => property value
  | _ => True

/-- What one turn keeps of what was read so far. -/
def TurnKeeps (property : α → Prop) : Turn (Reader × α) (Answer α) → Prop
  | .again next => property next.2
  | .leave answer => answer.Yields property

theorem memberEnd_keeps {property : Members floating → Prop} (reader : Reader) {ms : Members floating}
    (kept : property ms) : TurnKeeps property (memberEnd reader ms) := by
  unfold memberEnd
  dsimp only
  split
  · trivial
  split <;> exact kept

theorem elementEnd_keeps {property : List (Value floating) → Prop} (reader : Reader) {vs : List (Value floating)}
    (kept : property vs) : TurnKeeps property (elementEnd reader vs) := by
  unfold elementEnd
  dsimp only
  split
  · trivial
  split <;> exact kept

section

variable {room : Nat} {readValue : Reader → Answer (Value floating)}

theorem memberTurn_keeps (reads : ∀ reader, (readValue reader).Yields (WellFormed room))
    (s : Reader × Members floating) (sound : Sound room s.2) : TurnKeeps (Sound room) (memberTurn readValue s) := by
  unfold memberTurn memberValue
  dsimp only
  split
  · exact sound
  split
  · split
    · trivial
    · trivial
    · rename_i name reader _
      split
      · trivial
      rename_i long
      split
      · trivial
      have value := reads (reader.goTo (readToken reader.current).stop)
      cases read : readValue (reader.goTo (readToken reader.current).stop) with
      | success v next =>
        rw [read] at value
        exact memberEnd_keeps next (sound.assign (Nat.lt_of_not_le long) value)
      | failure next => trivial
      | thrown => trivial
  · trivial

/-- The index of the next element is an `int`. -/
theorem elementTurn_few (s : Reader × List (Value floating)) (few : s.2.length ≤ maxInt) :
    TurnKeeps (·.length ≤ maxInt) (elementTurn readValue s) := by
  unfold elementTurn
  dsimp only
  split
  · exact few
  split
  · trivial
  rename_i room
  cases readValue (s.1.goTo (skipSpaces s.1.current)) with
  | success v next =>
    apply elementEnd_keeps next
    rw [List.length_append]
    exact Nat.lt_of_not_le room
  | failure next => trivial
  | thrown => trivial

theorem elementTurn_keeps (reads : ∀ reader, (readValue reader).Yields (WellFormed room))
    (s : Reader × List (Value floating)) (sound : ∀ v ∈ s.2, WellFormed room v) :
    TurnKeeps (fun vs => ∀ v ∈ vs, WellFormed room v) (elementTurn readValue s) := by
  unfold elementTurn
  dsimp only
  split
  · exact sound
  split
  · trivial
  have value := reads (s.1.goTo (skipSpaces s.1.current))
  cases read : readValue (s.1.goTo (skipSpaces s.1.current)) with
  | success v next =>
    rw [read] at value
    apply elementEnd_keeps next
    intro w member
    rcases List.mem_append.mp member with old | last
    · exact sound w old
    · exact List.mem_singleton.mp last ▸ value
  | failure next => trivial
  | thrown => trivial

end

/-- The rule of the loops that collect. -/
theorem run_yields {loop : Loop (Reader × α) (Answer α)} {property : α → Prop}
    (turns : ∀ s, property s.2 → TurnKeeps property (loop.body s)) (s : Reader × α) (initial : property s.2) :
    (loop.run s).Yields property := by
  revert initial
  apply Loop.run_induction loop (fun (s : Reader × α) answer => property s.2 → Answer.Yields property answer)
  · intro s answer leaves kept
    have turn := turns s kept
    rw [leaves] at turn
    exact turn
  · intro s next again later kept
    have turn := turns s kept
    rw [again] at turn
    exact later turn

theorem Answer.Yields.map {answer : Answer α} {property : α → Prop} {image : β → Prop} {f : α → β}
    (yields : answer.Yields property) (maps : ∀ a, property a → image (f a)) : (answer.map f).Yields image := by
  cases answer with
  | success value reader => exact maps value yields
  | failure reader => trivial
  | thrown => trivial

theorem array_few (inner : ValueReader floating) (reader : Reader) :
    ((arrayLoop inner).run (reader,[])).Yields (·.length ≤ maxInt) :=
  run_yields elementTurn_few _ (Nat.zero_le maxInt)

theorem Answer.Yields.both {answer : Answer α} {one other : α → Prop} (first : answer.Yields one)
    (second : answer.Yields other) : answer.Yields fun value => one value ∧ other value := by
  cases answer with
  | success value reader => exact ⟨first,second⟩
  | failure reader => trivial
  | thrown => trivial

theorem readArray_wellFormed {inner : ValueReader floating} (reads : ∀ reader, (inner.read reader).Yields (WellFormed room))
    (reader : Reader) : (readArray inner reader).Yields (WellFormed (room + 1)) := by
  have inside : ((arrayLoop inner).run (reader,[])).Yields fun vs => ∀ v ∈ vs, WellFormed room v :=
    run_yields (elementTurn_keeps reads) _ fun v member => absurd member List.not_mem_nil
  exact ((array_few inner reader).both inside).map fun vs kept => .array kept.1 kept.2

theorem readValue_wellFormed (room : Nat) (reader : Reader) :
    ((readValue room : ValueReader floating).read reader).Yields (WellFormed room) := by
  induction room generalizing reader with
  | zero => trivial
  | succ room ih =>
    change (valueAt (readValue room) _ _).Yields _
    unfold valueAt
    split
    · refine Answer.Yields.map (run_yields (memberTurn_keeps ih) _ ⟨List.nodup_nil,?_,?_⟩) fun ms sound =>
        .object sound.distinct sound.short sound.inside
      all_goals exact fun m member => absurd member List.not_mem_nil
    · exact readArray_wellFormed ih _
    · cases decodes : (decodeNumber (skipCommentTokens reader.current).text : Except Problem (Value floating)) with
      | ok v => exact decodeNumber_wellFormed decodes room
      | error problem => trivial
    · cases decodeString (skipCommentTokens reader.current) with
      | ok text =>
        simp only [decoded,Answer.stored]
        split
        · rename_i stored
          obtain ⟨_,rfl,_,short⟩ := ofString_eq_some stored
          exact .string short
        · trivial
      | error problem => trivial
    · exact .boolean
    · exact .boolean
    · exact .null
    · trivial

/-- Whatever the document, a value that is read is nested within the limit, its integers
are 64-bit integers, no object has two members of one name, and its texts and arrays are
no longer than the library can count. -/
theorem parse_wellFormed (document : Bytes) :
    (parse document : Answer (Value floating)).Yields (WellFormed stackLimit) := by
  have value : ((readValue stackLimit : ValueReader floating).read ⟨skipBom document,[]⟩).Yields _ :=
    readValue_wellFormed stackLimit _
  unfold parse
  split
  · rename_i read
    rw [read] at value
    exact value
  · trivial
  · trivial

end SmartHospital.Json
