import SmartHospital.Command
import SmartHospital.Support.Machine

/-! The menu thread of mqttController.cpp, as a machine over what is typed: numbers that
`scanf` stores, and keys. Reading `rooms` outside the array and overflowing a threshold
end a run in a fault. -/
namespace SmartHospital.Mqtt

/-- The cases of `switch (thresholdNum)`. -/
inductive Threshold where
  | temperature | indorLight | outLight
  deriving DecidableEq, Repr

def Threshold.get (t : Threshold) (r : Room) : Int :=
  match t with
  | .temperature => r.temperatureThreshold
  | .indorLight => r.indorLightThreshold
  | .outLight => r.outLightThreshold

def Threshold.set (t : Threshold) (r : Room) (value : Int) : Room :=
  match t with
  | .temperature => { r with temperatureThreshold := value }
  | .indorLight => { r with indorLightThreshold := value }
  | .outLight => { r with outLightThreshold := value }

/-- The threshold with a number; the switches do nothing for another one. -/
def threshold? (thresholdNum : UInt32) : Option Threshold :=
  if thresholdNum = 1 then some .temperature
  else if thresholdNum = 2 then some .indorLight
  else if thresholdNum = 3 then some .outLight
  else none

inductive Fault where
  | outOfBounds | overflow
  deriving DecidableEq, Repr

/-- Where the thread waits for input, with the number it printed last. -/
inductive Place where
  | askRoom
  | askSensor (roomNum : UInt32)
  | editing (roomNum thresholdNum : UInt32) (shown : Option Int)
  | fault (fault : Fault)
  deriving DecidableEq, Repr

structure Menu where
  rooms : Rooms
  place : Place
  deriving DecidableEq

inductive Typed where
  | number (n : UInt32)
  /-- The key read by `getchar`, behind the character that `getc` drops. -/
  | key (choice : UInt8)
  deriving DecidableEq, Repr

/-- The condition of both `do` loops. -/
def asksAgain (n : UInt32) : Bool := n < 1 && n > 3

/-- The top of the editing loop, where the threshold is printed. -/
def display (rooms : Rooms) (roomNum thresholdNum : UInt32) : Menu :=
  match threshold? thresholdNum with
  | none => ⟨rooms, .editing roomNum thresholdNum none⟩
  | some t =>
    match rooms[(roomNum - 1).toNat]? with
    | none => ⟨rooms, .fault .outOfBounds⟩
    | some element => ⟨rooms, .editing roomNum thresholdNum (some (t.get element))⟩

/-- A threshold one higher or lower. -/
def adjust (rooms : Rooms) (roomNum : UInt32) (t : Threshold) (step : Int) : Except Fault Rooms :=
  match rooms[(roomNum - 1).toNat]? with
  | none => .error .outOfBounds
  | some element =>
    match CInt.add (t.get element) step with
    | none => .error .overflow
    | some value => .ok (rooms.setIfInBounds (roomNum - 1).toNat (t.set element value))

/-- The switch behind the key. -/
def pressed (rooms : Rooms) (roomNum thresholdNum : UInt32) (choice : UInt8) : Except Fault Rooms :=
  match threshold? thresholdNum with
  | none => .ok rooms
  | some t =>
    if choice = 43 then adjust rooms roomNum t 1
    else if choice = 45 then adjust rooms roomNum t (-1)
    else .ok rooms

/-- The body of the editing loop from the key on, up to the next wait. The key `x` leaves the loop. -/
def edit (rooms : Rooms) (roomNum thresholdNum : UInt32) (choice : UInt8) : Menu :=
  match pressed rooms roomNum thresholdNum choice with
  | .error f => ⟨rooms, .fault f⟩
  | .ok rooms => if choice = 120 then ⟨rooms, .askRoom⟩ else display rooms roomNum thresholdNum

def menuThreadFunction : Machine Menu Typed where
  step m typed :=
    match m.place, typed with
    | .askRoom, .number roomNum =>
      some { m with place := if asksAgain roomNum then .askRoom else .askSensor roomNum }
    | .askSensor roomNum, .number thresholdNum =>
      some (if asksAgain thresholdNum then m else display m.rooms roomNum thresholdNum)
    | .editing roomNum thresholdNum _, .key choice => some (edit m.rooms roomNum thresholdNum choice)
    | _, _ => none

def menuStart (rooms : Rooms) : Menu := ⟨rooms, .askRoom⟩

def InRange (n : UInt32) : Prop := 1 ≤ n.toNat ∧ n.toNat ≤ 3

def Threshold.nth (j : Fin 3) : Threshold :=
  match j with
  | 0 => .temperature
  | 1 => .indorLight
  | 2 => .outLight

/-- One of the nine thresholds, by room and sensor. -/
def cell (rooms : Rooms) (i j : Fin 3) : Int := (Threshold.nth j).get (rooms.get i)

/-- What a key asks for. -/
def wanted (choice : UInt8) : Int := if choice = 43 then 1 else if choice = 45 then -1 else 0

/-- A key in the editing loop moves the selected threshold, unless it would overflow, and
keeps the other eight. -/
structure KeyEffect (roomNum thresholdNum : UInt32) (choice : UInt8) (before after : Menu) : Prop where
  selected : ∀ i j : Fin 3, roomNum.toNat = i + 1 → thresholdNum.toNat = j + 1 →
    cell after.rooms i j = cell before.rooms i j + wanted choice ∨
      after.place = .fault .overflow ∧ after.rooms = before.rooms ∧
        CInt.check (cell before.rooms i j + wanted choice) = none
  others : ∀ i j : Fin 3, ¬ (roomNum.toNat = i + 1 ∧ thresholdNum.toNat = j + 1) →
    cell after.rooms i j = cell before.rooms i j

/-- What is asked of every state of a run. -/
structure Kept (m : Menu) : Prop where
  inside : m.place ≠ .fault .outOfBounds
  entered : ∀ roomNum thresholdNum shown, m.place = .editing roomNum thresholdNum shown →
    InRange roomNum ∧ InRange thresholdNum
  numbers : ∀ n next, menuThreadFunction.step m (.number n) = some next → next.rooms = m.rooms
  keys : ∀ roomNum thresholdNum shown choice next, m.place = .editing roomNum thresholdNum shown →
    menuThreadFunction.step m (.key choice) = some next → KeyEffect roomNum thresholdNum choice m next

/-- Neither `do` loop ever asks again. -/
theorem asksAgain_never (n : UInt32) : asksAgain n = false := by
  rw [asksAgain,Bool.and_eq_false_iff,decide_eq_false_iff_not,decide_eq_false_iff_not,gt_iff_lt,
    UInt32.lt_iff_toNat_lt,UInt32.lt_iff_toNat_lt]
  simp only [UInt32.reduceToNat]
  omega

section

variable {m next : Menu} {rooms : Rooms} {typed : Typed} {roomNum thresholdNum : UInt32}

theorem menu_step (step : menuThreadFunction.step m typed = some next) :
    (∃ n, typed = .number n ∧ m.place = .askRoom ∧ next = ⟨m.rooms, .askSensor n⟩) ∨
    (∃ r n, typed = .number n ∧ m.place = .askSensor r ∧ next = display m.rooms r n) ∨
    ∃ r t shown c, typed = .key c ∧ m.place = .editing r t shown ∧ next = edit m.rooms r t c := by
  obtain ⟨rooms,place⟩ := m
  simp only [menuThreadFunction,asksAgain_never] at step
  cases place with
  | askRoom =>
    cases typed with
    | number n => exact .inl ⟨n,rfl,rfl,(Option.some.inj step).symm⟩
    | key c => contradiction
  | askSensor r =>
    cases typed with
    | number n => exact .inr (.inl ⟨r,n,rfl,rfl,(Option.some.inj step).symm⟩)
    | key c => contradiction
  | editing r t shown =>
    cases typed with
    | number n => contradiction
    | key c => exact .inr (.inr ⟨r,t,shown,c,rfl,rfl,(Option.some.inj step).symm⟩)
  | fault f => cases typed <;> contradiction

theorem display_rooms (rooms : Rooms) (roomNum thresholdNum : UInt32) :
    (display rooms roomNum thresholdNum).rooms = rooms := by
  unfold display
  repeat' split
  all_goals rfl

/-- The editing loop is entered with the numbers it was given. -/
theorem display_place (rooms : Rooms) (roomNum thresholdNum : UInt32) :
    (∃ shown, (display rooms roomNum thresholdNum).place = .editing roomNum thresholdNum shown) ∨
      (display rooms roomNum thresholdNum).place = .fault .outOfBounds := by
  unfold display
  repeat' split
  · exact .inl ⟨_,rfl⟩
  · exact .inr rfl
  · exact .inl ⟨_,rfl⟩

/-- A key leaves for the outer loop, stays with the numbers, or ends the run. -/
theorem edit_place (rooms : Rooms) (roomNum thresholdNum : UInt32) (choice : UInt8) :
    (edit rooms roomNum thresholdNum choice).place = .askRoom ∨
      (∃ shown, (edit rooms roomNum thresholdNum choice).place = .editing roomNum thresholdNum shown) ∨
      ∃ f, (edit rooms roomNum thresholdNum choice).place = .fault f := by
  unfold edit
  split
  · exact .inr (.inr ⟨_,rfl⟩)
  · split
    · exact .inl rfl
    · rcases display_place _ roomNum thresholdNum with shown | outside
      · exact .inr (.inl shown)
      · exact .inr (.inr ⟨_,outside⟩)

theorem element_of_range (room : InRange roomNum) :
    ∃ i : Fin 3, roomNum.toNat = i + 1 ∧ (roomNum - 1).toNat = i := by
  obtain ⟨low,high⟩ := room
  have first : (1 : UInt32) ≤ roomNum := UInt32.le_iff_toNat_le.mpr low
  refine ⟨⟨roomNum.toNat - 1,by omega⟩,?_,UInt32.toNat_sub_of_le _ _ first⟩
  simp only
  omega

theorem threshold_of_range (sensor : InRange thresholdNum) :
    ∃ j : Fin 3, thresholdNum.toNat = j + 1 ∧ threshold? thresholdNum = some (Threshold.nth j) := by
  obtain ⟨low,high⟩ := sensor
  have named : thresholdNum = UInt32.ofNat thresholdNum.toNat := UInt32.ofNat_toNat.symm
  rcases (show thresholdNum.toNat = 1 ∨ thresholdNum.toNat = 2 ∨ thresholdNum.toNat = 3 by omega) with h | h | h
  · exact ⟨0,h,by rw [named,h]; rfl⟩
  · exact ⟨1,h,by rw [named,h]; rfl⟩
  · exact ⟨2,h,by rw [named,h]; rfl⟩

theorem display_in_range (rooms : Rooms) (room : InRange roomNum) (sensor : InRange thresholdNum) :
    ∃ shown, display rooms roomNum thresholdNum = ⟨rooms, .editing roomNum thresholdNum shown⟩ := by
  obtain ⟨i,_,row⟩ := element_of_range room
  obtain ⟨j,_,column⟩ := threshold_of_range sensor
  refine ⟨some (cell rooms i j),?_⟩
  rw [display,column,row,Rooms.getElem?_fin]
  rfl

theorem Threshold.get_set (t u : Threshold) (r : Room) (value : Int) :
    u.get (t.set r value) = if u = t then value else u.get r := by
  cases t <;> cases u <;> rfl

theorem Threshold.nth_inj : ∀ j k : Fin 3, Threshold.nth j = Threshold.nth k ↔ j = k := by decide

theorem cell_set (rooms : Rooms) (i j i' j' : Fin 3) (value : Int) :
    cell (rooms.setIfInBounds i ((Threshold.nth j).set (rooms.get i) value)) i' j' =
      if i' = i ∧ j' = j then value else cell rooms i' j' := by
  rw [cell,cell,Rooms.get_setIfInBounds]
  by_cases row : i' = i
  · subst row
    simp [Threshold.get_set,Threshold.nth_inj]
  · simp [row]

/-- One threshold moves and the other eight stay, or it would overflow. -/
def Adjusted (rooms : Rooms) (i j : Fin 3) (step : Int) (result : Except Fault Rooms) : Prop :=
  (result = .error .overflow ∧ CInt.check (cell rooms i j + step) = none) ∨
    ∃ after, result = .ok after ∧
      ∀ i' j', cell after i' j' = if i' = i ∧ j' = j then cell rooms i j + step else cell rooms i' j'

theorem adjust_in_range {i : Fin 3} (row : (roomNum - 1).toNat = i) (j : Fin 3) (rooms : Rooms) (step : Int) :
    Adjusted rooms i j step (adjust rooms roomNum (Threshold.nth j) step) := by
  have sum : CInt.add ((Threshold.nth j).get (rooms.get i)) step = CInt.check (cell rooms i j + step) := rfl
  rw [adjust,row,Rooms.getElem?_fin]
  dsimp only
  rw [sum]
  cases total : CInt.check (cell rooms i j + step) with
  | none => exact .inl ⟨rfl,total⟩
  | some value =>
    obtain ⟨rfl,_⟩ := CInt.check_eq_some.mp total
    exact .inr ⟨_,rfl,fun i' j' => cell_set rooms i j i' j' _⟩

/-- Every key on numbers in range does what it asks for. -/
theorem pressed_in_range {i j : Fin 3} (row : (roomNum - 1).toNat = i)
    (column : threshold? thresholdNum = some (Threshold.nth j)) (rooms : Rooms) (choice : UInt8) :
    Adjusted rooms i j (wanted choice) (pressed rooms roomNum thresholdNum choice) := by
  rw [pressed,column,wanted]
  dsimp only
  by_cases plus : choice = 43
  · rw [if_pos plus,if_pos plus]
    exact adjust_in_range row j rooms 1
  · rw [if_neg plus,if_neg plus]
    by_cases minus : choice = 45
    · rw [if_pos minus,if_pos minus]
      exact adjust_in_range row j rooms (-1)
    · rw [if_neg minus,if_neg minus]
      refine .inr ⟨rooms,rfl,fun i' j' => ?_⟩
      rw [Int.add_zero]
      split
      · rename_i same
        rw [same.1,same.2]
      · rfl

/-- The next state after a key on numbers in range. -/
theorem edit_in_range (rooms : Rooms) (room : InRange roomNum) (sensor : InRange thresholdNum) (choice : UInt8) :
    (edit rooms roomNum thresholdNum choice).place ≠ .fault .outOfBounds ∧
      ∀ before : Menu, before.rooms = rooms →
        KeyEffect roomNum thresholdNum choice before (edit rooms roomNum thresholdNum choice) := by
  obtain ⟨i,roomIs,row⟩ := element_of_range room
  obtain ⟨j,sensorIs,column⟩ := threshold_of_range sensor
  rcases pressed_in_range row column rooms choice with ⟨stopped,overflow⟩ | ⟨after,done,cells⟩
  · rw [edit,stopped]
    refine ⟨by simp,?_⟩
    rintro before rfl
    refine ⟨fun i' j' atRoom atSensor => ?_,fun _ _ _ => rfl⟩
    obtain rfl : i' = i := Fin.ext (by omega)
    obtain rfl : j' = j := Fin.ext (by omega)
    exact .inr ⟨rfl,rfl,overflow⟩
  · have stored : (edit rooms roomNum thresholdNum choice).rooms = after := by
      rw [edit,done]
      dsimp only
      split
      · rfl
      · exact display_rooms after roomNum thresholdNum
    constructor
    · rw [edit,done]
      dsimp only
      split
      · simp
      · obtain ⟨shown,waiting⟩ := display_in_range after room sensor
        simp [waiting]
    · rintro before rfl
      refine ⟨fun i' j' atRoom atSensor => .inl ?_,fun i' j' other => ?_⟩
      · have same : i' = i ∧ j' = j := ⟨Fin.ext (by omega),Fin.ext (by omega)⟩
        rw [stored,cells,if_pos same,same.1,same.2]
      · have apart : ¬ (i' = i ∧ j' = j) := by
          rintro ⟨rfl,rfl⟩
          exact other ⟨roomIs,sensorIs⟩
        rw [stored,cells,if_neg apart]

/-- What the run has come to, by the inputs so far. -/
structure Reached (past : List Typed) (m : Menu) : Prop where
  inside : m.place ≠ .fault .outOfBounds
  asked : ∀ roomNum, m.place = .askSensor roomNum → ∃ before, past = before ++ [.number roomNum]
  entered : ∀ roomNum thresholdNum shown, m.place = .editing roomNum thresholdNum shown →
    InRange roomNum ∧ InRange thresholdNum

/-- Two numbers typed after each other, a room's and a sensor's, are both in range. -/
def NumbersInRange (inputs : List Typed) : Prop :=
  ∀ past roomNum thresholdNum rest, inputs = past ++ .number roomNum :: .number thresholdNum :: rest →
    InRange roomNum ∧ InRange thresholdNum

theorem NumbersInRange.front {front back : List Typed} (h : NumbersInRange (front ++ back)) : NumbersInRange front := by
  rintro past r t rest rfl
  exact h past r t (rest ++ back) (by simp)

theorem Reached.kept (h : Reached past m) : Kept m where
  inside := h.inside
  entered := h.entered
  numbers n next step := by
    rcases menu_step step with ⟨_,_,_,rfl⟩ | ⟨r,t,_,_,rfl⟩ | ⟨_,_,_,_,other,_⟩
    · rfl
    · exact display_rooms m.rooms r t
    · contradiction
  keys r t shown choice next place step := by
    obtain ⟨room,sensor⟩ := h.entered r t shown place
    rcases menu_step step with ⟨_,other,_⟩ | ⟨_,_,other,_⟩ | ⟨r',t',_,c,same,there,rfl⟩
    · contradiction
    · contradiction
    · cases same
      cases place.symm.trans there
      exact (edit_in_range m.rooms room sensor choice).2 m rfl

theorem reached_step (valid : NumbersInRange (past ++ [typed])) (h : Reached past m)
    (step : menuThreadFunction.step m typed = some next) : Reached (past ++ [typed]) next := by
  rcases menu_step step with ⟨n,rfl,_,rfl⟩ | ⟨r,t,rfl,place,rfl⟩ | ⟨r,t,shown,c,rfl,place,rfl⟩
  · refine ⟨by simp,?_,by simp⟩
    rintro roomNum same
    cases same
    exact ⟨past,rfl⟩
  · obtain ⟨before,rfl⟩ := h.asked r place
    obtain ⟨room,sensor⟩ := valid before r t [] (by simp)
    obtain ⟨shown,waiting⟩ := display_in_range m.rooms room sensor
    rw [waiting]
    refine ⟨by simp,by simp,?_⟩
    rintro _ _ _ same
    cases same
    exact ⟨room,sensor⟩
  · obtain ⟨room,sensor⟩ := h.entered r t shown place
    have inside := (edit_in_range m.rooms room sensor c).1
    rcases edit_place m.rooms r t c with left | ⟨again,stays⟩ | ⟨f,ended⟩
    · exact ⟨inside,by simp [left],by simp [left]⟩
    · refine ⟨inside,by simp [stays],?_⟩
      intro r' t' shown' same
      cases stays.symm.trans same
      exact ⟨room,sensor⟩
    · exact ⟨inside,by simp [ended],by simp [ended]⟩

/-- A run whose numbers are in range keeps its states in order. -/
theorem menu_run {rooms : Rooms} (whole : menuThreadFunction.run (menuStart rooms) inputs = some m)
    (valid : NumbersInRange inputs) : Reached inputs m := by
  have carried : NumbersInRange inputs → Reached inputs m := by
    apply Machine.run_history (fun past m => NumbersInRange past → Reached past m) _ _ whole
    · intro past m typed next _ holds step valid
      exact reached_step valid (holds valid.front) step
    · exact fun _ => ⟨by simp [menuStart],by simp [menuStart],by simp [menuStart]⟩
  exact carried valid

/-- Two numbers are typed after each other only by choosing a room and a sensor. -/
theorem numbers_enter {start : Menu} (whole : menuThreadFunction.run start
      (past ++ .number roomNum :: .number thresholdNum :: rest) = some m) :
    ∃ rooms, menuThreadFunction.run start (past ++ [.number roomNum,.number thresholdNum]) =
      some (display rooms roomNum thresholdNum) := by
  obtain ⟨asking,before,later⟩ := Machine.run_append_eq_some.mp whole
  obtain ⟨asked,first,later⟩ := Machine.run_cons.mp later
  obtain ⟨entered,second,_⟩ := Machine.run_cons.mp later
  have both : menuThreadFunction.run start (past ++ [.number roomNum,.number thresholdNum]) = some entered :=
    Machine.run_append_eq_some.mpr ⟨asking,before,Machine.run_cons.mpr ⟨asked,first,by simpa using second⟩⟩
  rcases menu_step first with ⟨r,same,_,rfl⟩ | ⟨r,t,same,_,rfl⟩ | ⟨_,_,_,_,other,_⟩
  · cases same
    rcases menu_step second with ⟨_,_,place,_⟩ | ⟨r,t,same,place,rfl⟩ | ⟨_,_,_,_,other,_⟩
    · contradiction
    · cases same
      cases place
      exact ⟨asking.rooms,both⟩
    · contradiction
  · rcases display_place asking.rooms r t with ⟨shown,waiting⟩ | outside
    · rcases menu_step second with ⟨_,_,place,_⟩ | ⟨_,_,_,place,_⟩ | ⟨_,_,_,_,other,_⟩
      · exact absurd (waiting.symm.trans place) (by simp)
      · exact absurd (waiting.symm.trans place) (by simp)
      · contradiction
    · rcases menu_step second with ⟨_,_,place,_⟩ | ⟨_,_,_,place,_⟩ | ⟨_,_,_,_,other,_⟩
      · exact absurd (outside.symm.trans place) (by simp)
      · exact absurd (outside.symm.trans place) (by simp)
      · contradiction
  · contradiction

/-- The menu keeps its states in order along a run exactly if every room number and every
sensor number typed is one of the three. -/
theorem menu_kept_iff (rooms : Rooms) (whole : menuThreadFunction.run (menuStart rooms) inputs = some m) :
    (∀ past rest reached, inputs = past ++ rest →
        menuThreadFunction.run (menuStart rooms) past = some reached → Kept reached) ↔
      NumbersInRange inputs := by
  constructor
  · rintro kept past r t rest rfl
    obtain ⟨now,entering⟩ := numbers_enter whole
    have state := kept (past ++ [.number r,.number t]) rest _ (by simp) entering
    rcases display_place now r t with ⟨shown,waiting⟩ | outside
    · exact state.entered r t shown waiting
    · exact absurd outside state.inside
  · rintro valid past rest reached rfl run
    exact (menu_run run valid.front).kept

end

/-- The temperature of the second room, one degree up. -/
def raised : Rooms := #v[⟨22, 50, 70⟩, ⟨23, 50, 70⟩, ⟨22, 50, 70⟩]

theorem second_room_raised : Kept ⟨raised,.editing 2 1 (some 23)⟩ := by
  have whole : menuThreadFunction.run (menuStart initialRooms) [.number 2,.number 1,.key 43] =
    some ⟨raised,.editing 2 1 (some 23)⟩ := by decide
  apply (menu_kept_iff initialRooms whole).mpr _ [.number 2,.number 1,.key 43] [] _ (List.append_nil _).symm whole
  intro past r t rest same
  rcases past with _ | ⟨_,_ | ⟨_,_ | ⟨_,_⟩⟩⟩
  · cases same
    exact ⟨by unfold InRange; decide,by unfold InRange; decide⟩
  all_goals simp at same

/-- A fourth room is accepted, and the editing loop then reads behind the array. -/
theorem fourth_room_entered : ∃ reached,
    menuThreadFunction.run (menuStart initialRooms) [.number 4,.number 1] = some reached ∧ ¬ Kept reached := by
  have outside : menuThreadFunction.run (menuStart initialRooms) [.number 4,.number 1] =
    some ⟨initialRooms,.fault .outOfBounds⟩ := by decide
  exact ⟨_,outside,fun kept => kept.inside rfl⟩

end SmartHospital.Mqtt
