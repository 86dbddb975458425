import SmartHospital.Menu

/-! The thresholds along a run of the menu: each is what it was, with what the keys typed
for it add up to. -/
namespace SmartHospital.Mqtt

variable {rooms : Rooms} {roomNum thresholdNum : UInt32} {choice : UInt8} {m next : Menu} {typed : Typed}

/-- The numbers name this threshold. -/
def Selects (roomNum thresholdNum : UInt32) (i j : Fin 3) : Prop :=
  roomNum.toNat = i + 1 ∧ thresholdNum.toNat = j + 1

instance (roomNum thresholdNum : UInt32) (i j : Fin 3) : Decidable (Selects roomNum thresholdNum i j) :=
  inferInstanceAs (Decidable (_ ∧ _))

/-- What an input asks for of one threshold. -/
def asked (i j : Fin 3) (m : Menu) : Typed → Int
  | .number _ => 0
  | .key choice =>
    match m.place with
    | .editing roomNum thresholdNum _ => if Selects roomNum thresholdNum i j then wanted choice else 0
    | _ => 0

/-- No fault has ended the thread. -/
def Menu.Sane (m : Menu) : Prop := ∀ fault, m.place ≠ .fault fault

theorem Selects.in_range (selects : Selects roomNum thresholdNum i j) : InRange roomNum ∧ InRange thresholdNum := by
  obtain ⟨room,sensor⟩ := selects
  exact ⟨⟨by omega,by omega⟩,⟨by omega,by omega⟩⟩

theorem element_in_range {element : Room} (inside : rooms[(roomNum - 1).toNat]? = some element) : InRange roomNum := by
  obtain ⟨below,_⟩ := Vector.getElem?_eq_some_iff.mp inside
  have small := roomNum.toNat_lt
  rw [UInt32.toNat_sub,UInt32.toNat_one] at below
  exact ⟨by omega,by omega⟩

theorem threshold_in_range (named : threshold? thresholdNum = some t) : InRange thresholdNum := by
  unfold threshold? at named
  split at named
  · simp_all [InRange]
  split at named
  · simp_all [InRange]
  split at named
  · simp_all [InRange]
  · contradiction

/-- On numbers out of range a key stores nothing. -/
theorem pressed_outside (outside : ¬ (InRange roomNum ∧ InRange thresholdNum))
    (done : pressed rooms roomNum thresholdNum choice = .ok after) : after = rooms := by
  cases named : threshold? thresholdNum with
  | none =>
    rw [pressed,named] at done
    exact (Except.ok.inj done).symm
  | some t =>
    have beyond : rooms[(roomNum - 1).toNat]? = none := by
      cases inside : rooms[(roomNum - 1).toNat]? with
      | none => rfl
      | some element => exact absurd ⟨element_in_range inside,threshold_in_range named⟩ outside
    have refused (step : Int) : adjust rooms roomNum t step = .error .outOfBounds := by rw [adjust,beyond]
    rw [pressed,named] at done
    simp only [refused] at done
    split at done
    · contradiction
    split at done
    · contradiction
    exact (Except.ok.inj done).symm

theorem edit_outside (outside : ¬ (InRange roomNum ∧ InRange thresholdNum)) :
    (edit rooms roomNum thresholdNum choice).rooms = rooms := by
  cases done : pressed rooms roomNum thresholdNum choice with
  | error f => rw [edit,done]
  | ok after =>
    obtain rfl := pressed_outside outside done
    rw [edit,done]
    dsimp only
    split
    · rfl
    · exact display_rooms _ roomNum thresholdNum

/-- A key that ends in no fault adds what it asks for to the selected threshold. -/
theorem edit_sane (sane : (edit rooms roomNum thresholdNum choice).Sane) (i j : Fin 3) :
    cell (edit rooms roomNum thresholdNum choice).rooms i j =
      cell rooms i j + if Selects roomNum thresholdNum i j then wanted choice else 0 := by
  by_cases ranges : InRange roomNum ∧ InRange thresholdNum
  · have effect := (edit_in_range rooms ranges.1 ranges.2 choice).2 ⟨rooms,.askRoom⟩ rfl
    split
    · rename_i selects
      rcases effect.selected i j selects.1 selects.2 with moved | ⟨fault,_⟩
      · exact moved
      · exact absurd fault (sane _)
    · rename_i other
      rw [effect.others i j other,Int.add_zero]
  · have other : ¬ Selects roomNum thresholdNum i j := fun selects => ranges selects.in_range
    rw [edit_outside ranges,if_neg other,Int.add_zero]

theorem menu_adds (step : menuThreadFunction.step m typed = some next) (sane : next.Sane) (i j : Fin 3) :
    cell next.rooms i j = cell m.rooms i j + asked i j m typed := by
  rcases menu_step step with ⟨n,rfl,place,rfl⟩ | ⟨r,n,rfl,place,rfl⟩ | ⟨r,t,shown,c,rfl,place,rfl⟩
  · exact (Int.add_zero _).symm
  · rw [display_rooms]
    exact (Int.add_zero _).symm
  · rw [edit_sane sane]
    simp only [asked,place]

/-- In every run that ends in no fault, each of the nine thresholds is what it was, with
the keys that were typed while the menu had it selected. -/
theorem thresholds_add_up (whole : menuThreadFunction.run m inputs = some final) (sane : final.Sane) (i j : Fin 3) :
    cell final.rooms i j = cell m.rooms i j + menuThreadFunction.total (asked i j) m inputs := by
  apply Machine.run_total (fun m => cell m.rooms i j) (asked i j) Menu.Sane ?_ ?_ whole sane
  · intro m typed next step fault faulty
    rcases menu_step step with ⟨_,_,place,_⟩ | ⟨_,_,_,place,_⟩ | ⟨_,_,_,_,_,place,_⟩
    all_goals exact absurd (place.symm.trans faulty) (by simp)
  · exact fun m typed next step sane => menu_adds step sane i j

/-- The room and the sensor of the first threshold, and three keys. -/
def firstKeys : List Typed := [.number 1,.number 1,.key 43,.key 43,.key 45]

theorem first_keys_add_up : ∃ final, menuThreadFunction.run (menuStart initialRooms) firstKeys = some final ∧
    cell final.rooms 0 0 = 22 + menuThreadFunction.total (asked 0 0) (menuStart initialRooms) firstKeys := by
  obtain ⟨final,whole,place⟩ : ∃ final, menuThreadFunction.run (menuStart initialRooms) firstKeys = some final ∧
    final.place = .editing 1 1 (some 23) := ⟨_,rfl,rfl⟩
  have sane : final.Sane := by simp [Menu.Sane,place]
  exact ⟨final,whole,thresholds_add_up whole sane 0 0⟩

end SmartHospital.Mqtt
