import SmartHospital.Isolation
import SmartHospital.Publisher
import SmartHospital.Thresholds

/-! The ward: running publishers, the controller with its menu, and the subscribers that
print commands. What was published can be delivered any number of times and in any
order, or be lost. -/
namespace SmartHospital.Mqtt

open TopicFilter

/-- What every running mqttPub was given as its topic. -/
structure Places (σ : Type*) where
  level : σ → Bytes
  sensor : σ → Sensors
  single : ∀ p, slash ∉ level p
  free : ∀ p, 0 ∉ level p

structure Ward (σ : Type*) where
  /-- `i` of every publisher -/
  readings : σ → UInt8
  menu : Menu
  published : List MosquittoMessage
  /-- Topic and text of every line that a subscriber printed. -/
  shown : List (Bytes × Bytes)

inductive Ward.Event (σ : Type*) where
  /-- `mosquitto_publish` sends `i` and the three bytes that lie behind it. -/
  | sense (p : σ) (x y z : UInt8)
  | typed (input : Typed)
  | handle (msg : MosquittoMessage) (outMessage : CArray messageLen) (outTopic : CArray buffLen)
  | print (msg : MosquittoMessage)

def Ward.start (rooms : Rooms) : Ward σ := ⟨fun _ => 0, menuStart rooms, [], []⟩

/-- One turn of the loop of mqttPub.cpp. -/
def Ward.sense [DecidableEq σ] (places : Places σ) (w : Ward σ) (p : σ) (x y z : UInt8) : Ward σ :=
  { w with
    readings := Function.update w.readings p (w.readings p + 20)
    published := w.published ++ [⟨topic (places.level p) (places.sensor p).name, [w.readings p, x, y, z]⟩] }

/-- A fault ends the controller. -/
def Ward.type (w : Ward σ) (input : Typed) : Option (Ward σ) :=
  (menuThreadFunction.step w.menu input).bind fun menu =>
    match menu.place with
    | .fault _ => none
    | _ => some { w with menu := menu }

/-- `on_message` of the controller, for a message under one of its subscriptions. -/
def Ward.handle (sign : CharSign) (w : Ward σ) (msg : MosquittoMessage) (outMessage : CArray messageLen)
    (outTopic : CArray buffLen) : Option (Ward σ) :=
  if msg ∈ w.published ∧ topics.any (admits · msg.topic) = true then
    (onMessage sign w.menu.rooms outMessage outTopic msg).map fun answer =>
      { w with published := w.published ++ [⟨answer.topic, answer.payload⟩] }
  else none

/-- `on_message` of mqttSub.cpp, whatever it has subscribed to. -/
def Ward.print (w : Ward σ) (msg : MosquittoMessage) : Option (Ward σ) :=
  if msg ∈ w.published then (cstr? msg.payload).map fun text => { w with shown := w.shown ++ [(msg.topic, text)] }
  else none

def ward [DecidableEq σ] (sign : CharSign) (places : Places σ) : Machine (Ward σ) (Ward.Event σ) where
  step w
    | .sense p x y z => some (w.sense places p x y z)
    | .typed input => w.type input
    | .handle msg outMessage outTopic => w.handle sign msg outMessage outTopic
    | .print msg => w.print msg

section

variable {σ : Type*} {sign : CharSign} {w next : Ward σ}

theorem Ward.type_eq_some {input : Typed} : w.type input = some next ↔
    ∃ menu, menuThreadFunction.step w.menu input = some menu ∧ menu.Sane ∧ next = { w with menu := menu } := by
  rw [Ward.type,Option.bind_eq_some_iff]
  refine exists_congr fun menu => and_congr_right fun _ => ?_
  rw [Menu.Sane]
  cases menu.place <;> simp [eq_comm]

theorem Ward.handle_eq_some : w.handle sign msg outMessage outTopic = some next ↔
    msg ∈ w.published ∧ (∃ filter ∈ topics, admits filter msg.topic = true) ∧
      ∃ answer, onMessage sign w.menu.rooms outMessage outTopic msg = some answer ∧
        next = { w with published := w.published ++ [⟨answer.topic, answer.payload⟩] } := by
  simp only [Ward.handle,List.any_eq_true]
  split
  · rename_i taken
    rw [Option.map_eq_some_iff]
    exact ⟨fun ⟨answer,done,same⟩ => ⟨taken.1,taken.2,answer,done,same.symm⟩,
      fun ⟨_,_,answer,done,same⟩ => ⟨answer,done,same.symm⟩⟩
  · rename_i refused
    simp only [reduceCtorEq,false_iff]
    exact fun ⟨here,admitted,_⟩ => refused ⟨here,admitted⟩

theorem Ward.print_eq_some : w.print msg = some next ↔
    msg ∈ w.published ∧ ∃ text, cstr? msg.payload = some text ∧
      next = { w with shown := w.shown ++ [(msg.topic, text)] } := by
  rw [Ward.print]
  split
  · rename_i here
    simp [here,eq_comm]
  · rename_i gone
    simp [gone]

theorem Ward.print_new (held : cstr? msg.payload = some text) :
    Ward.print { w with published := w.published ++ [msg] } msg =
      some { w with published := w.published ++ [msg], shown := w.shown ++ [(msg.topic, text)] } :=
  Ward.print_eq_some.mpr ⟨List.mem_append_right w.published (List.mem_singleton.mpr rfl),_,held,rfl⟩

end

/-- What an event asks for of one threshold. -/
def keyed (i j : Fin 3) (w : Ward σ) : Ward.Event σ → Int
  | .typed input => asked i j w.menu input
  | _ => 0

/-- The level ends in the digit of the room. -/
def InRoom (level : Bytes) (i : Fin 3) : Prop := level.getLast? = some (UInt8.ofNat (49 + i))

theorem cstr?_terminator {text : Bytes} (free : 0 ∉ text) (tail : Bytes) : cstr? (text ++ 0 :: tail) = some text := by
  have terminated : 0 ∈ text ++ 0 :: tail := by simp
  rw [cstr?,if_pos terminated,upToNul_append_nul,upToNul_of_free free]

/-- An answer in terms of the element of `rooms` that the level names. -/
theorem answerText_room {sign : CharSign} {rooms : Rooms} {s : Sensors} {level rest text : Bytes} {reading : UInt8}
    (fits : Fits level s)
    (answered : answerText sign rooms s (reading :: rest) (sign.value (marker level) - sign.value 48) = some text) :
    ∃ element, text = word s (sign.value reading) element ∧
      (s ≠ .door → ∃ i, InRoom level i ∧ element = rooms.get i) := by
  by_cases door : s = .door
  · subst door
    obtain ⟨_,element,rfl⟩ := answerText_word answered
    exact ⟨element,rfl,fun notDoor => absurd rfl notDoor⟩
  · have consulted := (answerText_isSome_iff sign rooms).mp (Option.isSome_of_eq_some answered)
    obtain ⟨_,i,first,last,index⟩ := inBounds_consulted ⟨fits,consulted⟩ door
    rw [answerText_fin door rfl (index sign)] at answered
    refine ⟨_,(Option.some.inj answered).symm,fun _ => ⟨i,?_,rfl⟩⟩
    have digit : ((marker level).toNat : Int) - 48 - 1 = i := index .unsigned
    have digit : (marker level).toNat = 49 + i := by omega
    rw [InRoom,last,← digit,UInt8.ofNat_toNat]

theorem isRoom_of_inRoom {i : Fin 3} (here : InRoom level i) : ∃ c ∈ level.getLast?, IsRoom c := by
  refine ⟨_,here,?_⟩
  rw [IsRoom,UInt8.toNat_ofNat']
  omega

/-- The answer to a publication, under the topic of its actuator. -/
theorem Places.answer_eq (places : Places σ) (p : σ) (fits : Fits (places.level p) (places.sensor p))
    (sign : CharSign) (rooms : Rooms) (outMessage : CArray messageLen) (outTopic : CArray buffLen) (payload : Bytes) :
    onMessage sign rooms outMessage outTopic ⟨topic (places.level p) (places.sensor p).name, payload⟩ =
      (answerText sign rooms (places.sensor p) payload (sign.value (marker (places.level p)) - sign.value 48)).map
        fun text => ⟨topic (places.level p) (places.sensor p).command,
          text ++ 0 :: outMessage.cells.drop (text.length + 1), 2, false⟩ := by
  rw [onMessage_fits (places.single p) fits,upToNul_of_free (trunk_nul_free (places.free p)),← topic_eq_trunk]

section

variable {σ : Type*} [DecidableEq σ] {sign : CharSign} {places : Places σ} {w next : Ward σ} {rooms : Rooms}
  {past events : List (Ward.Event σ)}

def Ward.Event.publishes (p : σ) : Ward.Event σ → Bool
  | .sense q _ _ _ => q = p
  | _ => false

/-- How often a publisher has published. -/
def sensed (p : σ) (events : List (Ward.Event σ)) : Nat := events.countP (Ward.Event.publishes p)

/-- The publication with a number, counted from none. -/
def Places.Measured (places : Places σ) (p : σ) (n : Nat) (msg : MosquittoMessage) : Prop :=
  ∃ x y z, msg = ⟨topic (places.level p) (places.sensor p).name, [reading n, x, y, z]⟩

/-- The thresholds of a room after these events: what they were, with the keys typed. -/
def Standing (sign : CharSign) (places : Places σ) (rooms : Rooms) (past : List (Ward.Event σ)) (i : Fin 3)
    (element : Room) : Prop :=
  ∀ j, (Threshold.nth j).get element = cell rooms i j + (ward sign places).total (keyed i j) (Ward.start rooms) past

/-- The word for the publication with a number, if it was made by then, under the
thresholds of its room as they stood. A door is locked whatever they are. -/
structure Chosen (sign : CharSign) (places : Places σ) (rooms : Rooms) (past : List (Ward.Event σ)) (p : σ) (n : Nat)
    (text : Bytes) : Prop where
  made : n < sensed p past
  word : ∃ element, text = word (places.sensor p) (sign.value (reading n)) element ∧
    (places.sensor p ≠ .door → ∃ i, InRoom (places.level p) i ∧ Standing sign places rooms past i element)

/-- The command that a publication was answered with when it was handled. -/
def Commanded (sign : CharSign) (places : Places σ) (rooms : Rooms) (past : List (Ward.Event σ)) (p : σ) (text : Bytes) :
    Prop :=
  ∃ n before msg outMessage outTopic rest, past = before ++ .handle msg outMessage outTopic :: rest ∧
    places.Measured p n msg ∧ Chosen sign places rooms before p n text

/-- Every message is a publication that was made, or the command for one. -/
def Origin (sign : CharSign) (places : Places σ) (rooms : Rooms) (past : List (Ward.Event σ)) (msg : MosquittoMessage) :
    Prop :=
  (∃ p, ∃ n < sensed p past, places.Measured p n msg) ∨
    ∃ p text tail, Commanded sign places rooms past p text ∧
      msg = ⟨topic (places.level p) (places.sensor p).command, text ++ 0 :: tail⟩

/-- What the ward has come to, by what has happened. -/
structure Accounted (sign : CharSign) (places : Places σ) (rooms : Rooms) (past : List (Ward.Event σ)) (w : Ward σ) :
    Prop where
  readings : ∀ p, w.readings p = reading (sensed p past)
  published : ∀ msg ∈ w.published, Origin sign places rooms past msg
  shown : ∀ line ∈ w.shown, ∃ msg, Origin sign places rooms past msg ∧ line.1 = msg.topic ∧ cstr? msg.payload = some line.2

theorem sensed_le (p : σ) (past rest : List (Ward.Event σ)) : sensed p past ≤ sensed p (past ++ rest) := by
  rw [sensed,sensed,List.countP_append]
  exact Nat.le_add_right _ _

theorem sensed_sense (p q : σ) (past : List (Ward.Event σ)) :
    sensed q (past ++ [.sense p x y z]) = sensed q past + if p = q then 1 else 0 := by
  rw [sensed,sensed,List.countP_append,List.countP_singleton]
  simp only [Ward.Event.publishes,decide_eq_true_eq]

theorem Ward.sense_readings (q : σ) :
    (w.sense places p x y z).readings q = if p = q then w.readings p + 20 else w.readings q :=
  (Function.update_apply w.readings p _ q).trans (if_congr eq_comm rfl rfl)

theorem Origin.later (origin : Origin sign places rooms past msg) (rest : List (Ward.Event σ)) :
    Origin sign places rooms (past ++ rest) msg := by
  rcases origin with ⟨p,n,made,measured⟩ | ⟨p,text,tail,⟨n,before,handled,out,name,after,rfl,chosen⟩,rfl⟩
  · exact .inl ⟨p,n,made.trans_le (sensed_le p past rest),measured⟩
  · exact .inr ⟨p,text,tail,⟨n,before,handled,out,name,after ++ rest,by simp,chosen⟩,rfl⟩

/-- Any thresholds that are not those of a fault stand as the keys have left them. -/
theorem ward_standing (whole : (ward sign places).run (Ward.start rooms) past = some w) (i : Fin 3) :
    Standing sign places rooms past i (w.menu.rooms.get i) := by
  intro j
  apply Machine.run_total (fun w => cell w.menu.rooms i j) (keyed i j) (fun _ => True) (fun _ _ _ _ => trivial) ?_ whole trivial
  intro w event next step _
  cases event with
  | sense p x y z =>
    obtain rfl := Option.some.inj step
    exact (Int.add_zero _).symm
  | typed input =>
    obtain ⟨menu,typed,sane,rfl⟩ := Ward.type_eq_some.mp step
    exact menu_adds typed sane i j
  | handle msg outMessage outTopic =>
    obtain ⟨_,_,_,_,rfl⟩ := Ward.handle_eq_some.mp step
    exact (Int.add_zero _).symm
  | print msg =>
    obtain ⟨_,_,_,rfl⟩ := Ward.print_eq_some.mp step
    exact (Int.add_zero _).symm

/-- What is handled is a publication, and it is answered with the command for it. -/
theorem handle_origin (whole : (ward sign places).run (Ward.start rooms) past = some w)
    (origin : Origin sign places rooms past msg) (admitted : ∃ filter ∈ topics, admits filter msg.topic = true)
    (answered : onMessage sign w.menu.rooms outMessage outTopic msg = some answer) :
    Origin sign places rooms (past ++ [.handle msg outMessage outTopic]) ⟨answer.topic, answer.payload⟩ := by
  rcases origin with ⟨p,n,made,x,y,z,rfl⟩ | ⟨p,_,_,_,rfl⟩
  · by_cases fits : Fits (places.level p) (places.sensor p)
    · rw [places.answer_eq p fits,Option.map_eq_some_iff] at answered
      obtain ⟨text,chosen,rfl⟩ := answered
      obtain ⟨element,word,room⟩ := answerText_room fits chosen
      refine .inr ⟨p,text,_,⟨n,past,_,outMessage,outTopic,[],rfl,⟨x,y,z,rfl⟩,made,element,word,?_⟩,rfl⟩
      intro notDoor
      obtain ⟨i,there,rfl⟩ := room notDoor
      exact ⟨i,there,ward_standing whole i⟩
    · rw [onMessage_overrun (places.single p) fits] at answered
      contradiction
  · obtain ⟨filter,member,admits⟩ := admitted
    rw [command_not_admitted _ (places.single p) member] at admits
    contradiction

theorem Accounted.idle (accounted : Accounted sign places rooms past w) (event : Ward.Event σ)
    (quiet : ∀ p, event.publishes p = false) : Accounted sign places rooms (past ++ [event]) w where
  readings p := by
    rw [accounted.readings p,sensed,sensed,List.countP_append,List.countP_singleton,quiet p]
    rfl
  published msg member := (accounted.published msg member).later [event]
  shown line member := by
    obtain ⟨msg,origin,same⟩ := accounted.shown line member
    exact ⟨msg,origin.later [event],same⟩

theorem accounted_step (whole : (ward sign places).run (Ward.start rooms) past = some w)
    (accounted : Accounted sign places rooms past w) (step : (ward sign places).step w event = some next) :
    Accounted sign places rooms (past ++ [event]) next := by
  cases event with
  | sense p x y z =>
    obtain rfl := Option.some.inj step
    refine ⟨?_,?_,?_⟩
    · intro q
      rw [Ward.sense_readings,sensed_sense]
      split
      · rename_i same
        rw [← same,accounted.readings p]
        rfl
      · exact accounted.readings q
    · intro msg member
      rcases List.mem_append.mp member with old | new
      · exact (accounted.published msg old).later _
      · obtain rfl := List.mem_singleton.mp new
        refine .inl ⟨p,sensed p past,?_,x,y,z,by rw [accounted.readings p]⟩
        rw [sensed_sense,if_pos rfl]
        exact Nat.lt_succ_self _
    · intro line member
      obtain ⟨msg,origin,same⟩ := accounted.shown line member
      exact ⟨msg,origin.later _,same⟩
  | typed input =>
    obtain ⟨menu,_,_,rfl⟩ := Ward.type_eq_some.mp step
    have idle := accounted.idle (.typed input) fun _ => rfl
    exact ⟨idle.readings,idle.published,idle.shown⟩
  | handle msg outMessage outTopic =>
    obtain ⟨here,admitted,answer,answered,rfl⟩ := Ward.handle_eq_some.mp step
    have idle := accounted.idle (.handle msg outMessage outTopic) fun _ => rfl
    refine ⟨idle.readings,?_,idle.shown⟩
    intro other member
    rcases List.mem_append.mp member with old | new
    · exact idle.published other old
    · obtain rfl := List.mem_singleton.mp new
      exact handle_origin whole (accounted.published msg here) admitted answered
  | print msg =>
    obtain ⟨here,text,held,rfl⟩ := Ward.print_eq_some.mp step
    have idle := accounted.idle (.print msg) fun _ => rfl
    refine ⟨idle.readings,idle.published,?_⟩
    intro line member
    rcases List.mem_append.mp member with old | new
    · exact idle.shown line old
    · obtain rfl := List.mem_singleton.mp new
      exact ⟨msg,idle.published msg here,rfl,held⟩

theorem accounted_run (whole : (ward sign places).run (Ward.start rooms) events = some final) :
    Accounted sign places rooms events final := by
  apply Machine.run_history (Accounted sign places rooms) (fun _ _ _ _ whole accounted => accounted_step whole accounted)
    ?_ whole
  exact ⟨fun _ => rfl,by simp [Ward.start],by simp [Ward.start]⟩

theorem Sensors.command_inj : ∀ s t : Sensors, s.command = t.command → s = t := by
  intro s t
  cases s <;> cases t <;> decide

/-- Whatever the order of things, a line printed under the topic of an actuator shows the
word for a publication that its own sensor made before, chosen when that was handled
under the thresholds that the keys typed by then had left for its room. -/
theorem shown_was_chosen (whole : (ward sign places).run (Ward.start rooms) events = some final)
    (line : (topic level s.command, text) ∈ final.shown) (single : slash ∉ level) :
    ∃ p, places.level p = level ∧ places.sensor p = s ∧ Commanded sign places rooms events p text := by
  obtain ⟨msg,origin,name,held⟩ := (accounted_run whole).shown _ line
  rcases origin with ⟨p,n,_,x,y,z,rfl⟩ | ⟨p,word,tail,commanded,rfl⟩
  · have last := (three_inj single s.command_literal.single (places.single p) (places.sensor p).name_literal.single name).2
    exact absurd last.symm ((places.sensor p).name_ne_command s)
  · obtain ⟨rfl,last⟩ := three_inj single s.command_literal.single (places.single p)
      (places.sensor p).command_literal.single name
    refine ⟨p,rfl,Sensors.command_inj _ _ last.symm,?_⟩
    have free : 0 ∉ word := by
      obtain ⟨_,_,_,_,_,_,_,_,chosen⟩ := commanded
      obtain ⟨element,rfl,_⟩ := chosen.word
      exact word_nul_free _ _ element
    rw [cstr?_terminator free] at held
    obtain rfl : word = text := Option.some.inj held
    exact commanded

/-- Nothing the ward may have come to keeps a publication from being answered: handled at
any time, it brings the word for it under the thresholds as they stand then. -/
theorem publication_answered (whole : (ward sign places).run (Ward.start rooms) past = some w)
    (there : msg ∈ w.published) (measured : places.Measured p n msg) (fits : Fits (places.level p) (places.sensor p))
    (room : places.sensor p = .door ∨ ∃ i, InRoom (places.level p) i) (outMessage : CArray messageLen)
    (outTopic : CArray buffLen) :
    ∃ element command final,
      (places.sensor p ≠ .door → ∃ i, InRoom (places.level p) i ∧ Standing sign places rooms past i element) ∧
      (ward sign places).run w [.handle msg outMessage outTopic,.print command] = some final ∧
      final.shown = w.shown ++ [(topic (places.level p) (places.sensor p).command,
        word (places.sensor p) (sign.value (reading n)) element)] := by
  obtain ⟨x,y,z,rfl⟩ := measured
  have consulted : places.sensor p = .door ∨
      [reading n,x,y,z] ≠ [] ∧ ∃ c ∈ (places.level p).getLast?, IsRoom c :=
    room.imp_right fun ⟨_,here⟩ => ⟨List.cons_ne_nil _ _,isRoom_of_inRoom here⟩
  obtain ⟨text,chosen⟩ := Option.isSome_iff_exists.mp ((answerText_isSome_iff sign w.menu.rooms).mpr consulted)
  obtain ⟨element,rfl,inRoom⟩ := answerText_room fits chosen
  have answered := places.answer_eq p fits sign w.menu.rooms outMessage outTopic [reading n,x,y,z]
  rw [chosen,Option.map_some] at answered
  have admitted := (delivered_iff _).mpr ⟨places.level p,places.sensor p,places.single p,rfl⟩
  have handled := Ward.handle_eq_some.mpr ⟨there,admitted,_,answered,rfl⟩
  have held := cstr?_terminator (word_nul_free (places.sensor p) (sign.value (reading n)) element)
  refine ⟨element,_,_,?_,Machine.run_cons.mpr ⟨_,handled,(Machine.run_singleton _ _).trans (Ward.print_new (held _))⟩,rfl⟩
  intro notDoor
  obtain ⟨i,here,rfl⟩ := inRoom notDoor
  exact ⟨i,here,ward_standing whole i⟩

end

/-- A thermometer in the first room. -/
def thermometer : Places Unit where
  level _ := Bytes.ofString "1"
  sensor _ := .temperature
  single _ := by decide
  free _ := by decide

/-- The threshold is lowered by one before the first reading is handled and shown. -/
def firstReading : List (Ward.Event Unit) :=
  [.sense () 0 0 0,.typed (.number 1),.typed (.number 1),.typed (.key 45),
    .handle ⟨Bytes.ofString "bolnica/1/temperatura", [0, 0, 0, 0]⟩ (CArray.zeros messageLen) (CArray.zeros buffLen),
    .print ⟨Bytes.ofString "bolnica/1/upravljajTemperaturom", Bytes.ofString "ukljuci" ++ List.replicate 13 0⟩]

theorem first_reading_shown : ∃ final, (ward .signed thermometer).run (Ward.start initialRooms) firstReading = some final ∧
    ∃ p, thermometer.level p = Bytes.ofString "1" ∧ thermometer.sensor p = .temperature ∧
      Commanded .signed thermometer initialRooms firstReading p (Bytes.ofString "ukljuci") := by
  obtain ⟨final,whole,line⟩ : ∃ final,
      (ward .signed thermometer).run (Ward.start initialRooms) firstReading = some final ∧
        (topic (Bytes.ofString "1") Sensors.temperature.command, Bytes.ofString "ukljuci") ∈ final.shown :=
    ⟨_,rfl,by decide⟩
  exact ⟨final,whole,shown_was_chosen whole line (by decide)⟩

/-- The first reading waits while the menu is used. -/
theorem thermometer_answered : ∃ w,
    (ward .signed thermometer).run (Ward.start initialRooms) (firstReading.take 4) = some w ∧
      ∃ element command final,
        (Sensors.temperature ≠ .door → ∃ i, InRoom (Bytes.ofString "1") i ∧
          Standing .signed thermometer initialRooms (firstReading.take 4) i element) ∧
        (ward .signed thermometer).run w
          [.handle ⟨Bytes.ofString "bolnica/1/temperatura", [0, 0, 0, 0]⟩ (CArray.zeros messageLen) (CArray.zeros buffLen),
            .print command] = some final ∧
        final.shown = w.shown ++ [(topic (Bytes.ofString "1") Sensors.temperature.command,
          word .temperature (CharSign.signed.value (reading 0)) element)] := by
  obtain ⟨w,whole,there⟩ : ∃ w,
      (ward .signed thermometer).run (Ward.start initialRooms) (firstReading.take 4) = some w ∧
        ⟨Bytes.ofString "bolnica/1/temperatura", [0, 0, 0, 0]⟩ ∈ w.published := ⟨_,rfl,by decide⟩
  have measured : thermometer.Measured () 0 ⟨Bytes.ofString "bolnica/1/temperatura", [0, 0, 0, 0]⟩ := ⟨0,0,0,rfl⟩
  have fits : Fits (thermometer.level ()) (thermometer.sensor ()) := by decide
  have room : InRoom (thermometer.level ()) 0 := rfl
  exact ⟨w,whole,publication_answered whole there measured fits (.inr ⟨0,room⟩) _ _⟩

end SmartHospital.Mqtt
