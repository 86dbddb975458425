import SmartHospital.Support.TopicFilter
import SmartHospital.Support.CInt

/-! The topics of mqttController.cpp: what it subscribes to, and how `parseTopic` turns
the topic of a reading into the topic of a command. `none` is a read or a write past
the end of an array. -/
namespace SmartHospital.Mqtt

open TopicFilter

def messageLen : Nat := 20
def slashNum : Nat := 2
def buffLen : Nat := 256

inductive Sensors where
  | temperature | indorLight | door | outLight
  deriving DecidableEq, Repr

def topics : List Bytes :=
  [Bytes.ofString "bolnica/+/temperatura",
    Bytes.ofString "bolnica/+/spoljasnjeOsvetljenje",
    Bytes.ofString "bolnica/+/unutrasnjeOsvetljenje",
    Bytes.ofString "bolnica/+/senzorNaVratima"]

/-- The string that starts in a block of memory, if it ends there. -/
def cstr? (block : Bytes) : Option Bytes := if 0 ∈ block then some (upToNul block) else none

/-- The loop over the slashes from cell `i` on; `none` if it leaves the block. A topic has
at most 65535 bytes, far from where the `int` would overflow. -/
def slashLoop (numOfSlashes i : Nat) (block : Bytes) : Option Nat :=
  match block with
  | [] => if numOfSlashes < slashNum then none else some i
  | c :: rest =>
    if numOfSlashes < slashNum then slashLoop (if c = slash then numOfSlashes + 1 else numOfSlashes) (i + 1) rest
    else some i

structure Parsed where
  room : Int
  outTopic : CArray buffLen
  /-- Not set for an unknown sensor. -/
  sensor : Option Sensors

/-- The comparisons of the sensor's name. -/
def appendCommand (sen : Bytes) (outTopic : CArray buffLen) : Option (CArray buffLen × Option Sensors) := do
  if sen = Bytes.ofString "temperatura" then
    let outTopic ← outTopic.strcat (Bytes.ofString "upravljajTemperaturom")
    some (outTopic, some .temperature)
  else if sen = Bytes.ofString "spoljasnjeOsvetljenje" then
    let outTopic ← outTopic.strcat (Bytes.ofString "upravljajRoletnama")
    some (outTopic, some .outLight)
  else if sen = Bytes.ofString "unutrasnjeOsvetljenje" then
    let outTopic ← outTopic.strcat (Bytes.ofString "upravljajOsvetljenjem")
    some (outTopic, some .indorLight)
  else if sen = Bytes.ofString "senzorNaVratima" then
    let outTopic ← outTopic.strcat (Bytes.ofString "upravljajZakljucavanjem")
    some (outTopic, some .door)
  else some (outTopic, none)

/-- `inTopic` is the memory of the topic with its terminator, `outTopic` an array of any contents. -/
def parseTopic (sign : CharSign) (inTopic : Bytes) (outTopic : CArray buffLen) : Option Parsed := do
  let i ← slashLoop 0 0 inTopic
  -- two slashes were read, so there is a cell two in front of `i`
  let digit ← inTopic[i - 2]?
  let room := sign.value digit - sign.value 48
  let sen := CArray.zeros buffLen
  let name ← cstr? (inTopic.drop i)
  let sen ← sen.strcpy name
  let whole ← cstr? inTopic
  let outTopic ← outTopic.strcpy whole
  let outTopic ← outTopic.set i 0
  let sen ← sen.cstr?
  let (outTopic, sensor) ← appendCommand sen outTopic
  some ⟨room, outTopic, sensor⟩

/-- The character 0 of the room's number. -/
theorem value_zero (sign : CharSign) : sign.value 48 = 48 := by cases sign <;> rfl

/-- The last level of the topic a sensor publishes to. -/
def Sensors.name : Sensors → Bytes
  | .temperature => Bytes.ofString "temperatura"
  | .outLight => Bytes.ofString "spoljasnjeOsvetljenje"
  | .indorLight => Bytes.ofString "unutrasnjeOsvetljenje"
  | .door => Bytes.ofString "senzorNaVratima"

/-- The last level of the topic its actuator listens to. -/
def Sensors.command : Sensors → Bytes
  | .temperature => Bytes.ofString "upravljajTemperaturom"
  | .outLight => Bytes.ofString "upravljajRoletnama"
  | .indorLight => Bytes.ofString "upravljajOsvetljenjem"
  | .door => Bytes.ofString "upravljajZakljucavanjem"

def hospital : Bytes := Bytes.ofString "bolnica"

def topic (level last : Bytes) : Bytes := three hospital level last

theorem hospital_literal : Literal hospital := ⟨by decide,by decide,by decide⟩

theorem Sensors.name_literal (s : Sensors) : Literal s.name := by
  cases s <;> exact ⟨by decide,by decide,by decide⟩

theorem Sensors.command_literal (s : Sensors) : Literal s.command := by
  cases s <;> exact ⟨by decide,by decide,by decide⟩

theorem Sensors.name_nul_free (s : Sensors) : 0 ∉ s.name := by cases s <;> decide

theorem Sensors.command_nul_free (s : Sensors) : 0 ∉ s.command := by cases s <;> decide

theorem Sensors.command_upToNul (s : Sensors) : upToNul s.command = s.command := upToNul_of_free s.command_nul_free

theorem Sensors.name_length (s : Sensors) : s.name.length < buffLen := by cases s <;> decide

theorem Sensors.name_ne_command (s t : Sensors) : s.name ≠ t.command := by cases s <;> cases t <;> decide

theorem mem_topics : filter ∈ topics ↔ ∃ s : Sensors, filter = topic [plus] s.name := by
  constructor
  · intro member
    simp only [topics,List.mem_cons,List.not_mem_nil,or_false] at member
    rcases member with rfl | rfl | rfl | rfl
    · exact ⟨.temperature,rfl⟩
    · exact ⟨.outLight,rfl⟩
    · exact ⟨.indorLight,rfl⟩
    · exact ⟨.door,rfl⟩
  · rintro ⟨s,rfl⟩
    cases s <;> decide

/-- The topics the broker may deliver: any single level, and one of the four sensors. -/
theorem delivered_iff (name : Bytes) :
    (∃ filter ∈ topics, admits filter name = true) ↔
      ∃ (level : Bytes) (s : Sensors), slash ∉ level ∧ name = topic level s.name := by
  constructor
  · rintro ⟨filter,member,admitted⟩
    obtain ⟨s,rfl⟩ := mem_topics.mp member
    obtain ⟨level,single,rfl⟩ := (admits_three hospital_literal s.name_literal (by decide) name).mp admitted
    exact ⟨level,s,single,rfl⟩
  · rintro ⟨level,s,single,rfl⟩
    refine ⟨_,mem_topics.mpr ⟨s,rfl⟩,?_⟩
    exact (admits_three hospital_literal s.name_literal (by decide) _).mpr ⟨level,single,rfl⟩

/-- A command is not delivered back. -/
theorem command_not_admitted (s : Sensors) (single : slash ∉ level) (member : filter ∈ topics) :
    admits filter (topic level s.command) = false := by
  by_contra admitted
  obtain ⟨other,t,otherSingle,same⟩ := (delivered_iff _).mp ⟨filter,member,Bool.eq_true_of_not_eq_false admitted⟩
  have last := (three_inj single s.command_literal.single otherSingle t.name_literal.single same).2
  exact t.name_ne_command s last.symm

theorem slashLoop_skip (few : count < slashNum) (free : slash ∉ a) (i : Nat) (rest : Bytes) :
    slashLoop count i (a ++ rest) = slashLoop count (i + a.length) rest := by
  induction a generalizing i with
  | nil => rfl
  | cons c a ih =>
    rw [List.mem_cons,not_or] at free
    obtain ⟨notSlash,free⟩ := free
    rw [List.cons_append,slashLoop,if_pos few,if_neg (Ne.symm notSlash),ih free,List.length_cons]
    congr 1
    omega

theorem slashLoop_slash (few : count < slashNum) (i : Nat) (rest : Bytes) :
    slashLoop count i (slash :: rest) = slashLoop (count + 1) (i + 1) rest := by
  rw [slashLoop,if_pos few,if_pos rfl]

theorem slashLoop_done (i : Nat) (rest : Bytes) : slashLoop slashNum i rest = some i := by
  cases rest <;> rfl

/-- The loop stops right behind the second slash. -/
theorem slashLoop_three (first : slash ∉ a) (second : slash ∉ b) (c rest : Bytes) :
    slashLoop 0 0 (three a b c ++ rest) = some (a.length + b.length + 2) := by
  have zero : 0 < slashNum := by decide
  have one : 0 + 1 < slashNum := by decide
  have whole : three a b c ++ rest = a ++ slash :: (b ++ slash :: (c ++ rest)) := by simp [three]
  rw [whole,slashLoop_skip zero first,slashLoop_slash zero,slashLoop_skip one second,slashLoop_slash one]
  have done := slashLoop_done (0 + a.length + 1 + b.length + 1) (c ++ rest)
  rw [slashNum] at done
  rw [done]
  congr 1
  omega

/-- The character in front of the second slash: the last of the level, or the first slash. -/
def marker (level : Bytes) : UInt8 := level.getLast?.getD slash

theorem marker_eq (level : Bytes) : (slash :: level).getLast? = some (marker level) := by
  rw [List.getLast?_cons,marker]

/-- Where a topic is cut off behind its second slash. -/
def trunk (level : Bytes) : Bytes := topic level []

theorem topic_eq_trunk (level last : Bytes) : topic level last = trunk level ++ last := by simp [topic,trunk,three]

theorem trunk_length (level : Bytes) : (trunk level).length = level.length + 9 := by
  have name : hospital.length = 7 := rfl
  simp only [trunk,topic,three,List.length_append,List.length_cons,List.length_nil,name]
  omega

theorem trunk_marker (level rest : Bytes) : (trunk level ++ rest)[level.length + 7]? = some (marker level) := by
  have split : trunk level ++ rest = hospital ++ (slash :: level ++ slash :: rest) := by simp [trunk,topic,three]
  have name : hospital.length = 7 := rfl
  have inside : level.length < (slash :: level).length := Nat.lt_succ_self _
  rw [split,List.getElem?_append_right (by omega),name,Nat.add_sub_cancel,
    List.getElem?_append_left inside,← marker_eq,List.getLast?_eq_getElem?]
  rfl

theorem cstr?_terminated (t : Bytes) : cstr? (t ++ [0]) = some (upToNul t) := by
  have terminated : 0 ∈ t ++ [0] := by simp
  rw [cstr?,if_pos terminated,upToNul_append_nul]

theorem appendCommand_name (s : Sensors) (outTopic : CArray buffLen) :
    appendCommand s.name outTopic = (outTopic.strcat s.command).map fun outTopic => (outTopic, some s) := by
  rw [Option.map_eq_bind]
  cases s <;> rfl

/-- The name of the sensor fits in `sen`. -/
theorem sen_eq (s : Sensors) : ∃ sen, (CArray.zeros buffLen).strcpy s.name = some sen ∧ sen.cstr? = some s.name := by
  obtain ⟨sen,held,_⟩ := CArray.padded_of_lt s.name_length
  exact ⟨sen,(CArray.strcpy_zeros s.name_nul_free).trans held,CArray.cstr?_padded held s.name_nul_free⟩

/-- `parseTopic` on a topic that may be delivered, up to what it does to `outTopic`. -/
theorem parseTopic_eq (sign : CharSign) (single : slash ∉ level) (s : Sensors) (outTopic : CArray buffLen) :
    parseTopic sign (topic level s.name ++ [0]) outTopic =
      (outTopic.strcpy (topic level s.name)).bind fun outTopic =>
        (outTopic.set (level.length + 9) 0).bind fun outTopic =>
          (outTopic.strcat s.command).map fun outTopic =>
            ⟨sign.value (marker level) - sign.value 48, outTopic, some s⟩ := by
  have found : slashLoop 0 0 (topic level s.name ++ [0]) = some (level.length + 9) := by
    have name : hospital.length = 7 := rfl
    rw [topic,slashLoop_three hospital_literal.single single,name]
    congr 1
    omega
  have digit : (topic level s.name ++ [0])[level.length + 9 - 2]? = some (marker level) := by
    rw [topic_eq_trunk,List.append_assoc]
    exact trunk_marker level _
  have name : cstr? ((topic level s.name ++ [0]).drop (level.length + 9)) = some s.name := by
    rw [topic_eq_trunk,List.append_assoc,← trunk_length,List.drop_left,cstr?_terminated,
      upToNul_of_free s.name_nul_free]
  obtain ⟨sen,copied,held⟩ := sen_eq s
  unfold parseTopic
  simp only [Option.bind_eq_bind,found,digit,name,copied,held,cstr?_terminated,Option.bind_some,appendCommand_name,
    CArray.strcpy_upToNul]
  congr 1
  funext outTopic
  congr 1
  funext outTopic
  cases outTopic.strcat s.command <;> rfl

/-- Room for the copied topic, for the terminator behind the second slash and for the
command appended there. -/
structure Fits (level : Bytes) (s : Sensors) : Prop where
  copied : (upToNul (topic level s.name)).length < buffLen
  cut : level.length + 9 < buffLen
  translated : (upToNul (trunk level)).length + s.command.length < buffLen

instance (level : Bytes) (s : Sensors) : Decidable (Fits level s) :=
  decidable_of_iff ((upToNul (topic level s.name)).length < buffLen ∧ level.length + 9 < buffLen ∧
    (upToNul (trunk level)).length + s.command.length < buffLen)
    ⟨fun ⟨copied,cut,translated⟩ => ⟨copied,cut,translated⟩,fun fits => ⟨fits.copied,fits.cut,fits.translated⟩⟩

/-- What is left in `outTopic` in front of the command. -/
theorem cut_topic (s : Sensors) (room : level.length + 9 < buffLen) {copy : CArray buffLen}
    (cells : copy.cells = upToNul (topic level s.name) ++ 0 :: rest) :
    ∃ cut : CArray buffLen, copy.set (level.length + 9) 0 = some cut ∧ cut.cstr? = some (upToNul (trunk level)) := by
  obtain ⟨cut,written,held⟩ := copy.set_terminator room
  refine ⟨cut,written,held.trans ?_⟩
  rw [cells,upToNul_take_terminated,topic_eq_trunk,← trunk_length,List.take_left]

section

variable {level : Bytes} {s : Sensors}

theorem parseTopic_fits (sign : CharSign) (single : slash ∉ level) (fits : Fits level s) (outTopic : CArray buffLen) :
    ∃ parsed, parseTopic sign (topic level s.name ++ [0]) outTopic = some parsed ∧
      parsed.room = sign.value (marker level) - sign.value 48 ∧ parsed.sensor = some s ∧
      parsed.outTopic.cstr? = some (upToNul (trunk level) ++ s.command) := by
  obtain ⟨copy,copied,cells⟩ := outTopic.strcpy_of_lt fits.copied
  obtain ⟨cut,written,front⟩ := cut_topic s fits.cut cells
  have room : (upToNul (trunk level)).length + (upToNul s.command).length < buffLen := by
    rw [s.command_upToNul]
    exact fits.translated
  obtain ⟨whole,appended,text⟩ := CArray.strcat_of_lt front room
  rw [s.command_upToNul] at text
  refine ⟨⟨_,whole,some s⟩,?_,rfl,rfl,text⟩
  rw [parseTopic_eq sign single,copied,Option.bind_some,written,Option.bind_some,appended,Option.map_some]

theorem parseTopic_overrun (sign : CharSign) (single : slash ∉ level) (overrun : ¬ Fits level s)
    (outTopic : CArray buffLen) : parseTopic sign (topic level s.name ++ [0]) outTopic = none := by
  rw [parseTopic_eq sign single]
  by_cases copied : (upToNul (topic level s.name)).length < buffLen
  · obtain ⟨copy,same,cells⟩ := outTopic.strcpy_of_lt copied
    rw [same,Option.bind_some]
    by_cases cut : level.length + 9 < buffLen
    · obtain ⟨front,written,held⟩ := cut_topic s cut cells
      have long : buffLen ≤ (upToNul (trunk level)).length + (upToNul s.command).length := by
        rw [s.command_upToNul]
        exact Nat.le_of_not_lt fun translated => overrun ⟨copied,cut,translated⟩
      rw [written,Option.bind_some,CArray.strcat_of_le held long]
      rfl
    · have outside : copy.set (level.length + 9) 0 = none :=
        copy.writeAt_of_lt (by rw [List.length_singleton]; omega)
      rw [outside]
      rfl
  · rw [outTopic.strcpy_of_le (Nat.le_of_not_lt copied)]
    rfl

theorem trunk_nul_free (free : 0 ∉ level) : 0 ∉ trunk level := by
  have name : 0 ∉ hospital := by decide
  simp [trunk,topic,three,name,free,slash]

/-- Without a NUL in it, a topic is translated when it and its command have room. -/
theorem fits_of_length (short : (topic level s.name).length ≤ 255) (commandShort : (topic level s.command).length ≤ 255) :
    Fits level s := by
  have copied := (upToNul_isPrefix (topic level s.name)).length_le
  have front := (upToNul_isPrefix (trunk level)).length_le
  have cut := trunk_length level
  rw [topic_eq_trunk,List.length_append] at short commandShort
  rw [topic_eq_trunk,List.length_append] at copied
  refine ⟨?_,?_,?_⟩
  all_goals simp only [topic_eq_trunk,buffLen]
  all_goals omega

/-- Topic translation: the loop ends in front of the terminator, no write leaves an array,
the sensor and the command's topic are right, and the command is not delivered back. -/
theorem topic_translation (sign : CharSign) (outTopic : CArray buffLen) (single : slash ∉ level) (free : 0 ∉ level)
    (short : (topic level s.name).length ≤ 255) (commandShort : (topic level s.command).length ≤ 255) :
    (∃ i, slashLoop 0 0 (topic level s.name ++ [0]) = some i ∧ i ≤ (topic level s.name).length) ∧
    (∃ parsed, parseTopic sign (topic level s.name ++ [0]) outTopic = some parsed ∧ parsed.sensor = some s ∧
      parsed.outTopic.cstr? = some (topic level s.command)) ∧
    ∀ filter ∈ topics, admits filter (topic level s.command) = false := by
  refine ⟨⟨_,slashLoop_three hospital_literal.single single s.name [0],?_⟩,?_,
    fun filter member => command_not_admitted s single member⟩
  · have name : hospital.length = 7 := rfl
    rw [topic_eq_trunk,List.length_append,trunk_length,name]
    omega
  · obtain ⟨parsed,done,_,sensor,text⟩ := parseTopic_fits sign single (fits_of_length short commandShort) outTopic
    rw [upToNul_of_free (trunk_nul_free free),← topic_eq_trunk] at text
    exact ⟨parsed,done,sensor,text⟩

end

/-- The temperature of the first room. -/
theorem first_room_translation : ∃ parsed,
    parseTopic .signed (topic (Bytes.ofString "1") Sensors.temperature.name ++ [0]) (CArray.zeros buffLen) =
      some parsed ∧ parsed.outTopic.cstr? = some (Bytes.ofString "bolnica/1/upravljajTemperaturom") := by
  have single : slash ∉ Bytes.ofString "1" := by decide
  have free : 0 ∉ Bytes.ofString "1" := by decide
  obtain ⟨_,⟨parsed,done,_,text⟩,_⟩ :=
    topic_translation .signed (CArray.zeros buffLen) single free (s := .temperature) (by decide) (by decide)
  exact ⟨parsed,done,text⟩

end SmartHospital.Mqtt
