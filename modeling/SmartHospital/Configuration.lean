import SmartHospital.Admission
import SmartHospital.Json.Acceptance

/-! jsonParser.cpp: what the two programs load from their files. -/
namespace SmartHospital

open Json Controller

/-- How a program ends while it loads its file. -/
inductive Ended where
  | exit | exception
  deriving DecidableEq

variable {floating : Floating}

/-- The constructor of `JsonParser`; there is no text if the file cannot be opened. -/
def jsonParser : Option Bytes → Except Ended (Value floating)
  | none => .ok .null
  | some text =>
    match parse text with
    | .success value _ => .ok value
    | .failure _ => .error .exit
    | .thrown => .error .exception

/-- `value[key].asString()` -/
def stringAt (value : Value floating) (key : Bytes) : Except Ended Bytes :=
  match (value.member key).bind Value.asString with
  | some text => .ok text
  | none => .error .exception

def typeKey : Bytes := Bytes.ofString "type"
def attributeKey : Bytes := Bytes.ofString "attribute"
def clientsKey : Bytes := Bytes.ofString "clients"

def ClientClass.ofValue (value : Value floating) : Except Ended ClientClass :=
  match stringAt value typeKey with
  | .error ended => .error ended
  | .ok type => (stringAt value attributeKey).map fun attr => ⟨type, attr⟩

def ClientClass.ofFile (floating : Floating) (file : Option Bytes) : Except Ended ClientClass :=
  match (jsonParser file : Except Ended (Value floating)) with
  | .error ended => .error ended
  | .ok value => ClientClass.ofValue value

/-- The loop of the constructor of `ControllerClass` from index `i` on. -/
def clientsFrom (clients : Value floating) : (left i : Nat) → Except Ended (List ClientClass)
  | 0, _ => .ok []
  | left + 1, i =>
    match clients.element i with
    | none => .error .exception
    | some entry =>
      match ClientClass.ofValue entry with
      | .error ended => .error ended
      | .ok c => (clientsFrom clients left (i + 1)).map fun rest => c :: rest

def ControllerClass.ofFile (floating : Floating) (file : Option Bytes) : Except Ended ControllerClass :=
  match (jsonParser file : Except Ended (Value floating)) with
  | .error ended => .error ended
  | .ok value =>
    match value.member clientsKey with
    | none => .error .exception
    | some clients => (clientsFrom clients clients.size 0).map ControllerClass.mk

/-- A text that spells a value, with what may stand around it. -/
structure Document (value : Value floating) where
  mark : Bytes
  front : Bytes
  body : Bytes
  rest : Bytes
  depth : Nat
  isMark : Mark mark
  gap : Gap front
  spells : Spells (.value value) depth body
  shallow : depth ≤ stackLimit
  stops : value.isNumber = true → Stops rest

def Document.text {value : Value floating} (document : Document value) : Bytes :=
  document.mark ++ (document.front ++ (document.body ++ document.rest))

/-- What the members of an object give for a key: of several, the last. -/
def Gives (members : Members floating) (key : Bytes) (value : Value floating) : Prop :=
  lookup key members.reverse = some value

/-- An object that says which client it describes, whatever else it says. -/
def Describes (value : Value floating) (entry : Bytes × Bytes) : Prop :=
  ∃ members, value = .object (assignAll [] members) ∧ Gives members typeKey (.string entry.1) ∧
    Gives members attributeKey (.string entry.2)

/-- An object that lists the clients. -/
def Lists (value : Value floating) (entries : List (Bytes × Bytes)) : Prop :=
  ∃ members elements, value = .object (assignAll [] members) ∧ Gives members clientsKey (.array elements) ∧
    List.Forall₂ Describes elements entries

section

variable {value : Value floating} {members : Members floating} {key : Bytes} {entry : Bytes × Bytes}
  {entries : List (Bytes × Bytes)}

theorem jsonParser_document (document : Document value) : jsonParser (some document.text) = .ok value := by
  have read := read_document document.isMark document.gap document.spells document.stops
  rw [if_pos document.shallow] at read
  simp only [jsonParser,parse,Document.text,read]

theorem lookup_append (first second : Members floating) :
    lookup key (first ++ second) = (lookup key first).or (lookup key second) := by
  simp only [lookup,List.find?_append,Option.map_or]

/-- Assigning one after the other, the last value of a key stays. -/
theorem lookup_assignAll (members later : Members floating) :
    lookup key (assignAll members later) = (lookup key later.reverse).or (lookup key members) := by
  induction later generalizing members with
  | nil => rfl
  | cons member later ih =>
    have next : assignAll members (member :: later) = assignAll (assign member.1 member.2 members) later := rfl
    rw [next,ih,List.reverse_cons,lookup_append,Option.or_assoc]
    congr 1
    by_cases same : member.1 = key
    · subst same
      rw [lookup_assign]
      simp [lookup]
    · rw [lookup_assign_other (Ne.symm same)]
      simp [lookup,same]

theorem member_of_gives (gives : Gives members key value) :
    (Value.object (assignAll [] members)).member key = some value := by
  rw [Value.member,lookup_assignAll,gives]
  rfl

theorem ofValue_of_describes (describes : Describes value entry) :
    ClientClass.ofValue value = .ok ⟨entry.1, entry.2⟩ := by
  obtain ⟨members,rfl,type,attr⟩ := describes
  simp only [ClientClass.ofValue,stringAt,member_of_gives type,member_of_gives attr,Option.bind_some,Value.asString]
  rfl

theorem clientsFrom_of_describes {elements : List (Value floating)}
    (describes : List.Forall₂ Describes elements entries) (before : List (Value floating)) :
    clientsFrom (.array (before ++ elements)) elements.length before.length =
      .ok (entries.map fun entry => ⟨entry.1, entry.2⟩) := by
  induction describes generalizing before with
  | nil => rfl
  | @cons first entry elements entries one _ ih =>
    have here : (Value.array (before ++ first :: elements)).element before.length = some first := by
      simp [Value.element]
    have later := ih (before ++ [first])
    rw [List.append_assoc,List.singleton_append,List.length_append] at later
    simp only [List.length_singleton] at later
    simp only [List.length_cons,clientsFrom,here,ofValue_of_describes one,later,Except.map,List.map_cons]

/-- A client is what its file describes. -/
theorem client_ofFile (document : Document value) (describes : Describes value entry) :
    ClientClass.ofFile floating (some document.text) = .ok ⟨entry.1, entry.2⟩ := by
  simp only [ClientClass.ofFile,jsonParser_document,ofValue_of_describes describes]

/-- The controller admits what its file lists. -/
theorem controller_ofFile (document : Document value) (lists : Lists value entries) :
    ControllerClass.ofFile floating (some document.text) = .ok (.load entries) := by
  obtain ⟨members,elements,rfl,gives,describes⟩ := lists
  have loop := clientsFrom_of_describes describes []
  simp only [List.nil_append,List.length_nil] at loop
  simp only [ControllerClass.ofFile,jsonParser_document,member_of_gives gives,Value.size,loop]
  rfl

end

/-- A controller admits exactly what its file lists, however the file spells it. -/
theorem admits_listed {value : Value floating} {entries : List (Bytes × Bytes)} (document : Document value)
    (lists : Lists value entries) : ∃ validClients,
    ControllerClass.ofFile floating (some document.text) = .ok validClients ∧
      ∀ type attr, validClients.isInList type attr = true ↔ (type, attr) ∈ entries :=
  ⟨_,controller_ofFile document lists,isInList_load entries⟩

/-- A string between its quotes, and a key in front of its colon. -/
def stringText (text : Bytes) : Bytes := quote :: text ++ [quote]
def keyText (key : Bytes) : Bytes := quote :: key ++ quote :: [colon]

/-- Nothing in it is escaped. -/
def plain (text : Bytes) : Bool := text.all fun c => c != quote && c != backslash

theorem quoted_of_plain {text : Bytes} (unescaped : plain text = true) : Quoted text text :=
  quoted_plain (by simpa [plain] using unescaped)

theorem spells_string {text : Bytes} (unescaped : plain text = true) (short : text.length ≤ maxInt - 4 - 1) :
    Spells (.value (.string text : Value noDoubles)) 1 (stringText text) :=
  .string (quoted_of_plain unescaped) (ofString_short short)

theorem named_key {key : Bytes} (unescaped : plain key = true) (short : key.length ≤ 9) : Named key (keyText key) :=
  .name .nil (quoted_of_plain unescaped) (short.trans_lt (by norm_num)) (fun _ none => absurd none List.not_mem_nil)

def doorDescription : Members noDoubles :=
  [(typeKey, .string (Bytes.ofString "sensor")), (attributeKey, .string (Bytes.ofString "door"))]

def doorDescriptionText : Bytes :=
  openBrace :: (keyText typeKey ++ (stringText (Bytes.ofString "sensor") ++
    comma :: (keyText attributeKey ++ (stringText (Bytes.ofString "door") ++ [closeBrace]))))

theorem spells_door : Spells (.value (.object (assignAll [] doorDescription))) 2 doorDescriptionText :=
  .object (.member (named_key rfl (by decide)) .nil (spells_string rfl (by decide)) .nil
    (.lastMember (named_key rfl (by decide)) .nil (spells_string rfl (by decide)) .nil))

/-- What a door sensor is started with. -/
def doorDocument : Document (.object (assignAll [] doorDescription) : Value noDoubles) where
  mark := []
  front := []
  body := doorDescriptionText
  rest := []
  depth := 2
  isMark := .inl rfl
  gap := .nil
  spells := spells_door
  shallow := by decide
  stops := nofun

theorem describes_door : Describes (.object (assignAll [] doorDescription) : Value noDoubles)
    (Bytes.ofString "sensor", Bytes.ofString "door") :=
  ⟨doorDescription,rfl,rfl,rfl⟩

/-- What a controller of door sensors is started with. -/
def doorListing : Document
    (.object (assignAll [] [(clientsKey, .array [.object (assignAll [] doorDescription)])]) : Value noDoubles) where
  mark := []
  front := []
  body := openBrace :: (keyText clientsKey ++ (openBracket :: (doorDescriptionText ++ [closeBracket]) ++ [closeBrace]))
  rest := []
  depth := 4
  isMark := .inl rfl
  gap := .nil
  spells := .object (.lastMember (named_key rfl (by decide)) .nil
    (.array (by decide) (.lastElement .nil spells_door .nil)) .nil)
  shallow := by decide
  stops := nofun

theorem lists_door : Lists
    (.object (assignAll [] [(clientsKey, .array [.object (assignAll [] doorDescription)])]) : Value noDoubles)
    [(Bytes.ofString "sensor", Bytes.ofString "door")] :=
  ⟨_,_,rfl,rfl,.cons describes_door .nil⟩

theorem door_listing_admits :
    doorListing.text = Bytes.ofString "\x7b\"clients\":[\x7b\"type\":\"sensor\",\"attribute\":\"door\"\x7d]\x7d" ∧
      ∃ validClients, ControllerClass.ofFile noDoubles (some doorListing.text) = .ok validClients ∧
        ∀ type attr, validClients.isInList type attr = true ↔
          (type, attr) ∈ [(Bytes.ofString "sensor", Bytes.ofString "door")] :=
  ⟨rfl,admits_listed doorListing lists_door⟩

end SmartHospital
