import SmartHospital.Deployment
import SmartHospital.Json.Soundness

/-! Back from the protocol to the files, whatever stands in them: what a client is started
for is spelled in the file of the controller. -/
namespace SmartHospital

open Controller Json

variable {floating : Floating}

def Opens (text : Bytes) (value : Value floating) : Prop :=
  ∃ bom g t rest depth, text = bom ++ (g ++ (t ++ rest)) ∧ Mark bom ∧ Gap g ∧ Spelled (.value value) depth t

/-- What a value says for a key: nothing where it has no such member. -/
def Says (value : Value floating) (key text : Bytes) : Prop :=
  value = .null ∧ text = [] ∨ ∃ members, value = .object members ∧
    (lookup key members = none ∧ text = [] ∨ ∃ v, lookup key members = some v ∧ v.asString = some text)

def SaysKind (value : Value floating) (type attr : Bytes) : Prop :=
  Says value typeKey type ∧ Says value attributeKey attr

/-- The file spells an array of clients, one of them of this kind. -/
def Grounded (floating : Floating) (file : Option Bytes) (type attr : Bytes) : Prop :=
  ∃ text members elements, file = some text ∧ Opens text (.object members : Value floating) ∧
    lookup clientsKey members = some (.array elements) ∧ ∃ entry ∈ elements, SaysKind entry type attr

/-- The file of a client spells its kind; without a file it has none. -/
def Described (floating : Floating) (file : Option Bytes) (type attr : Bytes) : Prop :=
  file = none ∧ type = [] ∧ attr = [] ∨
    ∃ text value, file = some text ∧ Opens text (value : Value floating) ∧ SaysKind value type attr

section

variable {value clients : Value floating} {key text type attr : Bytes} {c : ClientClass}

theorem jsonParser_opens {file : Option Bytes} (read : jsonParser file = .ok value) :
    file = none ∧ value = .null ∨ ∃ text, file = some text ∧ Opens text value := by
  cases file with
  | none =>
    cases read
    exact .inl ⟨rfl,rfl⟩
  | some text =>
    unfold jsonParser at read
    split at read
    · contradiction
    · rename_i document found
      split at read
      · rename_i parsed
        cases read
        cases found
        obtain ⟨next,front,_⟩ := read_of_parse parsed
        obtain ⟨bom,g,t,depth,whole,mark,gap,spelled,_⟩ := read_front front
        exact .inr ⟨_,rfl,bom,g,t,next.current,depth,whole,mark,gap,spelled⟩
      · contradiction
      · contradiction

theorem says_null (said : Says (.null : Value floating) key text) : text = [] := by
  rcases said with ⟨_,none⟩ | ⟨members,object,_⟩
  · exact none
  · contradiction

theorem says_of_stringAt (read : stringAt value key = .ok text) : Says value key text := by
  unfold stringAt at read
  split at read
  · rename_i found
    cases read
    cases value with
    | null => exact .inl ⟨rfl,(Option.some.inj found).symm⟩
    | object members =>
      refine .inr ⟨members,rfl,?_⟩
      cases member : lookup key members with
      | none =>
        simp only [Value.member,member,Option.getD_none,Option.bind_some,Value.asString,Option.some.injEq] at found
        exact .inl ⟨rfl,found.symm⟩
      | some v =>
        simp only [Value.member,member,Option.getD_some,Option.bind_some] at found
        exact .inr ⟨v,rfl,found⟩
    | _ => contradiction
  · contradiction

theorem saysKind_of_ofValue (read : ClientClass.ofValue value = .ok c) : SaysKind value c.type c.attr := by
  unfold ClientClass.ofValue at read
  split at read
  · contradiction
  · rename_i type first
    cases second : stringAt value attributeKey with
    | error ended =>
      rw [second] at read
      contradiction
    | ok attr =>
      rw [second] at read
      cases read
      exact ⟨says_of_stringAt first,says_of_stringAt second⟩

/-- Every client that the loop of the constructor collects comes from an index it passed. -/
theorem clientsFrom_origin {left i : Nat} {cs : List ClientClass} (read : clientsFrom clients left i = .ok cs)
    (member : c ∈ cs) : ∃ j entry, j < i + left ∧ clients.element j = some entry ∧ ClientClass.ofValue entry = .ok c := by
  induction left generalizing i cs with
  | zero =>
    cases read
    contradiction
  | succ left ih =>
    rw [clientsFrom] at read
    split at read
    · contradiction
    rename_i entry here
    split at read
    · contradiction
    rename_i first one
    cases later : clientsFrom clients left (i + 1) with
    | error ended =>
      rw [later] at read
      contradiction
    | ok rest =>
      rw [later] at read
      cases read
      rcases List.mem_cons.mp member with rfl | behind
      · exact ⟨i,entry,by omega,here,one⟩
      · obtain ⟨j,entry,inside,further⟩ := ih later behind
        exact ⟨j,entry,by omega,further⟩

/-- Only of an array is there a client to collect. -/
theorem element_mem {j : Nat} {entry : Value floating} (inside : j < clients.size)
    (element : clients.element j = some entry) : ∃ elements, clients = .array elements ∧ entry ∈ elements := by
  cases clients with
  | array elements =>
    have bound : j < elements.length := inside
    have here : elements[j]?.getD .null = elements[j] := by simp [bound]
    obtain rfl := here.symm.trans (Option.some.inj element)
    exact ⟨elements,rfl,List.getElem_mem bound⟩
  | object members => contradiction
  | _ => exact absurd inside (Nat.not_lt_zero j)

theorem lookup_of_member {elements : List (Value floating)} (member : value.member key = some (.array elements)) :
    ∃ members, value = .object members ∧ lookup key members = some (.array elements) := by
  cases value with
  | object members =>
    refine ⟨members,rfl,?_⟩
    cases found : lookup key members with
    | none => simp [Value.member,found] at member
    | some v => simpa [Value.member,found] using member
  | null => simp [Value.member] at member
  | _ => contradiction

/-- Whatever is in the file, the controller admits nobody else. -/
theorem grounded_of_loaded {file : Option Bytes} {validClients : ControllerClass}
    (loaded : ControllerClass.ofFile floating file = .ok validClients)
    (admitted : validClients.isInList type attr = true) : Grounded floating file type attr := by
  unfold ControllerClass.ofFile at loaded
  split at loaded
  · contradiction
  rename_i value read
  split at loaded
  · contradiction
  rename_i clients member
  cases collected : clientsFrom clients clients.size 0 with
  | error ended =>
    rw [collected] at loaded
    contradiction
  | ok cs =>
    rw [collected] at loaded
    cases loaded
    obtain ⟨c,listed,same⟩ := List.any_eq_true.mp admitted
    obtain rfl := eq_of_beq same
    obtain ⟨j,entry,inside,element,one⟩ := clientsFrom_origin collected listed
    obtain ⟨elements,rfl,among⟩ := element_mem (by omega) element
    obtain ⟨members,rfl,array⟩ := lookup_of_member member
    rcases jsonParser_opens read with ⟨_,none⟩ | ⟨text,same,opens⟩
    · contradiction
    · exact ⟨text,members,elements,same,opens,array,entry,among,saysKind_of_ofValue one⟩

theorem described_of_loaded {file : Option Bytes} (loaded : ClientClass.ofFile floating file = .ok ⟨type, attr⟩) :
    Described floating file type attr := by
  unfold ClientClass.ofFile at loaded
  split at loaded
  · contradiction
  rename_i value read
  have kind := saysKind_of_ofValue loaded
  rcases jsonParser_opens read with ⟨none,rfl⟩ | ⟨text,same,opens⟩
  · exact .inl ⟨none,says_null kind.1,says_null kind.2⟩
  · exact .inr ⟨text,value,same,opens,kind⟩

end

/-- From the protocol back to the files: whatever stands in them, as long as the programs
start with them, and whatever is lost, repeated or reordered on the way, a client is
started only for a kind that its own file says and that the controller's file lists, and
the lists of the controller hold no name but of such a client. -/
theorem started_is_grounded {ι : Type*} [DecidableEq ι] (floating : Floating) (members : ι → Member)
    (distinct : Function.Injective fun i => (members i).name) (file : Option Bytes) (own : ι → Option Bytes)
    (validClients : ControllerClass) (loaded : ControllerClass.ofFile floating file = .ok validClients)
    (configured : ∀ i, ClientClass.ofFile floating (own i) = .ok ⟨(members i).type, (members i).attr⟩)
    (buffers : ι → CArray buffLen) (messages : ι → ControllerMessage) {events : List (Event ι)} {g : Group ι}
    (reached : (group validClients members).run (.start buffers messages) events = some g) :
    (∀ i, (g.clients i).keepAliveStarted = true → Described floating (own i) (members i).type (members i).attr ∧
        Grounded floating file (members i).type (members i).attr) ∧
      ∀ c, c ∈ g.controller.state.connectedClients ∨ c ∈ g.controller.state.newConnectedClients →
        ∃ i, (members i).name = c ∧ Described floating (own i) (members i).type (members i).attr ∧
          Grounded floating file (members i).type (members i).attr := by
  obtain ⟨started,listed⟩ := listed_run distinct reached
  constructor
  · exact fun i running => ⟨described_of_loaded (configured i),grounded_of_loaded loaded (started i running)⟩
  · intro c known
    obtain ⟨i,name,admitted⟩ := listed c known
    exact ⟨i,name,described_of_loaded (configured i),grounded_of_loaded loaded admitted⟩

theorem door_is_grounded :
    Described noDoubles (some doorDocument.text) (Bytes.ofString "sensor") (Bytes.ofString "door") ∧
      Grounded noDoubles (some doorListing.text) (Bytes.ofString "sensor") (Bytes.ofString "door") := by
  obtain ⟨g,reached,started⟩ := door_started
  have distinct : Function.Injective fun _ : Unit => doorMember.name := fun _ _ _ => rfl
  have loaded := controller_ofFile doorListing lists_door
  have configured (_ : Unit) := client_ofFile doorDocument describes_door
  exact (started_is_grounded noDoubles (fun _ => doorMember) distinct _ _ doorSensors loaded configured _ _ reached).1 ()
    started

end SmartHospital
