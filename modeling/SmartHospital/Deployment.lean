import SmartHospital.Configuration
import SmartHospital.Echo
import SmartHospital.Group

/-! The group with the files its parties were started from. With names of their own, only
the clients that the controller's file lists are ever started or listed. -/
namespace SmartHospital

open Controller Json

variable {ι : Type*} {members : ι → Member} {entries : List (Bytes × Bytes)} {bytes : Bytes}
  {s r : Controller.State} {regularMsg : Bool}

/-- What can be in flight: a member's requests, and replies that are not for the controller. -/
inductive Sent (members : ι → Member) : Bytes → Prop where
  | announcement (i : ι) :
      Sent members (Client.transmitted (Client.announcement (members i).name (members i).type (members i).attr))
  | alive (i : ι) (short : (members i).name.length ≤ 235) :
      Sent members (Client.transmitted (Client.aliveMessage (members i).name))
  | reply (host clientId : Bytes) (keepAlive : Int) (st : ControllerMsgState)
      (idFree : 0 ∉ clientId) (idSingle : colon ∉ clientId) (hostFree : 0 ∉ host) (other : clientId ≠ controllerName)
      (fits : (replyText host keepAlive clientId st).length ≤ 254) :
      Sent members (replyText host keepAlive clientId st ++ [0])

theorem announcement_received (m : Member) (s : Controller.State) : ∃ r,
    receive s (.datagram (Client.transmitted (Client.announcement m.name m.type m.attr))) = .next (r, true) ∧
      r.clientMsg = ⟨⟨controllerName, m.name⟩, m.type, m.attr⟩ := by
  obtain ⟨nameFree,typeFree,attrFree⟩ := m.nulFree
  have free : 0 ∉ Client.announcement m.name m.type m.attr := Client.composed_nul_free _
  have short : Short (Client.announcement m.name m.type m.attr) := Nat.lt_of_le_of_lt m.fits (by decide)
  have parsed := (Client.announcement_decodes s.clientMsg nameFree typeFree attrFree short).mpr
    ⟨m.single.1,m.single.2.1,m.single.2.2,m.notAlive⟩
  rw [Client.transmitted_eq m.fits,receive_text s free m.fits,parsed]
  exact ⟨_,rfl,rfl⟩

theorem alive_received (m : Member) (short : m.name.length ≤ 235)
    (head : receive s (.datagram (Client.transmitted (Client.aliveMessage m.name))) = .next (r, regularMsg)) :
    regularMsg = false ∧ r.clientMsg.senderId = m.name := by
  have length := Client.aliveMessage_length m.nulFree.1
  have fits : (Client.aliveMessage m.name).length ≤ 254 := by omega
  have free : 0 ∉ Client.aliveMessage m.name := Client.composed_nul_free _
  obtain ⟨alive,_,sender⟩ := (Client.alive_decodes s.clientMsg m.nulFree.1 (Nat.lt_of_le_of_lt fits (by decide))).mpr
    m.single.1
  rw [Client.transmitted_eq fits,receive_text s free fits] at head
  cases head
  exact ⟨alive,sender⟩

/-- What the controller takes in as its own is a request of a member, and if it is an
announcement then with what the member is. -/
theorem taken_from (sent : Sent members bytes) (head : receive s (.datagram bytes) = .next (r, regularMsg))
    (mine : r.clientMsg.receiverId = controllerName) :
    ∃ i, r.clientMsg.senderId = (members i).name ∧
      (regularMsg = true → r.clientMsg.type = (members i).type ∧ r.clientMsg.purpose = (members i).attr) := by
  cases sent with
  | announcement i =>
    obtain ⟨r,received,parsed⟩ := announcement_received (members i) s
    cases head.symm.trans received
    rw [parsed]
    exact ⟨i,rfl,fun _ => ⟨rfl,rfl⟩⟩
  | alive i short =>
    obtain ⟨rfl,sender⟩ := alive_received (members i) short head
    exact ⟨i,sender,nofun⟩
  | reply host clientId keepAlive st idFree idSingle hostFree other fits =>
    have short : Short (replyText host keepAlive clientId st) := Nat.lt_of_le_of_lt fits (by decide)
    rw [receive_text s (replyText_nul_free idFree hostFree) fits,parse_reply _ idSingle short] at head
    cases head
    exact absurd mine other

/-- The name of a member that is listed. -/
def Registered (entries : List (Bytes × Bytes)) (members : ι → Member) (c : Bytes) : Prop :=
  ∃ i, (members i).name = c ∧ ((members i).type, (members i).attr) ∈ entries

theorem listed_of_admission {t : Split} {label : Label} (sent : ∀ bytes, label = .receive bytes → Sent members bytes)
    (admission : Admission entries c t label) : Registered entries members c := by
  obtain ⟨bytes,r,same,head,mine,rfl,listed⟩ := admission
  obtain ⟨i,sender,kind⟩ := taken_from (sent bytes same) head mine
  obtain ⟨type,attr⟩ := kind rfl
  exact ⟨i,sender.symm,type ▸ attr ▸ listed⟩

/-- What holds between the parties while nobody else is on the network. -/
structure Closed (entries : List (Bytes × Bytes)) (members : ι → Member) (granted : Bytes → Bytes → Prop)
    (g : Group ι) : Prop where
  agreed : Agreed members (Registered entries members) granted g
  originated : Originated (Registered entries members) g.controller
  sent : ∀ bytes ∈ g.network, Sent members bytes
  sender : g.controller.phase ≠ .idle → ∃ i, g.controller.state.clientMsg.senderId = (members i).name

/-- The sender that is being served stays, and a new one is a member. -/
theorem moved_sender {t t' : Split} {label : Label} (moved : Moved (.load entries) t label t')
    (sent : ∀ bytes, label = .receive bytes → Sent members bytes)
    (sender : t.phase ≠ .idle → ∃ i, t.state.clientMsg.senderId = (members i).name) :
    t'.phase ≠ .idle → ∃ i, t'.state.clientMsg.senderId = (members i).name := by
  cases moved with
  | @received bytes r regularMsg waiting head =>
    intro busy
    have mine : r.clientMsg.receiverId = controllerName := by
      by_contra other
      exact busy (if_neg other)
    obtain ⟨i,same,_⟩ := taken_from (sent _ rfl) head mine
    exact ⟨i,same⟩
  | enlisted phase =>
    intro _
    rw [(enlist_keeps t.state).1]
    exact sender (by simp [phase])
  | checked phase => exact fun _ => sender (by simp [phase])
  | missed phase => exact fun _ => sender (by simp [phase])
  | renewed => exact fun busy => absurd rfl busy
  | answered => exact fun busy => absurd rfl busy
  | ticked =>
    rw [tick_clientMsg]
    exact sender

section Step

variable {g g' : Group ι} {event : Event ι} {granted granted' : Bytes → Bytes → Prop}

theorem sent_append {network : List Bytes} (sent : ∀ bytes ∈ network, Sent members bytes) (new : Sent members last) :
    ∀ bytes ∈ network ++ [last], Sent members bytes :=
  List.forall_mem_append.mpr ⟨sent,List.forall_mem_singleton.mpr new⟩

/-- The controller's part of a step. -/
theorem closed_moved {t : Split} {label : Label} (closed : Closed entries members granted g)
    (moved : Moved (.load entries) g.controller label t)
    (sent : ∀ bytes, label = .receive bytes → Sent members bytes) :
    Originated (Registered entries members) t ∧
      (t.phase ≠ .idle → ∃ i, t.state.clientMsg.senderId = (members i).name) :=
  ⟨moved_originated moved closed.originated (fun _ old => old) fun _ admission => listed_of_admission sent admission,
    moved_sender moved sent closed.sender⟩

variable [DecidableEq ι] {validClients : ControllerClass}

theorem take_flying (step : (group validClients members).step g (.take bytes) = some g') : bytes ∈ g.network := by
  by_contra absent
  simp [group,absent] at step

theorem closed_step (closed : Closed entries members granted g)
    (step : (group (.load entries) members).step g event = some g')
    (allGranted : ∀ c host, granted' c host ↔ granted c host ∨ Granted c host g event) :
    Closed entries members granted' g' := by
  have agreed : Agreed members (Registered entries members) granted' g' := by
    apply agreed_step closed.agreed (group_step step) (fun _ old => old) _ allGranted
    rintro c ⟨bytes,rfl,r,head,mine,valid,sender⟩
    have sent : Sent members bytes := closed.sent bytes (take_flying step)
    refine listed_of_admission ?_ ⟨bytes,r,rfl,head,mine,sender,(isInList_load _ _ _).mp valid⟩
    rintro _ ⟨⟩
    exact sent
  have sent := closed.sent
  cases group_step step with
  | @took bytes _ moved =>
    have taken : ∀ bytes', Label.receive bytes = .receive bytes' → Sent members bytes' := by
      rintro _ ⟨⟩
      exact sent _ (take_flying step)
    obtain ⟨originated,sender⟩ := closed_moved closed moved taken
    exact ⟨agreed,originated,sent,sender⟩
  | replied moved phase fits copied =>
    obtain ⟨originated,sender⟩ := closed_moved closed moved (by simp)
    have clean := closed.agreed.clean
    obtain ⟨rfl,_⟩ := reply_sent clean moved phase fits copied
    obtain ⟨i,name⟩ := closed.sender (by simp [phase])
    have other := name ▸ (members i).notController
    have sent := sent_append sent (.reply _ _ _ _ clean.1 clean.2 (inetNtoa_nul_free _ _ _ _) other fits)
    exact ⟨agreed,originated,sent,sender⟩
  | proceeded moved =>
    obtain ⟨originated,sender⟩ := closed_moved closed moved (by simp)
    exact ⟨agreed,originated,sent,sender⟩
  | ticked moved =>
    obtain ⟨originated,sender⟩ := closed_moved closed moved (by simp)
    exact ⟨agreed,originated,sent,sender⟩
  | announced i =>
    exact ⟨agreed,closed.originated,sent_append sent (.announcement i),closed.sender⟩
  | alive i running =>
    exact ⟨agreed,closed.originated,sent_append sent (.alive i (closed.agreed.short i running)),closed.sender⟩
  | delivered i => exact ⟨agreed,closed.originated,sent,closed.sender⟩
  | lost =>
    exact ⟨agreed,closed.originated,fun bytes member => sent bytes (List.mem_of_mem_erase member),closed.sender⟩

theorem closed_run {buffers : ι → CArray buffLen} {messages : ι → ControllerMessage}
    (reached : (group (.load entries) members).run (.start buffers messages) events = some g) :
    Closed entries members
      (fun c host => (group (.load entries) members).Occurs (Granted c host) (.start buffers messages) events) g := by
  apply Machine.run_history (fun past g => Closed entries members
    (fun c host => (group (.load entries) members).Occurs (Granted c host) (.start buffers messages) past) g) _ _ reached
  · intro past g event g' before closed step
    exact closed_step closed step fun c host => Machine.occurs_snoc before step
  · refine ⟨?_,?_,?_,?_⟩
    · constructor <;> simp [Group.start,Split.start,initial,SenderClean,Client.start,Client.Threads.create,
        Client.Threads.count]
    · constructor <;> simp [Group.start,Split.start,initial]
    · simp [Group.start]
    · exact fun busy => absurd rfl busy

/-- Where names are their own, only what is listed is started. -/
theorem listed_run {validClients : ControllerClass} (distinct : Function.Injective fun i => (members i).name)
    {buffers : ι → CArray buffLen} {messages : ι → ControllerMessage}
    (reached : (group validClients members).run (.start buffers messages) events = some g) :
    (∀ i, (g.clients i).keepAliveStarted = true → validClients.isInList (members i).type (members i).attr = true) ∧
      ∀ c, c ∈ g.controller.state.connectedClients ∨ c ∈ g.controller.state.newConnectedClients →
        ∃ i, (members i).name = c ∧ validClients.isInList (members i).type (members i).attr = true := by
  obtain ⟨entries,rfl⟩ := exists_load validClients
  simp only [isInList_load]
  have closed := closed_run reached
  constructor
  · intro i started
    obtain ⟨j,name,member⟩ := closed.agreed.backed _ _ (closed.agreed.started i started)
    obtain rfl := distinct name
    exact member
  · rintro c (connected | fresh)
    · exact closed.originated.connected c connected
    · exact closed.originated.fresh c fresh

end Step

/-- The files of a controller and of its clients, with what they describe. -/
structure Files (floating : Floating) (ι : Type*) where
  listing : Value floating
  controller : Document listing
  entries : List (Bytes × Bytes)
  lists : Lists listing entries
  description : ι → Value floating
  client : ∀ i, Document (description i)
  kind : ι → Bytes × Bytes
  describes : ∀ i, Describes (description i) (kind i)

/-- From the files to the protocol: whatever is lost, repeated or reordered on the way, a
client is started only if the controller's file lists what the client's own file
describes, and the two lists of the controller hold no name but of such a client. -/
theorem started_is_listed {floating : Floating} [DecidableEq ι] (files : Files floating ι) (members : ι → Member)
    (distinct : Function.Injective fun i => (members i).name) (validClients : ControllerClass)
    (loaded : ControllerClass.ofFile floating (some files.controller.text) = .ok validClients)
    (configured : ∀ i, ClientClass.ofFile floating (some (files.client i).text) =
      .ok ⟨(members i).type, (members i).attr⟩)
    (buffers : ι → CArray buffLen) (messages : ι → ControllerMessage)
    (reached : (group validClients members).run (.start buffers messages) events = some g) :
    (∀ i, (g.clients i).keepAliveStarted = true → files.kind i ∈ files.entries) ∧
      ∀ c, c ∈ g.controller.state.connectedClients ∨ c ∈ g.controller.state.newConnectedClients →
        ∃ i, (members i).name = c ∧ files.kind i ∈ files.entries := by
  obtain rfl : ControllerClass.load files.entries = validClients :=
    Except.ok.inj ((controller_ofFile files.controller files.lists).symm.trans loaded)
  have kind (i : ι) : files.kind i = ((members i).type, (members i).attr) := by
    have same := Except.ok.inj ((client_ofFile (files.client i) (files.describes i)).symm.trans (configured i))
    exact Prod.ext (congrArg ClientClass.type same) (congrArg ClientClass.attr same)
  simp only [kind]
  simpa only [isInList_load] using listed_run distinct reached

def doorFiles : Files noDoubles Unit where
  listing := _
  controller := doorListing
  entries := _
  lists := lists_door
  description _ := _
  client _ := doorDocument
  kind _ := _
  describes _ := describes_door

theorem door_started : ∃ g, (group doorSensors fun _ => doorMember).run doorStart doorEvents = some g ∧
    (g.clients ()).keepAliveStarted = true := by
  have evaluated : ((group doorSensors fun _ => doorMember).run doorStart doorEvents).map (fun g =>
      (g.clients ()).keepAliveStarted) = some true := by
    decide +kernel
  exact Option.map_eq_some_iff.mp evaluated

/-- The door sensor is started from these files. -/
theorem door_is_listed :
    doorFiles.controller.text =
        Bytes.ofString "\x7b\"clients\":[\x7b\"type\":\"sensor\",\"attribute\":\"door\"\x7d]\x7d" ∧
      ∃ g, (group doorSensors fun _ => doorMember).run doorStart doorEvents = some g ∧
        (g.clients ()).keepAliveStarted = true ∧ doorFiles.kind () ∈ doorFiles.entries := by
  obtain ⟨g,reached,started⟩ := door_started
  have distinct : Function.Injective fun _ : Unit => doorMember.name := fun _ _ _ => rfl
  have loaded := controller_ofFile doorFiles.controller doorFiles.lists
  have configured (i : Unit) := client_ofFile (doorFiles.client i) (doorFiles.describes i)
  exact ⟨rfl,g,reached,started,
    (started_is_listed doorFiles (fun _ => doorMember) distinct doorSensors loaded configured _ _ reached).1 () started⟩

end SmartHospital
