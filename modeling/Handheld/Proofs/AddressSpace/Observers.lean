-- SUMMARY: What listeners hear of every run is complete: the events tell all accesses in order, and replaying them gives the memory.
import Handheld.Proofs.Bus.Recording

namespace Handheld

/-! ## Events of accesses -/

/-- The events that an access raises, in order. -/
def BusAccess.raises (memory : Memory) : BusAccess → List Event
  | read8 address => [⟨.readByte, address, memory.get address, 0, .owned memory⟩]
  | read16 address =>
    [⟨.readByte, address, memory.get address, 0, .owned memory⟩,
      ⟨.readByte, address + 1, memory.get (address + 1), 0, .owned memory⟩,
      ⟨.readWord, address, 0, word (memory.get (address + 1)) (memory.get address),
        .owned memory⟩]
  | write8 address value =>
    [⟨.writeByte, address, AddressSpace.settled address value, 0, .owned memory⟩]
  | write16 address value => [⟨.writeWord, address, 0, value, .owned memory⟩]

/-- The events that several accesses raise, each over what the ones before it have left. -/
def Memory.eventsOf (memory : Memory) : List BusAccess → List Event
  | [] => []
  | access :: rest => access.raises memory ++ (memory.setAll access.stores).eventsOf rest

theorem Memory.eventsOf_append (memory : Memory) (first second : List BusAccess) :
    memory.eventsOf (first ++ second) =
      memory.eventsOf first ++ (memory.accessAll first).eventsOf second := by
  induction first generalizing memory with
  | nil => rfl
  | cons access rest ih =>
    simp only [List.cons_append, eventsOf, ih, List.append_assoc, accessAll, List.flatMap_cons,
      setAll_append]

/-! ## Replaying events

Of the four kinds only writes change anything. A listener that keeps the words
and bytes it hears of can rebuild the memory without ever looking at it. -/

/-- The memory after what an event tells of, over the memory before it. -/
def Event.replay (memory : Memory) (event : Event) : Memory :=
  match event.kind with
  | .writeByte => memory.set event.address event.byte
  | .writeWord =>
    let high := if event.address + 1 = 0xFF04 then 0 else hiByte event.word
    let low := if event.address = 0xFF04 then 0 else loByte event.word
    (memory.set (event.address + 1) high).set event.address low
  | .readByte | .readWord => memory

/-- The memory after what several events tell of. -/
def Memory.replayEvents (memory : Memory) (events : List Event) : Memory :=
  events.foldl Event.replay memory

theorem Memory.replayEvents_append (memory : Memory) (first second : List Event) :
    memory.replayEvents (first ++ second) = (memory.replayEvents first).replayEvents second :=
  List.foldl_append

theorem BusAccess.replay_raises (memory : Memory) (access : BusAccess) :
    memory.replayEvents (access.raises memory) = memory.setAll access.stores := by
  cases access <;> rfl

theorem Memory.replay_eventsOf (memory : Memory) (accesses : List BusAccess) :
    memory.replayEvents (memory.eventsOf accesses) = memory.accessAll accesses := by
  induction accesses generalizing memory with
  | nil => rfl
  | cons access rest ih =>
    simp only [eventsOf, replayEvents_append, BusAccess.replay_raises, ih, accessAll,
      List.flatMap_cons, setAll_append]

/-- Every event shows the memory as the events before it have left it. -/
def Memory.ShownBy (memory : Memory) : List Event → Prop
  | [] => True
  | event :: rest => event.store = .owned memory ∧ (event.replay memory).ShownBy rest

theorem Memory.shownBy_append {memory : Memory} {first second : List Event} :
    memory.ShownBy (first ++ second) ↔
      memory.ShownBy first ∧ (memory.replayEvents first).ShownBy second := by
  induction first generalizing memory with
  | nil => simp [ShownBy, replayEvents]
  | cons event rest ih =>
    simp only [List.cons_append, ShownBy, ih, and_assoc]
    rfl

theorem BusAccess.shownBy_raises (memory : Memory) (access : BusAccess) :
    memory.ShownBy (access.raises memory) := by
  cases access <;> simp [raises, Memory.ShownBy, Event.replay]

theorem Memory.shownBy_eventsOf (memory : Memory) (accesses : List BusAccess) :
    memory.ShownBy (memory.eventsOf accesses) := by
  induction accesses generalizing memory with
  | nil => trivial
  | cons access rest ih =>
    rw [eventsOf, shownBy_append, BusAccess.replay_raises]
    exact ⟨access.shownBy_raises memory, ih _⟩

/-! ## What listeners hear -/

/-- An event as each listener that hears it sees it, in the order of registration. -/
def sightings (listeners : List Listener) (event : Event) : List Sighting :=
  (listeners.filter (·.hears event)).map fun listener => ⟨listener.tag, event⟩

/-- Among the listeners with a watched tag there is one for each kind, and it hears all of its
    kind. -/
def WatchAll (watched : Nat → Bool) (listeners : List Listener) : Prop :=
  ∀ kind, ∃ tag,
    listeners.filter (fun listener => watched listener.tag && listener.kind == kind) =
      [{ tag, kind }]

/-- Between them the watched listeners hear an event once. -/
theorem sightings_watched {watched : Nat → Bool} {listeners : List Listener}
    (hwatch : WatchAll watched listeners) (event : Event) :
    ((sightings listeners event).filter (watched ·.tag)).map (·.event) = [event] := by
  obtain ⟨tag, hone⟩ := hwatch event.kind
  have hsame : (listeners.filter (·.hears event)).filter (watched ·.tag) =
      (listeners.filter fun listener => watched listener.tag && listener.kind == event.kind).filter
        (·.hears event) := by
    rw [List.filter_filter, List.filter_filter]
    congr 1
    funext listener
    cases hkind : listener.kind == event.kind <;> simp [Listener.hears, hkind, Bool.and_comm]
  have hheard : (listeners.filter (·.hears event)).filter (watched ·.tag) =
      [{ tag, kind := event.kind }] := by
    rw [hsame, hone]
    simp [Listener.hears]
  simp [sightings, List.filter_map, Function.comp_def, hheard]

namespace AddressSpace

theorem deliver_eq (event : Event) (listeners : List Listener) (heard : Array Sighting) :
    deliver event listeners heard = heard ++ (sightings listeners event).toArray := by
  induction listeners generalizing heard with
  | nil => simp [deliver, sightings]
  | cons listener rest ih =>
    rw [deliver, List.foldl_cons]
    refine (ih _).trans ?_
    cases hhears : listener.hears event <;> simp [sightings, hhears]

/-- The space once some events have been raised, over the given memory and with the given
    journal. -/
def told (s : AddressSpace) (memory : Memory) (events : List Event) (journal : Journal) :
    AddressSpace :=
  { s with
    store := .owned memory
    heard := s.heard ++ (events.flatMap (sightings s.listeners)).toArray
    dividerHit := s.dividerHit || events.any Event.hitsDivider
    journal }

section

variable {s : AddressSpace} (hlog : s.logSwitch = false) (memory : Memory) (events : List Event)
  (journal : Journal)

include hlog

theorem logsWrites_told : (s.told memory events journal).logsWrites = false := by
  simp only [logsWrites, told, hlog]
  rfl

theorem notify_told (kind : EventKind) (address : UInt16) (byte : UInt8) (value : UInt16) :
    (s.told memory events journal).notify kind address byte value =
      s.told memory (events ++ [⟨kind, address, byte, value, .owned memory⟩]) journal := by
  rw [notify, logsWrites_told hlog]
  simp [told, deliver_eq, Bool.or_assoc]

theorem putByte_told (address : UInt16) (value : UInt8) :
    (s.told memory events journal).putByte address value =
      s.told (memory.setAll [(address, value)]) events journal := by
  rw [putByte, logsWrites_told hlog]
  rfl

end

/-- The space once the recorded accesses have been made to it, over the memory `image`. -/
def observed (s : AddressSpace) {image : Memory} (bus : RecordingBus image) (journal : Journal) :
    AddressSpace :=
  s.told bus.memory (image.eventsOf bus.accesses) journal

theorem observed_record (s : AddressSpace) {image : Memory} (bus : RecordingBus image)
    (access : BusAccess) (journal : Journal) :
    s.observed (bus.record access) journal =
      s.told (bus.memory.setAll access.stores)
        (image.eventsOf bus.accesses ++ access.raises bus.memory) journal := by
  rw [observed, RecordingBus.memory_record, RecordingBus.record]
  simp [Memory.eventsOf_append, Memory.eventsOf, RecordingBus.memory]

theorem Holds.eq_observed {s : AddressSpace} {image : Memory} (h : s.Holds image) :
    s = s.observed ({} : RecordingBus image) s.journal := by
  have hmemory : ({} : RecordingBus image).memory = image := rfl
  simp [observed, told, Memory.eventsOf, hmemory, ← h.store_eq]

/-- Reading a word tells of both bytes before it tells of the word. -/
theorem readWord_snd (s : AddressSpace) (address : UInt16) :
    ((readWord address).run s).2 =
      ((s.notify .readByte address (s.peek address) 0).notify .readByte (address + 1)
        (s.peek (address + 1)) 0).notify .readWord address 0
          (word (s.peek (address + 1)) (s.peek address)) := by
  change ((s.notify .readByte address (s.peek address) 0).notify .readByte (address + 1)
    ((s.notify .readByte address (s.peek address) 0).peek (address + 1)) 0).notify .readWord address
      0 (word ((s.notify .readByte address (s.peek address) 0).peek (address + 1))
        (s.peek address)) = _
  simp only [peek_notify]

/-- No access can tell the recording bus from a space that listeners observe. -/
theorem busRelation_observed {s : AddressSpace} (hlog : s.logSwitch = false) (image : Memory) :
    BusRelation fun (bus : RecordingBus image) s' => ∃ journal, s' = s.observed bus journal where
  read8 address := by
    rintro bus _ ⟨journal, rfl⟩
    refine ⟨rfl, journal, ?_⟩
    exact (notify_told hlog ..).trans (s.observed_record bus (.read8 address) journal).symm
  read16 address := by
    rintro bus _ ⟨journal, rfl⟩
    refine ⟨LawfulBus.read16_value address (s.observed bus journal), journal, ?_⟩
    refine (readWord_snd ..).trans (Eq.trans ?_
      (s.observed_record bus (.read16 address) journal).symm)
    rw [observed, notify_told hlog, notify_told hlog, notify_told hlog]
    simp only [List.append_assoc]
    rfl
  write8 address value := by
    rintro bus _ ⟨journal, rfl⟩
    refine ⟨rfl, journal, ?_⟩
    refine Eq.trans ?_ (s.observed_record bus (.write8 address value) journal).symm
    change (s.told ..).writeByte address value = _
    rw [writeByte, notify_told hlog, putByte_told hlog]
    rfl
  write16 address value := by
    rintro bus _ ⟨journal, rfl⟩
    refine ⟨rfl, journal, ?_⟩
    refine Eq.trans ?_ (s.observed_record bus (.write16 address value) journal).symm
    change (s.told ..).writeWord address value = _
    rw [writeWord, notify_told hlog, putByte_told hlog, putByte_told hlog, ← Memory.setAll_append]
    rfl
  report record := by
    rintro bus _ ⟨journal, rfl⟩
    exact ⟨rfl, journal.add record, rfl⟩

/-! ## While writes are logged -/

/-- Writes are logged, and nothing has been heard or remembered beyond what is given. -/
structure Unheard (heard : Array Sighting) (dividerHit : Bool) (s : AddressSpace) : Prop where
  logsWrites : s.logsWrites = true
  heard_eq : s.heard = heard
  dividerHit_eq : s.dividerHit = dividerHit

variable {heard : Array Sighting} {hit : Bool} {s : AddressSpace}

theorem Unheard.notify (h : s.Unheard heard hit) (kind : EventKind) (address : UInt16)
    (byte : UInt8) (value : UInt16) : (s.notify kind address byte value).Unheard heard hit := by
  rw [AddressSpace.notify, h.logsWrites, if_pos rfl]
  exact h

theorem Unheard.putByte (h : s.Unheard heard hit) (address : UInt16) (value : UInt8) :
    (s.putByte address value).Unheard heard hit := by
  rw [AddressSpace.putByte, h.logsWrites]
  simp only [if_true, logAccess]
  split
  · exact ⟨h.logsWrites, h.heard_eq, h.dividerHit_eq⟩
  · exact ⟨h.logsWrites, h.heard_eq, h.dividerHit_eq⟩

/-- No access is heard of while writes are logged. -/
theorem busRelation_unheard (heard : Array Sighting) (hit : Bool) :
    BusRelation fun s s' : AddressSpace => s' = s ∧ s.Unheard heard hit where
  read8 address := by
    rintro s _ ⟨rfl, h⟩
    exact ⟨rfl, rfl, h.notify ..⟩
  read16 address := by
    rintro s _ ⟨rfl, h⟩
    refine ⟨rfl, rfl, ?_⟩
    exact ((h.notify ..).notify ..).notify ..
  write8 address value := by
    rintro s _ ⟨rfl, h⟩
    exact ⟨rfl, rfl, (h.notify ..).putByte address value⟩
  write16 address value := by
    rintro s _ ⟨rfl, h⟩
    exact ⟨rfl, rfl, ((h.notify ..).putByte ..).putByte address _⟩
  report record := by
    rintro s _ ⟨rfl, h⟩
    exact ⟨rfl, rfl, h.logsWrites, h.heard_eq, h.dividerHit_eq⟩

end AddressSpace

namespace Call

/-! ## Runs under observation -/

/-- What listeners have heard when the accesses that were recorded at one moment have been made to
    the space `s` over the memory `image`. -/
structure Observed (s : AddressSpace) {image : Memory} (m : Moment (RecordingBus image))
    (m' : Moment AddressSpace) : Prop where
  answer : m'.answer = m.answer
  cpu : m'.cpu = m.cpu
  /-- Every event of every access reaches those that hear it, in the order of registration. -/
  heard : m'.bus.heard =
    s.heard ++ ((image.eventsOf m.bus.accesses).flatMap (sightings s.listeners)).toArray
  /-- Listeners that hear everything have heard every event once. -/
  watched : ∀ watched, WatchAll watched s.listeners →
    ((m'.bus.heard.toList.drop s.heard.size).filter (watched ·.tag)).map (·.event) =
      image.eventsOf m.bus.accesses
  dividerHit : m'.bus.dividerHit =
    (s.dividerHit || (image.eventsOf m.bus.accesses).any Event.hitsDivider)
  /-- Replaying the events gives the store. -/
  replayed : m'.bus.store = .owned (image.replayEvents (image.eventsOf m.bus.accesses))
  /-- Every event shows the store as the events before it replay it. -/
  shown : ∀ before event rest, image.eventsOf m.bus.accesses = before ++ event :: rest →
    event.store = .owned (image.replayEvents before)

theorem observed_of_matches {s : AddressSpace} {image : Memory} {m : Moment (RecordingBus image)}
    {m' : Moment AddressSpace}
    (h : m.Matches (fun bus s' => ∃ journal, s' = s.observed bus journal) m') :
    Observed s m m' := by
  obtain ⟨hanswer, hcpu, journal, hbus⟩ := h
  have hheard := congrArg AddressSpace.heard hbus
  refine ⟨hanswer, hcpu, hheard, ?_, congrArg AddressSpace.dividerHit hbus, ?_, ?_⟩
  · intro watched hwatch
    rw [hheard]
    simp [AddressSpace.observed, AddressSpace.told, List.filter_flatMap, List.map_flatMap,
      sightings_watched hwatch]
  · rw [Memory.replay_eventsOf]
    exact congrArg AddressSpace.store hbus
  · intro before event rest hsplit
    have hshown := image.shownBy_eventsOf m.bus.accesses
    rw [hsplit, Memory.shownBy_append] at hshown
    exact hshown.2.1

/-- Whoever observes a space hears of all that a processor and its calls do to it, and of nothing
    while writes are logged. -/
theorem observers_complete (cpu : Cpu) (calls : List Call) :
    (∀ image s, s.Holds image →
      List.Forall₂ (Observed s) (history cpu ({} : RecordingBus image) calls)
        (history cpu s calls)) ∧
      ∀ s : AddressSpace, s.logsWrites = true → ∀ m ∈ history cpu s calls,
        m.bus.heard = s.heard ∧ m.bus.dividerHit = s.dividerHit := by
  constructor
  · intro image s hs
    have hruns := (AddressSpace.busRelation_observed hs.logSwitch_eq image).history calls cpu
      ⟨s.journal, hs.eq_observed⟩
    exact hruns.imp fun _ _ => observed_of_matches
  · intro s hlogs m hmem
    have hruns := (AddressSpace.busRelation_unheard s.heard s.dividerHit).history calls cpu
      ⟨rfl, hlogs, rfl, rfl⟩
    obtain ⟨-, hunheard⟩ := (List.forall₂_same.mp hruns m hmem).bus
    exact ⟨hunheard.heard_eq, hunheard.dividerHit_eq⟩

/-- Four listeners hear of a word store over the divider once, as a word; they hear of nothing
    while writes are logged. -/
theorem observers_complete_overDivider :
    let s : AddressSpace :=
      { listeners := [⟨0, .readByte, none⟩, ⟨1, .readWord, none⟩, ⟨2, .writeByte, none⟩,
          ⟨3, .writeWord, none⟩] }
    let calls : List Call := [.write16 0xFF03 0xABCD, .read8 0xFF04]
    s.Holds .zero ∧ WatchAll (fun _ => true) s.listeners ∧
      List.Forall₂ (Observed s) (history {} ({} : RecordingBus .zero) calls) (history {} s calls) ∧
      (history {} s calls).map (fun m => m.bus.heard.toList.map (·.tag)) = [[3], [3, 0]] ∧
      ∀ m ∈ history {} { s with logSwitch := true } calls, m.bus.heard = #[] := by
  intro s calls
  have hs : s.Holds .zero := ⟨rfl, rfl⟩
  obtain ⟨hobserved, hunheard⟩ := observers_complete {} calls
  refine ⟨hs, ?_, hobserved .zero s hs, rfl, fun m hmem => ?_⟩
  · intro kind
    cases kind <;> exact ⟨_, rfl⟩
  · exact (hunheard { s with logSwitch := true } rfl m hmem).1

end Call

end Handheld
