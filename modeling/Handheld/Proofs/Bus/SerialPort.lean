-- SUMMARY: What actions send over the serial link, and the address space whose listener hears exactly that.
import Handheld.CommandLine.Execution
import Handheld.Proofs.Bus.Map
import Handheld.Proofs.Cpu.Effect
import Handheld.Proofs.Cpu.Interrupts

namespace Handheld

open LawfulBus

/-! ## Transfers

A byte store of the start value to the control register starts a transfer. What
is sent is the byte that the data register holds then. A word store never starts
one, whatever the bytes are that it leaves. -/

/-- The store that starts a transfer. -/
def startTransfer : Action :=
  .write8 Hardware.serialControl Hardware.serialStart

/-- The bytes that actions send, oldest first, if the data register holds `data` before them. -/
def sentBy (data : UInt8) : List Action → List UInt8
  | [] => []
  | action :: rest =>
    (if action = startTransfer then [data] else []) ++
      sentBy (lastStored action.stores Hardware.serialData data) rest

theorem sentBy_append (data : UInt8) (first second : List Action) :
    sentBy data (first ++ second) =
      sentBy data first ++
        sentBy (lastStored (storesOf first) Hardware.serialData data) second := by
  induction first generalizing data with
  | nil => rfl
  | cons action rest ih =>
    have hboth : lastStored (storesOf (action :: rest)) Hardware.serialData data =
        lastStored (storesOf rest) Hardware.serialData
          (lastStored action.stores Hardware.serialData data) := by
      rw [storesOf, List.flatMap_cons, lastStored, List.foldl_append]
      rfl
    rw [List.cons_append, sentBy, ih, hboth, sentBy, List.append_assoc]

theorem sentBy_of_not_mem (data : UInt8) {actions : List Action} (h : startTransfer ∉ actions) :
    sentBy data actions = [] := by
  induction actions generalizing data with
  | nil => rfl
  | cons action rest ih =>
    have hother : action ≠ startTransfer := (List.ne_of_not_mem_cons h).symm
    rw [sentBy, if_neg hother, ih _ (List.not_mem_of_not_mem_cons h), List.nil_append]

/-! ### One transfer at most

What an instruction or a dispatch does to the bus starts one transfer at most,
and nothing that it stores before gets into the data register. A push that
stores to the control register and then to the data register sends the byte that
it is about to replace. -/

/-- Among the actions there is one transfer at most, and it sends what the data register holds
    before all of them. -/
structure SingleTransfer (actions : List Action) : Prop where
  sentBy_eq : ∀ data, sentBy data actions = if startTransfer ∈ actions then [data] else []

namespace SingleTransfer

theorem of_not_mem {actions : List Action} (h : startTransfer ∉ actions) :
    SingleTransfer actions := by
  refine ⟨fun data => ?_⟩
  rw [sentBy_of_not_mem data h, if_neg h]

theorem nil : SingleTransfer [] :=
  ⟨fun _ => rfl⟩

theorem single (action : Action) : SingleTransfer [action] := by
  refine ⟨fun data => ?_⟩
  simp [sentBy, eq_comm]

theorem cons {action : Action} {rest : List Action} (hrest : SingleTransfer rest)
    (hother : action ≠ startTransfer)
    (hspares : storesAt action.stores Hardware.serialData = false) :
    SingleTransfer (action :: rest) := by
  refine ⟨fun data => ?_⟩
  rw [sentBy, if_neg hother, lastStored_of_not_storesAt _ hspares, hrest.sentBy_eq,
    List.nil_append]
  simp [Ne.symm hother]

theorem append {first second : List Action} (hfirst : SingleTransfer first)
    (hsecond : startTransfer ∉ second) : SingleTransfer (first ++ second) := by
  refine ⟨fun data => ?_⟩
  rw [sentBy_append, hfirst.sentBy_eq, sentBy_of_not_mem _ hsecond, List.append_nil]
  simp [hsecond]

/-- The low byte of a push is stored last: it can start a transfer, but not change what is sent. -/
theorem push (sp value : UInt16) : SingleTransfer (Cpu.pushActions sp value) := by
  by_cases hlow : sp - 2 = Hardware.serialControl
  · have hhigh : sp - 1 = 0xFF03 := by
      have hsp : sp = Hardware.serialControl + 2 := by rw [← hlow, UInt16.sub_add_cancel]
      rw [hsp]
      rfl
    refine (single _).cons ?_ ?_
    · intro heq
      have haddress : sp - 1 = Hardware.serialControl := (Action.write8.inj heq).1
      rw [hhigh] at haddress
      cases haddress
    · rw [hhigh]
      rfl
  · have hsecond : startTransfer ∉ [Action.write8 (sp - 2) (loByte value)] := by
      intro hmem
      exact hlow (Action.write8.inj (List.mem_singleton.mp hmem)).1.symm
    exact (single _).append hsecond

end SingleTransfer

/-- The saved bytes lie far below the control register. -/
theorem startTransfer_not_mem_restore (overlay : BootOverlay) :
    startTransfer ∉ overlay.restore := by
  intro hmem
  obtain ⟨i, -, heq⟩ := List.mem_map.mp hmem
  have haddress : UInt16.ofNat i.val = Hardware.serialControl := (Action.write8.inj heq).1
  have hnat : i.val % 65536 = 65282 := congrArg UInt16.toNat haddress
  have hlt : i.val < 256 := i.isLt
  omega

namespace Cpu

theorem singleTransfer_put8 (cpu : Cpu) (dst : Operand8) (value : UInt8) :
    SingleTransfer (cpu.put8 dst value).actions := by
  cases dst with
  | atHl => exact .single _
  | _ => exact .nil

theorem singleTransfer_storeHigh (cpu : Cpu) (offset : UInt8) :
    SingleTransfer (cpu.storeHigh offset).actions := by
  rw [storeHigh]
  cases cpu.overlay with
  | none => exact .single _
  | some overlay =>
    dsimp only
    split
    · next hboot =>
      refine .of_not_mem ?_
      rw [hboot, List.mem_append]
      rintro (hmem | hmem)
      · exact startTransfer_not_mem_restore overlay hmem
      · simp [startTransfer, Hardware.bootOff, Hardware.serialControl] at hmem
    · exact .single _

/-- Every instruction starts one transfer at most. -/
theorem singleTransfer_effect (cpu : Cpu) (immediate data : UInt16) (i : Instruction) :
    SingleTransfer (cpu.effect immediate data i).actions := by
  cases i with
  | ld dst src | ldImm dst | inc dst | dec dst | shift op dst | res index dst | set index dst =>
    exact singleTransfer_put8 ..
  | storeA dst | storeSp | storeHighC | storeAbs => exact .single _
  | storeHigh => exact singleTransfer_storeHigh ..
  | rst target | push pair => exact .push ..
  | call condition =>
    rw [effect]
    split
    · exact .push ..
    · exact .nil
  | jr condition | jp condition | ret condition =>
    rw [effect]
    split <;> exact .nil
  | _ => exact .nil

theorem singleTransfer_outcome (cpu : Cpu) (image : Image) :
    SingleTransfer (cpu.outcome image).2 := by
  rw [outcome]
  cases cpu.instructionIn image with
  | error cause => exact .nil
  | ok i => exact singleTransfer_effect ..

/-- The word store of the stack pointer starts no transfer. -/
theorem startTransfer_not_mem_storeSp {cpu : Cpu} {image : Image}
    (h : cpu.instructionIn image = .ok .storeSp) : startTransfer ∉ (cpu.outcome image).2 := by
  rw [outcome, h]
  simp [effectIn, effect, startTransfer]

theorem singleTransfer_serviceOutcome (cpu : Cpu) (image : Image) :
    SingleTransfer (cpu.serviceOutcome image).2 := by
  rw [serviceOutcome]
  split
  · split
    · refine SingleTransfer.cons ?_ ?_ rfl
      · exact (SingleTransfer.push ..).append (by simp [startTransfer])
      · simp [startTransfer, Hardware.interruptFlags, Hardware.serialControl]
    · exact .nil
  · exact .nil

end Cpu

/-! ## A serial port

The bytes sent are part of the state of this bus. It has neither events nor
listeners: a store that starts a transfer sends the byte at once. -/

/-- A memory, and the bytes that have been sent, oldest first. -/
structure SerialPort where
  memory : Memory
  sent : List UInt8 := []

namespace SerialPort

/-- The byte in the data register. -/
def data (port : SerialPort) : UInt8 :=
  port.memory.get Hardware.serialData

/-- The port after a store. -/
def store (port : SerialPort) (action : Action) : SerialPort where
  memory := port.memory.setAll action.stores
  sent := port.sent ++ if action = startTransfer then [port.data] else []

instance : Bus SerialPort where
  read8 address := fun port => (port.memory.get address, port)
  read16 address := fun port => (Image.wordAt port.memory.get address, port)
  write8 address value := modify (·.store (.write8 address value))
  write16 address value := modify (·.store (.write16 address value))
  report _ := pure ()

instance : LawfulBus SerialPort SerialPort where
  held port := port
  image port := port.memory.get
  put8 address value port := port.store (.write8 address value)
  put16 address value port := port.store (.write16 address value)
  read8_value _ _ := rfl
  read8_held _ _ := rfl
  read16_value _ _ := rfl
  read16_held _ _ := rfl
  write8_held _ _ _ := rfl
  write16_held _ _ _ := rfl
  report_held _ _ := rfl

/-- The port after several actions. -/
def after (port : SerialPort) (actions : List Action) : SerialPort where
  memory := port.memory.setAll (storesOf actions)
  sent := port.sent ++ sentBy port.data actions

theorem put_eq (port : SerialPort) (action : Action) :
    action.put (β := SerialPort) port = port.store action := by
  cases action with
  | write8 address value => rfl
  | write16 address value => rfl
  | report record => simp [Action.put, store, Action.stores, Memory.setAll, startTransfer]

theorem putAll_eq (port : SerialPort) (actions : List Action) :
    putAll (β := SerialPort) actions port = port.after actions := by
  induction actions generalizing port with
  | nil => simp [putAll, after, storesOf, Memory.setAll, sentBy]
  | cons action rest ih =>
    have hdata : (port.store action).data =
        lastStored action.stores Hardware.serialData port.data :=
      Memory.get_setAll_of_ne_divider _ _ (by decide)
    rw [putAll, List.foldl_cons, put_eq]
    refine (ih _).trans ?_
    rw [after, hdata]
    simp [after, store, storesOf, sentBy, Memory.setAll_append]

/-! ## The address space as a serial port -/

/-- A space that stores to the memory of the port, and whose only listener has heard of the bytes
    that the port has sent. -/
structure Wired (port : SerialPort) (s : AddressSpace) : Prop where
  holds : s.Holds port.memory
  listeners_eq : s.listeners = [serialListener]
  heard_eq : s.heard.toList.map Sighting.serialByte = port.sent

variable {port : SerialPort} {s : AddressSpace}

theorem Wired.notify (h : Wired port s) (kind : EventKind) (address : UInt16) (byte : UInt8)
    (value : UInt16) :
    Wired
      { port with
        sent := port.sent ++
          if serialListener.hears ⟨kind, address, byte, value, s.store⟩ then [port.data] else [] }
      (s.notify kind address byte value) := by
  refine ⟨(h.holds.notify ..).1, ?_, ?_⟩
  · rw [AddressSpace.notify, h.holds.logsWrites]
    exact h.listeners_eq
  · rw [AddressSpace.notify, h.holds.logsWrites, h.listeners_eq]
    have hsent : (Sighting.mk serialListener.tag ⟨kind, address, byte, value, s.store⟩).serialByte =
        port.data := by
      rw [Sighting.serialByte, h.holds.store_eq]
      rfl
    cases hhears : serialListener.hears ⟨kind, address, byte, value, s.store⟩ <;>
      simp [AddressSpace.deliver, hhears, h.heard_eq, hsent]

/-- Only byte stores are heard. -/
theorem Wired.notify_other (h : Wired port s) (kind : EventKind) (hkind : kind ≠ .writeByte)
    (address : UInt16) (byte : UInt8) (value : UInt16) :
    Wired port (s.notify kind address byte value) := by
  have hhears : serialListener.hears ⟨kind, address, byte, value, s.store⟩ = false := by
    simp [Listener.hears, serialListener, Ne.symm hkind]
  have hnotified := h.notify kind address byte value
  rw [hhears] at hnotified
  simpa using hnotified

theorem Wired.putByte (h : Wired port s) (address : UInt16) (value : UInt8) :
    Wired { port with memory := port.memory.setAll [(address, value)] }
      (s.putByte address value) := by
  refine ⟨(h.holds.putByte address value).1, ?_, ?_⟩
  · rw [AddressSpace.putByte, h.holds.logsWrites]
    exact h.listeners_eq
  · rw [AddressSpace.putByte, h.holds.logsWrites]
    exact h.heard_eq

/-- The listener hears a byte store exactly if it starts a transfer. -/
theorem hears_writeByte_iff (address : UInt16) (value : UInt8) (store : Store) :
    serialListener.hears
        ⟨.writeByte, address, AddressSpace.settled address value, 0, store⟩ = true ↔
      Action.write8 address value = startTransfer := by
  have hsettled (haddress : address = Hardware.serialControl) :
      AddressSpace.settled address value = value := by
    rw [haddress]
    rfl
  simp only [Listener.hears, serialListener, startTransfer, Action.write8.injEq, beq_self_eq_true,
    Bool.true_and, Bool.and_eq_true, beq_iff_eq]
  constructor
  · rintro ⟨haddress, hbyte⟩
    exact ⟨haddress, (hsettled haddress).symm.trans hbyte⟩
  · rintro ⟨haddress, hvalue⟩
    exact ⟨haddress, (hsettled haddress).trans hvalue⟩

/-- No access can tell the port from a space that is wired to it. -/
theorem busRelation_wired : BusRelation Wired where
  read8 address := by
    intro port s h
    exact ⟨h.holds.peek address, h.notify_other .readByte nofun ..⟩
  read16 address := by
    intro port s h
    refine ⟨?_, ?_⟩
    · have hview : view s = port.memory.get := funext h.holds.peek
      exact (LawfulBus.read16_value address s).trans (congrArg (Image.wordAt · address) hview)
    · exact ((h.notify_other .readByte nofun ..).notify_other .readByte nofun ..).notify_other
        .readWord nofun ..
  write8 address value := by
    intro port s h
    refine ⟨rfl, ?_⟩
    have hput := (h.notify .writeByte address (AddressSpace.settled address value) 0).putByte
      address value
    simp only [hears_writeByte_iff] at hput
    exact hput
  write16 address value := by
    intro port s h
    refine ⟨rfl, ?_⟩
    have hput := ((h.notify_other .writeWord nofun address 0 value).putByte (address + 1)
      (hiByte value)).putByte address (loByte value)
    have hother : Action.write16 address value ≠ startTransfer := nofun
    have hport : port.store (.write16 address value) =
        { port with
          memory := (port.memory.setAll [(address + 1, hiByte value)]).setAll
            [(address, loByte value)] } := by
      rw [store, if_neg hother, List.append_nil]
      rfl
    change Wired (port.store _) _
    rw [hport]
    exact hput
  report record := by
    intro port s h
    exact ⟨rfl, ⟨h.holds.store_eq, h.holds.logSwitch_eq⟩, h.listeners_eq, h.heard_eq⟩

end SerialPort

end Handheld
