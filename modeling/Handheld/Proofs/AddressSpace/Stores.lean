-- SUMMARY: Bus actions as byte stores: what they leave in an owned store and what they leave in the access log.
import Handheld.Proofs.Bus.Lawful

namespace Handheld

/-! ## Byte stores

However a program stores, what lands is a list of bytes at addresses: one byte
of a byte store, the high and then the low byte of a word store. -/

/-- The bytes that an action puts at addresses, in order. -/
def Action.stores : Action → List (UInt16 × UInt8)
  | write8 address value => [(address, value)]
  | write16 address value => [(address + 1, hiByte value), (address, loByte value)]
  | report _ => []

/-- The bytes that several actions put at addresses, in order. -/
def storesOf (actions : List Action) : List (UInt16 × UInt8) :=
  actions.flatMap Action.stores

/-- The byte at an address after some stores, which before them is `before`. -/
def lastStored (stores : List (UInt16 × UInt8)) (address : UInt16) (before : UInt8) : UInt8 :=
  stores.foldl (fun byte store => if store.1 = address then store.2 else byte) before

/-- Whether a store lands at an address. -/
def storesAt (stores : List (UInt16 × UInt8)) (address : UInt16) : Bool :=
  stores.any (·.1 == address)

theorem lastStored_of_not_storesAt {stores : List (UInt16 × UInt8)} {address : UInt16}
    (before : UInt8) (h : storesAt stores address = false) :
    lastStored stores address before = before := by
  induction stores generalizing before with
  | nil => rfl
  | cons store rest ih =>
    simp only [storesAt, List.any_cons, Bool.or_eq_false_iff, beq_eq_false_iff_ne, ne_eq] at h
    rw [lastStored, List.foldl_cons, if_neg h.1]
    exact ih before h.2

/-! ### Owned stores -/

/-- The memory after byte stores; one at the divider leaves zero. -/
def Memory.setAll (memory : Memory) (stores : List (UInt16 × UInt8)) : Memory :=
  stores.foldl (fun memory store =>
    memory.set store.1 (AddressSpace.settled store.1 store.2)) memory

theorem Memory.setAll_append (memory : Memory) (first second : List (UInt16 × UInt8)) :
    memory.setAll (first ++ second) = (memory.setAll first).setAll second :=
  List.foldl_append

theorem Memory.get_setAll_of_ne_divider (memory : Memory) (stores : List (UInt16 × UInt8))
    {address : UInt16} (h : address ≠ Hardware.divider) :
    (memory.setAll stores).get address = lastStored stores address (memory.get address) := by
  induction stores generalizing memory with
  | nil => rfl
  | cons store rest ih =>
    rw [setAll, List.foldl_cons]
    refine (ih _).trans ?_
    rw [lastStored, lastStored, List.foldl_cons, Memory.get_set]
    by_cases hhere : store.1 = address
    · rw [if_pos hhere, if_pos hhere.symm, AddressSpace.settled, if_neg (hhere ▸ h)]
    · rw [if_neg hhere, if_neg (Ne.symm hhere)]

namespace AddressSpace

theorem peek_poke_of_ne (s : AddressSpace) {address other : UInt16} (value : UInt8)
    (h : other ≠ address) : (s.poke address value).peek other = s.peek other := by
  cases hs : s.store with
  | owned memory =>
    simp only [peek, store_poke, hs, Store.poke_owned, Store.peek_owned]
    exact memory.get_set_of_ne value h
  | borrowed buffer limit limit_le => simp only [peek, store_poke, hs, Store.poke]

theorem peek_poke_self {s : AddressSpace} {memory : Memory} (owned : s.store = .owned memory)
    (address : UInt16) (value : UInt8) : (s.poke address value).peek address = value := by
  simp only [peek, store_poke, owned, Store.poke_owned, Store.peek_owned, Memory.get_set_self]

/-- Poking a byte that is already there changes nothing that can be read. -/
theorem peek_poke_same (s : AddressSpace) (address other : UInt16) :
    (s.poke address (s.peek address)).peek other = s.peek other := by
  by_cases h : other = address
  · subst h
    cases hs : s.store with
    | owned memory => exact peek_poke_self hs other _
    | borrowed buffer limit limit_le => simp only [peek, store_poke, hs, Store.poke]
  · exact s.peek_poke_of_ne _ h

theorem logsWrites_load (s : AddressSpace) (base : UInt16) (data : ByteArray) :
    (s.load base data).logsWrites = s.logsWrites := by
  have hstore : (s.store.load base data).isBorrowed = s.store.isBorrowed := by
    cases s.store <;> rfl
  exact congrArg (s.logSwitch || ·) hstore

/-- A space whose stores reach a memory of its own. -/
structure Holds (s : AddressSpace) (memory : Memory) : Prop where
  store_eq : s.store = .owned memory
  logSwitch_eq : s.logSwitch = false

theorem Holds.logsWrites {s : AddressSpace} {memory : Memory} (h : s.Holds memory) :
    s.logsWrites = false := by
  simp only [AddressSpace.logsWrites, h.store_eq, h.logSwitch_eq]
  rfl

theorem Holds.peek {s : AddressSpace} {memory : Memory} (h : s.Holds memory) (address : UInt16) :
    s.peek address = memory.get address := by
  rw [AddressSpace.peek, h.store_eq, Store.peek_owned]

theorem Holds.of_quiet {s s' : AddressSpace} {memory : Memory} (h : s.Holds memory)
    (hsame : s'.quiet = s.quiet) : s'.Holds memory where
  store_eq := (congrArg AddressSpace.store hsame).trans h.store_eq
  logSwitch_eq := (congrArg AddressSpace.logSwitch hsame).trans h.logSwitch_eq

/-- Writes are not logged exactly if they reach a memory of the space. -/
theorem exists_holds_of_not_logsWrites {s : AddressSpace} (h : s.logsWrites = false) :
    ∃ memory, s.Holds memory := by
  rw [AddressSpace.logsWrites, Bool.or_eq_false_iff] at h
  cases hstore : s.store with
  | owned memory => exact ⟨memory, hstore, h.1⟩
  | borrowed buffer limit limit_le =>
    rw [hstore] at h
    cases h.2

theorem Holds.notify {s : AddressSpace} {memory : Memory} (h : s.Holds memory) (kind : EventKind)
    (address : UInt16) (byte : UInt8) (value : UInt16) :
    (s.notify kind address byte value).Holds memory ∧
      (s.notify kind address byte value).dividerHit =
        (s.dividerHit || (Event.mk kind address byte value s.store).hitsDivider) := by
  unfold AddressSpace.notify
  rw [h.logsWrites]
  exact ⟨⟨h.store_eq, h.logSwitch_eq⟩, rfl⟩

theorem Holds.poke {s : AddressSpace} {memory : Memory} (h : s.Holds memory) (address : UInt16)
    (value : UInt8) : (s.poke address value).Holds (memory.set address value) where
  store_eq := by rw [store_poke, h.store_eq, Store.poke_owned]
  logSwitch_eq := h.logSwitch_eq

theorem Holds.load {s : AddressSpace} {memory : Memory} (h : s.Holds memory) (base : UInt16)
    (data : ByteArray) : (s.load base data).Holds (memory.load base data) where
  store_eq := by
    rw [AddressSpace.load, h.store_eq]
    rfl
  logSwitch_eq := h.logSwitch_eq

theorem Holds.putByte {s : AddressSpace} {memory : Memory} (h : s.Holds memory) (address : UInt16)
    (value : UInt8) :
    (s.putByte address value).Holds (memory.set address (settled address value)) ∧
      (s.putByte address value).dividerHit = s.dividerHit := by
  unfold AddressSpace.putByte
  rw [h.logsWrites]
  exact ⟨h.poke address _, rfl⟩

theorem Holds.perform {s : AddressSpace} {memory : Memory} (h : s.Holds memory) (action : Action) :
    ((action.perform).run s).2.Holds (memory.setAll action.stores) ∧
      ((action.perform).run s).2.dividerHit =
        (s.dividerHit || storesAt action.stores Hardware.divider) := by
  cases action with
  | write8 address value =>
    obtain ⟨hnotify, hhit⟩ := h.notify .writeByte address (settled address value) 0
    obtain ⟨hput, hsame⟩ := hnotify.putByte address value
    exact ⟨hput, hsame.trans (hhit.trans (by simp [Event.hitsDivider, Action.stores, storesAt]))⟩
  | write16 address value =>
    obtain ⟨hnotify, hhit⟩ := h.notify .writeWord address 0 value
    obtain ⟨hhigh, hsame⟩ := hnotify.putByte (address + 1) (hiByte value)
    obtain ⟨hlow, hsame'⟩ := hhigh.putByte address (loByte value)
    refine ⟨hlow, hsame'.trans (hsame.trans (hhit.trans ?_))⟩
    simp [Event.hitsDivider, Action.stores, storesAt, Bool.or_comm]
  | report record => exact ⟨⟨h.store_eq, h.logSwitch_eq⟩, (Bool.or_false _).symm⟩

/-- Actions on a space that holds a memory store their bytes there, and a byte at the divider is
    remembered. -/
theorem Holds.performAll {s : AddressSpace} {memory : Memory} (h : s.Holds memory)
    (actions : List Action) :
    ((performAll actions).run s).2.Holds (memory.setAll (storesOf actions)) ∧
      ((performAll actions).run s).2.dividerHit =
        (s.dividerHit || storesAt (storesOf actions) Hardware.divider) := by
  induction actions generalizing s memory with
  | nil => exact ⟨h, (Bool.or_false _).symm⟩
  | cons action rest ih =>
    obtain ⟨hfirst, hhit⟩ := h.perform action
    obtain ⟨hrest, hhit'⟩ := ih hfirst
    rw [storesOf, List.flatMap_cons, Memory.setAll_append]
    refine ⟨hrest, hhit'.trans ?_⟩
    rw [hhit, Bool.or_assoc, storesAt, storesAt, storesAt, List.any_append]
    rfl

/-- The same of a space that is left as the actions leave it, whatever it has observed. -/
theorem Holds.of_putAll {s s' : AddressSpace} {memory : Memory} (h : s.Holds memory)
    {actions : List Action}
    (hleft : s'.quiet = putAll (β := AddressSpace) actions s.quiet) :
    s'.Holds (memory.setAll (storesOf actions)) ∧
      s'.dividerHit = (s.dividerHit || storesAt (storesOf actions) Hardware.divider) := by
  obtain ⟨hholds, hhit⟩ := h.performAll actions
  have hquiet : s'.quiet = ((Handheld.performAll actions).run s).2.quiet :=
    hleft.trans (performAll_held (β := AddressSpace) actions s).symm
  exact ⟨hholds.of_quiet hquiet, (congrArg AddressSpace.dividerHit hquiet).trans hhit⟩

/-- `s'` is `s` after some stores that were not logged. -/
structure Stored (s : AddressSpace) (stores : List (UInt16 × UInt8)) (s' : AddressSpace) :
    Prop where
  logsWrites : s'.logsWrites = false
  dividerHit : s'.dividerHit = (s.dividerHit || storesAt stores Hardware.divider)
  peek_of_ne : ∀ address ≠ Hardware.divider,
    s'.peek address = lastStored stores address (s.peek address)

theorem Stored.peek_of_not_storesAt {s s' : AddressSpace} {stores : List (UInt16 × UInt8)}
    {address : UInt16} (h : s.Stored stores s') (hne : address ≠ Hardware.divider)
    (hspares : storesAt stores address = false) : s'.peek address = s.peek address := by
  rw [h.peek_of_ne address hne, lastStored_of_not_storesAt _ hspares]

theorem stored_of_putAll {s s' : AddressSpace} {actions : List Action}
    (hlog : s.logsWrites = false) (hleft : s'.quiet = putAll (β := AddressSpace) actions s.quiet) :
    s.Stored (storesOf actions) s' := by
  obtain ⟨memory, hs⟩ := exists_holds_of_not_logsWrites hlog
  obtain ⟨hs', hhit⟩ := hs.of_putAll hleft
  refine ⟨hs'.logsWrites, hhit, ?_⟩
  intro address hne
  rw [hs'.peek, hs.peek, memory.get_setAll_of_ne_divider _ hne]

end AddressSpace

/-! ### Logged stores

While writes are logged every byte store becomes an access at the end of the
log, as long as there is room, and nothing else changes. -/

theorem AccessLog.length_recorded (log : AccessLog) : log.recorded.length = log.length := by
  have := log.length_le
  simp [recorded, this]

namespace AddressSpace

/-- The access that a byte store leaves in the log. -/
def loggedWrite (store : UInt16 × UInt8) : Access :=
  ⟨.write, store.1, settled store.1 store.2⟩

/-- A space whose writes are logged, over the given store. -/
structure Logs (s : AddressSpace) (store : Store) : Prop where
  store_eq : s.store = store
  logsWrites : s.logsWrites = true

theorem Logs.of_quiet {s s' : AddressSpace} {store : Store} (h : s.Logs store)
    (hsame : s'.quiet = s.quiet) : s'.Logs store where
  store_eq := (congrArg AddressSpace.store hsame).trans h.store_eq
  logsWrites := (congrArg AddressSpace.logsWrites hsame).trans h.logsWrites

/-- What a space has in its log once some more bytes have been stored: if there is room for all of
    them, those at the end. -/
def LogGrows (s s' : AddressSpace) (stores : List (UInt16 × UInt8)) : Prop :=
  s.accessLog.recorded.length + stores.length ≤ AccessLog.capacity →
    s'.accessLog.recorded = s.accessLog.recorded ++ stores.map loggedWrite

theorem Logs.notify {s : AddressSpace} {store : Store} (h : s.Logs store) (kind : EventKind)
    (address : UInt16) (byte : UInt8) (value : UInt16) :
    s.notify kind address byte value = s := by
  rw [AddressSpace.notify, h.logsWrites, if_pos rfl]

theorem Logs.putByte {s : AddressSpace} {store : Store} (h : s.Logs store) (address : UInt16)
    (value : UInt8) :
    (s.putByte address value).Logs store ∧
      LogGrows s (s.putByte address value) [(address, value)] := by
  have hput : s.putByte address value = s.logAccess (loggedWrite (address, value)) := by
    rw [AddressSpace.putByte, h.logsWrites, if_pos rfl]
    rfl
  rw [hput, logAccess]
  cases hpush : s.accessLog.push? (loggedWrite (address, value)) with
  | some log =>
    refine ⟨⟨h.store_eq, h.logsWrites⟩, fun _ => ?_⟩
    exact AccessLog.recorded_of_push? hpush
  | none =>
    refine ⟨⟨h.store_eq, h.logsWrites⟩, fun hroom => ?_⟩
    have hfull := (s.accessLog.push?_eq_none_iff _).mp hpush
    have hlength := s.accessLog.length_recorded
    simp only [List.length_singleton] at hroom
    omega

theorem LogGrows.trans {s s' s'' : AddressSpace} {first second : List (UInt16 × UInt8)}
    (hfirst : LogGrows s s' first) (hsecond : LogGrows s' s'' second) :
    LogGrows s s'' (first ++ second) := by
  intro hroom
  rw [List.length_append] at hroom
  have hgrown := hfirst (by omega)
  have hroom' : s'.accessLog.recorded.length + second.length ≤ AccessLog.capacity := by
    rw [hgrown, List.length_append, List.length_map]
    omega
  rw [hsecond hroom', hgrown, List.map_append, List.append_assoc]

theorem Logs.perform {s : AddressSpace} {store : Store} (h : s.Logs store) (action : Action) :
    ((action.perform).run s).2.Logs store ∧
      LogGrows s ((action.perform).run s).2 action.stores := by
  cases action with
  | write8 address value =>
    change (s.writeByte address value).Logs store ∧ LogGrows s (s.writeByte address value) _
    rw [writeByte, h.notify]
    exact h.putByte address value
  | write16 address value =>
    change (s.writeWord address value).Logs store ∧ LogGrows s (s.writeWord address value) _
    rw [writeWord, h.notify]
    obtain ⟨hhigh, hgrown⟩ := h.putByte (address + 1) (hiByte value)
    obtain ⟨hlow, hgrown'⟩ := hhigh.putByte address (loByte value)
    exact ⟨hlow, hgrown.trans hgrown'⟩
  | report record =>
    exact ⟨⟨h.store_eq, h.logsWrites⟩, fun _ => (List.append_nil _).symm⟩

/-- Actions on a space whose writes are logged only add to its log. -/
theorem Logs.performAll {s : AddressSpace} {store : Store} (h : s.Logs store)
    (actions : List Action) :
    ((performAll actions).run s).2.Logs store ∧
      LogGrows s ((performAll actions).run s).2 (storesOf actions) := by
  induction actions generalizing s with
  | nil => exact ⟨h, fun _ => (List.append_nil _).symm⟩
  | cons action rest ih =>
    obtain ⟨hfirst, hgrown⟩ := h.perform action
    obtain ⟨hrest, hgrown'⟩ := ih hfirst
    exact ⟨hrest, hgrown.trans hgrown'⟩

/-- Carrying out what the log of a space tells of some stores is carrying out the stores. -/
theorem foldl_loggedWrite (memory : Memory) (stores : List (UInt16 × UInt8)) :
    (stores.map loggedWrite).foldl (fun memory access => memory.set access.address access.value)
      memory = memory.setAll stores :=
  List.foldl_map

end AddressSpace

end Handheld
