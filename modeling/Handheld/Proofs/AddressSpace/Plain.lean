-- SUMMARY: Every sequence of uses of an address space gives the answers of a plain memory beside an unbounded list of logged writes.
import Handheld.Proofs.AddressSpace.Stores

namespace Handheld

/-! ## Plain spaces

A plain space has none of the machinery of an address space: a byte for every
address, and a list of the writes that were logged, however many they are. What
the bounded log shows is the start of that list, over the entries that were in
the log when it was last emptied. -/

/-- What programs can find out about an address space. -/
structure PlainSpace where
  /-- The byte that is read at each address. -/
  bytes : Image
  /-- Whether the bytes belong to somebody else and must not change. -/
  borrowed : Bool
  /-- Whether writes are logged in place of being made. -/
  logging : Bool
  /-- The writes logged since the log was last cleared or restored, oldest first. -/
  logged : List Access := []
  /-- What stood in the slots of the log then. -/
  entries : List Access := List.replicate 16 {}

namespace PlainSpace

/-- A space of its own, all zeros. -/
def owned : PlainSpace where
  bytes _ := 0
  borrowed := false
  logging := false

/-- A window on the first `size` bytes of a buffer, or on all of it if it is shorter. -/
def lent (size : Nat) (buffer : ByteArray) : PlainSpace where
  bytes address :=
    if inside : address.toNat < min size buffer.size then
      buffer.get address.toNat (Nat.lt_of_lt_of_le inside (Nat.min_le_right ..))
    else 0xAA
  borrowed := true
  logging := true

/-- Changes a byte, unless it is borrowed. -/
def poke (p : PlainSpace) (address : UInt16) (value : UInt8) : PlainSpace :=
  if p.borrowed then p
  else { p with bytes := fun other => if other = address then value else p.bytes other }

/-- Puts bytes at `base` and the addresses after it as far as there are any, unless those are
    borrowed. -/
def load (p : PlainSpace) (base : UInt16) (data : ByteArray) : PlainSpace :=
  if p.borrowed then p
  else
    { p with
      bytes := fun address =>
        if inside : base.toNat ≤ address.toNat ∧ address.toNat < base.toNat + data.size then
          data.get (address.toNat - base.toNat) (Nat.sub_lt_left_of_lt_add inside.1 inside.2)
        else p.bytes address }

/-- Logs an access. -/
def log (p : PlainSpace) (access : Access) : PlainSpace :=
  { p with logged := p.logged ++ [access] }

/-- Writes a byte, to the memory or to the log and never to both. At the divider it is a zero. -/
def write (p : PlainSpace) (address : UInt16) (value : UInt8) : PlainSpace :=
  let value := if address = 0xFF04 then 0 else value
  if p.logging then p.log ⟨.write, address, value⟩ else p.poke address value

/-- The logged writes for which the log has room: the first sixteen. -/
def recorded (p : PlainSpace) : List Access :=
  p.logged.take 16

/-- All slots of the log, those past the recorded writes included. -/
def slots (p : PlainSpace) : List Access :=
  p.recorded ++ p.entries.drop p.recorded.length

theorem recorded_log_of_room {p : PlainSpace} (access : Access) (h : p.recorded.length < 16) :
    (p.log access).recorded = p.recorded ++ [access] := by
  have hall : p.logged.length < 16 := by
    simp only [recorded, List.length_take] at h
    omega
  rw [recorded, recorded, log, List.take_of_length_le (Nat.le_of_lt hall)]
  exact List.take_of_length_le (by rw [List.length_append]; exact hall)

theorem recorded_log_of_full {p : PlainSpace} (access : Access) (h : p.recorded.length = 16) :
    (p.log access).recorded = p.recorded := by
  simp only [recorded, List.length_take] at h
  exact List.take_append_of_le_length (by omega)

/-- The space with an empty log over the given entries. -/
def emptied (p : PlainSpace) (entries : List Access) : PlainSpace :=
  { p with logged := [], entries }

end PlainSpace

/-! ## Requests -/

/-- One use of an address space. -/
inductive Request where
  | readByte (address : UInt16)
  | readWord (address : UInt16)
  | writeByte (address : UInt16) (value : UInt8)
  | writeWord (address value : UInt16)
  | peek (address : UInt16)
  | poke (address : UInt16) (value : UInt8)
  | load (base : UInt16) (data : ByteArray)
  /-- Turns the logging of writes on or off. -/
  | logWrites (enabled : Bool)
  | clearLog
  | restoreLog (entries : Vector Access AccessLog.capacity)

/-- What a request returns. -/
inductive Reply where
  | byte (value : UInt8)
  | word (value : UInt16)
  | done
deriving DecidableEq, Repr

namespace Request

/-- A request made of an address space. -/
def serve (s : AddressSpace) : Request → Reply × AddressSpace
  | readByte address =>
    let (value, s) := (AddressSpace.readByte address).run s
    (.byte value, s)
  | readWord address =>
    let (value, s) := (AddressSpace.readWord address).run s
    (.word value, s)
  | writeByte address value => (.done, s.writeByte address value)
  | writeWord address value => (.done, s.writeWord address value)
  | peek address => (.byte (s.peek address), s)
  | poke address value => (.done, s.poke address value)
  | load base data => (.done, s.load base data)
  | logWrites enabled => (.done, { s with logSwitch := enabled })
  | clearLog => (.done, { s with accessLog := s.accessLog.clear })
  | restoreLog entries => (.done, { s with accessLog := .restore entries })

/-- The same request made of a plain space. -/
def servePlain (p : PlainSpace) : Request → Reply × PlainSpace
  | readByte address | peek address => (.byte (p.bytes address), p)
  | readWord address => (.word (word (p.bytes (address + 1)) (p.bytes address)), p)
  | writeByte address value => (.done, p.write address value)
  | writeWord address value =>
    (.done, (p.write (address + 1) (hiByte value)).write address (loByte value))
  | poke address value => (.done, p.poke address value)
  | load base data => (.done, p.load base data)
  | logWrites enabled => (.done, { p with logging := enabled || p.borrowed })
  | clearLog => (.done, p.emptied p.slots)
  | restoreLog entries => (.done, p.emptied entries.toList)

/-- Makes several requests in order, and returns all replies. -/
def all {σ : Type} (serve : σ → Request → Reply × σ) (s : σ) : List Request → List Reply × σ
  | [] => ([], s)
  | request :: rest =>
    let (reply, s) := serve s request
    let (replies, s) := all serve s rest
    (reply :: replies, s)

end Request

/-! ## Refinement -/

namespace AddressSpace

/-- An address space that nobody can tell from a plain one. -/
structure Refines (s : AddressSpace) (p : PlainSpace) : Prop where
  peek : ∀ address, s.peek address = p.bytes address
  borrowed : s.store.isBorrowed = p.borrowed
  logging : s.logsWrites = p.logging
  recorded : s.accessLog.recorded = p.recorded
  slots : s.accessLog.slots.toList = p.slots

variable {s : AddressSpace} {p : PlainSpace}

theorem Refines.of_quiet {s' : AddressSpace} (h : s.Refines p) (hsame : s'.quiet = s.quiet) :
    s'.Refines p := by
  have hpeek (address : UInt16) : s'.peek address = s.peek address :=
    congrArg (·.peek address) hsame
  have hborrowed : s'.store.isBorrowed = s.store.isBorrowed :=
    congrArg (·.store.isBorrowed) hsame
  have hlogging : s'.logsWrites = s.logsWrites := congrArg (·.logsWrites) hsame
  have hlog : s'.accessLog = s.accessLog := congrArg (·.accessLog) hsame
  refine ⟨fun address => (hpeek address).trans (h.peek address), hborrowed.trans h.borrowed,
    hlogging.trans h.logging, ?_, ?_⟩
  · rw [hlog, h.recorded]
  · rw [hlog, h.slots]

theorem Refines.notify (h : s.Refines p) (kind : EventKind) (address : UInt16) (byte : UInt8)
    (value : UInt16) : (s.notify kind address byte value).Refines p := by
  unfold AddressSpace.notify
  split
  · exact h
  · exact ⟨h.peek, h.borrowed, h.logging, h.recorded, h.slots⟩

theorem Refines.poke (h : s.Refines p) (address : UInt16) (value : UInt8) :
    (s.poke address value).Refines (p.poke address value) := by
  unfold PlainSpace.poke
  cases hstore : s.store with
  | borrowed buffer limit limit_le =>
    have hborrowed : p.borrowed = true := by
      rw [← h.borrowed, hstore]
      rfl
    have hsame : s.poke address value = s := by
      rw [AddressSpace.poke, hstore, Store.poke, ← hstore]
    rw [if_pos hborrowed, hsame]
    exact h
  | owned memory =>
    have hborrowed : p.borrowed = false := by
      rw [← h.borrowed, hstore]
      rfl
    have hkind : (s.poke address value).store.isBorrowed = s.store.isBorrowed :=
      Store.isBorrowed_poke ..
    rw [hborrowed, if_neg Bool.false_ne_true]
    refine ⟨fun other => ?_, hkind.trans (h.borrowed.trans hborrowed), ?_, h.recorded, h.slots⟩
    · dsimp only
      split
      · next hhere =>
        rw [hhere]
        exact peek_poke_self hstore address value
      · next hother => rw [s.peek_poke_of_ne value hother, h.peek]
    · rw [← h.logging, logsWrites, logsWrites, hkind]
      rfl

theorem Refines.load (h : s.Refines p) (base : UInt16) (data : ByteArray) :
    (s.load base data).Refines (p.load base data) := by
  have hkind : (s.load base data).store.isBorrowed = s.store.isBorrowed := by
    change (s.store.load base data).isBorrowed = _
    cases s.store <;> rfl
  unfold PlainSpace.load
  cases hstore : s.store with
  | borrowed buffer limit limit_le =>
    have hborrowed : p.borrowed = true := by
      rw [← h.borrowed, hstore]
      rfl
    have hsame : s.load base data = s := by
      rw [AddressSpace.load, hstore, Store.load, ← hstore]
    rw [if_pos hborrowed, hsame]
    exact h
  | owned memory =>
    have hborrowed : p.borrowed = false := by
      rw [← h.borrowed, hstore]
      rfl
    have hread (address : UInt16) : (s.load base data).peek address =
        (memory.load base data).get address := by
      rw [AddressSpace.peek, AddressSpace.load, hstore]
      rfl
    have hbefore (address : UInt16) : memory.get address = p.bytes address := by
      rw [← h.peek, AddressSpace.peek, hstore, Store.peek_owned]
    rw [hborrowed, if_neg Bool.false_ne_true]
    refine ⟨fun address => ?_, hkind.trans (h.borrowed.trans hborrowed),
      (s.logsWrites_load base data).trans h.logging, h.recorded, h.slots⟩
    rw [hread, Memory.get_load, hbefore]

/-- The slots of a log once one more access has been recorded over the entries that it had. -/
theorem set_append_drop {α : Type} (front entries : List α) (a : α)
    (room : front.length < entries.length) :
    (front ++ entries.drop front.length).set front.length a =
      (front ++ [a]) ++ entries.drop (front ++ [a]).length := by
  rw [List.set_append_right _ _ (Nat.le_refl _), Nat.sub_self, List.drop_eq_getElem_cons room,
    List.set_cons_zero, List.length_append, List.length_singleton, List.append_assoc]
  rfl

theorem Refines.logAccess (h : s.Refines p) (access : Access) :
    (s.logAccess access).Refines (p.log access) := by
  have hlength : s.accessLog.length = p.recorded.length := by
    rw [← h.recorded, AccessLog.length_recorded]
  unfold AddressSpace.logAccess
  cases hpush : s.accessLog.push? access with
  | none =>
    have hkept : (p.log access).recorded = p.recorded := by
      apply PlainSpace.recorded_log_of_full
      rw [← hlength]
      exact (s.accessLog.push?_eq_none_iff access).mp hpush
    refine ⟨h.peek, h.borrowed, h.logging, h.recorded.trans hkept.symm, h.slots.trans ?_⟩
    rw [PlainSpace.slots, PlainSpace.slots, hkept]
    rfl
  | some log =>
    have hroom : p.recorded.length < 16 := by
      have hle := log.length_le
      rw [AccessLog.length_of_push? hpush, hlength] at hle
      exact hle
    have hentries : p.recorded.length < p.entries.length := by
      have hall := congrArg List.length h.slots
      rw [Vector.length_toList, PlainSpace.slots, List.length_append, List.length_drop,
        AccessLog.capacity] at hall
      omega
    have hgrown := PlainSpace.recorded_log_of_room access hroom
    refine ⟨h.peek, h.borrowed, h.logging, ?_, ?_⟩
    · rw [AccessLog.recorded_of_push? hpush, h.recorded, hgrown]
    · rw [AccessLog.toList_slots_of_push? hpush, h.slots, hlength, PlainSpace.slots,
        PlainSpace.slots, hgrown]
      exact set_append_drop _ _ _ hentries

theorem Refines.putByte (h : s.Refines p) (address : UInt16) (value : UInt8) :
    (s.putByte address value).Refines (p.write address value) := by
  have hlogging := h.logging
  unfold AddressSpace.putByte PlainSpace.write
  rw [hlogging]
  dsimp only
  split
  · exact h.logAccess _
  · exact h.poke address _

/-- A log over the given entries with none of its slots in use. -/
theorem Refines.emptied (h : s.Refines p) (entries : Vector Access AccessLog.capacity) :
    { s with accessLog := .restore entries }.Refines (p.emptied entries.toList) where
  peek := h.peek
  borrowed := h.borrowed
  logging := h.logging
  recorded := AccessLog.recorded_restore entries
  slots := rfl

end AddressSpace

namespace Request

/-- A request is answered the same way, and afterwards the spaces are still the same. -/
theorem serve_refines {s : AddressSpace} {p : PlainSpace} (h : s.Refines p) (request : Request) :
    (request.serve s).1 = (request.servePlain p).1 ∧
      (request.serve s).2.Refines (request.servePlain p).2 := by
  cases request with
  | readByte address => exact ⟨congrArg Reply.byte (h.peek address), h.notify ..⟩
  | readWord address =>
    have hvalue : ((AddressSpace.readWord address).run s).1 =
        word (p.bytes (address + 1)) (p.bytes address) := by
      rw [← h.peek, ← h.peek]
      exact LawfulBus.read16_value address s
    exact ⟨congrArg Reply.word hvalue, h.of_quiet (LawfulBus.read16_held address s)⟩
  | writeByte address value => exact ⟨rfl, (h.notify ..).putByte address value⟩
  | writeWord address value =>
    exact ⟨rfl, ((h.notify ..).putByte (address + 1) _).putByte address _⟩
  | peek address => exact ⟨congrArg Reply.byte (h.peek address), h⟩
  | poke address value => exact ⟨rfl, h.poke address value⟩
  | load base data => exact ⟨rfl, h.load base data⟩
  | logWrites enabled =>
    exact ⟨rfl, h.peek, h.borrowed, congrArg (enabled || ·) h.borrowed, h.recorded, h.slots⟩
  | clearLog =>
    refine ⟨rfl, ?_⟩
    rw [servePlain, ← h.slots]
    exact h.emptied s.accessLog.slots
  | restoreLog entries => exact ⟨rfl, h.emptied entries⟩

theorem all_refines {s : AddressSpace} {p : PlainSpace} (h : s.Refines p)
    (requests : List Request) :
    (all serve s requests).1 = (all servePlain p requests).1 ∧
      (all serve s requests).2.Refines (all servePlain p requests).2 := by
  induction requests generalizing s p with
  | nil => exact ⟨rfl, h⟩
  | cons request rest ih =>
    obtain ⟨hreply, hserved⟩ := serve_refines h request
    obtain ⟨hreplies, hrest⟩ := ih hserved
    refine ⟨?_, hrest⟩
    change (serve s request).1 :: (all serve (serve s request).2 rest).1 = _
    rw [hreply, hreplies]
    rfl

end Request

/-! ## Bounds

Bytes and slots are found by index. An address below the size of the store is an
index of its bytes, the others are never looked up, and the log never counts
more slots than it has. -/

namespace Store

theorem behind?_of_lt_size {store : Store} {address : UInt16} (inside : address.toNat < store.size) :
    store.behind? address = some (store.peek address) := by
  cases store with
  | owned memory => exact dif_pos (memory.toNat_lt_size address)
  | borrowed buffer limit limit_le =>
    have hbyte : (borrowed buffer limit limit_le).peek address =
        buffer.get address.toNat (Nat.lt_of_lt_of_le inside limit_le) := dif_pos inside
    rw [hbyte]
    exact dif_pos _

theorem peek_of_size_le {store : Store} {address : UInt16} (outside : store.size ≤ address.toNat) :
    store.peek address = openBus := by
  cases store with
  | owned memory => exact absurd address.toNat_lt (Nat.not_lt.mpr outside)
  | borrowed buffer limit limit_le => exact dif_neg (Nat.not_lt.mpr outside)

end Store

namespace AddressSpace

/-- Every index that a request can lead to is within what it indexes. -/
structure InRange (s : AddressSpace) : Prop where
  /-- What is read below the size is a byte behind the store. -/
  behind : ∀ address, address.toNat < s.store.size →
    s.store.behind? address = some (s.peek address)
  beyond : ∀ address, s.store.size ≤ address.toNat → s.peek address = 0xAA
  /-- A store that can be changed reaches to the last address. -/
  whole : s.store.isBorrowed = false → s.store.size = 0x10000
  slots : s.accessLog.length ≤ 16
  logging : s.store.isBorrowed = true → s.logsWrites = true

theorem inRange (s : AddressSpace) : s.InRange where
  behind _ inside := Store.behind?_of_lt_size inside
  beyond _ outside := Store.peek_of_size_le outside
  whole howned := by
    cases hstore : s.store with
    | owned memory => rfl
    | borrowed buffer limit limit_le =>
      rw [hstore] at howned
      cases howned
  slots := s.accessLog.length_le
  logging hborrowed := by rw [logsWrites, hborrowed, Bool.or_true]

theorem refines_owned : (default : AddressSpace).Refines .owned where
  peek address := Memory.get_zero address
  borrowed := rfl
  logging := rfl
  recorded := rfl
  slots := rfl

theorem refines_lent (size : Nat) (buffer : ByteArray) :
    (borrow size buffer).Refines (.lent size buffer) where
  peek _ := rfl
  borrowed := rfl
  logging := rfl
  recorded := rfl
  slots := rfl

end AddressSpace

namespace Request

/-- Nothing that a request does reaches a borrowed buffer. -/
theorem store_serve_of_borrowed {s : AddressSpace} (hborrowed : s.store.isBorrowed = true)
    (request : Request) : (request.serve s).2.store = s.store := by
  cases hstore : s.store with
  | owned memory =>
    rw [hstore] at hborrowed
    cases hborrowed
  | borrowed buffer limit limit_le =>
    have hlogs : s.Logs (.borrowed buffer limit limit_le) :=
      ⟨hstore, by rw [AddressSpace.logsWrites, hborrowed, Bool.or_true]⟩
    cases request with
    | readByte address => exact (s.store_notify ..).trans hstore
    | readWord address =>
      exact (congrArg (·.store) (LawfulBus.read16_held address s)).trans hstore
    | writeByte address value => exact (hlogs.perform (.write8 address value)).1.store_eq
    | writeWord address value => exact (hlogs.perform (.write16 address value)).1.store_eq
    | poke address value => exact congrArg (Store.poke · address value) hstore
    | load base data => exact congrArg (Store.load · base data) hstore
    | _ => exact hstore

theorem store_all_of_borrowed {s : AddressSpace} (hborrowed : s.store.isBorrowed = true)
    (requests : List Request) : (all serve s requests).2.store = s.store := by
  induction requests generalizing s with
  | nil => rfl
  | cons request rest ih =>
    have hserved := store_serve_of_borrowed hborrowed request
    have hstill : (serve s request).2.store.isBorrowed = true := by rw [hserved, hborrowed]
    exact (ih hstill).trans hserved

/-- Every sequence of requests to a new address space, and to one over a borrowed buffer, is
    answered as the plain space answers it, and leaves a space that nobody can tell from the plain
    one: the same byte at each address, the same place for writes to go, and as many of the logged
    writes, from the first one on, as the log has room for. No index is out of range on the way,
    and a borrowed buffer is as it was. -/
theorem answers_as_plain (requests : List Request) :
    (let ran := all serve default requests
      let plain := all servePlain .owned requests
      ran.1 = plain.1 ∧ ran.2.Refines plain.2 ∧ ran.2.InRange ∧
        ran.2.accessLog.length = min 16 plain.2.logged.length) ∧
      ∀ size buffer,
        let ran := all serve (.borrow size buffer) requests
        let plain := all servePlain (.lent size buffer) requests
        ran.1 = plain.1 ∧ ran.2.Refines plain.2 ∧ ran.2.InRange ∧
          ran.2.accessLog.length = min 16 plain.2.logged.length ∧
          ran.2.store = .borrow size buffer := by
  have hlength {s : AddressSpace} {p : PlainSpace} (h : s.Refines p) :
      s.accessLog.length = min 16 p.logged.length := by
    rw [← AccessLog.length_recorded, h.recorded]
    exact List.length_take ..
  constructor
  · obtain ⟨hreplies, hrefines⟩ := all_refines AddressSpace.refines_owned requests
    exact ⟨hreplies, hrefines, AddressSpace.inRange _, hlength hrefines⟩
  · intro size buffer
    obtain ⟨hreplies, hrefines⟩ := all_refines (AddressSpace.refines_lent size buffer) requests
    exact ⟨hreplies, hrefines, AddressSpace.inRange _, hlength hrefines,
      store_all_of_borrowed rfl requests⟩

/-- A word can straddle the end of the log: its high byte takes the last slot, here as a zero for
    the divider, and its low byte is lost. -/
example :
    let requests := List.replicate 15 (writeByte 0 1) ++ [writeWord 0xFF03 0xABCD]
    (all serve (.borrow 0 .empty) requests).2.accessLog.recorded.drop 15 =
      [⟨.write, 0xFF04, 0⟩] := by decide

end Request

end Handheld
