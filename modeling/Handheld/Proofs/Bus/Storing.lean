-- SUMMARY: Buses that store: a byte that is written can be read back, and runs of bytes too.
import Handheld.Proofs.AddressSpace.Stores

namespace Handheld

open LawfulBus

/-! ## Buses that store

A lawful bus may do anything with what is written to it: an address space, for
one, keeps nothing while it logs. Here are the buses that do keep it. The
divider is left out, since a store there may leave zero. -/

/-- What is held belongs to a set that every byte write stays in, and a byte written can be read
    back there. -/
structure Storing (β : Type) {γ : Type} [Bus β] [LawfulBus β γ] (P : γ → Prop) : Prop where
  keeps {h : γ} (address : UInt16) (value : UInt8) : P h → P (put8 β address value h)
  reads {h : γ} {address : UInt16} (value : UInt8) (other : UInt16) :
    P h → address ≠ Hardware.divider →
      image β (put8 β address value h) other = if other = address then value else image β h other

/-- The flat bus stores. -/
theorem FlatBus.storing : Storing FlatBus fun _ => True where
  keeps _ _ _ := trivial
  reads {memory _} value other _ _ := memory.get_set _ other value

/-- An address space stores as long as it does not log. -/
theorem AddressSpace.storing : Storing AddressSpace fun s => s.logsWrites = false where
  keeps {s} address value hlog := by
    obtain ⟨memory, hs⟩ := exists_holds_of_not_logsWrites hlog
    exact ((hs.perform (.write8 address value)).1).logsWrites
  reads {s address} value other hlog hne := by
    obtain ⟨memory, hs⟩ := exists_holds_of_not_logsWrites hlog
    have hs' := (hs.perform (.write8 address value)).1
    have hsettled : settled address value = value := if_neg hne
    have hbefore : image AddressSpace s other = memory.get other := hs.peek other
    refine (hs'.peek other).trans ?_
    rw [hbefore]
    exact (memory.get_set address other _).trans (by rw [hsettled])

/-- The same for a set of places: a byte written to one of them can be read back. -/
structure StoringAt (β : Type) {γ : Type} [Bus β] [LawfulBus β γ] (P : γ → Prop)
    (place : UInt16 → Prop) : Prop where
  keeps {h : γ} (address : UInt16) (value : UInt8) : P h → P (put8 β address value h)
  reads {h : γ} {address : UInt16} (value : UInt8) (other : UInt16) :
    P h → place address →
      image β (put8 β address value h) other = if other = address then value else image β h other

theorem Storing.storingAt {β γ : Type} [Bus β] [LawfulBus β γ] {P : γ → Prop}
    (h : Storing β P) : StoringAt β P (· ≠ Hardware.divider) :=
  ⟨h.keeps, h.reads⟩

/-- On the flat bus the divider is a place like any other. -/
theorem FlatBus.storingAt : StoringAt FlatBus (fun _ => True) fun _ => True where
  keeps _ _ _ := trivial
  reads {memory _} value other _ _ := memory.get_set _ other value

/-- Byte writes, as actions. -/
def writeAll (stores : List (UInt16 × UInt8)) : List Action :=
  stores.map fun store => .write8 store.1 store.2

theorem storesOf_writeAll (stores : List (UInt16 × UInt8)) : storesOf (writeAll stores) = stores := by
  rw [storesOf, writeAll, List.flatMap_map]
  exact List.flatMap_singleton' stores

/-- After byte writes the byte at an address is the last one that was written there. -/
theorem Storing.putAll {β γ : Type} [Bus β] [LawfulBus β γ] {P : γ → Prop}
    (hstoring : Storing β P) {h : γ} (hP : P h) {stores : List (UInt16 × UInt8)}
    (hdivider : ∀ store ∈ stores, store.1 ≠ Hardware.divider) :
    P (Handheld.putAll (β := β) (writeAll stores) h) ∧
      ∀ address, image β (Handheld.putAll (β := β) (writeAll stores) h) address =
        lastStored stores address (image β h address) := by
  induction stores generalizing h with
  | nil => exact ⟨hP, fun _ => rfl⟩
  | cons store rest ih =>
    have hfirst := hstoring.keeps store.1 store.2 hP
    obtain ⟨hrest, hlast⟩ := ih hfirst fun later hlater => hdivider later (.tail _ hlater)
    refine ⟨hrest, fun address => (hlast address).trans ?_⟩
    rw [hstoring.reads store.2 address hP (hdivider store (.head _)), lastStored, lastStored,
      List.foldl_cons]
    simp only [eq_comm]

/-! ### Runs of bytes -/

/-- Bytes at the addresses from zero up, in ascending order. -/
def ascending (n : Nat) (byte : Nat → UInt8) : List (UInt16 × UInt8) :=
  (List.range n).map fun k => (UInt16.ofNat k, byte k)

theorem lastStored_concat (stores : List (UInt16 × UInt8)) (store : UInt16 × UInt8)
    (address : UInt16) (before : UInt8) :
    lastStored (stores ++ [store]) address before =
      if store.1 = address then store.2 else lastStored stores address before := by
  rw [lastStored, List.foldl_append]
  rfl

/-- Each of the addresses holds its byte. -/
theorem lastStored_ascending {n : Nat} (byte : Nat → UInt8) {k : Nat} (before : UInt8)
    (hk : k < n) (hn : n ≤ memorySize) :
    lastStored (ascending n byte) (UInt16.ofNat k) before = byte k := by
  induction n with
  | zero => cases hk
  | succ n ih =>
    have hsize : memorySize = 65536 := rfl
    have hlast : ascending (n + 1) byte = ascending n byte ++ [(UInt16.ofNat n, byte n)] := by
      rw [ascending, List.range_succ, List.map_append]
      rfl
    rw [hlast, lastStored_concat]
    by_cases hhere : n = k
    · rw [if_pos (congrArg UInt16.ofNat hhere), hhere]
    · have hne : UInt16.ofNat n ≠ UInt16.ofNat k := by
        intro heq
        have hnat := congrArg UInt16.toNat heq
        rw [UInt16.toNat_ofNat', UInt16.toNat_ofNat', Nat.mod_eq_of_lt (by omega),
          Nat.mod_eq_of_lt (by omega)] at hnat
        exact hhere hnat
      rw [if_neg hne]
      exact ih (by omega) (by omega)

/-! ### Bytes below an address

A stack grows from its base towards lower addresses, and past zero it goes on
from the end of memory. -/

/-- An address is one of the `n` bytes below another one, around the end of memory if need be. -/
def Below (base : UInt16) (n : Nat) (address : UInt16) : Prop :=
  ∃ k < n, address = base - UInt16.ofNat (k + 1)

theorem below_iff {base : UInt16} {n : Nat} {address : UInt16} :
    Below base n address ↔ (base - 1 - address).toNat < n := by
  have hback (k : Nat) : base - 1 - (base - UInt16.ofNat (k + 1)) = UInt16.ofNat k := by
    rw [UInt16.ofNat_add]
    grind
  constructor
  · rintro ⟨k, hk, rfl⟩
    rw [hback, UInt16.toNat_ofNat']
    exact Nat.lt_of_le_of_lt (Nat.mod_le ..) hk
  · intro hlt
    refine ⟨_, hlt, ?_⟩
    rw [UInt16.ofNat_add, UInt16.ofNat_toNat]
    grind

instance (base : UInt16) (n : Nat) (address : UInt16) : Decidable (Below base n address) :=
  decidable_of_iff _ below_iff.symm

theorem Below.mono {base : UInt16} {n n' : Nat} {address : UInt16} (h : Below base n address)
    (hle : n ≤ n') : Below base n' address := by
  obtain ⟨k, hk, rfl⟩ := h
  exact ⟨k, Nat.lt_of_lt_of_le hk hle, rfl⟩

/-- The bytes below an address are the word below it and the bytes below that. -/
theorem below_add_two {base : UInt16} {n : Nat} {address : UInt16} :
    Below base (n + 2) address ↔
      address = base - 1 ∨ address = base - 2 ∨ Below (base - 2) n address := by
  have hdeeper (k : Nat) : base - UInt16.ofNat (k + 2 + 1) = base - 2 - UInt16.ofNat (k + 1) := by
    rw [Nat.add_right_comm, UInt16.ofNat_add]
    grind
  constructor
  · rintro ⟨_ | _ | k, hk, rfl⟩
    · exact .inl rfl
    · exact .inr (.inl rfl)
    · exact .inr (.inr ⟨k, by omega, hdeeper k⟩)
  · rintro (rfl | rfl | ⟨k, hk, rfl⟩)
    · exact ⟨0, by omega, rfl⟩
    · exact ⟨1, by omega, rfl⟩
    · exact ⟨k + 2, by omega, (hdeeper k).symm⟩

/-- Only a window smaller than memory leaves an address out. -/
theorem lt_memorySize_of_not_below {base : UInt16} {n : Nat} {address : UInt16}
    (h : ¬Below base n address) : n < memorySize := by
  rw [below_iff, Nat.not_lt] at h
  exact Nat.lt_of_le_of_lt h (base - 1 - address).toNat_lt

end Handheld
