-- SUMMARY: The bounded log of suppressed writes.
import Handheld.Access

namespace Handheld

/-! ## The access log

The log has a fixed number of slots and a count of those in use. Clearing or
replacing its contents only resets the count, so slots past it keep what was
last written to them. -/

/-- The number of slots of an access log. -/
def AccessLog.capacity : Nat := 16

/-- A bounded log of accesses. -/
structure AccessLog where
  slots : Vector Access AccessLog.capacity := Vector.replicate _ {}
  /-- The number of slots in use. -/
  length : Nat := 0
  length_le : length ≤ AccessLog.capacity := by exact Nat.zero_le _
deriving DecidableEq

namespace AccessLog

instance : Inhabited AccessLog := ⟨{}⟩

/-- The log with one more access, or `none` when every slot is in use. -/
def push? (log : AccessLog) (access : Access) : Option AccessLog :=
  if h : log.length < capacity then
    some { slots := log.slots.set log.length access, length := log.length + 1, length_le := h }
  else none

/-- The log with every slot replaced and none in use. -/
def restore (slots : Vector Access capacity) : AccessLog where
  slots := slots

/-- The log with no slot in use. -/
def clear (log : AccessLog) : AccessLog :=
  restore log.slots

/-- The accesses in the slots in use, oldest first. -/
def recorded (log : AccessLog) : List Access :=
  log.slots.toList.take log.length

theorem push?_eq_none_iff (log : AccessLog) (access : Access) :
    log.push? access = none ↔ log.length = capacity := by
  have := log.length_le
  simp only [push?]
  split <;> simp <;> omega

theorem length_of_push? {log log' : AccessLog} {access : Access}
    (h : log.push? access = some log') : log'.length = log.length + 1 := by
  simp only [push?] at h
  split at h
  · cases h
    rfl
  · contradiction

theorem recorded_of_push? {log log' : AccessLog} {access : Access}
    (h : log.push? access = some log') : log'.recorded = log.recorded ++ [access] := by
  simp only [push?] at h
  split at h
  · next lt =>
    cases h
    simp only [recorded]
    rw [List.take_add_one]
    simp [Vector.toList_set, List.take_set_of_le, lt]
  · contradiction

theorem toList_slots_of_push? {log log' : AccessLog} {access : Access}
    (h : log.push? access = some log') :
    log'.slots.toList = log.slots.toList.set log.length access := by
  simp only [push?] at h
  split at h
  · next room =>
    cases h
    exact Vector.toList_set room
  · contradiction

@[simp] theorem recorded_restore (slots : Vector Access capacity) : (restore slots).recorded = [] := by
  simp [restore, recorded]

@[simp] theorem recorded_clear (log : AccessLog) : log.clear.recorded = [] :=
  recorded_restore _

end AccessLog

end Handheld
