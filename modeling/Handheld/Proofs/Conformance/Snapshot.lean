-- SUMMARY: A snapshot says all about a conformance session that a tester can find out later.
import Handheld.Proofs.AddressSpace.Plain
import Handheld.Proofs.Conformance.Faithful
import Handheld.Proofs.Cpu.Faults

namespace Handheld

/-! ## Stores on a plain space -/

namespace PlainSpace

/-- Writes several bytes, in order. -/
def writeAll (p : PlainSpace) (stores : List (UInt16 × UInt8)) : PlainSpace :=
  stores.foldl (fun p store => p.write store.1 store.2) p

/-- Logs several accesses, in order. -/
def logAll (p : PlainSpace) (accesses : List Access) : PlainSpace :=
  { p with logged := p.logged ++ accesses }

theorem writeAll_append (p : PlainSpace) (first second : List (UInt16 × UInt8)) :
    p.writeAll (first ++ second) = (p.writeAll first).writeAll second :=
  List.foldl_append

@[simp] theorem logAll_nil (p : PlainSpace) : p.logAll [] = p := by
  simp [logAll]

@[simp] theorem logAll_logAll (p : PlainSpace) (first second : List Access) :
    (p.logAll first).logAll second = p.logAll (first ++ second) := by
  simp [logAll]

/-- While writes are logged, nothing but the list of them changes. -/
theorem writeAll_of_logging {p : PlainSpace} (hlogging : p.logging = true)
    (stores : List (UInt16 × UInt8)) :
    p.writeAll stores = p.logAll (stores.map AddressSpace.loggedWrite) := by
  induction stores generalizing p with
  | nil => simp [writeAll]
  | cons store rest ih =>
    have hfirst : p.write store.1 store.2 = p.logAll [AddressSpace.loggedWrite store] := by
      simp only [write, hlogging, if_true]
      rfl
    have hrest := ih (p := p.write store.1 store.2) (by rw [hfirst]; exact hlogging)
    refine Eq.trans hrest ?_
    simp [hfirst]

end PlainSpace

namespace AddressSpace

variable {s : AddressSpace} {p : PlainSpace}

theorem Refines.perform (h : s.Refines p) (action : Action) :
    ((action.perform).run s).2.Refines (p.writeAll action.stores) := by
  cases action with
  | write8 address value => exact (h.notify ..).putByte address value
  | write16 address value =>
    exact ((h.notify ..).putByte (address + 1) (hiByte value)).putByte address (loByte value)
  | report record => exact h.of_quiet rfl

theorem Refines.performAll (h : s.Refines p) (actions : List Action) :
    ((performAll actions).run s).2.Refines (p.writeAll (storesOf actions)) := by
  induction actions generalizing s p with
  | nil => exact h
  | cons action rest ih =>
    rw [storesOf, List.flatMap_cons, PlainSpace.writeAll_append]
    exact ih (h.perform action)

end AddressSpace

/-! ## What snapshots hold -/

theorem Flags.toByte_ofByte (b : UInt8) : (ofByte b).toByte = b &&& 0xF0 :=
  forall_byte (P := fun b => (ofByte b).toByte = b &&& 0xF0) (by decide +kernel) b

/-- The processor that a snapshot sets. -/
def CpuSnapshot.processor (s : CpuSnapshot) (config : Cpu.Config) : Cpu where
  regs := s.registers
  ime := s.interruptsEnabled
  halted := s.halted
  config

theorem CpuSnapshot.describes_processor (s : CpuSnapshot) (config : Cpu.Config) :
    s.Describes (s.processor config) := ⟨rfl, rfl, rfl⟩

namespace ConformanceSession

theorem get_set (session : ConformanceSession) (s : CpuSnapshot) :
    (session.set s).get = { s with f := s.f &&& 0xF0, accessCount := 0 } := by
  simp only [get, set, Flags.toByte_ofByte, AccessLog.restore]

theorem describes_get (session : ConformanceSession) : session.get.Describes session.cpu where
  regs := by simp only [get, CpuSnapshot.registers, Flags.ofByte_toByte]
  ime := rfl
  halted := rfl

/-! ## What a session shows

Of its processor a session shows everything but the cost of the latest step, and
of its memory it shows a plain space. -/

/-- Testers find a processor, whatever its latest step has cost, and a plain space. -/
structure Shows (session : ConformanceSession) (cpu : Cpu) (p : PlainSpace) : Prop where
  cpu_eq : session.cpu = cpu.timed session.cpu.cycles
  refines : session.memory.Refines p

/-- The writes that the next step attempts, in order. -/
def attempted (session : ConformanceSession) : List Access :=
  (storesOf (session.cpu.outcome session.memory.peek).2).map AddressSpace.loggedWrite

variable {size : Nat} {buffer : ByteArray} {config : Cpu.Config}
  {session a b : ConformanceSession} {cpu : Cpu} {p q : PlainSpace}

theorem Shows.regs_eq (h : session.Shows cpu p) : session.cpu.regs = cpu.regs := by
  rw [h.cpu_eq]
  rfl

theorem Shows.ime_eq (h : session.Shows cpu p) : session.cpu.ime = cpu.ime := by
  rw [h.cpu_eq]
  rfl

theorem Shows.halted_eq (h : session.Shows cpu p) : session.cpu.halted = cpu.halted := by
  rw [h.cpu_eq]
  rfl

theorem Shows.outcome_eq (h : session.Shows cpu p) :
    session.cpu.outcome session.memory.peek = cpu.outcome p.bytes := by
  have hpeek : session.memory.peek = p.bytes := funext h.refines.peek
  rw [hpeek, h.cpu_eq, Cpu.outcome_timed]

theorem Shows.step_fst (h : session.Shows cpu p) :
    session.step.1 = (cpu.outcome p.bytes).1.1 := by
  rw [ConformanceSession.step_fst, h.outcome_eq]

theorem Shows.attempted_eq (h : session.Shows cpu p) :
    session.attempted = (storesOf (cpu.outcome p.bytes).2).map AddressSpace.loggedWrite := by
  rw [attempted, h.outcome_eq]

theorem Shows.step (h : session.Shows cpu p) (hlogging : p.logging = true) :
    session.step.2.Shows (cpu.outcome p.bytes).1.2 (p.logAll session.attempted) := by
  refine ⟨?_, ?_⟩
  · rw [step_cpu, h.outcome_eq]
    rfl
  · rw [attempted, ← PlainSpace.writeAll_of_logging hlogging]
    exact (h.refines.performAll _).of_quiet (Cpu.step_quiet session.cpu session.memory)

theorem Shows.accesses (h : session.Shows cpu p) : session.get.accesses.toList = p.slots :=
  h.refines.slots

theorem Shows.logged (h : session.Shows cpu p) : session.get.logged = p.recorded :=
  h.refines.recorded

theorem Shows.accessCount (h : session.Shows cpu p) :
    session.get.accessCount = min 16 p.logged.length := by
  have hcount := AccessLog.length_recorded session.memory.accessLog
  rw [h.refines.recorded, PlainSpace.recorded, List.length_take] at hcount
  exact hcount.symm

theorem Shows.get_eq (ha : a.Shows cpu p) (hb : b.Shows cpu p) : a.get = b.get := by
  have hcount : a.memory.accessLog.length = b.memory.accessLog.length :=
    ha.accessCount.trans hb.accessCount.symm
  have hslots : a.memory.accessLog.slots = b.memory.accessLog.slots :=
    Vector.toList_inj.mp (ha.accesses.trans hb.accesses.symm)
  simp only [get, ha.regs_eq, hb.regs_eq, ha.ime_eq, hb.ime_eq, ha.halted_eq, hb.halted_eq, hcount,
    hslots]

/-- Every session shows its own processor, and the bytes that it was lent beside its log. -/
theorem Lent.shows (h : Lent size buffer config session) :
    session.Shows session.cpu
      { PlainSpace.lent size buffer with
        logged := session.get.logged
        entries := session.get.accesses.toList } where
  cpu_eq := rfl
  refines := by
    have hlength := AccessLog.length_recorded session.memory.accessLog
    have hfits : session.memory.accessLog.recorded.take 16 = session.memory.accessLog.recorded :=
      List.take_of_length_le (hlength ▸ session.memory.accessLog.length_le)
    refine ⟨h.peek, ?_, h.memory.logsWrites, hfits.symm, ?_⟩
    · rw [h.memory.store_eq]
      rfl
    · change _ = session.memory.accessLog.recorded.take 16 ++
        session.memory.accessLog.slots.toList.drop
          (session.memory.accessLog.recorded.take 16).length
      rw [hfits, hlength]
      exact (List.take_append_drop ..).symm

/-- After a snapshot has been set, a session shows what the snapshot describes and nothing that
    was there before. -/
theorem Lent.shows_set (h : Lent size buffer config session) {s : CpuSnapshot}
    (hs : s.Describes cpu) (hconfig : cpu.config = config) (hoverlay : cpu.overlay = none) :
    (session.set s).Shows cpu
      { PlainSpace.lent size buffer with entries := s.accesses.toList } where
  cpu_eq := h.cpu_set hs hconfig hoverlay
  refines := h.shows.refines.emptied s.accesses

/-! ## Sessions that testers cannot tell apart -/

/-- What a tester does with a session. -/
inductive Command where
  | set (s : CpuSnapshot)
  | step
  | get

/-- What a tester is told. -/
inductive Response where
  | done
  | stepped (result : Except Fault Nat)
  | state (s : CpuSnapshot)

/-- Carries out a command. -/
def obey (session : ConformanceSession) : Command → Response × ConformanceSession
  | .set s => (.done, session.set s)
  | .step => (.stepped session.step.1, session.step.2)
  | .get => (.state session.get, session)

/-- What a tester is told in the course of several commands. -/
def responses (session : ConformanceSession) : List Command → List Response
  | [] => []
  | command :: rest => (session.obey command).1 :: (session.obey command).2.responses rest

/-- Two sessions over the same buffer that show the same. -/
structure Alike (size : Nat) (buffer : ByteArray) (config : Cpu.Config)
    (a b : ConformanceSession) : Prop where
  left : Lent size buffer config a
  right : Lent size buffer config b
  shown : ∃ cpu p, p.logging = true ∧ a.Shows cpu p ∧ b.Shows cpu p

theorem alike_set (ha : Lent size buffer config a) (hb : Lent size buffer config b)
    (s : CpuSnapshot) : Alike size buffer config (a.set s) (b.set s) where
  left := ha.set s
  right := hb.set s
  shown :=
    have hs := s.describes_processor config
    ⟨_, _, rfl, ha.shows_set hs rfl rfl, hb.shows_set hs rfl rfl⟩

theorem Alike.obey (h : Alike size buffer config a b) (command : Command) :
    (a.obey command).1 = (b.obey command).1 ∧
      Alike size buffer config (a.obey command).2 (b.obey command).2 := by
  obtain ⟨hleft, hright, cpu, p, hlogging, ha, hb⟩ := h
  cases command with
  | set s => exact ⟨rfl, alike_set hleft hright s⟩
  | step =>
    have hattempted : b.attempted = a.attempted := hb.attempted_eq.trans ha.attempted_eq.symm
    have hb' := hb.step hlogging
    rw [hattempted] at hb'
    exact ⟨congrArg Response.stepped (ha.step_fst.trans hb.step_fst.symm), hleft.step,
      hright.step, _, p.logAll a.attempted, hlogging, ha.step hlogging, hb'⟩
  | get =>
    exact ⟨congrArg Response.state (ha.get_eq hb), hleft, hright, cpu, p, hlogging, ha, hb⟩

theorem Alike.responses (h : Alike size buffer config a b) (commands : List Command) :
    a.responses commands = b.responses commands := by
  induction commands generalizing a b with
  | nil => rfl
  | cons command rest ih =>
    obtain ⟨hresponse, hobeyed⟩ := h.obey command
    simp only [ConformanceSession.responses, hresponse, ih hobeyed]

/-! ## Resuming -/

/-- The session after some steps. -/
def after : Nat → ConformanceSession → ConformanceSession
  | 0, session => session
  | n + 1, session => after n session.step.2

/-- The results of some steps, in order. -/
def results : Nat → ConformanceSession → List (Except Fault Nat)
  | 0, _ => []
  | n + 1, session => session.step.1 :: results n session.step.2

/-- The writes that some steps attempt, in order. -/
def attemptedIn : Nat → ConformanceSession → List Access
  | 0, _ => []
  | n + 1, session => session.attempted ++ attemptedIn n session.step.2

/-- Two sessions with the same processor and the same bytes go on in the same way, whatever is in
    their logs. -/
theorem Shows.after (n : Nat) (ha : a.Shows cpu p) (hb : b.Shows cpu q)
    (hp : p.logging = true) (hq : q.logging = true) (hbytes : q.bytes = p.bytes) :
    results n b = results n a ∧
      ∃ cpu', (after n a).Shows cpu' (p.logAll (attemptedIn n a)) ∧
        (after n b).Shows cpu' (q.logAll (attemptedIn n a)) := by
  induction n generalizing a b cpu p q with
  | zero =>
    refine ⟨rfl, cpu, ?_⟩
    simp only [attemptedIn, PlainSpace.logAll_nil]
    exact ⟨ha, hb⟩
  | succ n ih =>
    have hresult : b.step.1 = a.step.1 := by rw [ha.step_fst, hb.step_fst, hbytes]
    have hattempted : b.attempted = a.attempted := by
      rw [ha.attempted_eq, hb.attempted_eq, hbytes]
    have hb' := hb.step hq
    rw [hattempted, hbytes] at hb'
    obtain ⟨hresults, cpu', hshows⟩ := ih (ha.step hp) hb' hp hq hbytes
    simp only [PlainSpace.logAll_logAll] at hshows
    refine ⟨?_, cpu', hshows⟩
    simp only [results, hresult, hresults]

/-- What becomes of a session `a` and of one that was set to a snapshot of it, in `n` steps. -/
structure Resumes (n : Nat) (a b : ConformanceSession) : Prop where
  results : results n (b.set a.get) = results n a
  regs : (after n (b.set a.get)).cpu.regs = (after n a).cpu.regs
  ime : (after n (b.set a.get)).cpu.ime = (after n a).cpu.ime
  halted : (after n (b.set a.get)).cpu.halted = (after n a).cpu.halted
  /-- The log of the continued session goes on where it was, as far as there is room. -/
  continued : (after n a).get.logged = (a.get.logged ++ attemptedIn n a).take 16
  /-- The log of the resumed session starts over, on top of the slots in the snapshot. -/
  count : (after n (b.set a.get)).get.accessCount = min 16 (attemptedIn n a).length
  slots : (after n (b.set a.get)).get.accesses.toList =
    (attemptedIn n a).take 16 ++
      a.get.accesses.toList.drop (min 16 (attemptedIn n a).length)

theorem resumes (ha : Lent size buffer config a) (hb : Lent size buffer config b) (n : Nat) :
    Resumes n a b := by
  have hset := hb.shows_set a.describes_get ha.config ha.overlay
  obtain ⟨hresults, cpu, hcontinued, hresumed⟩ := ha.shows.after n hset rfl rfl rfl
  have hcount : (after n (b.set a.get)).get.accessCount = min 16 (attemptedIn n a).length :=
    hresumed.accessCount
  refine ⟨hresults, hresumed.regs_eq.trans hcontinued.regs_eq.symm,
    hresumed.ime_eq.trans hcontinued.ime_eq.symm,
    hresumed.halted_eq.trans hcontinued.halted_eq.symm, hcontinued.logged, hcount, ?_⟩
  rw [← List.length_take]
  exact hresumed.accesses

/-- Whatever has happened in two sessions over the same buffer, once the same snapshot has been set
    in both nobody can tell them apart. It reads back as it was set, but for the bits that flags do
    not have and the count of accesses. And a snapshot of one session, set in the other, continues
    there as the first session would itself, with a log that starts over. -/
theorem snapshot_complete (ha : Reached size buffer config a) (hb : Reached size buffer config b) :
    (∀ s commands, (a.set s).responses commands = (b.set s).responses commands) ∧
      (∀ s, (a.set s).get = { s with f := s.f &&& 0xF0, accessCount := 0 }) ∧
      ∀ n, Resumes n a b :=
  ⟨fun s commands => (alike_set ha.lent hb.lent s).responses commands, a.get_set,
    resumes ha.lent hb.lent⟩

/-- What a session is about to write in its first step after a snapshot, a new session writes too,
    into the slots that the snapshot brings. -/
theorem snapshot_complete_spToDivider :
    let a := (start 3 spToDivider).step.2.set { sp := 0x1234 }
    attemptedIn 1 a = [⟨.write, 0xFF05, 0x12⟩, ⟨.write, 0xFF04, 0⟩] ∧
      Resumes 1 a (start 3 spToDivider) := by
  intro a
  obtain ⟨-, -, hresumes⟩ := snapshot_complete (.set { sp := 0x1234 } (.step .start)) .start
  exact ⟨by decide, hresumes 1⟩

end ConformanceSession

end Handheld
