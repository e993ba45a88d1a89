-- SUMMARY: The program makes its run in slices, and says and writes what one run within the whole budget would.
import Handheld.CommandLine.Execution
import Handheld.Proofs.AddressSpace.Observers
import Handheld.Proofs.Console.Runs

namespace Handheld

/-! ## What was heard before

Between two slices the console forgets what its listeners have heard. They only
ever hear more, so the console goes on as the one that remembers does. -/

namespace AddressSpace

/-- The space whose listeners have heard something before. -/
def remember (earlier : Array Sighting) (s : AddressSpace) : AddressSpace :=
  { s with heard := earlier ++ s.heard }

theorem notify_remember (earlier : Array Sighting) (s : AddressSpace) (kind : EventKind)
    (address : UInt16) (byte : UInt8) (value : UInt16) :
    (s.remember earlier).notify kind address byte value =
      (s.notify kind address byte value).remember earlier := by
  have hlogs : (s.remember earlier).logsWrites = s.logsWrites := rfl
  unfold notify
  rw [hlogs]
  split
  · rfl
  · simp [remember, deliver_eq]

theorem logAccess_remember (earlier : Array Sighting) (s : AddressSpace) (access : Access) :
    (s.remember earlier).logAccess access = (s.logAccess access).remember earlier := by
  have hlog : (s.remember earlier).accessLog = s.accessLog := rfl
  unfold logAccess
  rw [hlog]
  split <;> rfl

/-- No access can tell what was heard before. -/
theorem unnoticed_remember (earlier : Array Sighting) : Unnoticed (remember earlier) where
  store _ := rfl
  logSwitch _ := rfl
  notify := notify_remember earlier
  logAccess := logAccess_remember earlier
  poke _ _ _ := rfl
  report _ _ := rfl
  advance _ _ _ := rfl

end AddressSpace

namespace Console

/-- The console whose listeners have heard something before. -/
def remember (earlier : Array Sighting) (m : Console) : Console :=
  m.onMemory (AddressSpace.remember earlier)

theorem remember_forget (m : Console) : m.forget.remember m.memory.heard = m := by
  simp [remember, forget, onMemory, AddressSpace.remember]

theorem serialBytes_remember (earlier : Array Sighting) (m : Console) :
    (m.remember earlier).serialBytes = earlier.toList.map Sighting.serialByte ++ m.serialBytes := by
  simp [serialBytes, remember, onMemory, AddressSpace.remember]

/-- The run of a console that has forgotten what was heard is that of the one that remembers. -/
theorem run_forget (m : Console) (budget : Option Nat) :
    m.run budget =
      ((m.forget.run budget).1, (m.forget.run budget).2.remember m.memory.heard) := by
  have h := (AddressSpace.unnoticed_remember m.memory.heard).run m.forget budget
  have hwhole : m.forget.onMemory (AddressSpace.remember m.memory.heard) = m := m.remember_forget
  rwa [hwhole] at h

end Console

namespace RunOptions

/-! ## Slices -/

variable {options : RunOptions} {m paused : Console} {a b : Nat}

/-- Where the steps of a slice run out, the rest of the run gives what the whole run gives, and
    sends what is left to send. -/
theorem execute_append {summary : RunSummary}
    (h : (options.within a).execute m = (.ok summary, paused))
    (hreason : summary.reason = .stepLimit) :
    let rest := (options.within b).execute paused.forget
    let whole := (options.within (a + b)).execute m
    whole.1 = rest.1.map summary.followedBy ∧
      whole.2.serialBytes = paused.serialBytes ++ rest.2.serialBytes := by
  obtain ⟨hresult, hleft⟩ := Console.run_append (a := a) (b := b) (execute_eq_ok_iff.mp h) hreason
  rw [paused.run_forget] at hresult hleft
  rcases hrest : paused.forget.run (some b) with ⟨result, left⟩
  rcases hwhole : m.run (some (a + b)) with ⟨result', left'⟩
  rw [hrest, hwhole] at hresult
  have hsame : left'.hush = (left.remember paused.memory.heard).hush := by
    rwa [hrest, hwhole] at hleft
  have hcpu : left'.cpu = left.cpu :=
    show left'.hush.cpu = (left.remember paused.memory.heard).hush.cpu by rw [hsame]
  have hbytes : left'.serialBytes = paused.serialBytes ++ left.serialBytes :=
    (congrArg Console.serialBytes hsame).trans (left.serialBytes_remember _)
  obtain rfl : result' = result.map summary.followedBy := hresult
  simp only [execute, within, hrest, hwhole]
  cases result with
  | error fault => exact ⟨by simp only [Except.map, hcpu], hbytes⟩
  | ok rest => exact ⟨rfl, hbytes⟩

/-- Where a slice ends otherwise, the whole run ends there. -/
theorem execute_of_le
    (h : ∀ summary, ((options.within a).execute m).1 = .ok summary → summary.reason ≠ .stepLimit)
    (hle : a ≤ b) : (options.within b).execute m = (options.within a).execute m := by
  have hother (summary : RunSummary) (hrun : (m.run (some a)).1 = .ok summary) :
      summary.reason ≠ .stepLimit :=
    h summary (congrArg Prod.fst (execute_eq_ok_iff.mpr (Prod.ext hrun rfl)))
  simp only [execute, within, Console.run_of_le hother hle]

/-! ## The output -/

/-- Writing to an output that is kept as a list. -/
def keep (bytes : List UInt8) : StateM (List UInt8) Unit :=
  modify (· ++ bytes)

theorem echo_append (options : RunOptions) (first second : List UInt8) :
    options.echo (first ++ second) = options.echo first ++ options.echo second := by
  unfold echo
  split <;> rfl

/-- Of the serial bytes it matters to the end only whether there are any. -/
theorem ofExecution_congr {outcome : Except RunError RunSummary} {serial serial' : List UInt8}
    (h : serial.isEmpty = serial'.isEmpty) :
    Ending.ofExecution options outcome serial = Ending.ofExecution options outcome serial' := by
  unfold Ending.ofExecution Ending.ofRun
  rw [h]

/-- So of a slice the first byte will do. -/
theorem isEmpty_take_append (sent bytes rest : List UInt8) :
    (sent ++ bytes.take 1 ++ rest).isEmpty = (sent ++ (bytes ++ rest)).isEmpty := by
  cases sent <;> cases bytes <;> rfl

theorem ofExecution_map (outcome : Except RunError RunSummary) (f : RunSummary → RunSummary)
    (serial : List UInt8) :
    Ending.ofExecution options (outcome.map f) serial =
      Ending.ofExecution options outcome serial := by
  cases outcome <;> rfl

variable {budget : Nat}

/-- A slice that leaves steps for later writes what it has sent, and hands on to the next one. -/
theorem play_of_goes_on {summary : RunSummary} (sent out : List UInt8)
    (h : (options.within (min sliceSteps budget)).execute m = (.ok summary, paused))
    (hreason : summary.reason = .stepLimit) (hlt : min sliceSteps budget < budget) :
    (options.play keep budget m sent).run out =
      (options.play keep (budget - min sliceSteps budget) paused.forget
        (sent ++ paused.serialBytes.take 1)).run (out ++ options.echo paused.serialBytes) := by
  rw [play, h]
  simp only [hreason, hlt, and_self, if_true]
  rfl

/-- Any other slice is the last one. -/
theorem play_of_ends {outcome : Except RunError RunSummary} (sent out : List UInt8)
    (h : (options.within (min sliceSteps budget)).execute m = (outcome, paused))
    (hends : ∀ summary, outcome = .ok summary → summary.reason = .stepLimit →
      ¬min sliceSteps budget < budget) :
    (options.play keep budget m sent).run out =
      (.ofExecution options outcome (sent ++ paused.serialBytes),
        out ++ options.echo paused.serialBytes) := by
  have hempty : (sent ++ paused.serialBytes).isEmpty =
      (sent ++ paused.serialBytes.take 1).isEmpty := by
    simpa using (isEmpty_take_append sent paused.serialBytes []).symm
  rw [play, h, ofExecution_congr hempty]
  cases outcome with
  | error error => rfl
  | ok summary =>
    have hstops : ¬(summary.reason = .stepLimit ∧ min sliceSteps budget < budget) := fun hgoes =>
      hends summary rfl hgoes.1 hgoes.2
    simp only [hstops, if_false]
    rfl

/-- The program says and writes what one run within the whole budget does. -/
theorem play_eq (options : RunOptions) (m : Console) (budget : Nat) (sent out : List UInt8) :
    let whole := (options.within budget).execute m
    (options.play keep budget m sent).run out =
      (.ofExecution options whole.1 (sent ++ whole.2.serialBytes),
        out ++ options.echo whole.2.serialBytes) := by
  induction budget using Nat.strong_induction_on generalizing m sent out with
  | _ budget ih =>
    have hle : min sliceSteps budget ≤ budget := Nat.min_le_right ..
    rcases hslice : (options.within (min sliceSteps budget)).execute m with ⟨outcome, paused⟩
    by_cases hgoes : ∃ summary, outcome = .ok summary ∧ summary.reason = .stepLimit ∧
      min sliceSteps budget < budget
    · obtain ⟨summary, rfl, hreason, hlt⟩ := hgoes
      have hpos : 0 < min sliceSteps budget := by
        have hslice : 0 < sliceSteps := by decide
        omega
      obtain ⟨houtcome, hbytes⟩ :=
        execute_append (b := budget - min sliceSteps budget) hslice hreason
      rw [Nat.add_sub_cancel' hle] at houtcome hbytes
      rw [play_of_goes_on sent out hslice hreason hlt, ih _ (by omega)]
      intro whole
      rw [houtcome, hbytes, ofExecution_map, echo_append, ← List.append_assoc out,
        ofExecution_congr (isEmpty_take_append ..)]
    · have hends (summary : RunSummary) (hok : outcome = .ok summary)
          (hreason : summary.reason = .stepLimit) : ¬min sliceSteps budget < budget :=
        fun hlt => hgoes ⟨summary, hok, hreason, hlt⟩
      have hwhole : (options.within budget).execute m = (outcome, paused) := by
        rw [← hslice]
        rcases Nat.lt_or_ge (min sliceSteps budget) budget with hlt | hge
        · refine execute_of_le (fun summary hok hreason => ?_) hle
          rw [hslice] at hok
          exact hends summary hok hreason hlt
        · rw [Nat.le_antisymm hle hge]
      rw [play_of_ends sent out hslice hends, hwhole]

/-! ## The program -/

/-- Files that are at hand are loaded at once. -/
theorem load_pure {M : Type → Type} [Monad M] [LawfulMonad M] (options : RunOptions)
    (files : String → Except String ByteArray) (threshold : Option Severity) :
    options.load (m := M) (fun path => pure (files path)) threshold =
      pure (options.load (m := Id) files threshold) := by
  rw [load, load, pure_bind]
  cases files options.rom with
  | error cause => rfl
  | ok rom =>
    cases options.bootRom with
    | none => rfl
    | some path =>
      dsimp only
      rw [pure_bind]
      cases files path <;> rfl

theorem execute_within_maxSteps (options : RunOptions) (m : Console) :
    (options.within (options.maxSteps.getD Console.stepCeiling)).execute m = options.execute m :=
  rfl

end RunOptions

/-- What the program says and writes for the given files. -/
theorem program_eq (files : String → Except String ByteArray) (arguments : List String)
    (out : List UInt8) :
    (program (fun path => pure (files path)) RunOptions.keep arguments).run out =
      match RunOptions.parse arguments with
      | .error error => (.ofUsageError error, out)
      | .ok options =>
        match options.load (m := Id) files with
        | .error error => (.ofRunError error, out)
        | .ok console =>
          let run := options.execute console
          (.ofExecution options run.1 run.2.serialBytes,
            out ++ options.echo run.2.serialBytes) := by
  rw [program]
  cases RunOptions.parse arguments with
  | error error => rfl
  | ok options =>
    simp only [RunOptions.load_pure, pure_bind]
    cases options.load (m := Id) files with
    | error error => rfl
    | ok console =>
      have h := options.play_eq console (options.maxSteps.getD Console.stepCeiling) [] out
      rw [options.execute_within_maxSteps] at h
      exact h

/-- If its run succeeds, the program writes the serial bytes that it reports. -/
theorem program_of_serialReport {files : String → Except String ByteArray}
    {arguments : List String} {options : RunOptions} {serial : List UInt8} (out : List UInt8)
    (hoptions : RunOptions.parse arguments = .ok options)
    (hserial : options.serialReport files none = .ok serial) :
    (program (fun path => pure (files path)) RunOptions.keep arguments).run out =
      (.ofRun options serial, out ++ options.echo serial) := by
  obtain ⟨console, summary, left, hload, hexecute, rfl⟩ := RunOptions.exists_of_serialReport hserial
  rw [program_eq, hoptions]
  simp only [hload, hexecute]
  rfl

end Handheld
