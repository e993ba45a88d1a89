-- SUMMARY: Running a cartridge from the command line: loading files, the serial link, and how the program ends.
import Handheld.CommandLine.Options
import Handheld.Console.Run

namespace Handheld

/-! ## Errors -/

/-- Why a run gave no result. -/
inductive RunError where
  /-- The cartridge image could not be read; `cause` is the system's reason. -/
  | unreadableRom (path cause : String)
  | unreadableBootRom (path cause : String)
  /-- The processor could not go on; `pc` is where it stands. -/
  | faulted (rom : String) (pc : UInt16) (fault : Fault)
deriving DecidableEq, Repr

namespace RunError

/-- The text of an error. -/
def message : RunError → String
  | unreadableRom path _ => "failed to read ROM '" ++ path ++ "'"
  | unreadableBootRom path _ => "failed to read boot ROM '" ++ path ++ "'"
  | faulted rom pc _ => "execution of '" ++ rom ++ "' failed after reaching PC=0x" ++ hex4 pc

/-- The texts of an error and of what lies below it, outermost first. -/
def chain (error : RunError) : List String :=
  error.message ::
    match error with
    | unreadableRom _ cause | unreadableBootRom _ cause => [cause]
    | faulted _ _ fault => fault.chain

end RunError

/-! ## The serial link -/

/-- Hears each store that starts a transfer. -/
def serialListener : Listener where
  tag := 0
  kind := .writeByte
  only := some (Hardware.serialControl, Hardware.serialStart)

/-- The byte that a transfer sends: the one in the data register when it starts. -/
def Sighting.serialByte (sighting : Sighting) : UInt8 :=
  sighting.event.store.peek Hardware.serialData

/-- The bytes sent so far, oldest first. -/
def Console.serialBytes (m : Console) : List UInt8 :=
  m.memory.heard.toList.map Sighting.serialByte

/-- Forgets what listeners have heard. -/
def Console.forget (m : Console) : Console :=
  { m with memory := { m.memory with heard := #[] } }

/-! ## Runs -/

namespace RunOptions

/-- How the console is assembled. -/
def consoleConfig (options : RunOptions) (boot : Option ByteArray) : Console.Config where
  cpu :=
    { subtrahend := if options.subRegisterB then .registerB else .operand
      spoofScanline := options.spoofScanline }
  bootRom := boot
  endpoint := options.stopAt

/-- The console with the cartridge loaded and the serial link connected. -/
def console (options : RunOptions) (rom : ByteArray) (boot : Option ByteArray)
    (threshold : Option Severity := none) : Console :=
  let m := Console.ofConfig (options.consoleConfig boot)
  let m := { m with memory := { m.memory with journal := { threshold } } }
  (m.loadRom rom).listen serialListener

/-- The console for files that are read when they are needed: first the cartridge,
    then the boot program. -/
def load {m : Type → Type} [Monad m] (options : RunOptions)
    (read : String → m (Except String ByteArray)) (threshold : Option Severity := none) :
    m (Except RunError Console) := do
  match ← read options.rom with
  | .error cause => return .error (.unreadableRom options.rom cause)
  | .ok rom =>
    match options.bootRom with
    | none => return .ok (options.console rom none threshold)
    | some path =>
      match ← read path with
      | .error cause => return .error (.unreadableBootRom path cause)
      | .ok boot => return .ok (options.console rom (some boot) threshold)

/-- The options with another budget. -/
def within (options : RunOptions) (budget : Nat) : RunOptions :=
  { options with maxSteps := some budget }

/-- Runs a loaded console until a stop condition. -/
def execute (options : RunOptions) (m : Console) : Except RunError RunSummary × Console :=
  match m.run options.maxSteps with
  | (.ok summary, m) => (.ok summary, m)
  | (.error fault, m) => (.error (.faulted options.rom m.cpu.regs.pc fault), m)

theorem execute_eq_ok_iff {options : RunOptions} {m left : Console} {summary : RunSummary} :
    options.execute m = (.ok summary, left) ↔ m.run options.maxSteps = (.ok summary, left) := by
  rw [execute]
  rcases m.run options.maxSteps with ⟨_ | _, _⟩ <;> simp

theorem execute_eq_error_iff {options : RunOptions} {m left : Console} {error : RunError} :
    options.execute m = (.error error, left) ↔
      ∃ fault, m.run options.maxSteps = (.error fault, left) ∧
        error = .faulted options.rom left.cpu.regs.pc fault := by
  rw [execute]
  rcases m.run options.maxSteps with ⟨fault | _, stopped⟩
  · constructor
    · intro h
      cases h
      exact ⟨fault, rfl, rfl⟩
    · rintro ⟨_, h, rfl⟩
      cases h
      rfl
  · simp

/-- The serial bytes that the program reports for the given files, if its run succeeds. They are
    those of one run within the whole budget, however the program divides it up. -/
def serialReport (options : RunOptions) (files : String → Except String ByteArray)
    (threshold : Option Severity) : Except RunError (List UInt8) :=
  match options.load (m := Id) files threshold with
  | .error error => .error error
  | .ok m =>
    match options.execute m with
    | (.ok _, left) => .ok left.serialBytes
    | (.error error, _) => .error error

theorem exists_of_serialReport {options : RunOptions} {files : String → Except String ByteArray}
    {threshold : Option Severity} {serial : List UInt8}
    (h : options.serialReport files threshold = .ok serial) :
    ∃ m summary left, options.load (m := Id) files threshold = .ok m ∧
      options.execute m = (.ok summary, left) ∧ serial = left.serialBytes := by
  rw [serialReport] at h
  split at h
  · cases h
  · next m hload =>
    split at h
    · next summary left hexecute =>
      cases h
      exact ⟨m, summary, left, hload, hexecute, rfl⟩
    · cases h

/-- What the program writes to its output while it runs. -/
def echo (options : RunOptions) (serial : List UInt8) : List UInt8 :=
  if options.serial then serial else []

end RunOptions

/-! ## The end of the program -/

/-- How the program ends. -/
structure Ending where
  exitCode : UInt32
  /-- What is still to be written to the output. -/
  output : List UInt8 := []
  /-- The error lines. -/
  errors : String := ""
deriving DecidableEq, Repr

namespace Ending

/-- A line of error texts, outermost first. -/
def line (texts : List String) : String :=
  ": ".intercalate texts ++ "\n"

/-- The end after arguments that do not fit the usage. -/
def ofUsageError (error : UsageError) : Ending where
  exitCode := 2
  errors := line error.chain

/-- The end after a run that gave no result. -/
def ofRunError (error : RunError) : Ending where
  exitCode := 1
  errors := "error: " ++ line error.chain

/-- The end after a run: echoed bytes are followed by a newline. -/
def ofRun (options : RunOptions) (serial : List UInt8) : Ending where
  exitCode := 0
  output := if options.serial && !serial.isEmpty then "\n".toUTF8.toList else []

/-- The end after a run with the given outcome. -/
def ofExecution (options : RunOptions) (outcome : Except RunError RunSummary)
    (serial : List UInt8) : Ending :=
  match outcome with
  | .error error => ofRunError error
  | .ok _ => ofRun options serial

end Ending

/-! ## The program

The program makes its run in slices, so that serial bytes reach the output while
the cartridge is still running, and forgets them between two slices. All slices
together end as `execute` does within the whole budget and write the bytes that
it leaves, which are those of `serialReport`. The proofs are in
`Handheld/Proofs/CommandLine/Slices.lean`. -/

/-- The number of steps between two looks at the serial link. -/
def sliceSteps : Nat := 0x10000

/-- Runs a console slice by slice within a budget. `sent` are the first serial bytes of earlier
    slices: of these it matters only whether there are any. -/
@[specialize]
def RunOptions.play {m : Type → Type} [Monad m] (options : RunOptions) (write : List UInt8 → m Unit)
    (budget : Nat) (console : Console) (sent : List UInt8) : m Ending := do
  let slice := min sliceSteps budget
  let (outcome, console) := (options.within slice).execute console
  let bytes := console.serialBytes
  write (options.echo bytes)
  let sent := sent ++ bytes.take 1
  match outcome with
  | .error error => return .ofRunError error
  | .ok summary =>
    if summary.reason = .stepLimit ∧ slice < budget then
      play options write (budget - slice) console.forget sent
    else
      return .ofRun options sent
termination_by budget
decreasing_by
  have hslice : 0 < sliceSteps := by decide
  omega

/-- Parses the arguments, runs the cartridge and says how the program ends. -/
def program {m : Type → Type} [Monad m] (read : String → m (Except String ByteArray))
    (write : List UInt8 → m Unit) (arguments : List String) : m Ending := do
  match RunOptions.parse arguments with
  | .error error => return .ofUsageError error
  | .ok options =>
    match ← options.load read with
    | .error error => return .ofRunError error
    | .ok console => options.play write (options.maxSteps.getD Console.stepCeiling) console []

end Handheld
