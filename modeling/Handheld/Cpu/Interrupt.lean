-- SUMMARY: Pending interrupts, waking from a halt, and entering an interrupt handler.
import Handheld.Cpu.Effect

namespace Handheld.Cpu

/-! ## Interrupts

The processor does not look for interrupts on its own: whoever steps it asks
between steps. -/

/-- The cycles spent entering an interrupt handler. -/
def dispatchCycles : Nat := 5

/-- The sources that are both enabled and requested. -/
def pendingInterrupts {β : Type} [Bus β] : StateM β Interrupts := do
  let enabled ← Bus.read8 Hardware.interruptEnable
  let requested ← Bus.read8 Hardware.interruptFlags
  return .ofByte (enabled &&& requested)

/-- Leaves the halted state if a source is pending, whether or not interrupts may
    be dispatched, and says whether it did. -/
def wakeIfPending {β : Type} [Bus β] (cpu : Cpu) : StateM β (Bool × Cpu) := do
  if cpu.halted then
    let pending ← pendingInterrupts
    if pending.lowest?.isSome then
      return (true, { cpu with halted := false })
  return (false, cpu)

/-- Enters the handler of a source, given the requests read back: its request is
    cleared and PC pushed. -/
def dispatch (cpu : Cpu) (source : Nat) (pending : Interrupts) (requested : UInt8) : Effect :=
  let pushed := cpu.push cpu.regs.pc
  { cpu := { pushed.cpu.goto (Interrupts.handler source) with ime := false, halted := false }
    actions :=
      .write8 Hardware.interruptFlags (requested &&& ~~~(Interrupts.single source).bits) ::
        pushed.actions ++
        [.report (.interrupted source cpu.regs.pc pushed.cpu.regs.sp pending.bits requested)] }

/-- Enters the handler of the pending source with the highest priority, if
    interrupts may be dispatched, and returns the cycles that this took. -/
def serviceInterrupt {β : Type} [Bus β] (cpu : Cpu) : StateM β (Option Nat × Cpu) := do
  if cpu.ime then
    let pending ← pendingInterrupts
    if let some source := pending.lowest? then
      let requested ← Bus.read8 Hardware.interruptFlags
      let effect := cpu.dispatch source pending requested
      performAll effect.actions
      return (some dispatchCycles, effect.cpu)
  return (none, cpu)

end Handheld.Cpu
