-- SUMMARY: Running a console until it reaches its endpoint, uses up its budget, or can never go on.
import Handheld.Console.Basic

namespace Handheld

/-! ## Runs

Before each step a run looks, in this order, for the endpoint, for the end of its
budget and for a processor that nothing can wake. -/

/-- The outcome of a run. -/
structure RunSummary where
  reason : StopReason
  steps : Nat
  cycles : Nat
deriving DecidableEq, Repr

namespace Console

/-- Whether the program counter is at the endpoint. -/
def atEndpoint (m : Console) : Bool :=
  m.config.endpoint == some m.cpu.regs.pc

/-- Whether the processor is halted with no interrupt source enabled. -/
def deadlocked (m : Console) : Bool :=
  m.cpu.halted && (Interrupts.ofByte (m.memory.peek Hardware.interruptEnable)).bits == 0

/-- Steps at most `budget` times, adding to the steps and cycles counted so far. -/
def runFrom (steps cycles : Nat) : (budget : Nat) → Console → Except Fault RunSummary × Console
  | 0, m => (.ok ⟨if m.atEndpoint then .endpoint else .stepLimit, steps, cycles⟩, m)
  | budget + 1, m =>
    if m.atEndpoint then (.ok ⟨.endpoint, steps, cycles⟩, m)
    else if m.deadlocked then (.ok ⟨.deadlocked, steps, cycles⟩, m)
    else
      match m.step with
      | (.error fault, m) => (.error fault, m)
      | (.ok cost, m) => runFrom (steps + 1) (cycles + cost) budget m

/-- The number of steps that a run can count. -/
def stepCeiling : Nat := UInt64.size

/-- Runs the console. Without a budget only the step counter's range bounds the run. -/
def run (m : Console) (budget : Option Nat) : Except Fault RunSummary × Console :=
  match m.runFrom 0 0 (budget.getD stepCeiling) with
  | (.ok summary, m) =>
    (.ok summary, m.report (.stopped summary.reason summary.steps summary.cycles))
  | (.error fault, m) => (.error fault, m)

end Console

end Handheld
