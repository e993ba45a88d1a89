import Handheld.Conformance
import Handheld.FlatBus
import Handheld.Main
import Handheld.Proofs.AddressSpace.Observers
import Handheld.Proofs.Alu.Decimal
import Handheld.Proofs.Alu.Shift
import Handheld.Proofs.Alu.WordSum
import Handheld.Proofs.Bus.ByteBus
import Handheld.Proofs.Bus.Tapped
import Handheld.Proofs.CommandLine.Order
import Handheld.Proofs.CommandLine.Slices
import Handheld.Proofs.Conformance.Snapshot
import Handheld.Proofs.Console.Attention
import Handheld.Proofs.Console.Divider
import Handheld.Proofs.Console.Failure
import Handheld.Proofs.Console.Loading
import Handheld.Proofs.Console.Requests
import Handheld.Proofs.Console.Serial
import Handheld.Proofs.Console.Sleep
import Handheld.Proofs.Cpu.Control
import Handheld.Proofs.Cpu.Direct
import Handheld.Proofs.Cpu.Discipline
import Handheld.Proofs.Cpu.Frame
import Handheld.Proofs.Cpu.Handler
import Handheld.Proofs.Cpu.Overlay
import Handheld.Proofs.Cpu.Slot
import Handheld.Proofs.Cpu.Switches
import Handheld.Proofs.Timer.ClosedForm
