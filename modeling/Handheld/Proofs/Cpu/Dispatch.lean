-- SUMMARY: What looking for interrupts does to a processor and its memory, once and again and again until no source is left.
import Handheld.Proofs.Bus.Storing
import Handheld.Proofs.Cpu.Interrupts

namespace Handheld

open LawfulBus

/-! ## Taking back one request

Sources are served in the order of their bits. Serving the first of them takes
its request back and leaves all others, so those are what is left to serve. -/

namespace Interrupts

theorem nodup_toList (s : Interrupts) : s.toList.Nodup :=
  List.nodup_range.filter _

theorem toList_eq_nil_iff {s : Interrupts} : s.toList = [] ↔ s.bits = 0 := by
  rw [← List.head?_eq_none_iff, head?_toList, lowest?_eq_none_iff]

/-- Without the first source of a set the others are left, in the same order. -/
theorem toList_of_without {s s' : Interrupts} {source : Nat} {rest : List Nat}
    (hlist : s.toList = source :: rest)
    (hwithout : ∀ bit, s'.bits.toNat.testBit bit = (s.bits.toNat.testBit bit && bit != source)) :
    s'.toList = rest := by
  have hfilter : s'.toList = s.toList.filter (· != source) := by
    simp only [toList, hwithout, List.filter_filter, Bool.and_comm]
  have hnodup := s.nodup_toList
  rw [hlist, List.nodup_cons] at hnodup
  have hapart : ∀ other ∈ rest, (other != source) = true := by
    intro other hother
    exact bne_iff_ne.mpr fun heq => hnodup.1 (heq ▸ hother)
  rw [hfilter, hlist]
  simpa using hapart

end Interrupts

theorem Image.bits_pending (image : Image) :
    image.pending.bits =
      image Hardware.interruptEnable &&& image Hardware.interruptFlags &&& 0x1F := rfl

/-- Once the first source has been taken back from the requests, the others are pending. -/
theorem Image.toList_pending_without {image image' : Image} {source : Nat} {rest : List Nat}
    (hpending : image.pending.toList = source :: rest)
    (henabled : image' Hardware.interruptEnable = image Hardware.interruptEnable)
    (hrequested : image' Hardware.interruptFlags =
      image Hardware.interruptFlags &&& ~~~(Interrupts.single source).bits) :
    image'.pending.toList = rest := by
  apply Interrupts.toList_of_without hpending
  intro bit
  have hmem : source ∈ image.pending.toList := by simp [hpending]
  have hlt : source < 5 := Interrupts.testBit_ofByte_lt (List.mem_filter.mp hmem).2
  have hflags := Interrupts.testBit_without hlt (image Hardware.interruptFlags) bit
  rw [← hrequested] at hflags
  simp only [bits_pending, henabled, hflags, UInt8.toNat_and, Nat.testBit_and]
  simp only [Bool.and_assoc, Bool.and_comm, Bool.and_left_comm]

namespace Cpu

/-! ## One dispatch -/

/-- The processor in the handler of a source. -/
def entered (cpu : Cpu) (source : Nat) : Cpu :=
  { cpu with
    ime := false
    halted := false
    regs := { cpu.regs with pc := 0x40 + 8 * UInt16.ofNat source, sp := cpu.regs.sp - 2 } }

/-- The stores of a dispatch: the requests without the source, and then PC. -/
def dispatchStores (cpu : Cpu) (source : Nat) (requested : UInt8) : List (UInt16 × UInt8) :=
  [(Hardware.interruptFlags, requested &&& ~~~(1 <<< UInt8.ofNat source)),
    (cpu.regs.sp - 1, hiByte cpu.regs.pc), (cpu.regs.sp - 2, loByte cpu.regs.pc)]

theorem service_of_none {β γ : Type} [Bus β] [LawfulBus β γ] {cpu : Cpu} {bus : β}
    (h : cpu.dueSource (view bus) = none) :
    ((cpu.serviceInterrupt).run bus).1 = (none, cpu) ∧
      held ((cpu.serviceInterrupt).run bus).2 = held bus := by
  obtain ⟨hresult, hheld⟩ := cpu.serviceInterrupt_run bus
  rw [serviceOutcome_of_none h] at hresult hheld
  exact ⟨hresult, hheld⟩

theorem service_of_some {cpu : Cpu} {s : AddressSpace} {memory : Memory} {source : Nat}
    (hs : s.Holds memory) (h : cpu.dueSource memory.get = some source) :
    ((cpu.serviceInterrupt).run s).1 = (some dispatchCycles, cpu.entered source) ∧
      ((cpu.serviceInterrupt).run s).2.Holds
        (memory.setAll (cpu.dispatchStores source (memory.get Hardware.interruptFlags))) := by
  have hview : view s = memory.get := funext hs.peek
  obtain ⟨hresult, hheld⟩ := cpu.serviceInterrupt_run s
  rw [hview, serviceOutcome_of_some h] at hresult hheld
  exact ⟨hresult, (hs.of_putAll hheld).1⟩

theorem exists_dueSource (cpu : Cpu) (image : Image)
    (h : ¬(cpu.ime = false ∨ image.pending.bits = 0)) :
    ∃ source, cpu.dueSource image = some source ∧
      image.pending.bits.toNat.testBit source = true ∧
      ∀ lower < source, image.pending.bits.toNat.testBit lower = false := by
  obtain ⟨source, hsource⟩ := Option.ne_none_iff_exists'.mp (mt dueSource_eq_none_iff.mp h)
  obtain ⟨-, hbit, hlower⟩ :=
    Interrupts.lowest?_eq_some_iff.mp (lowest?_of_dueSource hsource).2
  exact ⟨source, hsource, hbit, hlower⟩

/-! ## One dispatch after the other -/

/-- Looks for interrupts some times in a row, each time with interrupts enabled before. Tells for
    each time the cycles of the dispatch and the handler that was entered, if there was one. -/
def servings {β : Type} [Bus β] : Nat → Cpu → StateM β (List (Option (Nat × UInt16)))
  | 0, _ => return []
  | n + 1, cpu => do
    let (cycles, cpu) ← ({ cpu with ime := true } : Cpu).serviceInterrupt
    let later ← servings n cpu
    return cycles.map (·, cpu.regs.pc) :: later

theorem servings_zero {β : Type} [Bus β] (cpu : Cpu) (bus : β) :
    ((servings 0 cpu).run bus).1 = [] := rfl

theorem servings_succ {β : Type} [Bus β] (n : Nat) (cpu : Cpu) (bus : β) :
    ((servings (n + 1) cpu).run bus).1 =
      let served := (({ cpu with ime := true } : Cpu).serviceInterrupt).run bus
      served.1.1.map (·, served.1.2.regs.pc) :: ((servings n served.1.2).run served.2).1 := rfl

/-- The dispatch of a source, as `servings` tells it. -/
def serving (source : Nat) : Option (Nat × UInt16) :=
  some (5, 0x40 + 8 * UInt16.ofNat source)

theorem servings_of_nil {cpu : Cpu} {s : AddressSpace} {memory : Memory} (hs : s.Holds memory)
    (hnone : (Image.pending memory.get).toList = []) (n : Nat) :
    ((servings n cpu).run s).1 = List.replicate n none := by
  induction n generalizing cpu s with
  | zero => rfl
  | succ n ih =>
    have hview : view s = memory.get := funext hs.peek
    have hdue : ({ cpu with ime := true } : Cpu).dueSource (view s) = none := by
      rw [hview]
      exact dueSource_eq_none_iff.mpr (.inr (Interrupts.toList_eq_nil_iff.mp hnone))
    obtain ⟨hresult, hheld⟩ := service_of_none hdue
    rw [servings_succ]
    simp only [hresult]
    exact congrArg (none :: ·) (ih (hs.of_quiet hheld))

/-- With the stack out of the way a dispatch changes the interrupt registers in one bit only. -/
theorem get_dispatch_of_apart (cpu : Cpu) (memory : Memory) (source : Nat) (requested : UInt8)
    (henable : ¬Below cpu.regs.sp 2 Hardware.interruptEnable)
    (hflags : ¬Below cpu.regs.sp 2 Hardware.interruptFlags) :
    let served := memory.setAll (cpu.dispatchStores source requested)
    served.get Hardware.interruptEnable = memory.get Hardware.interruptEnable ∧
      served.get Hardware.interruptFlags = requested &&& ~~~(Interrupts.single source).bits := by
  intro served
  rw [below_add_two, not_or, not_or] at henable hflags
  have hpushed (address : UInt16) (hhigh : address ≠ cpu.regs.sp - 1)
      (hlow : address ≠ cpu.regs.sp - 2) :
      storesAt (storesOf (pushActions cpu.regs.sp cpu.regs.pc)) address = false := by
    simp [storesAt, storesOf, pushActions, Action.stores, hhigh.symm, hlow.symm]
  have hstored (before : UInt8) (address : UInt16) (hhigh : address ≠ cpu.regs.sp - 1)
      (hlow : address ≠ cpu.regs.sp - 2) :
      lastStored (cpu.dispatchStores source requested) address before =
        if Hardware.interruptFlags = address then
          requested &&& ~~~(Interrupts.single source).bits
        else before :=
    lastStored_of_not_storesAt _ (hpushed address hhigh hlow)
  constructor
  · rw [memory.get_setAll_of_ne_divider _ (by decide), hstored _ _ henable.1 henable.2.1]
    rfl
  · rw [memory.get_setAll_of_ne_divider _ (by decide), hstored _ _ hflags.1 hflags.2.1, if_pos rfl]

/-- Each pending source is served once, in the order of the bits, as long as the pushes stay away
    from the interrupt registers; then there is nothing left to serve. -/
theorem servings_run {cpu : Cpu} {s : AddressSpace} {memory : Memory} (hs : s.Holds memory)
    {sources : List Nat} (hsources : (Image.pending memory.get).toList = sources)
    (henable : ¬Below cpu.regs.sp (2 * sources.length) Hardware.interruptEnable)
    (hflags : ¬Below cpu.regs.sp (2 * sources.length) Hardware.interruptFlags) (n : Nat) :
    ((servings n cpu).run s).1 =
      (sources.map serving).take n ++ List.replicate (n - sources.length) none := by
  induction sources generalizing cpu s memory n with
  | nil => simpa using servings_of_nil hs hsources n
  | cons source rest ih =>
    cases n with
    | zero => simp [servings_zero]
    | succ n =>
      have hdue : ({ cpu with ime := true } : Cpu).dueSource memory.get = some source := by
        rw [dueSource, if_pos rfl, ← Interrupts.head?_toList, hsources, List.head?_cons]
      obtain ⟨hresult, hheld⟩ := service_of_some hs hdue
      have hdeep : 2 ≤ 2 * (source :: rest).length := by
        rw [List.length_cons]
        omega
      obtain ⟨hsameEnable, hflagsWithout⟩ :=
        get_dispatch_of_apart { cpu with ime := true } memory source
          (memory.get Hardware.interruptFlags) (fun h => henable (h.mono hdeep))
          (fun h => hflags (h.mono hdeep))
      have hrest := Image.toList_pending_without hsources hsameEnable hflagsWithout
      rw [List.length_cons, Nat.mul_succ, below_add_two, not_or, not_or] at henable hflags
      have hlater : ((servings n (({ cpu with ime := true } : Cpu).entered source)).run _).1 = _ :=
        ih hheld hrest henable.2.2 hflags.2.2 n
      rw [servings_succ]
      simp only [hresult, hlater]
      simp [serving, entered, dispatchCycles]

/-- Looking for interrupts on a memory that keeps what is stored. If interrupts are disabled or no
    source is pending, nothing happens. Otherwise the handler of the lowest pending source is
    entered: its request is taken back and then PC is pushed, wherever the stack is, and nothing
    else changes. With the stack away from the interrupt registers, looking again and again serves
    each pending source once, in the order of the bits, and then nothing more. -/
theorem dispatch_exact (cpu : Cpu) {s : AddressSpace} {memory : Memory} (hs : s.Holds memory) :
    let pending := memory.get 0xFFFF &&& memory.get 0xFF0F &&& 0x1F
    let served := (cpu.serviceInterrupt).run s
    let sources := (List.range 8).filter (pending.toNat.testBit ·)
    (served.1 = (none, cpu) ∧ served.2.quiet = s.quiet ↔ cpu.ime = false ∨ pending = 0) ∧
      (¬(cpu.ime = false ∨ pending = 0) →
        ∃ source, pending.toNat.testBit source = true ∧
          (∀ lower < source, pending.toNat.testBit lower = false) ∧
          served.1 = (some 5, cpu.entered source) ∧
          served.2.Holds
            (memory.setAll (cpu.dispatchStores source (memory.get Hardware.interruptFlags)))) ∧
      (¬Below cpu.regs.sp (2 * sources.length) Hardware.interruptEnable →
        ¬Below cpu.regs.sp (2 * sources.length) Hardware.interruptFlags →
          ∀ n, ((servings n cpu).run s).1 =
            (sources.map serving).take n ++ List.replicate (n - sources.length) none) := by
  intro pending served sources
  have hview : view s = memory.get := funext hs.peek
  have hsome : ¬(cpu.ime = false ∨ pending = 0) →
      ∃ source, pending.toNat.testBit source = true ∧
        (∀ lower < source, pending.toNat.testBit lower = false) ∧
        served.1 = (some 5, cpu.entered source) ∧
        served.2.Holds
          (memory.setAll (cpu.dispatchStores source (memory.get Hardware.interruptFlags))) := by
    intro hdue
    obtain ⟨source, hsource, hbit, hlower⟩ := exists_dueSource cpu memory.get hdue
    exact ⟨source, hbit, hlower, service_of_some hs hsource⟩
  refine ⟨⟨?_, ?_⟩, hsome, ?_⟩
  · rintro ⟨hnone, -⟩
    apply Classical.byContradiction
    intro hdue
    obtain ⟨source, -, -, hserved, -⟩ := hsome hdue
    simp [hnone] at hserved
  · intro hnot
    apply service_of_none
    rw [hview]
    exact dueSource_eq_none_iff.mpr hnot
  · intro henable hflags n
    exact servings_run hs rfl henable hflags n

/-- A memory with the display status and the timer pending, and with bits of no source set. -/
def twoPending : Memory :=
  (Memory.zero.set Hardware.interruptEnable 0xFF).set Hardware.interruptFlags 0xE6

theorem get_twoPending (address : UInt16) :
    twoPending.get address =
      if address = Hardware.interruptFlags then 0xE6
      else if address = Hardware.interruptEnable then 0xFF else 0 := by
  rw [twoPending, Memory.get_set, Memory.get_set, Memory.get_zero]

theorem dispatch_exact_twoPending :
    let s : AddressSpace := { store := .owned twoPending }
    let cpu : Cpu := { regs := { pc := 0x1234, sp := 0xC000 }, ime := true }
    ((cpu.serviceInterrupt).run s).1 = (some 5, cpu.entered 1) ∧
      ((cpu.serviceInterrupt).run s).2.Holds
        (twoPending.setAll [(0xFF0F, 0xE4), (0xBFFF, 0x12), (0xBFFE, 0x34)]) ∧
      ((servings 3 cpu).run s).1 = [some (5, 0x48), some (5, 0x50), none] := by
  intro s cpu
  have hs : s.Holds twoPending := ⟨rfl, rfl⟩
  have hflags : twoPending.get Hardware.interruptFlags = 0xE6 := by
    rw [get_twoPending]
    rfl
  have hpending : twoPending.get 0xFFFF &&& twoPending.get 0xFF0F &&& 0x1F = 6 := by
    rw [get_twoPending, get_twoPending]
    rfl
  obtain ⟨-, hsome, hall⟩ := dispatch_exact cpu hs
  rw [hpending] at hsome hall
  obtain ⟨source, hbit, hlower, hresult, hheld⟩ := hsome (by decide)
  have hle : source ≤ 1 := Nat.not_lt.mp fun h => absurd (hlower 1 h) (by decide)
  have hne : source ≠ 0 := fun h => absurd (h ▸ hbit) (by decide)
  have hsource : source = 1 := by omega
  have hstores :
      cpu.dispatchStores 1 0xE6 = [(0xFF0F, 0xE4), (0xBFFF, 0x12), (0xBFFE, 0x34)] := by
    decide
  subst hsource
  rw [hflags, hstores] at hheld
  exact ⟨hresult, hheld, hall (by decide) (by decide) 3⟩

end Cpu

end Handheld
