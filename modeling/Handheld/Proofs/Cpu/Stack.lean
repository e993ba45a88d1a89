-- SUMMARY: Words pushed and popped in any order: below the address where the stack pointer began, memory is a stack of words.
import Handheld.Proofs.Bus.Storing
import Handheld.Proofs.Cpu.Outcome

namespace Handheld

open LawfulBus

/-! ## Uses of a stack -/

/-- One use of a stack. -/
inductive StackUse where
  | push (word : UInt16)
  | pop
deriving DecidableEq, Repr

namespace StackUse

/-- The number of words that are pushed. -/
def pushes (uses : List StackUse) : Nat :=
  uses.countP (· != pop)

/-- The number of words that are popped. -/
def pops (uses : List StackUse) : Nat :=
  uses.count pop

@[simp] theorem pushes_nil : pushes [] = 0 := rfl
@[simp] theorem pops_nil : pops [] = 0 := rfl

@[simp] theorem pushes_push (word : UInt16) (uses : List StackUse) :
    pushes (push word :: uses) = pushes uses + 1 := by
  simp [pushes]

@[simp] theorem pops_push (word : UInt16) (uses : List StackUse) :
    pops (push word :: uses) = pops uses := by
  simp [pops]

@[simp] theorem pushes_pop (uses : List StackUse) : pushes (pop :: uses) = pushes uses := by
  simp [pushes]

@[simp] theorem pops_pop (uses : List StackUse) : pops (pop :: uses) = pops uses + 1 := by
  simp [pops]

@[simp] theorem pushes_append (uses later : List StackUse) :
    pushes (uses ++ later) = pushes uses + pushes later :=
  List.countP_append

@[simp] theorem pops_append (uses later : List StackUse) :
    pops (uses ++ later) = pops uses + pops later :=
  List.count_append

/-- The number of words that fill memory. -/
def capacity : Nat := 32768

/-- On top of some words the uses never pop from an empty stack and never fill more than memory. -/
def Fits (length : Nat) (uses : List StackUse) : Prop :=
  ∀ earlier, earlier <+: uses →
    pops earlier ≤ length + pushes earlier ∧ length + pushes earlier ≤ pops earlier + capacity

theorem Fits.of_push {length : Nat} {word : UInt16} {uses : List StackUse}
    (h : Fits length (push word :: uses)) : length + 1 ≤ capacity ∧ Fits (length + 1) uses := by
  have hcons (earlier : List StackUse) (hearlier : earlier <+: uses) :
      pops earlier ≤ length + 1 + pushes earlier ∧
        length + 1 + pushes earlier ≤ pops earlier + capacity := by
    obtain ⟨hpops, hroom⟩ := h _ (List.cons_prefix_cons.mpr ⟨rfl, hearlier⟩)
    simp only [pops_push, pushes_push] at hpops hroom
    omega
  have hnil := hcons [] List.nil_prefix
  simp only [pops_nil, pushes_nil] at hnil
  exact ⟨by omega, hcons⟩

theorem Fits.of_pop {length : Nat} {uses : List StackUse} (h : Fits length (pop :: uses)) :
    ∃ rest, length = rest + 1 ∧ Fits rest uses := by
  have hone := (h [pop] (List.cons_prefix_cons.mpr ⟨rfl, List.nil_prefix⟩)).1
  simp only [pops_pop, pops_nil, pushes_pop, pushes_nil] at hone
  obtain ⟨rest, rfl⟩ := Nat.exists_eq_add_of_le' hone
  refine ⟨rest, rfl, ?_⟩
  intro earlier hearlier
  obtain ⟨hpops, hroom⟩ := h _ (List.cons_prefix_cons.mpr ⟨rfl, hearlier⟩)
  simp only [pops_pop, pushes_pop] at hpops hroom
  omega

/-- Each word that is pushed is popped again, and nothing else is popped. -/
inductive Balanced : List StackUse → Prop where
  | nil : Balanced []
  | pair (word : UInt16) {inner rest : List StackUse} :
    Balanced inner → Balanced rest → Balanced (push word :: (inner ++ pop :: rest))

theorem Balanced.append {uses later : List StackUse} (h : Balanced uses) (hlater : Balanced later) :
    Balanced (uses ++ later) := by
  induction h with
  | nil => exact hlater
  | pair word hinner _ _ hrest =>
    rw [List.cons_append, List.append_assoc, List.cons_append]
    exact .pair word hinner hrest

theorem Balanced.pops_eq {uses : List StackUse} (h : Balanced uses) : pops uses = pushes uses := by
  induction h with
  | nil => rfl
  | pair word _ _ hinner hrest =>
    simp only [pops_push, pops_append, pops_pop, pushes_push, pushes_append, pushes_pop, hinner,
      hrest]
    omega

/-- If more is pushed than popped, then some push is matched by what comes after. -/
theorem exists_match (uses : List StackUse) (h : pops uses < pushes uses) :
    ∃ before word inner, uses = before ++ push word :: inner ∧ Balanced inner := by
  rcases List.eq_nil_or_concat uses with rfl | ⟨first, last, huses⟩
  · cases h
  · rw [List.concat_eq_append] at huses
    subst huses
    cases last with
    | push word => exact ⟨first, word, [], rfl, .nil⟩
    | pop =>
      -- What the last pop matches is behind it, and what is searched for lies before that.
      simp only [pops_append, pops_pop, pops_nil, pushes_append, pushes_pop, pushes_nil] at h
      obtain ⟨before, word, inner, rfl, hinner⟩ := exists_match first (by omega)
      have hbalance := hinner.pops_eq
      simp only [pops_append, pops_push, pushes_append, pushes_push] at h
      obtain ⟨sooner, word', inner', rfl, hinner'⟩ := exists_match before (by omega)
      refine ⟨sooner, word', inner' ++ push word :: (inner ++ [pop]), by simp, ?_⟩
      exact hinner'.append (.pair word hinner .nil)
termination_by uses.length
decreasing_by all_goals simp_all

end StackUse

/-! ## Stacks of words

This is the stack that memory is compared to. It remembers how many words it has
held at most, since so far down memory may have changed. -/

/-- A stack of words. -/
structure WordStack where
  /-- The words, newest first. -/
  words : List UInt16
  /-- How many words there have been at most. -/
  deepest : Nat
  length_le : words.length ≤ deepest

namespace WordStack

/-- A stack on which nothing has ever been. -/
def empty : WordStack where
  words := []
  deepest := 0
  length_le := Nat.le_refl 0

/-- The stack after it has been used. Nothing is popped from an empty stack. -/
def use (stack : WordStack) : StackUse → WordStack
  | .push word =>
    { words := word :: stack.words
      deepest := max stack.deepest (stack.words.length + 1)
      length_le := Nat.le_max_right .. }
  | .pop =>
    { words := stack.words.tail
      deepest := stack.deepest
      length_le := by
        rw [List.length_tail]
        exact Nat.le_trans (Nat.sub_le ..) stack.length_le }

/-- What a use yields: the newest word if it is popped. -/
def answer (stack : WordStack) : StackUse → Option UInt16
  | .push _ => none
  | .pop => stack.words.head?

/-- The stack after it has been used several times. -/
def after (stack : WordStack) (uses : List StackUse) : WordStack :=
  uses.foldl use stack

/-- What several uses yield, one after the other. -/
def answers (stack : WordStack) : List StackUse → List (Option UInt16)
  | [] => []
  | one :: uses => stack.answer one :: (stack.use one).answers uses

theorem after_cons (stack : WordStack) (one : StackUse) (uses : List StackUse) :
    stack.after (one :: uses) = (stack.use one).after uses := rfl

theorem after_append (stack : WordStack) (uses later : List StackUse) :
    stack.after (uses ++ later) = (stack.after uses).after later :=
  List.foldl_append

theorem answers_append (stack : WordStack) (uses later : List StackUse) :
    stack.answers (uses ++ later) = stack.answers uses ++ (stack.after uses).answers later := by
  induction uses generalizing stack with
  | nil => rfl
  | cons one uses ih =>
    rw [List.cons_append, answers, ih]
    rfl

theorem length_answers (stack : WordStack) (uses : List StackUse) :
    (stack.answers uses).length = uses.length := by
  induction uses generalizing stack with
  | nil => rfl
  | cons one uses ih => simp [answers, ih]

theorem deepest_le_use (stack : WordStack) (one : StackUse) :
    stack.deepest ≤ (stack.use one).deepest := by
  cases one with
  | push word => exact Nat.le_max_left ..
  | pop => exact Nat.le_refl _

theorem deepest_le_after (stack : WordStack) (uses : List StackUse) :
    stack.deepest ≤ (stack.after uses).deepest := by
  induction uses generalizing stack with
  | nil => exact Nat.le_refl _
  | cons one uses ih => exact Nat.le_trans (stack.deepest_le_use one) (ih _)

theorem length_use_pop {stack : WordStack} {rest : Nat} (h : stack.words.length = rest + 1) :
    (stack.use .pop).words.length = rest := by
  simp [use, h]

theorem fits_use {stack : WordStack} {one : StackUse} {uses : List StackUse}
    (h : StackUse.Fits stack.words.length (one :: uses)) :
    StackUse.Fits (stack.use one).words.length uses := by
  cases one with
  | push word => exact h.of_push.2
  | pop =>
    obtain ⟨rest, hlength, hrest⟩ := h.of_pop
    rw [length_use_pop hlength]
    exact hrest

/-- The words that are left are those that were pushed and not popped. -/
theorem length_after {stack : WordStack} {uses : List StackUse}
    (hfits : StackUse.Fits stack.words.length uses) :
    (stack.after uses).words.length + StackUse.pops uses =
      stack.words.length + StackUse.pushes uses := by
  induction uses generalizing stack with
  | nil => rfl
  | cons one uses ih =>
    rw [after_cons]
    have hrest := ih (fits_use hfits)
    cases one with
    | push word =>
      have hlength : (stack.use (.push word)).words.length = stack.words.length + 1 := rfl
      simp only [StackUse.pops_push, StackUse.pushes_push]
      omega
    | pop =>
      obtain ⟨rest, hlength, -⟩ := hfits.of_pop
      have htail := length_use_pop hlength
      simp only [StackUse.pops_pop, StackUse.pushes_pop]
      omega

/-- What is pushed and popped on top of a stack leaves the stack as it is. -/
theorem words_after_of_balanced {uses : List StackUse} (h : StackUse.Balanced uses)
    (stack : WordStack) : (stack.after uses).words = stack.words := by
  induction h generalizing stack with
  | nil => rfl
  | pair word _ _ hinner hrest =>
    rw [after_cons, after_append, after_cons, hrest]
    simp [use, hinner]

/-- A pop yields the word of the push that it matches. -/
theorem answers_of_balanced (stack : WordStack) (before : List StackUse) (word : UInt16)
    {inner : List StackUse} (hinner : StackUse.Balanced inner) (rest : List StackUse) :
    (stack.answers ((before ++ .push word :: inner) ++ .pop :: rest))[
      (before ++ .push word :: inner).length]? = some (some word) := by
  have htop : (stack.after (before ++ .push word :: inner)).answer .pop = some word := by
    rw [answer, after_append, after_cons, words_after_of_balanced hinner]
    rfl
  rw [answers_append, ← length_answers stack, List.getElem?_append_right (Nat.le_refl _),
    Nat.sub_self, answers, htop]
  rfl

end WordStack

/-! ## Pushing and popping -/

/-- A word that is pushed lies below the stack pointer, and the bytes around it are kept. -/
theorem StoringAt.push {β γ : Type} [Bus β] [LawfulBus β γ] {P : γ → Prop}
    {place : UInt16 → Prop} (hstoring : StoringAt β P place) {h : γ} (hP : P h)
    (sp value : UInt16) (hhigh : place (sp - 1)) (hlow : place (sp - 2)) :
    let pushed := putAll (β := β) (Cpu.pushActions sp value) h
    P pushed ∧ (image β pushed).wordAt (sp - 2) = value ∧
      ∀ address, address ≠ sp - 1 → address ≠ sp - 2 → image β pushed address = image β h address := by
  intro pushed
  have hfirst := hstoring.keeps (sp - 1) (hiByte value) hP
  have hread (address : UInt16) : image β pushed address =
      if address = sp - 2 then loByte value
      else if address = sp - 1 then hiByte value else image β h address := by
    refine (hstoring.reads (loByte value) address hfirst hlow).trans ?_
    rw [hstoring.reads (hiByte value) address hP hhigh]
  have habove : sp - 2 + 1 = sp - 1 := by grind
  have hne : sp - 1 ≠ sp - 2 := by grind
  refine ⟨hstoring.keeps _ _ hfirst, ?_, ?_⟩
  · rw [Image.wordAt, habove, hread, hread, if_neg hne, if_pos rfl, if_pos rfl, word_hiByte_loByte]
  · intro address hnotHigh hnotLow
    rw [hread, if_neg hnotLow, if_neg hnotHigh]

namespace Cpu

section

variable {β : Type} [Bus β]

/-- Uses the stack as instructions do, and returns the word that was popped, if any. -/
def useStack (cpu : Cpu) : StackUse → StateM β (Option UInt16 × Cpu)
  | .push word => do
    let pushed := cpu.push word
    performAll pushed.actions
    return (none, pushed.cpu)
  | .pop => do
    let word ← (DataRead.stack cpu.regs.sp).perform
    return (some word, cpu.drop)

/-- Uses the stack several times. -/
def useStackAll (cpu : Cpu) : List StackUse → StateM β (List (Option UInt16) × Cpu)
  | [] => return ([], cpu)
  | one :: uses => do
    let (answer, cpu) ← cpu.useStack one
    let (answers, cpu) ← cpu.useStackAll uses
    return (answer :: answers, cpu)

theorem useStackAll_cons (cpu : Cpu) (one : StackUse) (uses : List StackUse) (bus : β) :
    (cpu.useStackAll (one :: uses)).run bus =
      let used := (cpu.useStack one).run bus
      let later := (used.1.2.useStackAll uses).run used.2
      ((used.1.1 :: later.1.1, later.1.2), later.2) := rfl

end

/-- A processor, and what a reader finds, after a stack has been used that was empty when the
    processor was `start` and a reader found `before`. -/
structure Carries (start : Cpu) (before : Image) (stack : WordStack) (cpu : Cpu) (image : Image) :
    Prop where
  cpu_eq : cpu =
    { start with regs.sp := start.regs.sp - 2 * UInt16.ofNat stack.words.length }
  /-- The words lie from the stack pointer upwards, the newest one lowest. -/
  word_at : ∀ i word, stack.words[i]? = some word →
    image.wordAt (cpu.regs.sp + 2 * UInt16.ofNat i) = word
  apart : ∀ address, ¬Below start.regs.sp (2 * stack.deepest) address →
    image address = before address

theorem Carries.empty (cpu : Cpu) (image : Image) : cpu.Carries image .empty cpu image where
  cpu_eq := by simp [WordStack.empty]
  word_at i word h := by cases h
  apart _ _ := rfl

/-! ### One use -/

section

variable {start cpu : Cpu} {before image : Image} {stack : WordStack}

theorem Carries.sp_eq (h : start.Carries before stack cpu image) :
    cpu.regs.sp = start.regs.sp - 2 * UInt16.ofNat stack.words.length := by
  rw [h.cpu_eq]

/-- The two bytes that a push reaches lie in the window. -/
theorem Carries.below_push (h : start.Carries before stack cpu image) (word : UInt16) :
    Below start.regs.sp (2 * (stack.use (.push word)).deepest) (cpu.regs.sp - 1) ∧
      Below start.regs.sp (2 * (stack.use (.push word)).deepest) (cpu.regs.sp - 2) := by
  have hdeep : stack.words.length + 1 ≤ (stack.use (.push word)).deepest := Nat.le_max_right ..
  rw [h.sp_eq]
  constructor
  · refine ⟨2 * stack.words.length, by omega, ?_⟩
    rw [UInt16.ofNat_add, UInt16.ofNat_mul]
    grind
  · refine ⟨2 * stack.words.length + 1, by omega, ?_⟩
    rw [UInt16.ofNat_add, UInt16.ofNat_add, UInt16.ofNat_mul]
    grind

/-- With less than a memory between them an address above and one below are apart. -/
theorem add_ofNat_ne_sub_ofNat (base : UInt16) (above below : Nat) (hpos : 0 < above + below)
    (hlt : above + below < memorySize) :
    base + UInt16.ofNat above ≠ base - UInt16.ofNat below := by
  intro heq
  have hzero : UInt16.ofNat (above + below) = 0 := by
    rw [UInt16.ofNat_add]
    grind
  have hnat := congrArg UInt16.toNat hzero
  rw [UInt16.toNat_ofNat', Nat.mod_eq_of_lt (show above + below < 2 ^ 16 from hlt)] at hnat
  exact Nat.ne_of_gt hpos hnat

/-- The two bytes below the stack pointer belong to none of the words, as long as there is room. -/
theorem Carries.word_kept (h : start.Carries before stack cpu image) {image' : Image}
    (hroom : stack.words.length + 1 ≤ StackUse.capacity)
    (hkept : ∀ address, address ≠ cpu.regs.sp - 1 → address ≠ cpu.regs.sp - 2 →
      image' address = image address)
    {i : Nat} {word : UInt16} (hword : stack.words[i]? = some word) :
    image'.wordAt (cpu.regs.sp + 2 * UInt16.ofNat i) = word := by
  have hlt : i < stack.words.length := (List.getElem?_eq_some_iff.mp hword).1
  have hbyte (k : Nat) (hk : k < 2 * stack.words.length) :
      image' (cpu.regs.sp + UInt16.ofNat k) = image (cpu.regs.sp + UInt16.ofNat k) := by
    have hcapacity : StackUse.capacity = 32768 := rfl
    have hsize : memorySize = 65536 := rfl
    exact hkept _ (add_ofNat_ne_sub_ofNat _ k 1 (by omega) (by omega))
      (add_ofNat_ne_sub_ofNat _ k 2 (by omega) (by omega))
  have hdouble : 2 * UInt16.ofNat i = UInt16.ofNat (2 * i) := (UInt16.ofNat_mul 2 i).symm
  have hnext : cpu.regs.sp + UInt16.ofNat (2 * i) + 1 =
      cpu.regs.sp + UInt16.ofNat (2 * i + 1) := by
    rw [UInt16.ofNat_add]
    grind
  rw [← h.word_at i word hword, hdouble, Image.wordAt, Image.wordAt, hnext, hbyte _ (by omega),
    hbyte _ (by omega)]

theorem Carries.push (h : start.Carries before stack cpu image) {word : UInt16} {image' : Image}
    (hroom : stack.words.length + 1 ≤ StackUse.capacity)
    (hpushed : image'.wordAt (cpu.regs.sp - 2) = word)
    (hkept : ∀ address, address ≠ cpu.regs.sp - 1 → address ≠ cpu.regs.sp - 2 →
      image' address = image address) :
    start.Carries before (stack.use (.push word)) (cpu.push word).cpu image' where
  cpu_eq := by
    have hsp : cpu.regs.sp - 2 =
        start.regs.sp - 2 * UInt16.ofNat (stack.words.length + 1) := by
      rw [h.sp_eq, UInt16.ofNat_add]
      grind
    rw [Cpu.push, hsp, h.cpu_eq]
    rfl
  word_at i other hother := by
    cases i with
    | zero =>
      cases hother
      rw [← hpushed]
      exact congrArg image'.wordAt (by simp [Cpu.push])
    | succ i =>
      have hplace : (cpu.push word).cpu.regs.sp + 2 * UInt16.ofNat (i + 1) =
          cpu.regs.sp + 2 * UInt16.ofNat i := by
        rw [UInt16.ofNat_add, Cpu.push]
        grind
      rw [hplace]
      exact h.word_kept hroom hkept hother
  apart address haddress := by
    obtain ⟨hhigh, hlow⟩ := h.below_push word
    have hdeep := Nat.mul_le_mul_left 2 (stack.deepest_le_use (.push word))
    have hwindow := mt (Below.mono · hdeep) haddress
    rw [hkept address (fun heq => haddress (heq ▸ hhigh)) (fun heq => haddress (heq ▸ hlow))]
    exact h.apart address hwindow

/-- The stack pointer is at the newest word. -/
theorem Carries.top (h : start.Carries before stack cpu image) {word : UInt16}
    {rest : List UInt16} (hwords : stack.words = word :: rest) :
    image.wordAt cpu.regs.sp = word := by
  have hzero : cpu.regs.sp + 2 * UInt16.ofNat 0 = cpu.regs.sp := by grind
  rw [← hzero]
  exact h.word_at 0 word (by rw [hwords]; rfl)

theorem Carries.pop (h : start.Carries before stack cpu image) {word : UInt16}
    {rest : List UInt16} (hwords : stack.words = word :: rest) :
    start.Carries before (stack.use .pop) cpu.drop image where
  cpu_eq := by
    have hsp : cpu.regs.sp + 2 = start.regs.sp - 2 * UInt16.ofNat stack.words.tail.length := by
      rw [h.sp_eq, hwords, List.length_cons, List.tail_cons, UInt16.ofNat_add]
      grind
    rw [drop, hsp, h.cpu_eq]
    rfl
  word_at i word hword := by
    have hplace : cpu.drop.regs.sp + 2 * UInt16.ofNat i =
        cpu.regs.sp + 2 * UInt16.ofNat (i + 1) := by
      rw [UInt16.ofNat_add, drop]
      grind
    rw [hplace]
    apply h.word_at (i + 1)
    rw [← List.getElem?_tail]
    exact hword
  apart := h.apart

/-! ### Many uses -/

section

variable {β γ : Type} [Bus β] [LawfulBus β γ] {P : γ → Prop} {place : UInt16 → Prop}

/-- Using the stack once answers as the stack of words does, and keeps what it carries. -/
theorem Carries.useStack (hstoring : StoringAt β P place) {bus : β} (hP : P (held bus))
    (h : start.Carries before stack cpu (view bus)) {one : StackUse} {uses : List StackUse}
    (hfits : StackUse.Fits stack.words.length (one :: uses))
    (hplace : ∀ address, Below start.regs.sp (2 * (stack.use one).deepest) address →
      place address) :
    let used := (cpu.useStack one).run bus
    used.1.1 = stack.answer one ∧ P (held used.2) ∧
      start.Carries before (stack.use one) used.1.2 (view used.2) := by
  cases one with
  | push word =>
    obtain ⟨hroom, -⟩ := hfits.of_push
    obtain ⟨hhigh, hlow⟩ := h.below_push word
    obtain ⟨hkeeps, hword, hother⟩ :=
      hstoring.push hP cpu.regs.sp word (hplace _ hhigh) (hplace _ hlow)
    have hheld : held ((cpu.useStack (.push word)).run bus).2 =
        putAll (β := β) (pushActions cpu.regs.sp word) (held bus) :=
      performAll_held (pushActions cpu.regs.sp word) bus
    rw [← hheld] at hkeeps hword hother
    exact ⟨rfl, hkeeps, h.push hroom hword hother⟩
  | pop =>
    obtain ⟨left, hlength, -⟩ := hfits.of_pop
    obtain ⟨word, rest, hwords⟩ := List.exists_cons_of_length_eq_add_one hlength
    obtain ⟨hvalue, hheld⟩ := perform_observes (.stack cpu.regs.sp) bus
    have hanswer : ((cpu.useStack .pop).run bus).1.1 = some ((view bus).wordAt cpu.regs.sp) :=
      congrArg some hvalue
    have hheld' : held ((cpu.useStack .pop).run bus).2 = held bus := hheld
    have hview : view ((cpu.useStack .pop).run bus).2 = view bus := view_eq_of_held_eq hheld
    refine ⟨?_, hheld'.symm ▸ hP, ?_⟩
    · rw [hanswer, h.top hwords, WordStack.answer, hwords]
      rfl
    · rw [hview]
      exact h.pop hwords

/-- The same of using the stack many times. -/
theorem Carries.useStackAll (hstoring : StoringAt β P place) {bus : β} (hP : P (held bus))
    (h : start.Carries before stack cpu (view bus)) {uses : List StackUse}
    (hfits : StackUse.Fits stack.words.length uses)
    (hplace : ∀ address, Below start.regs.sp (2 * (stack.after uses).deepest) address →
      place address) :
    let used := (cpu.useStackAll uses).run bus
    used.1.1 = stack.answers uses ∧
      start.Carries before (stack.after uses) used.1.2 (view used.2) := by
  induction uses generalizing cpu stack bus with
  | nil => exact ⟨rfl, h⟩
  | cons one uses ih =>
    have hdeep := Nat.mul_le_mul_left 2 ((stack.use one).deepest_le_after uses)
    obtain ⟨hanswer, hkeeps, hcarries⟩ :=
      h.useStack hstoring hP hfits fun address hbelow => hplace address (hbelow.mono hdeep)
    obtain ⟨hanswers, hlast⟩ := ih hkeeps hcarries (WordStack.fits_use hfits) hplace
    rw [useStackAll_cons]
    exact ⟨List.cons_eq_cons.mpr ⟨hanswer, hanswers⟩, hlast⟩

end

end

/-- Pushing and popping words in any order, with no word popped that was not pushed and no more
    words than fill memory. Each pop yields the word of the push that it matches, and always the
    stack pointer stands below its start by the words that are outstanding, these lie from there
    upwards with the newest lowest, no byte changes that the pushes did not reach, and no register
    but the stack pointer. This is so on the flat bus, and on an address space that does not log
    as long as the pushes did not reach the divider. -/
theorem stack_refines (cpu : Cpu) {uses : List StackUse}
    (hnever : ∀ earlier, earlier <+: uses → StackUse.pops earlier ≤ StackUse.pushes earlier)
    (hroom : ∀ earlier, earlier <+: uses →
      StackUse.pushes earlier - StackUse.pops earlier ≤ 32768) :
    (∀ earlier rest, uses = earlier ++ .pop :: rest →
      ∃ before word inner, earlier = before ++ .push word :: inner ∧ StackUse.Balanced inner ∧
        (WordStack.empty.answers uses)[earlier.length]? = some (some word)) ∧
      ∀ earlier, earlier <+: uses →
        let stack := WordStack.empty.after earlier
        stack.words.length = StackUse.pushes earlier - StackUse.pops earlier ∧
          (∀ flat : FlatBus,
            let used := (cpu.useStackAll earlier).run flat
            used.1.1 = WordStack.empty.answers earlier ∧
              cpu.Carries flat.memory.get stack used.1.2 used.2.memory.get) ∧
          ∀ s : AddressSpace, s.logsWrites = false →
            ¬Below cpu.regs.sp (2 * stack.deepest) Hardware.divider →
              let used := (cpu.useStackAll earlier).run s
              used.1.1 = WordStack.empty.answers earlier ∧
                cpu.Carries s.peek stack used.1.2 used.2.peek := by
  constructor
  · rintro earlier rest rfl
    have hpops := hnever (earlier ++ [.pop]) (by simp)
    simp only [StackUse.pops_append, StackUse.pops_pop, StackUse.pops_nil,
      StackUse.pushes_append, StackUse.pushes_pop, StackUse.pushes_nil] at hpops
    obtain ⟨before, word, inner, rfl, hinner⟩ := StackUse.exists_match earlier (by omega)
    exact ⟨before, word, inner, rfl, hinner,
      WordStack.empty.answers_of_balanced before word hinner rest⟩
  · intro earlier hearlier stack
    have hfits : StackUse.Fits 0 earlier := by
      intro sooner hsooner
      have hpops := hnever sooner (hsooner.trans hearlier)
      have hpushes := hroom sooner (hsooner.trans hearlier)
      have hcapacity : StackUse.capacity = 32768 := rfl
      omega
    refine ⟨?_, ?_, ?_⟩
    · have hlength : stack.words.length + StackUse.pops earlier = 0 + StackUse.pushes earlier :=
        WordStack.length_after hfits
      omega
    · intro flat
      exact (Carries.empty cpu (view flat)).useStackAll FlatBus.storingAt trivial hfits
        fun _ _ => trivial
    · intro s hlog hdivider
      exact (Carries.empty cpu (view s)).useStackAll AddressSpace.storing.storingAt hlog hfits
        fun address hbelow heq => hdivider (heq ▸ hbelow)

/-- Two words, one of them on both sides of address zero, popped again. -/
theorem stack_refines_aroundZero :
    let cpu : Cpu := { regs := { sp := 1 } }
    let uses : List StackUse := [.push 0x1234, .push 0x5678, .pop, .pop]
    let s : AddressSpace := {}
    ((cpu.useStackAll uses).run s).1 = ([none, none, some 0x5678, some 0x1234], cpu) ∧
      ∀ address, ¬Below 1 4 address →
        ((cpu.useStackAll uses).run s).2.peek address = s.peek address := by
  intro cpu uses s
  have htake : ∀ n < 5, StackUse.pops (uses.take n) ≤ StackUse.pushes (uses.take n) ∧
      StackUse.pushes (uses.take n) - StackUse.pops (uses.take n) ≤ 32768 := by
    decide
  have hfits (earlier : List StackUse) (h : earlier <+: uses) :
      StackUse.pops earlier ≤ StackUse.pushes earlier ∧
        StackUse.pushes earlier - StackUse.pops earlier ≤ 32768 := by
    rw [List.prefix_iff_eq_take.mp h]
    exact htake _ (Nat.lt_succ_of_le h.length_le)
  obtain ⟨-, hcarried⟩ := stack_refines cpu (fun _ h => (hfits _ h).1) (fun _ h => (hfits _ h).2)
  obtain ⟨hanswers, hcarries⟩ := (hcarried uses (List.prefix_refl uses)).2.2 s rfl (by decide)
  exact ⟨Prod.ext hanswers (hcarries.cpu_eq.trans (by decide)), hcarries.apart⟩

end Cpu

end Handheld
