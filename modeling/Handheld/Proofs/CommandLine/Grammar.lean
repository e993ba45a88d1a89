-- SUMMARY: The grammar of the command line: which lists of arguments are accepted, what they mean, and which error the others get.
import Handheld.CommandLine.Options
import Handheld.Proofs.CommandLine.Numeral

namespace Handheld

/-! ## Groups

Arguments come in groups of one or two: a switch, an option and its value, or the
cartridge. Any text is a value of `--boot`, one that looks like an option too. -/

/-- A group of arguments. A numeral comes with the number that it stands for. -/
inductive ArgumentGroup where
  | bootRom (path : String)
  | maxSteps (numeral : String) (count : Nat)
  | stopAt (numeral : String) (address : UInt16)
  | switch (option : SwitchOption)
  | rom (path : String)
deriving DecidableEq, Repr

/-- An argument has the form of an option. -/
def IsFlag (argument : String) : Prop :=
  ∃ name, argument = "--" ++ name

namespace ArgumentGroup

/-- The arguments of a group. -/
def words : ArgumentGroup → List String
  | bootRom path => ["--boot", path]
  | maxSteps numeral _ => ["--max-steps", numeral]
  | stopAt numeral _ => ["--until", numeral]
  | switch .subRegisterB => ["--sub-register-b"]
  | switch .noScanlineSpoof => ["--no-ly-spoof"]
  | switch .serial => ["--serial"]
  | rom path => [path]

/-- Numerals stand for their numbers, and the cartridge does not look like an option. -/
def WellFormed : ArgumentGroup → Prop
  | maxSteps numeral count => Numeral.IsCount numeral count
  | stopAt numeral address => Numeral.IsAddress numeral address
  | rom path => ¬IsFlag path
  | bootRom _ | switch _ => True

def bootRom? : ArgumentGroup → Option String
  | bootRom path => some path
  | _ => none

def maxSteps? : ArgumentGroup → Option Nat
  | maxSteps _ count => some count
  | _ => none

def stopAt? : ArgumentGroup → Option UInt16
  | stopAt _ address => some address
  | _ => none

def rom? : ArgumentGroup → Option String
  | rom path => some path
  | _ => none

/-- The option that a group belongs to, if it is not the cartridge. -/
def option? : ArgumentGroup → Option (ValuedOption ⊕ SwitchOption)
  | bootRom _ => some (.inl .bootRom)
  | maxSteps .. => some (.inl .maxSteps)
  | stopAt .. => some (.inl .stopAt)
  | switch option => some (.inr option)
  | rom _ => none

/-- The arguments of several groups. -/
def wordsOf (groups : List ArgumentGroup) : List String :=
  groups.flatMap words

/-- The cartridges among several groups. -/
def romsOf (groups : List ArgumentGroup) : List String :=
  groups.filterMap rom?

theorem wordsOf_cons (group : ArgumentGroup) (groups : List ArgumentGroup) :
    wordsOf (group :: groups) = group.words ++ wordsOf groups :=
  List.flatMap_cons

theorem romsOf_cons (group : ArgumentGroup) (groups : List ArgumentGroup) :
    romsOf (group :: groups) = group.rom?.toList ++ romsOf groups := by
  rw [romsOf, List.filterMap_cons]
  cases group.rom? <;> rfl

end ArgumentGroup

open ArgumentGroup

/-- What groups mean that name one cartridge: of each option with a value its last value counts,
    and of each switch whether it occurs. -/
def RunOptions.ofGroups (rom : String) (groups : List ArgumentGroup) : RunOptions where
  rom
  bootRom := (groups.filterMap bootRom?).getLast?
  maxSteps := (groups.filterMap maxSteps?).getLast?
  stopAt := (groups.filterMap stopAt?).getLast?
  subRegisterB := .switch .subRegisterB ∈ groups
  spoofScanline := .switch .noScanlineSpoof ∉ groups
  serial := .switch .serial ∈ groups

/-- The options that take a value. -/
def valuedFlags : List String :=
  ["--boot", "--max-steps", "--until"]

/-- The options that do not. -/
def switchFlags : List String :=
  ["--sub-register-b", "--no-ly-spoof", "--serial"]

/-- What is wrong with the first of the arguments that are left, where `roms` are the cartridges
    named before. -/
inductive Offends (roms : List String) : List String → UsageError → Prop where
  | unknownOption {flag : String} {rest : List String} :
      IsFlag flag → flag ∉ valuedFlags → flag ∉ switchFlags →
        Offends roms (flag :: rest) (.unknownOption flag)
  | unexpectedArgument {path : String} {rest : List String} :
      ¬IsFlag path → roms ≠ [] → Offends roms (path :: rest) (.unexpectedArgument path)
  | missingValue {flag : String} :
      flag ∈ valuedFlags → Offends roms [flag] (.missingValue flag)
  | invalidStepCount {text : String} {cause : NumeralError} {rest : List String} :
      (∀ count, ¬Numeral.IsCount text count) → Numeral.parseCount text = .error cause →
        Offends roms ("--max-steps" :: text :: rest) (.invalidStepCount text cause)
  | invalidAddress {text : String} {cause : NumeralError} {rest : List String} :
      (∀ address, ¬Numeral.IsAddress text address) → Numeral.parseAddress text = .error cause →
        Offends roms ("--until" :: text :: rest) (.invalidAddress text cause)
  /-- Nothing is left, and no cartridge was named. -/
  | missingRom : roms = [] → Offends roms [] .missingRom

/-! ## Classifying arguments -/

theorem looksLikeOption_iff (argument : String) :
    looksLikeOption argument = true ↔ IsFlag argument := by
  rw [looksLikeOption, List.isPrefixOf_iff_prefix]
  constructor
  · rintro ⟨name, hname⟩
    refine ⟨String.ofList name, ?_⟩
    apply String.toList_inj.mp
    rw [← hname]
    simp
  · rintro ⟨name, rfl⟩
    exact ⟨name.toList, by simp⟩

instance (argument : String) : Decidable (IsFlag argument) :=
  decidable_of_iff _ (looksLikeOption_iff argument)

instance : DecidablePred ArgumentGroup.WellFormed
  | .maxSteps numeral count => inferInstanceAs (Decidable (Numeral.IsCount numeral count))
  | .stopAt numeral address => inferInstanceAs (Decidable (Numeral.IsAddress numeral address))
  | .rom path => inferInstanceAs (Decidable (¬IsFlag path))
  | .bootRom _ | .switch _ => isTrue trivial

theorem ValuedOption.ofFlag?_of_mem {flag : String} (h : flag ∈ valuedFlags) :
    ∃ option, ofFlag? flag = some option ∧ option.flag = flag := by
  simp only [valuedFlags, List.mem_cons, List.not_mem_nil, or_false] at h
  rcases h with rfl | rfl | rfl
  · exact ⟨.bootRom, by decide, rfl⟩
  · exact ⟨.maxSteps, by decide, rfl⟩
  · exact ⟨.stopAt, by decide, rfl⟩

theorem ValuedOption.ofFlag?_eq_none {argument : String} (h : argument ∉ valuedFlags) :
    ofFlag? argument = none := by
  rw [ofFlag?, List.find?_eq_none]
  intro option _ hflag
  apply h
  rw [← beq_iff_eq.mp hflag]
  cases option <;> decide

theorem SwitchOption.ofFlag?_eq_none {argument : String} (h : argument ∉ switchFlags) :
    ofFlag? argument = none := by
  rw [ofFlag?, List.find?_eq_none]
  intro option _ hflag
  apply h
  rw [← beq_iff_eq.mp hflag]
  cases option <;> decide

theorem isFlag_of_mem {flag : String} (h : flag ∈ valuedFlags ∨ flag ∈ switchFlags) :
    IsFlag flag := by
  rw [← looksLikeOption_iff]
  simp only [valuedFlags, switchFlags, List.mem_cons, List.not_mem_nil, or_false] at h
  rcases h with (rfl | rfl | rfl) | (rfl | rfl | rfl) <;> decide

/-! ## Reading groups -/

namespace ArgumentScan

/-- Reads the arguments that are left, and what they come to. -/
def readAll (scan : ArgumentScan) (arguments : List String) : Except UsageError RunOptions :=
  match arguments.foldlM feed scan with
  | .ok scan => scan.finish
  | .error error => .error error

theorem readAll_nil (scan : ArgumentScan) : scan.readAll [] = scan.finish := rfl

theorem readAll_cons (scan : ArgumentScan) (argument : String) (rest : List String) :
    scan.readAll (argument :: rest) =
      match scan.feed argument with
      | .ok scan => scan.readAll rest
      | .error error => .error error := by
  rw [readAll, List.foldlM_cons]
  cases scan.feed argument <;> rfl

theorem readAll_of_feed {scan scan' : ArgumentScan} {argument : String} (rest : List String)
    (h : scan.feed argument = .ok scan') :
    scan.readAll (argument :: rest) = scan'.readAll rest := by
  rw [readAll_cons, h]

theorem readAll_of_error {scan : ArgumentScan} {argument : String} {error : UsageError}
    (rest : List String) (h : scan.feed argument = .error error) :
    scan.readAll (argument :: rest) = .error error := by
  rw [readAll_cons, h]

/-- The arguments read so far, with one more group. -/
def take (scan : ArgumentScan) : ArgumentGroup → ArgumentScan
  | .bootRom path => { scan with options.bootRom := some path }
  | .maxSteps _ count => { scan with options.maxSteps := some count }
  | .stopAt _ address => { scan with options.stopAt := some address }
  | .switch option => scan.turn option
  | .rom path => { scan with rom := some path }

theorem feed_of_awaiting {scan : ArgumentScan} {option : ValuedOption} (argument : String)
    (h : scan.awaiting = some option) : scan.feed argument = scan.assign option argument := by
  rw [feed, h]

section

variable {scan : ArgumentScan} (hready : scan.awaiting = none)

include hready

theorem feed_valued {flag : String} {option : ValuedOption}
    (h : ValuedOption.ofFlag? flag = some option) :
    scan.feed flag = .ok { scan with awaiting := some option } := by
  rw [feed, hready, h]

theorem readAll_valued {flag : String} {option : ValuedOption}
    (h : ValuedOption.ofFlag? flag = some option) (text : String) (rest : List String) :
    scan.readAll (flag :: text :: rest) =
      match scan.assign option text with
      | .ok scan => scan.readAll rest
      | .error error => .error error := by
  rw [readAll_of_feed _ (feed_valued hready h), readAll_cons, feed_of_awaiting text rfl]
  rfl

theorem feed_switch {flag : String} {option : SwitchOption}
    (hvalued : ValuedOption.ofFlag? flag = none) (h : SwitchOption.ofFlag? flag = some option) :
    scan.feed flag = .ok (scan.turn option) := by
  rw [feed, hready, hvalued, h]

theorem feed_other {argument : String} (hvalued : argument ∉ valuedFlags)
    (hswitch : argument ∉ switchFlags) : scan.feed argument = scan.place argument := by
  rw [feed, hready, ValuedOption.ofFlag?_eq_none hvalued, SwitchOption.ofFlag?_eq_none hswitch]

theorem feed_path {path : String} (h : ¬IsFlag path) : scan.feed path = scan.place path :=
  feed_other hready (fun hmem => h (isFlag_of_mem (.inl hmem)))
    fun hmem => h (isFlag_of_mem (.inr hmem))

/-- A well-formed group is read as a whole, if it does not name a second cartridge. -/
theorem readAll_words {group : ArgumentGroup} (hgroup : group.WellFormed)
    (hroom : group.rom? ≠ none → scan.rom = none) (rest : List String) :
    scan.readAll (group.words ++ rest) = (scan.take group).readAll rest := by
  cases group with
  | bootRom path =>
    have hflag : ValuedOption.ofFlag? "--boot" = some .bootRom := by decide
    refine (readAll_valued hready hflag path rest).trans ?_
    simp [assign, take, hready]
  | maxSteps numeral count =>
    have hflag : ValuedOption.ofFlag? "--max-steps" = some .maxSteps := by decide
    refine (readAll_valued hready hflag numeral rest).trans ?_
    simp [assign, take, hready, (Numeral.parseCount_eq_ok_iff numeral count).mpr hgroup]
  | stopAt numeral address =>
    have hflag : ValuedOption.ofFlag? "--until" = some .stopAt := by decide
    refine (readAll_valued hready hflag numeral rest).trans ?_
    simp [assign, take, hready, (Numeral.parseAddress_eq_ok_iff numeral address).mpr hgroup]
  | switch option =>
    have hwords : (ArgumentGroup.switch option).words = [option.flag] := by
      cases option <;> rfl
    have hvalued : ValuedOption.ofFlag? option.flag = none := by
      cases option <;> decide
    have hflag : SwitchOption.ofFlag? option.flag = some option := by
      cases option <;> decide
    rw [hwords]
    exact readAll_of_feed rest (feed_switch hready hvalued hflag)
  | rom path =>
    have hother : looksLikeOption path = false := by
      rw [Bool.eq_false_iff, ne_eq, looksLikeOption_iff]
      exact hgroup
    have hplace : scan.place path = .ok (scan.take (.rom path)) := by
      simp [place, take, hother, hroom (Option.some_ne_none path)]
    exact readAll_of_feed rest ((feed_path hready hgroup).trans hplace)

theorem awaiting_take (group : ArgumentGroup) : (scan.take group).awaiting = none := by
  cases group with
  | switch option => cases option <;> exact hready
  | _ => exact hready

omit hready in
theorem toList_rom_take {group : ArgumentGroup} (hroom : group.rom? ≠ none → scan.rom = none) :
    (scan.take group).rom.toList = scan.rom.toList ++ group.rom?.toList := by
  cases group with
  | switch option => cases option <;> simp [take, turn, rom?]
  | rom path => simp [take, rom?, hroom (Option.some_ne_none path)]
  | _ => simp [take, rom?]

/-- Well-formed groups are read one after the other, as long as they name one cartridge at most. -/
theorem readAll_wordsOf_append {groups : List ArgumentGroup}
    (hgroups : ∀ group ∈ groups, group.WellFormed)
    (hroom : (scan.rom.toList ++ romsOf groups).length ≤ 1) (rest : List String) :
    scan.readAll (wordsOf groups ++ rest) = (groups.foldl take scan).readAll rest := by
  induction groups generalizing scan with
  | nil => rfl
  | cons group groups ih =>
    rw [romsOf_cons] at hroom
    have hfree : group.rom? ≠ none → scan.rom = none := by
      intro hsome
      cases hrom : scan.rom with
      | none => rfl
      | some first =>
        obtain ⟨second, hsecond⟩ := Option.ne_none_iff_exists'.mp hsome
        simp [hrom, hsecond] at hroom
    rw [wordsOf_cons, List.append_assoc, readAll_words hready (hgroups group (.head _)) hfree]
    apply ih (awaiting_take hready group) fun other hother => hgroups other (.tail _ hother)
    rw [toList_rom_take hfree, List.append_assoc]
    exact hroom

end

/-! ## What has been read -/

section

variable {α : Type}

/-- A field that groups of one option set ends as the last of them leaves it. -/
theorem foldl_take_eq (field : ArgumentScan → Option α) (value? : ArgumentGroup → Option α)
    (htake : ∀ scan group, field (take scan group) = (value? group).or (field scan))
    (groups : List ArgumentGroup) (scan : ArgumentScan) :
    field (groups.foldl take scan) = (groups.filterMap value?).getLast?.or (field scan) := by
  induction groups generalizing scan with
  | nil => rfl
  | cons group groups ih =>
    rw [List.foldl_cons, ih, htake, List.filterMap_cons]
    cases value? group with
    | none => rfl
    | some value =>
      rw [List.getLast?_cons]
      cases (groups.filterMap value?).getLast? <;> rfl

end

/-- A field that a switch sets ends as set if the switch occurs. -/
theorem foldl_take_switch (field : ArgumentScan → Bool) (option : SwitchOption)
    (htake : ∀ scan group, field (take scan group) =
      (field scan || decide (group = .switch option)))
    (groups : List ArgumentGroup) (scan : ArgumentScan) :
    field (groups.foldl take scan) = (field scan || decide (.switch option ∈ groups)) := by
  induction groups generalizing scan with
  | nil => simp
  | cons group groups ih =>
    rw [List.foldl_cons, ih, htake]
    simp [eq_comm, Bool.or_assoc]

theorem awaiting_foldl_take {scan : ArgumentScan} (hready : scan.awaiting = none)
    (groups : List ArgumentGroup) : (groups.foldl take scan).awaiting = none := by
  induction groups generalizing scan with
  | nil => exact hready
  | cons group groups ih => exact ih (awaiting_take hready group)

theorem rom_foldl_take (groups : List ArgumentGroup) :
    (groups.foldl take {}).rom = (romsOf groups).getLast? := by
  have htake (scan : ArgumentScan) (group : ArgumentGroup) :
      (scan.take group).rom = group.rom?.or scan.rom := by
    rcases group with _ | _ | _ | (_ | _ | _) | _ <;> rfl
  rw [foldl_take_eq (·.rom) rom? htake groups {}, Option.or_none, romsOf]

theorem options_foldl_take (groups : List ArgumentGroup) (rom : String) :
    { (groups.foldl take {}).options with rom } = RunOptions.ofGroups rom groups := by
  have hbootRom := foldl_take_eq (·.options.bootRom) bootRom?
    (by rintro scan (_ | _ | _ | (_ | _ | _) | _) <;> rfl) groups {}
  have hmaxSteps := foldl_take_eq (·.options.maxSteps) maxSteps?
    (by rintro scan (_ | _ | _ | (_ | _ | _) | _) <;> rfl) groups {}
  have hstopAt := foldl_take_eq (·.options.stopAt) stopAt?
    (by rintro scan (_ | _ | _ | (_ | _ | _) | _) <;> rfl) groups {}
  have hsubRegisterB := foldl_take_switch (·.options.subRegisterB) .subRegisterB
    (by rintro scan (_ | _ | _ | (_ | _ | _) | _) <;> simp [take, turn]) groups {}
  have hspoof := foldl_take_switch (!·.options.spoofScanline) .noScanlineSpoof
    (by rintro scan (_ | _ | _ | (_ | _ | _) | _) <;> simp [take, turn]) groups {}
  have hserial := foldl_take_switch (·.options.serial) .serial
    (by rintro scan (_ | _ | _ | (_ | _ | _) | _) <;> simp [take, turn]) groups {}
  simp only [Option.or_none] at hbootRom hmaxSteps hstopAt
  simp only [Bool.false_or] at hsubRegisterB hserial
  have hspoof' : (groups.foldl take {}).options.spoofScanline =
      decide (.switch .noScanlineSpoof ∉ groups) := by
    rw [← Bool.not_not (groups.foldl take {}).options.spoofScanline, hspoof]
    simp
  simp only [RunOptions.ofGroups, hbootRom, hmaxSteps, hstopAt, hsubRegisterB, hspoof', hserial]

theorem finish_foldl_take {groups : List ArgumentGroup} {rom : String}
    (h : romsOf groups = [rom]) :
    (groups.foldl take {}).finish = .ok (RunOptions.ofGroups rom groups) := by
  have hrom : (groups.foldl take {}).rom = some rom := by
    rw [rom_foldl_take, h]
    rfl
  rw [finish, awaiting_foldl_take rfl, hrom, ← options_foldl_take groups rom]

/-- Arguments that offend get their error, whatever comes after them. -/
theorem readAll_of_offends {scan : ArgumentScan} (hready : scan.awaiting = none)
    {roms : List String} (hroms : scan.rom = roms.getLast?) {rest : List String}
    {error : UsageError} (h : Offends roms rest error) : scan.readAll rest = .error error := by
  cases h with
  | unknownOption hflag hvalued hswitch =>
    apply readAll_of_error
    rw [feed_other hready hvalued hswitch, place, if_pos ((looksLikeOption_iff _).mpr hflag)]
  | unexpectedArgument hpath hplaced =>
    have hother : ¬looksLikeOption _ = true := fun hlooks =>
      hpath ((looksLikeOption_iff _).mp hlooks)
    have hsome : scan.rom.isSome = true := by
      rw [hroms, List.getLast?_isSome]
      exact hplaced
    apply readAll_of_error
    rw [feed_path hready hpath, place, if_neg hother, if_pos hsome]
  | missingValue hflag =>
    obtain ⟨option, hoption, rfl⟩ := ValuedOption.ofFlag?_of_mem hflag
    rw [readAll_of_feed [] (feed_valued hready hoption)]
    rfl
  | invalidStepCount hinvalid hcause =>
    have hflag : ValuedOption.ofFlag? "--max-steps" = some .maxSteps := by decide
    rw [readAll_valued hready hflag, assign]
    simp only [hcause]
  | invalidAddress hinvalid hcause =>
    have hflag : ValuedOption.ofFlag? "--until" = some .stopAt := by decide
    rw [readAll_valued hready hflag, assign]
    simp only [hcause]
  | missingRom hnone =>
    rw [readAll_nil, finish, hready, hroms, hnone]
    rfl

end ArgumentScan

/-! ## Splitting arguments -/

/-- Arguments split into well-formed groups, where some cartridges are named before them. What is
    left after the groups is nothing, or offends. -/
def Splits (roms arguments : List String) : Prop :=
  ∃ groups rest, arguments = wordsOf groups ++ rest ∧ (∀ group ∈ groups, group.WellFormed) ∧
    (roms ++ romsOf groups).length ≤ 1 ∧
    (rest = [] ∧ roms ++ romsOf groups ≠ [] ∨ ∃ error, Offends (roms ++ romsOf groups) rest error)

theorem Splits.cons {roms rest : List String} (group : ArgumentGroup) (hgroup : group.WellFormed)
    (h : Splits (roms ++ group.rom?.toList) rest) : Splits roms (group.words ++ rest) := by
  obtain ⟨groups, left, rfl, hgroups, hroom, hleft⟩ := h
  rw [List.append_assoc, ← romsOf_cons] at hroom hleft
  refine ⟨group :: groups, left, ?_, ?_, hroom, hleft⟩
  · rw [wordsOf_cons, List.append_assoc]
  · intro other hother
    cases hother with
    | head => exact hgroup
    | tail _ hother => exact hgroups other hother

theorem Splits.cons_option {roms rest : List String} (group : ArgumentGroup)
    (hgroup : group.WellFormed) (hoption : group.rom? = none) (h : Splits roms rest) :
    Splits roms (group.words ++ rest) := by
  apply Splits.cons group hgroup
  rw [hoption]
  exact (List.append_nil roms).symm ▸ h

theorem splits_of_offends {roms rest : List String} (hroms : roms.length ≤ 1) {error : UsageError}
    (h : Offends roms rest error) : Splits roms rest := by
  have hnone : roms ++ romsOf [] = roms := List.append_nil roms
  refine ⟨[], rest, (List.nil_append rest).symm, List.forall_mem_nil _, ?_, .inr ⟨error, ?_⟩⟩
  · rwa [hnone]
  · rwa [hnone]

/-- Every list of arguments splits. An option that takes a value is split off with it. -/
theorem splits (roms : List String) (hroms : roms.length ≤ 1) (arguments : List String) :
    Splits roms arguments := by
  match arguments with
  | [] =>
    cases roms with
    | nil => exact splits_of_offends hroms (.missingRom rfl)
    | cons rom roms =>
      refine ⟨[], [], rfl, List.forall_mem_nil _, ?_, .inl ⟨rfl, List.cons_ne_nil rom _⟩⟩
      exact (List.append_nil (rom :: roms)).symm ▸ hroms
  | argument :: rest =>
    by_cases hvalued : argument ∈ valuedFlags
    · match rest with
      | [] => exact splits_of_offends hroms (.missingValue hvalued)
      | text :: rest =>
        have hrest := splits roms hroms rest
        simp only [valuedFlags, List.mem_cons, List.not_mem_nil, or_false] at hvalued
        rcases hvalued with rfl | rfl | rfl
        · exact hrest.cons_option (.bootRom text) trivial rfl
        · cases hcount : Numeral.parseCount text with
          | ok count =>
            exact hrest.cons_option (.maxSteps text count)
              ((Numeral.parseCount_eq_ok_iff text count).mp hcount) rfl
          | error cause =>
            exact splits_of_offends hroms
              (.invalidStepCount (Numeral.not_isCount_of_error hcount) hcount)
        · cases haddress : Numeral.parseAddress text with
          | ok address =>
            exact hrest.cons_option (.stopAt text address)
              ((Numeral.parseAddress_eq_ok_iff text address).mp haddress) rfl
          | error cause =>
            exact splits_of_offends hroms
              (.invalidAddress (Numeral.not_isAddress_of_error haddress) haddress)
    by_cases hswitch : argument ∈ switchFlags
    · have hrest := splits roms hroms rest
      simp only [switchFlags, List.mem_cons, List.not_mem_nil, or_false] at hswitch
      rcases hswitch with rfl | rfl | rfl
      · exact hrest.cons_option (.switch .subRegisterB) trivial rfl
      · exact hrest.cons_option (.switch .noScanlineSpoof) trivial rfl
      · exact hrest.cons_option (.switch .serial) trivial rfl
    by_cases hflag : IsFlag argument
    · exact splits_of_offends hroms (.unknownOption hflag hvalued hswitch)
    cases roms with
    | nil =>
      exact (splits [argument] (Nat.le_refl 1) rest).cons (.rom argument) hflag
    | cons rom roms =>
      exact splits_of_offends hroms (.unexpectedArgument hflag (List.cons_ne_nil rom roms))
termination_by arguments.length

/-! ## Parsing -/

section

variable {groups : List ArgumentGroup} (hgroups : ∀ group ∈ groups, group.WellFormed)

include hgroups

/-- Well-formed groups that name one cartridge are accepted, with what they mean. -/
theorem RunOptions.parse_of_roms {rom : String} (hroms : romsOf groups = [rom]) :
    RunOptions.parse (wordsOf groups) = .ok (.ofGroups rom groups) := by
  have hread : ({} : ArgumentScan).readAll (wordsOf groups ++ []) = _ :=
    ArgumentScan.readAll_wordsOf_append rfl hgroups (by simp [hroms]) []
  rw [List.append_nil, ArgumentScan.readAll_nil, ArgumentScan.finish_foldl_take hroms] at hread
  exact hread

/-- What offends after well-formed groups decides the error. -/
theorem RunOptions.parse_of_offends (hroom : (romsOf groups).length ≤ 1) {rest : List String}
    {error : UsageError} (h : Offends (romsOf groups) rest error) :
    RunOptions.parse (wordsOf groups ++ rest) = .error error := by
  have hready : ({} : ArgumentScan).awaiting = none := rfl
  have hread := ArgumentScan.readAll_wordsOf_append hready hgroups hroom rest
  exact hread.trans (ArgumentScan.readAll_of_offends (ArgumentScan.awaiting_foldl_take rfl groups)
    (ArgumentScan.rom_foldl_take groups) h)

end

/-- A list of arguments either is a list of well-formed groups that name one cartridge, or it has
    a first group that offends. -/
theorem accepted_or_offends (arguments : List String) :
    (∃ groups rom, arguments = wordsOf groups ∧ (∀ group ∈ groups, group.WellFormed) ∧
      romsOf groups = [rom]) ∨
    ∃ groups rest error, arguments = wordsOf groups ++ rest ∧
      (∀ group ∈ groups, group.WellFormed) ∧ (romsOf groups).length ≤ 1 ∧
      Offends (romsOf groups) rest error := by
  obtain ⟨groups, rest, harguments, hgroups, hroom, ⟨hrest, hsome⟩ | ⟨error, herror⟩⟩ :=
    splits [] (Nat.zero_le 1) arguments
  · have hpositive : 0 < (romsOf groups).length := List.length_pos_of_ne_nil hsome
    obtain ⟨rom, hrom⟩ := List.length_eq_one_iff.mp (Nat.le_antisymm hroom hpositive)
    rw [hrest, List.append_nil] at harguments
    exact .inl ⟨groups, rom, harguments, hgroups, hrom⟩
  · exact .inr ⟨groups, rest, error, harguments, hgroups, hroom, herror⟩

theorem RunOptions.parse_eq_ok_iff (arguments : List String) (options : RunOptions) :
    RunOptions.parse arguments = .ok options ↔
      ∃ groups rom, arguments = wordsOf groups ∧ (∀ group ∈ groups, group.WellFormed) ∧
        romsOf groups = [rom] ∧ options = .ofGroups rom groups := by
  constructor
  · intro h
    obtain ⟨groups, rom, rfl, hgroups, hrom⟩ | ⟨groups, rest, error, rfl, hgroups, hroom, herror⟩ :=
      accepted_or_offends arguments
    · rw [RunOptions.parse_of_roms hgroups hrom] at h
      cases h
      exact ⟨groups, rom, rfl, hgroups, hrom, rfl⟩
    · rw [RunOptions.parse_of_offends hgroups hroom herror] at h
      cases h
  · rintro ⟨groups, rom, rfl, hgroups, hrom, rfl⟩
    exact RunOptions.parse_of_roms hgroups hrom

theorem RunOptions.parse_eq_error_iff (arguments : List String) (error : UsageError) :
    RunOptions.parse arguments = .error error ↔
      ∃ groups rest, arguments = wordsOf groups ++ rest ∧
        (∀ group ∈ groups, group.WellFormed) ∧ (romsOf groups).length ≤ 1 ∧
        Offends (romsOf groups) rest error := by
  constructor
  · intro h
    obtain ⟨groups, rom, rfl, hgroups, hrom⟩ | ⟨groups, rest, other, rfl, hgroups, hroom, hother⟩ :=
      accepted_or_offends arguments
    · rw [RunOptions.parse_of_roms hgroups hrom] at h
      cases h
    · rw [RunOptions.parse_of_offends hgroups hroom hother] at h
      cases h
      exact ⟨groups, rest, rfl, hgroups, hroom, hother⟩
  · rintro ⟨groups, rest, rfl, hgroups, hroom, herror⟩
    exact RunOptions.parse_of_offends hgroups hroom herror

end Handheld
