-- SUMMARY: Groups of arguments in any order, and options written as arguments and read back.
import Handheld.Hex
import Handheld.Proofs.CommandLine.Grammar

namespace Handheld

open ArgumentGroup

/-! ## Order

Only groups of one option compete for their value. So groups of different options
may change places. -/

/-- The same groups in another order, but those of each option in the order that they had, and the
    cartridges too. -/
def Rearranged (groups groups' : List ArgumentGroup) : Prop :=
  ∀ option, groups'.filter (·.option? = option) = groups.filter (·.option? = option)

/-- Groups of distinct options may be permuted at will. -/
theorem rearranged_of_perm {groups groups' : List ArgumentGroup}
    (hdistinct : (groups.map option?).Nodup) (h : groups'.Perm groups) :
    Rearranged groups groups' := by
  intro option
  have hperm := h.filter (·.option? = option)
  have hnodup : ((groups.filter (·.option? = option)).map option?).Nodup :=
    hdistinct.sublist (List.filter_sublist.map option?)
  have hsame : ∀ group ∈ groups.filter (·.option? = option), group.option? = option := by
    simp
  match hgroups : groups.filter (·.option? = option) with
  | [] =>
    rw [hgroups] at hperm
    rw [hgroups, hperm.eq_nil]
  | [group] =>
    rw [hgroups] at hperm
    rw [hgroups, hperm.eq_singleton]
  | first :: second :: others =>
    rw [hgroups] at hnodup hsame
    simp [hsame] at hnodup

section

variable {groups groups' : List ArgumentGroup} (h : Rearranged groups groups')

include h

theorem Rearranged.mem_iff (group : ArgumentGroup) : group ∈ groups' ↔ group ∈ groups := by
  have hsame : group ∈ groups'.filter (·.option? = group.option?) ↔
      group ∈ groups.filter (·.option? = group.option?) := by
    rw [h]
  simpa using hsame

theorem Rearranged.filterMap_eq {α : Type} (value? : ArgumentGroup → Option α)
    (option : Option (ValuedOption ⊕ SwitchOption))
    (hvalue : ∀ group, group.option? ≠ option → value? group = none) :
    groups'.filterMap value? = groups.filterMap value? := by
  have hfilter (groups : List ArgumentGroup) :
      (groups.filter (·.option? = option)).filterMap value? = groups.filterMap value? := by
    rw [List.filterMap_filter]
    congr 1
    funext group
    by_cases hoption : group.option? = option
    · simp [hoption]
    · simp [hoption, hvalue group hoption]
  rw [← hfilter groups', h, hfilter]

theorem Rearranged.romsOf_eq : romsOf groups' = romsOf groups :=
  h.filterMap_eq rom? none (by rintro (_ | _ | _ | _ | _) <;> simp [option?, rom?])

theorem Rearranged.ofGroups_eq (rom : String) :
    RunOptions.ofGroups rom groups' = RunOptions.ofGroups rom groups := by
  have hbootRom := h.filterMap_eq bootRom? (some (.inl .bootRom))
    (by rintro (_ | _ | _ | _ | _) <;> simp [option?, bootRom?])
  have hmaxSteps := h.filterMap_eq maxSteps? (some (.inl .maxSteps))
    (by rintro (_ | _ | _ | _ | _) <;> simp [option?, maxSteps?])
  have hstopAt := h.filterMap_eq stopAt? (some (.inl .stopAt))
    (by rintro (_ | _ | _ | _ | _) <;> simp [option?, stopAt?])
  simp only [RunOptions.ofGroups, hbootRom, hmaxSteps, hstopAt, h.mem_iff]

end

theorem eq_rom_of_rom? {group : ArgumentGroup} {path : String} (h : group.rom? = some path) :
    group = .rom path := by
  cases group with
  | rom other => exact congrArg rom (Option.some.inj h)
  | _ => cases h

/-- A second cartridge offends, with everything before it read. -/
theorem RunOptions.parse_of_second_rom {groups : List ArgumentGroup}
    (hgroups : ∀ group ∈ groups, group.WellFormed) {first second : String} {others : List String}
    (hroms : romsOf groups = first :: second :: others) :
    RunOptions.parse (wordsOf groups) = .error (.unexpectedArgument second) := by
  obtain ⟨front, group, rest, rfl, hfront, hfirst, hrest⟩ := List.filterMap_eq_cons_iff.mp hroms
  obtain ⟨middle, next, back, rfl, hmiddle, hsecond, -⟩ := List.filterMap_eq_cons_iff.mp hrest
  rw [eq_rom_of_rom? hsecond] at hgroups ⊢
  have hone : romsOf (front ++ group :: middle) = [first] := by
    rw [romsOf, List.filterMap_append, List.filterMap_cons, hfirst,
      List.filterMap_eq_nil_iff.mpr hfront, List.filterMap_eq_nil_iff.mpr hmiddle]
    rfl
  have hbefore : ∀ other ∈ front ++ group :: middle, other.WellFormed := by
    intro other hother
    apply hgroups
    simp only [List.mem_append, List.mem_cons] at hother ⊢
    tauto
  have hpath : ¬IsFlag second := hgroups (.rom second) (by simp)
  have hoffends : Offends (romsOf (front ++ group :: middle)) (second :: wordsOf back)
      (.unexpectedArgument second) :=
    .unexpectedArgument hpath (by simp [hone])
  have hparse := RunOptions.parse_of_offends hbefore (by simp [hone]) hoffends
  simpa [wordsOf, words] using hparse

/-- What well-formed groups come to is decided by the cartridges that they name. -/
theorem RunOptions.parse_wordsOf {groups : List ArgumentGroup}
    (hgroups : ∀ group ∈ groups, group.WellFormed) :
    RunOptions.parse (wordsOf groups) =
      match romsOf groups with
      | [] => .error .missingRom
      | [path] => .ok (.ofGroups path groups)
      | _ :: second :: _ => .error (.unexpectedArgument second) := by
  match hroms : romsOf groups with
  | [] =>
    have hparse := RunOptions.parse_of_offends hgroups (by simp [hroms]) (.missingRom hroms)
    rwa [List.append_nil] at hparse
  | [path] => exact RunOptions.parse_of_roms hgroups hroms
  | first :: second :: others => exact RunOptions.parse_of_second_rom hgroups hroms

theorem Rearranged.parse_eq {groups groups' : List ArgumentGroup} (h : Rearranged groups groups')
    (hgroups : ∀ group ∈ groups, group.WellFormed) :
    RunOptions.parse (wordsOf groups') = RunOptions.parse (wordsOf groups) := by
  have hgroups' : ∀ group ∈ groups', group.WellFormed := fun group hmem =>
    hgroups group ((h.mem_iff group).mp hmem)
  rw [RunOptions.parse_wordsOf hgroups, RunOptions.parse_wordsOf hgroups', h.romsOf_eq]
  simp only [h.ofGroups_eq]

/-! ## Writing options -/

/-- Groups for options: the cartridge first, and then each option that is not as by default. Numbers
    are written in decimal and addresses in hexadecimal. -/
def RunOptions.groups (options : RunOptions) : List ArgumentGroup :=
  ArgumentGroup.rom options.rom ::
    (options.bootRom.toList.map ArgumentGroup.bootRom ++
      options.maxSteps.toList.map (fun count => ArgumentGroup.maxSteps count.repr count) ++
      options.stopAt.toList.map
        (fun address => ArgumentGroup.stopAt ("0x" ++ hex4 address) address) ++
      (if options.subRegisterB then [ArgumentGroup.switch .subRegisterB] else []) ++
      (if options.spoofScanline then [] else [ArgumentGroup.switch .noScanlineSpoof]) ++
      if options.serial then [ArgumentGroup.switch .serial] else [])

theorem RunOptions.wellFormed_groups {options : RunOptions} (hrom : ¬IsFlag options.rom)
    (hsteps : ∀ count ∈ options.maxSteps, count < 2 ^ 64) :
    ∀ group ∈ options.groups, group.WellFormed := by
  intro group hgroup
  simp only [groups, List.mem_cons, List.mem_append, List.mem_map, Option.mem_toList] at hgroup
  obtain rfl | ((((⟨path, -, rfl⟩ | ⟨count, hcount, rfl⟩) | ⟨address, -, rfl⟩) | hgroup) | hgroup) |
    hgroup := hgroup
  · exact hrom
  · trivial
  · exact Numeral.isCount_repr (hsteps count hcount)
  · exact Numeral.isAddress_hex4 address
  all_goals
    split at hgroup <;> simp at hgroup
    subst hgroup
    trivial

theorem RunOptions.filterMap_groups {α : Type} (value? : ArgumentGroup → Option α)
    (hswitch : ∀ option, value? (.switch option) = none) (options : RunOptions) :
    options.groups.filterMap value? =
      (value? (.rom options.rom)).toList ++
        options.bootRom.toList.filterMap (fun path => value? (.bootRom path)) ++
        options.maxSteps.toList.filterMap (fun count => value? (.maxSteps count.repr count)) ++
        options.stopAt.toList.filterMap
          (fun address => value? (.stopAt ("0x" ++ hex4 address) address)) := by
  have hone (condition : Bool) (option : SwitchOption) :
      List.filterMap value? (if condition then [.switch option] else []) = [] := by
    cases condition <;> simp [hswitch]
  have hother (condition : Bool) (option : SwitchOption) :
      List.filterMap value? (if condition then [] else [.switch option]) = [] := by
    cases condition <;> simp [hswitch]
  cases hrom : value? (.rom options.rom) <;>
    simp [groups, List.filterMap_append, List.filterMap_map, hone, hother, hrom]

theorem RunOptions.romsOf_groups (options : RunOptions) :
    romsOf options.groups = [options.rom] := by
  rw [romsOf, filterMap_groups rom? fun _ => rfl]
  simp [rom?]

/-- The groups mean the options. -/
theorem RunOptions.ofGroups_groups (options : RunOptions) :
    RunOptions.ofGroups options.rom options.groups = options := by
  have hlast {α : Type} (value : Option α) : value.toList.getLast? = value := by
    cases value <;> rfl
  have hbootRom : (options.groups.filterMap bootRom?).getLast? = options.bootRom := by
    rw [filterMap_groups bootRom? fun _ => rfl]
    simp [bootRom?, hlast]
  have hmaxSteps : (options.groups.filterMap maxSteps?).getLast? = options.maxSteps := by
    rw [filterMap_groups maxSteps? fun _ => rfl]
    simp [maxSteps?, hlast]
  have hstopAt : (options.groups.filterMap stopAt?).getLast? = options.stopAt := by
    rw [filterMap_groups stopAt? fun _ => rfl]
    simp [stopAt?, hlast]
  have hsubRegisterB : .switch .subRegisterB ∈ options.groups ↔ options.subRegisterB = true := by
    simp [groups]
  have hspoof : .switch .noScanlineSpoof ∉ options.groups ↔ options.spoofScanline = true := by
    simp [groups]
  have hserial : .switch .serial ∈ options.groups ↔ options.serial = true := by
    simp [groups]
  simp only [ofGroups, hbootRom, hmaxSteps, hstopAt, hsubRegisterB, hspoof, hserial,
    Bool.decide_eq_true]

/-- The groups are of distinct options. -/
theorem RunOptions.nodup_groups (options : RunOptions) : (options.groups.map option?).Nodup := by
  have hsublist : (options.groups.map option?).Sublist
      (none :: ([some (Sum.inl ValuedOption.bootRom)] ++ [some (Sum.inl ValuedOption.maxSteps)] ++
        [some (Sum.inl ValuedOption.stopAt)] ++ [some (Sum.inr SwitchOption.subRegisterB)] ++
        [some (Sum.inr SwitchOption.noScanlineSpoof)] ++
        [some (Sum.inr SwitchOption.serial)])) := by
    simp only [groups, List.map_cons, List.map_append]
    refine .cons_cons none (.append (.append (.append (.append (.append ?_ ?_) ?_) ?_) ?_) ?_)
    · cases options.bootRom <;> simp [option?]
    · cases options.maxSteps <;> simp [option?]
    · cases options.stopAt <;> simp [option?]
    · cases options.subRegisterB <;> simp [option?]
    · cases options.spoofScanline <;> simp [option?]
    · cases options.serial <;> simp [option?]
  exact hsublist.nodup (by decide)

/-- The command line is read by its grammar. A list of arguments is accepted exactly if it is a list
    of well-formed groups that name one cartridge, and then comes to what the groups mean. Otherwise
    the error is that of the leftmost arguments that offend. Groups of different options may be
    rearranged, and the options can be written as arguments, in any order, and are read back. -/
theorem RunOptions.parse_by_grammar :
    (∀ arguments options, RunOptions.parse arguments = .ok options ↔
      ∃ groups path, arguments = wordsOf groups ∧ (∀ group ∈ groups, group.WellFormed) ∧
        romsOf groups = [path] ∧ options = .ofGroups path groups) ∧
    (∀ arguments error, RunOptions.parse arguments = .error error ↔
      ∃ groups rest, arguments = wordsOf groups ++ rest ∧
        (∀ group ∈ groups, group.WellFormed) ∧ (romsOf groups).length ≤ 1 ∧
        Offends (romsOf groups) rest error) ∧
    (∀ groups groups', (∀ group ∈ groups, group.WellFormed) → Rearranged groups groups' →
      RunOptions.parse (wordsOf groups') = RunOptions.parse (wordsOf groups)) ∧
    ∀ options : RunOptions, ¬IsFlag options.rom →
      (∀ count ∈ options.maxSteps, count < 2 ^ 64) → ∀ groups, groups.Perm options.groups →
        RunOptions.parse (wordsOf groups) = .ok options := by
  refine ⟨RunOptions.parse_eq_ok_iff, RunOptions.parse_eq_error_iff, ?_, ?_⟩
  · intro groups groups' hgroups hrearranged
    exact hrearranged.parse_eq hgroups
  · intro options hrom hsteps groups hperm
    have hwellFormed := options.wellFormed_groups hrom hsteps
    have hrearranged := rearranged_of_perm options.nodup_groups hperm
    rw [hrearranged.parse_eq hwellFormed,
      RunOptions.parse_of_roms hwellFormed options.romsOf_groups, options.ofGroups_groups]

/-- The value of `--boot` may look like a switch, the last `--until` counts wherever the groups
    between stand, a bad numeral comes before the second cartridge behind it, and options are read
    back in an order that is not that of their groups. -/
theorem RunOptions.parse_by_grammar_twoAddresses :
    let groups : List ArgumentGroup :=
      [.stopAt "0x150" 0x150, .rom "game.gb", .bootRom "--serial", .maxSteps "+10" 10,
        .stopAt "0X+c0de" 0xC0DE]
    let groups' : List ArgumentGroup :=
      [.bootRom "--serial", .stopAt "0x150" 0x150, .stopAt "0X+c0de" 0xC0DE, .maxSteps "+10" 10,
        .rom "game.gb"]
    let options : RunOptions :=
      { rom := "game.gb", bootRom := some "--serial", maxSteps := some 10, stopAt := some 0xC0DE }
    RunOptions.parse (wordsOf groups) = .ok options ∧
      RunOptions.parse (wordsOf groups') = RunOptions.parse (wordsOf groups) ∧
      RunOptions.parse ["game.gb", "--max-steps", "1O", "other.gb"] =
        .error (.invalidStepCount "1O" .invalidDigit) ∧
      RunOptions.parse (wordsOf options.groups.reverse) = .ok options := by
  intro groups groups' options
  obtain ⟨haccepted, hrefused, hrearranged, hwritten⟩ := RunOptions.parse_by_grammar
  have hgroups : ∀ group ∈ groups, group.WellFormed := by decide
  refine ⟨?_, ?_, ?_, ?_⟩
  · exact (haccepted _ _).mpr ⟨groups, "game.gb", rfl, hgroups, rfl, rfl⟩
  · exact hrearranged groups groups' hgroups (by rintro (_ | (_ | _ | _) | (_ | _ | _)) <;> rfl)
  · have hcause : Numeral.parseCount "1O" = .error .invalidDigit := by decide
    exact (hrefused _ _).mpr ⟨[.rom "game.gb"], _, rfl, by decide, Nat.le_refl 1,
      .invalidStepCount (Numeral.not_isCount_of_error hcause) hcause⟩
  · exact hwritten options (by decide) (by decide) _ (List.reverse_perm _)

end Handheld
