-- SUMMARY: The options of the command line, how arguments are read, and what can be wrong with them.
import Handheld.CommandLine.Numeral

namespace Handheld

/-! ## Options -/

/-- What to run and how. -/
structure RunOptions where
  /-- The path of the cartridge image. -/
  rom : String
  /-- The path of the boot program. -/
  bootRom : Option String := none
  maxSteps : Option Nat := none
  /-- The address at which to stop. -/
  stopAt : Option UInt16 := none
  /-- Whether `SUB` subtracts register B. -/
  subRegisterB : Bool := false
  spoofScanline : Bool := true
  /-- Whether bytes sent over the serial link are echoed. -/
  serial : Bool := false
deriving DecidableEq, Repr

/-- How the program is called. -/
def usage : String :=
  "usage: pocketboy <rom> [--boot <file>] [--max-steps <n>] [--until <hex pc>] " ++
    "[--sub-register-b] [--no-ly-spoof] [--serial]"

/-! ## Errors -/

/-- What is wrong with the arguments. -/
inductive UsageError where
  | unknownOption (flag : String)
  | unexpectedArgument (argument : String)
  | missingValue (flag : String)
  | missingRom
  | invalidStepCount (text : String) (cause : NumeralError)
  | invalidAddress (text : String) (cause : NumeralError)
deriving DecidableEq, Repr

namespace UsageError

/-- The text of an error, with the usage where the arguments do not fit it. -/
def message : UsageError → String
  | unknownOption flag => "unknown option '" ++ flag ++ "'\n" ++ usage
  | unexpectedArgument argument => "unexpected argument '" ++ argument ++ "'\n" ++ usage
  | missingValue flag => "option '" ++ flag ++ "' needs a value"
  | missingRom => "no ROM path provided\n" ++ usage
  | invalidStepCount text _ => "invalid step count '" ++ text ++ "'"
  | invalidAddress text _ => "invalid address '" ++ text ++ "'"

/-- The reason why a numeral was refused. -/
def numeralError? : UsageError → Option NumeralError
  | invalidStepCount _ cause | invalidAddress _ cause => some cause
  | _ => none

/-- The texts of an error and of its cause, outermost first. -/
def chain (error : UsageError) : List String :=
  error.message :: (error.numeralError?.map toString).toList

end UsageError

/-! ## Reading arguments

Arguments are read from left to right. An option with a value takes the next
argument whatever it looks like, and the last value given to an option counts.
The one argument that belongs to no option is the cartridge. -/

/-- The options that take a value. -/
inductive ValuedOption where
  | bootRom
  | maxSteps
  | stopAt
deriving DecidableEq, Repr

namespace ValuedOption

def flag : ValuedOption → String
  | bootRom => "--boot"
  | maxSteps => "--max-steps"
  | stopAt => "--until"

/-- The option that a flag names. -/
def ofFlag? (flag : String) : Option ValuedOption :=
  [bootRom, maxSteps, stopAt].find? (·.flag == flag)

end ValuedOption

/-- The options without a value. -/
inductive SwitchOption where
  | subRegisterB
  | noScanlineSpoof
  | serial
deriving DecidableEq, Repr

namespace SwitchOption

def flag : SwitchOption → String
  | subRegisterB => "--sub-register-b"
  | noScanlineSpoof => "--no-ly-spoof"
  | serial => "--serial"

/-- The option that a flag names. -/
def ofFlag? (flag : String) : Option SwitchOption :=
  [subRegisterB, noScanlineSpoof, serial].find? (·.flag == flag)

end SwitchOption

/-- Whether an argument has the form of an option. -/
def looksLikeOption (argument : String) : Bool :=
  ['-', '-'].isPrefixOf argument.toList

/-- The arguments read so far. -/
structure ArgumentScan where
  rom : Option String := none
  /-- The options given so far; its cartridge is not looked at. -/
  options : RunOptions := { rom := "" }
  /-- The option whose value comes next. -/
  awaiting : Option ValuedOption := none
deriving DecidableEq, Repr

namespace ArgumentScan

/-- Gives an option its value. -/
def assign (scan : ArgumentScan) (option : ValuedOption) (text : String) :
    Except UsageError ArgumentScan :=
  let scan := { scan with awaiting := none }
  match option with
  | .bootRom => .ok { scan with options.bootRom := some text }
  | .maxSteps =>
    match Numeral.parseCount text with
    | .ok n => .ok { scan with options.maxSteps := some n }
    | .error cause => .error (.invalidStepCount text cause)
  | .stopAt =>
    match Numeral.parseAddress text with
    | .ok pc => .ok { scan with options.stopAt := some pc }
    | .error cause => .error (.invalidAddress text cause)

/-- Turns a switch. -/
def turn (scan : ArgumentScan) : SwitchOption → ArgumentScan
  | .subRegisterB => { scan with options.subRegisterB := true }
  | .noScanlineSpoof => { scan with options.spoofScanline := false }
  | .serial => { scan with options.serial := true }

/-- Takes an argument that belongs to no option. -/
def place (scan : ArgumentScan) (argument : String) : Except UsageError ArgumentScan :=
  if looksLikeOption argument then .error (.unknownOption argument)
  else if scan.rom.isSome then .error (.unexpectedArgument argument)
  else .ok { scan with rom := some argument }

/-- Reads one more argument. -/
def feed (scan : ArgumentScan) (argument : String) : Except UsageError ArgumentScan :=
  match scan.awaiting with
  | some option => scan.assign option argument
  | none =>
    match ValuedOption.ofFlag? argument, SwitchOption.ofFlag? argument with
    | some option, _ => .ok { scan with awaiting := some option }
    | none, some option => .ok (scan.turn option)
    | none, none => scan.place argument

/-- The options, once all arguments are read. -/
def finish (scan : ArgumentScan) : Except UsageError RunOptions :=
  match scan.awaiting, scan.rom with
  | some option, _ => .error (.missingValue option.flag)
  | none, none => .error .missingRom
  | none, some rom => .ok { scan.options with rom }

end ArgumentScan

/-- The options that a list of arguments stands for. -/
def RunOptions.parse (arguments : List String) : Except UsageError RunOptions :=
  match arguments.foldlM ArgumentScan.feed {} with
  | .ok scan => scan.finish
  | .error error => .error error

end Handheld
