import FirmwareCatalog.CommandLine.Options
import FirmwareCatalog.Path

/-!
# Requests

The commands of `regc` and their options. How much is logged and where the
settings come from may be said before the command or behind it; what stands
behind it counts.
-/

namespace FirmwareCatalog.CommandLine

inductive Command where
  | validate (project : Path) (checkConfig ci : Bool)
  | generate (document project : Path) (platform : Option String) (thin : Bool) (save : Option Path)
  | hash (names : List String)

structure Request where
  /-- How often more logging was asked for, at most 255 times. -/
  verbosity : Nat
  settings : Option Path
  command : Command

/-! ## Options of the commands -/

def sharedOptions : List OptionSpec :=
  [⟨"verbose", some 'v', .counter⟩, ⟨"config", none, .value false⟩, ⟨"help", some 'h', .help⟩]

def rootLevel : Level := ⟨sharedOptions ++ [⟨"version", some 'V', .version⟩], .ending⟩

def validateLevel : Level where
  options := sharedOptions ++
    [⟨"project-dir", none, .value false⟩, ⟨"check-config", none, .flag⟩, ⟨"ci", none, .flag⟩]
  operands := .refused

def generateLevel : Level where
  options := sharedOptions ++ [⟨"load", none, .value false⟩, ⟨"project-dir", none, .value false⟩,
    ⟨"platform", none, .value true⟩, ⟨"thin-libs", none, .flag⟩, ⟨"save", none, .value false⟩]
  operands := .refused

def hashLevel : Level := ⟨sharedOptions, .collected⟩

/-! ## Commands -/

def pathValue? (given : Given) (name : String) : Option Path := (given.value? name).map Path.mk

def projectOf (given : Given) : Path := (pathValue? given "project-dir").getD ⟨"."⟩

def validateCommand (given : Given) : Command :=
  .validate (projectOf given) (given.has "check-config") (given.has "ci")

/-- The document has to be named. -/
def generateCommand? (given : Given) : Option Command :=
  (pathValue? given "load").map fun document =>
    .generate document (projectOf given) (given.value? "platform") (given.has "thin-libs") (pathValue? given "save")

/-- There has to be a name. -/
def hashCommand? (given : Given) : Option Command :=
  if given.operands.isEmpty then none else some (.hash given.operands)

/-- A command by its name: the level of its options, and its meaning when they are complete. -/
def commandNamed? : String → Option (Level × (Given → Option Command))
  | "validate" => some (validateLevel, some ∘ validateCommand)
  | "generate" => some (generateLevel, generateCommand?)
  | "hash" => some (hashLevel, hashCommand?)
  | _ => none

/-- Help may be asked for by a command of its own, on one topic. -/
def isHelpTopic : List String → Bool
  | [] => true
  | [topic] => topic = "help" || (commandNamed? topic).isSome
  | _ => false

def combine (outer inner : Given) (command : Command) : Request where
  verbosity := min 255 (if inner.has "verbose" then inner.count "verbose" else outer.count "verbose")
  settings := (pathValue? inner "config").or (pathValue? outer "config")
  command := command

def Request.parse (args : List String) : Except Stop Request := do
  match ← rootLevel.read .nothing args with
  | (_, []) => .error .usage
  | (outer, name :: args) =>
    match commandNamed? name with
    | none => .error (if name = "help" && isHelpTopic args then .help else .usage)
    | some (level, meaning) =>
      let (inner, _) ← level.read .nothing args
      match meaning inner with
      | none => .error .usage
      | some command => .ok (combine outer inner command)

/-! ## Logging -/

/-- The directive for what is logged: the level of the settings unless more was asked for. -/
def logDirective (verbosity : Nat) (configured : String) : String :=
  let level := match verbosity with
    | 0 => configured
    | 1 => "info"
    | 2 => "debug"
    | _ => "trace"
  "registry_compiler=" ++ level ++ ",regc=" ++ level

end FirmwareCatalog.CommandLine
