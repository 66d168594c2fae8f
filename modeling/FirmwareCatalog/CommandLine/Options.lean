/-!
# Options

Reads arguments from left to right. An option is a name behind two dashes, or one
of the letters behind a single dash; its value follows in the same argument
behind `=` or in the next one. Behind a lone `--` nothing is an option.
-/

namespace FirmwareCatalog.CommandLine

inductive OptionKind where
  /-- Stands at most once. -/
  | flag
  /-- Counts how often it stands. -/
  | counter
  | value (mayBeEmpty : Bool)
  | help
  | version
deriving DecidableEq

structure OptionSpec where
  name : String
  letter : Option Char
  kind : OptionKind

/-- What arguments that are no options mean. -/
inductive Operands where
  | refused
  | collected
  /-- The first one begins something else. -/
  | ending

structure Level where
  options : List OptionSpec
  operands : Operands

/-- Why reading stops before the end. -/
inductive Stop where
  | usage
  | help
  | version
deriving DecidableEq

/-- The options and operands that have been read. -/
structure Given where
  /-- The names of flags and counters, as often as they stand. -/
  flags : List String
  values : List (String × String)
  operands : List String

namespace Given

def nothing : Given := ⟨[], [], []⟩

def has (given : Given) (name : String) : Bool := given.flags.contains name

def count (given : Given) (name : String) : Nat := given.flags.count name

def value? (given : Given) (name : String) : Option String := given.values.lookup name

/-- Adds an option that stands without a value. -/
def addFlag (given : Given) (spec : OptionSpec) : Except Stop Given :=
  match spec.kind with
  | .flag => if given.has spec.name then .error .usage else .ok { given with flags := spec.name :: given.flags }
  | .counter => .ok { given with flags := spec.name :: given.flags }
  | .value _ => .error .usage
  | .help => .error .help
  | .version => .error .version

def addValue (given : Given) (name value : String) (mayBeEmpty : Bool) : Except Stop Given :=
  if (given.value? name).isSome || (value.isEmpty && !mayBeEmpty) then .error .usage
  else .ok { given with values := (name, value) :: given.values }

def addOperands (given : Given) (operands : List String) : Given :=
  { given with operands := given.operands ++ operands }

end Given

/-! ## Words -/

inductive Word where
  | separator
  | long (name : String) (value : Option String)
  | letters (cs : List Char)
  | operand
deriving DecidableEq

/-- The name before `=`, and the value behind it. -/
def splitEquals (cs : List Char) : List Char × Option (List Char) :=
  match cs.dropWhile (· ≠ '=') with
  | [] => (cs, none)
  | _ :: value => (cs.takeWhile (· ≠ '='), some value)

/-- A single dash alone is an operand. -/
def Word.ofArgument (arg : String) : Word :=
  match arg.toList with
  | ['-', '-'] => .separator
  | '-' :: '-' :: cs =>
    let (name, value) := splitEquals cs
    .long (String.ofList name) (value.map String.ofList)
  | '-' :: c :: cs => .letters (c :: cs)
  | _ => .operand

/-! ## Reading -/

namespace Level

def named? (level : Level) (name : String) : Option OptionSpec := level.options.find? (·.name = name)

def lettered? (level : Level) (letter : Char) : Option OptionSpec := level.options.find? (·.letter = some letter)

/-- Letters stand for options without values. -/
def readLetters (level : Level) (given : Given) : List Char → Except Stop Given
  | [] => .ok given
  | c :: cs =>
    match level.lettered? c with
    | none => .error .usage
    | some spec => do level.readLetters (← given.addFlag spec) cs

/-- The options and operands of a level, and the arguments from the operand on that ends it. -/
def read (level : Level) : Given → List String → Except Stop (Given × List String)
  | given, [] => .ok (given, [])
  | given, arg :: args =>
    match Word.ofArgument arg with
    | .separator =>
      match level.operands, args with
      | .collected, _ => .ok (given.addOperands args, [])
      | _, [] => .ok (given, [])
      | _, _ => .error .usage
    | .letters cs => do level.read (← level.readLetters given cs) args
    | .long name value =>
      match level.named? name, value with
      | none, _ => .error .usage
      | some ⟨_, _, .value mayBeEmpty⟩, some value => do level.read (← given.addValue name value mayBeEmpty) args
      | some ⟨_, _, .value mayBeEmpty⟩, none =>
        match args with
        | [] => .error .usage
        | value :: args =>
          if Word.ofArgument value ≠ .operand then .error .usage
          else do level.read (← given.addValue name value mayBeEmpty) args
      | some _, some _ => .error .usage
      | some spec, none => do level.read (← given.addFlag spec) args
    | .operand =>
      match level.operands with
      | .refused => .error .usage
      | .collected => level.read (given.addOperands [arg]) args
      | .ending => .ok (given, arg :: args)

end Level

end FirmwareCatalog.CommandLine
