import PeerCache.CommandLine.Flag
import PeerCache.Text.Numeral

/-!
# Options

What a node is started with, read from the command line and then, for flags that are not there,
from the environment.

A flag's value is the next argument, unless that begins with a dash, or stands after an equals
sign.  It is read only when the next flag begins or the line ends, so an argument that is not
expected at all is reported before a bad value in front of it.
-/

namespace PeerCache.CommandLine

structure Options where
  listen : String := "0.0.0.0:8080"
  selfAddr : String := "127.0.0.1:8080"
  peers : List String := []
  virtualReplicas : Nat := 50
  fetchMillis : Nat := 2000
  broadcastMillis : Nat := 500
  groupsFile : Option String := none
  logLevel : String := "info"
  logJson : Bool := false
  deriving Repr, DecidableEq

/-- Why a command line does not start a node. -/
inductive Stop where
  | help
  | version
  | fault (f : UsageFault)
  deriving Repr, DecidableEq

namespace Options

/-! ## Values -/

/-- Why a text is no number below `2 ^ 64`: of two faults, the one further left. -/
def numberFault (cs : List Char) : String :=
  let digits := (if cs.head? == some '+' then cs.drop 1 else cs).takeWhile Char.isDigit
  if cs.isEmpty then "cannot parse integer from empty string"
  else if Numeral.value digits < Numeral.word64 then "invalid digit found in string"
  else "number too large to fit in target type"

def number (f : Flag) (value : String) : Except Stop Nat :=
  match Numeral.readWord? Numeral.word64 value.toList with
  | some n => .ok n
  | none => .error (.fault (.invalid f value (numberFault value.toList)))

def truth (f : Flag) (value : String) : Except Stop Bool :=
  match value with
  | "true" => .ok true
  | "false" => .ok false
  | "" => .error (.fault (.missingValue f))
  | _ => .error (.fault (.notTruth f value))

/-- The options with the value of a flag. -/
def set (o : Options) (f : Flag) (value : String) : Except Stop Options := do
  match f with
  | .listen => .ok { o with listen := value }
  | .selfAddr => .ok { o with selfAddr := value }
  | .peers => .ok { o with peers := o.peers ++ value.splitOn "," }
  | .virtualReplicas => .ok { o with virtualReplicas := ← number f value }
  | .fetchTimeout => .ok { o with fetchMillis := ← number f value }
  | .broadcastTimeout => .ok { o with broadcastMillis := ← number f value }
  | .groupsFile => .ok { o with groupsFile := some value }
  | .logLevel => .ok { o with logLevel := value }
  | .logJson => .ok { o with logJson := ← truth f value }
  | .help => .error .help
  | .version => .error .version

end Options

/-- A command line that has been read in part. -/
structure Parse where
  options : Options := {}
  given : List Flag := []
  /-- A flag whose value has not been read. -/
  pending : Option (Flag × Option String) := none
  /-- The next argument is the value of the pending flag, if it can be. -/
  wantsValue : Bool := false

namespace Parse

/-- Takes the value of a flag.  Only the peers can be given more than once. -/
def accept (p : Parse) (f : Flag) (value : String) : Except Stop Parse := do
  if f != .peers && p.given.contains f then .error (.fault (.repeated f))
  .ok { p with options := ← p.options.set f value, given := f :: p.given }

/-- Reads the value that is pending. -/
def settle (p : Parse) : Except Stop Parse :=
  match p.pending with
  | none => .ok { p with wantsValue := false }
  | some (f, none) => .error (.fault (.missingValue f))
  | some (f, some value) => { p with pending := none, wantsValue := false }.accept f value

def unexpected (argument : String) : Except Stop Parse := .error (.fault (.unexpected argument))

/-- A flag that takes no value. -/
def switch (p : Parse) (f : Flag) : Except Stop Parse := do (← p.settle).accept f "true"

/-- A flag by its long name, with what stands after the equals sign. -/
def long (p : Parse) (name : String) (value : Option String) : Except Stop Parse :=
  match Flag.ofName? name with
  | none => unexpected ("--" ++ name)
  | some f =>
    if f.takesValue then
      match value with
      | some v => do (← p.settle).accept f v
      | none => do .ok { ← p.settle with pending := some (f, none), wantsValue := true }
    else match value with
      | some v => .error (.fault (.superfluous f v))
      | none => p.switch f

/-- Flags by their letters. -/
def short (p : Parse) : List Char → Except Stop Parse
  | [] => .ok p
  | c :: rest =>
    match Flag.ofLetter? c with
    | none => unexpected ("-" ++ String.singleton c)
    | some f => do (← p.switch f).short rest

/-- An argument that is no flag. -/
def plain (p : Parse) (argument : String) : Except Stop Parse :=
  match p.pending, p.wantsValue with
  | some (f, none), true => .ok { p with pending := some (f, some argument), wantsValue := false }
  | _, _ => unexpected argument

/-- The name and the value of a long flag. -/
def divide (cs : List Char) : String × Option String :=
  match cs.span (· ≠ '=') with
  | (name, _ :: value) => (String.ofList name, some (String.ofList value))
  | (name, []) => (String.ofList name, none)

def argument (p : Parse) (a : String) : Except Stop Parse :=
  match a.toList with
  | '-' :: '-' :: cs => p.long (divide cs).1 (divide cs).2
  | '-' :: c :: cs => p.short (c :: cs)
  | _ => p.plain a

/-- Reads all arguments; after two dashes none is expected. -/
def arguments (p : Parse) : List String → Except Stop Parse
  | [] => p.settle
  | "--" :: [] => p.settle
  | "--" :: a :: _ => unexpected a
  | a :: rest => do (← p.argument a).arguments rest

/-- Takes what is not given from the environment. -/
def environment (p : Parse) (lookup : String → Option String) : List Flag → Except Stop Parse
  | [] => .ok p
  | f :: rest =>
    match if p.given.contains f then none else f.setting?.bind lookup with
    | some value => do (← p.accept f value).environment lookup rest
    | none => p.environment lookup rest

end Parse

/-- The options of a command line and an environment. -/
def Options.read (arguments : List String) (lookup : String → Option String) : Except Stop Options := do
  let p ← ({} : Parse).arguments arguments
  .ok (← p.environment lookup Flag.all).options

end PeerCache.CommandLine
