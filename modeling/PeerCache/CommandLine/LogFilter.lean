import PeerCache.Text.Blank
import PeerCache.Text.Numeral

/-!
# Which log records are shown

A record has a level and a target.  The level asked for on the command line holds for all targets;
a variable of the environment can set levels for targets that begin with a given text, as in
`groupcached=error,other=warn`.  The longest such text that fits decides, and of two equal ones
the later.  Directives that cannot be read are ignored, with a complaint.
-/

namespace PeerCache.CommandLine

/-- From none to all. -/
inductive LogLevel where
  | off
  | error
  | warn
  | info
  | debug
  | trace
  deriving Repr, DecidableEq

namespace LogLevel

def all : List LogLevel := [off, error, warn, info, debug, trace]

def rank (l : LogLevel) : Nat := all.idxOf l

def name : LogLevel → String
  | off => "off"
  | error => "error"
  | warn => "warn"
  | info => "info"
  | debug => "debug"
  | trace => "trace"

/-- The level of a command line: anything that is none counts as `info`. -/
def ofOption (s : String) : LogLevel :=
  (([error, warn, info, debug, trace] : List LogLevel).find? (·.name == s.toLower)).getD info

/-- The level of a directive, by name or rank. -/
def ofDirective? (s : String) : Option LogLevel :=
  match Numeral.readWord? Numeral.word64 s.toList with
  | some n => all[n]?
  | none => all.find? (·.name == s.toLower)

end LogLevel

/-- A level for the targets that begin with a text. -/
structure LogDirective where
  target : String
  level : LogLevel
  deriving Repr, DecidableEq

/-- How a directive can be read. -/
inductive ReadDirective where
  | targeted (d : LogDirective)
  /-- For all targets, or for spans; neither tells records of one target apart. -/
  | other
  | refused (complaint : String)

namespace LogFilter

def levelComplaint : String :=
  "error parsing level filter: expected one of \"off\", \"error\", \"warn\", \"info\", \"debug\", \"trace\", or a number 0-5"

/-- A character that a directive can begin with. -/
def beginsDirective (c : Char) : Bool :=
  c.isAlphanum || c == '-' || c == ':' || c == '_' || c == '[' || 128 ≤ c.toNat

def readDirective (s : String) : ReadDirective :=
  let cs := (Text.trim s).toList
  if !cs.head?.any beginsDirective then .refused "invalid filter directive"
  else match cs.span fun c => c ≠ '=' && c ≠ '[' with
    | (target, '=' :: level) =>
      if level.isEmpty then .targeted ⟨String.ofList target, .trace⟩
      else match LogLevel.ofDirective? (String.ofList level) with
        | some l => .targeted ⟨String.ofList target, l⟩
        | none => .refused levelComplaint
    | (_, _ :: _) => .other
    | (word, []) =>
      match LogLevel.ofDirective? (String.ofList word) with
      | some _ => .other
      | none => .targeted ⟨String.ofList word, .trace⟩

/-- The parts of a setting between its commas. -/
def parts (setting : String) : List String := (setting.splitOn ",").filter (· != "")

/-- One line for each directive that is ignored. -/
def complaints (setting : String) : List String :=
  (parts setting).filterMap fun s =>
    match readDirective s with
    | .refused complaint => some ("ignoring \x60" ++ s ++ "\x60: " ++ complaint)
    | _ => none

def directives (setting : String) : List LogDirective :=
  (parts setting).filterMap fun s =>
    match readDirective s with
    | .targeted d => some d
    | _ => none

/-- The directive that decides for a target. -/
def decisive? (target : String) : List LogDirective → Option LogDirective
  | [] => none
  | d :: rest =>
    match decisive? target rest with
    | some e =>
      if target.startsWith d.target && e.target.length < d.target.length then some d else some e
    | none => if target.startsWith d.target then some d else none

/-- Whether records of a level and a target are shown. -/
def shows (option setting : String) (level : LogLevel) (target : String) : Bool :=
  let l := match decisive? target (directives setting) with
    | some d => d.level
    | none => LogLevel.ofOption option
  level.rank ≤ l.rank

end LogFilter

end PeerCache.CommandLine
