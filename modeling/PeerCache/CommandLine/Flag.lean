/-!
# Flags

What can be given on the command line.  Every flag that sets something can also be given by a
variable of the environment, which counts only if the flag is not there.
-/

namespace PeerCache.CommandLine

inductive Flag where
  | listen
  | selfAddr
  | peers
  | virtualReplicas
  | fetchTimeout
  | broadcastTimeout
  | groupsFile
  | logLevel
  | logJson
  | help
  | version
  deriving Repr, DecidableEq

namespace Flag

/-- In the order in which the environment is looked at. -/
def all : List Flag :=
  [listen, selfAddr, peers, virtualReplicas, fetchTimeout, broadcastTimeout, groupsFile, logLevel,
    logJson, help, version]

/-- The long name, without the dashes. -/
def name : Flag → String
  | listen => "listen"
  | selfAddr => "self-addr"
  | peers => "peers"
  | virtualReplicas => "virtual-replicas"
  | fetchTimeout => "fetch-timeout-ms"
  | broadcastTimeout => "broadcast-timeout-ms"
  | groupsFile => "groups-file"
  | logLevel => "log-level"
  | logJson => "log-json"
  | help => "help"
  | version => "version"

def letter? : Flag → Option Char
  | help => some 'h'
  | version => some 'V'
  | _ => none

def takesValue : Flag → Bool
  | logJson | help | version => false
  | _ => true

def setting? : Flag → Option String
  | listen => some "GROUPCACHE_LISTEN"
  | selfAddr => some "GROUPCACHE_SELF_ADDR"
  | peers => some "GROUPCACHE_PEERS"
  | virtualReplicas => some "GROUPCACHE_VIRTUAL_REPLICAS"
  | fetchTimeout => some "GROUPCACHE_FETCH_TIMEOUT_MS"
  | broadcastTimeout => some "GROUPCACHE_BROADCAST_TIMEOUT_MS"
  | groupsFile => some "GROUPCACHE_GROUPS_FILE"
  | logLevel => some "LOG_LEVEL"
  | logJson => some "LOG_JSON"
  | help | version => none

/-- The name of the value: the flag's in capitals. -/
def valueName (f : Flag) : String := f.name.toUpper.map fun c => if c == '-' then '_' else c

/-- The flag as messages show it. -/
def text (f : Flag) : String :=
  "--" ++ f.name ++ (if f.takesValue then " <" ++ f.valueName ++ ">" else "")

def ofName? (name : String) : Option Flag := all.find? (·.name == name)

def ofLetter? (c : Char) : Option Flag := all.find? (·.letter? == some c)

end Flag

/-- What is wrong with a command line. -/
inductive UsageFault where
  | unexpected (argument : String)
  | missingValue (f : Flag)
  | repeated (f : Flag)
  /-- A value for a flag that takes none. -/
  | superfluous (f : Flag) (value : String)
  | invalid (f : Flag) (value reason : String)
  /-- Neither `true` nor `false`. -/
  | notTruth (f : Flag) (value : String)
  deriving Repr, DecidableEq

namespace UsageFault

def message : UsageFault → String
  | unexpected argument => "unexpected argument '" ++ argument ++ "' found"
  | missingValue f => "a value is required for '" ++ f.text ++ "' but none was supplied"
  | repeated f => "the argument '" ++ f.text ++ "' cannot be used multiple times"
  | superfluous f value =>
    "unexpected value '" ++ value ++ "' for '" ++ f.text ++ "' found; no more were expected"
  | invalid f value reason => "invalid value '" ++ value ++ "' for '" ++ f.text ++ "': " ++ reason
  | notTruth f value => "invalid value '" ++ value ++ "' for '" ++ f.text ++ "'"

end UsageFault

end PeerCache.CommandLine
