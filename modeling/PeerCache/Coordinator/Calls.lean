import PeerCache.Coordinator
import PeerCache.Error

/-!
# Calls

The life of callers and loads around a coordinator, one step at a time:

    call         a caller asks for a key: its own load starts, or it joins one
    endWork      the work of a load ends, well or not
    dropFlight   that load drops its flight; from now on its outcome can be read
    receive      a caller reads the outcome of its load
    giveUp       a caller goes away

Loads run on their own, so a caller who gives up takes nothing away from the others.  Nothing is
ever taken out of the two lists: loads stand in the order of their numbers and calls in the order
in which they were made, each with how far it has come.

`finish` and `abandon` are what happens when a load ends and all its callers are listening, and
when a caller goes away wherever it waits.
-/

namespace PeerCache

/-- What a caller receives. -/
abbrev Outcome := Except Error ByteArray

/-- How the work of a load ends. -/
inductive Ending where
  | returned (outcome : Outcome)
  | panicked

namespace Ending

/-- What callers are told of the ending of a load of `key`. -/
def outcome (e : Ending) (group key : String) : Outcome :=
  match e with
  | returned o => o
  | panicked => .error (.loadAborted group key)

end Ending

/-- How far a load has come. -/
inductive Stage where
  | running
  /-- Its work has ended; its flight is still there. -/
  | ended (e : Ending)
  /-- Its flight is dropped, and its outcome can be read. -/
  | finished (e : Ending)

/-- A load, with the caller who started it. -/
structure StartedLoad where
  number : Nat
  group : String
  key : String
  starter : String
  stage : Stage := .running

namespace StartedLoad

def isRunning (l : StartedLoad) : Bool :=
  match l.stage with
  | .running => true
  | _ => false

def isFinished (l : StartedLoad) : Bool :=
  match l.stage with
  | .finished _ => true
  | _ => false

/-- Work ends once. -/
def endWork (e : Ending) (l : StartedLoad) : StartedLoad :=
  match l.stage with
  | .running => { l with stage := .ended e }
  | _ => l

def finish (l : StartedLoad) : StartedLoad :=
  match l.stage with
  | .ended e => { l with stage := .finished e }
  | _ => l

/-- What callers of the load are told; nothing before it has finished. -/
def outcome? (l : StartedLoad) : Option Outcome :=
  match l.stage with
  | .finished e => some (e.outcome l.group l.key)
  | _ => none

end StartedLoad

/-- What has become of a call. -/
inductive Fate where
  | waiting
  | received (o : Outcome)
  | abandoned

/-- A call, and the load that its ticket named. -/
structure Call where
  caller : String
  group : String
  key : String
  load : Nat
  fate : Fate := .waiting

namespace Call

/-- Takes what the load has to tell, if it waits for it. -/
def hear (o : Option Outcome) (c : Call) : Call :=
  match c.fate, o with
  | .waiting, some o => { c with fate := .received o }
  | _, _ => c

def giveUp (c : Call) : Call :=
  match c.fate with
  | .waiting => { c with fate := .abandoned }
  | _ => c

def isWaiting (c : Call) : Bool :=
  match c.fate with
  | .waiting => true
  | _ => false

/-- The caller and what it has received. -/
def told? (c : Call) : Option (String × Outcome) :=
  match c.fate with
  | .received o => some (c.caller, o)
  | _ => none

end Call

structure Calls where
  coordinator : Coordinator := {}
  /-- All loads ever started, by their numbers. -/
  loads : List StartedLoad := []
  /-- All calls ever made. -/
  calls : List Call := []

namespace Calls

/-! ## Steps -/

/-- A caller asks for a key; true if its own load is started. -/
def call (s : Calls) (caller group key : String) : Calls × Bool :=
  let (c, ticket) := s.coordinator.join group key
  let loads :=
    if ticket.starts then s.loads ++ [⟨ticket.load, group, key, caller, .running⟩] else s.loads
  (⟨c, loads, s.calls ++ [⟨caller, group, key, ticket.load, .waiting⟩]⟩, ticket.starts)

def endWork (s : Calls) (n : Nat) (e : Ending) : Calls :=
  { s with loads := s.loads.modify n (·.endWork e) }

/-- A load whose work has ended drops its flight, and only its own. -/
def dropFlight (s : Calls) (n : Nat) : Calls :=
  match s.loads[n]? with
  | some l =>
    match l.stage with
    | .ended _ =>
      { s with
        coordinator := s.coordinator.drop l.group l.key n
        loads := s.loads.modify n (·.finish) }
    | _ => s
  | none => s

/-- What callers of a load are told. -/
def outcomeOf? (s : Calls) (n : Nat) : Option Outcome := s.loads[n]?.bind (·.outcome?)

/-- Call `i` reads the outcome of its load, if there is one to read. -/
def receive (s : Calls) (i : Nat) : Calls :=
  { s with calls := s.calls.modify i fun c => c.hear (s.outcomeOf? c.load) }

def giveUp (s : Calls) (i : Nat) : Calls := { s with calls := s.calls.modify i (·.giveUp) }

/-! ## Several steps at once -/

/-- The load that a caller has started and that still runs. -/
def loadOf? (s : Calls) (caller : String) : Option StartedLoad :=
  s.loads.find? fun l => l.isRunning && l.starter == caller

/-- The calls that wait and have a property, by their numbers. -/
def waiting (s : Calls) (p : Call → Bool) : List Nat :=
  (List.range s.calls.length).filter fun i => s.calls[i]?.any fun c => c.isWaiting && p c

/-- A load ends: its flight is dropped, and its callers receive the outcome. -/
def finish (s : Calls) (l : StartedLoad) (e : Ending) : Calls × List (String × Outcome) :=
  let s := (s.endWork l.number e).dropFlight l.number
  let callers := s.waiting (·.load == l.number)
  let t := callers.foldl receive s
  (t, callers.filterMap fun i => t.calls[i]?.bind (·.told?))

/-- A caller gives up; loads and counts stay. -/
def abandon (s : Calls) (caller : String) : Calls := (s.waiting (·.caller == caller)).foldl giveUp s

end Calls

end PeerCache
