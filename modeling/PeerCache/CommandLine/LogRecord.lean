import PeerCache.CommandLine.LogFilter
import PeerCache.Json.Basic

/-!
# Log records

A record of the log and the line it is written as, which is text or a JSON document:

    2024-05-01T08:00:00.000000Z  INFO groupcached: Starting groupcache node
-/

namespace PeerCache.CommandLine

structure LogRecord where
  /-- When it was written. -/
  moment : String
  level : LogLevel
  target : String
  message : String

namespace LogRecord

/-- The level in capitals, five characters wide. -/
def levelText (r : LogRecord) : String :=
  let name := r.level.name.toUpper
  String.ofList (List.replicate (5 - name.length) ' ') ++ name

def plainLine (r : LogRecord) : String :=
  r.moment ++ " " ++ r.levelText ++ " " ++ r.target ++ ": " ++ r.message

def document (r : LogRecord) : Json :=
  .ofFields [("timestamp", .ofText r.moment), ("level", .ofText r.level.name.toUpper),
    ("fields", .ofFields [("message", .ofText r.message)]), ("target", .ofText r.target)]

def line (r : LogRecord) (json : Bool) : String := if json then r.document.compact else r.plainLine

end LogRecord

end PeerCache.CommandLine
