import RpkiAuthority.History.CommandType
import RpkiAuthority.Storage.VersionedId
import RpkiAuthority.Time.Timestamp

/-!
# Records of executed commands

A record says who did what to which version of an authority, in words for people, and lists the
events the command led to, one to a line. Records of an authority that was deleted are kept and
marked.
-/

namespace RpkiAuthority

/-- The record of an executed command. -/
structure CommandRecord where
  id : Nat
  executedAt : Timestamp
  /-- The authority at the version that the command led to. -/
  authority : VersionedId
  /-- The name of who sent the command. -/
  actor : String
  type : CommandType
  group : CommandGroup
  summary : String
  /-- The descriptions of the events, joined by line feeds. -/
  events : String
  deletedAt : Option Timestamp
  deriving DecidableEq

namespace CommandRecord

/-- Whether the record is marked as deleted. -/
def isDeleted (r : CommandRecord) : Bool := r.deletedAt.isSome

/-- The lines of the events that are not empty. -/
def eventLines (r : CommandRecord) : List String :=
  ((Text.lines r.events.toList).filter fun line => !line.isEmpty).map String.ofList

/-- The written form. -/
def text (r : CommandRecord) : String :=
  Text.join "::"
    [r.executedAt.textToSeconds, r.group.text, r.type.text, r.authority.text, r.summary]

end CommandRecord

end RpkiAuthority
