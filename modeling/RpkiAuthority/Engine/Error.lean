import RpkiAuthority.History.Record
import RpkiAuthority.Resource.Text
import RpkiAuthority.Storage.Error

/-!
# Why a command fails

A command that finds nothing to do signals this like an error. Of the errors proper, those of the
store are transient, and those about what a user asked for are reported to the user but are nothing
to worry about.
-/

namespace RpkiAuthority

/-- Why a command fails. -/
inductive CommandError where
  /-- There was nothing to do. -/
  | noEffect
  /-- Another transaction stood in the way. -/
  | storage (e : StorageError)
  /-- Others changed the authority, and the command was given up. -/
  | concurrentModification (authority : AggregateId) (current version : Nat)
      (conflicting : List CommandRecord)
  | missingHandler (type : String)
  | entityTagDoesNotMatch
  | preconditionRequired
  | illegalResource (what : String)
  | notHolder (resources : ResourceSet)
  | privateAsnsUsed (asns : List Asn)
  | duplicateResource (what : String)
  | invalidCommand (why : String)
  | resources (e : ResourceError)
  | unknownAuthority (id : AggregateId)
  | authorityExists (id : AggregateId)
  | custom (message : String)
  deriving DecidableEq

namespace CommandError

/-- Whether the command may succeed when it is tried again. -/
def isTransient : CommandError → Bool
  | storage _ => true
  | _ => false

/-- Whether the error is about what a user asked for. -/
def isUserError : CommandError → Bool
  | entityTagDoesNotMatch | preconditionRequired | illegalResource _ | notHolder _
  | privateAsnsUsed _ | duplicateResource _ | invalidCommand _ | .resources _ => true
  | _ => false

/-- The wording of the error. -/
def message : CommandError → String
  | noEffect => "Command has no effect"
  | storage e => e.message
  | concurrentModification authority current version conflicting =>
    "CA " ++ authority.repr ++ " was modified concurrently, current version " ++ current.repr ++
      " command version " ++ version.repr ++
      if conflicting.isEmpty then ""
      else ", conflicting: " ++ Text.join " " (conflicting.map CommandRecord.summary)
  | missingHandler type => "No handler for command type " ++ type
  | entityTagDoesNotMatch => "Entity tag does not match"
  | preconditionRequired => "An entity tag is required for this update"
  | illegalResource what => "Illegal resource: " ++ what
  | notHolder missing => "Not holder of resources: " ++ missing.text
  | privateAsnsUsed asns =>
    "Private AS numbers are not allowed: " ++ Text.join ", " (asns.map Asn.text)
  | duplicateResource what => "Duplicate resource: " ++ what
  | invalidCommand why => "Invalid command: " ++ why
  | .resources e => e.message
  | unknownAuthority id => "Unknown CA: " ++ id.repr
  | authorityExists id => "CA " ++ id.repr ++ " already exists"
  | custom message => message

end CommandError

end RpkiAuthority
