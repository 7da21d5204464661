import RpkiAuthority.Collection.KeyOrder

/-!
# Types of commands

Commands are of eight types. Those that create an authority or pass on what its parent did are sent
by the system, all others by users.
-/

namespace RpkiAuthority

/-- Who sends commands. -/
inductive CommandGroup where
  | user
  | system
  deriving DecidableEq, Repr

/-- The written form of the group. -/
def CommandGroup.text : CommandGroup → String
  | user => "USER"
  | system => "SYSTEM"

/-- What a command is about. -/
inductive CommandType where
  | createCertificateAuthority
  | updateIncomingCertificate
  | revokeIncomingCertificate
  | subscribeToRoaAlert
  | unsubscribeFromRoaAlert
  | updateRoaAlertIgnoredAnnouncedRoutes
  | updateAspaConfiguration
  | deleteCertificateAuthority
  deriving DecidableEq, Repr

namespace CommandType

/-- All types in order. -/
def all : List CommandType :=
  [createCertificateAuthority, updateIncomingCertificate, revokeIncomingCertificate,
    subscribeToRoaAlert, unsubscribeFromRoaAlert, updateRoaAlertIgnoredAnnouncedRoutes,
    updateAspaConfiguration, deleteCertificateAuthority]

/-- The position in the order of the types. -/
def rank : CommandType → Nat
  | createCertificateAuthority => 0
  | updateIncomingCertificate => 1
  | revokeIncomingCertificate => 2
  | subscribeToRoaAlert => 3
  | unsubscribeFromRoaAlert => 4
  | updateRoaAlertIgnoredAnnouncedRoutes => 5
  | updateAspaConfiguration => 6
  | deleteCertificateAuthority => 7

instance : Ord CommandType := ⟨compareOn rank⟩

instance : Std.TransOrd CommandType := inferInstanceAs (Std.TransCmp (compareOn rank))

instance : Std.LawfulEqOrd CommandType :=
  lawfulEqCmp_compareOn fun a b h => by cases a <;> cases b <;> simp_all [rank]

/-- Who sends commands of the type. -/
def group : CommandType → CommandGroup
  | createCertificateAuthority | updateIncomingCertificate | revokeIncomingCertificate => .system
  | subscribeToRoaAlert | unsubscribeFromRoaAlert | updateRoaAlertIgnoredAnnouncedRoutes
  | updateAspaConfiguration | deleteCertificateAuthority => .user

/-- The written form. -/
def text : CommandType → String
  | createCertificateAuthority => "CreateCertificateAuthority"
  | updateIncomingCertificate => "UpdateIncomingCertificate"
  | revokeIncomingCertificate => "RevokeIncomingCertificate"
  | subscribeToRoaAlert => "SubscribeToRoaAlert"
  | unsubscribeFromRoaAlert => "UnsubscribeFromRoaAlert"
  | updateRoaAlertIgnoredAnnouncedRoutes => "UpdateRoaAlertIgnoredAnnouncedRoutes"
  | updateAspaConfiguration => "UpdateAspaConfiguration"
  | deleteCertificateAuthority => "DeleteCertificateAuthority"

/-- The type with a written form. -/
def read (s : String) : Option CommandType := all.find? fun t => t.text == s

/-- The wording of the error for a text that is no command type. -/
def unknownMessage (s : String) : String := "unknown command type '" ++ s ++ "'"

end CommandType

end RpkiAuthority
