import RpkiAuthority.History.Record
import RpkiAuthority.Stored.Record

/-!
# Stored history
-/

namespace RpkiAuthority.Stored

instance : Stored VersionedId where
  store v := .record [("id", .nat v.id), ("version", .nat v.version)]
  restore := restoreRecord ["id", "version"] fun m =>
    VersionedId.mk <$> m.fieldBy "id" restoreNat64 <*> m.fieldBy "version" restoreNat64

/-- The group with a stored name, which is its written form. -/
def groupNamed (name : String) : Option CommandGroup :=
  [CommandGroup.user, .system].find? fun g => g.text == name

instance : Stored CommandGroup where
  store g := .text g.text
  restore := restoreName groupNamed

instance : Stored CommandType where
  store t := .text t.text
  restore := restoreName CommandType.read

instance : Stored Timestamp where
  store t := .text t.text
  restore := restoreText fun s => .ofOption () (Timestamp.parse s)

/-- A record that is not deleted is stored without the time of its deletion. -/
instance : Stored CommandRecord where
  store r := .record <|
    [("id", .nat r.id), ("executed_at", store r.executedAt), ("ca", store r.authority),
      ("actor", store r.actor), ("command_type", store r.type), ("command_group", store r.group),
      ("summary", store r.summary), ("events", store r.events)] ++
    match r.deletedAt with
    | some t => [("deleted_at", store t)]
    | none => []
  restore := restoreRecord
    ["id", "executed_at", "ca", "actor", "command_type", "command_group", "summary", "events",
      "deleted_at"]
    fun m => CommandRecord.mk <$> m.fieldBy "id" restoreNat64 <*> m.field "executed_at" <*>
      m.field "ca" <*> m.field "actor" <*> m.field "command_type" <*> m.field "command_group" <*>
      m.field "summary" <*> m.field "events" <*> m.fieldWithDefault "deleted_at" none

end RpkiAuthority.Stored
