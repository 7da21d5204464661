import RpkiAuthority.Engine.Handlers
import RpkiAuthority.Engine.Maintenance

/-!
# Engines

An engine has a handler for every type of command, and listeners that are subscribed, in order, for
every command it runs.
-/

namespace RpkiAuthority

/-- What commands are run with. -/
structure Engine (X : Interface) where
  settings : Settings
  handlers : CommandType → Handler X
  listeners : List (Listener X)

namespace Engine

variable {X : Interface}

/-- The engine with the handlers and listeners of this library. -/
def standard (settings : Settings) : Engine X :=
  ⟨settings, Handlers.standard, Maintenance.standard⟩

/-- The handler registered last for a type of command. -/
def registered (handlers : List (CommandType × Handler X)) (type : CommandType) :
    Option (Handler X) :=
  (handlers.reverse.find? fun h => h.1 == type).map Prod.snd

/-- The engine with the given handlers, if there is one for every type of command. -/
def build (settings : Settings) (handlers : List (CommandType × Handler X))
    (listeners : List (Listener X)) : Except CommandError (Engine X) :=
  match CommandType.all.find? fun t => (registered handlers t).isNone with
  | some t => .error (.missingHandler t.text)
  | none =>
    .ok ⟨settings, fun t => (registered handlers t).getD (Handlers.standard t), listeners⟩

end Engine

end RpkiAuthority
