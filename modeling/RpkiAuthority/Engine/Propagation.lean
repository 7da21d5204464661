/-!
# Propagation of events

Every running command has an audience: the listeners that are subscribed for it. An event goes to
the innermost audience, to the listener subscribed last first. Leaving an audience leaves all that
were entered inside it, too. Subscriptions are cancelled one by one; those that never were are
dropped when all is reset, for each audience with a warning.

Audiences and subscriptions are known by numbers that are not given again, so cancelling or leaving
what is gone changes nothing.
-/

namespace RpkiAuthority

/-- The listeners subscribed for one command, the first one first, with the numbers of their
subscriptions. -/
structure Audience (L : Type) where
  id : Nat
  listeners : List (Nat × L)

/-- The audiences of all commands that run inside one command. -/
structure Propagation (L : Type) where
  /-- All audiences entered so far, in order. -/
  audiences : List (Audience L)
  /-- The audiences not left yet, the innermost first. -/
  entered : List Nat
  nextAudience : Nat
  nextSubscription : Nat

namespace Propagation

variable {L : Type}

/-- No audiences. -/
def new : Propagation L := ⟨[], [], 0, 0⟩

/-- Enters a new audience. -/
def enter (s : Propagation L) : Nat × Propagation L :=
  (s.nextAudience,
    { s with
      audiences := s.audiences ++ [⟨s.nextAudience, []⟩]
      entered := s.nextAudience :: s.entered
      nextAudience := s.nextAudience + 1 })

/-- Leaves an audience and those inside it. -/
def leave (s : Propagation L) (audience : Nat) : Propagation L :=
  if s.entered.contains audience then
    { s with entered := (s.entered.dropWhile (· != audience)).drop 1 }
  else s

/-- The number of audiences entered and not left. -/
def depth (s : Propagation L) : Nat := s.entered.length

/-- Subscribes a listener to an audience. -/
def subscribeTo (s : Propagation L) (audience : Nat) (listener : L) :
    Nat × Propagation L :=
  (s.nextSubscription,
    { s with
      audiences := s.audiences.map fun a =>
        if a.id = audience then
          { a with listeners := a.listeners ++ [(s.nextSubscription, listener)] }
        else a
      nextSubscription := s.nextSubscription + 1 })

/-- Subscribes a listener to the innermost audience. Where there is none, one is entered first. -/
def subscribe (s : Propagation L) (listener : L) : Nat × Propagation L :=
  match s.entered with
  | audience :: _ => s.subscribeTo audience listener
  | [] =>
    let (audience, s) := s.enter
    s.subscribeTo audience listener

/-- Cancels a subscription. -/
def cancel (s : Propagation L) (subscription : Nat) : Propagation L :=
  { s with
    audiences := s.audiences.map fun a =>
      { a with listeners := a.listeners.filter fun l => l.1 != subscription } }

/-- The listeners that an event is delivered to, in that order. -/
def listeners (s : Propagation L) : List L :=
  match s.entered with
  | [] => []
  | audience :: _ =>
    match s.audiences.find? fun a => a.id == audience with
    | some a => (a.listeners.map Prod.snd).reverse
    | none => []

/-- Drops all audiences and subscriptions. The first component has the number of subscriptions
dropped for each audience that still had some. -/
def reset (s : Propagation L) : List Nat × Propagation L :=
  ((s.audiences.map fun a => a.listeners.length).filter (0 < ·),
    { s with audiences := [], entered := [] })

/-- What is noted in the log when subscriptions of an audience are dropped. -/
def droppedMessage (count : Nat) : String :=
  "Dropped " ++ count.repr ++ " event listener(s) that were never cancelled"

end Propagation

end RpkiAuthority
