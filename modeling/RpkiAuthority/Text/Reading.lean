/-!
# Outcomes of reading text

A reader refuses a text with a cause that its caller turns into a message. There is one way to get
no answer at all: an AS number is looked at by its first two bytes, and where these end inside a
character the reader cannot go on. That outcome is kept apart from every refusal, because nothing
that reads AS numbers may mistake it for one.
-/

namespace RpkiAuthority

/-- Why reading gave no value. -/
inductive Fault (ε : Type) where
  /-- The text was refused for a cause. -/
  | refused (cause : ε)
  /-- Reading broke off inside a character. -/
  | aborted
  deriving DecidableEq, Repr

/-- What reading a value of type `α` gives. -/
abbrev Reading (ε α : Type) := Except (Fault ε) α

namespace Reading

variable {ε δ α : Type}

/-- The outcome of a reader that never breaks off. -/
def ofExcept : Except ε α → Reading ε α
  | .ok a => .ok a
  | .error e => .error (.refused e)

/-- The outcome of a reader that refuses for one cause only. -/
def ofOption (cause : ε) : Option α → Reading ε α
  | some a => .ok a
  | none => .error (.refused cause)

/-- Restates the cause of a refusal. -/
def mapCause (f : ε → δ) : Reading ε α → Reading δ α
  | .ok a => .ok a
  | .error (.refused e) => .error (.refused (f e))
  | .error .aborted => .error .aborted

end Reading

end RpkiAuthority
