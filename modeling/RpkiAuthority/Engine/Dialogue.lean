/-!
# Dialogues

A dialogue is a finite program that asks questions and goes on depending on the answers. Which
questions there are, and of which type their answers, is an interface. What the questions mean is
left to whoever conducts the dialogue, so the same program can be run to its end in one go, or one
question at a time between the questions of others.

`Dialogue.conduct` answers all questions in a monad. It keeps programs together: asking is answered
(`conduct_ask`), and what is done in sequence is answered in sequence (`conduct_bind`).
-/

namespace RpkiAuthority

/-- Questions with the types of their answers. -/
structure Interface where
  Query : Type
  Reply : Query → Type

/-- The interface without questions. -/
def Interface.none : Interface := ⟨Empty, fun _ => Empty⟩

/-- A program that asks questions of an interface and ends with a value. -/
inductive Dialogue (I : Interface) (α : Type) where
  | done (a : α)
  | ask (q : I.Query) (next : I.Reply q → Dialogue I α)

namespace Dialogue

variable {I : Interface} {α β γ : Type}

/-- Goes on with another program. -/
def bind : Dialogue I α → (α → Dialogue I β) → Dialogue I β
  | done a, f => f a
  | ask q next, f => ask q fun r => (next r).bind f

instance : Monad (Dialogue I) where
  pure := done
  bind := bind

/-- Asks one question. -/
def query (q : I.Query) : Dialogue I (I.Reply q) := ask q done

theorem bind_done (p : Dialogue I α) : p.bind done = p := by
  induction p with
  | done a => rfl
  | ask q next ih => simp only [bind, ih]

theorem bind_assoc (p : Dialogue I α) (f : α → Dialogue I β) (g : β → Dialogue I γ) :
    (p.bind f).bind g = p.bind fun a => (f a).bind g := by
  induction p with
  | done a => rfl
  | ask q next ih => simp only [bind, ih]

instance : LawfulMonad (Dialogue I) :=
  LawfulMonad.mk' (Dialogue I) (fun p => bind_done p) (fun _ _ => rfl)
    (fun p f g => bind_assoc p f g)

/-! ### Conducting a dialogue -/

section

variable {m : Type → Type} [Monad m]

/-- Runs a program, answering every question. -/
def conduct (answer : (q : I.Query) → m (I.Reply q)) : Dialogue I α → m α
  | done a => pure a
  | ask q next => do
    let r ← answer q
    (next r).conduct answer

@[simp] theorem conduct_pure (answer : (q : I.Query) → m (I.Reply q)) (a : α) :
    conduct answer (pure a : Dialogue I α) = pure a := rfl

theorem conduct_ask [LawfulMonad m] (answer : (q : I.Query) → m (I.Reply q)) (q : I.Query) :
    conduct answer (query q) = answer q := by
  simp [query, conduct]

theorem conduct_bind [LawfulMonad m] (answer : (q : I.Query) → m (I.Reply q)) (p : Dialogue I α)
    (f : α → Dialogue I β) :
    conduct answer (p >>= f) = conduct answer p >>= fun a => conduct answer (f a) := by
  induction p with
  | done a => simp [conduct, Bind.bind, bind]
  | ask q next ih =>
    have ih : ∀ r, conduct answer ((next r).bind f) = _ := ih
    simp only [Bind.bind, bind] at ih ⊢
    simp only [conduct, ih]
    exact (LawfulMonad.bind_assoc _ _ _).symm

end

end Dialogue

end RpkiAuthority
