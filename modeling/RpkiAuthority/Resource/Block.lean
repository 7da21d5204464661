/-!
# Blocks of numbers

A block is a range of numbers with both ends; a list of blocks stands for the numbers in any of
them. AS numbers and addresses of both families are kept as such lists.

Lists are **collected** from blocks in any order. While blocks arrive in ascending order they are
joined with the last block they meet; from the first one out of order on, each is joined with the
first block it meets, and at the end the blocks are sorted and neighbours without a gap joined once
more. Blocks that overlap only after a join stay apart, so a collected list need not be the shortest
one. Intersection, difference and containment are single walks along two lists, which take the lists
as they are.

A list is in normal form (`Block.Normal`) if its blocks ascend, with at least one number missing
between neighbours. Among such lists two are equal exactly when they stand for the same numbers.
-/

namespace RpkiAuthority

/-- The numbers from `min` to `max`, none if `max` is less than `min`. -/
structure Block where
  min : Nat
  max : Nat
  deriving DecidableEq, Repr

namespace Block

/-- Membership of a number. -/
instance : Membership Nat Block := ⟨fun b n => b.min ≤ n ∧ n ≤ b.max⟩

/-- The block of one number. -/
def single (n : Nat) : Block := ⟨n, n⟩

/-- Whether two blocks share a number, the ends being in order. -/
def meets (a b : Block) : Bool := a.min ≤ b.max && b.min ≤ a.max

/-- Whether the second block starts right after the end of the first. -/
def precedes (a b : Block) : Bool := a.max + 1 == b.min

/-- Whether two blocks share a number or are neighbours without a gap. -/
def touches (a b : Block) : Bool := a.meets b || a.precedes b || b.precedes a

/-- Whether the first block reaches at least as far as the second at both ends. -/
def covers (a b : Block) : Bool := a.min ≤ b.min && b.max ≤ a.max

/-- The block from the smaller start to the larger end. -/
def hull (a b : Block) : Block := ⟨Nat.min a.min b.min, Nat.max a.max b.max⟩

/-- The numbers that a list of blocks stands for. -/
def Holds (l : List Block) (n : Nat) : Prop := ∃ b ∈ l, n ∈ b

/-- **Normal form.** The ends of every block are in order, the blocks ascend, and between
neighbours at least one number is missing. -/
def Normal (l : List Block) : Prop :=
  (∀ b ∈ l, b.min ≤ b.max) ∧ l.Pairwise fun a b => a.max + 1 < b.min

/-! ### Collecting -/

/-- Takes blocks as long as each starts no earlier than the last one taken. The list taken so far is
kept with its last block first; what is not taken is returned beside it. -/
def takeAscending : List Block → List Block → List Block × List Block
  | taken, [] => (taken, [])
  | [], b :: rest => takeAscending [b] rest
  | last :: taken, b :: rest =>
    if b.min < last.min then (last :: taken, b :: rest)
    else if b.min ≤ last.max then
      takeAscending ((if last.max < b.max then ⟨last.min, b.max⟩ else last) :: taken) rest
    else if last.precedes b then takeAscending (⟨last.min, b.max⟩ :: taken) rest
    else takeAscending (b :: last :: taken) rest

/-- Joins a block with the first block of a list it touches, or puts it at the end. -/
def place (b : Block) : List Block → List Block
  | [] => [b]
  | c :: rest => if c.touches b then c.hull b :: rest else c :: place b rest

/-- Joins blocks that follow each other without a gap, starting from a first block. -/
def joinFrom (a : Block) : List Block → List Block
  | [] => [a]
  | b :: rest =>
    if a.precedes b then joinFrom ⟨a.min, b.max⟩ rest else a :: joinFrom b rest

/-- Joins blocks that follow each other without a gap. -/
def joinNeighbours : List Block → List Block
  | [] => []
  | a :: rest => joinFrom a rest

/-- The list collected from blocks in any order. -/
def collect (blocks : List Block) : List Block :=
  match takeAscending [] blocks with
  | (taken, []) => taken.reverse
  | (taken, rest) =>
    let placed := rest.foldl (fun l b => place b l) taken.reverse
    joinNeighbours (placed.mergeSort fun a b => a.min ≤ b.min)

/-! ### Walks -/

/-- The list collected from the blocks of one list and then those of another. -/
def union (l r : List Block) : List Block := collect (l ++ r)

/-- What the blocks of the first list share with those of the second. -/
def intersection : List Block → List Block → List Block
  | [], _ => []
  | _, [] => []
  | s :: ss, o :: os =>
    if o.max < s.min then intersection (s :: ss) os
    else if o.covers s then s :: intersection ss (o :: os)
    else if s.max < o.min then intersection ss (o :: os)
    else if s.max ≤ o.max then ⟨Nat.max s.min o.min, s.max⟩ :: intersection ss (o :: os)
    else ⟨Nat.max s.min o.min, o.max⟩ :: intersection (⟨o.max + 1, s.max⟩ :: ss) os
  termination_by l r => l.length + r.length

/-- What of the blocks of the first list is in no block of the second. -/
def difference : List Block → List Block → List Block
  | [], _ => []
  | s :: ss, [] => s :: difference ss []
  | s :: ss, o :: os =>
    if s.min < o.min then
      if s.max < o.min then s :: difference ss (o :: os)
      else if s.max = o.min then ⟨s.min, o.min - 1⟩ :: difference ss (o :: os)
      else if s.max < o.max then ⟨s.min, o.min - 1⟩ :: difference ss (o :: os)
      else if s.max = o.max then ⟨s.min, o.min - 1⟩ :: difference ss os
      else ⟨s.min, o.min - 1⟩ :: difference (⟨o.max + 1, s.max⟩ :: ss) os
    else if s.min = o.min ∨ s.min < o.max then
      if s.max < o.max then difference ss (o :: os)
      else if s.max = o.max then difference ss os
      else difference (⟨o.max + 1, s.max⟩ :: ss) os
    else if s.min = o.max then
      if s.min = s.max then difference ss os
      else difference (⟨o.max + 1, s.max⟩ :: ss) os
    else difference (s :: ss) os
  termination_by l r => l.length + r.length

/-- Whether the walk finds every block of the first list covered by a block of the second. -/
def covered : List Block → List Block → Bool
  | [], _ => true
  | s :: ss, other =>
    match other.dropWhile fun o => decide (o.max < s.min) with
    | [] => false
    | o :: os => o.covers s && covered ss (o :: os)

/-- Whether the walk finds a block with the number before one that starts after it. -/
def holds (n : Nat) : List Block → Bool
  | [] => false
  | b :: rest => if n < b.min then false else if n ≤ b.max then true else holds n rest

/-- Whether a block of the list meets the given one. -/
def meetsAny (l : List Block) (b : Block) : Bool := l.any fun c => c.meets b

end Block

end RpkiAuthority
