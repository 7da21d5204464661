import RpkiAuthority.Collection.KeyOrder
import RpkiAuthority.Resource.Address
import RpkiAuthority.Resource.Block

/-!
# Prefixes

A prefix is the set of addresses of a family that share their first bits. Its first address has no
bit set beyond its length; the type holds that, so a prefix is determined by its written form.

Reading refuses prefixes with further bits set. Clearing these bits instead is a separate operation,
`Prefix.containing`, used for the blocks of resource sets.
-/

namespace RpkiAuthority

/-- A prefix of internet addresses. -/
structure Prefix where
  family : Family
  /-- The first address. -/
  addr : Nat
  /-- The number of bits that all addresses of the prefix share. -/
  len : Nat
  len_le : len ≤ family.bits
  addr_lt : addr < Address.space
  aligned : addr % Address.blockSize len = 0
  deriving DecidableEq

namespace Prefix

/-- The prefix of a length that an address lies in; a length beyond the family's bits counts as all
of them. -/
def containing (f : Family) (addr len : Nat) : Prefix where
  family := f
  addr := addr % Address.space / Address.blockSize (min len f.bits) *
    Address.blockSize (min len f.bits)
  len := min len f.bits
  len_le := Nat.min_le_right _ _
  addr_lt := Nat.lt_of_le_of_lt (Nat.div_mul_le_self _ _) (Nat.mod_lt _ (Nat.two_pow_pos 128))
  aligned := Nat.mul_mod_left _ _

/-- The last address. -/
def last (p : Prefix) : Nat := p.addr + (Address.blockSize p.len - 1)

/-- The addresses of the prefix. -/
def block (p : Prefix) : Block := ⟨p.addr, p.last⟩

/-! ### Order -/

/-- Prefixes are ordered by family, IPv4 first, then by first address, then by length. -/
def sortKey (p : Prefix) : List Nat := [p.family.bits, p.addr, p.len]

theorem eq_of_sortKey_eq {p q : Prefix} (h : p.sortKey = q.sortKey) : p = q := by
  cases p with | mk f a l _ _ _ =>
  cases q with | mk g b m _ _ _ =>
  simp only [sortKey, List.cons.injEq, and_true] at h
  obtain ⟨hf, rfl, rfl⟩ := h
  have : f = g := by cases f <;> cases g <;> simp_all [Family.bits]
  subst this
  rfl

instance : Ord Prefix := ⟨compareOn sortKey⟩

instance : Std.TransOrd Prefix := inferInstanceAs (Std.TransCmp (compareOn sortKey))

instance : Std.LawfulEqOrd Prefix := lawfulEqCmp_compareOn fun _ _ => eq_of_sortKey_eq

theorem compare_eq (p q : Prefix) :
    compare p q = (compare p.family.bits q.family.bits).then
      ((compare p.addr q.addr).then (compare p.len q.len)) := by
  show List.compareLex compare p.sortKey q.sortKey = _
  rw [sortKey, sortKey, List.compareLex_cons_cons, List.compareLex_cons_cons,
    List.compareLex_cons_cons, List.compareLex_nil_nil, Ordering.then_eq]

/-! ### Text -/

/-- The written form: first address, slash and length. -/
def text (p : Prefix) : String := Address.text p.family p.addr ++ "/" ++ p.len.repr

/-- Reads an address, a slash and a length that the family has. -/
def readParts (f : Family) (l : List Char) : Option (Nat × Nat) := do
  let (addr, len) ← Text.cutAt '/' l
  let addr ← Address.read f addr
  let len ← Text.readNat Text.max8 len
  if len ≤ f.bits then some (addr, len) else none

/-- Reads a prefix of a family, clearing the bits beyond its length. -/
def readCleared (f : Family) (l : List Char) : Option Prefix :=
  (readParts f l).map fun (addr, len) => containing f addr len

/-- Reads a prefix with nothing around it. A colon makes it an IPv6 prefix. -/
def readExact (l : List Char) : Option Prefix := do
  let f : Family := if l.contains ':' then .ipv6 else .ipv4
  let (addr, len) ← readParts f l
  let p := containing f addr len
  if p.addr = addr then some p else none

/-! ### The prefixes of a block -/

/-- The least length of a prefix that starts at one address and ends no later than another. -/
def fittingLength (f : Family) (first last : Nat) : Nat :=
  ((List.range (f.bits + 1)).find? fun len =>
    first % Address.blockSize len == 0 && first + (Address.blockSize len - 1) ≤ last).getD f.bits

/-- The prefixes that make up the addresses from one to another, each as large as possible, in
ascending order. There are none if the first address comes after the last. -/
def decompose (f : Family) (first last : Nat) : List Prefix :=
  if first ≤ last then
    let len := fittingLength f first last
    containing f first len :: decompose f (first + Address.blockSize len) last
  else []
  termination_by last + 1 - first
  decreasing_by
    have := Address.blockSize_pos (fittingLength f first last)
    omega

end Prefix

end RpkiAuthority
