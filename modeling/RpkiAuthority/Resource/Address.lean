import RpkiAuthority.Text.Pieces
import RpkiAuthority.Text.Decimal

/-!
# Internet addresses

Addresses of both families are numbers of 128 bits. An IPv4 address stands in the upper 32 bits, so
that prefix lengths count from the same end in both families; the last address of an IPv4 prefix,
range or single address has all lower 96 bits set.

IPv4 addresses are written as four decimal numbers. IPv6 addresses are written as RFC 5952 wants
them: eight groups in lower case hexadecimal, the first of the longest runs of two or more zero
groups left out as `::`; only an IPv4-mapped address has its last 32 bits written as an IPv4
address.
-/

namespace RpkiAuthority

/-- The two families of internet addresses. -/
inductive Family where
  | ipv4
  | ipv6
  deriving DecidableEq, Repr

namespace Family

/-- The number of bits of an address of the family. -/
def bits : Family → Nat
  | ipv4 => 32
  | ipv6 => 128

theorem bits_le (f : Family) : f.bits ≤ 128 := by cases f <;> decide

end Family

namespace Address

/-- The number of addresses in 128 bits. -/
def space : Nat := 1 <<< 128

/-- The number of addresses that share the first `len` bits. -/
def blockSize (len : Nat) : Nat := 1 <<< (128 - len)

theorem blockSize_pos (len : Nat) : 0 < blockSize len := by
  rw [blockSize, Nat.one_shiftLeft]
  exact Nat.two_pow_pos _

/-! ### IPv4 -/

/-- The written form of 32 bits as an IPv4 address. -/
def dotted (n : Nat) : String :=
  Text.join "." ([n >>> 24 % 256, n >>> 16 % 256, n >>> 8 % 256, n % 256].map Nat.repr)

/-- Reads one of the four numbers of an IPv4 address: at most 255, and without leading zeros. -/
def readOctet (l : List Char) : Option Nat :=
  if l.head? = some '0' ∧ l ≠ ['0'] then none else Text.readNumeral Text.max8 l

/-- Reads an IPv4 address as a number of 32 bits. -/
def readDotted (l : List Char) : Option Nat :=
  match Text.piecesAt '.' l with
  | [a, b, c, d] => do
    return (((← readOctet a) * 256 + (← readOctet b)) * 256 + (← readOctet c)) * 256 +
      (← readOctet d)
  | _ => none

/-! ### IPv6 -/

/-- The eight groups of sixteen bits. -/
def groups (n : Nat) : List Nat :=
  [7, 6, 5, 4, 3, 2, 1, 0].map fun i => n >>> (16 * i) % 0x10000

/-- The number that groups of sixteen bits make up. -/
def ofGroups (gs : List Nat) : Nat := gs.foldl (fun n g => n * 65536 + g) 0

/-- The number of zero groups at the front. -/
def leadingZeros (gs : List Nat) : Nat := (gs.takeWhile (· == 0)).length

/-- Where the first of the longest runs of zero groups starts, and how long it is. -/
def longestZeros : List Nat → Nat × Nat
  | [] => (0, 0)
  | g :: gs =>
    let (start, length) := longestZeros gs
    if length ≤ leadingZeros (g :: gs) then (0, leadingZeros (g :: gs)) else (start + 1, length)

/-- Groups in hexadecimal with colons between them. -/
def colonized (gs : List Nat) : String :=
  Text.join ":" (gs.map fun g => String.ofList (Text.hexDigits g))

/-- The written form of 128 bits as an IPv6 address. -/
def coloned (n : Nat) : String :=
  let gs := groups n
  if n >>> 32 = 0xffff then "::ffff:" ++ dotted (n % (1 <<< 32))
  else
    let (start, length) := longestZeros gs
    if length < 2 then colonized gs
    else colonized (gs.take start) ++ "::" ++ colonized (gs.drop (start + length))

/-- Reads a group: one to four hexadecimal digits. -/
def readGroup (l : List Char) : Option Nat :=
  if l.isEmpty ∨ 4 < l.length then none
  else l.foldlM (fun n c => (Text.hexValue? c).map (n * 16 + ·)) 0

/-- Reads groups, the last of which may be an IPv4 address standing for two. -/
def readGroups : List (List Char) → Option (List Nat)
  | [] => some []
  | [last] =>
    match readGroup last with
    | some g => some [g]
    | none => (readDotted last).map fun n => [n / 65536, n % 65536]
  | piece :: more => do return (← readGroup piece) :: (← readGroups more)

/-- Reads the groups on one side of `::`, where there may be none. -/
def readSide (l : List Char) : Option (List Nat) :=
  if l.isEmpty then some [] else readGroups (Text.piecesAt ':' l)

/-- The texts before and after the first `::`. -/
def cutAtGap : List Char → Option (List Char × List Char)
  | ':' :: ':' :: rest => some ([], rest)
  | c :: rest => (cutAtGap rest).map fun (before, after) => (c :: before, after)
  | [] => none

/-- Reads an IPv6 address as a number of 128 bits. The gap `::` occurs at most once, stands for at
least one group, and has no IPv4 address before it. -/
def readColoned (l : List Char) : Option Nat :=
  match cutAtGap l with
  | none => do
    let gs ← readGroups (Text.piecesAt ':' l)
    if gs.length = 8 then some (ofGroups gs) else none
  | some (before, after) => do
    let front ← if before.isEmpty then some [] else (Text.piecesAt ':' before).mapM readGroup
    let back ← readSide after
    if front.length + back.length ≤ 7 then
      some (ofGroups (front ++ List.replicate (8 - front.length - back.length) 0 ++ back))
    else none

/-! ### Both families -/

/-- The written form of an address. -/
def text : Family → Nat → String
  | .ipv4, n => dotted (n >>> 96)
  | .ipv6, n => coloned n

/-- Reads an address of a family. -/
def read : Family → List Char → Option Nat
  | .ipv4, l => (readDotted l).map (· <<< 96)
  | .ipv6, l => readColoned l

end Address

end RpkiAuthority
