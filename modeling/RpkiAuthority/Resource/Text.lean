import RpkiAuthority.Resource.Set

/-!
# Text of resource sets

A resource set is written as one list with commas: first AS numbers and their ranges, then IPv4 and
then IPv6 addresses, prefixes and ranges. It is read from the same notation with the items in any
order. An item with a colon is IPv6, else one with a dot is IPv4, else it is about AS numbers.

There are two readers. `ResourceSet.read` takes one list of all kinds, tells which item is wrong and
in what way, and refuses ranges that end before they start. `ResourceSet.readSeparate` takes three
lists, names the whole list that does not read, and takes such ranges as they are.
-/

namespace RpkiAuthority

/-- What is wrong with a text about resources. The text at fault is kept. -/
inductive ResourceError where
  | asn (text : String)
  | address (text : String)
  | pfx (text : String)
  | range (text : String)
  deriving DecidableEq, Repr

namespace ResourceError

/-- The wording of the error. -/
def message : ResourceError → String
  | asn s => "Invalid AS number: '" ++ s ++ "'"
  | address s => "Invalid IP address: '" ++ s ++ "'"
  | pfx s => "Invalid prefix: '" ++ s ++ "'"
  | range s => "Invalid range: '" ++ s ++ "'"

end ResourceError

/-! ### Single AS numbers and prefixes -/

/-- Reads an AS number between white space. -/
def Asn.parse (s : String) : Reading ResourceError Asn :=
  (Asn.read (Text.trimmed s.toList)).mapCause fun _ => .asn (Text.trim s)

/-- Reads a prefix between white space. -/
def Prefix.parse (s : String) : Except ResourceError Prefix :=
  match Prefix.readExact (Text.trimmed s.toList) with
  | some p => .ok p
  | none => .error (.pfx (Text.trim s))

namespace Block

/-! ### Written blocks -/

/-- The written form of a block of AS numbers. -/
def asnText (b : Block) : String :=
  if b.min = b.max then "AS" ++ b.min.repr else "AS" ++ b.min.repr ++ "-AS" ++ b.max.repr

/-- The length of the prefix whose addresses make up a block, if there is one. -/
def prefixLength? (f : Family) (b : Block) : Option Nat :=
  (List.range (f.bits + 1)).find? fun len =>
    b.min % Address.blockSize len == 0 && b.max == b.min + (Address.blockSize len - 1)

/-- The written form of a block of addresses: a prefix where it is one, without the length if that
is the full one, and else a range. -/
def addressText (f : Family) (b : Block) : String :=
  match prefixLength? f b with
  | some len =>
    if len = f.bits then Address.text f b.min
    else Address.text f b.min ++ "/" ++ len.repr
  | none => Address.text f b.min ++ "-" ++ Address.text f b.max

/-! ### Reading blocks -/

/-- Reads an AS number or a range of them with nothing around it. -/
def readAsns (l : List Char) : Reading Unit Block := do
  match Text.cutAt '-' l with
  | none => return single (← Asn.read l).toNat
  | some (_, []) => .error (.refused ())
  | some (first, last) => return ⟨(← Asn.read first).toNat, (← Asn.read last).toNat⟩

/-- The last address that shares the family's bits with an address. -/
def endOf (f : Family) (addr : Nat) : Nat := addr + (Address.blockSize f.bits - 1)

/-- Reads an address, a prefix or a range of addresses with nothing around it. -/
def readAddresses (f : Family) (l : List Char) : Option Block :=
  if l.contains '/' then (Prefix.readCleared f l).map Prefix.block
  else
    match Text.cutAt '-' l with
    | some (first, last) => do return ⟨← Address.read f first, endOf f (← Address.read f last)⟩
    | none => (Address.read f l).map fun addr => ⟨addr, endOf f addr⟩

end Block

namespace ResourceSet

/-! ### Whole sets -/

/-- The written form. -/
def text (s : ResourceSet) : String :=
  Text.join ", " <|
    s.asns.map Block.asnText ++ s.ipv4.map (Block.addressText .ipv4) ++
      s.ipv6.map (Block.addressText .ipv6)

/-- The items of a list with commas, without the white space around them and without empty ones. -/
def items (l : List Char) : List (List Char) :=
  ((Text.piecesAt ',' l).map Text.trimmed).filter fun item => !item.isEmpty

/-- A block that one item of a list stands for. -/
inductive Item where
  | asns (block : Block)
  | addresses (family : Family) (block : Block)

/-- Refuses a block that ends before it starts. -/
def requireOrder (item : List Char) (b : Block) : Reading ResourceError Block :=
  if b.max < b.min then .error (.refused (.range (String.ofList item))) else .ok b

/-- Reads an item about addresses of a family. -/
def readAddressItem (f : Family) (item : List Char) : Reading ResourceError Item := do
  let b ← Reading.ofOption
    (if item.contains '/' then .pfx (String.ofList item)
      else if item.contains '-' then .range (String.ofList item)
      else .address (String.ofList item))
    (Block.readAddresses f item)
  return .addresses f (← requireOrder item b)

/-- Reads an item. -/
def readItem (item : List Char) : Reading ResourceError Item := do
  if item.contains ':' then readAddressItem .ipv6 item
  else if item.contains '.' then readAddressItem .ipv4 item
  else
    let b ← (Block.readAsns item).mapCause fun _ => .asn (String.ofList item)
    return .asns (← requireOrder item b)

/-- The set that items stand for. -/
def ofItems (l : List Item) : ResourceSet where
  asns := Block.collect <| l.filterMap fun
    | .asns b => some b
    | .addresses _ _ => none
  ipv4 := Block.collect <| l.filterMap fun
    | .addresses .ipv4 b => some b
    | _ => none
  ipv6 := Block.collect <| l.filterMap fun
    | .addresses .ipv6 b => some b
    | _ => none

/-- Reads a set from one list of items of all kinds. -/
def read (s : String) : Reading ResourceError ResourceSet := do
  return ofItems (← (items s.toList).mapM readItem)

/-- Reads blocks of addresses from a list of items. -/
def readAddressList (f : Family) (s : String) : Reading ResourceError (List Block) := do
  let blocks ← Reading.ofOption (.address s) ((items s.toList).mapM (Block.readAddresses f))
  return Block.collect blocks

/-- Reads a set from three lists, one for each kind. -/
def readSeparate (asns ipv4 ipv6 : String) : Reading ResourceError ResourceSet := do
  let a ← ((items asns.toList).mapM Block.readAsns).mapCause fun _ => .asn asns
  return ⟨Block.collect a, ← readAddressList .ipv4 ipv4, ← readAddressList .ipv6 ipv6⟩

/-! ### Resources for private use -/

/-- The AS numbers reserved for private use. -/
def privateAsns : ResourceSet :=
  ⟨[⟨64512, 65534⟩, ⟨4200000000, 4294967294⟩], [], []⟩

/-- The AS numbers and addresses reserved for private use. -/
def privateUse : ResourceSet where
  asns := privateAsns.asns
  ipv4 := [⟨0x0a000000 <<< 96, (0x0b000000 <<< 96) - 1⟩,
    ⟨0xac100000 <<< 96, (0xac200000 <<< 96) - 1⟩, ⟨0xc0a80000 <<< 96, (0xc0a90000 <<< 96) - 1⟩]
  ipv6 := [⟨0xfc00 <<< 112, (0xfe00 <<< 112) - 1⟩]

end ResourceSet

end RpkiAuthority
