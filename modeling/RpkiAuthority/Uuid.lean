import RpkiAuthority.Text.Decimal
import RpkiAuthority.Text.Pieces

/-!
# UUIDs

A UUID has 128 bits. It is written as thirty-two lower case hexadecimal digits with hyphens after
the eighth, twelfth, sixteenth and twentieth, and read in that form or without hyphens, in any case;
the form with hyphens may also stand in braces or after `urn:uuid:`.
-/

namespace RpkiAuthority

/-- A UUID. -/
structure Uuid where
  bits : Nat
  isLt : bits < 1 <<< 128
  deriving DecidableEq

namespace Uuid

/-- The UUID of a number, of which 128 bits count. -/
def ofNat (n : Nat) : Uuid := ⟨n % (1 <<< 128), Nat.mod_lt _ (by decide)⟩

/-- The written form. -/
def text (u : Uuid) : String :=
  Text.join "-" [Text.hexPadded 8 (u.bits >>> 96), Text.hexPadded 4 (u.bits >>> 80 % 0x10000),
    Text.hexPadded 4 (u.bits >>> 64 % 0x10000), Text.hexPadded 4 (u.bits >>> 48 % 0x10000),
    Text.hexPadded 12 (u.bits % (1 <<< 48))]

/-- Reads thirty-two hexadecimal digits. -/
def readDigits (l : List Char) : Option Uuid := do
  let n ← l.foldlM (fun n c => (Text.hexValue? c).map (n * 16 + ·)) 0
  if l.length = 32 then some (ofNat n) else none

/-- Reads the form with hyphens. -/
def readHyphenated (l : List Char) : Option Uuid :=
  let parts := Text.piecesAt '-' l
  if parts.map List.length = [8, 4, 4, 4, 12] then readDigits parts.flatten else none

/-- Reads a UUID. -/
def read (l : List Char) : Option Uuid :=
  match readDigits l with
  | some u => some u
  | none =>
    match Text.dropBeginning? "urn:uuid:".toList l with
    | some rest => readHyphenated rest
    | none =>
      match l with
      | '\x7b' :: rest => (Text.dropEnding? ['\x7d'] rest).bind readHyphenated
      | l => readHyphenated l

end Uuid

end RpkiAuthority
