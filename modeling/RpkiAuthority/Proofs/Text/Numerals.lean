import Mathlib.Data.Nat.Digits.Defs
import RpkiAuthority.Text.Blank
import RpkiAuthority.Text.Decimal

/-!
# Numbers that are written are read back

Digits are written from the last one to the first, by division, and read from the first one to the
last. So what is said of the digits of a number follows the divisions (`Text.toDigits_induction`):
it holds of a single digit, and it passes from a number to the number with one more digit.

Digits in both bases are ASCII letters and digits. They are never blanks, and never one of the
separators of the notations that numbers are part of.
-/

namespace RpkiAuthority.Text

variable {b n max : Nat} {c : Char}

/-! ### Letters and digits -/

/-- The code points of ASCII letters and digits. -/
theorem toNat_of_isAlphanum (h : c.isAlphanum = true) :
    (65 ≤ c.toNat ∧ c.toNat ≤ 90 ∨ 97 ≤ c.toNat ∧ c.toNat ≤ 122) ∨
      48 ≤ c.toNat ∧ c.toNat ≤ 57 := by
  delta Char.isAlphanum Char.isAlpha Char.isUpper Char.isLower Char.isDigit at h
  simp only [Bool.or_eq_true, Bool.and_eq_true, decide_eq_true_eq] at h
  exact h

/-- ASCII letters and digits are not white space. -/
theorem isBlank_of_isAlphanum (h : c.isAlphanum = true) : isBlank c = false := by
  have hrange := toNat_of_isAlphanum h
  simp only [isBlank, blankRanges, List.any_cons, List.any_nil, Bool.or_false, Bool.or_eq_false_iff,
    Bool.and_eq_false_iff, decide_eq_false_iff_not]
  omega

theorem hexValue?_digitChar : ∀ d < 16, hexValue? d.digitChar = some d := by decide

theorem isAlphanum_digitChar : ∀ d < 16, d.digitChar.isAlphanum = true := by decide

/-! ### Digits -/

/-- **Digits follow the divisions.** -/
theorem toDigits_induction (hb : 1 < b) {P : Nat → List Char → Prop}
    (single : ∀ n < b, P n [n.digitChar])
    (append : ∀ n, b ≤ n → P (n / b) (Nat.toDigits b (n / b)) →
      P n (Nat.toDigits b (n / b) ++ [(n % b).digitChar])) (n : Nat) : P n (Nat.toDigits b n) := by
  induction n using Nat.strongRecOn with
  | ind n ih =>
    rcases Nat.lt_or_ge n b with hlt | hge
    · rw [Nat.toDigits_of_lt_base hlt]
      exact single n hlt
    · rw [Nat.toDigits_of_base_le hb hge]
      exact append n hge (ih (n / b) (Nat.div_lt_self (by omega) hb))

/-- Digits are those of the base. -/
theorem isAlphanum_of_mem_toDigits (hb : 1 < b) (hb' : b ≤ 16) (n : Nat) :
    ∀ c ∈ Nat.toDigits b n, c.isAlphanum = true := by
  refine toDigits_induction (P := fun _ l => ∀ c ∈ l, c.isAlphanum = true) hb (fun n hn => ?_)
    (fun n _ ih => ?_) n
  · exact List.forall_mem_singleton.mpr (isAlphanum_digitChar n (by omega))
  · refine List.forall_mem_append.mpr ⟨ih, List.forall_mem_singleton.mpr ?_⟩
    exact isAlphanum_digitChar _ (Nat.lt_of_lt_of_le (Nat.mod_lt n (by omega)) hb')

/-- The first digit of a positive number is not zero. -/
theorem head?_toDigits_ne (hb : 1 < b) : ∀ n, 0 < n → (Nat.toDigits b n).head? ≠ some '0' := by
  refine toDigits_induction (P := fun n l => 0 < n → l.head? ≠ some '0') hb (fun n _ hn => ?_)
    fun n hge ih _ => ?_
  · rw [List.head?_cons]
    exact fun h => absurd (Nat.digitChar_eq_zero.mp (Option.some.inj h)) (by omega)
  · have hfirst := ih (Nat.div_pos hge (by omega))
    cases h : Nat.toDigits b (n / b) with
    | nil => exact absurd h Nat.toDigits_ne_nil
    | cons d more =>
      rw [h] at hfirst
      exact hfirst

/-! ### Decimal numbers -/

theorem isAlphanum_of_mem_repr (h : c ∈ n.repr.toList) : c.isAlphanum = true := by
  rw [Nat.toList_repr] at h
  exact isAlphanum_of_mem_toDigits (by decide) (by decide) n c h

theorem isNumeral_toDigits (n : Nat) : isNumeral (Nat.toDigits 10 n) = true := by
  rw [isNumeral, Bool.and_eq_true, Bool.not_eq_true', List.isEmpty_eq_false_iff, List.all_eq_true]
  exact ⟨Nat.toDigits_ne_nil, fun c => Nat.isDigit_of_mem_toDigits (by decide) (Nat.le_refl 10)⟩

/-- **A decimal number is read back** if it is not too large. -/
theorem readNumeral_repr (h : n ≤ max) : readNumeral max n.repr.toList = some n := by
  have hvalue : digitsValue (Nat.toDigits 10 n) = n := Nat.ofDigitChars_ten_toDigits
  rw [Nat.toList_repr, readNumeral, if_pos (isNumeral_toDigits n), hvalue, if_pos h]

/-- A decimal number has no sign. -/
theorem readNat_repr (h : n ≤ max) : readNat max n.repr.toList = some n := by
  have hread := readNumeral_repr h
  rw [readNat]
  · exact hread
  · intro rest heq
    have hsign : '+' ∈ n.repr.toList := heq ▸ List.mem_cons_self
    exact absurd (isAlphanum_of_mem_repr hsign) (by decide)

/-! ### Hexadecimal numbers -/

/-- **A hexadecimal number is read back**, digit by digit. -/
theorem foldlM_hexDigits (n : Nat) :
    (hexDigits n).foldlM (fun n c => (hexValue? c).map (n * 16 + ·)) 0 = some n := by
  refine toDigits_induction (P := fun n l =>
    l.foldlM (fun n c => (hexValue? c).map (n * 16 + ·)) 0 = some n) (by decide) (fun n hn => ?_)
    (fun n _ ih => ?_) n
  · simp [hexValue?_digitChar n hn]
  · have hlast := hexValue?_digitChar (n % 16) (Nat.mod_lt n (by decide))
    rw [List.foldlM_append, ih]
    simp [hlast]
    omega

/-- **Digits count in their places** behind others. -/
theorem foldlM_hex (l : List Char) (m : Nat) :
    l.foldlM (fun n c => (hexValue? c).map (n * 16 + ·)) m =
      (l.foldlM (fun n c => (hexValue? c).map (n * 16 + ·)) 0).map (m * 16 ^ l.length + ·) := by
  induction l generalizing m with
  | nil => simp
  | cons c l ih =>
    rw [List.foldlM_cons, List.foldlM_cons]
    cases hexValue? c with
    | none => rfl
    | some v =>
      simp only [Option.map_some, Option.bind_eq_bind, Option.bind_some]
      rw [ih (m * 16 + v), ih (0 * 16 + v), Option.map_map]
      refine congrArg (Option.map · _) (funext fun n => ?_)
      rw [Function.comp_apply, List.length_cons, Nat.pow_succ', Nat.zero_mul, Nat.zero_add,
        Nat.add_mul, Nat.mul_assoc, Nat.add_assoc]

section

variable {width : Nat}

theorem toList_hexPadded : (hexPadded width n).toList =
    List.replicate (width - (hexDigits n).length) '0' ++ hexDigits n :=
  String.toList_ofList

theorem isAlphanum_of_mem_hexPadded (h : c ∈ (hexPadded width n).toList) : c.isAlphanum = true := by
  rw [toList_hexPadded, List.mem_append] at h
  rcases h with h | h
  · obtain rfl := List.eq_of_mem_replicate h
    rfl
  · exact isAlphanum_of_mem_toDigits (by decide) (by decide) n c h

/-- A number that fits the width is filled up to it. -/
theorem length_hexPadded (hwidth : 0 < width) (h : n < 16 ^ width) :
    (hexPadded width n).toList.length = width := by
  have hle : (hexDigits n).length ≤ width := Nat.toDigits_length 16 n width hwidth h
  rw [toList_hexPadded, List.length_append, List.length_replicate]
  omega

/-- **A hexadecimal number of a width is read back** behind other digits. -/
theorem foldlM_hexPadded (hwidth : 0 < width) (h : n < 16 ^ width) (m : Nat) :
    (hexPadded width n).toList.foldlM (fun n c => (hexValue? c).map (n * 16 + ·)) m =
      some (m * 16 ^ width + n) := by
  have hzeros : ∀ k, (List.replicate k '0').foldlM
      (fun n c => (hexValue? c).map (n * 16 + ·)) 0 = some 0 := by
    intro k
    induction k with
    | zero => rfl
    | succ k ih => exact ih
  rw [foldlM_hex, length_hexPadded hwidth h, toList_hexPadded, List.foldlM_append, hzeros,
    Option.bind_eq_bind, Option.bind_some, foldlM_hexDigits, Option.map_some]

end

end RpkiAuthority.Text
