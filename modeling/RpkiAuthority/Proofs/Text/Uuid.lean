import RpkiAuthority.Proofs.Text.Numerals
import RpkiAuthority.Proofs.Text.Pieces
import RpkiAuthority.Uuid

/-!
# UUIDs that are written are read back

The written form has five numbers of fixed width with hyphens between them, and its digits in a row
are those of the whole number (`Uuid.readHyphenated_text`). None of the other forms that are read
can be mistaken for it: it has hyphens, and neither colons nor braces.
-/

namespace RpkiAuthority.Uuid

open Text

variable {c : Char}

/-- The numbers between the hyphens. -/
def parts (u : Uuid) : List (List Char) :=
  [(hexPadded 8 (u.bits >>> 96)).toList, (hexPadded 4 (u.bits >>> 80 % 0x10000)).toList,
    (hexPadded 4 (u.bits >>> 64 % 0x10000)).toList, (hexPadded 4 (u.bits >>> 48 % 0x10000)).toList,
    (hexPadded 12 (u.bits % (1 <<< 48))).toList]

theorem toList_text (u : Uuid) : u.text.toList = ['-'].intercalate u.parts := by
  rw [text, toList_join]
  rfl

theorem isAlphanum_of_mem_parts (u : Uuid) : ∀ t ∈ u.parts, ∀ c ∈ t, c.isAlphanum = true := by
  simp only [parts, List.forall_mem_cons]
  exact ⟨fun _ => isAlphanum_of_mem_hexPadded, fun _ => isAlphanum_of_mem_hexPadded,
    fun _ => isAlphanum_of_mem_hexPadded, fun _ => isAlphanum_of_mem_hexPadded,
    fun _ => isAlphanum_of_mem_hexPadded, fun _ h => absurd h List.not_mem_nil⟩

theorem mem_text {u : Uuid} (h : c ∈ u.text.toList) : c.isAlphanum = true ∨ c = '-' := by
  rw [toList_text] at h
  rcases mem_intercalate h with h | ⟨t, ht, h⟩
  · exact .inr (List.mem_singleton.mp h)
  · exact .inl (isAlphanum_of_mem_parts u t ht c h)

/-- **The form with hyphens is read back.** -/
theorem readHyphenated_text (u : Uuid) : readHyphenated u.text.toList = some u := by
  have hlt : u.bits < 2 ^ 128 := u.isLt
  have hfirst : u.bits >>> 96 < 16 ^ 8 := by
    rw [Nat.shiftRight_eq_div_pow]
    omega
  have hgroup : ∀ n, n % 0x10000 < 16 ^ 4 := fun n => Nat.mod_lt n (by decide)
  have hlast : u.bits % (1 <<< 48) < 16 ^ 12 := Nat.mod_lt _ (by decide)
  have hpow : 1 <<< 48 = 2 ^ 48 := rfl
  have hpieces : piecesAt '-' u.text.toList = u.parts := by
    rw [toList_text]
    refine piecesAt_intercalate (fun t ht hdash => ?_) (List.cons_ne_nil _ _)
    exact absurd (isAlphanum_of_mem_parts u t ht _ hdash) (by decide)
  have hlengths : u.parts.map List.length = [8, 4, 4, 4, 12] := by
    simp only [parts, List.map_cons, List.map_nil, length_hexPadded (by decide : 0 < 8) hfirst,
      length_hexPadded (by decide : 0 < 4) (hgroup _), length_hexPadded (by decide : 0 < 12) hlast]
  have hlength : u.parts.flatten.length = 32 := by
    rw [List.length_flatten, hlengths]
    rfl
  -- the numbers in their places are the whole number again
  have hvalue : u.parts.flatten.foldlM (fun n c => (hexValue? c).map (n * 16 + ·)) 0 =
      some u.bits := by
    simp only [parts, List.flatten_cons, List.flatten_nil, List.append_nil, List.foldlM_append,
      foldlM_hexPadded (by decide : 0 < 8) hfirst, foldlM_hexPadded (by decide : 0 < 4) (hgroup _),
      foldlM_hexPadded (by decide : 0 < 12) hlast, Option.bind_eq_bind, Option.bind_some]
    simp only [Nat.shiftRight_eq_div_pow, hpow, Option.some.injEq]
    omega
  have hbits : ofNat u.bits = u := by
    cases u
    exact (mk.injEq _ _ _ _).mpr (Nat.mod_eq_of_lt hlt)
  simp only [readHyphenated, hpieces, hlengths, if_true, readDigits, hvalue, hlength, hbits,
    Option.bind_eq_bind, Option.bind_some]

theorem dash_mem_text (u : Uuid) : '-' ∈ u.text.toList := by
  rw [toList_text, parts, List.intercalate_cons_cons, List.append_assoc]
  exact List.mem_append_right _ List.mem_cons_self

/-- Digits alone are no form with hyphens. -/
theorem readDigits_eq_none {l : List Char} (h : '-' ∈ l) : readDigits l = none := by
  obtain ⟨x, y, rfl⟩ := List.append_of_mem h
  have hdash : hexValue? '-' = none := rfl
  simp only [readDigits, List.foldlM_append, List.foldlM_cons, hdash]
  cases x.foldlM (fun n c => (hexValue? c).map (n * 16 + ·)) 0 <;> rfl

/-- **UUIDs are read back.** -/
theorem read_text (u : Uuid) : read u.text.toList = some u := by
  have hne : ∀ c, c.isAlphanum = false → c ≠ '-' → c ∉ u.text.toList := by
    intro c hc hdash hmem
    rcases mem_text hmem with h | h
    · exact absurd h (by simp [hc])
    · exact hdash h
  have hdigits : readDigits u.text.toList = none := readDigits_eq_none (dash_mem_text u)
  have hurn : dropBeginning? "urn:uuid:".toList u.text.toList = none := by
    rw [Option.eq_none_iff_forall_ne_some]
    intro rest hrest
    rw [dropBeginning?_eq_some_iff] at hrest
    exact hne ':' (by decide) (by decide) (hrest ▸ List.mem_append_left rest (by decide))
  rw [read, hdigits, hurn]
  · exact readHyphenated_text u
  · intro rest heq
    exact hne '\x7b' (by decide) (by decide) (heq ▸ List.mem_cons_self)

end RpkiAuthority.Uuid
