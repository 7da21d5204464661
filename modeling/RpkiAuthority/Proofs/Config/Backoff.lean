import Mathlib.Algebra.Group.Nat.Defs
import RpkiAuthority.Proofs.Toml.Integers

/-!
# The pauses between attempts

The pause before a repetition is to be the first one, doubled for each repetition before and bounded
by the largest number of 64 bits. What is computed is a shift, in which only the number of places is
checked: from the 64th repetition on the pause is the longest one, and before it is the doubled
pause without the bits that leave the 64 (`CommandSettings.backoff_of_lt`). So pauses are as they
are to be as long as no bit leaves, and no longer (`CommandSettings.backoff_eq_min_iff`): with a
fixed part of 20 milliseconds and no random one the pause grows up to the repetition with number 59,
then shrinks and is gone at 62 (`CommandSettings.not_saturated`).

What comes before the shift is safe. The fixed part of the first pause and the bound of the random
one are integers of the document, and as numbers those have 63 bits (`Settings.short_read`), so the
sum has 64. With that the exact extent is shown for every document that is accepted
(`CommandSettings.backoff_saturates_iff`).
-/

namespace RpkiAuthority

/-! ### Settings that are read -/

/-- A setting is an integer of the document or its default. -/
theorem TomlMembers.Signed.setting_lt {ms : TomlMembers} {name : String} {standard max n : Nat}
    (h : ms.Signed) (hstandard : standard < 0x8000000000000000)
    (hn : ms.setting name standard (Toml.nat? max) = some n) : n < 0x8000000000000000 := by
  rw [TomlMembers.setting] at hn
  split at hn
  · next hfind => exact (h.find? hfind).nat?_lt hn
  · exact Option.some.inj hn ▸ hstandard

namespace CommandSettings

/-- The times in the settings of commands have 63 bits. -/
def Short (s : CommandSettings) : Prop :=
  s.retryBase < 0x8000000000000000 ∧ s.retryJitter < 0x8000000000000000 ∧
    s.lockTimeout < 0x8000000000000000

theorem short_standard : standard.Short := by simp [Short, standard]

theorem short_ofSection {v : Toml} {s : CommandSettings} (hv : v.Signed)
    (h : ofSection v = some s) : s.Short := by
  simp only [ofSection, bind, Option.bind_eq_some_iff, pure, Option.some.injEq] at h
  obtain ⟨ms, hms, _, _, base, hbase, jitter, hjitter, timeout, htimeout, rfl⟩ := h
  have hms : ms.Signed := hv.section? hms
  exact ⟨hms.setting_lt (by decide) hbase, hms.setting_lt (by decide) hjitter,
    hms.setting_lt (by decide) htimeout⟩

end CommandSettings

namespace Settings

variable {text : String} {s : Settings}

/-- A document is accepted if it can be read and passes the check as a whole. -/
theorem read_eq_ok_iff :
    Settings.read text = .ok s ↔
      (TomlText.read text).bind ofMembers = some s ∧ s.check = .ok () := by
  rw [Settings.read]
  cases (TomlText.read text).bind ofMembers with
  | none => simp
  | some s₀ =>
    cases hcheck : s₀.check with
    | error err =>
      simp only [hcheck, Except.map, reduceCtorEq, false_iff, Option.some.injEq, not_and]
      rintro rfl
      simp [hcheck]
    | ok =>
      simp only [hcheck, Except.map, Except.ok.injEq, Option.some.injEq]
      refine ⟨?_, And.left⟩
      rintro rfl
      exact ⟨rfl, hcheck⟩

/-- **Times in a document that is accepted have 63 bits**, though the settings are of 64. -/
theorem short_read (h : Settings.read text = .ok s) : s.commands.Short := by
  obtain ⟨ms, hms, hs⟩ := Option.bind_eq_some_iff.mp (read_eq_ok_iff.mp h).1
  have hms : ms.Signed := TomlText.read_signed hms
  simp only [ofMembers, bind, Option.bind_eq_some_iff, pure, Option.some.injEq] at hs
  obtain ⟨_, _, _, _, _, _, commands, hcommands, _, _, rfl⟩ := hs
  rw [TomlMembers.setting] at hcommands
  split at hcommands
  · next hfind => exact CommandSettings.short_ofSection (hms.find? hfind) hcommands
  · exact Option.some.inj hcommands ▸ CommandSettings.short_standard

end Settings

namespace CommandSettings

variable {s : CommandSettings} {retry draw : Nat}

/-! ### One pause -/

/-- Whether a number can be drawn as the random part of the first pause: any number below the
setting, and zero if the setting is zero. -/
def Drawable (s : CommandSettings) (draw : Nat) : Prop :=
  if s.retryJitter = 0 then draw = 0 else draw < s.retryJitter

instance : Decidable (s.Drawable draw) :=
  inferInstanceAs (Decidable (if s.retryJitter = 0 then draw = 0 else draw < s.retryJitter))

/-- The first pause, doubled for each repetition before. -/
def doubled (s : CommandSettings) (retry draw : Nat) : Nat := (s.retryBase + draw) * 2 ^ retry

/-- The two parts of the first pause have 63 bits each. -/
theorem Short.add_le (h : s.Short) (hdraw : s.Drawable draw) :
    s.retryBase + draw ≤ Text.max64 := by
  obtain ⟨hbase, hjitter, _⟩ := h
  rw [Drawable] at hdraw
  rw [Text.max64]
  split at hdraw <;> omega

theorem backoff_of_lt (h : retry < 64) : s.backoff retry draw = s.doubled retry draw % 2 ^ 64 := by
  rw [backoff, if_pos h, doubled, Nat.shiftLeft_eq, Nat.shiftLeft_eq, Nat.one_mul]

theorem backoff_of_le (h : 64 ≤ retry) : s.backoff retry draw = Text.max64 := by
  rw [backoff, if_neg (Nat.not_lt.mpr h)]

theorem backoff_le : s.backoff retry draw ≤ Text.max64 := by
  rcases Nat.lt_or_ge retry 64 with h | h
  · rw [backoff_of_lt h]
    exact Nat.le_of_lt_succ (Nat.mod_lt _ (by decide))
  · exact Nat.le_of_eq (backoff_of_le h)

/-- Without lost bits a pause is the first one, doubled. -/
theorem backoff_of_doubled_le (h : retry < 64) (hfits : s.doubled retry draw ≤ Text.max64) :
    s.backoff retry draw = s.doubled retry draw := by
  rw [backoff_of_lt h]
  exact Nat.mod_eq_of_lt (Nat.lt_succ_of_le hfits)

/-- From the first repetition on the doubled pause is even, with or without its lost bits. -/
theorem doubled_mod_two (h : 0 < retry) : s.doubled retry draw % 2 ^ 64 % 2 = 0 := by
  obtain ⟨n, rfl⟩ := Nat.exists_eq_succ_of_ne_zero (Nat.pos_iff_ne_zero.mp h)
  rw [Nat.mod_mod_of_dvd _ (by decide), doubled, Nat.pow_succ, ← Nat.mul_assoc]
  exact Nat.mul_mod_left _ 2

/-- The doubled pause takes more than 64 bits after 63 repetitions, unless there is none. -/
theorem max64_le_doubled_iff (h : 64 ≤ retry) :
    Text.max64 ≤ s.doubled retry draw ↔ 0 < s.retryBase + draw := by
  rw [doubled]
  rcases Nat.eq_zero_or_pos (s.retryBase + draw) with hzero | hpos
  · simp [hzero, Text.max64]
  · refine iff_of_true ?_ hpos
    calc Text.max64 ≤ 2 ^ 64 := by decide
      _ ≤ 2 ^ retry := Nat.pow_le_pow_right (by decide) h
      _ ≤ (s.retryBase + draw) * 2 ^ retry := Nat.le_mul_of_pos_left _ hpos

/-- **A pause is the bounded one exactly if no bit leaves it** or, after 63 repetitions, if there is
a bit at all. -/
theorem backoff_eq_min_iff (hadd : s.retryBase + draw ≤ Text.max64) :
    s.backoff retry draw = min Text.max64 (s.doubled retry draw) ↔
      if retry < 64 then s.doubled retry draw ≤ Text.max64 else 0 < s.retryBase + draw := by
  rcases Nat.lt_or_ge retry 64 with h | h
  · rw [if_pos h]
    refine ⟨fun heq => Nat.not_lt.mp fun hlost => ?_, fun hfits => ?_⟩
    -- what is left after bits were lost is even, and the longest pause is odd
    · rw [backoff_of_lt h, Nat.min_eq_left (Nat.le_of_lt hlost)] at heq
      rcases Nat.eq_zero_or_pos retry with rfl | hpos
      · rw [doubled, Nat.pow_zero, Nat.mul_one] at hlost
        exact Nat.not_lt.mpr hadd hlost
      · have heven : s.doubled retry draw % 2 ^ 64 % 2 = 0 := doubled_mod_two hpos
        rw [heq] at heven
        exact absurd heven (by decide)
    · rw [backoff_of_doubled_le h hfits, Nat.min_eq_right hfits]
  · rw [if_neg (Nat.not_lt.mpr h), backoff_of_le h, ← max64_le_doubled_iff h]
    omega

theorem doubled_mono {earlier : Nat} (h : earlier ≤ retry) :
    s.doubled earlier draw ≤ s.doubled retry draw :=
  Nat.mul_le_mul_left _ (Nat.pow_le_pow_right (by decide) h)

theorem backoff_mono {earlier : Nat} (h : earlier ≤ retry)
    (hfits : 64 ≤ retry ∨ s.doubled retry draw ≤ Text.max64) :
    s.backoff earlier draw ≤ s.backoff retry draw := by
  rcases Nat.lt_or_ge retry 64 with hretry | hretry
  · have hfits : s.doubled retry draw ≤ Text.max64 := by omega
    have hmono : s.doubled earlier draw ≤ s.doubled retry draw := doubled_mono h
    rw [backoff_of_doubled_le hretry hfits,
      backoff_of_doubled_le (Nat.lt_of_le_of_lt h hretry) (Nat.le_trans hmono hfits)]
    exact hmono
  · exact backoff_of_le hretry ▸ backoff_le

/-! ### All pauses of accepted settings -/

/-- **The pauses of accepted settings.** The parts of the first pause can be added. A pause is the
first one doubled for each repetition before and bounded by the largest number of 64 bits exactly if
no bit is lost: before the 64th repetition if it has 64 bits, and from then on if the first one is
not zero. In any case it is what is left of the bits, and from the 64th repetition on the longest
one. A pause that lost none is not shorter than those before it. -/
theorem backoff_saturates_iff {text : String} {settings : Settings} {draw : Nat}
    (hread : Settings.read text = .ok settings) (hdraw : settings.commands.Drawable draw)
    (retry : Nat) :
    settings.commands.retryBase + draw ≤ Text.max64 ∧
    (settings.commands.backoff retry draw = min Text.max64 (settings.commands.doubled retry draw) ↔
      if retry < 64 then settings.commands.doubled retry draw ≤ Text.max64
      else 0 < settings.commands.retryBase + draw) ∧
    settings.commands.backoff retry draw =
      (if retry < 64 then settings.commands.doubled retry draw % 2 ^ 64 else Text.max64) ∧
    (64 ≤ retry ∨ settings.commands.doubled retry draw ≤ Text.max64 →
      ∀ earlier ≤ retry,
        settings.commands.backoff earlier draw ≤ settings.commands.backoff retry draw) := by
  have hadd := (Settings.short_read hread).add_le hdraw
  refine ⟨hadd, backoff_eq_min_iff hadd, ?_, fun hfits _ hle => backoff_mono hle hfits⟩
  split
  · next h => exact backoff_of_lt h
  · next h => exact backoff_of_le (Nat.not_lt.mp h)

/-- A first pause of 64 milliseconds, of which 44 are drawn, can be doubled 57 times. -/
theorem backoff_saturates_iff_sixtyFour :
    ∃ settings,
      Settings.read "[commands]\nretry_jitter_ms = 0x2d\n" = .ok settings ∧
      settings.commands.Drawable 44 ∧
      settings.commands.backoff 57 44 = min Text.max64 (settings.commands.doubled 57 44) ∧
      (∀ earlier ≤ 57, settings.commands.backoff earlier 44 ≤ settings.commands.backoff 57 44) ∧
      settings.commands.backoff 58 44 = settings.commands.doubled 58 44 % 2 ^ 64 ∧
      settings.commands.backoff 58 44 ≠ min Text.max64 (settings.commands.doubled 58 44) := by
  let settings : Settings := { Settings.standard with commands := ⟨3, 20, 45, 5000⟩ }
  have hread : Settings.read "[commands]\nretry_jitter_ms = 0x2d\n" = .ok settings :=
    Settings.read_eq_ok_iff.mpr ⟨by decide +kernel, rfl⟩
  have hdraw : settings.commands.Drawable 44 := by decide
  have hfits : settings.commands.doubled 57 44 ≤ Text.max64 := by decide
  have hover : Text.max64 < settings.commands.doubled 58 44 := by decide
  obtain ⟨_, hkept, _, hmono⟩ := backoff_saturates_iff hread hdraw 57
  obtain ⟨_, hlost, hleft, _⟩ := backoff_saturates_iff hread hdraw 58
  exact ⟨settings, hread, hdraw, hkept.mpr hfits, hmono (.inr hfits), hleft,
    fun h => Nat.not_le.mpr hover (hlost.mp h)⟩

/-- **Pauses are not bounded but lose bits**: with a fixed part of 20 milliseconds, no random one
and 64 attempts there is no pause before the last repetition, though there were pauses before. -/
theorem not_saturated :
    ∃ settings,
      Settings.read "[commands]\nmax_attempts = 64\nretry_jitter_ms = 0\n" = .ok settings ∧
      62 < settings.commands.maxAttempts ∧ settings.commands.Drawable 0 ∧
      settings.commands.backoff 59 0 = 11529215046068469760 ∧
      settings.commands.backoff 62 0 = 0 ∧
      min Text.max64 (settings.commands.doubled 62 0) = Text.max64 := by
  refine ⟨{ Settings.standard with commands := ⟨64, 20, 0, 5000⟩ },
    Settings.read_eq_ok_iff.mpr ⟨by decide +kernel, rfl⟩, ?_⟩
  decide

end CommandSettings

end RpkiAuthority
