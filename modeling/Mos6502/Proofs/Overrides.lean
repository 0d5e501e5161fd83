import Mos6502.Proofs.Lines

/-!
What becomes of log settings when they are applied. The levels of a journal are afterwards those of the
settings, whatever they were before, and nothing else that it remembers of its messages is touched. A
journal cannot tell a category that is set to `off` from one that has no level of its own, so settings
can raise and lower a category against the general level, but they cannot silence it:
`LogSettings.limitOf` is the limit that holds for a category, and `LogSettings.limitOf_eq_iff` says when
it is the one that the settings name.

Both are about the levels that the settings ask for; `Journal.apply_decides` says it of a journal.
-/

set_option autoImplicit false

namespace Mos6502

namespace Level

/-- A log that is set to one of two levels lets the same messages through as one that is set to the
other only if the levels are the same. -/
theorem eq_of_rank_le_iff {l k : Level}
    (hsame : ∀ level : Level, level ≠ .off → (level.rank ≤ l.rank ↔ level.rank ≤ k.rank)) :
    l = k := by
  have hle {a b : Level} (hab : ∀ level : Level, level ≠ .off → level.rank ≤ a.rank →
      level.rank ≤ b.rank) : a.rank ≤ b.rank := by
    by_cases hoff : a = .off
    · rw [hoff]
      exact Nat.zero_le _
    · exact hab a hoff (Nat.le_refl _)
  exact rank_injective (Nat.le_antisymm (hle fun level hlevel ↦ (hsame level hlevel).mp)
    (hle fun level hlevel ↦ (hsame level hlevel).mpr))

end Level

/-- A message is let through if its level is at or below the one that holds for its category. -/
theorem Levels.allow_iff {levels : Levels} {category : Category} {level : Level}
    (hlevel : level ≠ .off) :
    levels.allow category level = true ↔ level.rank ≤ (levels.effective category).rank := by
  simp [allow, Level.allowedBy, hlevel]

namespace LogSettings

variable (settings : LogSettings) (category : Category)

/-- The level that settings give a category of its own, if they give one. -/
def override? : Option Level :=
  match category with
  | .cpu => settings.cpu
  | .interrupts => settings.interrupts
  | .decode => settings.decode

/-- The limit that settings set for a category: its own level, unless that is missing or `off`, and
then the general one. -/
def limitOf : Level :=
  match settings.override? category with
  | none | some .off => settings.level
  | some own => own

theorem effective_levels : settings.levels.effective category = settings.limitOf category := by
  have hown : settings.levels.own.get category = (settings.override? category).getD .off := by
    cases category <;> rfl
  rw [Levels.effective, limitOf, hown]
  cases settings.override? category with
  | none => rfl
  | some own => cases own <;> rfl

/-- The limit for a category is the level that the settings name for it, except where this is `off` and
the general level is not. -/
theorem limitOf_eq_iff :
    settings.limitOf category = (settings.override? category).getD settings.level ↔
      (settings.override? category = some .off → settings.level = .off) := by
  rw [limitOf]
  cases settings.override? category with
  | none => simp
  | some own => cases own <;> simp

end LogSettings

namespace Journal

/-- What settings decide once they are applied, to a journal with any history, and whether or not their
file can be opened. A message is let through if its level is at or below the level that the settings
give its category, or the general one if they give it none or `off`, so that the overrides hold as they
are written, except for an `off` under a general level that is not. The limit of the rate is that of the
settings if they have one, and the counts of the messages of each category are as before. Applying the
settings once more changes neither levels nor limit. -/
theorem apply_decides (settings : LogSettings) (j : Journal) :
    let after := (j.obey (.apply settings)).2
    let again := (after.obey (.apply settings)).2
    (∀ category level, level ≠ .off → (after.levels.allow category level = true ↔
      level.rank ≤ (settings.limitOf category).rank)) ∧
    (∀ category,
      (∀ level, level ≠ .off → (after.levels.allow category level = true ↔
        level.rank ≤ ((settings.override? category).getD settings.level).rank)) ↔
      (settings.override? category = some .off → settings.level = .off)) ∧
    after.limiter = { j.limiter with limit := settings.rateLimit.getD j.limiter.limit } ∧
    again.levels = after.levels ∧ again.limiter = after.limiter := by
  intro after again
  have hlevels : after.levels = settings.levels := levels_obey (.apply settings) j
  have hallow : ∀ category level, level ≠ .off → (after.levels.allow category level = true ↔
      level.rank ≤ (settings.limitOf category).rank) := by
    intro category level hlevel
    rw [hlevels, Levels.allow_iff hlevel, settings.effective_levels]
  have hlimiter : after.limiter =
      { j.limiter with limit := settings.rateLimit.getD j.limiter.limit } :=
    limiter_obey (.apply settings) j
  refine ⟨hallow, fun category ↦ ?_, hlimiter, ?_, ?_⟩
  · rw [← settings.limitOf_eq_iff category]
    constructor
    · intro hnamed
      exact Level.eq_of_rank_le_iff fun level hlevel ↦
        (hallow category level hlevel).symm.trans (hnamed level hlevel)
    · intro hsame level hlevel
      rw [hallow category level hlevel, hsame]
  · exact (levels_obey (.apply settings) after).trans hlevels.symm
  · have hagain : again.limiter =
        { after.limiter with limit := settings.rateLimit.getD after.limiter.limit } :=
      limiter_obey (.apply settings) after
    rw [hagain, hlimiter]
    cases settings.rateLimit with
    | none => rfl
    | some limit => rfl

/-- An override that is `off` does not silence its category: under the general level `warn` it lets
warnings through, which are above `off`. -/
theorem apply_off_does_not_silence :
    let settings : LogSettings := { level := .warn, cpu := some .off }
    let applied := ({} : Journal).obey (.apply settings)
    applied.1 = .ok () ∧ settings.override? .cpu = some .off ∧
      applied.2.levels.allow .cpu .warn = true ∧ ¬ Level.warn.rank ≤ Level.off.rank :=
  ⟨rfl, rfl, rfl, by decide⟩

end Journal

end Mos6502
