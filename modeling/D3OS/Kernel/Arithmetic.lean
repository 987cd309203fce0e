import D3OS.Kernel.Panic
import D3OS.Library.Outcome

/-! Fixed-width arithmetic as the two build profiles of the kernel compile it. -/
namespace D3OS

open Outcome

/-- The profiles of the kernel's Makefile. A development build panics when
an integer operation overflows; a production build wraps around. -/
inductive BuildProfile where
  | development
  | production
  deriving DecidableEq, Repr

variable (profile : BuildProfile)

/-- The result of an operation on integers of `width` bits whose exact value
is `value`. -/
def BuildProfile.unsigned (width value : Nat) : Except Panic Nat :=
  if value < 2 ^ width then .ok value
  else
    match profile with
    | .development => .error .arithmeticOverflow
    | .production => .ok (value % 2 ^ width)

/-- The difference of two integers of `width` bits. -/
def BuildProfile.unsignedSub (width value other : Nat) : Except Panic Nat :=
  if other ≤ value then .ok (value - other)
  else
    match profile with
    | .development => .error .arithmeticOverflow
    | .production => .ok (value + 2 ^ width - other)

def BuildProfile.word (value : Nat) : Except Panic Nat :=
  profile.unsigned 64 value

def BuildProfile.word32 (value : Nat) : Except Panic Nat :=
  profile.unsigned 32 value

variable {value width other result : Nat}

theorem BuildProfile.word_of_lt (h : value < 2 ^ 64) :
    profile.word value = .ok value := if_pos h

theorem BuildProfile.word_development_of_not_lt (h : ¬ value < 2 ^ 64) :
    BuildProfile.development.word value = .error .arithmeticOverflow := if_neg h

theorem BuildProfile.unsigned_of_lt (h : value < 2 ^ width) :
    profile.unsigned width value = .ok value := if_pos h

theorem BuildProfile.unsigned_production (width value : Nat) :
    BuildProfile.production.unsigned width value = .ok (value % 2 ^ width) := by
  by_cases h : value < 2 ^ width
  · rw [unsigned_of_lt _ h, Nat.mod_eq_of_lt h]
  · exact if_neg h

theorem BuildProfile.word_production (value : Nat) :
    BuildProfile.production.word value = .ok (value % 2 ^ 64) :=
  unsigned_production 64 value

theorem BuildProfile.unsignedSub_of_le (width : Nat) (h : other ≤ value) :
    profile.unsignedSub width value other = .ok (value - other) := if_pos h

theorem BuildProfile.unsigned_development_of_not_lt (h : ¬ value < 2 ^ width) :
    BuildProfile.development.unsigned width value = .error .arithmeticOverflow := if_neg h

theorem BuildProfile.unsignedSub_development_of_lt (h : value < other) :
    BuildProfile.development.unsignedSub width value other = .error .arithmeticOverflow :=
  if_neg (Nat.not_le.mpr h)

theorem BuildProfile.unsigned_development_ok
    (h : BuildProfile.development.unsigned width value = .ok result) :
    value < 2 ^ width ∧ result = value := by
  by_cases hLt : value < 2 ^ width
  · rw [unsigned_of_lt _ hLt] at h
    exact ⟨hLt, (Except.ok.inj h).symm⟩
  · rw [unsigned_development_of_not_lt hLt] at h
    cases h

theorem BuildProfile.unsignedSub_development_ok
    (h : BuildProfile.development.unsignedSub width value other = .ok result) :
    other ≤ value ∧ result = value - other := by
  by_cases hLe : other ≤ value
  · rw [unsignedSub_of_le _ _ hLe] at h
    exact ⟨hLe, (Except.ok.inj h).symm⟩
  · rw [unsignedSub_development_of_lt (Nat.lt_of_not_le hLe)] at h
    cases h

theorem BuildProfile.word32_of_lt (h : value < 2 ^ 32) :
    profile.word32 value = .ok value := if_pos h

/-- A result in either profile is the exact value, up to a multiple of 2^32. -/
theorem BuildProfile.word32_ok {profile : BuildProfile} (h : profile.word32 value = .ok result) :
    result = value % 2 ^ 32 := by
  unfold word32 unsigned at h
  by_cases hLt : value < 2 ^ 32
  · rw [if_pos hLt] at h
    rw [Nat.mod_eq_of_lt hLt]
    exact (Except.ok.inj h).symm
  · rw [if_neg hLt] at h
    cases profile with
    | development => cases h
    | production => exact (Except.ok.inj h).symm

theorem BuildProfile.returns_unsigned_iff (width value : Nat) :
    Returns (profile.unsigned width value) ↔ (profile = .development → value < 2 ^ width) := by
  cases profile with
  | development =>
    by_cases hLt : value < 2 ^ width
    · rw [unsigned_of_lt _ hLt]
      exact iff_of_true (returns_ok _) fun _ => hLt
    · rw [unsigned_development_of_not_lt hLt]
      exact iff_of_false (not_returns_error _) fun h => hLt (h rfl)
  | production =>
    rw [unsigned_production]
    exact iff_of_true (returns_ok _) nofun

end D3OS
