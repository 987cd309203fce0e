import Mathlib.Tactic.Common

/-! Total maps on the natural numbers that hold a default value almost
everywhere. The keys below a node are split by parity, so that reading and
writing a key take as many steps as the key has bits. -/

inductive SparseMap (V : Type*) where
  | empty
  | node (value : V) (left right : SparseMap V)
  deriving DecidableEq, Repr

namespace SparseMap

variable {V : Type*} [Inhabited V]

/-- The value at a key. Key 0 is stored here, odd keys on the left and the
other even keys on the right. -/
def get : SparseMap V → Nat → V
  | empty, _ => default
  | node value left right, key =>
    if key = 0 then value
    else if key % 2 = 1 then left.get (key / 2)
    else right.get (key / 2 - 1)

/-- The value stored at the root, and the maps below it. -/
def root : SparseMap V → V × SparseMap V × SparseMap V
  | empty => (default, empty, empty)
  | node value left right => (value, left, right)

/-- Replace the value at a key that is at most `fuel`. -/
def setWithin : Nat → SparseMap V → Nat → V → SparseMap V
  | 0, map, _, value => node value map.root.2.1 map.root.2.2
  | fuel + 1, map, key, value =>
    if key = 0 then node value map.root.2.1 map.root.2.2
    else if key % 2 = 1 then
      node map.root.1 (setWithin fuel map.root.2.1 (key / 2) value) map.root.2.2
    else
      node map.root.1 map.root.2.1 (setWithin fuel map.root.2.2 (key / 2 - 1) value)

/-- Replace the value at a key. -/
def set (map : SparseMap V) (key : Nat) (value : V) : SparseMap V := setWithin key map key value

@[simp] theorem get_empty (key : Nat) : (empty : SparseMap V).get key = default := rfl

theorem get_root (map : SparseMap V) (key : Nat) :
    map.get key =
      if key = 0 then map.root.1
      else if key % 2 = 1 then map.root.2.1.get (key / 2)
      else map.root.2.2.get (key / 2 - 1) := by
  cases map with
  | empty => simp [root]
  | node value left right => simp [root, get]

theorem get_setWithin {fuel key : Nat} (hKey : key ≤ fuel) (map : SparseMap V) (value : V)
    (other : Nat) :
    (setWithin fuel map key value).get other = if other = key then value else map.get other := by
  induction fuel generalizing map key other with
  | zero =>
    obtain rfl : key = 0 := by omega
    rw [get_root map]
    by_cases hOther : other = 0 <;> simp [setWithin, get, hOther]
  | succ fuel ih =>
    rw [get_root map]
    by_cases hZero : key = 0
    · by_cases hOther : other = 0 <;> simp [setWithin, get, hZero, hOther]
    -- Two keys on the same side agree exactly when their halves do.
    by_cases hOdd : key % 2 = 1
    · simp only [setWithin, hZero, hOdd, if_true, if_false, get]
      rw [ih (by omega)]
      grind
    · simp only [setWithin, hZero, hOdd, if_false, get]
      rw [ih (by omega)]
      grind

@[simp] theorem get_set (map : SparseMap V) (key : Nat) (value : V) (other : Nat) :
    (map.set key value).get other = if other = key then value else map.get other :=
  get_setWithin (Nat.le_refl key) map value other

end SparseMap
