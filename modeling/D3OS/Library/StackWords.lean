import Mathlib.Logic.Function.Basic

/-! Words of eight bytes in memory. `WordsAt` states which words lie upwards
from an address, and `pushWords` stores words downwards from the top of a
stack. Memory is a function from the address of a word to its value. -/
namespace StackWords

variable {Word : Type*}

/-- The words from this address on. -/
def WordsAt (memory : Nat → Word) : Nat → List Word → Prop
  | _, [] => True
  | address, word :: rest => memory address = word ∧ WordsAt memory (address + 8) rest

/-- Push words one after the other, the first one right below `top`. -/
def pushWords (memory : Nat → Word) (top : Nat) : List Word → Nat → Word
  | [] => memory
  | word :: rest => pushWords (Function.update memory (top - 8) word) (top - 8) rest

theorem wordsAt_append {memory : Nat → Word} {address : Nat} (first second : List Word) :
    WordsAt memory address (first ++ second) ↔
      WordsAt memory address first ∧ WordsAt memory (address + 8 * first.length) second := by
  induction first generalizing address with
  | nil => simp [WordsAt]
  | cons word rest ih =>
    have hEnd : address + 8 + 8 * rest.length = address + 8 * (rest.length + 1) := by omega
    rw [List.cons_append, WordsAt, WordsAt, ih, List.length_cons, hEnd, and_assoc]

/-- Words stay where they are when memory changes elsewhere. -/
theorem WordsAt.congr {memory later : Nat → Word} {address : Nat} {words : List Word}
    (h : WordsAt memory address words)
    (hSame : ∀ a, address ≤ a → a < address + 8 * words.length → later a = memory a) :
    WordsAt later address words := by
  induction words generalizing address with
  | nil => trivial
  | cons word rest ih =>
    rw [List.length_cons] at hSame
    refine ⟨(hSame address (Nat.le_refl _) (by omega)).trans h.1, ih h.2 fun a hLow hHigh => ?_⟩
    exact hSame a (by omega) (by omega)

/-- Pushing changes nothing outside of the words that are pushed. -/
theorem pushWords_of_outside {memory : Nat → Word} {top address : Nat} {words : List Word}
    (hRoom : 8 * words.length ≤ top) (h : address < top - 8 * words.length ∨ top ≤ address) :
    pushWords memory top words address = memory address := by
  induction words generalizing memory top with
  | nil => rfl
  | cons word rest ih =>
    rw [List.length_cons] at hRoom h
    rw [pushWords, ih (by omega) (by omega), Function.update_of_ne (by omega)]

/-- The word pushed last lies lowest. -/
theorem wordsAt_pushWords {memory : Nat → Word} {top : Nat} {words : List Word}
    (hRoom : 8 * words.length ≤ top) :
    WordsAt (pushWords memory top words) (top - 8 * words.length) words.reverse := by
  induction words generalizing memory top with
  | nil => trivial
  | cons word rest ih =>
    rw [List.length_cons] at hRoom
    rw [List.reverse_cons, List.length_cons, wordsAt_append, List.length_reverse, pushWords]
    have hLow : top - 8 - 8 * rest.length = top - 8 * (rest.length + 1) := by omega
    have hTop : top - 8 * (rest.length + 1) + 8 * rest.length = top - 8 := by omega
    refine ⟨hLow ▸ ih (by omega), ?_, trivial⟩
    rw [hTop, pushWords_of_outside (by omega) (by omega), Function.update_self]

end StackWords
