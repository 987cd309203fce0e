import Mathlib.Algebra.Group.Nat.Defs

/-! Numbers as little-endian byte strings of a fixed width, and sequences of
32-bit words as the concatenation of their bytes. -/
namespace LittleEndian

/-- The lowest `width` bytes of a number, the least significant one first. -/
def toBytes : Nat → Nat → List UInt8
  | 0, _ => []
  | width + 1, value => UInt8.ofNat value :: toBytes width (value / 256)

/-- The number that a byte string stands for. -/
def ofBytes : List UInt8 → Nat
  | [] => 0
  | byte :: rest => byte.toNat + 256 * ofBytes rest

@[simp] theorem length_toBytes (width value : Nat) : (toBytes width value).length = width := by
  induction width generalizing value with
  | zero => rfl
  | succ width ih => simp [toBytes, ih]

theorem ofBytes_toBytes (width value : Nat) :
    ofBytes (toBytes width value) = value % 256 ^ width := by
  induction width generalizing value with
  | zero => simp [toBytes, ofBytes, Nat.mod_one]
  | succ width ih =>
    rw [toBytes, ofBytes, ih, Nat.pow_succ, Nat.mul_comm _ 256, Nat.mod_mul]
    simp

theorem ofBytes_eq_zero {bytes : List UInt8} (h : ∀ byte ∈ bytes, byte = 0) :
    ofBytes bytes = 0 := by
  induction bytes with
  | nil => rfl
  | cons byte rest ih =>
    rw [ofBytes, h byte (List.mem_cons_self ..),
      ih fun other hMem => h other (List.mem_cons_of_mem byte hMem)]
    rfl

theorem ofBytes_lt (bytes : List UInt8) : ofBytes bytes < 256 ^ bytes.length := by
  induction bytes with
  | nil => simp [ofBytes]
  | cons byte rest ih =>
    have hByte := byte.toNat_lt
    rw [ofBytes, List.length_cons, Nat.pow_succ]
    omega

theorem toBytes_ofBytes {width : Nat} {bytes : List UInt8} (h : bytes.length = width) :
    toBytes width (ofBytes bytes) = bytes := by
  subst h
  induction bytes with
  | nil => rfl
  | cons byte rest ih =>
    have hByte := byte.toNat_lt
    have hRest : (byte.toNat + 256 * ofBytes rest) / 256 = ofBytes rest := by omega
    rw [List.length_cons, toBytes, ofBytes, hRest, ih]
    simp

@[simp] theorem length_flatMap_toBytes (width : Nat) (values : List Nat) :
    (values.flatMap (toBytes width)).length = width * values.length := by
  induction values with
  | nil => rfl
  | cons value rest ih =>
    rw [List.flatMap_cons, List.length_append, ih, length_toBytes, List.length_cons,
      Nat.mul_succ, Nat.add_comm]

theorem drop_flatMap_toBytes (width count : Nat) (values : List Nat) :
    (values.flatMap (toBytes width)).drop (width * count) =
      (values.drop count).flatMap (toBytes width) := by
  induction values generalizing count with
  | nil => simp
  | cons value rest ih =>
    cases count with
    | zero => rfl
    | succ count =>
      rw [Nat.mul_succ, Nat.add_comm, ← List.drop_drop, List.flatMap_cons,
        List.drop_left' (length_toBytes width value), ih, List.drop_succ_cons]

theorem take_flatMap_toBytes (width count : Nat) (values : List Nat) :
    (values.flatMap (toBytes width)).take (width * count) =
      (values.take count).flatMap (toBytes width) := by
  induction values generalizing count with
  | nil => simp
  | cons value rest ih =>
    cases count with
    | zero => rfl
    | succ count =>
      rw [Nat.mul_succ, Nat.add_comm, List.flatMap_cons, List.take_append,
        List.take_of_length_le (by simp), length_toBytes, Nat.add_sub_cancel_left, ih,
        List.take_succ_cons, List.flatMap_cons]

/-- The four bytes of a word. -/
def wordBytes (word : UInt32) : List UInt8 := toBytes 4 word.toNat

def ofWordBytes (bytes : List UInt8) : UInt32 := UInt32.ofNat (ofBytes bytes)

@[simp] theorem length_wordBytes (word : UInt32) : (wordBytes word).length = 4 :=
  length_toBytes 4 word.toNat

@[simp] theorem ofWordBytes_wordBytes (word : UInt32) : ofWordBytes (wordBytes word) = word := by
  have hLt : word.toNat < 256 ^ 4 := word.toNat_lt
  rw [ofWordBytes, wordBytes, ofBytes_toBytes, Nat.mod_eq_of_lt hLt, UInt32.ofNat_toNat]

/-- The words of a byte string; an incomplete last word is dropped. -/
def words : List UInt8 → List UInt32
  | b0 :: b1 :: b2 :: b3 :: rest => ofWordBytes [b0, b1, b2, b3] :: words rest
  | _ => []

@[simp] theorem words_wordBytes_append (word : UInt32) (rest : List UInt8) :
    words (wordBytes word ++ rest) = word :: words rest :=
  congrArg (· :: words rest) (ofWordBytes_wordBytes word)

@[simp] theorem length_flatMap_wordBytes (payload : List UInt32) :
    (payload.flatMap wordBytes).length = 4 * payload.length := by
  induction payload with
  | nil => rfl
  | cons word payload ih =>
    rw [List.flatMap_cons, List.length_append, ih, length_wordBytes, List.length_cons]
    omega

/-- Words are read back from their bytes. -/
@[simp] theorem words_flatMap_wordBytes (payload : List UInt32) :
    words (payload.flatMap wordBytes) = payload := by
  induction payload with
  | nil => rfl
  | cons word payload ih => rw [List.flatMap_cons, words_wordBytes_append, ih]

end LittleEndian
