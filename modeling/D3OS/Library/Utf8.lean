import Mathlib.Data.List.Basic

/-! UTF-8 text whose bytes are read back one character each. ASCII comes back
as it was. Every other character grows, so text with one can come back only
where it is cut off, and then it is the start of a word that is its own
encoding. -/
namespace Utf8

variable (text : List Char)

/-- The bytes of a text. -/
def encode : List UInt8 := text.flatMap String.utf8EncodeChar

/-- One character for each byte. -/
def latin1 (bytes : List UInt8) : List Char := bytes.map fun byte => Char.ofNat byte.toNat

def Ascii : Prop := ∀ c ∈ text, c.toNat < 128

variable {n : Nat} {c : Char}

theorem toNat_ofNat (h : n < 256) : (Char.ofNat n).toNat = n := by
  unfold Char.ofNat
  rw [dif_pos (Or.inl (by omega))]
  rfl

theorem encode_nil : encode [] = [] := rfl

theorem encode_cons (c : Char) (rest : List Char) :
    encode (c :: rest) = String.utf8EncodeChar c ++ encode rest := List.flatMap_cons

theorem encode_append (rest : List Char) :
    encode (text ++ rest) = encode text ++ encode rest := List.flatMap_append

theorem encodeChar_ascii (h : c.toNat < 128) : String.utf8EncodeChar c = [UInt8.ofNat c.toNat] := by
  unfold String.utf8EncodeChar
  exact if_pos (show c.toNat ≤ 0x7f by omega)

theorem encodeChar_two (hLow : 128 ≤ c.toNat) (hHigh : c.toNat < 256) :
    String.utf8EncodeChar c =
      [UInt8.ofNat (0xC0 + c.toNat / 64), UInt8.ofNat (0x80 + c.toNat % 64)] := by
  unfold String.utf8EncodeChar
  have hSmall : ¬ c.toNat ≤ 0x7f := by omega
  have hTwo : c.toNat ≤ 0x7ff := by omega
  refine (if_neg hSmall).trans ((if_pos hTwo).trans ?_)
  have hLead : c.val.toNat / 64 % 0x20 + 0xc0 = 0xC0 + c.toNat / 64 := by
    change c.toNat / 64 % 0x20 + 0xc0 = _
    omega
  have hNext : c.val.toNat % 0x40 + 0x80 = 0x80 + c.toNat % 64 := by
    change c.toNat % 0x40 + 0x80 = _
    omega
  rw [hLead, hNext]

/-- A character that is not ASCII takes at least two bytes. -/
theorem encodeChar_long (h : 128 ≤ c.toNat) : 2 ≤ (String.utf8EncodeChar c).length := by
  have hSmall : ¬ c.val.toNat ≤ 0x7f := by
    change ¬ c.toNat ≤ 0x7f
    omega
  unfold String.utf8EncodeChar
  simp only [hSmall, if_false]
  split
  · simp
  · split <;> simp

theorem ofNat_ne_zero (hLow : 0 < n) (hHigh : n < 256) : UInt8.ofNat n ≠ 0 := by
  intro h
  have hNat := congrArg UInt8.toNat h
  rw [UInt8.toNat_ofNat', Nat.mod_eq_of_lt hHigh] at hNat
  change n = 0 at hNat
  omega

/-- No byte is zero except the one of the character zero. -/
theorem encodeChar_ne_zero (h : c.toNat ≠ 0) : ∀ byte ∈ String.utf8EncodeChar c, byte ≠ 0 := by
  have hPos : 0 < c.val.toNat := Nat.pos_of_ne_zero h
  intro byte hMem
  unfold String.utf8EncodeChar at hMem
  dsimp only at hMem
  split at hMem
  · rw [List.mem_singleton] at hMem
    exact hMem ▸ ofNat_ne_zero hPos (by omega)
  · split at hMem
    · simp only [List.mem_cons, List.not_mem_nil, or_false] at hMem
      rcases hMem with rfl | rfl <;> exact ofNat_ne_zero (by omega) (by omega)
    · split at hMem
      · simp only [List.mem_cons, List.not_mem_nil, or_false] at hMem
        rcases hMem with rfl | rfl | rfl <;> exact ofNat_ne_zero (by omega) (by omega)
      · simp only [List.mem_cons, List.not_mem_nil, or_false] at hMem
        rcases hMem with rfl | rfl | rfl | rfl <;> exact ofNat_ne_zero (by omega) (by omega)
theorem length_le_encode : text.length ≤ (encode text).length := by
  induction text with
  | nil => exact Nat.le_refl 0
  | cons c rest ih =>
    have hChar := List.length_pos_iff.mpr (@String.utf8EncodeChar_ne_nil c)
    rw [encode_cons, List.length_append, List.length_cons]
    omega

/-- The word that starts with U+00C3 and has at each place the character of
the byte which its encoding has there. -/
def echoCode (i : Nat) : Nat :=
  if i = 0 then 0xC3
  else if i % 2 = 0 then 0xC0 + echoCode (i / 2) / 64
  else 0x80 + echoCode (i / 2) % 64

def echo (n : Nat) : List Char := (List.range n).map fun i => Char.ofNat (echoCode i)

theorem echoCode_bounds (i : Nat) : 128 ≤ echoCode i ∧ echoCode i < 256 := by
  induction i using Nat.strongRecOn with
  | ind i ih =>
    rw [echoCode]
    split
    · omega
    · have hHalf := ih (i / 2) (by omega)
      split <;> omega

/-- The byte at an index of the encoding, by the code of the character that
stands at half of it. -/
def byteAt (i code : Nat) : Nat := if i % 2 = 0 then 0xC0 + code / 64 else 0x80 + code % 64

theorem echoCode_eq (i : Nat) : echoCode i = byteAt i (echoCode (i / 2)) := by
  by_cases hZero : i = 0
  · subst hZero
    simp [echoCode, byteAt]
  · conv_lhs => rw [echoCode, if_neg hZero]
    rfl

theorem byteAt_lt {i code : Nat} (h : code < 256) : byteAt i code < 256 := by
  unfold byteAt
  split <;> omega

theorem encode_getElem? {text : List Char}
    (h : ∀ c ∈ text, 128 ≤ c.toNat ∧ c.toNat < 256) (i : Nat) :
    (encode text)[i]? = text[i / 2]?.map fun c => UInt8.ofNat (byteAt i c.toNat) := by
  induction text generalizing i with
  | nil => simp [encode_nil]
  | cons c rest ih =>
    obtain ⟨hLow, hHigh⟩ := h c List.mem_cons_self
    rw [encode_cons, encodeChar_two hLow hHigh]
    match i with
    | 0 => simp [byteAt]
    | 1 => simp [byteAt]
    | i + 2 =>
      have hRest := ih (fun other hOther => h other (List.mem_cons_of_mem _ hOther)) i
      have hHalf : (i + 2) / 2 = i / 2 + 1 := by omega
      have hEven : (i + 2) % 2 = i % 2 := by omega
      rw [hHalf, List.getElem?_cons_succ]
      simpa [byteAt, hEven] using hRest

theorem echo_bounds : ∀ c ∈ echo n, 128 ≤ c.toNat ∧ c.toNat < 256 := by
  intro c hMem
  obtain ⟨i, -, rfl⟩ := List.mem_map.mp hMem
  have hBounds := echoCode_bounds i
  rw [toNat_ofNat hBounds.2]
  exact hBounds

theorem latin1_getElem? (bytes : List UInt8) (i : Nat) :
    (latin1 bytes)[i]? = bytes[i]?.map fun byte => Char.ofNat byte.toNat := List.getElem?_map

theorem echo_getElem? {i : Nat} (h : i < n) : (echo n)[i]? = some (Char.ofNat (echoCode i)) := by
  rw [echo, List.getElem?_map, List.getElem?_range h]
  rfl

/-- A character whose own code is its first byte. -/
theorem toNat_eq_of_first_byte (hLow : 128 ≤ c.toNat)
    (h : (String.utf8EncodeChar c)[0]?.map (fun byte => Char.ofNat byte.toNat) = some c) :
    c.toNat = 0xC3 := by
  have hHigh : c.toNat < 256 := by
    obtain ⟨byte, -, rfl⟩ := Option.map_eq_some_iff.mp h
    rw [toNat_ofNat byte.toNat_lt]
    exact byte.toNat_lt
  rw [encodeChar_two hLow hHigh] at h
  have hCode := congrArg Char.toNat (Option.some.inj h)
  dsimp only at hCode
  rw [UInt8.toNat_ofNat', toNat_ofNat (by omega)] at hCode
  omega

theorem latin1_take_echo (n : Nat) : latin1 ((encode (echo n)).take n) = echo n := by
  refine List.ext_getElem? fun i => ?_
  rw [latin1_getElem?]
  by_cases hLt : i < n
  · have hByte := byteAt_lt (i := i) (echoCode_bounds (i / 2)).2
    rw [List.getElem?_take_of_lt hLt, encode_getElem? echo_bounds, echo_getElem? (by omega),
      echo_getElem? hLt]
    simp only [Option.map_some, Option.some.injEq]
    rw [toNat_ofNat (echoCode_bounds _).2, UInt8.toNat_ofNat', Nat.mod_eq_of_lt hByte,
      ← echoCode_eq]
  · rw [List.getElem?_take_eq_none (by omega), List.getElem?_eq_none (by simp [echo]; omega)]
    rfl

/-- Text that starts with a character beyond ASCII comes back only as the
start of the word. -/
theorem eq_echo_of_latin1_take {rest : List Char} (hLong : 128 ≤ c.toNat)
    (h : latin1 ((encode (c :: rest)).take n) = c :: rest) : c :: rest = echo n := by
  have hLength : (c :: rest).length = n := by
    have hMin := congrArg List.length h
    have hChar := encodeChar_long hLong
    have hRest := length_le_encode rest
    rw [latin1, List.length_map, List.length_take, encode_cons, List.length_append] at hMin
    rw [List.length_cons] at hMin ⊢
    omega
  have hByte : ∀ i < n, (c :: rest)[i]? =
      (encode (c :: rest))[i]?.map fun byte => Char.ofNat byte.toNat := by
    intro i hi
    conv_lhs => rw [← h]
    rw [latin1_getElem?, List.getElem?_take_of_lt hi]
  have hEcho : ∀ i, i < n → (c :: rest)[i]? = some (Char.ofNat (echoCode i)) := by
    intro i
    induction i using Nat.strongRecOn with
    | ind i ih =>
      intro hi
      by_cases hZero : i = 0
      · subst hZero
        have hFirst := hByte 0 hi
        rw [encode_cons, List.getElem?_append_left
          (List.length_pos_iff.mpr String.utf8EncodeChar_ne_nil)] at hFirst
        have hCode := toNat_eq_of_first_byte hLong hFirst.symm
        have hChar : c = Char.ofNat 0xC3 := by rw [← hCode, Char.ofNat_toNat]
        rw [hChar]
        simp [echoCode]
      · -- The characters before this one are in the word, and take two bytes each.
        have hPrefix : (c :: rest).take i = echo i := by
          refine List.ext_getElem? fun j => ?_
          by_cases hj : j < i
          · rw [List.getElem?_take_of_lt hj, ih j hj (by omega), echo_getElem? hj]
          · rw [List.getElem?_take_eq_none (by omega),
              List.getElem?_eq_none (by simp [echo]; omega)]
        have hHere : (encode (echo i))[i]? = some (UInt8.ofNat (echoCode i)) := by
          rw [encode_getElem? echo_bounds, echo_getElem? (by omega), Option.map_some,
            toNat_ofNat (echoCode_bounds _).2, ← echoCode_eq]
        have hInside : i < (encode (echo i)).length :=
          (List.getElem?_eq_some_iff.mp hHere).1
        rw [hByte i hi, ← List.take_append_drop i (c :: rest), hPrefix, encode_append,
          List.getElem?_append_left hInside, hHere, Option.map_some, UInt8.toNat_ofNat',
          Nat.mod_eq_of_lt (echoCode_bounds i).2]
  refine List.ext_getElem? fun i => ?_
  by_cases hi : i < n
  · rw [hEcho i hi, echo_getElem? hi]
  · rw [List.getElem?_eq_none (by omega), List.getElem?_eq_none (by simp [echo]; omega)]

/-- The texts that are ASCII, or ASCII and then the start of the word up to
the given length. -/
def Echoes (n : Nat) (text : List Char) : Prop :=
  ∃ ascii, Ascii ascii ∧ ascii.length ≤ n ∧
    (text = ascii ∨ text = ascii ++ echo (n - ascii.length))

theorem echoes_cons_iff {rest : List Char} (hAscii : c.toNat < 128) (n : Nat) :
    Echoes (n + 1) (c :: rest) ↔ Echoes n rest := by
  constructor
  · rintro ⟨ascii, hAll, hLength, hText⟩
    cases ascii with
    | nil =>
      rcases hText with hText | hText
      · cases hText
      · have hMem : c ∈ echo (n + 1) := by
          change c :: rest = echo (n + 1) at hText
          rw [← hText]
          exact List.mem_cons_self
        have hLong := (echo_bounds c hMem).1
        omega
    | cons first others =>
      rw [List.length_cons, Nat.add_le_add_iff_right] at hLength
      refine ⟨others, fun d hd => hAll d (List.mem_cons_of_mem _ hd), hLength, ?_⟩
      rw [List.length_cons, Nat.add_sub_add_right, List.cons_append] at hText
      exact hText.imp (fun h => (List.cons.inj h).2) fun h => (List.cons.inj h).2
  · rintro ⟨ascii, hAll, hLength, hText⟩
    refine ⟨c :: ascii, ?_, by simpa using hLength, ?_⟩
    · intro d hd
      rcases List.mem_cons.mp hd with rfl | hd
      · exact hAscii
      · exact hAll d hd
    · rw [List.length_cons, Nat.add_sub_add_right, List.cons_append]
      exact hText.imp (congrArg (c :: ·)) (congrArg (c :: ·))

/-- Which texts come back from their first `n` bytes. -/
theorem latin1_take_eq_self_iff (n : Nat) :
    latin1 ((encode text).take n) = text ↔ Echoes n text := by
  induction text generalizing n with
  | nil =>
    exact ⟨fun _ => ⟨[], by simp [Ascii], Nat.zero_le n, .inl rfl⟩,
      fun _ => by simp [encode, latin1]⟩
  | cons c rest ih =>
    by_cases hAscii : c.toNat < 128
    · cases n with
      | zero =>
        constructor
        · intro h
          simp [latin1] at h
        · rintro ⟨ascii, -, hLength, hText⟩
          obtain rfl := List.length_eq_zero_iff.mp (Nat.le_zero.mp hLength)
          rcases hText with hText | hText <;> cases hText
      | succ n =>
        have hChar : Char.ofNat (UInt8.ofNat c.toNat).toNat = c := by
          rw [UInt8.toNat_ofNat', Nat.mod_eq_of_lt (by omega), Char.ofNat_toNat]
        have hStep : latin1 ((encode (c :: rest)).take (n + 1)) =
            c :: latin1 ((encode rest).take n) := by
          rw [encode_cons, encodeChar_ascii hAscii, List.singleton_append, List.take_succ_cons,
            latin1, List.map_cons, hChar]
          rfl
        rw [hStep, echoes_cons_iff hAscii, ← ih n, List.cons.injEq]
        simp
    · have hLong : 128 ≤ c.toNat := Nat.le_of_not_lt hAscii
      constructor
      · intro h
        exact ⟨[], by simp [Ascii], Nat.zero_le n, .inr (eq_echo_of_latin1_take hLong h)⟩
      · rintro ⟨ascii, hAll, -, hText⟩
        cases ascii with
        | nil =>
          rcases hText with hText | hText
          · cases hText
          · rw [hText]
            exact latin1_take_echo n
        | cons first others =>
          have hFirst : c = first := by grind
          exact absurd (hAll first List.mem_cons_self) (hFirst ▸ hAscii)

end Utf8
