import D3OS.Kernel.Arithmetic

/-! Filling a rectangle of the backbuffer. A pixel has four bytes; a row has
`stride` bytes, of which those behind the last pixel are padding. -/
namespace D3OS.VirtIO

open Outcome

structure Graphics where
  buf : List UInt8
  width : Nat
  height : Nat
  stride : Nat
  deriving DecidableEq, Repr

/-- `buf[base..stop].copy_from_slice(&color)` -/
def copyFromSlice (buf : List UInt8) (base stop : Nat) (color : Vector UInt8 4) :
    Except Panic (List UInt8) :=
  if base ≤ stop ∧ stop ≤ buf.length then .ok (buf.take base ++ color.toList ++ buf.drop stop)
  else .error .sliceIndex

namespace Graphics

def fillRect (profile : BuildProfile) (self : Graphics) (x y w h : Nat) (color : Vector UInt8 4) :
    Except Panic Graphics := do
  let bottom ← profile.word (y + h)
  let mut buf := self.buf
  for yy in List.range' y (min bottom self.height - y) do
    let row ← profile.word (yy * self.stride)
    let offset ← profile.word (x * 4)
    let rowStart ← profile.word (row + offset)
    let maxCols := min w (self.width - x)
    for col in List.range' 0 maxCols do
      let offset ← profile.word (col * 4)
      let base ← profile.word (rowStart + offset)
      let stop ← profile.word (base + 4)
      buf ← copyFromSlice buf base stop color
  return { self with buf := buf }

/-- The first byte of a pixel. -/
def offset (self : Graphics) (i j : Nat) : Nat := j * self.stride + 4 * i

def pixel (self : Graphics) (i j : Nat) : List UInt8 := (self.buf.drop (self.offset i j)).take 4

/-- The pixels of a rectangle that lie in the picture. -/
def Clipped (self : Graphics) (x y w h i j : Nat) : Prop :=
  (x ≤ i ∧ i < min (x + w) self.width) ∧ y ≤ j ∧ j < min (y + h) self.height

/-- A buffer that holds the picture. -/
structure Sized (g : Graphics) : Prop where
  stride_ge : 4 * g.width ≤ g.stride
  length_ge : g.stride * g.height ≤ g.buf.length
  size_lt : g.stride * g.height < 2 ^ 64

end Graphics

/-- The bytes of the pixels in a region, found by quotient and remainder of
their positions, have the color; the others are as before. -/
structure Shows (stride : Nat) (color : Vector UInt8 4) (before : List UInt8)
    (region : Nat → Nat → Prop) (after : List UInt8) : Prop where
  length_eq : after.length = before.length
  inside : ∀ k < before.length, region (k % stride / 4) (k / stride) →
    after[k]? = color.toList[k % stride % 4]?
  outside : ∀ k, ¬ region (k % stride / 4) (k / stride) → after[k]? = before[k]?

variable {stride i j k : Nat} {color : Vector UInt8 4} {before after : List UInt8}
  {region : Nat → Nat → Prop}

/-- The positions of one pixel. -/
theorem position_iff (hFits : 4 * i + 4 ≤ stride) :
    j * stride + 4 * i ≤ k ∧ k < j * stride + 4 * i + 4 ↔ k % stride / 4 = i ∧ k / stride = j := by
  have hSplit := Nat.div_add_mod k stride
  have hMod : k % stride < stride := Nat.mod_lt k (by omega)
  constructor
  · rintro ⟨hLow, hHigh⟩
    have hRow : k / stride = j := by
      rw [Nat.div_eq_iff (by omega)]
      constructor <;> grind
    subst hRow
    rw [Nat.mul_comm] at hSplit
    omega
  · rintro ⟨hColumn, rfl⟩
    rw [Nat.mul_comm] at hSplit
    omega

theorem copyFromSlice_eq {buf : List UInt8} {base : Nat} (hStop : base + 4 ≤ buf.length)
    (color : Vector UInt8 4) :
    ∃ buf', copyFromSlice buf base (base + 4) color = .ok buf' ∧ buf'.length = buf.length ∧
      ∀ k, buf'[k]? = if base ≤ k ∧ k < base + 4 then color.toList[k - base]? else buf[k]? := by
  have hColor : color.toList.length = 4 := color.length_toList
  refine ⟨_, if_pos ⟨by omega, hStop⟩, ?_, fun k => ?_⟩
  · simp
    omega
  · rw [List.append_assoc, List.getElem?_append, List.getElem?_append, hColor, List.length_take,
      List.getElem?_take, List.getElem?_drop]
    grind

/-- Painting one more pixel. -/
theorem Shows.paint (h : Shows stride color before region after) (hFits : 4 * i + 4 ≤ stride)
    (hStop : j * stride + 4 * i + 4 ≤ before.length) :
    ∃ buf, copyFromSlice after (j * stride + 4 * i) (j * stride + 4 * i + 4) color = .ok buf ∧
      Shows stride color before (fun i' j' => region i' j' ∨ i' = i ∧ j' = j) buf := by
  obtain ⟨buf, hCopy, hLength, hBuf⟩ := copyFromSlice_eq (h.length_eq ▸ hStop) color
  refine ⟨buf, hCopy, hLength.trans h.length_eq, fun k hk hRegion => ?_, fun k hRegion => ?_⟩
  · rw [hBuf]
    by_cases hHere : k % stride / 4 = i ∧ k / stride = j
    · have hRange := (position_iff hFits).mpr hHere
      have hSplit := Nat.div_add_mod k stride
      rw [if_pos hRange]
      rw [Nat.mul_comm, hHere.2] at hSplit
      congr 1
      omega
    · rw [if_neg (mt (position_iff hFits).mp hHere)]
      exact h.inside k hk (hRegion.resolve_right hHere)
  · rw [hBuf, if_neg (mt (position_iff hFits).mp fun hHere => hRegion (.inr hHere))]
    exact h.outside k fun hOther => hRegion (.inl hOther)

theorem Shows.congr {region' : Nat → Nat → Prop} (h : Shows stride color before region after)
    (hRegion : ∀ i j, region' i j ↔ region i j) : Shows stride color before region' after := by
  obtain rfl : region' = region := funext₂ fun i j => propext (hRegion i j)
  exact h

variable {g : Graphics} {x y w h : Nat}

namespace Graphics

theorem Sized.clipped_fits (hSized : g.Sized) {i j : Nat} (hClip : g.Clipped x y w h i j) :
    4 * i + 4 ≤ g.stride ∧ g.offset i j + 4 ≤ g.buf.length := by
  obtain ⟨⟨-, hi⟩, -, hj⟩ := hClip
  have hEnd : (j + 1) * g.stride ≤ g.height * g.stride :=
    Nat.mul_le_mul_right g.stride (by omega)
  have hStride := hSized.stride_ge
  have hLength := hSized.length_ge
  rw [Nat.mul_comm] at hLength
  rw [Nat.succ_mul] at hEnd
  unfold offset
  omega

/-- One row: the columns are painted from left to right. -/
theorem fillRow_yields (profile : BuildProfile) (hSized : g.Sized) {yy : Nat} {buf : List UInt8}
    (hy : y ≤ yy) (hRow : yy < g.height) (hx : g.height * g.stride + 4 * x < 2 ^ 64)
    (hBuf : Shows g.stride color g.buf (g.Clipped x y w (yy - y)) buf) :
    Yields True (forIn (List.range' 0 (min w (g.width - x))) buf fun col buf => do
      let offset ← profile.word (col * 4)
      let base ← profile.word (yy * g.stride + x * 4 + offset)
      let stop ← profile.word (base + 4)
      let buf ← copyFromSlice buf base stop color
      pure (ForInStep.yield buf)) (Shows g.stride color g.buf (g.Clipped x y w (yy + 1 - y))) := by
  have hEnd : yy * g.stride + g.stride ≤ g.height * g.stride := by
    rw [← Nat.succ_mul]
    exact Nat.mul_le_mul_right g.stride hRow
  have hStride := hSized.stride_ge
  have hSize := hSized.size_lt
  have hLength := hSized.length_ge
  rw [Nat.mul_comm] at hSize hLength
  refine Yields.forIn_range' (fun n => Shows g.stride color g.buf fun i j =>
    g.Clipped x y w (yy - y) i j ∨ (x ≤ i ∧ i < x + n) ∧ j = yy) _ ?_ ?_ ?_
  · exact hBuf.congr fun i j => by
      unfold Clipped
      omega
  · intro col buf _ hCol hShows
    obtain ⟨buf', hCopy, hShows⟩ := hShows.paint (i := x + col) (j := yy) (by omega) (by omega)
    have hBase : yy * g.stride + x * 4 + col * 4 = yy * g.stride + 4 * (x + col) := by omega
    rw [profile.word_of_lt (by omega), bind_of_ok, hBase, profile.word_of_lt (by omega),
      bind_of_ok, profile.word_of_lt (by omega), bind_of_ok, hCopy, bind_of_ok]
    refine Yields.pure (hShows.congr fun i j => ?_)
    grind
  · intro buf hShows
    exact hShows.congr fun i j => by
      unfold Clipped
      omega

theorem fillRect_yields (profile : BuildProfile) (color : Vector UInt8 4)
    (hSized : g.Sized) (hBottom : y + h < 2 ^ 64) (hx : g.height * g.stride + 4 * x < 2 ^ 64) :
    Yields True (g.fillRect profile x y w h color) fun g' => ∃ buf, g' = { g with buf := buf } ∧
      Shows g.stride color g.buf (g.Clipped x y w h) buf := by
  have hSize := hSized.size_lt
  rw [Nat.mul_comm] at hSize
  unfold fillRect
  rw [profile.word_of_lt hBottom, bind_of_ok]
  suffices hRows : Yields True _ (Shows g.stride color g.buf (g.Clipped x y w h)) from
    hRows.bind fun buf hShows => Yields.pure ⟨buf, rfl, hShows⟩
  refine Yields.forIn_range' (fun yy => Shows g.stride color g.buf
    (g.Clipped x y w (yy - y))) _ ?_ ?_ ?_
  · refine ⟨rfl, fun k _ hRegion => ?_, fun k _ => rfl⟩
    unfold Clipped at hRegion
    omega
  · intro yy buf hy hRow hShows
    have hOffset : yy * g.stride ≤ g.height * g.stride := Nat.mul_le_mul_right g.stride (by omega)
    rw [profile.word_of_lt (by omega), bind_of_ok, profile.word_of_lt (by omega), bind_of_ok,
      profile.word_of_lt (by omega), bind_of_ok]
    exact (fillRow_yields profile hSized hy (by omega) hx hShows).bind
      fun buf hShows => Yields.pure hShows
  · intro buf hShows
    exact hShows.congr fun i j => by
      unfold Clipped
      omega

/-- Filling a rectangle paints the pixels that it shares with the picture, and
no other byte of the buffer. -/
theorem fillRect_paints (profile : BuildProfile) (color : Vector UInt8 4)
    (hSized : g.Sized) (hBottom : y + h < 2 ^ 64) (hx : g.height * g.stride + 4 * x < 2 ^ 64) :
    ∃ buf, g.fillRect profile x y w h color = .ok { g with buf := buf } ∧
      (∀ i j, g.Clipped x y w h i j → { g with buf := buf }.pixel i j = color.toList) ∧
      ∀ k, (∀ i j, g.Clipped x y w h i j → ¬ (g.offset i j ≤ k ∧ k < g.offset i j + 4)) →
        buf[k]? = g.buf[k]? := by
  obtain ⟨g', hFill, buf, rfl, hShows⟩ :=
    (fillRect_yields (w := w) profile color hSized hBottom hx).exists_ok trivial
  refine ⟨buf, hFill, fun i j hClip => ?_, fun k hOutside => hShows.outside k fun hRegion =>
    hOutside _ _ hRegion ((position_iff (hSized.clipped_fits hRegion).1).mpr ⟨rfl, rfl⟩)⟩
  obtain ⟨hFits, hLength⟩ := hSized.clipped_fits hClip
  refine List.ext_getElem? fun c => ?_
  rw [pixel, List.getElem?_take, List.getElem?_drop]
  split
  case isTrue hc =>
    have hCell := (position_iff hFits).mp
      ⟨Nat.le_add_right _ c, Nat.add_lt_add_left hc (j * g.stride + 4 * i)⟩
    have hSplit := Nat.div_add_mod (j * g.stride + 4 * i + c) g.stride
    have hColor : (j * g.stride + 4 * i + c) % g.stride % 4 = c := by
      rw [Nat.mul_comm, hCell.2] at hSplit
      omega
    refine (hShows.inside (j * g.stride + 4 * i + c) ?_ ?_).trans (by rw [hColor])
    · exact Nat.lt_of_lt_of_le (Nat.add_lt_add_left hc _) hLength
    · rw [hCell.1, hCell.2]
      exact hClip
  case isFalse hc => rw [List.getElem?_eq_none (by simpa using Nat.not_lt.mp hc)]

/-- A rectangle over the lower right corner of a picture of two by two pixels
with one byte of padding in each row: one pixel is painted. -/
theorem fillRect_paints_corner :
    let g : Graphics := ⟨List.replicate 18 0, 2, 2, 9⟩
    g.Sized ∧ ∃ buf, g.fillRect .development 1 1 5 5 #v[1, 2, 3, 4] = .ok { g with buf := buf } ∧
      { g with buf := buf }.pixel 1 1 = [1, 2, 3, 4] := by
  have hSized : (⟨List.replicate 18 0, 2, 2, 9⟩ : Graphics).Sized :=
    ⟨by decide, by decide, by decide⟩
  obtain ⟨buf, hFill, hInside, -⟩ := fillRect_paints (x := 1) (y := 1) (w := 5) (h := 5)
    .development #v[1, 2, 3, 4] hSized (by decide) (by decide)
  exact ⟨hSized, buf, hFill, hInside 1 1 (by unfold Clipped; decide)⟩

end Graphics

end D3OS.VirtIO
