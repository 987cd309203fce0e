import D3OS.Device.TerminalPage

/-! The erase sequences CSI J and CSI K. Five of the six blank their region as
long as the index of the cell under the cursor fits into 16 bits; `clear_line`
fills the line with a letter. -/
namespace D3OS.Device.LfbTerminal

open Outcome

/-- The erase sequences: the screen or the cursor's line, from the cursor to the
end, from the start to the cursor, or all of it. -/
inductive Erase where
  | screenFromCursor
  | screenToCursor
  | screen
  | lineFromCursor
  | lineToCursor
  | line
  deriving DecidableEq, Repr

namespace Erase

/-- The final byte, `J` or `K`. -/
def action : Erase → Nat
  | screenFromCursor | screenToCursor | screen => 0x4a
  | lineFromCursor | lineToCursor | line => 0x4b

def code : Erase → Nat
  | screenFromCursor | lineFromCursor => 0
  | screenToCursor | lineToCursor => 1
  | screen | line => 2

/-- The places that a sequence is meant to blank. -/
def Region (pos : Nat × Nat) (column row : Nat) : Erase → Prop
  | screenFromCursor => pos.2 < row ∨ row = pos.2 ∧ pos.1 ≤ column
  | screenToCursor => row < pos.2 ∨ row = pos.2 ∧ column < pos.1
  | screen => True
  | lineFromCursor => row = pos.2 ∧ pos.1 ≤ column
  | lineToCursor => row = pos.2 ∧ column < pos.1
  | line => row = pos.2

/-- The same as indices into the character buffer. -/
def covers (columns : Nat) (pos : Nat × Nat) (index : Nat) : Erase → Prop
  | screenFromCursor => pos.2 * columns + pos.1 ≤ index
  | screenToCursor => index < pos.2 * columns + pos.1
  | screen => True
  | lineFromCursor => pos.2 * columns + pos.1 ≤ index ∧ index < pos.2 * columns + columns
  | lineToCursor => pos.2 * columns ≤ index ∧ index < pos.2 * columns + pos.1
  | line => pos.2 * columns ≤ index ∧ index < pos.2 * columns + columns

end Erase

/-- Places come in the order of their rows, and in a row of their columns. -/
theorem index_lt_iff {columns column column' : Nat} (row row' : Nat) (hColumn : column < columns)
    (hColumn' : column' ≤ columns) :
    row * columns + column < row' * columns + column' ↔
      row < row' ∨ row = row' ∧ column < column' := by
  obtain hLess | rfl | hMore := Nat.lt_trichotomy row row'
  · have hRows : (row + 1) * columns ≤ row' * columns := Nat.mul_le_mul_right _ hLess
    rw [Nat.add_mul] at hRows
    exact iff_of_true (by omega) (Or.inl hLess)
  · omega
  · have hRows : (row' + 1) * columns ≤ row * columns := Nat.mul_le_mul_right _ hMore
    rw [Nat.add_mul] at hRows
    exact iff_of_false (by omega) (by omega)

theorem index_lt_cells {columns rows column row : Nat} (hColumn : column < columns)
    (hRow : row < rows) : row * columns + column < columns * rows := by
  have hLt := (index_lt_iff row rows hColumn (Nat.zero_le _)).mpr (Or.inl hRow)
  rwa [Nat.add_zero, Nat.mul_comm rows] at hLt

theorem Erase.covers_iff (erase : Erase) {columns column row : Nat} {pos : Nat × Nat}
    (hColumn : column < columns) (hPos : pos.1 < columns) :
    erase.covers columns pos (row * columns + column) ↔ erase.Region pos column row := by
  have hBefore := index_lt_iff row pos.2 hColumn (Nat.le_of_lt hPos)
  have hStart := index_lt_iff row pos.2 hColumn (Nat.zero_le columns)
  have hEnd := index_lt_iff row pos.2 hColumn (Nat.le_refl columns)
  cases erase <;> simp only [covers, Region] <;> omega

namespace Terminal

/-- The content of a place on the screen. -/
def cellAt (t : Terminal) (column row : Nat) : Option Character :=
  t.display.charBuffer[row * t.display.size.1 + column]?

/-- The cells of the region are blank in the current colors, the other visible
ones are as before, and the cursor has only moved if the screen was erased. -/
structure Blanked (erase : Erase) (t t' : Terminal) : Prop where
  size : t'.display.size = t.display.size
  inside : ∀ column < t.display.size.1, ∀ row < t.display.size.2,
    erase.Region t.cursor.pos column row → t'.cellAt column row = some t.color.empty
  outside : ∀ column < t.display.size.1, ∀ row < t.display.size.2,
    ¬ erase.Region t.cursor.pos column row → t'.cellAt column row = t.cellAt column row
  cursor : t'.cursor.pos = if erase = .screen then (0, 1) else t.cursor.pos

/-- A terminal with this screen and cursor, and any content. -/
structure Shaped (size pos : Nat × Nat) (t : Terminal) : Prop where
  size_eq : t.display.size = size
  buffer : size.1 * size.2 ≤ t.display.charBuffer.length
  pos_eq : t.cursor.pos = pos

section

variable {t : Terminal} {size pos : Nat × Nat} {erase : Erase}

theorem cellAt_fill (t : Terminal) (index : Nat) (region : Nat → Bool) (value : Char)
    (column row : Nat) :
    ((t.access index).fill region value).cellAt column row = (t.cellAt column row).map fun item =>
      if region (row * t.display.size.1 + column) then ⟨value, t.color.fgColor, t.color.bgColor⟩
      else item :=
  getElem?_fill (t.access index) region value _

/-- A fill with the blank blanks the region if it covers the right indices. -/
theorem blanked_fill (h : Shaped size pos t) (hPos : pos.1 < size.1) {index : Nat}
    {region : Nat → Bool} (hErase : erase ≠ .screen)
    (hRegion : ∀ i < size.1 * size.2, region i = true ↔ erase.covers size.1 pos i) :
    Blanked erase t ((t.access index).fill region NUL) := by
  obtain ⟨rfl, hBuffer, rfl⟩ := h
  refine ⟨rfl, ?_, ?_, (if_neg hErase).symm⟩
  · intro column hColumn row hRow hInside
    have hIndex := index_lt_cells hColumn hRow
    have hCovered := (hRegion _ hIndex).mpr ((erase.covers_iff hColumn hPos).mpr hInside)
    rw [cellAt_fill, cellAt, List.getElem?_eq_getElem (Nat.lt_of_lt_of_le hIndex hBuffer),
      Option.map_some, if_pos hCovered]
    rfl
  · intro column hColumn row hRow hOutside
    have hIndex := index_lt_cells hColumn hRow
    have hLeft : ¬ region (row * t.display.size.1 + column) = true := by
      rw [hRegion _ hIndex, erase.covers_iff hColumn hPos]
      exact hOutside
    rw [cellAt_fill]
    simp only [if_neg hLeft, Option.map_id']

/-- A screen full of letters. -/
def lettered (size pos : Nat × Nat) : Terminal :=
  ⟨⟨size, List.replicate (size.1 * size.2) ⟨'x', .WHITE, .BLACK⟩⟩, ⟨pos, pos⟩, .new, []⟩

theorem shaped_lettered (size pos : Nat × Nat) : Shaped size pos (lettered size pos) :=
  ⟨rfl, Nat.le_of_eq List.length_replicate.symm, rfl⟩

theorem cellAt_lettered {column row : Nat} (h : row * size.1 + column < size.1 * size.2) :
    (lettered size pos).cellAt column row = some ⟨'x', .WHITE, .BLACK⟩ := by
  show (List.replicate (size.1 * size.2) _)[row * size.1 + column]? = _
  rw [List.getElem?_replicate, if_pos h]

/-- A fill that covers a wrong index of a screen of letters is seen. -/
theorem not_blanked_fill (hPos : pos.1 < size.1) {index i : Nat} {region : Nat → Bool}
    (hVisible : i < size.1 * size.2) (hWrong : ¬ (region i = true ↔ erase.covers size.1 pos i)) :
    ¬ Blanked erase (lettered size pos) (((lettered size pos).access index).fill region NUL) := by
  intro h
  have hColumns : 0 < size.1 := Nat.zero_lt_of_lt hPos
  have hColumn : i % size.1 < size.1 := Nat.mod_lt _ hColumns
  have hRow : i / size.1 < size.2 := Nat.div_lt_of_lt_mul hVisible
  have hIndex : i / size.1 * size.1 + i % size.1 = i := Nat.div_add_mod' i size.1
  have hBefore : (lettered size pos).cellAt (i % size.1) (i / size.1) =
      some ⟨'x', .WHITE, .BLACK⟩ := cellAt_lettered (by rwa [hIndex])
  have hAfter : (((lettered size pos).access index).fill region NUL).cellAt (i % size.1)
      (i / size.1) = some (if region i = true then ⟨NUL, .WHITE, .BLACK⟩ else ⟨'x', .WHITE, .BLACK⟩) := by
    rw [cellAt_fill, hBefore, show (lettered size pos).display.size.1 = size.1 from rfl, hIndex]
    rfl
  have hCovers := @Erase.covers_iff erase size.1 (i % size.1) (i / size.1) pos hColumn hPos
  rw [hIndex] at hCovers
  by_cases hInside : erase.covers size.1 pos i
  · have hBlank := h.inside _ hColumn _ hRow (hCovers.mp hInside)
    rw [hAfter, if_neg fun hRegion => hWrong (iff_of_true hRegion hInside)] at hBlank
    cases hBlank
  · have hSame := h.outside _ hColumn _ hRow (fun hRegion => hInside (hCovers.mpr hRegion))
    have hRegion : region i = true :=
      Decidable.not_not.mp fun hNot => hWrong (iff_of_false hNot hInside)
    rw [hAfter, hBefore, if_pos hRegion] at hSame
    cases hSame

/-! ### The index in 16 bits -/

variable (profile : BuildProfile)

/-- An index that does not fit panics or wraps around. -/
theorem cursorIndex_of_not_lt (h : ¬ t.cell < 2 ^ 16) :
    (∃ stop, t.cursorIndex profile = .error stop) ∨
      t.cursorIndex profile = .ok (t.cell % 2 ^ 16, t.access (t.cell % 2 ^ 16)) := by
  unfold cell at h ⊢
  unfold cursorIndex
  cases profile with
  | production =>
    refine Or.inr ?_
    rw [BuildProfile.unsigned_production, bind_of_ok, BuildProfile.unsigned_production,
      Nat.mod_add_mod]
    rfl
  | development =>
    refine Or.inl ?_
    by_cases hRow : t.cursor.pos.2 * t.display.size.1 < 2 ^ 16
    · rw [BuildProfile.unsigned_of_lt _ hRow, bind_of_ok,
        BuildProfile.unsigned_development_of_not_lt h]
      exact ⟨_, rfl⟩
    · rw [BuildProfile.unsigned_development_of_not_lt hRow]
      exact ⟨_, rfl⟩

theorem rowIndex_of_not_lt (h : ¬ t.cursor.pos.2 * t.display.size.1 < 2 ^ 16) :
    (∃ stop, t.rowIndex profile = .error stop) ∨ profile = .production ∧
      t.rowIndex profile = .ok (t.cursor.pos.2 * t.display.size.1 % 2 ^ 16,
        t.access (t.cursor.pos.2 * t.display.size.1 % 2 ^ 16)) := by
  unfold rowIndex
  cases profile with
  | production =>
    rw [BuildProfile.unsigned_production]
    exact Or.inr ⟨rfl, rfl⟩
  | development =>
    rw [BuildProfile.unsigned_development_of_not_lt h]
    exact Or.inl ⟨_, rfl⟩

theorem clearScreenToCursor_eq_cursorIndex (t : Terminal) :
    t.clearScreenToCursor profile =
      (t.cursorIndex profile).map fun (index, t) => t.fill (· < index) NUL := by
  unfold clearScreenToCursor
  cases t.cursorIndex profile <;> rfl

theorem clearLineToCursor_production (t : Terminal) :
    t.clearLineToCursor .production =
      .ok ((t.access (t.cursor.pos.2 * t.display.size.1 % 2 ^ 16)).fill
        (fun i => t.cursor.pos.2 * t.display.size.1 % 2 ^ 16 ≤ i ∧
          i < t.cursor.pos.2 * t.display.size.1 % 2 ^ 16 + t.cursor.pos.1) NUL) := by
  unfold clearLineToCursor rowIndex
  rw [BuildProfile.unsigned_production]
  rfl

theorem clearLine_ok {profile : BuildProfile} {t' : Terminal} (h : t.clearLine profile = .ok t') :
    ∃ index region, t' = (t.access index).fill region 'a' := by
  unfold clearLine rowIndex at h
  obtain ⟨⟨index, t₁⟩, hIndex, h⟩ := bind_ok h
  obtain ⟨row, -, hIndex⟩ := bind_ok hIndex
  obtain ⟨rfl, rfl⟩ := Prod.mk.inj (Except.ok.inj hIndex)
  exact ⟨_, _, (Except.ok.inj h).symm⟩

theorem clearLineFromCursor_eq_cursorIndex (hColumn : t.cursor.pos.1 ≤ t.display.size.1) :
    t.clearLineFromCursor profile = (t.cursorIndex profile).map fun (index, t') =>
      t'.fill (fun i => index ≤ i ∧ i < index + (t.display.size.1 - t.cursor.pos.1)) NUL := by
  unfold clearLineFromCursor
  rw [profile.unsignedSub_of_le 16 hColumn, bind_of_ok]
  cases t.cursorIndex profile <;> rfl

/-- A sequence whose region follows from the index of the cursor is wrong if the
index is. -/
theorem not_erases_of_wrapped {profile : BuildProfile} (hPos : pos.1 < size.1)
    (region : Nat → Nat → Bool) {call : Except Panic Terminal}
    (hCall : call = ((lettered size pos).cursorIndex profile).map
      fun (index, t) => t.fill (region index) NUL)
    (hWide : ¬ (lettered size pos).cell < 2 ^ 16) (i : Nat) (hVisible : i < size.1 * size.2)
    (hWrong : ¬ (region ((lettered size pos).cell % 2 ^ 16) i = true ↔ erase.covers size.1 pos i)) :
    ¬ ∃ t', call = .ok t' ∧ Blanked erase (lettered size pos) t' := by
  rintro ⟨t', hOk, hBlanked⟩
  obtain ⟨stop, hStop⟩ | hIndex := cursorIndex_of_not_lt profile hWide
  · rw [hCall, hStop] at hOk
    cases hOk
  · rw [hCall, hIndex] at hOk
    obtain rfl := Except.ok.inj hOk
    exact not_blanked_fill hPos hVisible hWrong hBlanked

end

/-! ### Which sequences are exact -/

/-- What `handle_ansi_erase_sequence` calls. -/
def perform (profile : BuildProfile) (t : Terminal) : Erase → Except Panic Terminal
  | .screenFromCursor => t.clearScreenFromCursor profile
  | .screenToCursor => t.clearScreenToCursor profile
  | .screen => .ok t.clear
  | .lineFromCursor => t.clearLineFromCursor profile
  | .lineToCursor => t.clearLineToCursor profile
  | .line => t.clearLine profile

theorem handleAnsiEraseSequence_eq (profile : BuildProfile) (t : Terminal) {erase : Erase}
    {params : List Nat} (hParams : params.headD 0 = erase.code) :
    t.handleAnsiEraseSequence profile erase.action params = t.perform profile erase := by
  unfold handleAnsiEraseSequence
  rw [hParams]
  cases erase <;> rfl

/-- When a sequence blanks its region whatever the screen shows. -/
def Exact (profile : BuildProfile) (size pos : Nat × Nat) : Erase → Prop
  | .screenFromCursor | .screenToCursor | .lineFromCursor => pos.2 * size.1 + pos.1 < 2 ^ 16
  | .lineToCursor => pos.2 * size.1 < 2 ^ 16 ∨ profile = .production ∧ pos.1 = 0
  | .screen => 2 ≤ size.2
  | .line => False

section

variable {profile : BuildProfile} {size pos : Nat × Nat} {erase : Erase}

theorem blanked_of_exact {t : Terminal} (h : Shaped size pos t) (hColumn : pos.1 < size.1)
    (hRow : pos.2 < size.2) (hRows : size.2 < 2 ^ 16) (hExact : Exact profile size pos erase) :
    ∃ t', t.perform profile erase = .ok t' ∧ Blanked erase t t' := by
  obtain ⟨rfl, hBuffer, rfl⟩ := h
  have hShaped : Shaped t.display.size t.cursor.pos t := ⟨rfl, hBuffer, rfl⟩
  cases erase with
  | screenFromCursor =>
    refine ⟨(t.access t.cell).fill (t.cell ≤ ·) NUL, ?_,
      blanked_fill hShaped hColumn (by decide) fun i _ => decide_eq_true_iff⟩
    show t.clearScreenFromCursor profile = _
    rw [clearScreenFromCursor_eq_cursorIndex profile (Nat.le_of_lt hColumn) hRow hRows,
      cursorIndex_of_lt profile hExact]
    rfl
  | screenToCursor =>
    exact ⟨_, clearScreenToCursor_of_lt profile hExact,
      blanked_fill hShaped hColumn (by decide) fun i _ => decide_eq_true_iff⟩
  | screen =>
    refine ⟨t.clear, rfl, ?_, ?_, fun _ _ _ _ hOutside => absurd trivial hOutside, ?_⟩
    · rw [clear_eq t hExact]
      rfl
    · intro column hColumn' row hRow' _
      have hIndex := Nat.lt_of_lt_of_le (index_lt_cells hColumn' hRow') hBuffer
      have hCleared := getElem?_clear hExact hIndex
      rw [cellAt, show t.clear.display.size = t.display.size by rw [clear_eq t hExact]; rfl]
      exact hCleared
    · rw [clear_eq t hExact]
      rfl
  | lineFromCursor =>
    refine ⟨_, clearLineFromCursor_of_lt profile hExact (Nat.le_of_lt hColumn),
      blanked_fill hShaped hColumn (by decide) fun i _ => ?_⟩
    rw [decide_eq_true_iff]
    simp only [Erase.covers, cell]
    omega
  | lineToCursor =>
    obtain hIndex | ⟨rfl, hFirst⟩ := hExact
    · exact ⟨_, clearLineToCursor_of_lt profile hIndex,
        blanked_fill hShaped hColumn (by decide) fun i _ => decide_eq_true_iff⟩
    · -- At the start of a line nothing is filled, wherever the line is looked for.
      refine ⟨_, clearLineToCursor_production t, blanked_fill hShaped hColumn (by decide) fun i _ => ?_⟩
      rw [decide_eq_true_iff]
      simp only [Erase.covers, hFirst]
      omega
  | line => exact hExact.elim

theorem exact_of_blanked (hColumn : pos.1 < size.1) (hRow : pos.2 < size.2)
    (hColumns : size.1 < 2 ^ 16) (hRows : size.2 < 2 ^ 16)
    (h : ∃ t', (lettered size pos).perform profile erase = .ok t' ∧
      Blanked erase (lettered size pos) t') : Exact profile size pos erase := by
  have hVisible : pos.2 * size.1 + pos.1 < size.1 * size.2 := index_lt_cells hColumn hRow
  have hWrapped : ¬ pos.2 * size.1 + pos.1 < 2 ^ 16 →
      (pos.2 * size.1 + pos.1) % 2 ^ 16 + 2 ^ 16 ≤ pos.2 * size.1 + pos.1 := by omega
  refine Classical.by_contradiction fun hNot => ?_
  cases erase with
  | screenFromCursor =>
    have hWide := hWrapped hNot
    refine not_erases_of_wrapped hColumn (fun index i => index ≤ i)
      (clearScreenFromCursor_eq_cursorIndex profile (Nat.le_of_lt hColumn) hRow hRows) hNot
      ((pos.2 * size.1 + pos.1) % 2 ^ 16) (by omega) ?_ h
    rw [decide_eq_true_iff]
    show ¬ ((pos.2 * size.1 + pos.1) % 2 ^ 16 ≤ _ ↔ pos.2 * size.1 + pos.1 ≤ _)
    omega
  | screenToCursor =>
    have hWide := hWrapped hNot
    refine not_erases_of_wrapped hColumn (fun index i => i < index)
      (clearScreenToCursor_eq_cursorIndex profile _) hNot
      ((pos.2 * size.1 + pos.1) % 2 ^ 16) (by omega) ?_ h
    rw [decide_eq_true_iff]
    show ¬ (_ < (pos.2 * size.1 + pos.1) % 2 ^ 16 ↔ _ < pos.2 * size.1 + pos.1)
    omega
  | lineFromCursor =>
    have hWide := hWrapped hNot
    refine not_erases_of_wrapped hColumn
      (fun index i => index ≤ i ∧ i < index + (size.1 - pos.1))
      (clearLineFromCursor_eq_cursorIndex profile (Nat.le_of_lt hColumn)) hNot
      (pos.2 * size.1 + pos.1) hVisible ?_ h
    rw [decide_eq_true_iff]
    show ¬ ((pos.2 * size.1 + pos.1) % 2 ^ 16 ≤ _ ∧ _ < (pos.2 * size.1 + pos.1) % 2 ^ 16 + _ ↔
      pos.2 * size.1 + pos.1 ≤ _ ∧ _ < pos.2 * size.1 + size.1)
    omega
  | screen =>
    -- On a screen of one row the cursor cannot be put into row 1.
    obtain ⟨t', hOk, hBlanked⟩ := h
    obtain rfl := Except.ok.inj hOk
    have hOne : size.2 = 1 := by
      have hRows : ¬ 2 ≤ size.2 := hNot
      omega
    let placed := (lettered size pos).clearScreen.setPos (0, 1)
    have hScrolled : (scrollInto 1 placed).cursor.pos = (0, min 1 (size.2 - 1)) :=
      pos_scrollInto (t := placed) (Nat.zero_lt_of_lt hRow) rfl
    rw [hOne] at hScrolled
    cases hScrolled.symm.trans hBlanked.cursor
  | lineToCursor =>
    obtain ⟨hWide, hFirst⟩ := not_or.mp hNot
    have hWrapped : pos.2 * size.1 % 2 ^ 16 + 2 ^ 16 ≤ pos.2 * size.1 := by omega
    obtain ⟨t', hOk, hBlanked⟩ := h
    obtain ⟨stop, hStop⟩ | ⟨rfl, -⟩ := rowIndex_of_not_lt (t := lettered size pos) profile hWide
    · have hPanic : (lettered size pos).clearLineToCursor profile = .error stop := by
        rw [clearLineToCursor, hStop]
        rfl
      cases hPanic.symm.trans hOk
    · obtain rfl := Except.ok.inj ((clearLineToCursor_production _).symm.trans hOk)
      have hInner : pos.1 ≠ 0 := fun hZero => hFirst ⟨rfl, hZero⟩
      refine not_blanked_fill hColumn (i := pos.2 * size.1) (by omega) ?_ hBlanked
      rw [decide_eq_true_iff]
      show ¬ (pos.2 * size.1 % 2 ^ 16 ≤ _ ∧ _ < pos.2 * size.1 % 2 ^ 16 + pos.1 ↔
        pos.2 * size.1 ≤ _ ∧ _ < pos.2 * size.1 + pos.1)
      omega
  | line =>
    obtain ⟨t', hOk, hBlanked⟩ := h
    obtain ⟨index, region, rfl⟩ := clearLine_ok hOk
    have hBlank := hBlanked.inside 0 (Nat.zero_lt_of_lt hColumn) pos.2 hRow rfl
    rw [cellAt_fill, cellAt_lettered (index_lt_cells (Nat.zero_lt_of_lt hColumn) hRow)] at hBlank
    have hValue := congrArg Character.value (Option.some.inj hBlank)
    dsimp only at hValue
    split at hValue <;> cases hValue

end

/-- For every build, screen and position of the cursor, a sequence blanks
exactly its region whatever the screen shows, if and only if it is not the one
that erases a line and its indices fit into 16 bits. -/
theorem erase_blanks_region_iff (profile : BuildProfile) {columns rows column row : Nat}
    (hColumns : columns < 2 ^ 16) (hRows : rows < 2 ^ 16) (hColumn : column < columns)
    (hRow : row < rows) (erase : Erase) {params : List Nat} (hParams : params.headD 0 = erase.code) :
    (∀ t, Shaped (columns, rows) (column, row) t → ∃ t',
      t.handleAnsiEraseSequence profile erase.action params = .ok t' ∧ Blanked erase t t') ↔
    Exact profile (columns, rows) (column, row) erase := by
  simp only [handleAnsiEraseSequence_eq profile _ hParams]
  constructor
  · intro h
    exact exact_of_blanked hColumn hRow hColumns hRows (h _ (shaped_lettered _ _))
  · intro hExact t hShaped
    exact blanked_of_exact hShaped hColumn hRow hRows hExact

theorem erase_blanks_region_small : Exact .development (20, 2) (3, 1) .lineFromCursor ∧
    ∀ t, Shaped (20, 2) (3, 1) t → ∃ t',
      t.handleAnsiEraseSequence .development 0x4b [] = .ok t' ∧ Blanked .lineFromCursor t t' :=
  have hExact : Exact .development (20, 2) (3, 1) .lineFromCursor := show 23 < 2 ^ 16 by decide
  ⟨hExact, (erase_blanks_region_iff .development (by decide) (by decide) (by decide) (by decide)
    .lineFromCursor rfl).mpr hExact⟩

/-- On a screen of 20 columns and 2 rows, CSI 2 K leaves letters in the line. -/
theorem erased_line_lettered : ∃ t', (new (20, 2)).handleAnsiEraseSequence .development 0x4b [2] =
    .ok t' ∧ t'.cellAt 0 1 = some ⟨'a', .WHITE, .BLACK⟩ ∧ ¬ Blanked .line (new (20, 2)) t' := by
  have hRun : (((new (20, 2)).handleAnsiEraseSequence .development 0x4b [2]).map
      fun t' => t'.cellAt 0 1).toOption = some (some ⟨'a', .WHITE, .BLACK⟩) := by decide +kernel
  obtain ⟨t', hOk, hCell⟩ := exists_ok_of_toOption hRun
  refine ⟨t', hOk, hCell, fun hBlanked => ?_⟩
  have hBlank := hBlanked.inside 0 (by decide) 1 (by decide) rfl
  cases hCell.symm.trans hBlank

end Terminal

end D3OS.Device.LfbTerminal
