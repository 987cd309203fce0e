import D3OS.Device.LfbTerminal

/-! The single operations of the terminal. While the cursor is on the screen, none
of them overflows or computes the index of a cell that is not visible, so that
each is given here by the state it leaves, in all builds. -/
namespace D3OS.Device.LfbTerminal

open Outcome

/-- The sizes of screens: the date fits into the status bar, there is a row
below it, and the cells can be numbered with 16 bits. -/
structure Fits (size : Nat × Nat) : Prop where
  columns : 20 ≤ size.1
  rows : 2 ≤ size.2
  cells : size.1 * size.2 < 2 ^ 16

/-- A position below the status bar. -/
def OnScreen (size pos : Nat × Nat) : Prop := pos.1 < size.1 ∧ 1 ≤ pos.2 ∧ pos.2 < size.2

variable {size : Nat × Nat}

theorem OnScreen.index_lt {pos : Nat × Nat} (h : OnScreen size pos) :
    pos.2 * size.1 + pos.1 < size.1 * size.2 := by
  obtain ⟨hColumn, -, hRow⟩ := h
  have hNext : (pos.2 + 1) * size.1 ≤ size.2 * size.1 := Nat.mul_le_mul_right size.1 hRow
  rw [Nat.succ_mul] at hNext
  rw [Nat.mul_comm size.1]
  omega

theorem Fits.columns_lt (h : Fits size) : size.1 < 2 ^ 15 := by
  have hTwo : size.1 * 2 ≤ size.1 * size.2 := Nat.mul_le_mul_left size.1 h.rows
  have hCells := h.cells
  omega

theorem Fits.rows_lt (h : Fits size) : size.2 < 2 ^ 12 := by
  have hTwenty : 20 * size.2 ≤ size.1 * size.2 := Nat.mul_le_mul_right size.2 h.columns
  have hCells := h.cells
  omega

namespace Terminal

def cells (t : Terminal) : Nat := t.display.size.1 * t.display.size.2

/-- What no operation changes, except that further indices of visible cells may
have been computed. -/
structure Keeps (t t' : Terminal) : Prop where
  size : t'.display.size = t.display.size
  length : t'.display.charBuffer.length = t.display.charBuffer.length
  saved : t'.cursor.savedPos = t.cursor.savedPos
  accessed : ∀ index ∈ t'.accessed, index ∈ t.accessed ∨ index < t.cells

variable {index : Nat} {t t' : Terminal}

namespace Keeps

variable {t t' t'' : Terminal}

theorem refl (t : Terminal) : Keeps t t := ⟨rfl, rfl, rfl, fun _ hMem => .inl hMem⟩

theorem trans (h : Keeps t t') (h' : Keeps t' t'') : Keeps t t'' := by
  refine ⟨h'.size.trans h.size, h'.length.trans h.length, h'.saved.trans h.saved, ?_⟩
  intro index hMem
  rcases h'.accessed index hMem with hMem | hLt
  · exact h.accessed index hMem
  · rw [cells, h.size] at hLt
    exact .inr hLt

theorem setPos (t : Terminal) (pos : Nat × Nat) : Keeps t (t.setPos pos) :=
  ⟨rfl, rfl, rfl, fun _ hMem => .inl hMem⟩

theorem access (h : index < t.cells) : Keeps t (t.access index) := by
  refine ⟨rfl, rfl, rfl, fun other hMem => ?_⟩
  rcases List.mem_cons.mp hMem with rfl | hMem
  · exact .inr h
  · exact .inl hMem

theorem fill (t : Terminal) (region : Nat → Bool) (value : Char) :
    Keeps t (t.fill region value) :=
  ⟨rfl, List.length_mapIdx, rfl, fun _ hMem => .inl hMem⟩

section

variable (hCells : t.cells ≤ t.display.charBuffer.length) (hRows : 0 < t.display.size.2)

include hCells hRows

theorem scrollUp : Keeps t t.scrollUp := by
  refine ⟨rfl, ?_, rfl, fun _ hMem => .inl hMem⟩
  obtain ⟨rows, hRows⟩ : ∃ rows, t.display.size.2 = rows + 1 := ⟨t.display.size.2 - 1, by omega⟩
  have hAll : t.cells = t.display.size.1 * rows + t.display.size.1 := by
    rw [cells, hRows, Nat.mul_succ]
  simp only [Terminal.scrollUp, Terminal.fill, List.length_mapIdx, List.length_append,
    List.length_take, List.length_drop, hRows, Nat.add_sub_cancel]
  rw [hAll] at hCells
  omega

theorem scrollInto (row : Nat) : Keeps t (scrollInto row t) := by
  induction row generalizing t with
  | zero => exact refl t
  | succ row ih =>
    unfold Terminal.scrollInto
    split
    · have hStep : Keeps t ((t.setPos (t.cursor.pos.1, row)).scrollUp) :=
        (setPos t _).trans (scrollUp hCells hRows)
      refine hStep.trans (ih ?_ ?_)
      · rw [cells, hStep.size, hStep.length]
        exact hCells
      · rw [hStep.size]
        exact hRows
    · exact refl t

theorem position (pos : Nat × Nat) : Keeps t (t.position pos) :=
  (setPos t (if pos.2 = 0 then (pos.1, 1) else pos)).trans
    (@scrollInto (t.setPos (if pos.2 = 0 then (pos.1, 1) else pos)) hCells hRows _)

end

end Keeps

/-- `position` stops at the last row. -/
theorem pos_scrollInto {column row : Nat} (hRows : 0 < t.display.size.2)
    (hPos : t.cursor.pos = (column, row)) :
    (scrollInto row t).cursor.pos = (column, min row (t.display.size.2 - 1)) := by
  induction row generalizing t with
  | zero => simp [scrollInto, hPos]
  | succ row ih =>
    unfold scrollInto
    split
    case isTrue hBelow =>
      have hMoved : ((t.setPos (t.cursor.pos.1, row)).scrollUp).cursor.pos = (column, row) := by
        rw [hPos]
        rfl
      have hSize : (t.setPos (t.cursor.pos.1, row)).scrollUp.display.size = t.display.size := rfl
      rw [ih (by rw [hSize]; exact hRows) hMoved, hSize]
      congr 1
      omega
    case isFalse hAbove =>
      rw [hPos]
      congr 1
      omega

theorem pos_position (hRows : 2 ≤ t.display.size.2) (pos : Nat × Nat) :
    (t.position pos).cursor.pos = (pos.1, min (max pos.2 1) (t.display.size.2 - 1)) := by
  obtain ⟨column, row⟩ := pos
  unfold position
  by_cases hZero : row = 0
  · simp only [hZero, if_true]
    rw [@pos_scrollInto _ column _ (by simp only [setPos]; omega) rfl]
    simp [setPos]
  · simp only [hZero, if_false]
    rw [@pos_scrollInto _ column _ (by simp only [setPos]; omega) rfl,
      Nat.max_eq_left (by omega)]
    rfl

theorem onScreen_position (h : Fits t.display.size) {pos : Nat × Nat}
    (hColumn : pos.1 < t.display.size.1) :
    OnScreen t.display.size (t.position pos).cursor.pos := by
  have hRows := h.rows
  rw [pos_position hRows]
  refine ⟨hColumn, ?_, ?_⟩
  · simp only
    omega
  · simp only
    omega

/-- The cursor is on the screen, and so are all cells that were accessed. -/
structure Visible (t : Terminal) : Prop where
  cursor : OnScreen t.display.size t.cursor.pos
  indices : ∀ index ∈ t.accessed, index < t.cells

/-- The operations can be carried out. -/
structure Ready (t : Terminal) : Prop where
  cursor : OnScreen t.display.size t.cursor.pos
  fits : Fits t.display.size
  buffer : t.cells ≤ t.display.charBuffer.length

/-- The state of the terminal between two events. -/
structure Valid (t : Terminal) : Prop extends Visible t, Ready t where
  saved : OnScreen t.display.size t.cursor.savedPos

theorem Ready.of_keeps (h : t.Ready) (hKeeps : Keeps t t')
    (hPos : OnScreen t.display.size t'.cursor.pos) : t'.Ready := by
  refine ⟨by rwa [hKeeps.size], by rw [hKeeps.size]; exact h.fits, ?_⟩
  rw [cells, hKeeps.size, hKeeps.length]
  exact h.buffer

theorem Valid.of_keeps (h : t.Valid) (hKeeps : Keeps t t')
    (hPos : OnScreen t.display.size t'.cursor.pos) : t'.Valid := by
  have hReady := h.toReady.of_keeps hKeeps hPos
  refine ⟨⟨hReady.cursor, fun index hMem => ?_⟩, hReady.fits, hReady.buffer, ?_⟩
  · rw [cells, hKeeps.size]
    exact (hKeeps.accessed index hMem).elim (h.indices index) id
  · rw [hKeeps.size, hKeeps.saved]
    exact h.saved

/-! ### Single operations -/

def cell (t : Terminal) : Nat := t.cursor.pos.2 * t.display.size.1 + t.cursor.pos.1

section Operations

variable {t : Terminal} (profile : BuildProfile)

theorem cell_lt (hPos : OnScreen t.display.size t.cursor.pos) : t.cell < t.cells := hPos.index_lt

theorem row_le_cell (t : Terminal) : t.cursor.pos.2 * t.display.size.1 ≤ t.cell :=
  Nat.le_add_right ..

theorem cursorIndex_of_lt (hCell : t.cell < 2 ^ 16) :
    t.cursorIndex profile = .ok (t.cell, t.access t.cell) := by
  have hRow := Nat.lt_of_le_of_lt t.row_le_cell hCell
  unfold cursorIndex
  rw [profile.unsigned_of_lt hRow, bind_of_ok]
  change (profile.unsigned 16 t.cell >>= _) = _
  rw [profile.unsigned_of_lt hCell]
  rfl

theorem rowIndex_of_lt (hRow : t.cursor.pos.2 * t.display.size.1 < 2 ^ 16) :
    t.rowIndex profile = .ok (t.cursor.pos.2 * t.display.size.1,
      t.access (t.cursor.pos.2 * t.display.size.1)) := by
  unfold rowIndex
  rw [profile.unsigned_of_lt hRow]
  rfl

theorem Ready.cell_lt (h : t.Ready) : t.cell < 2 ^ 16 :=
  Nat.lt_trans (Terminal.cell_lt h.cursor) h.fits.cells

theorem cursorIndex_eq (h : t.Ready) :
    t.cursorIndex profile = .ok (t.cell, t.access t.cell) :=
  cursorIndex_of_lt profile h.cell_lt

theorem rowIndex_eq (h : t.Ready) :
    t.rowIndex profile = .ok (t.cursor.pos.2 * t.display.size.1,
      t.access (t.cursor.pos.2 * t.display.size.1)) :=
  rowIndex_of_lt profile (Nat.lt_of_le_of_lt t.row_le_cell h.cell_lt)

theorem clearScreenToCursor_of_lt (hCell : t.cell < 2 ^ 16) :
    t.clearScreenToCursor profile = .ok ((t.access t.cell).fill (· < t.cell) NUL) := by
  rw [clearScreenToCursor, cursorIndex_of_lt profile hCell]
  rfl

/-- The other numbers that `clear_screen_from_cursor` computes fit if the cursor
is on the screen. -/
theorem clearScreenFromCursor_eq_cursorIndex (hColumn : t.cursor.pos.1 ≤ t.display.size.1)
    (hRow : t.cursor.pos.2 < t.display.size.2) (hRows : t.display.size.2 < 2 ^ 16) :
    t.clearScreenFromCursor profile =
      (t.cursorIndex profile).map fun (index, t) => t.fill (index ≤ ·) NUL := by
  rw [clearScreenFromCursor, profile.unsignedSub_of_le 16 hColumn, bind_of_ok,
    profile.unsigned_of_lt (show t.cursor.pos.2 + 1 < 2 ^ 16 by omega), bind_of_ok,
    profile.unsignedSub_of_le 16 (Nat.le_of_lt hRow), bind_of_ok,
    profile.unsignedSub_of_le 16 (by omega), bind_of_ok]
  cases t.cursorIndex profile <;> rfl

theorem clearScreenToCursor_eq (h : t.Ready) :
    t.clearScreenToCursor profile = .ok ((t.access t.cell).fill (· < t.cell) NUL) :=
  clearScreenToCursor_of_lt profile h.cell_lt

theorem clearScreenFromCursor_eq (h : t.Ready) :
    t.clearScreenFromCursor profile = .ok ((t.access t.cell).fill (t.cell ≤ ·) NUL) := by
  have hRows := h.fits.rows_lt
  rw [clearScreenFromCursor_eq_cursorIndex profile (Nat.le_of_lt h.cursor.1) h.cursor.2.2
    (by omega), cursorIndex_eq profile h]
  rfl

theorem clearLine_eq (h : t.Ready) :
    t.clearLine profile = .ok ((t.access (t.cursor.pos.2 * t.display.size.1)).fill
      (fun i => t.cursor.pos.2 * t.display.size.1 ≤ i ∧
        i < t.cursor.pos.2 * t.display.size.1 + t.display.size.1) 'a') := by
  rw [clearLine, rowIndex_eq profile h]
  rfl

theorem clearLineToCursor_of_lt (hRow : t.cursor.pos.2 * t.display.size.1 < 2 ^ 16) :
    t.clearLineToCursor profile = .ok ((t.access (t.cursor.pos.2 * t.display.size.1)).fill
      (fun i => t.cursor.pos.2 * t.display.size.1 ≤ i ∧ i < t.cell) NUL) := by
  rw [clearLineToCursor, rowIndex_of_lt profile hRow]
  rfl

theorem clearLineToCursor_eq (h : t.Ready) :
    t.clearLineToCursor profile = .ok ((t.access (t.cursor.pos.2 * t.display.size.1)).fill
      (fun i => t.cursor.pos.2 * t.display.size.1 ≤ i ∧ i < t.cell) NUL) :=
  clearLineToCursor_of_lt profile (Nat.lt_of_le_of_lt t.row_le_cell h.cell_lt)

/-- The rest of the cursor's row is blank. -/
def blankRest (t : Terminal) : Terminal :=
  (t.access t.cell).fill
    (fun i => t.cell ≤ i ∧ i < t.cell + (t.display.size.1 - t.cursor.pos.1)) NUL

theorem Keeps.blankRest (hPos : OnScreen t.display.size t.cursor.pos) : Keeps t t.blankRest :=
  (Keeps.access (cell_lt hPos)).trans (.fill _ _ NUL)

theorem clearLineFromCursor_of_lt (hCell : t.cell < 2 ^ 16)
    (hColumn : t.cursor.pos.1 ≤ t.display.size.1) :
    t.clearLineFromCursor profile = .ok t.blankRest := by
  rw [clearLineFromCursor, profile.unsignedSub_of_le 16 hColumn, bind_of_ok,
    cursorIndex_of_lt profile hCell]
  rfl

theorem clearLineFromCursor_eq (h : t.Ready) :
    t.clearLineFromCursor profile = .ok t.blankRest :=
  clearLineFromCursor_of_lt profile h.cell_lt (Nat.le_of_lt h.cursor.1)

/-- The terminal with a character written into one of its cells. -/
def written (t : Terminal) (index : Nat) (character : Character) : Terminal :=
  { t.access index with
    display := { t.display with charBuffer := t.display.charBuffer.set index character } }

theorem setCell_eq (t : Terminal) (hIndex : index < t.display.charBuffer.length)
    (character : Character) : t.setCell index character = .ok (t.written index character) :=
  if_pos hIndex

theorem Keeps.written (t : Terminal) (hIndex : index < t.cells) (character : Character) :
    Keeps t (t.written index character) := by
  obtain ⟨-, -, -, hAccessed⟩ := Keeps.access hIndex
  exact ⟨rfl, List.length_set, rfl, hAccessed⟩

theorem getCell_ok {index : Nat} (hIndex : index < t.display.charBuffer.length) :
    ∃ character, t.getCell index = .ok character :=
  ⟨_, by rw [getCell, List.getElem?_eq_getElem hIndex]⟩

theorem printNewline_eq (h : t.Ready) :
    t.printNewline profile = .ok (t.blankRest.setPos (0, t.cursor.pos.2 + 1)) := by
  have hRows := h.fits.rows_lt
  have hNext : t.blankRest.cursor.pos.2 + 1 < 2 ^ 16 := by
    change t.cursor.pos.2 + 1 < 2 ^ 16
    have := h.cursor.2.2
    omega
  rw [printNewline, clearLineFromCursor_eq profile h, bind_of_ok,
    profile.unsigned_of_lt hNext]
  rfl

def back (t : Terminal) : Terminal :=
  (t.access t.cell).setPos (t.cursor.pos.1 - 1, t.cursor.pos.2)

/-- There is a space on the left of the cursor, and the cursor is on it. -/
def stepBack (t : Terminal) : Terminal :=
  (t.back.access t.back.cell).written t.back.cell ⟨' ', t.color.fgColor, t.color.bgColor⟩

theorem onScreen_back (hPos : OnScreen t.display.size t.cursor.pos) :
    OnScreen t.back.display.size t.back.cursor.pos :=
  ⟨Nat.lt_of_le_of_lt (Nat.sub_le ..) hPos.1, hPos.2⟩

theorem printBackspace_eq (h : t.Ready) (hColumn : 0 < t.cursor.pos.1) :
    t.printBackspace profile = .ok t.stepBack := by
  have hBack := onScreen_back h.cursor
  obtain ⟨old, hOld⟩ := @getCell_ok (t.access t.cell) t.cell
    (Nat.lt_of_lt_of_le (cell_lt h.cursor) h.buffer)
  rw [printBackspace, cursorIndex_eq profile h, bind_of_ok]
  simp only
  rw [hOld, bind_of_ok,
    profile.unsignedSub_of_le 16 (show 1 ≤ (t.access t.cell).cursor.pos.1 from hColumn),
    bind_of_ok]
  change (t.back.cursorIndex profile >>= _) = _
  rw [@cursorIndex_eq t.back profile ⟨hBack, h.fits, h.buffer⟩, bind_of_ok]
  exact setCell_eq (t.back.access t.back.cell) (Nat.lt_of_lt_of_le (cell_lt hBack) h.buffer) _

theorem Keeps.stepBack (hPos : OnScreen t.display.size t.cursor.pos) : Keeps t t.stepBack := by
  have hMoved : Keeps t t.back := (Keeps.access (cell_lt hPos)).trans (.setPos _ _)
  have hCell : t.back.cell < t.back.cells := cell_lt (onScreen_back hPos)
  exact hMoved.trans ((Keeps.access hCell).trans (.written (t.back.access t.back.cell) hCell _))

/-- The character stands under the cursor. -/
def stored (t : Terminal) (c : Char) : Terminal :=
  (t.access t.cell).written t.cell ⟨c, t.color.fgColor, t.color.bgColor⟩

variable {c : Char} {graphics : Graphics}

theorem setCell_stored (h : t.Ready) :
    (t.access t.cell).setCell t.cell ⟨c, t.color.fgColor, t.color.bgColor⟩ = .ok (t.stored c) :=
  setCell_eq (t.access t.cell) (Nat.lt_of_lt_of_le (cell_lt h.cursor) h.buffer) _

theorem Keeps.stored (hPos : OnScreen t.display.size t.cursor.pos) (c : Char) :
    Keeps t (t.stored c) :=
  (Keeps.access (cell_lt hPos)).trans (.written (t.access t.cell) (cell_lt hPos) _)

theorem Ready.stored (h : t.Ready) (c : Char) : (t.stored c).Ready :=
  h.of_keeps (.stored h.cursor c) h.cursor

/-- The cursor behind a character of some columns. -/
def advance (t : Terminal) (columns : Nat) : Terminal :=
  if t.cursor.pos.1 + columns ≥ t.display.size.1 then t.position (0, t.cursor.pos.2 + 1)
  else t.setPos (t.cursor.pos.1 + columns, t.cursor.pos.2)

/-- The last statement of `print_char` for a glyph. -/
theorem advance_eq (h : t.Ready)
    {columns : Nat} (hColumns : columns ≤ 2) :
    (do
      let column ← profile.unsigned 16 (t.cursor.pos.1 + columns)
      if column ≥ t.display.size.1 then
        let row ← profile.unsigned 16 (t.cursor.pos.2 + 1)
        return t.position (0, row)
      else return t.setPos (column, t.cursor.pos.2)) = Except.ok (t.advance columns) := by
  have hColumnsLt := h.fits.columns_lt
  have hRowsLt := h.fits.rows_lt
  obtain ⟨hLeft, -, hLower⟩ := h.cursor
  rw [profile.unsigned_of_lt (show t.cursor.pos.1 + columns < 2 ^ 16 by omega),
    bind_of_ok, profile.unsigned_of_lt (show t.cursor.pos.2 + 1 < 2 ^ 16 by omega)]
  unfold advance
  split <;> rfl

theorem Keeps.advance (h : t.Ready) (columns : Nat) : Keeps t (t.advance columns) := by
  have hRows := h.fits.rows
  unfold Terminal.advance
  split
  · exact .position h.buffer (by omega) _
  · exact .setPos t _

theorem onScreen_advance (h : t.Ready) (columns : Nat) :
    OnScreen t.display.size (t.advance columns).cursor.pos := by
  have hColumns := h.fits.columns
  unfold Terminal.advance
  split
  case isTrue hFull => exact onScreen_position h.fits (show 0 < t.display.size.1 by omega)
  case isFalse hRoom => exact ⟨Nat.lt_of_not_le hRoom, h.cursor.2⟩

theorem printGlyph_none (hGlyph : graphics.getGlyph c = none) :
    t.printGlyph graphics profile c = .ok t := by
  simp only [printGlyph, printCharAt, hGlyph, Nat.lt_irrefl, if_false, gt_iff_lt]

theorem printGlyph_halfWidth (h : t.Ready) (hGlyph : graphics.getGlyph c = some .halfWidth) :
    t.printGlyph graphics profile c = .ok ((t.stored c).advance 1) := by
  have hWidth : printCharAt graphics c = 8 := by rw [printCharAt, hGlyph]; rfl
  rw [printGlyph, hWidth, if_pos (by decide), cursorIndex_eq profile h,
    bind_of_ok]
  change ((t.access t.cell).setCell t.cell ⟨c, t.color.fgColor, t.color.bgColor⟩ >>= _) = _
  rw [setCell_stored h, bind_of_ok]
  exact @advance_eq (t.stored c) profile (h.stored c) 1 (by decide)

/-- The second column of a wide character, if there is one. -/
def nulled (t : Terminal) : Terminal :=
  if t.cursor.pos.1 + 1 ≥ t.display.size.1 then t
  else t.written (t.cell + 1) ⟨NUL, .INVISIBLE, .INVISIBLE⟩

theorem Keeps.nulled (hPos : OnScreen t.display.size t.cursor.pos) : Keeps t t.nulled := by
  unfold Terminal.nulled
  split
  case isTrue => exact .refl t
  case isFalse hRoom =>
    have hNext : OnScreen t.display.size (t.cursor.pos.1 + 1, t.cursor.pos.2) :=
      ⟨Nat.lt_of_not_le hRoom, hPos.2⟩
    exact .written t hNext.index_lt _

theorem cursor_nulled (t : Terminal) : t.nulled.cursor = t.cursor := by
  unfold nulled
  split <;> rfl

theorem nullOut_eq (h : t.Ready) : nullOut profile t.cell [1] t = .ok t.nulled := by
  have hColumns := h.fits.columns_lt
  have ⟨hColumn, hRows⟩ := h.cursor
  rw [nullOut, profile.unsigned_of_lt (show t.cursor.pos.1 + 1 < 2 ^ 16 by omega),
    bind_of_ok]
  unfold nulled
  split
  case isTrue => rfl
  case isFalse hRoom =>
    have hNext : OnScreen t.display.size (t.cursor.pos.1 + 1, t.cursor.pos.2) :=
      ⟨Nat.lt_of_not_le hRoom, hRows⟩
    have hIndex : t.cell + 1 < t.display.charBuffer.length :=
      Nat.lt_of_lt_of_le hNext.index_lt h.buffer
    rw [setCell_eq t hIndex]
    rfl

theorem printGlyph_fullWidth (h : t.Ready) (hGlyph : graphics.getGlyph c = some .fullWidth) :
    t.printGlyph graphics profile c = .ok ((t.stored c).nulled.advance 2) := by
  have hWidth : printCharAt graphics c = 16 := by rw [printCharAt, hGlyph]; rfl
  rw [printGlyph, hWidth, if_pos (by decide), cursorIndex_eq profile h,
    bind_of_ok]
  change ((t.access t.cell).setCell t.cell ⟨c, t.color.fgColor, t.color.bgColor⟩ >>= _) = _
  rw [setCell_stored h, bind_of_ok]
  change (nullOut profile (t.stored c).cell [1] (t.stored c) >>= _) = _
  rw [nullOut_eq profile (h.stored c), bind_of_ok]
  have hNulled : (t.stored c).nulled.Ready := (h.stored c).of_keeps (.nulled h.cursor)
    (by rw [cursor_nulled]; exact h.cursor)
  exact advance_eq profile hNulled (Nat.le_refl 2)

/-- The end of `print_char` changes nothing when the cursor is on the screen. -/
theorem wrapColumn_eq (hColumn : t.cursor.pos.1 < t.display.size.1) :
    t.wrapColumn profile = .ok t :=
  if_neg (Nat.not_le_of_lt hColumn)

theorem wrapRow_eq (hRow : t.cursor.pos.2 < t.display.size.2) : t.wrapRow profile = .ok t :=
  if_neg (Nat.not_le_of_lt hRow)

theorem wrapRow_below (hFits : Fits t.display.size) (hRow : t.display.size.2 ≤ t.cursor.pos.2) :
    t.wrapRow profile = .ok (t.scrollUp.setPos (0, t.display.size.2 - 1)) := by
  have hRows : 1 ≤ t.scrollUp.display.size.2 := Nat.le_of_succ_le hFits.rows
  rw [wrapRow, if_pos hRow]
  simp only
  rw [profile.unsignedSub_of_le 16 hRows]
  rfl

theorem printChar_of_branch (hBranch : t.printBranch graphics profile c = .ok t')
    (hPos : OnScreen t'.display.size t'.cursor.pos) :
    t.printChar graphics profile c = .ok t' := by
  rw [printChar, hBranch, bind_of_ok, wrapColumn_eq profile hPos.1, bind_of_ok,
    wrapRow_eq profile hPos.2.2]

/-- The cursor at the start of the next line. -/
def lineFed (t : Terminal) : Terminal :=
  let below := t.blankRest.setPos (0, t.cursor.pos.2 + 1)
  if t.cursor.pos.2 + 1 ≥ t.display.size.2 then
    below.scrollUp.setPos (0, t.display.size.2 - 1)
  else below

theorem Keeps.lineFed (h : t.Ready) : Keeps t t.lineFed := by
  have hRows := h.fits.rows
  have hBlank : Keeps t t.blankRest := .blankRest h.cursor
  have hBelow : Keeps t (t.blankRest.setPos (0, t.cursor.pos.2 + 1)) :=
    hBlank.trans (.setPos t.blankRest _)
  have hReady := h.of_keeps hBlank h.cursor
  unfold Terminal.lineFed
  split
  · have hScrolled : Keeps t (t.blankRest.setPos (0, t.cursor.pos.2 + 1)).scrollUp :=
      hBelow.trans (.scrollUp hReady.buffer (by rw [hBelow.size]; omega))
    exact hScrolled.trans (.setPos _ _)
  · exact hBelow

theorem onScreen_lineFed (h : t.Ready) : OnScreen t.display.size t.lineFed.cursor.pos := by
  have hColumns := h.fits.columns
  have hRows := h.fits.rows
  unfold lineFed
  split
  · refine ⟨?_, ?_, ?_⟩ <;> simp only [setPos] <;> omega
  · refine ⟨?_, ?_, ?_⟩ <;> simp only [setPos] <;> omega

theorem printChar_newline (h : t.Ready) : t.printChar graphics profile '\n' = .ok t.lineFed := by
  have hColumn : 0 < t.display.size.1 := Nat.lt_of_lt_of_le (by decide) h.fits.columns
  rw [printChar, printBranch, if_pos rfl, printNewline_eq profile h,
    bind_of_ok, wrapColumn_eq profile hColumn, bind_of_ok]
  unfold lineFed
  split
  case isTrue hLast => exact wrapRow_below profile h.fits hLast
  case isFalse hRoom => exact wrapRow_eq profile (Nat.lt_of_not_le hRoom)

theorem printChar_backspace (h : t.Ready) (hColumn : 0 < t.cursor.pos.1) :
    t.printChar graphics profile BACKSPACE = .ok t.stepBack := by
  have hBranch : t.printBranch graphics profile BACKSPACE = .ok t.stepBack := by
    rw [printBranch, if_neg (by decide), if_pos rfl, printBackspace_eq profile h hColumn]
  exact printChar_of_branch profile hBranch (onScreen_back h.cursor)

theorem printChar_halfWidth (h : t.Ready) (hLine : c ≠ '\n') (hBack : c ≠ BACKSPACE)
    (hGlyph : graphics.getGlyph c = some .halfWidth) :
    t.printChar graphics profile c = .ok ((t.stored c).advance 1) := by
  have hBranch : t.printBranch graphics profile c = .ok ((t.stored c).advance 1) := by
    rw [printBranch, if_neg hLine, if_neg hBack, printGlyph_halfWidth profile h hGlyph]
  have hStored := h.stored c
  exact printChar_of_branch profile hBranch
    (hStored.of_keeps (.advance hStored 1) (onScreen_advance hStored 1)).cursor

end Operations

end Terminal

end D3OS.Device.LfbTerminal
