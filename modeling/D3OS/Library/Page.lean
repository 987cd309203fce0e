import Mathlib.Algebra.Group.Nat.Defs

/-! A page of a fixed number of lines that is written from its upper left corner
on and scrolls when it is full. Nothing here refers to a particular screen. -/

/-- A page of lines with `columns` cells each, and the place of the next cell to
be written. -/
structure Page (α : Type) (columns : Nat) where
  lines : List (Vector α columns)
  row : Nat
  column : Nat
  row_lt : row < lines.length
  column_lt : column < columns

namespace Page

variable {α : Type} {columns : Nat}

/-- The page without any text. -/
def blank (columns rows : Nat) (hColumns : 0 < columns) (hRows : 0 < rows) (empty : α) :
    Page α columns where
  lines := List.replicate rows (Vector.replicate columns empty)
  row := 0
  column := 0
  row_lt := by rwa [List.length_replicate]
  column_lt := hColumns

variable (page : Page α columns)

theorem tail_append_length (line : Vector α columns) :
    (page.lines.tail ++ [line]).length = page.lines.length := by
  have hRow := page.row_lt
  rw [List.length_append, List.length_tail, List.length_singleton]
  omega

variable (f : Vector α columns → Vector α columns) (empty : α)

/-- To the start of the next line. Past the last one, the oldest line is discarded
and an empty one appended. -/
def nextLine : Page α columns :=
  if hRow : page.row + 1 < page.lines.length then
    { page with
      row := page.row + 1
      column := 0
      row_lt := hRow
      column_lt := Nat.zero_lt_of_lt page.column_lt }
  else
    { lines := page.lines.tail ++ [Vector.replicate columns empty]
      row := page.row
      column := 0
      row_lt := by rw [tail_append_length]; exact page.row_lt
      column_lt := Nat.zero_lt_of_lt page.column_lt }

/-- Changes the line of the cursor. -/
def modifyLine : Page α columns :=
  { page with
    lines := page.lines.modify page.row f
    row_lt := by rw [List.length_modify]; exact page.row_lt }

/-- Stores a cell under the cursor. -/
def store (cell : α) : Page α columns :=
  page.modifyLine fun line => line.set page.column cell page.column_lt

/-- Stores a cell and moves on. A full line wraps at once. -/
def put (cell : α) : Page α columns :=
  if hColumn : page.column + 1 < columns then
    { page.store cell with column := page.column + 1, column_lt := hColumn }
  else (page.store cell).nextLine empty

/-- Empties the rest of the line. -/
def blankRest : Page α columns :=
  page.modifyLine fun line => line.mapIdx fun i cell => if i < page.column then cell else empty

def newline : Page α columns :=
  (page.blankRest empty).nextLine empty

/-! ### Cells -/

/-- The content of a place on the page. -/
def cellAt (row column : Nat) : Option α :=
  page.lines[row]?.bind fun cells => cells[column]?

variable {row column line : Nat}

theorem exists_cellAt (hRow : row < page.lines.length) (hColumn : column < columns)
    : ∃ cell, page.cellAt row column = some cell := by
  rw [cellAt, List.getElem?_eq_getElem hRow]
  exact ⟨_, Vector.getElem?_eq_getElem hColumn⟩

@[simp] theorem length_modifyLine : (page.modifyLine f).lines.length = page.lines.length :=
  List.length_modify ..

@[simp] theorem length_nextLine : (page.nextLine empty).lines.length = page.lines.length := by
  unfold nextLine
  split
  · rfl
  · exact tail_append_length page _

theorem cellAt_blank {rows : Nat} (hColumns : 0 < columns) (hRows : 0 < rows) (empty : α)
    (hRow : row < rows) (hColumn : column < columns) :
    (blank columns rows hColumns hRows empty).cellAt row column = some empty := by
  simp [cellAt, blank, hRow, hColumn]

theorem cellAt_modifyLine_of_ne {page : Page α columns} (hRow : row ≠ page.row)
    (f : Vector α columns → Vector α columns) (column : Nat) :
    (page.modifyLine f).cellAt row column = page.cellAt row column := by
  simp only [cellAt, modifyLine]
  rw [List.getElem?_modify_ne _ _ (Ne.symm hRow)]

theorem cellAt_modifyLine (column : Nat) : (page.modifyLine f).cellAt page.row column =
      (f (page.lines.get ⟨page.row, page.row_lt⟩))[column]? := by
  simp only [cellAt, modifyLine]
  rw [List.getElem?_modify_eq, List.getElem?_eq_getElem page.row_lt]
  rfl

theorem cellAt_row (column : Nat) :
    page.cellAt page.row column = (page.lines.get ⟨page.row, page.row_lt⟩)[column]? := by
  rw [cellAt, List.getElem?_eq_getElem page.row_lt]
  rfl

theorem cellAt_store (cell : α) (row column : Nat) :
    (page.store cell).cellAt row column =
      if row = page.row ∧ column = page.column then some cell else page.cellAt row column := by
  by_cases hRow : row = page.row
  · subst hRow
    rw [store, cellAt_modifyLine, cellAt_row, Vector.getElem?_set]
    simp only [true_and, eq_comm]
  · rw [store, cellAt_modifyLine_of_ne hRow, if_neg fun h => hRow h.1]

theorem cellAt_blankRest (hColumn : column < columns) :
    (page.blankRest empty).cellAt row column =
      if row = page.row ∧ page.column ≤ column then some empty else page.cellAt row column := by
  by_cases hRow : row = page.row
  · subst hRow
    rw [blankRest, cellAt_modifyLine, cellAt_row, Vector.getElem?_mapIdx,
      Vector.getElem?_eq_getElem hColumn]
    by_cases hRest : page.column ≤ column
    · simp [hRest, Nat.not_lt_of_le hRest]
    · simp [hRest, Nat.lt_of_not_le hRest]
  · rw [blankRest, cellAt_modifyLine_of_ne hRow, if_neg fun h => hRow h.1]

theorem cellAt_nextLine_of_last {page : Page α columns} (hLast : ¬ page.row + 1 < page.lines.length)
    (hRow : row < page.lines.length) (hColumn : column < columns) :
    (page.nextLine empty).cellAt row column =
      if row + 1 < page.lines.length then page.cellAt (row + 1) column else some empty := by
  rw [nextLine, dif_neg hLast]
  simp only [cellAt]
  by_cases hNext : row + 1 < page.lines.length
  · rw [if_pos hNext, List.getElem?_append_left (by rw [List.length_tail]; omega),
      List.getElem?_tail]
  · grind

/-- The cells of one line in row-major order. -/
theorem mem_line_iff (hColumn : column < columns) :
    line * columns ≤ row * columns + column ∧
      row * columns + column < line * columns + columns ↔ row = line := by
  constructor
  · rintro ⟨hLower, hUpper⟩
    rcases Nat.lt_trichotomy row line with hLt | hEq | hGt
    · have hNext := Nat.mul_le_mul_right columns (Nat.succ_le_of_lt hLt)
      rw [Nat.succ_mul] at hNext
      omega
    · exact hEq
    · have hNext := Nat.mul_le_mul_right columns (Nat.succ_le_of_lt hGt)
      rw [Nat.succ_mul] at hNext
      omega
  · rintro rfl
    omega

theorem index_eq_iff {other : Nat} (hColumn : column < columns) (hOther : other < columns) :
    line * columns + other = row * columns + column ↔ row = line ∧ column = other := by
  constructor
  · intro hEq
    have hRow : row = line := (mem_line_iff hColumn).mp (by omega)
    subst hRow
    exact ⟨rfl, by omega⟩
  · rintro ⟨rfl, rfl⟩
    rfl

/-- The cells of one line from some column on. -/
theorem mem_rest_iff {other : Nat} (hColumn : column < columns) (hOther : other < columns) :
    line * columns + other ≤ row * columns + column ∧
      row * columns + column < line * columns + other + (columns - other) ↔
      row = line ∧ other ≤ column := by
  constructor
  · rintro ⟨hLower, hUpper⟩
    have hRow : row = line := (mem_line_iff hColumn).mp (by omega)
    subst hRow
    exact ⟨rfl, by omega⟩
  · rintro ⟨rfl, hRest⟩
    omega

end Page
