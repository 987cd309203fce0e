import D3OS.Device.TerminalCursor
import D3OS.Library.Page

/-! Plain text on the terminal: the rows below the status bar are a page that
scrolls, whatever the geometry of the screen and the length of the text. -/
namespace D3OS.Device.LfbTerminal

/-- An empty cell in the current colors. -/
def ColorState.empty (color : ColorState) : Character := ⟨NUL, color.fgColor, color.bgColor⟩

/-- The reference: one character of a text on the page. -/
def writeChar {columns : Nat} (color : ColorState) (page : Page Character columns) (c : Char) :
    Page Character columns :=
  if c = '\n' then page.newline color.empty
  else page.put color.empty ⟨c, color.fgColor, color.bgColor⟩

/-- The page that a cleared screen shows. -/
def Fits.page {size : Nat × Nat} (hFits : Fits size) (color : ColorState) : Page Character size.1 :=
  .blank size.1 (size.2 - 1) (Nat.zero_lt_of_lt hFits.columns) (Nat.sub_pos_of_lt hFits.rows)
    color.empty

/-- The characters of plain text: newlines, and those with a glyph of one column. -/
def Plain (graphics : Graphics) (c : Char) : Prop :=
  c = '\n' ∨ c ≠ BACKSPACE ∧ graphics.getGlyph c = some .halfWidth

/-- The rows below the status bar and the cursor are those of the page. -/
structure Shows {columns : Nat} (color : ColorState) (t : Terminal)
    (page : Page Character columns) : Prop where
  size : t.display.size = (columns, page.lines.length + 1)
  color_eq : t.color = color
  pos : t.cursor.pos = (page.column, page.row + 1)
  cells : ∀ row < page.lines.length, ∀ column < columns,
    t.display.charBuffer[(row + 1) * columns + column]? = page.cellAt row column

namespace Terminal

/-! ### Cells of the buffer -/

theorem getElem?_fill (t : Terminal) (region : Nat → Bool) (value : Char) (index : Nat) :
    (t.fill region value).display.charBuffer[index]? = t.display.charBuffer[index]?.map fun item =>
      if region index then ⟨value, t.color.fgColor, t.color.bgColor⟩ else item := by
  simp only [fill, List.getElem?_mapIdx]

theorem getElem?_scrollUp {t : Terminal} {columns rows : Nat}
    (hSize : t.display.size = (columns, rows + 1))
    (hBuffer : columns * rows + columns ≤ t.display.charBuffer.length) {index : Nat}
    (hIndex : index < columns * rows + columns) :
    t.scrollUp.display.charBuffer[index]? =
      if index < columns * rows then t.display.charBuffer[columns + index]?
      else some t.color.empty := by
  have hLength : ((t.display.charBuffer.drop columns).take (columns * rows)).length =
      columns * rows := by
    rw [List.length_take, List.length_drop]
    omega
  unfold scrollUp
  rw [getElem?_fill]
  simp only [hSize, Nat.add_sub_cancel]
  by_cases hAbove : index < columns * rows
  · grind
  · have hSome : index < ((t.display.charBuffer.drop columns).take (columns * rows) ++
        t.display.charBuffer.drop (columns * rows)).length := by grind
    rw [List.getElem?_eq_getElem hSome, if_neg hAbove]
    simp [Nat.le_of_not_lt hAbove, ColorState.empty]

/-- The cursor at the start of the next line, after at most one scrolling. -/
def nextLine (t : Terminal) : Terminal :=
  if t.cursor.pos.2 + 1 < t.display.size.2 then t.setPos (0, t.cursor.pos.2 + 1)
  else t.scrollUp.setPos (0, t.display.size.2 - 1)

/-- A full line ends in `position`, whose loop scrolls once at most. -/
theorem position_next {t : Terminal} (hRow : t.cursor.pos.2 < t.display.size.2) :
    t.position (0, t.cursor.pos.2 + 1) = t.nextLine := by
  generalize hEq : t.cursor.pos.2 = row at hRow
  unfold position nextLine
  rw [hEq]
  simp only [Nat.add_one_ne_zero, if_false]
  unfold scrollInto
  split
  case isTrue hLast =>
    have hBelow : t.display.size.2 = row + 1 := Nat.le_antisymm hLast hRow
    have hStop : scrollInto row (t.setPos (0, row)).scrollUp = (t.setPos (0, row)).scrollUp := by
      cases row with
      | zero => rfl
      | succ row => exact if_neg (Nat.not_le_of_lt hRow)
    rw [hBelow, if_neg (Nat.lt_irrefl _)]
    exact hStop
  case isFalse hRoom =>
    have hAbove : row + 1 < t.display.size.2 := Nat.lt_of_not_le hRoom
    rw [if_pos hAbove]

/-- A newline scrolls at the end of `print_char`. -/
theorem lineFed_eq (t : Terminal) : t.lineFed = t.blankRest.nextLine := by
  unfold lineFed nextLine
  split
  case isTrue hLast =>
    have hBelow : ¬ t.blankRest.cursor.pos.2 + 1 < t.blankRest.display.size.2 :=
      Nat.not_lt_of_le hLast
    rw [if_neg hBelow]
    rfl
  case isFalse hRoom =>
    have hAbove : t.blankRest.cursor.pos.2 + 1 < t.blankRest.display.size.2 :=
      Nat.lt_of_not_le hRoom
    rw [if_pos hAbove]
    rfl

/-! ### Text and page -/

section Page

variable {columns : Nat} {color : ColorState} {t t' : Terminal} {page : Page Character columns}

section

variable (h : Shows color t page)

include h

theorem cell_of_shows : t.cell = (page.row + 1) * columns + page.column := by
  rw [cell, h.pos, h.size]

theorem shows_stored (hReady : t.Ready) (c : Char) :
    Shows color (t.stored c) (page.store ⟨c, color.fgColor, color.bgColor⟩) := by
  refine ⟨?_, h.color_eq, h.pos, fun row hRow column hColumn => ?_⟩
  · rw [Page.store, Page.length_modifyLine]
    exact h.size
  · rw [Page.store, Page.length_modifyLine] at hRow
    have hCell : t.cell < t.display.charBuffer.length :=
      Nat.lt_of_lt_of_le (cell_lt hReady.cursor) hReady.buffer
    have hStored : (t.stored c).display.charBuffer =
        t.display.charBuffer.set t.cell ⟨c, t.color.fgColor, t.color.bgColor⟩ := rfl
    rw [hStored, List.getElem?_set, Page.cellAt_store, if_pos hCell, h.color_eq, cell_of_shows h]
    simp only [Page.index_eq_iff hColumn page.column_lt, Nat.add_right_cancel_iff,
      h.cells row hRow column hColumn]

theorem shows_blankRest : Shows color t.blankRest (page.blankRest color.empty) := by
  refine ⟨?_, h.color_eq, h.pos, fun row hRow column hColumn => ?_⟩
  · rw [Page.blankRest, Page.length_modifyLine]
    exact h.size
  · rw [Page.blankRest, Page.length_modifyLine] at hRow
    obtain ⟨item, hItem⟩ := page.exists_cellAt hRow hColumn
    have hBuffer :
        (t.access t.cell).display.charBuffer[(row + 1) * columns + column]? = some item :=
      (h.cells row hRow column hColumn).trans hItem
    have hColor : (t.access t.cell).color = color := h.color_eq
    have hRest : t.display.size.1 - t.cursor.pos.1 = columns - page.column := by rw [h.size, h.pos]
    rw [blankRest, getElem?_fill, Page.cellAt_blankRest _ _ hColumn, hBuffer, hItem, hColor, hRest,
      cell_of_shows h]
    simp only [Option.map_some, decide_eq_true_eq, Page.mem_rest_iff hColumn page.column_lt,
      Nat.add_right_cancel_iff]
    split <;> rfl

/-- The cells of a page that has scrolled. -/
theorem cells_scrollUp (hReady : t.Ready) (hLast : ¬ page.row + 1 < page.lines.length)
    {row column : Nat} (hRow : row < page.lines.length) (hColumn : column < columns) :
    t.scrollUp.display.charBuffer[(row + 1) * columns + column]? =
      (page.nextLine color.empty).cellAt row column := by
  have hBuffer : columns * page.lines.length + columns ≤ t.display.charBuffer.length := by
    have hCells := hReady.buffer
    rw [cells, h.size] at hCells
    rwa [← Nat.mul_succ]
  have hUpper : (row + 1) * columns ≤ page.lines.length * columns :=
    Nat.mul_le_mul_right columns hRow
  rw [Nat.mul_comm page.lines.length] at hUpper
  rw [getElem?_scrollUp h.size hBuffer (by omega),
    Page.cellAt_nextLine_of_last _ hLast hRow hColumn, h.color_eq]
  by_cases hNext : row + 1 < page.lines.length
  · have hBelow : (row + 1 + 1) * columns ≤ page.lines.length * columns :=
      Nat.mul_le_mul_right columns hNext
    rw [Nat.succ_mul, Nat.mul_comm page.lines.length] at hBelow
    have hIndex : columns + ((row + 1) * columns + column) = (row + 1 + 1) * columns + column := by
      grind
    rw [if_pos (by omega), if_pos hNext, hIndex, h.cells (row + 1) hNext column hColumn]
  · have hEnd : row + 1 = page.lines.length := by omega
    rw [if_neg hNext, hEnd, Nat.mul_comm, if_neg (by omega)]

theorem shows_nextLine (hReady : t.Ready) : Shows color t.nextLine (page.nextLine color.empty) := by
  have hRows : t.display.size.2 = page.lines.length + 1 := by rw [h.size]
  have hRowEq : t.cursor.pos.2 = page.row + 1 := by rw [h.pos]
  unfold nextLine
  rw [hRows, hRowEq]
  by_cases hRow : page.row + 1 < page.lines.length
  · rw [if_pos (by omega), Page.nextLine, dif_pos hRow]
    exact ⟨h.size, h.color_eq, rfl, h.cells⟩
  · have hPageRow := page.row_lt
    rw [if_neg (by omega)]
    refine ⟨?_, h.color_eq, ?_, fun row hLine column hColumn => ?_⟩
    · rw [Page.length_nextLine]
      exact h.size
    · rw [Page.nextLine, dif_neg hRow]
      simp only [setPos, Prod.mk.injEq, true_and]
      omega
    · rw [Page.length_nextLine] at hLine
      exact cells_scrollUp h hReady hRow hLine hColumn

theorem shows_put (hReady : t.Ready) (c : Char) :
    Shows color ((t.stored c).advance 1)
      (page.put color.empty ⟨c, color.fgColor, color.bgColor⟩) := by
  have hStored := shows_stored h hReady c
  have hColumn : (t.stored c).cursor.pos.1 = page.column := by rw [hStored.pos]; rfl
  have hColumns : (t.stored c).display.size.1 = columns := by rw [hStored.size]
  unfold advance Page.put
  rw [hColumn, hColumns]
  by_cases hFull : page.column + 1 < columns
  · rw [if_neg (Nat.not_le_of_lt hFull), dif_pos hFull]
    refine ⟨hStored.size, hStored.color_eq, ?_, hStored.cells⟩
    rw [hStored.pos]
    rfl
  · rw [if_pos (Nat.le_of_not_lt hFull), dif_neg hFull, position_next (hReady.stored c).cursor.2.2]
    exact shows_nextLine hStored (hReady.stored c)

theorem shows_newline (hReady : t.Ready) : Shows color t.lineFed (page.newline color.empty) := by
  rw [lineFed_eq]
  exact shows_nextLine (shows_blankRest h)
    (hReady.of_keeps (.blankRest hReady.cursor) hReady.cursor)

end

/-- One character of plain text. -/
theorem shows_step {graphics : Graphics} {c : Char} (hPlain : Plain graphics c)
    (h : Shows color t page) (hReady : t.Ready) (profile : BuildProfile) :
    ∃ t', t.step graphics profile (.ofChar c) = .ok t' ∧ Shows color t' (writeChar color page c) ∧
      t'.Ready := by
  unfold Event.ofChar writeChar
  by_cases hLine : c = '\n'
  · rw [if_pos hLine, if_pos hLine]
    exact ⟨t.lineFed, printChar_newline profile hReady, shows_newline h hReady,
      hReady.of_keeps (.lineFed hReady) (onScreen_lineFed hReady)⟩
  · rw [if_neg hLine, if_neg hLine]
    obtain ⟨hBack, hGlyph⟩ := hPlain.resolve_left hLine
    have hStored := hReady.stored c
    exact ⟨_, printChar_halfWidth profile hReady hLine hBack hGlyph, shows_put h hReady c,
      hStored.of_keeps (.advance hStored 1) (onScreen_advance hStored 1)⟩

/-- Any plain text, by the step of each of its characters. -/
theorem shows_run {graphics : Graphics} {text : List Char} (hText : ∀ c ∈ text, Plain graphics c)
    (h : Shows color t page) (hReady : t.Ready) (profile : BuildProfile) :
    ∃ t', t.run graphics profile (text.map .ofChar) = .ok t' ∧
      Shows color t' (text.foldl (writeChar color) page) := by
  induction text generalizing t page with
  | nil => exact ⟨t, rfl, h⟩
  | cons c text ih =>
    obtain ⟨hPlain, hText⟩ := List.forall_mem_cons.mp hText
    obtain ⟨t₁, hStep, hShows, hReady₁⟩ := shows_step hPlain h hReady profile
    obtain ⟨t', hRun, hEnd⟩ := ih hText hShows hReady₁
    refine ⟨t', ?_, hEnd⟩
    rw [run, List.map_cons, List.foldlM_cons, hStep]
    exact hRun

end Page

/-! ### The cleared screen -/

theorem clear_eq (t : Terminal) (hRows : 2 ≤ t.display.size.2) :
    t.clear = t.clearScreen.setPos (0, 1) := by
  have hStop : ¬ 1 ≥ t.display.size.2 := by omega
  exact if_neg hStop

theorem getElem?_clear {t : Terminal} (hRows : 2 ≤ t.display.size.2) {index : Nat}
    (hIndex : index < t.display.charBuffer.length) :
    t.clear.display.charBuffer[index]? = some t.color.empty := by
  rw [clear_eq t hRows]
  change t.clearScreen.display.charBuffer[index]? = _
  rw [clearScreen, getElem?_fill, List.getElem?_eq_getElem hIndex]
  rfl

theorem shows_clear {t : Terminal} (hFits : Fits t.display.size)
    (hBuffer : t.cells ≤ t.display.charBuffer.length) :
    Shows t.color t.clear (hFits.page t.color) := by
  have hRows := hFits.rows
  have hLength : (hFits.page t.color).lines.length = t.display.size.2 - 1 := List.length_replicate
  rw [clear_eq t hRows]
  refine ⟨?_, rfl, rfl, fun row hRow column hColumn => ?_⟩
  · rw [hLength, Nat.sub_add_cancel (by omega)]
    rfl
  · rw [hLength] at hRow
    have hScreen : OnScreen t.display.size (column, row + 1) :=
      ⟨hColumn, Nat.le_add_left .., by simp only; omega⟩
    rw [← clear_eq t hRows, getElem?_clear hRows (Nat.lt_of_lt_of_le hScreen.index_lt hBuffer)]
    exact (Page.cellAt_blank _ _ _ hRow hColumn).symm

theorem ready_clear {t : Terminal} (hFits : Fits t.display.size)
    (hBuffer : t.cells ≤ t.display.charBuffer.length) : t.clear.Ready := by
  have hColumns := hFits.columns
  rw [clear_eq t hFits.rows]
  refine ⟨⟨show 0 < t.display.size.1 by omega, Nat.le_refl 1, hFits.rows⟩, hFits, ?_⟩
  rw [cells, setPos, clearScreen, fill, List.length_mapIdx]
  exact hBuffer

/-- Plain text after `clear` is laid out as on the scrolling page. -/
theorem text_shows_page {t : Terminal} (hFits : Fits t.display.size)
    (hBuffer : t.cells ≤ t.display.charBuffer.length) (graphics : Graphics) {text : List Char}
    (hText : ∀ c ∈ text, Plain graphics c) (profile : BuildProfile) :
    ∃ t', t.clear.run graphics profile (text.map .ofChar) = .ok t' ∧
      Shows t.color t' (text.foldl (writeChar t.color) (hFits.page t.color)) :=
  shows_run hText (shows_clear hFits hBuffer) (ready_clear hFits hBuffer) profile

/-- On the smallest screen, with a font of narrow glyphs, the newline scrolls. -/
theorem text_shows_page_of_small_screen :
    ∃ hFits : Fits (20, 2), ∃ t',
      (Terminal.new (20, 2)).clear.run ⟨fun _ => some .halfWidth, fun _ => .BLACK⟩ .development
        (['a', '\n'].map .ofChar) = .ok t' ∧
      Shows .new t' (['a', '\n'].foldl (writeChar .new) (hFits.page .new)) := by
  have hFits : Fits (Terminal.new (20, 2)).display.size := ⟨by decide, by decide, by decide⟩
  have hBuffer :
      (Terminal.new (20, 2)).cells ≤ (Terminal.new (20, 2)).display.charBuffer.length := by
    rw [cells, Terminal.new, DisplayState.new, List.length_replicate]
    decide
  refine ⟨hFits, text_shows_page hFits hBuffer _ (fun c hMem => ?_) .development⟩
  rcases List.mem_cons.mp hMem with rfl | hMem
  · exact .inr ⟨by decide, rfl⟩
  · exact .inl (List.mem_singleton.mp hMem)

end Terminal

end D3OS.Device.LfbTerminal
