import D3OS.Device.TerminalCursor

/-! The terminal under any sequence of events. As long as no event moves the
cursor over the left or upper edge, or past the range of its numbers, or exactly
one column behind the right edge, the cursor stays on the screen, no arithmetic
overflows, and every index into the character buffer is that of a visible cell;
any other event breaks this at once. -/
namespace D3OS.Device.LfbTerminal

open Outcome

namespace Terminal

/-- No arithmetic overflows, so that all builds agree, and the state is valid
afterwards. -/
def Sound (operation : BuildProfile → Except Panic Terminal) : Prop :=
  ∃ t', (∀ profile, operation profile = .ok t') ∧ t'.Valid

namespace Sound

theorem ok {t : Terminal} (h : t.Valid) : Sound fun _ => .ok t := ⟨t, fun _ => rfl, h⟩

variable {next : BuildProfile → Nat → Except Panic Terminal} {value other : Nat}

theorem unsigned (hLt : value < 2 ^ 16) (hNext : Sound (next · value)) :
    Sound fun profile => profile.unsigned 16 value >>= next profile := by
  obtain ⟨t', hOk, hValid⟩ := hNext
  refine ⟨t', fun profile => ?_, hValid⟩
  simp only [profile.unsigned_of_lt hLt]
  exact hOk profile

theorem unsignedSub (hLe : other ≤ value) (hNext : Sound (next · (value - other))) :
    Sound fun profile => profile.unsignedSub 16 value other >>= next profile := by
  obtain ⟨t', hOk, hValid⟩ := hNext
  refine ⟨t', fun profile => ?_, hValid⟩
  simp only [profile.unsignedSub_of_le 16 hLe]
  exact hOk profile

end Sound

variable {t : Terminal}

theorem Valid.position (h : t.Valid) {pos : Nat × Nat} (hColumn : pos.1 < t.display.size.1) :
    (t.position pos).Valid := by
  have hRows := h.fits.rows
  exact h.of_keeps (.position h.buffer (by omega) pos) (onScreen_position h.fits hColumn)

/-- The movements of the cursor that keep to the screen: those up, to the left
and to an earlier line end above and left of the edges, those down, to the
right and to a later line do not exceed 16 bits, and a column is not that
behind the last. -/
def AllowedMove (t : Terminal) (action : Nat) (params : List Nat) : Prop :=
  match action, params with
  | 0x41, param :: _ => distance param ≤ t.cursor.pos.2
  | 0x42, param :: _ => t.cursor.pos.2 + distance param < 2 ^ 16
  | 0x43, param :: _ => t.cursor.pos.1 + distance param < 2 ^ 16
  | 0x44, param :: _ => distance param ≤ t.cursor.pos.1
  | 0x45, param :: _ => t.cursor.pos.2 + param + 1 < 2 ^ 16
  | 0x46, param :: _ => param + 1 ≤ t.cursor.pos.2
  | 0x48, column :: _ :: _ | 0x66, column :: _ :: _ => column ≠ t.display.size.1
  | _, _ => True

/-- The events that keep to the screen. -/
def Allowed (t : Terminal) : Event → Prop
  | .print c => c = BACKSPACE → 0 < t.cursor.pos.1
  | .execute byte => byte = 0x08 → 0 < t.cursor.pos.1
  | .csiDispatch params action => t.AllowedMove action params
  | .blink => True

/-! ### Allowed events -/

/-- A column that was brought back with the test for the last one. -/
theorem clamp_lt {column columns : Nat} (hColumns : 20 ≤ columns) :
    (if column < columns then column else columns - 1) < columns := by
  split <;> omega

variable {action : Nat} {params : List Nat} {t' : Terminal} {graphics : Graphics}

section

variable (h : t.Valid)

include h

theorem Valid.handleAnsiCursorSequence (hAllowed : t.AllowedMove action params) :
    Sound fun profile => t.handleAnsiCursorSequence profile action params := by
  have hColumns := h.fits.columns
  have hColumn := h.cursor.1
  have hFirst : 0 < t.display.size.1 := by omega
  revert hAllowed
  unfold Terminal.handleAnsiCursorSequence
  split <;> intro hAllowed
  -- up, down, right, left
  case h_1 => exact .unsignedSub hAllowed (.ok (h.position hColumn))
  case h_2 => exact .unsigned hAllowed (.ok (h.position hColumn))
  case h_3 => exact .unsigned hAllowed (.ok (h.position (clamp_lt hColumns)))
  case h_4 =>
    refine .unsignedSub hAllowed (.ok (h.position ?_))
    simp only
    split <;> omega
  -- to the start of a later and of an earlier line
  case h_5 =>
    exact .unsigned (Nat.lt_of_succ_lt hAllowed) (.unsigned hAllowed (.ok (h.position hFirst)))
  case h_6 =>
    exact .unsignedSub (Nat.le_of_succ_le hAllowed)
      (.unsignedSub (Nat.le_sub_of_add_le' hAllowed) (.ok (h.position hFirst)))
  -- absolute positions
  case h_7 => exact .ok (h.position (clamp_lt hColumns))
  case h_8 column row _ | h_9 column row _ =>
    have hOther : column ≠ t.display.size.1 := hAllowed
    refine .ok (h.position ?_)
    simp only
    split <;> omega
  case h_10 | h_11 => exact .ok (h.position hFirst)
  case h_12 => exact .ok ⟨⟨h.cursor, h.indices⟩, h.fits, h.buffer, h.cursor⟩
  case h_13 => exact .ok (h.position h.saved.1)
  case h_14 => exact .ok h

theorem Valid.access {index : Nat} (hIndex : index < t.cells) : (t.access index).Valid :=
  h.of_keeps (.access hIndex) h.cursor

theorem Valid.fill (region : Nat → Bool) (value : Char) : (t.fill region value).Valid :=
  h.of_keeps (.fill t region value) h.cursor

theorem Valid.handleAnsiEraseSequence (action : Nat) (params : List Nat) :
    Sound fun profile => t.handleAnsiEraseSequence profile action params := by
  have hColumns := h.fits.columns
  have hCell := h.access (cell_lt h.cursor)
  have hRow := h.access (Nat.lt_of_le_of_lt t.row_le_cell (cell_lt h.cursor))
  unfold Terminal.handleAnsiEraseSequence
  split
  case h_1 => exact ⟨_, fun profile => clearScreenFromCursor_eq profile h.toReady, hCell.fill _ _⟩
  case h_2 => exact ⟨_, fun profile => clearScreenToCursor_eq profile h.toReady, hCell.fill _ _⟩
  case h_3 => exact .ok ((h.fill _ _).position (show 0 < t.display.size.1 by omega))
  case h_4 => exact ⟨_, fun profile => clearLineFromCursor_eq profile h.toReady,
    h.of_keeps (.blankRest h.cursor) h.cursor⟩
  case h_5 => exact ⟨_, fun profile => clearLineToCursor_eq profile h.toReady, hRow.fill _ _⟩
  case h_6 => exact ⟨_, fun profile => clearLine_eq profile h.toReady, hRow.fill _ _⟩
  case h_7 => exact .ok h

theorem Valid.lineFed : t.lineFed.Valid :=
  h.of_keeps (.lineFed h.toReady) (onScreen_lineFed h.toReady)

theorem Valid.advance (columns : Nat) : (t.advance columns).Valid :=
  h.of_keeps (.advance h.toReady columns) (onScreen_advance h.toReady columns)

theorem Valid.printChar (graphics : Graphics) {c : Char}
    (hAllowed : c = BACKSPACE → 0 < t.cursor.pos.1) :
    Sound fun profile => t.printChar graphics profile c := by
  by_cases hLine : c = '\n'
  · subst hLine
    exact ⟨_, fun profile => printChar_newline profile h.toReady, h.lineFed⟩
  by_cases hBack : c = BACKSPACE
  · subst hBack
    exact ⟨_, fun profile => printChar_backspace profile h.toReady (hAllowed rfl),
      h.of_keeps (.stepBack h.cursor) (onScreen_back h.cursor)⟩
  have hStored : (t.stored c).Valid := h.of_keeps (.stored h.cursor c) h.cursor
  have hSound {t' : Terminal} (hGlyph : ∀ profile, t.printGlyph graphics profile c = .ok t')
      (hValid : t'.Valid) : Sound fun profile => t.printChar graphics profile c := by
    refine ⟨t', fun profile => printChar_of_branch profile ?_ hValid.cursor, hValid⟩
    rw [printBranch, if_neg hLine, if_neg hBack, hGlyph profile]
  cases hGlyph : graphics.getGlyph c with
  | none => exact hSound (fun profile => printGlyph_none profile hGlyph) h
  | some glyph =>
    cases glyph with
    | halfWidth =>
      exact hSound (fun profile => printGlyph_halfWidth profile h.toReady hGlyph)
        (hStored.advance 1)
    | fullWidth =>
      have hNulled : (t.stored c).nulled.Valid := hStored.of_keeps (.nulled h.cursor)
        (by rw [cursor_nulled]; exact h.cursor)
      exact hSound (fun profile => printGlyph_fullWidth profile h.toReady hGlyph)
        (hNulled.advance 2)

theorem Valid.handleTab : Sound t.handleTab := by
  have hColumns := h.fits.columns_lt
  have hRows := h.fits.rows_lt
  have ⟨hColumn, _, hRow⟩ := h.cursor
  refine .unsigned (by simp only [TAB_SPACES]; omega) ?_
  split
  case isTrue =>
    exact .unsigned (by omega) (.ok (h.position (Nat.lt_of_le_of_lt (Nat.zero_le _) hColumn)))
  case isFalse hRoom =>
    refine .ok (h.position ?_)
    exact Nat.lt_of_le_of_lt (Nat.div_mul_le_self ..) (Nat.lt_of_not_le hRoom)

theorem Valid.blink : Sound t.blink := by
  obtain ⟨character, hCell⟩ := @getCell_ok (t.access t.cell) t.cell
    (Nat.lt_of_lt_of_le (cell_lt h.cursor) h.buffer)
  refine ⟨t.access t.cell, fun profile => ?_, h.access (cell_lt h.cursor)⟩
  change Terminal.blink profile t = _
  rw [Terminal.blink, cursorIndex_eq profile h.toReady, bind_of_ok]
  simp only
  rw [hCell]
  rfl

theorem Valid.csiDispatch (graphics : Graphics) (hAllowed : t.AllowedMove action params) :
    Sound fun profile => t.csiDispatch graphics profile params action := by
  unfold Terminal.csiDispatch
  split
  · exact h.handleAnsiCursorSequence hAllowed
  split
  · exact h.handleAnsiEraseSequence action params
  split
  · exact .ok ⟨⟨h.cursor, h.indices⟩, h.fits, h.buffer, h.saved⟩
  · exact .ok h

/-- One event that keeps to the screen. -/
theorem Valid.step (graphics : Graphics) {event : Event} (hAllowed : t.Allowed event)
    : Sound fun profile => t.step graphics profile event := by
  cases event with
  | print c => exact h.printChar graphics hAllowed
  | execute byte =>
    change Sound fun profile => t.execute graphics profile byte
    unfold Terminal.execute
    split
    · exact h.printChar graphics fun _ => hAllowed rfl
    · exact h.handleTab
    · exact h.printChar graphics fun hEq => absurd hEq (by decide)
    · exact .ok h
  | csiDispatch params action => exact h.csiDispatch graphics hAllowed
  | blink => exact h.blink

end

/-! ### Other events -/

theorem column_pos_of_printBackspace (hOk : t.printBackspace .development = .ok t') :
    0 < t.cursor.pos.1 := by
  obtain ⟨⟨index, read⟩, hIndex, hOk⟩ := bind_ok hOk
  obtain ⟨old, -, hOk⟩ := bind_ok hOk
  obtain ⟨column, hColumn, -⟩ := bind_ok hOk
  have hPos : read.cursor = t.cursor := by
    obtain ⟨row, -, hIndex⟩ := bind_ok hIndex
    obtain ⟨cell, -, hIndex⟩ := bind_ok hIndex
    cases hIndex
    rfl
  rw [← hPos]
  exact (BuildProfile.unsignedSub_development_ok hColumn).1

theorem column_pos_of_printChar (hOk : t.printChar graphics .development BACKSPACE = .ok t') :
    0 < t.cursor.pos.1 := by
  obtain ⟨back, hBack, -⟩ := bind_ok hOk
  rw [printBranch, if_neg (by decide), if_pos rfl] at hBack
  exact column_pos_of_printBackspace hBack

theorem allowedMove_of_ok (h : t.Valid)
    (hOk : t.handleAnsiCursorSequence .development action params = .ok t')
    (hColumn : t'.cursor.pos.1 < t'.display.size.1) : t.AllowedMove action params := by
  unfold AllowedMove
  split
  case h_1 =>
    obtain ⟨row, hRow, -⟩ := bind_ok hOk
    exact (BuildProfile.unsignedSub_development_ok hRow).1
  case h_2 =>
    obtain ⟨row, hRow, -⟩ := bind_ok hOk
    exact (BuildProfile.unsigned_development_ok hRow).1
  case h_3 =>
    obtain ⟨column, hColumn, -⟩ := bind_ok hOk
    exact (BuildProfile.unsigned_development_ok hColumn).1
  case h_4 =>
    obtain ⟨column, hColumn, -⟩ := bind_ok hOk
    exact (BuildProfile.unsignedSub_development_ok hColumn).1
  case h_5 =>
    obtain ⟨sum, hSum, hOk⟩ := bind_ok hOk
    obtain ⟨row, hRow, -⟩ := bind_ok hOk
    rw [(BuildProfile.unsigned_development_ok hSum).2] at hRow
    exact (BuildProfile.unsigned_development_ok hRow).1
  case h_6 =>
    obtain ⟨rest, hRest, hOk⟩ := bind_ok hOk
    obtain ⟨row, hRow, -⟩ := bind_ok hOk
    have ⟨hLe, hEq⟩ := BuildProfile.unsignedSub_development_ok hRest
    have hOne := (BuildProfile.unsignedSub_development_ok hRow).1
    omega
  case h_7 column _ _ | h_8 column _ _ =>
    rintro rfl
    cases hOk
    have hRows := h.fits.rows
    rw [(Keeps.position h.buffer (by omega) _).size, pos_position hRows] at hColumn
    simp at hColumn
  case h_9 => trivial

theorem allowedMove_of_csiDispatch (h : t.Valid)
    (hOk : t.csiDispatch graphics .development params action = .ok t')
    (hColumn : t'.cursor.pos.1 < t'.display.size.1) : t.AllowedMove action params := by
  unfold Terminal.csiDispatch at hOk
  split at hOk
  · exact allowedMove_of_ok h hOk hColumn
  case isFalse hOther =>
    unfold AllowedMove
    split
    case h_9 => trivial
    all_goals exact absurd (by decide) hOther

theorem allowed_of_step (h : t.Valid) {event : Event}
    (hOk : t.step graphics .development event = .ok t')
    (hColumn : t'.cursor.pos.1 < t'.display.size.1) : t.Allowed event := by
  cases event with
  | print c =>
    rintro rfl
    exact column_pos_of_printChar hOk
  | execute byte =>
    rintro rfl
    exact column_pos_of_printChar hOk
  | csiDispatch params action => exact allowedMove_of_csiDispatch h hOk hColumn
  | blink => trivial

/-! ### Runs -/

/-- After every event everything is on the screen, and all builds agree, since no
arithmetic overflows. -/
def Contained (graphics : Graphics) : Terminal → List Event → Prop
  | t, [] => t.Visible
  | t, event :: events => t.Visible ∧
      ∃ t', (∀ profile, t.step graphics profile event = .ok t') ∧ Contained graphics t' events

/-- Every event keeps to the screen, in the state before it. -/
def AllAllowed (graphics : Graphics) : Terminal → List Event → Prop
  | _, [] => True
  | t, event :: events => t.Allowed event ∧
      ∀ t', t.step graphics .development event = .ok t' → AllAllowed graphics t' events

theorem Contained.visible {events : List Event} (h : t.Contained graphics events) : t.Visible := by
  cases events with
  | nil => exact h
  | cons event events => exact h.1

theorem Valid.contained_iff (h : t.Valid) (graphics : Graphics) (events : List Event) :
    t.Contained graphics events ↔ t.AllAllowed graphics events := by
  induction events generalizing t with
  | nil => exact ⟨fun _ => trivial, fun _ => h.toVisible⟩
  | cons event events ih =>
    constructor
    · rintro ⟨-, t', hOk, hContained⟩
      have hAllowed := allowed_of_step h (hOk .development) hContained.visible.cursor.1
      obtain ⟨t'', hStep, hValid⟩ := h.step graphics hAllowed
      cases (hOk .development).symm.trans (hStep .development)
      refine ⟨hAllowed, fun next hNext => ?_⟩
      cases (hOk .development).symm.trans hNext
      exact (ih hValid).mp hContained
    · rintro ⟨hAllowed, hRest⟩
      obtain ⟨t', hStep, hValid⟩ := h.step graphics hAllowed
      exact ⟨h.toVisible, t', hStep, (ih hValid).mpr (hRest t' (hStep .development))⟩

theorem valid_new {size : Nat × Nat} (hFits : Fits size) : (Terminal.new size).Valid := by
  have hColumns := hFits.columns
  have hStart : OnScreen size (0, 1) := ⟨by simp only; omega, Nat.le_refl 1, hFits.rows⟩
  refine ⟨⟨hStart, nofun⟩, hFits, ?_, hStart⟩
  simp only [Terminal.new, DisplayState.new, List.length_replicate, cells]
  exact Nat.le_mul_of_pos_right _ (by decide)

/-- The cursor never leaves the screen if and only if no event moves it over an
edge by an unchecked subtraction or addition, or into the column that the check
of absolute positions lets through. -/
theorem contained_iff_allAllowed {size : Nat × Nat} (hFits : Fits size) (graphics : Graphics)
    (events : List Event) :
    (Terminal.new size).Contained graphics events ↔
      (Terminal.new size).AllAllowed graphics events :=
  (valid_new hFits).contained_iff graphics events

/-- A font with narrow glyphs only, and no colors. -/
def monospaced : Graphics := ⟨fun _ => some .halfWidth, fun _ => .BLACK⟩

/-- A character and a backspace keep to the screen. -/
theorem contained_after_backspace :
    Fits (20, 2) ∧
      (Terminal.new (20, 2)).Contained monospaced [.print 'a', .execute 0x08] := by
  have hFits : Fits (20, 2) := ⟨by decide, by decide, by decide⟩
  refine ⟨hFits, (contained_iff_allAllowed hFits monospaced _).mpr ⟨?_, fun t' hStep => ?_⟩⟩
  · exact fun hBack => absurd hBack (by decide)
  · have hPrint : (Terminal.new (20, 2)).step monospaced .development (.print 'a') = _ :=
      printChar_halfWidth .development (valid_new hFits).toReady (by decide) (by decide) rfl
    cases hPrint.symm.trans hStep
    exact ⟨fun _ => by decide, fun _ _ => trivial⟩

/-- A backspace in the first column underflows, and the column behind the last
can be reached by its number. -/
theorem cursor_leaves_screen :
    Fits (20, 2) ∧
      (Terminal.new (20, 2)).step monospaced .development (.execute 0x08) =
        .error .arithmeticOverflow ∧
      ((Terminal.new (20, 2)).step monospaced .production (.csiDispatch [20, 1] 0x48)).map
        (·.cursor.pos) = .ok (20, 1) ∧
      ¬ (Terminal.new (20, 2)).Contained monospaced [.execute 0x08] ∧
      ¬ (Terminal.new (20, 2)).Contained monospaced [.csiDispatch [20, 1] 0x48] := by
  have hBack : (Terminal.new (20, 2)).step monospaced .development (.execute 0x08) =
      .error .arithmeticOverflow := rfl
  have hMove : ((Terminal.new (20, 2)).step monospaced .production (.csiDispatch [20, 1] 0x48)).map
      (fun t => (t.cursor.pos, t.display.size)) = .ok ((20, 1), (20, 2)) := rfl
  refine ⟨⟨by decide, by decide, by decide⟩, hBack, rfl, ?_, ?_⟩
  · rintro ⟨-, t', hOk, -⟩
    cases hBack.symm.trans (hOk .development)
  · rintro ⟨-, t', hOk, hVisible⟩
    rw [hOk .production] at hMove
    have hPos := hVisible.cursor.1
    injection hMove with hMove
    rw [Prod.mk.injEq] at hMove
    rw [hMove.1, hMove.2] at hPos
    exact absurd hPos (by decide)

end Terminal

end D3OS.Device.LfbTerminal
