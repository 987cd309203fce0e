import D3OS.Kernel.Arithmetic
import D3OS.Library.Outcome

/-! The terminal on the linear framebuffer, `device/lfb_terminal.rs`: the cursor,
the colors and the character buffer. Positions are pairs of a column and a row.
The pixels, the status bar and the bell are left out; of a glyph only its width
counts. Of the parameters of a CSI sequence the code reads the first value
each, so that a sequence comes with a list of numbers. -/
namespace D3OS.Device.LfbTerminal

def TAB_SPACES : Nat := 8

def DEFAULT_CHAR_WIDTH : Nat := 8

/-- The value of an empty cell. -/
def NUL : Char := Char.ofNat 0x00

def BACKSPACE : Char := Char.ofNat 0x08

structure Color where
  red : Nat
  green : Nat
  blue : Nat
  alpha : Nat
  deriving DecidableEq, Repr

namespace Color

def BRIGHTNESS_SHIFT : Nat := 85

def INVISIBLE : Color := ⟨0, 0, 0, 0⟩
def BLACK : Color := ⟨0, 0, 0, 255⟩
def RED : Color := ⟨170, 0, 0, 255⟩
def GREEN : Color := ⟨0, 170, 0, 255⟩
def YELLOW : Color := ⟨170, 170, 0, 255⟩
def BLUE : Color := ⟨0, 0, 170, 255⟩
def MAGENTA : Color := ⟨170, 0, 170, 255⟩
def CYAN : Color := ⟨0, 170, 170, 255⟩
def WHITE : Color := ⟨170, 170, 170, 255⟩

def bright (self : Color) : Color :=
  ⟨min (self.red + BRIGHTNESS_SHIFT) 255, min (self.green + BRIGHTNESS_SHIFT) 255,
    min (self.blue + BRIGHTNESS_SHIFT) 255, self.alpha⟩

def dim (self : Color) : Color :=
  ⟨self.red - BRIGHTNESS_SHIFT, self.green - BRIGHTNESS_SHIFT, self.blue - BRIGHTNESS_SHIFT,
    self.alpha⟩

end Color

/-- The glyphs of the font are 8 or 16 pixels wide. -/
inductive Glyph where
  | halfWidth
  | fullWidth

def Glyph.width : Glyph → Nat
  | .halfWidth => 8
  | .fullWidth => 16

/-- The tables of the libraries: the font and the 256 colors. -/
structure Graphics where
  getGlyph : Char → Option Glyph
  colorTable256 : Nat → Color

structure Character where
  value : Char
  fgColor : Color
  bgColor : Color
  deriving DecidableEq, Repr

def CHARACTER_SIZE : Nat := 12

structure CursorState where
  pos : Nat × Nat
  savedPos : Nat × Nat

def CursorState.new : CursorState := ⟨(0, 1), (0, 1)⟩

structure ColorState where
  fgColor : Color
  bgColor : Color
  fgBaseColor : Color
  bgBaseColor : Color
  fgBright : Bool
  bgBright : Bool
  invert : Bool
  bright : Bool
  dim : Bool

def ColorState.new : ColorState :=
  ⟨.WHITE, .BLACK, .WHITE, .BLACK, false, false, false, false, false⟩

def parseComplexColor (graphics : Graphics) : List Nat → Option Color × List Nat
  | 2 :: red :: green :: blue :: iter => (some ⟨red % 256, green % 256, blue % 256, 255⟩, iter)
  | 2 :: _ => (none, [])
  | 5 :: index :: iter =>
    (if index ≤ 255 then some (graphics.colorTable256 index) else none, iter)
  | _ :: iter => (none, iter)
  | [] => (none, [])

def ansiColor (graphics : Graphics) (code : Nat) (iter : List Nat) : Option Color × List Nat :=
  match code with
  | 0 => (some .BLACK, iter)
  | 1 => (some .RED, iter)
  | 2 => (some .GREEN, iter)
  | 3 => (some .YELLOW, iter)
  | 4 => (some .BLUE, iter)
  | 5 => (some .MAGENTA, iter)
  | 6 => (some .CYAN, iter)
  | 7 | 9 => (some .WHITE, iter)
  | 8 => parseComplexColor graphics iter
  | _ => (none, iter)

theorem parseComplexColor_length (graphics : Graphics) (iter : List Nat) :
    (parseComplexColor graphics iter).2.length ≤ iter.length := by
  fun_cases parseComplexColor graphics iter <;> simp <;> omega

theorem ansiColor_length (graphics : Graphics) (code : Nat) (iter : List Nat) :
    (ansiColor graphics code iter).2.length ≤ iter.length := by
  unfold ansiColor
  split
  case h_10 => exact parseComplexColor_length graphics iter
  all_goals exact Nat.le_refl _

namespace ColorState

def handleAnsiGraphicRendition (color : ColorState) (code : Nat) : ColorState :=
  match code with
  | 0 => .new
  | 1 => { color with bright := true }
  | 2 => { color with dim := true }
  | 7 => { color with invert := true }
  | 22 => { color with bright := false, dim := false }
  | 27 => { color with invert := false }
  | _ => color

/-- The loop of `handle_ansi_color` over the parameters. -/
def readCodes (graphics : Graphics) (color : ColorState) : List Nat → ColorState
  | [] => color
  | code :: iter =>
    if code ≤ 29 then readCodes graphics (color.handleAnsiGraphicRendition code) iter
    else if code ≤ 39 then
      let result := ansiColor graphics (code - 30) iter
      readCodes graphics ((result.1.map fun col =>
        { color with fgBaseColor := col, fgBright := false }).getD color) result.2
    else if code ≤ 49 then
      let result := ansiColor graphics (code - 40) iter
      readCodes graphics ((result.1.map fun col =>
        { color with bgBaseColor := col, bgBright := false }).getD color) result.2
    else if 90 ≤ code ∧ code ≤ 97 then
      let result := ansiColor graphics (code - 90) iter
      readCodes graphics ((result.1.map fun col =>
        { color with fgBaseColor := col, fgBright := true }).getD color) result.2
    else if 100 ≤ code ∧ code ≤ 107 then
      let result := ansiColor graphics (code - 100) iter
      readCodes graphics ((result.1.map fun col =>
        { color with bgBaseColor := col, bgBright := true }).getD color) result.2
    else readCodes graphics color iter
  termination_by params => params.length
  decreasing_by
    all_goals
      simp only [List.length_cons]
      first
        | omega
        | exact Nat.lt_succ_of_le (ansiColor_length ..)

def handleAnsiColor (graphics : Graphics) (color : ColorState) (params : List Nat) : ColorState :=
  let color := readCodes graphics color params
  let (fgSelf, bgSelf) :=
    if color.invert then (color.bgBaseColor, color.fgBaseColor)
    else (color.fgBaseColor, color.bgBaseColor)
  let fgSelf := if color.bright ∨ color.fgBright then fgSelf.bright else fgSelf
  let fgSelf := if color.dim then fgSelf.dim else fgSelf
  let bgSelf := if color.bgBright then bgSelf.bright else bgSelf
  { color with fgColor := fgSelf, bgColor := bgSelf }

end ColorState

structure DisplayState where
  size : Nat × Nat
  charBuffer : List Character

/-- `DisplayState::new`: the buffer has a cell for each byte of the cells that
are needed. -/
def DisplayState.new (size : Nat × Nat) : DisplayState :=
  ⟨size, List.replicate (size.1 * size.2 * CHARACTER_SIZE) ⟨' ', .WHITE, .BLACK⟩⟩

/-- The terminal. `accessed` are the indices into the character buffer that were
computed so far; the source has no such field. -/
structure Terminal where
  display : DisplayState
  cursor : CursorState
  color : ColorState
  accessed : List Nat

namespace Terminal

def new (size : Nat × Nat) : Terminal := ⟨.new size, .new, .new, []⟩

variable (profile : BuildProfile) (self : Terminal)

def setPos (pos : Nat × Nat) : Terminal :=
  { self with cursor := { self.cursor with pos } }

def access (index : Nat) : Terminal :=
  { self with accessed := index :: self.accessed }

/-- `cursor.pos.1 * display.size.0`: the first cell of the cursor's row. -/
def rowIndex : Except Panic (Nat × Terminal) := do
  let index ← profile.unsigned 16 (self.cursor.pos.2 * self.display.size.1)
  return (index, self.access index)

/-- `cursor.pos.1 * display.size.0 + cursor.pos.0`: the cell under the cursor. -/
def cursorIndex : Except Panic (Nat × Terminal) := do
  let row ← profile.unsigned 16 (self.cursor.pos.2 * self.display.size.1)
  let index ← profile.unsigned 16 (row + self.cursor.pos.1)
  return (index, self.access index)

def setCell (index : Nat) (character : Character) : Except Panic Terminal :=
  if index < self.display.charBuffer.length then
    .ok { self.access index with
      display := { self.display with charBuffer := self.display.charBuffer.set index character } }
  else .error .sliceIndex

def getCell (index : Nat) : Except Panic Character :=
  match self.display.charBuffer[index]? with
  | some character => .ok character
  | none => .error .sliceIndex

/-- The loops over the character buffer that give all cells of a region the same
value and the current colors. -/
def fill (region : Nat → Bool) (value : Char) : Terminal :=
  { self with display := { self.display with
      charBuffer := self.display.charBuffer.mapIdx fun index item =>
        if region index then ⟨value, self.color.fgColor, self.color.bgColor⟩ else item } }

/-- `scroll_up`: all rows but the first move up, and the buffer is cleared from
the last row on. -/
def scrollUp : Terminal :=
  let columns := self.display.size.1
  let skip := columns * (self.display.size.2 - 1)
  let buffer := self.display.charBuffer
  let moved := (buffer.drop columns).take skip ++ buffer.drop skip
  { self with display := { self.display with charBuffer := moved } }.fill (skip ≤ ·) NUL

/-- The loop of `position`. A screen without rows is not modelled. -/
def scrollInto : Nat → Terminal → Terminal
  | 0, self => self
  | row + 1, self =>
    if row + 1 ≥ self.display.size.2 then
      scrollInto row ((self.setPos (self.cursor.pos.1, row)).scrollUp)
    else self

def position (pos : Nat × Nat) : Terminal :=
  let pos := if pos.2 = 0 then (pos.1, 1) else pos
  scrollInto pos.2 (self.setPos pos)

def handleTab : Except Panic Terminal := do
  let column ← profile.unsigned 16 (self.cursor.pos.1 + TAB_SPACES)
  if column ≥ self.display.size.1 then
    let row ← profile.unsigned 16 (self.cursor.pos.2 + 1)
    return self.position (0, row)
  else return self.position (column / TAB_SPACES * TAB_SPACES, self.cursor.pos.2)

def clearScreen : Terminal := self.fill (fun _ => true) NUL

def clearScreenToCursor : Except Panic Terminal := do
  let (index, self) ← self.cursorIndex profile
  return self.fill (· < index) NUL

def clearScreenFromCursor : Except Panic Terminal := do
  let _ ← profile.unsignedSub 16 self.display.size.1 self.cursor.pos.1
  let _ ← profile.unsigned 16 (self.cursor.pos.2 + 1)
  let below ← profile.unsignedSub 16 self.display.size.2 self.cursor.pos.2
  let _ ← profile.unsignedSub 16 below 1
  let (index, self) ← self.cursorIndex profile
  return self.fill (index ≤ ·) NUL

/-- `clear_line`, which leaves an `a` in every cell. -/
def clearLine : Except Panic Terminal := do
  let (index, self) ← self.rowIndex profile
  return self.fill (fun i => index ≤ i ∧ i < index + self.display.size.1) 'a'

def clearLineToCursor : Except Panic Terminal := do
  let (index, self) ← self.rowIndex profile
  return self.fill (fun i => index ≤ i ∧ i < index + self.cursor.pos.1) NUL

def clearLineFromCursor : Except Panic Terminal := do
  let count ← profile.unsignedSub 16 self.display.size.1 self.cursor.pos.1
  let (index, self) ← self.cursorIndex profile
  return self.fill (fun i => index ≤ i ∧ i < index + count) NUL

def clear : Terminal := self.clearScreen.position (0, 0)

variable (graphics : Graphics)

/-- The width of the glyph that `print_char_at` draws. -/
def printCharAt (c : Char) : Nat :=
  match graphics.getGlyph c with
  | some glyph => glyph.width
  | none => 0

/-- `Null out following, if glyph is larger than one column`. -/
def nullOut (profile : BuildProfile) (index : Nat) :
    List Nat → Terminal → Except Panic Terminal
  | [], self => .ok self
  | i :: rest, self => do
    let column ← profile.unsigned 16 (self.cursor.pos.1 + i)
    if column ≥ self.display.size.1 then return self
    else
      let self ← self.setCell (index + i) ⟨NUL, .INVISIBLE, .INVISIBLE⟩
      nullOut profile index rest self

/-- `print_char` for a newline. -/
def printNewline : Except Panic Terminal := do
  let self ← self.clearLineFromCursor profile
  let row ← profile.unsigned 16 (self.cursor.pos.2 + 1)
  return self.setPos (0, row)

/-- `print_char` for a backspace. The old character is only drawn again. -/
def printBackspace : Except Panic Terminal := do
  let (oldIndex, self) ← self.cursorIndex profile
  let _ ← self.getCell oldIndex
  let column ← profile.unsignedSub 16 self.cursor.pos.1 1
  let (newIndex, self) ← (self.setPos (column, self.cursor.pos.2)).cursorIndex profile
  self.setCell newIndex ⟨' ', self.color.fgColor, self.color.bgColor⟩

/-- `print_char` for any other character. -/
def printGlyph (profile : BuildProfile) (self : Terminal) (c : Char) : Except Panic Terminal :=
  let charWidth := printCharAt graphics c
  if charWidth > 0 then do
    let (index, self) ← self.cursorIndex profile
    let charColumns := charWidth / DEFAULT_CHAR_WIDTH +
      if charWidth % DEFAULT_CHAR_WIDTH = 0 then 0 else 1
    let self ← self.setCell index ⟨c, self.color.fgColor, self.color.bgColor⟩
    let self ← nullOut profile index (List.range' 1 (charColumns - 1)) self
    let column ← profile.unsigned 16 (self.cursor.pos.1 + charColumns)
    if column ≥ self.display.size.1 then
      let row ← profile.unsigned 16 (self.cursor.pos.2 + 1)
      return self.position (0, row)
    else return self.setPos (column, self.cursor.pos.2)
  else .ok self

/-- The end of `print_char`: first the column, then the row is brought back. -/
def wrapColumn : Except Panic Terminal :=
  if self.cursor.pos.1 ≥ self.display.size.1 then do
    let row ← profile.unsigned 16 (self.cursor.pos.2 + 1)
    return self.setPos (0, row)
  else .ok self

def wrapRow : Except Panic Terminal :=
  if self.cursor.pos.2 ≥ self.display.size.2 then do
    let self := self.scrollUp
    let row ← profile.unsignedSub 16 self.display.size.2 1
    return self.setPos (0, row)
  else .ok self

def printBranch (profile : BuildProfile) (self : Terminal) (c : Char) : Except Panic Terminal :=
  if c = '\n' then self.printNewline profile
  else if c = BACKSPACE then self.printBackspace profile
  else self.printGlyph graphics profile c

def printChar (profile : BuildProfile) (self : Terminal) (c : Char) :
    Except Panic Terminal := do
  let self ← self.printBranch graphics profile c
  let self ← self.wrapColumn profile
  self.wrapRow profile

/-- The distance of a relative movement; 0 counts as 1. -/
def distance (param : Nat) : Nat := if param = 0 then 1 else param

/-- `handle_ansi_cursor_sequence`. The tests for a negative row or column are
tests for 0 here, as in the source. -/
def handleAnsiCursorSequence (code : Nat) (params : List Nat) : Except Panic Terminal :=
  let column := self.cursor.pos.1
  let row := self.cursor.pos.2
  let columns := self.display.size.1
  let rows := self.display.size.2
  match code, params with
  | 0x41, param :: _ => do
    let row ← profile.unsignedSub 16 row (distance param)
    return self.position (column, if row > 0 then row else 0)
  | 0x42, param :: _ => do
    let row ← profile.unsigned 16 (row + distance param)
    return self.position (column, if row < rows then row else rows - 1)
  | 0x43, param :: _ => do
    let column ← profile.unsigned 16 (column + distance param)
    return self.position (if column < columns then column else columns - 1, row)
  | 0x44, param :: _ => do
    let column ← profile.unsignedSub 16 column (distance param)
    return self.position (if column > 0 then column else 0, row)
  | 0x45, param :: _ => do
    let row ← profile.unsigned 16 (row + param)
    let row ← profile.unsigned 16 (row + 1)
    return self.position (0, if row < rows then row else rows - 1)
  | 0x46, param :: _ => do
    let row ← profile.unsignedSub 16 row param
    let row ← profile.unsignedSub 16 row 1
    return self.position (0, if row > 0 then row else 0)
  | 0x47, column :: _ =>
    .ok (self.position (if column < columns then column else columns - 1, row))
  | 0x48, column :: row :: _ | 0x66, column :: row :: _ =>
    .ok (self.position (if column > columns then columns - 1 else column,
      if row > rows then rows - 1 else row))
  | 0x48, _ | 0x66, _ => .ok (self.position (0, 0))
  | 0x73, _ => .ok { self with cursor := { self.cursor with savedPos := self.cursor.pos } }
  | 0x75, _ => .ok (self.position self.cursor.savedPos)
  | _, _ => .ok self

def handleAnsiEraseSequence (code : Nat) (params : List Nat) : Except Panic Terminal :=
  match code, params.headD 0 with
  | 0x4a, 0 => self.clearScreenFromCursor profile
  | 0x4a, 1 => self.clearScreenToCursor profile
  | 0x4a, 2 => .ok (self.clearScreen.position (0, 0))
  | 0x4b, 0 => self.clearLineFromCursor profile
  | 0x4b, 1 => self.clearLineToCursor profile
  | 0x4b, 2 => self.clearLine profile
  | _, _ => .ok self

end Terminal

/-- What the parser delivers, and the cursor thread between two bytes. -/
inductive Event where
  | print (c : Char)
  | execute (byte : Nat)
  | csiDispatch (params : List Nat) (action : Nat)
  | blink

namespace Terminal

variable (graphics : Graphics) (profile : BuildProfile) (self : Terminal)

def execute (byte : Nat) : Except Panic Terminal :=
  match byte with
  | 0x08 => self.printChar graphics profile BACKSPACE
  | 0x09 => self.handleTab profile
  | 0x0a => self.printChar graphics profile '\n'
  | _ => .ok self

def csiDispatch (params : List Nat) (action : Nat) : Except Panic Terminal :=
  if 0x41 ≤ action ∧ action ≤ 0x48 ∨ action = 0x66 ∨ action = 0x6e ∨ action = 0x73 ∨
      action = 0x75 then self.handleAnsiCursorSequence profile action params
  else if action = 0x4a ∨ action = 0x4b then self.handleAnsiEraseSequence profile action params
  else if action = 0x6d then
    .ok { self with color := self.color.handleAnsiColor graphics params }
  else .ok self

/-- `CursorThread::run`, which reads the cell under the cursor. -/
def blink : Except Panic Terminal := do
  let (index, self) ← self.cursorIndex profile
  let _ ← self.getCell index
  return self

def step :
    Event → Except Panic Terminal
  | .print c => self.printChar graphics profile c
  | .execute byte => self.execute graphics profile byte
  | .csiDispatch params action => self.csiDispatch graphics profile params action
  | .blink => self.blink profile

def run (events : List Event) : Except Panic Terminal :=
  events.foldlM (step graphics profile) self

end Terminal

/-- What the parser delivers for a character of a text. -/
def Event.ofChar (c : Char) : Event := if c = '\n' then .execute 0x0a else .print c

end D3OS.Device.LfbTerminal
