import EarlnuxOS.Foundation.Run
import EarlnuxOS.Types
import Mathlib.Data.UInt

/-!
# The text console

The cursor and the screen buffer of `kernel/console.c`.  The cursor stays on the
screen, and a character goes into the cursor's own row, as long as no tab is
printed in the last eight columns: the tab is the one character whose branch
never compares the column with the width.
-/

namespace EarlnuxOS
namespace Drivers

open Foundation

/-!
# The driver
-/

def vgaCols : Nat := 80

def vgaRows : Nat := 25

/-- A write to `vga_buffer`: a character's, or one of a whole screen's. -/
inductive CellWrite where
  | entry (row : UInt8) (index : Nat)
  | repaint (index : Nat)
deriving DecidableEq

/--
The static variables and the position in the cursor ports.  `writes` records
every write to `vga_buffer`.
-/
structure Console where
  vgaBuffer : Nat -> UInt16
  vgaColor : UInt8
  consoleRow : UInt8
  consoleCol : UInt8
  cursorPos : UInt16
  writes : List CellWrite

/-- `(uint16_t)c | (uint16_t)color << 8`; `char` is signed. -/
def vgaEntry (c color : UInt8) : UInt16 :=
  c.toInt8.toInt16.toUInt16 ||| (color.toUInt16 <<< 8)

namespace Console

def setCell (s : Console) (index : Nat) (cell : UInt16) : Console :=
  { s with vgaBuffer := fun i => if i = index then cell else s.vgaBuffer i }

/-- A cell written by `console_clear` or `console_scroll`. -/
def repaintCell (s : Console) (index : Nat) (cell : UInt16) : Console :=
  { s.setCell index cell with writes := s.writes ++ [CellWrite.repaint index] }

def consolePutCursor (s : Console) : Console :=
  { s with
    cursorPos := UInt16.ofNat
      (s.consoleRow.toNat * vgaCols + s.consoleCol.toNat) }

/-- `for (row = first; row < first + rows; row++) for (col ...)` -/
def eachCell (s : Console) (first rows : Nat)
    (body : Console -> Nat -> Nat -> Console) : Console :=
  (List.range' first rows).foldl
    (fun s row => (List.range vgaCols).foldl (fun s col => body s row col) s) s

/-- Every row from the second one copied to the row above it. -/
def copyRowsUp (s : Console) : Console :=
  s.eachCell 1 (vgaRows - 1) fun s row col =>
    s.repaintCell ((row - 1) * vgaCols + col)
      (s.vgaBuffer (row * vgaCols + col))

def blankRows (s : Console) (first rows : Nat) : Console :=
  s.eachCell first rows fun s row col =>
    s.repaintCell (row * vgaCols + col) (vgaEntry 0x20 s.vgaColor)

def consoleClear (s : Console) : Console :=
  consolePutCursor
    { s.blankRows 0 vgaRows with
      consoleRow := 0
      consoleCol := 0 }

def consolePutEntryAt (s : Console) (c color row col : UInt8) : Console :=
  let index := row.toNat * vgaCols + col.toNat
  { s.setCell index (vgaEntry c color) with
    writes := s.writes ++ [CellWrite.entry row index] }

def consoleScroll (s : Console) : Console :=
  consolePutCursor
    { s.copyRowsUp.blankRows (vgaRows - 1) 1 with consoleRow := 24 }

/-- The branches of `console_putchar_color`. -/
def putcharBranch (s : Console) (c attr : UInt8) : Console :=
  if c = 0x0A then
    { s with
      consoleCol := 0
      consoleRow := s.consoleRow + 1 }
  else if c = 0x0D then
    { s with consoleCol := 0 }
  else if c = 0x09 then
    { s with consoleCol := (s.consoleCol + 8) &&& ~~~7 }
  else if c = 0x08 then
    if 0 < s.consoleCol then
      let s := { s with consoleCol := s.consoleCol - 1 }
      s.consolePutEntryAt 0x20 attr s.consoleRow s.consoleCol
    else s
  else
    let s := s.consolePutEntryAt c attr s.consoleRow s.consoleCol
    let s := { s with consoleCol := s.consoleCol + 1 }
    if vgaCols ≤ s.consoleCol.toNat then
      { s with
        consoleCol := 0
        consoleRow := s.consoleRow + 1 }
    else s

def consolePutcharColor (s : Console) (c attr : UInt8) : Console :=
  let s := s.putcharBranch c attr
  let s := if vgaRows ≤ s.consoleRow.toNat then s.consoleScroll else s
  s.consolePutCursor

def consolePutchar (s : Console) (c : UInt8) : Console :=
  s.consolePutcharColor c s.vgaColor

def consoleSetColor (s : Console) (attr : UInt8) : Console :=
  { s with vgaColor := attr }

def consoleSetCursor (s : Console) (row col : UInt8) : Console :=
  if row.toNat < vgaRows ∧ col.toNat < vgaCols then
    consolePutCursor
      { s with
        consoleRow := row
        consoleCol := col }
  else s

end Console

inductive ConsoleOp where
  | putchar (c : UInt8)
  | putcharColor (c attr : UInt8)
  | setColor (attr : UInt8)
  | setCursor (row col : UInt8)
  | clear

namespace Console

def exec (s : Console) : ConsoleOp -> Console
  | ConsoleOp.putchar c => s.consolePutchar c
  | ConsoleOp.putcharColor c attr => s.consolePutcharColor c attr
  | ConsoleOp.setColor attr => s.consoleSetColor attr
  | ConsoleOp.setCursor row col => s.consoleSetCursor row col
  | ConsoleOp.clear => s.consoleClear

/-- Before the first call, with any screen and any color. -/
def boot (vgaBuffer : Nat -> UInt16) (vgaColor : UInt8) : Console where
  vgaBuffer := vgaBuffer
  vgaColor := vgaColor
  consoleRow := 0
  consoleCol := 0
  cursorPos := 0
  writes := []

/-!
# What is promised
-/

/-- The cell is on the screen, and a character's in the cursor's own row. -/
def GoodWrite : CellWrite -> Prop
  | CellWrite.entry row index =>
      index < vgaRows * vgaCols ∧ index / vgaCols = row.toNat
  | CellWrite.repaint index => index < vgaRows * vgaCols

structure OnScreen (s : Console) : Prop where
  row : s.consoleRow.toNat < vgaRows
  col : s.consoleCol.toNat < vgaCols
  writes : forall w, w ∈ s.writes -> GoodWrite w

/-- A tab is not printed in the last eight columns. -/
def NoWideTab (s : Console) : ConsoleOp -> Prop
  | ConsoleOp.putchar c => c = 0x09 -> s.consoleCol.toNat < 72
  | ConsoleOp.putcharColor c _ => c = 0x09 -> s.consoleCol.toNat < 72
  | _ => True

/-!
# Painting the screen
-/

/-- Only cells on the screen have been painted. -/
structure Painted (s s' : Console) : Prop where
  row : s'.consoleRow = s.consoleRow
  col : s'.consoleCol = s.consoleCol
  writes : (forall w, w ∈ s.writes -> GoodWrite w) ->
    forall w, w ∈ s'.writes -> GoodWrite w

theorem Painted.refl (s : Console) : Painted s s :=
  ⟨rfl, rfl, fun h => h⟩

theorem Painted.trans {s s' s'' : Console} (h : Painted s s')
    (h' : Painted s' s'') : Painted s s'' :=
  ⟨h'.row.trans h.row, h'.col.trans h.col, fun hw => h'.writes (h.writes hw)⟩

theorem painted_foldl {step : Console -> Nat -> Console} {l : List Nat}
    (hstep : forall s x, x ∈ l -> Painted s (step s x)) (s : Console) :
    Painted s (l.foldl step s) := by
  induction l generalizing s with
  | nil => exact Painted.refl s
  | cons x l ih =>
      have hrest := ih (fun s y hy => hstep s y (List.mem_cons_of_mem x hy))
      exact (hstep s x List.mem_cons_self).trans (hrest (step s x))

theorem painted_repaintCell (s : Console) {index : Nat} (cell : UInt16)
    (h : index < vgaRows * vgaCols) : Painted s (s.repaintCell index cell) := by
  refine ⟨rfl, rfl, fun hw w hmem => ?_⟩
  rcases List.mem_append.mp hmem with hold | hnew
  · exact hw w hold
  · rw [List.mem_singleton.mp hnew]
    exact h

theorem painted_eachCell (s : Console) {first rows : Nat}
    {body : Console -> Nat -> Nat -> Console}
    (hbody : forall s row col, first ≤ row -> row < first + rows ->
      col < vgaCols -> Painted s (body s row col)) :
    Painted s (s.eachCell first rows body) := by
  apply painted_foldl
  intro s row hrow
  apply painted_foldl
  intro s col hcol
  have hrange := List.mem_range'_1.mp hrow
  exact hbody s row col hrange.left hrange.right (List.mem_range.mp hcol)

theorem painted_copyRowsUp (s : Console) : Painted s s.copyRowsUp := by
  apply painted_eachCell
  intro s row col hfirst hlast hcol
  apply painted_repaintCell
  unfold vgaRows at hlast
  unfold vgaCols at hcol
  unfold vgaRows vgaCols
  omega

theorem painted_blankRows (s : Console) {first rows : Nat}
    (hrows : first + rows ≤ vgaRows) : Painted s (s.blankRows first rows) := by
  apply painted_eachCell
  intro s row col _ hlast hcol
  apply painted_repaintCell
  unfold vgaRows at hrows
  unfold vgaCols at hcol
  unfold vgaRows vgaCols
  omega

theorem painted_scrolled (s : Console) :
    Painted s (s.copyRowsUp.blankRows (vgaRows - 1) 1) :=
  (painted_copyRowsUp s).trans (painted_blankRows s.copyRowsUp (by decide))

theorem consoleScroll_row (s : Console) : s.consoleScroll.consoleRow = 24 :=
  rfl

theorem consoleScroll_col (s : Console) :
    s.consoleScroll.consoleCol = s.consoleCol := by
  rw [← (painted_scrolled s).col, consoleScroll, consolePutCursor]

theorem consoleScroll_writes {s : Console}
    (h : forall w, w ∈ s.writes -> GoodWrite w) :
    forall w, w ∈ s.consoleScroll.writes -> GoodWrite w := by
  rw [consoleScroll, consolePutCursor]
  exact (painted_scrolled s).writes h

theorem OnScreen.consoleClear {s : Console} (h : OnScreen s) :
    OnScreen s.consoleClear := by
  have hpaint : Painted s (s.blankRows 0 vgaRows) :=
    painted_blankRows s (by decide)
  have hwrites := hpaint.writes h.writes
  rw [Console.consoleClear, consolePutCursor]
  refine ⟨?_, ?_, hwrites⟩
  · show (0 : UInt8).toNat < vgaRows
    decide
  · show (0 : UInt8).toNat < vgaCols
    decide

/-!
# One character
-/

/-- The column is right, and the row at most one too far. -/
structure NearScreen (s : Console) : Prop where
  row : s.consoleRow.toNat ≤ vgaRows
  col : s.consoleCol.toNat < vgaCols
  writes : forall w, w ∈ s.writes -> GoodWrite w

theorem OnScreen.consolePutCursor {s : Console} (h : OnScreen s) :
    OnScreen s.consolePutCursor :=
  ⟨h.row, h.col, h.writes⟩

theorem NearScreen.scroll {s : Console} (h : NearScreen s) :
    OnScreen (if vgaRows ≤ s.consoleRow.toNat then s.consoleScroll else s) := by
  split
  · refine ⟨?_, ?_, consoleScroll_writes h.writes⟩
    · rw [consoleScroll_row]
      decide
    · rw [consoleScroll_col]
      exact h.col
  · rename_i hrow
    exact ⟨Nat.not_le.mp hrow, h.col, h.writes⟩

theorem toNat_add_one {x : UInt8} {n : Nat} (h : x.toNat < n)
    (hn : n < 2 ^ 8) : (x + 1).toNat = x.toNat + 1 := by
  rw [UInt8.toNat_add]
  exact Nat.mod_eq_of_lt (show x.toNat + 1 < 2 ^ 8 by omega)

theorem toNat_tab (x : UInt8) :
    ((x + 8) &&& ~~~7).toNat = (x.toNat + 8) % 256 / 8 * 8 := by
  have hmask : (~~~7 : UInt8).toNat = 2 ^ 8 - 2 ^ 3 := by decide
  have hsum : (x + 8).toNat = (x.toNat + 8) % 256 := UInt8.toNat_add x 8
  rw [UInt8.toNat_and, hmask, and_high_bits (x + 8).toNat_lt (by decide), hsum]
  rfl

theorem goodWrite_entry {row col : UInt8} (hrow : row.toNat < vgaRows)
    (hcol : col.toNat < vgaCols) :
    GoodWrite (CellWrite.entry row (row.toNat * vgaCols + col.toNat)) := by
  unfold vgaRows at hrow
  unfold vgaCols at hcol
  unfold GoodWrite vgaRows vgaCols
  omega

theorem good_consolePutEntryAt {s : Console} (c color : UInt8)
    {row col : UInt8} (hs : forall w, w ∈ s.writes -> GoodWrite w)
    (hrow : row.toNat < vgaRows) (hcol : col.toNat < vgaCols) :
    forall w, w ∈ (s.consolePutEntryAt c color row col).writes ->
      GoodWrite w := by
  intro w hw
  rcases List.mem_append.mp hw with hold | hnew
  · exact hs w hold
  · rw [List.mem_singleton.mp hnew]
    exact goodWrite_entry hrow hcol

theorem OnScreen.putcharBranch {s : Console} (h : OnScreen s) (c attr : UInt8)
    (htab : c = 0x09 -> s.consoleCol.toNat < 72) :
    NearScreen (s.putcharBranch c attr) := by
  have hrow := h.row
  have hcol := h.col
  have hnext := toNat_add_one h.row (by decide)
  have hzero : (0 : UInt8).toNat < vgaCols := by decide
  unfold Console.putcharBranch
  split
  · exact ⟨by show (s.consoleRow + 1).toNat ≤ vgaRows; omega, hzero, h.writes⟩
  split
  · exact ⟨Nat.le_of_lt h.row, hzero, h.writes⟩
  split
  · rename_i hc
    refine ⟨Nat.le_of_lt h.row, ?_, h.writes⟩
    have hlt := htab hc
    show ((s.consoleCol + 8) &&& ~~~7).toNat < vgaCols
    rw [toNat_tab]
    unfold vgaCols
    omega
  split
  · split
    · rename_i hpos
      have hone : 1 ≤ s.consoleCol.toNat := UInt8.lt_iff_toNat_lt.mp hpos
      have hprev : (s.consoleCol - 1).toNat = s.consoleCol.toNat - 1 :=
        UInt8.toNat_sub_of_le _ _ (UInt8.le_iff_toNat_le.mpr hone)
      have hback : (s.consoleCol - 1).toNat < vgaCols := by omega
      exact ⟨Nat.le_of_lt h.row, hback,
        good_consolePutEntryAt _ _ h.writes h.row hback⟩
    · exact ⟨Nat.le_of_lt h.row, h.col, h.writes⟩
  · have hwrites := good_consolePutEntryAt c attr h.writes h.row h.col
    dsimp only
    split
    · exact ⟨by show (s.consoleRow + 1).toNat ≤ vgaRows; omega, hzero, hwrites⟩
    · rename_i hwide
      exact ⟨Nat.le_of_lt h.row, Nat.not_le.mp hwide, hwrites⟩

theorem OnScreen.putcharColor {s : Console} (h : OnScreen s) (c attr : UInt8)
    (htab : c = 0x09 -> s.consoleCol.toNat < 72) :
    OnScreen (s.consolePutcharColor c attr) :=
  (h.putcharBranch c attr htab).scroll.consolePutCursor

/-- A tab in the last eight columns leaves the cursor beside the screen. -/
theorem OnScreen.col_of_tab {s : Console} (h : OnScreen s) (attr : UInt8)
    (hwide : 72 ≤ s.consoleCol.toNat) :
    (s.consolePutcharColor 0x09 attr).consoleCol.toNat = 80 := by
  have hcol : s.consoleCol.toNat < 80 := h.col
  have hrow : ¬ vgaRows ≤ s.consoleRow.toNat := Nat.not_le.mpr h.row
  have hbranch : s.putcharBranch 0x09 attr =
      { s with consoleCol := (s.consoleCol + 8) &&& ~~~7 } := rfl
  unfold consolePutcharColor
  rw [hbranch]
  dsimp only
  rw [if_neg hrow]
  show ((s.consoleCol + 8) &&& ~~~7).toNat = 80
  rw [toNat_tab]
  omega

/-!
# Runs
-/

theorem putcharColor_iff {s : Console} (h : OnScreen s) (c attr : UInt8) :
    (c = 0x09 -> s.consoleCol.toNat < 72) <->
      OnScreen (s.consolePutcharColor c attr) := by
  constructor
  · exact h.putcharColor c attr
  · intro hnext hc
    by_contra hwide
    have hcol := hnext.col
    rw [hc, h.col_of_tab attr (Nat.not_lt.mp hwide)] at hcol
    exact absurd hcol (by decide)

theorem exec_iff {s : Console} (o : ConsoleOp) (h : OnScreen s) :
    NoWideTab s o <-> OnScreen (s.exec o) := by
  cases o with
  | putchar c => exact putcharColor_iff h c s.vgaColor
  | putcharColor c attr => exact putcharColor_iff h c attr
  | setColor attr => exact iff_of_true trivial ⟨h.row, h.col, h.writes⟩
  | setCursor row col =>
      refine iff_of_true trivial ?_
      show OnScreen (s.consoleSetCursor row col)
      unfold consoleSetCursor
      split
      · rename_i hin
        exact ⟨hin.left, hin.right, h.writes⟩
      · exact h
  | clear => exact iff_of_true trivial h.consoleClear

theorem onScreen_boot (vgaBuffer : Nat -> UInt16) (vgaColor : UInt8) :
    OnScreen (boot vgaBuffer vgaColor) where
  row := show (0 : UInt8).toNat < vgaRows by decide
  col := show (0 : UInt8).toNat < vgaCols by decide
  writes := fun _ h => by cases h

/--
The cursor and every write stay on the screen all along a run exactly when no
call of it prints a tab in the last eight columns.
-/
theorem console_onScreen_iff (vgaBuffer : Nat -> UInt16) (vgaColor : UInt8)
    (ops : List ConsoleOp) :
    (forall first, first <+: ops ->
      OnScreen (run exec (boot vgaBuffer vgaColor) first)) <->
        Meets exec NoWideTab (boot vgaBuffer vgaColor) ops :=
  (meets_iff_always (fun _ o h => exec_iff o h)
    (onScreen_boot vgaBuffer vgaColor) ops).symm

/-- A tab at column 72, and the character behind it. -/
theorem tab_leaves_screen :
    ¬ forall ops first : List ConsoleOp, first <+: ops ->
      OnScreen (run exec (boot (fun _ => 0) 7) first) := by
  intro hall
  have hrun := hall
    [ConsoleOp.setCursor 0 72, ConsoleOp.putchar 0x09, ConsoleOp.putchar 0x41]
    [ConsoleOp.setCursor 0 72, ConsoleOp.putchar 0x09] ⟨[_], rfl⟩
  exact absurd hrun.col (by decide)

end Console
end Drivers
end EarlnuxOS
