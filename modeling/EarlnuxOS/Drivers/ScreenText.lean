import EarlnuxOS.Drivers.Console
import EarlnuxOS.Foundation.TextLines

/-!
# What the screen shows

The screen is a window onto the lines of everything that has been printed.
Wrapping, newlines and scrolling keep it at the last 25 of them.
-/

namespace EarlnuxOS
namespace Drivers

open Foundation

def glyph (cell : UInt16) : UInt8 :=
  cell.toUInt8

theorem glyph_vgaEntry (c color : UInt8) : glyph (vgaEntry c color) = c := by
  have hchar : c.toInt8.toInt16.toUInt16.toUInt8 = c := by
    apply UInt8.toBitVec_inj.mp
    show (c.toBitVec.signExtend 16).setWidth 8 = c.toBitVec
    ext i hi
    rw [BitVec.getElem_setWidth, BitVec.getLsbD_signExtend, if_pos hi]
    simp [BitVec.getLsbD_eq_getElem hi]
    omega
  have hcolor : (color.toUInt16 <<< 8).toUInt8 = 0 := by
    apply UInt8.toNat_inj.mp
    rw [UInt16.toNat_toUInt8, UInt16.toNat_shiftLeft, UInt8.toNat_toUInt16,
      Nat.shiftLeft_eq]
    show color.toNat * 2 ^ 8 % 2 ^ 16 % 2 ^ 8 = 0
    omega
  unfold glyph vgaEntry
  rw [UInt16.toUInt8_or, hchar, hcolor, UInt8.or_zero]

namespace Console

/-!
# Painting
-/

theorem eachCell_eq (s : Console) (first rows : Nat)
    (body : Console -> Nat -> Nat -> Console) :
    s.eachCell first rows body =
      (List.range (rows * vgaCols)).foldl
        (fun s j => body s (first + j / vgaCols) (j % vgaCols)) s := by
  have hpos : 0 < vgaCols := by decide
  induction rows with
  | zero =>
      rw [Nat.zero_mul]
      rfl
  | succ rows ih =>
      unfold eachCell at ih ⊢
      rw [List.range'_concat, List.foldl_append, ih, Nat.add_mul rows 1,
        Nat.one_mul vgaCols, List.range_add, List.foldl_append, List.foldl_cons,
        List.foldl_nil, List.foldl_map, Nat.one_mul rows]
      apply List.foldl_ext
      intro s' col hcol
      have hlt := List.mem_range.mp hcol
      have hrow : (rows * vgaCols + col) / vgaCols = rows := by
        rw [Nat.add_comm, Nat.add_mul_div_right _ _ hpos, Nat.div_eq_of_lt hlt,
          Nat.zero_add]
      have hmod : (rows * vgaCols + col) % vgaCols = col := by
        rw [Nat.add_comm, Nat.add_mul_mod_self_right, Nat.mod_eq_of_lt hlt]
      rw [hrow, hmod]

theorem repaintCell_apply (s : Console) (index : Nat) (cell : UInt16)
    (i : Nat) :
    (s.repaintCell index cell).vgaBuffer i =
      if i = index then cell else s.vgaBuffer i := rfl

theorem foldl_shift (s : Console) (d n : Nat) (hd : 0 < d) :
    ((List.range n).foldl
        (fun s j => s.repaintCell j (s.vgaBuffer (j + d))) s).vgaColor =
      s.vgaColor ∧
    forall i, ((List.range n).foldl
        (fun s j => s.repaintCell j (s.vgaBuffer (j + d))) s).vgaBuffer i =
      if i < n then s.vgaBuffer (i + d) else s.vgaBuffer i := by
  induction n with
  | zero => exact ⟨rfl, fun i => rfl⟩
  | succ n ih =>
      rw [List.range_succ, List.foldl_append, List.foldl_cons, List.foldl_nil]
      refine ⟨ih.left, fun i => ?_⟩
      rw [repaintCell_apply, ih.right, ih.right]
      by_cases heq : i = n
      · rw [if_pos heq, if_neg (by omega), if_pos (by omega), heq]
      · rw [if_neg heq]
        by_cases hlt : i < n
        · rw [if_pos hlt, if_pos (by omega)]
        · rw [if_neg hlt, if_neg (by omega)]

theorem foldl_blank (s : Console) (start n : Nat) :
    ((List.range n).foldl
        (fun s j => s.repaintCell (start + j) (vgaEntry 0x20 s.vgaColor))
          s).vgaColor = s.vgaColor ∧
    forall i, ((List.range n).foldl
        (fun s j => s.repaintCell (start + j) (vgaEntry 0x20 s.vgaColor))
          s).vgaBuffer i =
      if start ≤ i ∧ i < start + n then vgaEntry 0x20 s.vgaColor
      else s.vgaBuffer i := by
  induction n with
  | zero =>
      refine ⟨rfl, fun i => ?_⟩
      rw [if_neg (by omega)]
      rfl
  | succ n ih =>
      rw [List.range_succ, List.foldl_append, List.foldl_cons, List.foldl_nil]
      refine ⟨ih.left, fun i => ?_⟩
      rw [repaintCell_apply, ih.left, ih.right]
      by_cases heq : i = start + n
      · rw [if_pos heq, if_pos (by omega)]
      · rw [if_neg heq]
        by_cases hin : start ≤ i ∧ i < start + n
        · rw [if_pos hin, if_pos (by omega)]
        · rw [if_neg hin, if_neg (by omega)]

theorem copyRowsUp_eq (s : Console) :
    s.copyRowsUp =
      (List.range ((vgaRows - 1) * vgaCols)).foldl
        (fun s j => s.repaintCell j (s.vgaBuffer (j + vgaCols))) s := by
  unfold copyRowsUp
  rw [eachCell_eq]
  apply List.foldl_ext
  intro s' j _
  have hfrom : (1 + j / vgaCols) * vgaCols + j % vgaCols = j + vgaCols := by
    unfold vgaCols
    omega
  have hto : (1 + j / vgaCols - 1) * vgaCols + j % vgaCols = j := by
    unfold vgaCols
    omega
  rw [hfrom, hto]

theorem blankRows_eq (s : Console) (first rows : Nat) :
    s.blankRows first rows =
      (List.range (rows * vgaCols)).foldl
        (fun s j => s.repaintCell (first * vgaCols + j)
          (vgaEntry 0x20 s.vgaColor)) s := by
  unfold blankRows
  rw [eachCell_eq]
  apply List.foldl_ext
  intro s' j _
  have hto : (first + j / vgaCols) * vgaCols + j % vgaCols =
      first * vgaCols + j := by
    unfold vgaCols
    omega
  rw [hto]

theorem glyph_blankRows (s : Console) (first rows i : Nat) :
    glyph ((s.blankRows first rows).vgaBuffer i) =
      if first * vgaCols ≤ i ∧ i < first * vgaCols + rows * vgaCols then 0x20
      else glyph (s.vgaBuffer i) := by
  rw [blankRows_eq, (foldl_blank s (first * vgaCols) (rows * vgaCols)).right]
  split
  · exact glyph_vgaEntry 0x20 s.vgaColor
  · rfl

theorem glyph_consoleScroll (s : Console) {row col : Nat}
    (hrow : row < vgaRows) (hcol : col < vgaCols) :
    glyph (s.consoleScroll.vgaBuffer (row * vgaCols + col)) =
      if row + 1 < vgaRows then
        glyph (s.vgaBuffer ((row + 1) * vgaCols + col))
      else 0x20 := by
  have hup := (foldl_shift s vgaCols ((vgaRows - 1) * vgaCols) (by decide)).right
    (row * vgaCols + col)
  rw [← copyRowsUp_eq] at hup
  show glyph ((s.copyRowsUp.blankRows (vgaRows - 1) 1).vgaBuffer
    (row * vgaCols + col)) = _
  rw [glyph_blankRows, hup]
  unfold vgaRows at hrow ⊢
  unfold vgaCols at hcol ⊢
  by_cases hmore : row + 1 < 25
  · rw [if_pos hmore, if_neg (by omega), if_pos (by omega)]
    congr 2
    omega
  · rw [if_neg hmore, if_pos (by omega)]

/-!
# The window
-/

/--
The rows show the lines from `top` on, and the cursor stands at the end of the
open one.  The window leaves the first line only with its last row full.
-/
structure Window (s : Console) (l : TextLines UInt8) (top : Nat) : Prop where
  row : l.closed.length = top + s.consoleRow.toNat
  col : l.last.length = s.consoleCol.toNat
  cells : forall row col, row < vgaRows -> col < vgaCols ->
    glyph (s.vgaBuffer (row * vgaCols + col)) =
      (l.charAt (top + row) col).getD 0x20
  start : top = 0 ∨ vgaRows ≤ s.consoleRow.toNat + 1

variable {s : Console} {l : TextLines UInt8} {top : Nat}

theorem Window.newline (h : Window s l top)
    (hrow : s.consoleRow.toNat < vgaRows) :
    Window
      { s with
        consoleCol := 0
        consoleRow := s.consoleRow + 1 } l.close top := by
  have hnext := toNat_add_one hrow (by decide)
  have hstart := h.start
  refine ⟨?_, rfl, ?_, ?_⟩
  · show l.close.closed.length = top + (s.consoleRow + 1).toNat
    rw [TextLines.length_closed_close, h.row, hnext, Nat.add_assoc]
  · intro row col hlow hcol
    rw [TextLines.charAt_close]
    exact h.cells row col hlow hcol
  · show top = 0 ∨ vgaRows ≤ (s.consoleRow + 1).toNat + 1
    omega

theorem Window.put (h : Window s l top)
    (hcol : s.consoleCol.toNat < vgaCols) (c attr : UInt8) :
    Window
      { s.consolePutEntryAt c attr s.consoleRow s.consoleCol with
        consoleCol := s.consoleCol + 1 } (l.push c) top := by
  have hnext := toNat_add_one hcol (by decide)
  refine ⟨h.row, ?_, ?_, h.start⟩
  · show (l.last ++ [c]).length = (s.consoleCol + 1).toNat
    rw [List.length_append, h.col, hnext, List.length_singleton]
  · intro row col hlow hin
    have hcell := h.cells row col hlow hin
    show glyph (if row * vgaCols + col =
      s.consoleRow.toNat * vgaCols + s.consoleCol.toNat then vgaEntry c attr
      else s.vgaBuffer (row * vgaCols + col)) = _
    rw [TextLines.charAt_push, h.row, h.col]
    have hsame : row * vgaCols + col =
        s.consoleRow.toNat * vgaCols + s.consoleCol.toNat <->
          top + row = top + s.consoleRow.toNat ∧
            col = s.consoleCol.toNat := by
      unfold vgaCols at hin hcol ⊢
      omega
    by_cases heq : row * vgaCols + col =
        s.consoleRow.toNat * vgaCols + s.consoleCol.toNat
    · rw [if_pos heq, if_pos (hsame.mp heq), glyph_vgaEntry]
      rfl
    · rw [if_neg heq, if_neg (fun h => heq (hsame.mpr h))]
      exact hcell

theorem Window.scroll (h : Window s l top)
    (hrow : s.consoleRow.toNat = vgaRows) (hlast : l.last = []) :
    Window s.consoleScroll l (top + 1) := by
  have hcount := h.row
  rw [hrow] at hcount
  refine ⟨?_, ?_, ?_, Or.inr (Nat.le_refl _)⟩
  · rw [consoleScroll_row, hcount]
    show top + 25 = top + 1 + 24
    omega
  · rw [consoleScroll_col]
    exact h.col
  · intro row col hlow hin
    rw [glyph_consoleScroll s hlow hin, Nat.add_right_comm, Nat.add_assoc top]
    by_cases hmore : row + 1 < vgaRows
    · rw [if_pos hmore]
      exact h.cells (row + 1) col hmore hin
    · have hopen : top + (row + 1) = l.closed.length := by omega
      rw [if_neg hmore, hopen, TextLines.charAt_last, hlast]
      rfl

/-- The screen shows the last lines, and the cursor's port says where it is. -/
structure ShowsLast (s : Console) (l : TextLines UInt8) : Prop where
  cells : forall row col, row < vgaRows -> col < vgaCols ->
    glyph (s.vgaBuffer (row * vgaCols + col)) =
      (l.charAt (l.all.length - vgaRows + row) col).getD 0x20
  row : s.consoleRow.toNat + (l.all.length - vgaRows) = l.all.length - 1
  col : s.consoleCol.toNat = l.last.length
  cursor : s.cursorPos.toNat =
    s.consoleRow.toNat * vgaCols + s.consoleCol.toNat
  inside : s.consoleRow.toNat < vgaRows ∧ s.consoleCol.toNat < vgaCols

theorem ShowsLast.window (h : ShowsLast s l) :
    Window s l (l.all.length - vgaRows) := by
  have hrow := h.row
  have hinside := h.inside.left
  rw [TextLines.length_all] at hrow
  unfold vgaRows at hinside hrow
  refine ⟨?_, h.col.symm, h.cells, ?_⟩
  · rw [TextLines.length_all]
    unfold vgaRows
    omega
  · rw [TextLines.length_all]
    unfold vgaRows
    omega

theorem Window.showsLast (h : Window s l top)
    (hrow : s.consoleRow.toNat < vgaRows)
    (hcol : s.consoleCol.toNat < vgaCols) :
    ShowsLast s.consolePutCursor l := by
  have hcount := h.row
  have hstart := h.start
  have htop : l.all.length - vgaRows = top := by
    rw [TextLines.length_all]
    omega
  refine ⟨?_, ?_, h.col.symm, ?_, hrow, hcol⟩
  · rw [htop]
    exact h.cells
  · rw [htop, TextLines.length_all, hcount]
    show s.consoleRow.toNat + top = _
    omega
  · show (UInt16.ofNat (s.consoleRow.toNat * vgaCols +
      s.consoleCol.toNat)).toNat = _
    unfold vgaRows at hrow
    unfold vgaCols at hcol
    rw [UInt16.toNat_ofNat']
    unfold vgaCols
    show _ = s.consoleRow.toNat * 80 + s.consoleCol.toNat
    omega

theorem Window.settle (h : Window s l top)
    (hrow : s.consoleRow.toNat < vgaRows ∨
      s.consoleRow.toNat = vgaRows ∧ l.last = [])
    (hcol : s.consoleCol.toNat < vgaCols) :
    ShowsLast
      (if vgaRows ≤ s.consoleRow.toNat then s.consoleScroll
        else s).consolePutCursor l := by
  rcases hrow with hlow | ⟨hfull, hlast⟩
  · rw [if_neg (Nat.not_le.mpr hlow)]
    exact h.showsLast hlow hcol
  · rw [if_pos (Nat.le_of_eq hfull.symm)]
    refine (h.scroll hfull hlast).showsLast ?_ ?_
    · rw [consoleScroll_row]
      decide
    · rw [consoleScroll_col]
      exact hcol

/-!
# Text
-/

def TextChar (c : UInt8) : Prop :=
  c = 0x0A ∨ (0x20 ≤ c.toNat ∧ c.toNat < 0x7F)

def addChar : TextLines UInt8 -> UInt8 -> TextLines UInt8 :=
  TextLines.add vgaCols fun c => c == 0x0A

theorem putcharBranch_printable (s : Console) {c : UInt8}
    (hc : 0x20 ≤ c.toNat) (attr : UInt8) :
    s.putcharBranch c attr =
      if vgaCols ≤ (s.consoleCol + 1).toNat then
        { s.consolePutEntryAt c attr s.consoleRow s.consoleCol with
          consoleCol := 0
          consoleRow := s.consoleRow + 1 }
      else
        { s.consolePutEntryAt c attr s.consoleRow s.consoleCol with
          consoleCol := s.consoleCol + 1 } := by
  have hother : forall d : UInt8, d.toNat < 0x20 -> c ≠ d := by
    intro d hd heq
    rw [heq] at hc
    omega
  unfold putcharBranch
  rw [if_neg (hother 0x0A (by decide)), if_neg (hother 0x0D (by decide)),
    if_neg (hother 0x09 (by decide)), if_neg (hother 0x08 (by decide))]
  rfl

theorem ShowsLast.putcharColor (h : ShowsLast s l) {c : UInt8}
    (hc : TextChar c) (attr : UInt8) :
    ShowsLast (s.consolePutcharColor c attr) (addChar l c) := by
  have hwindow := h.window
  have hrow := h.inside.left
  have hcol := h.inside.right
  have hnextRow := toNat_add_one hrow (by decide)
  have hnextCol := toNat_add_one hcol (by decide)
  have hdown : (s.consoleRow + 1).toNat < vgaRows ∨
      (s.consoleRow + 1).toNat = vgaRows := by
    rw [hnextRow]
    exact Nat.lt_or_eq_of_le hrow
  have hzero : (0 : UInt8).toNat < vgaCols := by decide
  unfold consolePutcharColor addChar TextLines.add
  dsimp only
  rcases hc with hnewline | hprintable
  · have hbranch : s.putcharBranch c attr =
        { s with
          consoleCol := 0
          consoleRow := s.consoleRow + 1 } := if_pos hnewline
    rw [hbranch, if_pos (beq_iff_eq.mpr hnewline)]
    exact (hwindow.newline hrow).settle
      (hdown.imp_right fun heq => ⟨heq, rfl⟩) hzero
  · have hput := hwindow.put hcol c attr
    have hlength := hput.col
    have hnewline : ¬ (c == 0x0A) = true := by
      intro heq
      rw [beq_iff_eq.mp heq] at hprintable
      exact absurd hprintable.left (by decide)
    rw [putcharBranch_printable s hprintable.left attr, if_neg hnewline, hlength]
    show ShowsLast _ (if vgaCols ≤ (s.consoleCol + 1).toNat then _ else _)
    by_cases hfull : vgaCols ≤ (s.consoleCol + 1).toNat
    · rw [if_pos hfull, if_pos hfull]
      exact (hput.newline hrow).settle
        (hdown.imp_right fun heq => ⟨heq, rfl⟩) hzero
    · rw [if_neg hfull, if_neg hfull]
      exact hput.settle (Or.inl hrow) (Nat.not_le.mp hfull)

theorem showsLast_consoleClear (s : Console) :
    ShowsLast s.consoleClear TextLines.empty := by
  refine ⟨?_, rfl, rfl, rfl, (by decide : 0 < vgaRows), (by decide : 0 < vgaCols)⟩
  intro row col hrow hcol
  have hblank := glyph_blankRows s 0 vgaRows (row * vgaCols + col)
  have hnone : (TextLines.empty : TextLines UInt8).charAt (0 + row) col =
      none := by
    rcases Nat.eq_zero_or_pos row with hzero | hpos
    · rw [hzero]
      exact TextLines.charAt_last _ col
    · exact TextLines.charAt_beyond _ (by rw [Nat.zero_add]; exact hpos) col
  rw [if_pos (by unfold vgaRows at hrow ⊢; unfold vgaCols at hcol ⊢; omega)]
    at hblank
  show glyph ((s.blankRows 0 vgaRows).vgaBuffer (row * vgaCols + col)) =
    (TextLines.empty.charAt (0 + row) col).getD 0x20
  rw [hblank, hnone]
  rfl

end Console

def ConsoleOp.char : ConsoleOp -> Option UInt8
  | ConsoleOp.putchar c => some c
  | ConsoleOp.putcharColor c _ => some c
  | _ => none

/-- A call that prints a character of a text, or sets the color for the next. -/
def ConsoleOp.Prints : ConsoleOp -> Prop
  | ConsoleOp.putchar c => Console.TextChar c
  | ConsoleOp.putcharColor c _ => Console.TextChar c
  | ConsoleOp.setColor _ => True
  | _ => False

namespace Console

variable {s : Console} {l : TextLines UInt8}

theorem ShowsLast.exec (h : ShowsLast s l) {o : ConsoleOp} (ho : o.Prints) :
    ShowsLast (s.exec o) (o.char.toList.foldl addChar l) := by
  cases o with
  | putchar c => exact h.putcharColor ho s.vgaColor
  | putcharColor c attr => exact h.putcharColor ho attr
  | setColor attr => exact ⟨h.cells, h.row, h.col, h.cursor, h.inside⟩
  | setCursor row col => exact ho.elim
  | clear => exact ho.elim

theorem ShowsLast.run (h : ShowsLast s l) {ops : List ConsoleOp}
    (hops : forall o, o ∈ ops -> o.Prints) :
    ShowsLast (run Console.exec s ops)
      ((ops.filterMap ConsoleOp.char).foldl addChar l) := by
  induction ops generalizing s l with
  | nil => exact h
  | cons o ops ih =>
      have hone := h.exec (hops o List.mem_cons_self)
      have hrest := ih hone (fun o' ho' => hops o' (List.mem_cons_of_mem o ho'))
      cases hchar : o.char with
      | none =>
          rw [hchar] at hrest
          rw [List.filterMap_cons_none hchar]
          exact hrest
      | some c =>
          rw [hchar] at hrest
          rw [List.filterMap_cons_some hchar]
          exact hrest

def printedLines (ops : List ConsoleOp) : TextLines UInt8 :=
  TextLines.cut vgaCols (fun c => c == 0x0A) (ops.filterMap ConsoleOp.char)

/-- From a cleared screen on, the screen shows the last lines of the text. -/
theorem screen_shows_last_lines (s : Console) {ops : List ConsoleOp}
    (hops : forall o, o ∈ ops -> o.Prints) :
    ShowsLast (Foundation.run Console.exec s.consoleClear ops)
      (printedLines ops) :=
  (showsLast_consoleClear s).run hops

theorem screen_shows_last_lines_twoLines :
    ShowsLast
      (Foundation.run Console.exec (boot (fun _ => 0) 7).consoleClear
        [ConsoleOp.putchar 0x41, ConsoleOp.putcharColor 0x0A 4,
          ConsoleOp.putchar 0x42]) ⟨[[0x41]], [0x42]⟩ :=
  screen_shows_last_lines (boot (fun _ => 0) 7) (by
    intro o ho
    rcases List.mem_cons.mp ho with rfl | ho
    · exact Or.inr (by decide)
    rcases List.mem_cons.mp ho with rfl | ho
    · exact Or.inl rfl
    · rw [List.mem_singleton.mp ho]
      exact Or.inr (by decide))

end Console
end Drivers
end EarlnuxOS
