import EarlnuxOS.Drivers.ScreenText
import EarlnuxOS.Foundation.ByteRuns
import EarlnuxOS.User.Login

/-!
# The line editor

`shell_readline` of `kernel/kernel.c` with what it prints.  The buffer and the
screen are edited apart from each other: the console does not go back over the
beginning of a row, and the position in the buffer does.
-/

namespace EarlnuxOS

open Foundation

namespace Drivers
namespace Console

variable {s : Console}

/-!
# The cursor in reading order
-/

def place (s : Console) : Nat :=
  s.consoleRow.toNat * vgaCols + s.consoleCol.toNat

def Inside (s : Console) : Prop :=
  s.consoleRow.toNat < vgaRows ∧ s.consoleCol.toNat < vgaCols

structure Wrote (s s' : Console) (index : Nat) (c : UInt8) : Prop where
  cell : glyph (s'.vgaBuffer index) = c
  others : forall i, i ≠ index -> s'.vgaBuffer i = s.vgaBuffer i

theorem wrote_consolePutEntryAt (s : Console) (c color row col : UInt8) :
    Wrote s (s.consolePutEntryAt c color row col)
      (row.toNat * vgaCols + col.toNat) c where
  cell := by
    show glyph (if _ = _ then vgaEntry c color else _) = c
    rw [if_pos rfl, glyph_vgaEntry]
  others := fun _ hi => if_neg hi

theorem consolePutcharColor_inside {c attr : UInt8}
    (h : (s.putcharBranch c attr).consoleRow.toNat < vgaRows) :
    s.consolePutcharColor c attr =
      (s.putcharBranch c attr).consolePutCursor := by
  unfold consolePutcharColor
  dsimp only
  rw [if_neg (Nat.not_le.mpr h)]

/-- A printable character moves the cursor on, where there is room. -/
theorem Inside.putchar (h : Inside s) {c : UInt8} (hc : 0x20 ≤ c.toNat)
    (hroom : s.place + 1 < vgaRows * vgaCols) :
    Inside (s.consolePutchar c) ∧ (s.consolePutchar c).place = s.place + 1 ∧
      Wrote s (s.consolePutchar c) s.place c := by
  have hrow := h.left
  have hcol := h.right
  have hnextRow := toNat_add_one hrow (by decide)
  have hnextCol := toNat_add_one hcol (by decide)
  have hwrote := wrote_consolePutEntryAt s c s.vgaColor s.consoleRow s.consoleCol
  have hbranch := putcharBranch_printable s hc s.vgaColor
  unfold place at hroom
  unfold vgaRows at hrow hroom
  unfold vgaCols at hcol hroom
  unfold consolePutchar
  by_cases hfull : vgaCols ≤ (s.consoleCol + 1).toNat
  · rw [if_pos hfull] at hbranch
    unfold vgaCols at hfull
    have hlow : (s.putcharBranch c s.vgaColor).consoleRow.toNat < vgaRows := by
      rw [hbranch]
      show (s.consoleRow + 1).toNat < vgaRows
      unfold vgaRows
      omega
    rw [consolePutcharColor_inside hlow]
    refine ⟨⟨hlow, ?_⟩, ?_, ?_⟩
    · rw [hbranch]
      exact (by decide : 0 < vgaCols)
    · rw [hbranch]
      show (s.consoleRow + 1).toNat * vgaCols + 0 = _
      unfold place vgaCols
      omega
    · rw [hbranch]
      exact ⟨hwrote.cell, hwrote.others⟩
  · rw [if_neg hfull] at hbranch
    have hlow : (s.putcharBranch c s.vgaColor).consoleRow.toNat < vgaRows := by
      rw [hbranch]
      exact h.left
    rw [consolePutcharColor_inside hlow]
    refine ⟨⟨hlow, ?_⟩, ?_, ?_⟩
    · rw [hbranch]
      exact Nat.not_le.mp hfull
    · rw [hbranch]
      show s.consoleRow.toNat * vgaCols + (s.consoleCol + 1).toNat = _
      unfold place
      omega
    · rw [hbranch]
      exact ⟨hwrote.cell, hwrote.others⟩

theorem putcharBranch_back (s : Console) (attr : UInt8) :
    s.putcharBranch 0x08 attr =
      if 0 < s.consoleCol then
        { s with consoleCol := s.consoleCol - 1 }.consolePutEntryAt 0x20 attr
          s.consoleRow (s.consoleCol - 1)
      else s := rfl

theorem Inside.back (h : Inside s) (hpos : 0 < s.consoleCol) :
    Inside (s.consolePutchar 0x08) ∧
      (s.consolePutchar 0x08).place + 1 = s.place ∧
      Wrote s (s.consolePutchar 0x08) (s.place - 1) 0x20 := by
  have hone : 1 ≤ s.consoleCol.toNat := UInt8.lt_iff_toNat_lt.mp hpos
  have hprev : (s.consoleCol - 1).toNat = s.consoleCol.toNat - 1 :=
    UInt8.toNat_sub_of_le _ _ (UInt8.le_iff_toNat_le.mpr hone)
  have hcol := h.right
  have hbranch := putcharBranch_back s s.vgaColor
  rw [if_pos hpos] at hbranch
  have hwrote := wrote_consolePutEntryAt
    { s with consoleCol := s.consoleCol - 1 } 0x20 s.vgaColor s.consoleRow
    (s.consoleCol - 1)
  have hbefore : s.consoleRow.toNat * vgaCols + (s.consoleCol - 1).toNat =
      s.place - 1 := by
    unfold place
    omega
  have hlow : (s.putcharBranch 0x08 s.vgaColor).consoleRow.toNat < vgaRows := by
    rw [hbranch]
    exact h.left
  rw [hbefore] at hwrote
  unfold consolePutchar
  rw [consolePutcharColor_inside hlow, hbranch]
  refine ⟨⟨h.left, ?_⟩, ?_, ⟨hwrote.cell, hwrote.others⟩⟩
  · show (s.consoleCol - 1).toNat < vgaCols
    omega
  · show s.consoleRow.toNat * vgaCols + (s.consoleCol - 1).toNat + 1 = s.place
    unfold place
    omega

theorem Inside.back_zero (h : Inside s) (hzero : ¬ 0 < s.consoleCol) :
    s.consolePutchar 0x08 = s.consolePutCursor := by
  have hbranch := putcharBranch_back s s.vgaColor
  rw [if_neg hzero] at hbranch
  have hlow : (s.putcharBranch 0x08 s.vgaColor).consoleRow.toNat < vgaRows := by
    rw [hbranch]
    exact h.left
  unfold consolePutchar
  rw [consolePutcharColor_inside hlow, hbranch]

def erase (s : Console) : Console :=
  ((s.consolePutchar 0x08).consolePutchar 0x20).consolePutchar 0x08

theorem Wrote.again {s s' s'' : Console} {index : Nat} {c d : UInt8}
    (h : Wrote s s' index c) (h' : Wrote s' s'' index d) :
    Wrote s s'' index d where
  cell := h'.cell
  others := fun i hi => (h'.others i hi).trans (h.others i hi)

theorem Wrote.glyph {s s' : Console} {index : Nat} {c : UInt8}
    (h : Wrote s s' index c) (i : Nat) :
    glyph (s'.vgaBuffer i) = if i = index then c else glyph (s.vgaBuffer i) := by
  split
  · rename_i heq
    rw [heq]
    exact h.cell
  · rename_i hne
    rw [h.others i hne]

theorem Inside.place_lt (h : Inside s) : s.place < vgaRows * vgaCols := by
  have hrow := h.left
  have hcol := h.right
  unfold place
  unfold vgaRows at hrow ⊢
  unfold vgaCols at hcol ⊢
  omega

theorem Inside.col_pos_iff (h : Inside s) :
    0 < s.consoleCol <-> s.place % vgaCols ≠ 0 := by
  have hcol := h.right
  have hmod : s.place % vgaCols = s.consoleCol.toNat := by
    unfold place
    rw [Nat.mul_comm, Nat.mul_add_mod, Nat.mod_eq_of_lt hcol]
  rw [hmod, UInt8.lt_iff_toNat_lt]
  exact Nat.pos_iff_ne_zero

theorem Inside.erase (h : Inside s) (hpos : 0 < s.consoleCol) :
    Inside s.erase ∧ s.erase.place + 1 = s.place ∧
      Wrote s s.erase (s.place - 1) 0x20 := by
  rcases h.back hpos with ⟨hinside, hplace, hwrote⟩
  rcases hinside.putchar (c := 0x20) (by decide)
    (by rw [hplace]; exact h.place_lt) with ⟨hinside', hplace', hwrote'⟩
  have hsame : ((s.consolePutchar 0x08).consolePutchar 0x20).place = s.place :=
    hplace'.trans hplace
  have hpos' := (h.col_pos_iff.mp hpos)
  rw [← hsame] at hpos'
  rcases hinside'.back (hinside'.col_pos_iff.mpr hpos') with
    ⟨hinside'', hplace'', hwrote''⟩
  have hbefore : (s.consolePutchar 0x08).place = s.place - 1 := by omega
  rw [hbefore] at hwrote'
  rw [hsame] at hplace'' hwrote''
  exact ⟨hinside'', hplace'', (hwrote.again hwrote').again hwrote''⟩

theorem Inside.erase_zero (h : Inside s) (hzero : ¬ 0 < s.consoleCol) :
    Inside s.erase ∧ s.erase.place = s.place ∧
      Wrote s s.erase s.place 0x20 := by
  have hback := h.back_zero hzero
  have hlt := h.place_lt
  have hmod : s.place % vgaCols = 0 :=
    Decidable.not_not.mp fun hne => hzero (h.col_pos_iff.mpr hne)
  unfold vgaRows vgaCols at hlt
  unfold vgaCols at hmod
  have hcursor : Inside s.consolePutCursor := h
  have hput := hcursor.putchar (c := 0x20) (by decide) (by
    show s.place + 1 < vgaRows * vgaCols
    unfold vgaRows vgaCols
    omega)
  rw [← hback] at hput
  rcases hput with ⟨hinside', hplace', hwrote'⟩
  have hstart : (s.consolePutchar 0x08).place = s.place := by
    rw [hback]
    rfl
  have hbuffer : (s.consolePutchar 0x08).vgaBuffer = s.vgaBuffer := by
    rw [hback]
    rfl
  rw [hstart] at hplace' hwrote'
  have hpos' : 0 < ((s.consolePutchar 0x08).consolePutchar 0x20).consoleCol := by
    rw [hinside'.col_pos_iff, hplace']
    unfold vgaCols
    omega
  rcases hinside'.back hpos' with ⟨hinside'', hplace'', hwrote''⟩
  rw [hplace', Nat.add_sub_cancel] at hwrote''
  rw [hplace'] at hplace''
  have hboth := hwrote'.again hwrote''
  exact ⟨hinside'', Nat.succ_injective hplace'',
    ⟨hboth.cell, fun i hi => (hboth.others i hi).trans (congrFun hbuffer i)⟩⟩

end Console
end Drivers

namespace User

open Drivers

/-!
# Reading a line
-/

/--
The console, the buffer and `pos`.  Not of the source are the farthest that
`pos` has been, and whether the function has returned.
-/
structure LineEditor where
  console : Console
  buf : Memory
  pos : Nat
  reach : Nat
  returned : Bool

namespace LineEditor

/-- `buf[pos] = '\0'; return (int)pos;` -/
def finish (e : LineEditor) : LineEditor :=
  { e with
    buf := storeByte e.buf e.pos 0
    returned := true }

/-- `while (pos < max - 1)` -/
def loopHead (max : Nat) (e : LineEditor) : LineEditor :=
  if e.pos < sub32 max 1 then e else e.finish

def erases (c : UInt8) : Bool := c == backspace || c == delete

def turn (e : LineEditor) (c : UInt8) : LineEditor :=
  if erases c then
    if 0 < e.pos then
      { e with
        pos := e.pos - 1
        console := e.console.erase }
    else e
  else if printable c then
    { e with
      buf := storeByte e.buf e.pos c
      pos := e.pos + 1
      reach := max e.reach (e.pos + 1)
      console := e.console.consolePutchar c }
  else e

/-- A key that `keyboard_getchar` returns; `max` is the size of the buffer. -/
def exec (max : Nat) (e : LineEditor) (c : UInt8) : LineEditor :=
  if e.returned then e
  else if c == newline || c == carriageReturn then
    { e.finish with console := e.console.consolePutchar newline }
  else (e.turn c).loopHead max

/-- `shell_readline`, before it gets the first key. -/
def start (max : Nat) (console : Console) (buf : Memory) : LineEditor :=
  loopHead max
    { console := console
      buf := buf
      pos := 0
      reach := 0
      returned := false }

/-!
# What is promised
-/

/-- From its place on, the screen shows the line, and blanks where it was longer. -/
structure Mirrors (first : Nat) (e : LineEditor) : Prop where
  cursor : e.console.place = first + e.pos
  shown : forall i, i < e.pos -> glyph (e.console.vgaBuffer (first + i)) = e.buf i
  erased : forall i, e.pos ≤ i -> i < e.reach ->
    glyph (e.console.vgaBuffer (first + i)) = 0x20

/-- The key is printable or a backspace, and printing it does not scroll. -/
def Typed (e : LineEditor) (c : UInt8) : Prop :=
  (erases c = true ∨ printable c = true) ∧
    (e.returned = false -> erases c = false ->
      e.console.place + 1 < vgaRows * vgaCols)

/-- No character is erased from the beginning of a row. -/
def WithinRow (e : LineEditor) (c : UInt8) : Prop :=
  e.returned = false -> erases c = true -> 0 < e.pos ->
    0 < e.console.consoleCol

structure InStep (first : Nat) (e : LineEditor) : Prop where
  mirrors : Mirrors first e
  inside : e.console.Inside
  reach : e.pos ≤ e.reach

variable {first max : Nat} {e : LineEditor} {c : UInt8}

theorem InStep.finish (h : InStep first e) : InStep first e.finish := by
  refine ⟨⟨h.mirrors.cursor, ?_, h.mirrors.erased⟩, h.inside, h.reach⟩
  intro i hi
  have hother : storeByte e.buf e.pos 0 i = e.buf i :=
    if_neg (Nat.ne_of_lt hi)
  show glyph (e.console.vgaBuffer (first + i)) = storeByte e.buf e.pos 0 i
  rw [hother]
  exact h.mirrors.shown i hi

theorem InStep.loopHead (h : InStep first e) (max : Nat) :
    InStep first (e.loopHead max) := by
  unfold LineEditor.loopHead
  split
  · exact h
  · exact h.finish

theorem loopHead_console (max : Nat) (e : LineEditor) :
    (e.loopHead max).console = e.console ∧ (e.loopHead max).pos = e.pos := by
  unfold loopHead
  split
  · exact ⟨rfl, rfl⟩
  · exact ⟨rfl, rfl⟩

theorem InStep.put (h : InStep first e) (hc : 0x20 ≤ c.toNat)
    (hroom : e.console.place + 1 < vgaRows * vgaCols) :
    InStep first
      { e with
        buf := storeByte e.buf e.pos c
        pos := e.pos + 1
        reach := Nat.max e.reach (e.pos + 1)
        console := e.console.consolePutchar c } := by
  rcases h.inside.putchar hc hroom with ⟨hinside, hplace, hwrote⟩
  have hcursor := h.mirrors.cursor
  refine ⟨⟨?_, ?_, ?_⟩, hinside, Nat.le_max_right _ _⟩
  · show (e.console.consolePutchar c).place = first + (e.pos + 1)
    omega
  · intro i hi
    show glyph ((e.console.consolePutchar c).vgaBuffer (first + i)) =
      storeByte e.buf e.pos c i
    rw [hwrote.glyph, hcursor]
    unfold storeByte
    by_cases heq : i = e.pos
    · rw [if_pos (by omega), if_pos heq]
    · rw [if_neg (by omega), if_neg heq]
      exact h.mirrors.shown i (by
        have hlt : i < e.pos + 1 := hi
        omega)
  · intro i hi hreach
    have hlow : e.pos + 1 ≤ i := hi
    have hhigh : i < e.reach := by
      rcases Nat.lt_or_ge i e.reach with hlt | hge
      · exact hlt
      · exact absurd hreach (Nat.not_lt.mpr (Nat.max_le.mpr ⟨hge, hlow⟩))
    show glyph ((e.console.consolePutchar c).vgaBuffer (first + i)) = 0x20
    rw [hwrote.glyph, if_neg (by omega)]
    exact h.mirrors.erased i (by omega) hhigh

theorem InStep.erase (h : InStep first e) (hpos : 0 < e.pos)
    (hcol : 0 < e.console.consoleCol) :
    InStep first
      { e with
        pos := e.pos - 1
        console := e.console.erase } := by
  rcases h.inside.erase hcol with ⟨hinside, hplace, hwrote⟩
  have hcursor := h.mirrors.cursor
  refine ⟨⟨?_, ?_, ?_⟩, hinside, Nat.le_trans (Nat.sub_le _ _) h.reach⟩
  · show e.console.erase.place = first + (e.pos - 1)
    omega
  · intro i hi
    have hlt : i < e.pos - 1 := hi
    show glyph (e.console.erase.vgaBuffer (first + i)) = e.buf i
    rw [hwrote.glyph, if_neg (by omega)]
    exact h.mirrors.shown i (by omega)
  · intro i hi hreach
    have hlow : e.pos - 1 ≤ i := hi
    show glyph (e.console.erase.vgaBuffer (first + i)) = 0x20
    rw [hwrote.glyph]
    by_cases heq : i = e.pos - 1
    · rw [if_pos (by omega)]
    · rw [if_neg (by omega)]
      exact h.mirrors.erased i (by omega) hreach

theorem toNat_of_printable (h : printable c = true) : 0x20 ≤ c.toNat := by
  unfold printable at h
  exact (of_decide_eq_true h).left

theorem Typed.goes_on (h : Typed e c) :
    (c == newline || c == carriageReturn) = false := by
  apply Bool.eq_false_of_not_eq_true
  intro hend
  rcases Bool.or_eq_true_iff.mp hend with heq | heq
  · rw [beq_iff_eq.mp heq] at h
    exact absurd h.left (by decide)
  · rw [beq_iff_eq.mp heq] at h
    exact absurd h.left (by decide)

/-- One key: the two stay in step, or the cursor has been left behind. -/
theorem inStep_exec (max : Nat) (h : InStep first e) (hc : Typed e c) :
    (WithinRow e c ∧ InStep first (e.exec max c)) ∨
      (¬ WithinRow e c ∧ ¬ Mirrors first (e.exec max c)) := by
  unfold exec
  cases hret : e.returned with
  | true =>
      rw [if_pos rfl]
      exact Or.inl ⟨fun hfalse => absurd (hret.symm.trans hfalse) (by decide), h⟩
  | false =>
      rw [if_neg Bool.false_ne_true, hc.goes_on, if_neg Bool.false_ne_true]
      unfold turn
      cases herase : erases c with
      | true =>
          rw [if_pos rfl]
          by_cases hpos : 0 < e.pos
          · rw [if_pos hpos]
            by_cases hcol : 0 < e.console.consoleCol
            · exact Or.inl ⟨fun _ _ _ => hcol, (h.erase hpos hcol).loopHead max⟩
            · right
              refine ⟨fun hwithin => hcol (hwithin hret herase hpos), ?_⟩
              intro hmirrors
              have hstays := (h.inside.erase_zero hcol).right.left
              have hcursor := hmirrors.cursor
              have hbefore := h.mirrors.cursor
              rw [(loopHead_console max _).left, (loopHead_console max _).right,
                hstays] at hcursor
              dsimp only at hcursor
              omega
          · rw [if_neg hpos]
            exact Or.inl ⟨fun _ _ hp => absurd hp hpos, h.loopHead max⟩
      | false =>
          have hprintable : printable c = true := by
            rcases hc.left with htrue | hp
            · rw [herase] at htrue
              cases htrue
            · exact hp
          rw [if_neg Bool.false_ne_true, if_pos hprintable]
          refine Or.inl ⟨fun _ htrue => ?_, ?_⟩
          · rw [herase] at htrue
            cases htrue
          · exact (h.put (toNat_of_printable hprintable)
              (hc.right hret herase)).loopHead max

theorem inStep_start (max : Nat) {console : Console} (buf : Memory)
    (h : console.Inside) : InStep console.place (start max console buf) := by
  apply InStep.loopHead
  refine ⟨⟨rfl, ?_, ?_⟩, h, Nat.le_refl _⟩
  · intro i hi
    exact absurd hi (Nat.not_lt_zero i)
  · intro i _ hi
    exact absurd hi (Nat.not_lt_zero i)

/-!
# The buffer
-/

/-- The line fits, and a line that is returned ends with a NUL. -/
structure Fits (max : Nat) (e : LineEditor) : Prop where
  pos : e.pos ≤ sub32 max 1
  room : e.returned = false -> e.pos < sub32 max 1
  nul : e.returned = true -> e.buf e.pos = 0

theorem fits_finish (h : e.pos ≤ sub32 max 1) : Fits max e.finish :=
  ⟨h, fun hret => (by cases hret), fun _ => if_pos rfl⟩

theorem fits_loopHead (h : e.pos ≤ sub32 max 1) (hret : e.returned = false) :
    Fits max (e.loopHead max) := by
  unfold loopHead
  split
  · rename_i hlt
    exact ⟨h, fun _ => hlt, fun htrue => by rw [hret] at htrue; cases htrue⟩
  · exact fits_finish h

theorem Fits.exec (h : Fits max e) (c : UInt8) : Fits max (e.exec max c) := by
  unfold LineEditor.exec
  cases hret : e.returned with
  | true =>
      rw [if_pos rfl]
      exact h
  | false =>
      have hroom := h.room hret
      rw [if_neg Bool.false_ne_true]
      split
      · have hfinish := fits_finish h.pos
        exact ⟨hfinish.pos, hfinish.room, hfinish.nul⟩
      · unfold turn
        split
        · split
          · exact fits_loopHead (Nat.le_trans (Nat.sub_le _ _) h.pos) hret
          · exact fits_loopHead h.pos hret
        split
        · exact fits_loopHead hroom hret
        · exact fits_loopHead h.pos hret

theorem Fits.run (h : Fits max e) (keys : List UInt8) :
    Fits max (run (LineEditor.exec max) e keys) := by
  induction keys generalizing e with
  | nil => exact h
  | cons c keys ih => exact ih (h.exec c)

theorem fits_start (max : Nat) (console : Console) (buf : Memory) :
    Fits max (start max console buf) :=
  fits_loopHead (Nat.zero_le _) rfl

/-!
# The line
-/

def line (e : LineEditor) : Fs.CStr :=
  readBytes e.buf 0 e.pos

theorem line_finish (e : LineEditor) : e.finish.line = e.line := by
  apply readBytes_congr
  intro i hi
  rw [Nat.zero_add]
  exact if_neg (Nat.ne_of_lt hi)

theorem line_loopHead (max : Nat) (e : LineEditor) :
    (e.loopHead max).line = e.line := by
  unfold loopHead
  split
  · rfl
  · exact line_finish e

theorem line_turn (e : LineEditor) (c : UInt8) :
    (e.turn c).line =
      if erases c then e.line.dropLast
      else if printable c then e.line ++ [c]
      else e.line := by
  have hless := readBytes_dropLast e.buf 0 e.pos
  have hmore := readBytes_storeByte_next e.buf 0 e.pos c
  rw [Nat.zero_add] at hmore
  unfold turn
  split
  · split
    · exact hless
    · rename_i hzero
      have hnone : e.pos - 1 = e.pos := by omega
      rw [hnone] at hless
      exact hless
  split
  · exact hmore
  · rfl

theorem turn_returned (e : LineEditor) (c : UInt8) :
    (e.turn c).returned = e.returned := by
  unfold turn
  split
  · split
    · rfl
    · rfl
  split
  · rfl
  · rfl

theorem exec_end (max : Nat) {e : LineEditor} {c : UInt8}
    (hc : (c == newline || c == carriageReturn) = true)
    (hret : e.returned = false) :
    e.exec max c =
      { e.finish with console := e.console.consolePutchar newline } := by
  unfold exec
  rw [hret, if_neg Bool.false_ne_true, if_pos hc]

theorem loopHead_open {e : LineEditor} (max : Nat) (h : e.returned = false) :
    (e.loopHead max).returned = false ∨ sub32 max 1 ≤ (e.loopHead max).pos := by
  unfold loopHead
  split
  · exact Or.inl h
  · rename_i hfull
    exact Or.inr (Nat.not_lt.mp hfull)

theorem readKeys_run {max : Nat} {keys text rest : Fs.CStr} {e : LineEditor}
    (h : Fits max e)
    (hopen : e.returned = false ∨ sub32 max 1 ≤ e.pos)
    (hread : readKeys (fun c => c == newline || c == carriageReturn) erases max
      keys e.line = some (text, rest)) :
    exists first, keys = first ++ rest ∧
      (run (exec max) e first).returned = true ∧
      (run (exec max) e first).line = text := by
  have hlength : e.line.length = e.pos := length_readBytes e.buf 0 e.pos
  by_cases hroom : e.pos < sub32 max 1
  · have hret : e.returned = false := by
      rcases hopen with hfalse | hfull
      · exact hfalse
      · exact absurd hroom (Nat.not_lt.mpr hfull)
    have hlt : e.line.length < sub32 max 1 := hlength ▸ hroom
    cases keys with
    | nil =>
        rw [readKeys, if_pos hlt] at hread
        cases hread
    | cons c keys =>
        have hnext := h.exec c
        rw [readKeys, if_pos hlt] at hread
        unfold exec at hnext
        rw [hret, if_neg Bool.false_ne_true] at hnext
        by_cases hend : (c == newline || c == carriageReturn) = true
        · rw [if_pos hend] at hread
          cases hread
          refine ⟨[c], rfl, ?_⟩
          rw [run_cons, run_nil, exec_end max hend hret]
          exact ⟨rfl, line_finish e⟩
        · have hexec : e.exec max c = (e.turn c).loopHead max := by
            unfold exec
            rw [hret, if_neg Bool.false_ne_true, if_neg hend]
          have hstill : (e.turn c).returned = false :=
            (turn_returned e c).trans hret
          rw [if_neg hend] at hread hnext
          have hread' : readKeys
              (fun c => c == newline || c == carriageReturn) erases max keys
              ((e.turn c).loopHead max).line = some (text, rest) := by
            rw [line_loopHead, line_turn, apply_ite (readKeys _ _ _ _),
              apply_ite (readKeys _ _ _ _)]
            exact hread
          rcases readKeys_run hnext (loopHead_open max hstill) hread' with
            ⟨first, hkeys, hrun⟩
          refine ⟨c :: first, by rw [hkeys]; rfl, ?_⟩
          rw [run_cons, hexec]
          exact hrun
  · have hfull : sub32 max 1 ≤ e.line.length := by omega
    rw [readKeys_full keys hfull] at hread
    cases hread
    refine ⟨[], rfl, ?_, rfl⟩
    cases hret : e.returned with
    | true => exact hret
    | false => exact absurd (h.room hret) hroom

/-- What `shellReadline` returns is what the editor has in its buffer. -/
theorem shellReadline_run {max : Nat} (console : Console) (buf : Memory)
    {keys text rest : Fs.CStr}
    (hread : shellReadline max keys = some (text, rest)) :
    exists first, keys = first ++ rest ∧
      (run (exec max) (start max console buf) first).returned = true ∧
      (run (exec max) (start max console buf) first).line = text := by
  apply readKeys_run (fits_start max console buf) (loopHead_open max rfl)
  unfold start
  rw [line_loopHead]
  exact hread

/-!
# The screen and the line
-/

theorem sub32_one_lt {max : Nat} (hmax : 1 ≤ max) : sub32 max 1 < max := by
  unfold sub32
  omega

/--
The screen shows the line all along exactly when no character is erased from
the beginning of a row.  The line and its NUL fit the buffer, and ending it
changes neither its bytes nor its length.
-/
theorem line_shown_iff {max : Nat} (hmax : 1 ≤ max) {console : Console}
    (buf : Memory) (h : console.Inside) {keys : List UInt8}
    (hkeys : Meets (exec max) Typed (start max console buf) keys) :
    ((forall first, first <+: keys ->
        Mirrors console.place (run (exec max) (start max console buf) first)) <->
      Meets (exec max) WithinRow (start max console buf) keys) ∧
    forall any : List UInt8,
      Fits max (run (exec max) (start max console buf) any) ∧
      (run (exec max) (start max console buf) any).pos < max ∧
      forall c, (c == newline || c == carriageReturn) = true ->
        (run (exec max) (start max console buf) any).returned = false ->
        ((run (exec max) (start max console buf) any).exec max c).returned =
            true ∧
          ((run (exec max) (start max console buf) any).exec max c).line =
            (run (exec max) (start max console buf) any).line := by
  constructor
  · have hgood : forall e, InStep console.place e ->
        ¬ ¬ Mirrors console.place e := fun e he hbad => hbad he.mirrors
    have hnever := Meets.iff_never hgood
      (fun e c he hc => inStep_exec max he hc) (inStep_start max buf h) hkeys
    rw [hnever]
    exact forall_congr' fun first =>
      imp_congr_right fun _ => Classical.not_not.symm
  · intro any
    have hfits := (fits_start max console buf).run any
    refine ⟨hfits, Nat.lt_of_le_of_lt hfits.pos (sub32_one_lt hmax), ?_⟩
    intro c hc hret
    rw [exec_end max hc hret]
    exact ⟨rfl, line_finish _⟩

theorem line_shown_iff_twoKeys :
    Mirrors 0 (run (exec 256)
      (start 256 (Console.boot (fun _ => 0) 7) (fun _ => 0))
      [0x41, 0x08]) := by
  have hinside : (Console.boot (fun _ => 0) 7).Inside := ⟨by decide, by decide⟩
  have hkeys : Meets (exec 256) Typed
      (start 256 (Console.boot (fun _ => 0) 7) (fun _ => 0)) [0x41, 0x08] :=
    ⟨⟨Or.inr (by decide), fun _ _ => by decide⟩,
      ⟨Or.inl (by decide), fun _ h => by cases h⟩, trivial⟩
  have hmax : 1 ≤ 256 := by decide
  exact (line_shown_iff hmax (fun _ => 0) hinside hkeys).left.mpr
    ⟨fun _ h => (by cases h), fun _ _ _ => (by decide), trivial⟩
    [0x41, 0x08] (List.prefix_refl _)

/-- A character in the last column, and a backspace. -/
theorem erased_line_stays :
    ¬ forall (console : Console) (keys : List UInt8), console.Inside ->
      Meets (exec 256) Typed (start 256 console fun _ => 0) keys ->
      forall first, first <+: keys ->
        Mirrors console.place
          (run (exec 256) (start 256 console fun _ => 0) first) := by
  intro hall
  have hmirrors := hall ((Console.boot (fun _ => 0) 7).consoleSetCursor 0 79)
    [0x41, 0x08] ⟨by decide, by decide⟩
    ⟨⟨Or.inr (by decide), fun _ _ => by decide⟩,
      ⟨Or.inl (by decide), fun _ h => by cases h⟩, trivial⟩
    [0x41, 0x08] (List.prefix_refl _)
  exact absurd hmirrors.cursor (by decide)

end LineEditor
end User
end EarlnuxOS
