import EarlnuxOS.Arch.Interrupts
import EarlnuxOS.Drivers.Console
import EarlnuxOS.Drivers.Keyboard
import EarlnuxOS.Drivers.Pit
import EarlnuxOS.Foundation.Interference

/-!
# The console under interrupts

`irq_handler` writes to the screen that `console.c` writes to, and it can come
between any two accesses of the console.  The console never reads the cell that
the interrupts flash, so they change that cell and nothing else.  This is about
the timer and the keyboard: the function of the network card prints.
-/

namespace EarlnuxOS
namespace Drivers

open Foundation
open Arch

/-! ## The console one access at a time -/

/-- The static variables of `console.c`, and the cursor ports. -/
structure ConsoleVars where
  vgaColor : UInt8
  consoleRow : UInt8
  consoleCol : UInt8
  cursorPos : UInt16

def Console.vars (s : Console) : ConsoleVars where
  vgaColor := s.vgaColor
  consoleRow := s.consoleRow
  consoleCol := s.consoleCol
  cursorPos := s.cursorPos

abbrev ScreenProg := Prog Nat UInt16

namespace ScreenProg

def putCursor (v : ConsoleVars) : ConsoleVars :=
  { v with
    cursorPos := UInt16.ofNat
      (v.consoleRow.toNat * vgaCols + v.consoleCol.toNat) }

def eachCell (first rows : Nat) (body : Nat -> Nat -> ScreenProg Unit) :
    ScreenProg Unit :=
  Prog.forEach (fun row => Prog.forEach (body row) (List.range vgaCols))
    (List.range' first rows)

def copyRowsUp : ScreenProg Unit :=
  eachCell 1 (vgaRows - 1) fun row col =>
    Prog.load (row * vgaCols + col) fun cell =>
      Prog.store ((row - 1) * vgaCols + col) cell (Prog.done ())

def blankRows (v : ConsoleVars) (first rows : Nat) : ScreenProg Unit :=
  eachCell first rows fun row col =>
    Prog.store (row * vgaCols + col) (vgaEntry 0x20 v.vgaColor) (Prog.done ())

def clear (v : ConsoleVars) : ScreenProg ConsoleVars :=
  (blankRows v 0 vgaRows).andThen fun _ =>
    Prog.done (putCursor
      { v with
        consoleRow := 0
        consoleCol := 0 })

def putEntryAt (c color row col : UInt8) : ScreenProg Unit :=
  Prog.store (row.toNat * vgaCols + col.toNat) (vgaEntry c color)
    (Prog.done ())

def scroll (v : ConsoleVars) : ScreenProg ConsoleVars :=
  copyRowsUp.andThen fun _ =>
    (blankRows v (vgaRows - 1) 1).andThen fun _ =>
      Prog.done (putCursor { v with consoleRow := 24 })

def putcharBranch (v : ConsoleVars) (c attr : UInt8) :
    ScreenProg ConsoleVars :=
  if c = 0x0A then
    Prog.done
      { v with
        consoleCol := 0
        consoleRow := v.consoleRow + 1 }
  else if c = 0x0D then
    Prog.done { v with consoleCol := 0 }
  else if c = 0x09 then
    Prog.done { v with consoleCol := (v.consoleCol + 8) &&& ~~~7 }
  else if c = 0x08 then
    if 0 < v.consoleCol then
      let v := { v with consoleCol := v.consoleCol - 1 }
      (putEntryAt 0x20 attr v.consoleRow v.consoleCol).andThen fun _ =>
        Prog.done v
    else Prog.done v
  else
    (putEntryAt c attr v.consoleRow v.consoleCol).andThen fun _ =>
      let v := { v with consoleCol := v.consoleCol + 1 }
      if vgaCols ≤ v.consoleCol.toNat then
        Prog.done
          { v with
            consoleCol := 0
            consoleRow := v.consoleRow + 1 }
      else Prog.done v

def putcharColor (v : ConsoleVars) (c attr : UInt8) : ScreenProg ConsoleVars :=
  (putcharBranch v c attr).andThen fun v =>
    (if vgaRows ≤ v.consoleRow.toNat then scroll v
      else Prog.done v).andThen fun v => Prog.done (putCursor v)

def setCursor (v : ConsoleVars) (row col : UInt8) : ConsoleVars :=
  if row.toNat < vgaRows ∧ col.toNat < vgaCols then
    putCursor
      { v with
        consoleRow := row
        consoleCol := col }
  else v

def call (v : ConsoleVars) : ConsoleOp -> ScreenProg ConsoleVars
  | ConsoleOp.putchar c => putcharColor v c v.vgaColor
  | ConsoleOp.putcharColor c attr => putcharColor v c attr
  | ConsoleOp.setColor attr => Prog.done { v with vgaColor := attr }
  | ConsoleOp.setCursor row col => Prog.done (setCursor v row col)
  | ConsoleOp.clear => clear v

def calls (v : ConsoleVars) : List ConsoleOp -> ScreenProg ConsoleVars
  | [] => Prog.done v
  | o :: ops => (call v o).andThen fun v => calls v ops

/-! ## Alone -/

/-- A loop that leaves the variables as they are and paints what `f` paints. -/
def Paints (p : ScreenProg Unit) (v : ConsoleVars) (f : Console -> Console) :
    Prop :=
  forall s, s.vars = v ->
    (f s).vars = v ∧ (p.alone s.vgaBuffer).2 = (f s).vgaBuffer

theorem paints_forEach {v : ConsoleVars} {body : Nat -> ScreenProg Unit}
    {f : Console -> Nat -> Console}
    (hbody : forall i, Paints (body i) v fun s => f s i) (l : List Nat) :
    Paints (Prog.forEach body l) v fun s => l.foldl f s := by
  intro s hs
  rw [Prog.alone_forEach]
  induction l generalizing s with
  | nil => exact ⟨hs, rfl⟩
  | cons i l ih =>
      rcases hbody i s hs with ⟨hvars, hcells⟩
      simp only [List.foldl_cons]
      rw [hcells]
      exact ih (f s i) hvars

theorem paints_eachCell {v : ConsoleVars}
    {body : Nat -> Nat -> ScreenProg Unit}
    {f : Console -> Nat -> Nat -> Console}
    (hbody : forall row col, Paints (body row col) v fun s => f s row col)
    (first rows : Nat) :
    Paints (eachCell first rows body) v fun s => s.eachCell first rows f := by
  apply paints_forEach
  intro row
  apply paints_forEach
  exact hbody row

theorem setCell_update (m : Nat -> UInt16) (index : Nat) (cell : UInt16) :
    Function.update m index cell = fun i => if i = index then cell else m i := by
  funext i
  exact Function.update_apply m index cell i

theorem paints_copyRowsUp (v : ConsoleVars) :
    Paints copyRowsUp v Console.copyRowsUp := by
  apply paints_eachCell
  intro row col s hs
  constructor
  · exact hs
  · exact setCell_update s.vgaBuffer _ _

theorem paints_blankRows (v : ConsoleVars) (first rows : Nat) :
    Paints (blankRows v first rows) v fun s => s.blankRows first rows := by
  apply paints_eachCell
  intro row col s hs
  have hcolor : v.vgaColor = s.vgaColor := (congrArg ConsoleVars.vgaColor hs).symm
  constructor
  · exact hs
  · rw [hcolor]
    exact setCell_update s.vgaBuffer _ _

/-- The program does to the screen and to the variables what the call does. -/
def Does (p : ScreenProg ConsoleVars) (s s' : Console) : Prop :=
  p.alone s.vgaBuffer = (s'.vars, s'.vgaBuffer)

theorem Does.andThen {p : ScreenProg ConsoleVars} {s s' s'' : Console}
    {f : ConsoleVars -> ScreenProg ConsoleVars} (hp : Does p s s')
    (hf : Does (f s'.vars) s' s'') : Does (p.andThen f) s s'' := by
  unfold Does at hp hf ⊢
  rw [Prog.alone_andThen, hp]
  exact hf

theorem Paints.andThen {p : ScreenProg Unit} {s s' : Console}
    {f : Console -> Console} {k : Unit -> ScreenProg ConsoleVars}
    (hp : Paints p s.vars f) (hk : Does (k ()) (f s) s') :
    Does (p.andThen k) s s' := by
  unfold Does at hk ⊢
  rw [Prog.alone_andThen, (hp s rfl).right]
  exact hk

theorem does_putCursor (s : Console) :
    Does (Prog.done (putCursor s.vars)) s s.consolePutCursor := rfl

theorem does_clear (s : Console) : Does (clear s.vars) s s.consoleClear := by
  apply (paints_blankRows s.vars 0 vgaRows).andThen
  have hvars : (s.blankRows 0 vgaRows).vars = s.vars :=
    (paints_blankRows s.vars 0 vgaRows s rfl).left
  unfold Console.consoleClear
  rw [← hvars]
  generalize s.blankRows 0 vgaRows = t
  rfl

theorem does_scroll (s : Console) : Does (scroll s.vars) s s.consoleScroll := by
  have hup : s.copyRowsUp.vars = s.vars :=
    (paints_copyRowsUp s.vars s rfl).left
  apply (paints_copyRowsUp s.vars).andThen
  unfold Console.consoleScroll
  rw [← hup]
  generalize s.copyRowsUp = t
  apply (paints_blankRows t.vars (vgaRows - 1) 1).andThen
  have hblank : (t.blankRows (vgaRows - 1) 1).vars = t.vars :=
    (paints_blankRows t.vars (vgaRows - 1) 1 t rfl).left
  rw [← hblank]
  generalize t.blankRows (vgaRows - 1) 1 = u
  rfl

theorem paints_putEntryAt (v : ConsoleVars) (c color row col : UInt8) :
    Paints (putEntryAt c color row col) v fun s =>
      s.consolePutEntryAt c color row col := by
  intro s hs
  constructor
  · exact hs
  · exact setCell_update s.vgaBuffer _ _

theorem does_putcharBranch (s : Console) (c attr : UInt8) :
    Does (putcharBranch s.vars c attr) s (s.putcharBranch c attr) := by
  unfold putcharBranch Console.putcharBranch
  split
  · rfl
  split
  · rfl
  split
  · rfl
  split
  · change Does (if 0 < s.consoleCol then _ else _) s _
    split
    · apply (paints_putEntryAt s.vars _ _ _ _).andThen
      rfl
    · rfl
  · apply (paints_putEntryAt s.vars _ _ _ _).andThen
    change Does (if vgaCols ≤ (s.consoleCol + 1).toNat then _ else _) _
      (if vgaCols ≤ (s.consoleCol + 1).toNat then _ else _)
    split
    · rfl
    · rfl

theorem does_putcharColor (s : Console) (c attr : UInt8) :
    Does (putcharColor s.vars c attr) s (s.consolePutcharColor c attr) := by
  apply (does_putcharBranch s c attr).andThen
  unfold Console.consolePutcharColor
  generalize s.putcharBranch c attr = t
  change Does (Prog.andThen (if vgaRows ≤ t.consoleRow.toNat then _ else _) _) t
    (Console.consolePutCursor (if vgaRows ≤ t.consoleRow.toNat then _ else _))
  split
  · exact (does_scroll t).andThen (does_putCursor t.consoleScroll)
  · exact does_putCursor t

theorem does_setCursor (s : Console) (row col : UInt8) :
    Does (Prog.done (setCursor s.vars row col)) s
      (s.consoleSetCursor row col) := by
  unfold setCursor Console.consoleSetCursor
  split
  · rfl
  · rfl

theorem does_call (s : Console) (o : ConsoleOp) :
    Does (call s.vars o) s (s.exec o) := by
  cases o with
  | putchar c => exact does_putcharColor s c s.vgaColor
  | putcharColor c attr => exact does_putcharColor s c attr
  | setColor attr => rfl
  | setCursor row col => exact does_setCursor s row col
  | clear => exact does_clear s

theorem does_calls (s : Console) (ops : List ConsoleOp) :
    Does (calls s.vars ops) s (run Console.exec s ops) := by
  induction ops generalizing s with
  | nil => rfl
  | cons o ops ih => exact (does_call s o).andThen (ih (s.exec o))

/-! ## The corner -/

/-- The cell at the end of the first row, with bytes 158 and 159. -/
def corner : Nat := 79

theorem spares_eachCell {first rows : Nat}
    {body : Nat -> Nat -> ScreenProg Unit}
    (hbody : forall row col, first ≤ row -> (body row col).Spares {corner}) :
    (eachCell first rows body).Spares {corner} := by
  apply Prog.spares_forEach
  intro row hrow
  apply Prog.spares_forEach
  intro col _
  exact hbody row col (List.mem_range'_1.mp hrow).left

theorem spares_copyRowsUp : copyRowsUp.Spares {corner} := by
  apply spares_eachCell
  intro row col hrow
  apply Prog.Spares.load
  · show row * 80 + col ≠ 79
    omega
  · intro cell
    exact Prog.Spares.store _ _ (Prog.Spares.done ())

theorem spares_blankRows (v : ConsoleVars) (first rows : Nat) :
    (blankRows v first rows).Spares {corner} := by
  apply spares_eachCell
  intro row col _
  exact Prog.Spares.store _ _ (Prog.Spares.done ())

theorem spares_clear (v : ConsoleVars) : (clear v).Spares {corner} := by
  apply (spares_blankRows v 0 vgaRows).andThen
  intro _
  exact Prog.Spares.done _

theorem spares_scroll (v : ConsoleVars) : (scroll v).Spares {corner} := by
  apply spares_copyRowsUp.andThen
  intro _
  apply (spares_blankRows v (vgaRows - 1) 1).andThen
  intro _
  exact Prog.Spares.done _

theorem spares_putEntryAt (c color row col : UInt8) :
    (putEntryAt c color row col).Spares {corner} :=
  Prog.Spares.store _ _ (Prog.Spares.done ())

theorem spares_putcharBranch (v : ConsoleVars) (c attr : UInt8) :
    (putcharBranch v c attr).Spares {corner} := by
  unfold putcharBranch
  split
  · exact Prog.Spares.done _
  split
  · exact Prog.Spares.done _
  split
  · exact Prog.Spares.done _
  split
  · split
    · apply (spares_putEntryAt _ _ _ _).andThen
      intro _
      exact Prog.Spares.done _
    · exact Prog.Spares.done _
  · apply (spares_putEntryAt _ _ _ _).andThen
    intro _
    dsimp only
    split
    · exact Prog.Spares.done _
    · exact Prog.Spares.done _

theorem spares_putcharColor (v : ConsoleVars) (c attr : UInt8) :
    (putcharColor v c attr).Spares {corner} := by
  apply (spares_putcharBranch v c attr).andThen
  intro v
  split
  · apply (spares_scroll v).andThen
    intro _
    exact Prog.Spares.done _
  · exact Prog.Spares.done _

theorem spares_call (v : ConsoleVars) (o : ConsoleOp) :
    (call v o).Spares {corner} := by
  cases o with
  | putchar c => exact spares_putcharColor v c v.vgaColor
  | putcharColor c attr => exact spares_putcharColor v c attr
  | setColor attr => exact Prog.Spares.done _
  | setCursor row col => exact Prog.Spares.done _
  | clear => exact spares_clear v

theorem spares_calls (v : ConsoleVars) (ops : List ConsoleOp) :
    (calls v ops).Spares {corner} := by
  induction ops generalizing v with
  | nil => exact Prog.Spares.done v
  | cons o ops ih => exact (spares_call v o).andThen fun v => ih v

end ScreenProg

/-! ## The console and the interrupts -/

/--
What the console has left to do, the screen, `isr.c` with its controllers, and
what the functions of the timer and the keyboard work on.
-/
structure Screen where
  rest : ScreenProg ConsoleVars
  cells : Nat -> UInt16
  irqs : Irqs
  timer : Timer
  keyboard : Keyboard

/-- The next access of the console, or an interrupt of the timer or the keyboard. -/
inductive Moment where
  | access
  | timer
  | keyboard (scancode : UInt8)
  deriving DecidableEq

def byteCell (bytes : UInt8 × UInt8) : UInt16 :=
  bytes.1.toUInt16 ||| (bytes.2.toUInt16 <<< 8)

namespace Screen

/--
`irq_handler` with the function that is registered for the vector, if that is
called.
-/
def interrupt (s : Screen) (intNo : UInt32) (handler : Screen -> Screen) : Screen :=
  let irqs := irqHandler s.irqs intNo
  let flashed :=
    { s with
      cells := Function.update s.cells ScreenProg.corner (byteCell irqs.corner)
      irqs := irqs }
  if irqs.calls = s.irqs.calls then flashed else handler flashed

def pitIrqHandler (s : Screen) : Screen :=
  { s with timer := s.timer.pitIrqHandler }

/-- `keyboard_handler`, which reads the scancode from its port. -/
def keyboardHandler (scancode : UInt8) (s : Screen) : Screen :=
  { s with keyboard := s.keyboard.keyboardHandleScancode scancode }

def step (s : Screen) : Moment -> Screen
  | Moment.access =>
      { s with
        rest := (s.rest.access s.cells).1
        cells := (s.rest.access s.cells).2 }
  | Moment.timer => s.interrupt 32 pitIrqHandler
  | Moment.keyboard scancode => s.interrupt 33 (keyboardHandler scancode)

def start (s : Console) (irqs : Irqs) (timer : Timer) (keyboard : Keyboard)
    (ops : List ConsoleOp) : Screen where
  rest := ScreenProg.calls s.vars ops
  cells := s.vgaBuffer
  irqs := irqs
  timer := timer
  keyboard := keyboard

/-- A function that does not print leaves the corner as the only change. -/
theorem undisturbed_interrupt {p : ScreenProg ConsoleVars} {m : Nat -> UInt16}
    {n : Nat} {s : Screen}
    (h : Undisturbed {ScreenProg.corner} p m n s.rest s.cells) (intNo : UInt32)
    {handler : Screen -> Screen}
    (hquiet : forall s, (handler s).rest = s.rest ∧ (handler s).cells = s.cells) :
    Undisturbed {ScreenProg.corner} p m n
      (s.interrupt intNo handler).rest (s.interrupt intNo handler).cells := by
  have hflash := h.disturb (agreeOff_update s.cells
    (Set.mem_singleton ScreenProg.corner)
    (byteCell (irqHandler s.irqs intNo).corner))
  unfold interrupt
  dsimp only
  split
  · exact hflash
  · rw [(hquiet _).left, (hquiet _).right]
    exact hflash

theorem undisturbed_step {p : ScreenProg ConsoleVars} {m : Nat -> UInt16}
    {n : Nat} {s : Screen}
    (h : Undisturbed {ScreenProg.corner} p m n s.rest s.cells) (o : Moment) :
    Undisturbed {ScreenProg.corner} p m (n + [o].count Moment.access)
      (s.step o).rest (s.step o).cells := by
  cases o with
  | access => exact h.access
  | timer => exact undisturbed_interrupt h 32 fun _ => ⟨rfl, rfl⟩
  | keyboard _ => exact undisturbed_interrupt h 33 fun _ => ⟨rfl, rfl⟩

theorem undisturbed_run {p : ScreenProg ConsoleVars} {m : Nat -> UInt16}
    {n : Nat} {s : Screen}
    (h : Undisturbed {ScreenProg.corner} p m n s.rest s.cells)
    (moments : List Moment) :
    Undisturbed {ScreenProg.corner} p m (n + moments.count Moment.access)
      (run step s moments).rest (run step s moments).cells := by
  induction moments generalizing n s with
  | nil => exact h
  | cons o moments ih =>
      have hrest := ih (undisturbed_step h o)
      have hcount : ([o] ++ moments).count Moment.access =
          [o].count Moment.access + moments.count Moment.access :=
        List.count_append
      rw [Nat.add_assoc, ← hcount] at hrest
      exact hrest

/--
Whatever interrupts of the timer and the keyboard come between the accesses of
the console, its calls end with the cursor where it belongs and every cell but
the corner as without interrupts.
-/
theorem console_undisturbed (s : Console) (irqs : Irqs) (timer : Timer)
    (keyboard : Keyboard) (ops : List ConsoleOp) (moments : List Moment)
    (hlong : (ScreenProg.calls s.vars ops).accesses s.vgaBuffer ≤
      moments.count Moment.access) :
    (run step (start s irqs timer keyboard ops) moments).rest =
        Prog.done (run Console.exec s ops).vars ∧
      forall i, i ≠ ScreenProg.corner ->
        (run step (start s irqs timer keyboard ops) moments).cells i =
          (run Console.exec s ops).vgaBuffer i := by
  have hstart := Undisturbed.start (ScreenProg.spares_calls s.vars ops)
    s.vgaBuffer
  have hrun := undisturbed_run (s := start s irqs timer keyboard ops) hstart moments
  rw [Nat.zero_add] at hrun
  have halone := ScreenProg.does_calls s ops
  unfold ScreenProg.Does at halone
  rcases hrun.finished hlong with ⟨hdone, hcells⟩
  rw [halone] at hdone hcells
  exact ⟨hdone, fun i hi => hcells i hi⟩

def listening : Irqs :=
  isrRegisterHandler (isrRegisterHandler coldIrqs 32 0x100100) 33 0x100200

/-- A letter and the end of its line, between two interrupts. -/
theorem console_undisturbed_letter :
    let s := Console.boot (fun _ => 0x0720) 7
    let ops := [ConsoleOp.putchar 0x41, ConsoleOp.putchar 0x0A]
    let moments := [Moment.timer, Moment.access, Moment.keyboard 0x1E]
    let screen := start s listening Timer.boot (Keyboard.start (fun _ => 0) false false) ops
    (run step screen moments).rest = Prog.done (run Console.exec s ops).vars ∧
      forall i, i ≠ ScreenProg.corner ->
        (run step screen moments).cells i = (run Console.exec s ops).vgaBuffer i :=
  console_undisturbed _ _ _ _ _ _ (by decide)

end Screen

end Drivers
end EarlnuxOS
