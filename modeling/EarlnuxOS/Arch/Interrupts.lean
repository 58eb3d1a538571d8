import EarlnuxOS.Arch.Stubs
import EarlnuxOS.Drivers.Pic
import EarlnuxOS.Foundation.Simulation
import Mathlib.Data.List.Find

/-!
# Interrupt lines

`isr.c` and `isr_handlers.c` behind the interrupt controllers.  The kernel,
its masks and the two controllers together behave like a set of sixteen lines
with one order of urgency, each with the function registered for it.
-/

namespace EarlnuxOS
namespace Arch

open Foundation
open Drivers

/-! ## The C functions -/

/-- A handler that was called: the vector, and the address of the function. -/
structure HandlerCall where
  vector : Nat
  handler : UInt32
  deriving DecidableEq

/--
`isr_handlers`, the controllers, the two bytes that `irq_handler` writes to the
screen, and the calls so far.
-/
structure Irqs where
  pics : Pics
  isrHandlers : Nat -> UInt32
  flash : UInt8
  corner : UInt8 × UInt8
  calls : List HandlerCall

def idtEntries : Nat := 256

/-- `isr_register_handler`; a negative `irq` passes its check too. -/
def isrRegisterHandler (s : Irqs) (irq : Int) (handler : UInt32) : Irqs :=
  if irq < idtEntries then
    { s with isrHandlers := Function.update s.isrHandlers irq.toNat handler }
  else s

def isrHandler (s : Irqs) (intNo : UInt32) : Irqs :=
  if s.isrHandlers intNo.toNat ≠ 0 then
    { s with calls := s.calls ++ [⟨intNo.toNat, s.isrHandlers intNo.toNat⟩] }
  else s

/-- The flash of `irq_handler` in the corner of the screen. -/
def showFlash (s : Irqs) : Irqs :=
  { s with corner := (if s.flash.toNat % 2 ≠ 0 then 0x2A else 0x20, 0x0E)
           flash := s.flash + 1 }

/-- The end of interrupt of `irq_handler`, for the vectors of the lines. -/
def endIrq (s : Irqs) (intNo : UInt32) : Irqs :=
  if 32 ≤ intNo.toNat ∧ intNo.toNat ≤ 47 then
    { s with pics := picSendEoi s.pics (intNo - 32).toUInt8 }
  else s

/-- The call of `irq_handler`, with its check of the address. -/
def callHandler (s : Irqs) (intNo : UInt32) : Irqs :=
  if intNo.toNat < idtEntries ∧ s.isrHandlers intNo.toNat ≠ 0 then
    if 0x1000 < (s.isrHandlers intNo.toNat).toNat then
      { s with calls := s.calls ++ [⟨intNo.toNat, s.isrHandlers intNo.toNat⟩] }
    else s
  else s

def irqHandler (s : Irqs) (intNo : UInt32) : Irqs :=
  callHandler (endIrq (showFlash s) intNo) intNo

/-- What can happen between two instructions of the kernel. -/
inductive Event where
  | raise (line : Nat)
  | mask (irq : UInt8)
  | unmask (irq : UInt8)
  | register (irq : Int) (handler : UInt32)
  | interrupt

/-- The shifts of the mask functions are defined, and `isr_handlers` has the entry. -/
def Event.Valid : Event -> Prop
  | .mask irq => irq.toNat < 40
  | .unmask irq => irq.toNat < 40
  | .register irq _ => 0 ≤ irq
  | _ => True

/-- An interrupt is taken if a controller signals one, by the stub of its vector. -/
def takeInterrupt (s : Irqs) : Irqs :=
  match s.pics.acknowledge with
  | none => s
  | some (pics, vector) =>
      match target vector.toNat with
      | .isrHandler => isrHandler { s with pics := pics } vector.toUInt32
      | .irqHandler => irqHandler { s with pics := pics } vector.toUInt32

def stepIrqs (s : Irqs) : Event -> Irqs
  | .raise line => { s with pics := s.pics.raise line }
  | .mask irq => { s with pics := picMaskIrq s.pics irq }
  | .unmask irq => { s with pics := picUnmaskIrq s.pics irq }
  | .register irq handler => isrRegisterHandler s irq handler
  | .interrupt => takeInterrupt s

/-! ## Sixteen lines -/

/-- Lines that are raised, lines that may interrupt, and what they call. -/
structure Lines where
  pending : Nat -> Bool
  enabled : Nat -> Bool
  handlers : Nat -> UInt32
  calls : List HandlerCall

namespace Lines

/-- From the most urgent line to the least; the slave stands where line 2 is. -/
def order : List Nat := [0, 1] ++ ((List.range 8).map (8 + ·) ++ [3, 4, 5, 6, 7])

/-- A line interrupts if it may, and if it is behind line 2 only while that may. -/
def canInterrupt (l : Lines) (n : Nat) : Bool :=
  l.pending n && l.enabled n && (decide (n < 8) || l.enabled 2)

def pick (l : Lines) : Option Nat := order.find? l.canInterrupt

/-- Line `n` calls the function registered for vector `32 + n`, if it has one. -/
def called (l : Lines) (n : Nat) : List HandlerCall :=
  if 0x1000 < (l.handlers (32 + n)).toNat then [⟨32 + n, l.handlers (32 + n)⟩]
  else []

def step (l : Lines) : Event -> Lines
  | .raise n =>
      if n = 2 ∨ 16 ≤ n then l
      else { l with pending := Function.update l.pending n true }
  | .mask irq => { l with enabled := Function.update l.enabled irq.toNat false }
  | .unmask irq => { l with enabled := Function.update l.enabled irq.toNat true }
  | .register irq handler =>
      if irq < idtEntries then
        { l with handlers := Function.update l.handlers irq.toNat handler }
      else l
  | .interrupt =>
      match l.pick with
      | none => l
      | some n =>
          { l with pending := Function.update l.pending n false
                   calls := l.calls ++ l.called n }

/-- After `pic_init` nothing is raised and only the slave may interrupt. -/
def initial (handlers : Nat -> UInt32) : Lines where
  pending := fun _ => false
  enabled := fun n => decide (n = 2)
  handlers := handlers
  calls := []

end Lines

/-! ## The correspondence -/

/-- Lines of the master apart from the one that the slave is on. -/
def MasterAgrees (irr pending : Nat -> Bool) : Prop :=
  forall n, n < 8 -> n ≠ 2 -> irr n = pending n

def SlaveAgrees (irr pending : Nat -> Bool) : Prop :=
  forall n, n < 8 -> irr n = pending (8 + n)

section Agree

variable {irr pending : Nat -> Bool} {n : Nat} (b : Bool)

theorem MasterAgrees.update (h : MasterAgrees irr pending) (n : Nat) :
    MasterAgrees (Function.update irr n b) (Function.update pending n b) := by
  intro k hk hk2
  by_cases hkn : k = n
  · rw [hkn, Function.update_self, Function.update_self]
  · rw [Function.update_of_ne hkn, Function.update_of_ne hkn, h k hk hk2]

theorem MasterAgrees.update_slave (h : MasterAgrees irr pending) (hn : 8 ≤ n) :
    MasterAgrees irr (Function.update pending n b) := by
  intro k hk hk2
  rw [Function.update_of_ne (by omega), h k hk hk2]

theorem MasterAgrees.update_cascade (h : MasterAgrees irr pending) :
    MasterAgrees (Function.update irr 2 b) pending := by
  intro k hk hk2
  rw [Function.update_of_ne hk2, h k hk hk2]

theorem SlaveAgrees.update (h : SlaveAgrees irr pending) (hn : 8 ≤ n) :
    SlaveAgrees (Function.update irr (n - 8) b) (Function.update pending n b) := by
  intro k hk
  by_cases hkn : k = n - 8
  · have hline : 8 + k = n := by omega
    rw [hline, hkn, Function.update_self, Function.update_self]
  · rw [Function.update_of_ne hkn, Function.update_of_ne (by omega), h k hk]

theorem SlaveAgrees.update_master (h : SlaveAgrees irr pending) (hn : n < 8) :
    SlaveAgrees irr (Function.update pending n b) := by
  intro k hk
  rw [Function.update_of_ne (by omega), h k hk]

end Agree

/--
The controllers as the kernel has set them up, nothing in service, and the
lines, the masks, the handlers and the calls as the abstract machine has them.
-/
structure Tracks (s : Irqs) (l : Lines) : Prop where
  masterReady : s.pics.master.awaits = []
  slaveReady : s.pics.slave.awaits = []
  masterBase : s.pics.master.base = 0x20
  slaveBase : s.pics.slave.base = 0x28
  cascaded : s.pics.cascaded = true
  masterIdle : s.pics.master.inService = fun _ => false
  slaveIdle : s.pics.slave.inService = fun _ => false
  masterPending : MasterAgrees s.pics.master.irr l.pending
  slavePending : SlaveAgrees s.pics.slave.irr l.pending
  masterEnabled : forall n, n < 8 -> bit s.pics.master.imr n = !l.enabled n
  slaveEnabled : forall n, n < 8 -> bit s.pics.slave.imr n = !l.enabled (8 + n)
  handlers : s.isrHandlers = l.handlers
  calls : s.calls = l.calls

/-- The kernel after `pic_init`, whatever the controllers were doing before. -/
def afterPicInit (s : Irqs) : Irqs := { s with pics := picInit s.pics, calls := [] }

theorem tracks_afterPicInit (s : Irqs) :
    Tracks (afterPicInit s) (Lines.initial s.isrHandlers) := by
  have hpics : (afterPicInit s).pics =
      { master := ready 0x20 0x04 0xFB, slave := ready 0x28 0x02 0xFF } :=
    picRemap_eq s.pics 0x20 0x28
  constructor
  · rw [hpics]
    rfl
  · rw [hpics]
    rfl
  · rw [hpics]
    decide
  · rw [hpics]
    decide
  · rw [hpics]
    decide
  · rw [hpics]
    rfl
  · rw [hpics]
    rfl
  · rw [hpics]
    intro n _ _
    rfl
  · rw [hpics]
    intro n _
    rfl
  · rw [hpics]
    change forall n, n < 8 -> bit 0xFB n = !decide (n = 2)
    decide
  · rw [hpics]
    change forall n, n < 8 -> bit 0xFF n = !decide (8 + n = 2)
    decide
  · rfl
  · rfl

namespace Tracks

variable {s : Irqs} {l : Lines}

theorem raise (h : Tracks s l) (n : Nat) :
    Tracks (stepIrqs s (.raise n)) (l.step (.raise n)) := by
  unfold stepIrqs Pics.raise Lines.step
  dsimp only
  by_cases hout : n = 2 ∨ 16 ≤ n
  · rw [if_pos hout, if_pos hout]
    exact h
  · rw [if_neg hout, if_neg hout]
    by_cases hmaster : n < 8
    · rw [if_pos hmaster]
      exact { h with
        masterPending := h.masterPending.update true n
        slavePending := h.slavePending.update_master true hmaster }
    · rw [if_neg hmaster]
      exact { h with
        masterPending := h.masterPending.update_slave true (by omega)
        slavePending := h.slavePending.update true (by omega) }

theorem outb_master (h : Tracks s l) (v : UInt8) :
    s.pics.outb 0x21 v = { s.pics with master := { s.pics.master with imr := v } } := by
  unfold Pics.outb
  rw [if_neg (by decide), if_pos rfl, Pic8259.data_ready h.masterReady]

theorem outb_slave (h : Tracks s l) (v : UInt8) :
    s.pics.outb 0xA1 v = { s.pics with slave := { s.pics.slave with imr := v } } := by
  unfold Pics.outb
  rw [if_neg (by decide), if_neg (by decide), if_neg (by decide), if_pos rfl,
    Pic8259.data_ready h.slaveReady]

/-- Both mask functions change one bit of one mask, and so one of the lines. -/
theorem setLine (h : Tracks s l) (irq : UInt8) (on : Bool)
    (change : UInt8 -> Nat -> UInt8)
    (hchange : forall m k n, n < 8 ->
      bit (change m k) n = if k = n then !on else bit m n) :
    Tracks
      { s with pics :=
          if irq.toNat < 8 then s.pics.outb 0x21 (change (s.pics.inb 0x21) irq.toNat)
          else s.pics.outb 0xA1 (change (s.pics.inb 0xA1) (irq.toNat - 8)) }
      { l with enabled := Function.update l.enabled irq.toNat on } := by
  by_cases hmaster : irq.toNat < 8
  · rw [if_pos hmaster, h.outb_master]
    refine { h with masterEnabled := ?_, slaveEnabled := ?_ }
    · intro n hn
      have hbit := hchange s.pics.master.imr irq.toNat n hn
      change bit (change s.pics.master.imr irq.toNat) n =
        !Function.update l.enabled irq.toNat on n
      by_cases hirq : irq.toNat = n
      · rw [hbit, if_pos hirq, hirq, Function.update_self]
      · rw [hbit, if_neg hirq, Function.update_of_ne (Ne.symm hirq),
          h.masterEnabled n hn]
    · intro n hn
      change _ = !Function.update l.enabled irq.toNat on (8 + n)
      rw [Function.update_of_ne (by omega)]
      exact h.slaveEnabled n hn
  · rw [if_neg hmaster, h.outb_slave]
    refine { h with masterEnabled := ?_, slaveEnabled := ?_ }
    · intro n hn
      change _ = !Function.update l.enabled irq.toNat on n
      rw [Function.update_of_ne (by omega)]
      exact h.masterEnabled n hn
    · intro n hn
      have hbit := hchange s.pics.slave.imr (irq.toNat - 8) n hn
      change bit (change s.pics.slave.imr (irq.toNat - 8)) n =
        !Function.update l.enabled irq.toNat on (8 + n)
      by_cases hirq : irq.toNat = 8 + n
      · rw [hbit, if_pos (by omega), hirq, Function.update_self]
      · rw [hbit, if_neg (by omega), Function.update_of_ne (Ne.symm hirq),
          h.slaveEnabled n hn]

theorem mask (h : Tracks s l) (irq : UInt8) :
    Tracks (stepIrqs s (.mask irq)) (l.step (.mask irq)) := by
  apply h.setLine irq false (fun m k => m ||| UInt8.ofNat (1 <<< k))
  intro m k n hn
  rw [bit_or_shift m k n hn]
  by_cases hk : k = n <;> simp [hk]

theorem unmask (h : Tracks s l) (irq : UInt8) :
    Tracks (stepIrqs s (.unmask irq)) (l.step (.unmask irq)) := by
  apply h.setLine irq true (fun m k => m &&& ~~~UInt8.ofNat (1 <<< k))
  intro m k n hn
  rw [bit_and_not_shift m k n hn]
  by_cases hk : k = n <;> simp [hk]

theorem register (h : Tracks s l) (irq : Int) (handler : UInt32) :
    Tracks (stepIrqs s (.register irq handler)) (l.step (.register irq handler)) := by
  unfold stepIrqs isrRegisterHandler Lines.step
  dsimp only
  by_cases hirq : irq < idtEntries
  · rw [if_pos hirq, if_pos hirq]
    refine { h with handlers := ?_ }
    rw [h.handlers]
  · rw [if_neg hirq, if_neg hirq]
    exact h

/-! ## The line that is served -/

theorem range_eight : List.range 8 = [0, 1] ++ ([2] ++ [3, 4, 5, 6, 7]) := rfl

theorem accept_slave (h : Tracks s l) :
    s.pics.slave.accept s.pics.slave.irr =
      Pic8259.first fun n => l.pending (8 + n) && l.enabled (8 + n) := by
  rw [Pic8259.accept_idle h.slaveIdle]
  unfold Pic8259.first
  apply List.find?_congr
  intro n hn
  rw [h.slavePending n (List.mem_range.mp hn), h.slaveEnabled n (List.mem_range.mp hn),
    Bool.not_not]

/-- The lines behind the slave, in the order of the abstract machine. -/
theorem find_slave (h : Tracks s l) :
    ((List.range 8).map (8 + ·)).find? l.canInterrupt =
      if l.enabled 2 then
        (s.pics.slave.accept s.pics.slave.irr).map (8 + ·)
      else none := by
  rw [List.find?_map, h.accept_slave]
  unfold Pic8259.first
  cases h2 : l.enabled 2 with
  | true =>
      rw [if_pos rfl]
      congr 1
      apply List.find?_congr
      intro n _
      simp [Lines.canInterrupt, h2]
  | false =>
      rw [if_neg (by decide)]
      simp [Lines.canInterrupt, h2]

/-- The master signals a line of the slave where the order has the slave. -/
theorem accept_master (h : Tracks s l) :
    s.pics.master.accept s.pics.requests =
      ([0, 1].find? l.canInterrupt).or
        ((if (s.pics.slave.accept s.pics.slave.irr).isSome && l.enabled 2 then some 2
          else none).or ([3, 4, 5, 6, 7].find? l.canInterrupt)) := by
  have hown : forall n, n < 8 -> n ≠ 2 ->
      (s.pics.requests n && !bit s.pics.master.imr n) = l.canInterrupt n := by
    intro n hn hn2
    unfold Pics.requests Lines.canInterrupt
    rw [if_neg hn2, h.masterPending n hn hn2, h.masterEnabled n hn]
    simp [hn]
  have hcascade : (s.pics.requests 2 && !bit s.pics.master.imr 2) =
      ((s.pics.slave.accept s.pics.slave.irr).isSome && l.enabled 2) := by
    unfold Pics.requests
    rw [if_pos rfl, h.masterEnabled 2 (by decide), Bool.not_not]
  rw [Pic8259.accept_idle h.masterIdle]
  unfold Pic8259.first
  rw [range_eight, List.find?_append, List.find?_append]
  congr 1
  · apply List.find?_congr
    intro n hn
    apply hown n <;> simp at hn <;> omega
  · congr 1
    · rw [List.find?_singleton, hcascade]
    · apply List.find?_congr
      intro n hn
      apply hown n <;> simp at hn <;> omega

/-- The controllers after line `n` was taken into service. -/
def served (p : Pics) (n : Nat) : Pics :=
  if n < 8 then { p with master := p.master.serve n }
  else { master := p.master.serve 2, slave := p.slave.serve (n - 8) }

theorem acknowledge_own (h : Tracks s l) {n : Nat} (hn2 : n ≠ 2) (hn : n < 8)
    (haccept : s.pics.master.accept s.pics.requests = some n) :
    s.pics.acknowledge = some (served s.pics n, UInt8.ofNat (32 + n)) := by
  unfold Pics.acknowledge served
  rw [haccept]
  dsimp only
  rw [if_neg (fun hcascade => hn2 hcascade.left), if_pos hn, h.masterBase,
    UInt8.ofNat_add]
  rfl

theorem acknowledge_slave (h : Tracks s l) {k : Nat}
    (haccept : s.pics.master.accept s.pics.requests = some 2)
    (hslave : s.pics.slave.accept s.pics.slave.irr = some k) :
    s.pics.acknowledge = some (served s.pics (8 + k), UInt8.ofNat (32 + (8 + k))) := by
  unfold Pics.acknowledge served
  rw [haccept]
  dsimp only
  rw [if_pos ⟨rfl, h.cascaded⟩, hslave, if_neg (by omega), h.slaveBase,
    Nat.add_sub_cancel_left, ← Nat.add_assoc, UInt8.ofNat_add]
  rfl

/-- The processor is told the vector of the line that the order picks. -/
theorem acknowledge_eq (h : Tracks s l) :
    s.pics.acknowledge =
      l.pick.map fun n => (served s.pics n, UInt8.ofNat (32 + n)) := by
  have haccept := h.accept_master
  have hpick : l.pick = ([0, 1].find? l.canInterrupt).or
      ((((List.range 8).map (8 + ·)).find? l.canInterrupt).or
        ([3, 4, 5, 6, 7].find? l.canInterrupt)) := by
    unfold Lines.pick Lines.order
    rw [List.find?_append, List.find?_append]
  rw [h.find_slave] at hpick
  cases hfirst : [0, 1].find? l.canInterrupt with
  | some n =>
      have hmem : n ∈ [0, 1] := List.mem_of_find?_eq_some hfirst
      rw [hfirst, Option.some_or] at haccept hpick
      rw [hpick]
      exact h.acknowledge_own (by simp at hmem; omega) (by simp at hmem; omega) haccept
  | none =>
      rw [hfirst, Option.none_or] at haccept hpick
      have hlast : s.pics.master.accept s.pics.requests =
          [3, 4, 5, 6, 7].find? l.canInterrupt ->
            l.pick = [3, 4, 5, 6, 7].find? l.canInterrupt ->
              s.pics.acknowledge =
                l.pick.map fun n => (served s.pics n, UInt8.ofNat (32 + n)) := by
        intro haccept hpick
        rw [hpick]
        cases hown : [3, 4, 5, 6, 7].find? l.canInterrupt with
        | some n =>
            have hmem : n ∈ [3, 4, 5, 6, 7] := List.mem_of_find?_eq_some hown
            exact h.acknowledge_own (by simp at hmem; omega)
              (by simp at hmem; omega) (haccept.trans hown)
        | none =>
            unfold Pics.acknowledge
            rw [haccept, hown]
            rfl
      cases h2 : l.enabled 2 with
      | false => exact hlast (by simpa [h2] using haccept) (by simpa [h2] using hpick)
      | true =>
          cases hslave : s.pics.slave.accept s.pics.slave.irr with
          | none =>
              exact hlast (by simpa [hslave] using haccept)
                (by simpa [hslave] using hpick)
          | some k =>
              rw [h2, hslave] at haccept hpick
              rw [hpick]
              exact h.acknowledge_slave haccept hslave

/-! ## The end of an interrupt -/

/-- The controllers with the request of line `n` taken and nothing in service. -/
def cleared (p : Pics) (n : Nat) : Pics :=
  if n < 8 then
    { p with master := { p.master with irr := Function.update p.master.irr n false } }
  else
    { master := { p.master with irr := Function.update p.master.irr 2 false }
      slave := { p.slave with irr := Function.update p.slave.irr (n - 8) false } }

theorem outb_eoi_master (p : Pics) :
    p.outb 0x20 0x20 = { p with master := p.master.endOfInterrupt } := by
  unfold Pics.outb
  rw [if_pos rfl, Pic8259.command_eoi]

theorem outb_eoi_slave (p : Pics) :
    p.outb 0xA0 0x20 = { p with slave := p.slave.endOfInterrupt } := by
  unfold Pics.outb
  rw [if_neg (by decide), if_neg (by decide), if_pos rfl, Pic8259.command_eoi]

theorem picSendEoi_served (h : Tracks s l) {n : Nat} (hn : n < 16) :
    picSendEoi (served s.pics n) (UInt8.ofNat n) = cleared s.pics n := by
  have hline : (UInt8.ofNat n).toNat = n := by
    rw [UInt8.toNat_ofNat']
    exact Nat.mod_eq_of_lt (by omega)
  unfold picSendEoi served cleared
  rw [hline]
  by_cases hmaster : n < 8
  · rw [if_neg (by omega), if_pos hmaster, if_pos hmaster, outb_eoi_master,
      Pic8259.endOfInterrupt_serve h.masterIdle hmaster]
  · rw [if_pos (by omega), if_neg hmaster, if_neg hmaster, outb_eoi_slave,
      outb_eoi_master, Pic8259.endOfInterrupt_serve h.masterIdle (by decide),
      Pic8259.endOfInterrupt_serve h.slaveIdle (by omega)]

theorem pick_lt {n : Nat} (h : l.pick = some n) : n < 16 := by
  have hmem : n ∈ Lines.order := List.mem_of_find?_eq_some h
  simp [Lines.order] at hmem
  omega

theorem cleared_tracks (h : Tracks s l) (n : Nat) (calls : List HandlerCall) :
    Tracks { s with pics := cleared s.pics n, calls := s.calls ++ calls }
      { l with pending := Function.update l.pending n false
               calls := l.calls ++ calls } := by
  unfold cleared
  by_cases hmaster : n < 8
  · rw [if_pos hmaster]
    exact { h with
      masterPending := h.masterPending.update false n
      slavePending := h.slavePending.update_master false hmaster
      calls := congrArg (· ++ calls) h.calls }
  · rw [if_neg hmaster]
    exact { h with
      masterPending := (h.masterPending.update_slave false (by omega)).update_cascade false
      slavePending := h.slavePending.update false (by omega)
      calls := congrArg (· ++ calls) h.calls }

theorem toNat_vector {n : Nat} (hn : n < 16) : (UInt8.ofNat (32 + n)).toNat = 32 + n := by
  rw [UInt8.toNat_ofNat']
  exact Nat.mod_eq_of_lt (by omega)

/-- The function of a line is called if it is registered at a real address. -/
theorem callHandler_line (s : Irqs) {l : Lines} (hhandlers : s.isrHandlers = l.handlers)
    {n : Nat} (hn : n < 16) :
    callHandler s (UInt8.ofNat (32 + n)).toUInt32 =
      { s with calls := s.calls ++ l.called n } := by
  unfold callHandler Lines.called idtEntries
  rw [UInt8.toNat_toUInt32, toNat_vector hn, ← hhandlers]
  by_cases hcall : 0x1000 < (s.isrHandlers (32 + n)).toNat
  · have hnonzero : s.isrHandlers (32 + n) ≠ 0 := by
      intro hzero
      rw [hzero] at hcall
      exact absurd hcall (by decide)
    rw [if_pos ⟨by omega, hnonzero⟩, if_pos hcall, if_pos hcall]
  · rw [if_neg hcall, if_neg hcall, ite_self, List.append_nil]

theorem endIrq_served (h : Tracks s l) {n : Nat} (hn : n < 16) :
    endIrq (showFlash { s with pics := served s.pics n })
        (UInt8.ofNat (32 + n)).toUInt32 =
      { showFlash s with pics := cleared s.pics n } := by
  have hline : ((UInt8.ofNat (32 + n)).toUInt32 - 32).toUInt8 = UInt8.ofNat n := by
    rw [UInt32.toUInt8_sub, UInt8.toUInt8_toUInt32, UInt8.ofNat_add, UInt8.add_comm]
    exact UInt8.add_sub_cancel _ _
  unfold endIrq
  rw [UInt8.toNat_toUInt32, toNat_vector hn, if_pos (by omega), hline]
  exact congrArg (fun pics => { showFlash s with pics := pics })
    (h.picSendEoi_served hn)

theorem interrupt (h : Tracks s l) :
    Tracks (stepIrqs s .interrupt) (l.step .interrupt) := by
  have hack := h.acknowledge_eq
  unfold stepIrqs takeInterrupt Lines.step
  dsimp only
  cases hpick : l.pick with
  | none =>
      rw [hack, hpick]
      exact h
  | some n =>
      have hn := pick_lt hpick
      have htarget : target (UInt8.ofNat (32 + n)).toNat = .irqHandler := by
        rw [toNat_vector hn]
        exact if_neg (by omega)
      rw [hack, hpick, Option.map_some]
      dsimp only
      rw [htarget]
      dsimp only
      unfold irqHandler
      rw [h.endIrq_served hn,
        callHandler_line { showFlash s with pics := cleared s.pics n } h.handlers hn]
      exact { h.cleared_tracks n (l.called n) with }

theorem step (h : Tracks s l) (e : Event) : Tracks (stepIrqs s e) (l.step e) := by
  cases e with
  | raise n => exact h.raise n
  | mask irq => exact h.mask irq
  | unmask irq => exact h.unmask irq
  | register irq handler => exact h.register irq handler
  | interrupt => exact h.interrupt

end Tracks

/--
From `pic_init` on, through any order of raised lines, masks, registrations and
interrupts, the kernel with its two controllers is the set of sixteen lines: the
most urgent line that may interrupt is served, its function is called once with
its own vector, and afterwards nothing is left in service.
-/
theorem interrupts_tracked (s : Irqs) {events : List Event}
    (hvalid : forall e, e ∈ events -> e.Valid) :
    Tracks (run stepIrqs (afterPicInit s) events)
      (run Lines.step (Lines.initial s.isrHandlers) events) :=
  run_related (fun _ _ e _ h => h.step e) (tracks_afterPicInit s) hvalid

/-- A kernel whose controllers were left in the middle of an initialization. -/
def coldIrqs : Irqs where
  pics := { master := { ready 8 0 0 with awaits := [.icw3, .icw4] }
            slave := { ready 0x70 0 0 with inService := fun n => n == 3 } }
  isrHandlers := fun _ => 0
  flash := 0
  corner := (0, 0)
  calls := []

theorem timer_before_network_card :
    Tracks
      (run stepIrqs (afterPicInit coldIrqs)
        [.register 32 0x100100, .register 43 0x100200, .unmask 0, .unmask 11,
          .raise 11, .raise 0, .interrupt, .interrupt])
      (run Lines.step (Lines.initial fun _ => 0)
        [.register 32 0x100100, .register 43 0x100200, .unmask 0, .unmask 11,
          .raise 11, .raise 0, .interrupt, .interrupt]) :=
  interrupts_tracked coldIrqs (by
    intro e he
    simp only [List.mem_cons, List.not_mem_nil, or_false] at he
    rcases he with rfl | rfl | rfl | rfl | rfl | rfl | rfl | rfl <;>
      simp [Event.Valid])

end Arch
end EarlnuxOS
