import Mathlib.Data.UInt
import Mathlib.Logic.Function.Basic

/-!
# The interrupt controllers

`kernel/drivers/pic.c` over the pair of 8259 controllers that it programs: a
master with lines 0 to 7 and a slave with lines 8 to 15 behind line 2.
-/

namespace EarlnuxOS
namespace Drivers

/-! ## The controllers -/

/-- The initialization words that a controller may still wait for. -/
inductive Icw where
  | icw2
  | icw3
  | icw4
  deriving DecidableEq

/-- One 8259: its registers, and the words that its data port takes next. -/
structure Pic8259 where
  imr : UInt8
  irr : Nat -> Bool
  inService : Nat -> Bool
  base : UInt8
  icw3 : UInt8
  icw4 : UInt8
  awaits : List Icw

def bit (m : UInt8) (n : Nat) : Bool := m.toNat.testBit n

namespace Pic8259

/-- The request line that comes first among those that satisfy `p`. -/
def first (p : Nat -> Bool) : Option Nat := (List.range 8).find? p

def endOfInterrupt (c : Pic8259) : Pic8259 :=
  match first c.inService with
  | none => c
  | some n => { c with inService := Function.update c.inService n false }

/--
A byte to the command port: the first word of an initialization, or the plain
end of interrupt.
-/
def command (c : Pic8259) (v : UInt8) : Pic8259 :=
  if bit v 4 then
    { c with imr := 0, irr := fun _ => false, inService := fun _ => false, icw4 := 0
             awaits := [.icw2] ++ (if bit v 1 then [] else [.icw3]) ++
               (if bit v 0 then [.icw4] else []) }
  else if v = 0x20 then c.endOfInterrupt
  else c

/-- A byte to the data port: the next initialization word, or the mask. -/
def data (c : Pic8259) (v : UInt8) : Pic8259 :=
  match c.awaits with
  | [] => { c with imr := v }
  | .icw2 :: rest => { c with base := v &&& 0xF8, awaits := rest }
  | .icw3 :: rest => { c with icw3 := v, awaits := rest }
  | .icw4 :: rest => { c with icw4 := v, awaits := rest }

/-- The line that a controller would signal, with these request lines. -/
def accept (c : Pic8259) (requests : Nat -> Bool) : Option Nat :=
  first fun n => requests n && !bit c.imr n &&
    (List.range (n + 1)).all fun m => !c.inService m

def serve (c : Pic8259) (n : Nat) : Pic8259 :=
  { c with irr := Function.update c.irr n false
           inService := Function.update c.inService n true }

end Pic8259

structure Pics where
  master : Pic8259
  slave : Pic8259

namespace Pics

/-- `outb` to a port of the controllers; other ports are not theirs. -/
def outb (p : Pics) (port : Nat) (v : UInt8) : Pics :=
  if port = 0x20 then { p with master := p.master.command v }
  else if port = 0x21 then { p with master := p.master.data v }
  else if port = 0xA0 then { p with slave := p.slave.command v }
  else if port = 0xA1 then { p with slave := p.slave.data v }
  else p

def inb (p : Pics) (port : Nat) : UInt8 :=
  if port = 0x21 then p.master.imr else if port = 0xA1 then p.slave.imr else 0xFF

def ioWait (p : Pics) : Pics := p.outb 0x80 0

/-- The request lines of the master: the slave is on the third. -/
def requests (p : Pics) (n : Nat) : Bool :=
  if n = 2 then (p.slave.accept p.slave.irr).isSome else p.master.irr n

/-- Whether the controllers were told that the slave is on line 2. -/
def cascaded (p : Pics) : Bool :=
  bit p.master.icw3 2 && p.slave.icw3.toNat % 8 == 2

/-- The answer to the processor: the state after it, and the vector. -/
def acknowledge (p : Pics) : Option (Pics × UInt8) :=
  match p.master.accept p.requests with
  | none => none
  | some n =>
      let served := { p with master := p.master.serve n }
      if n = 2 ∧ p.cascaded then
        match p.slave.accept p.slave.irr with
        | none => some (served, p.slave.base + 7)
        | some k => some ({ served with slave := p.slave.serve k },
            p.slave.base + UInt8.ofNat k)
      else some (served, p.master.base + UInt8.ofNat n)

/-- A device raises one of the sixteen lines; line 2 is taken. -/
def raise (p : Pics) (n : Nat) : Pics :=
  if n = 2 ∨ 16 ≤ n then p
  else if n < 8 then
    { p with master := { p.master with irr := Function.update p.master.irr n true } }
  else
    { p with slave := { p.slave with irr := Function.update p.slave.irr (n - 8) true } }

end Pics

/-! ## The driver -/

def picRemap (p : Pics) (offset1 offset2 : UInt8) : Pics :=
  let p := (p.outb 0x20 0x11).ioWait
  let p := (p.outb 0xA0 0x11).ioWait
  let p := (p.outb 0x21 offset1).ioWait
  let p := (p.outb 0xA1 offset2).ioWait
  let p := (p.outb 0x21 0x04).ioWait
  let p := (p.outb 0xA1 0x02).ioWait
  let p := (p.outb 0x21 0x01).ioWait
  let p := (p.outb 0xA1 0x01).ioWait
  (p.outb 0x21 0xFB).outb 0xA1 0xFF

def picInit (p : Pics) : Pics := picRemap p 0x20 0x28

def picSendEoi (p : Pics) (irq : UInt8) : Pics :=
  let p := if 8 ≤ irq.toNat then p.outb 0xA0 0x20 else p
  p.outb 0x20 0x20

/-- `pic_mask_irq`; the shifted one is cut to a byte. -/
def picMaskIrq (p : Pics) (irq : UInt8) : Pics :=
  if irq.toNat < 8 then
    p.outb 0x21 (p.inb 0x21 ||| UInt8.ofNat (1 <<< irq.toNat))
  else p.outb 0xA1 (p.inb 0xA1 ||| UInt8.ofNat (1 <<< (irq.toNat - 8)))

def picUnmaskIrq (p : Pics) (irq : UInt8) : Pics :=
  if irq.toNat < 8 then
    p.outb 0x21 (p.inb 0x21 &&& ~~~UInt8.ofNat (1 <<< irq.toNat))
  else p.outb 0xA1 (p.inb 0xA1 &&& ~~~UInt8.ofNat (1 <<< (irq.toNat - 8)))

/-! ## Masks as sets of lines -/

theorem bit_or_shift (m : UInt8) (k n : Nat) (hn : n < 8) :
    bit (m ||| UInt8.ofNat (1 <<< k)) n = (bit m n || decide (k = n)) := by
  unfold bit
  rw [UInt8.toNat_or, Nat.testBit_or, UInt8.toNat_ofNat', Nat.testBit_mod_two_pow,
    Nat.one_shiftLeft, Nat.testBit_two_pow]
  simp only [hn, decide_true, Bool.true_and]

theorem bit_and_not_shift (m : UInt8) (k n : Nat) (hn : n < 8) :
    bit (m &&& ~~~UInt8.ofNat (1 <<< k)) n = (bit m n && !decide (k = n)) := by
  have hbits := Nat.testBit_two_pow_sub_succ (n := 8) (i := n)
    (UInt8.ofNat (1 <<< k)).toNat_lt
  have hnot : (~~~UInt8.ofNat (1 <<< k)).toNat =
      2 ^ 8 - ((UInt8.ofNat (1 <<< k)).toNat + 1) := by
    rw [UInt8.toNat_not, Nat.add_comm, Nat.sub_add_eq]
    rfl
  unfold bit
  rw [UInt8.toNat_and, Nat.testBit_and, hnot, hbits, UInt8.toNat_ofNat',
    Nat.testBit_mod_two_pow, Nat.one_shiftLeft, Nat.testBit_two_pow]
  simp only [hn, decide_true, Bool.true_and]

/-! ## Controllers with nothing in service -/

namespace Pic8259

variable {c : Pic8259} {n : Nat}

theorem first_eq_some {p : Nat -> Bool} :
    first p = some n ↔ p n = true ∧ n < 8 ∧ forall m, m < n -> p m = false := by
  unfold first
  simp [List.find?_range_eq_some]

theorem accept_idle (h : c.inService = fun _ => false) (requests : Nat -> Bool) :
    c.accept requests = first fun n => requests n && !bit c.imr n := by
  unfold accept
  congr 1
  funext n
  simp [h]

theorem endOfInterrupt_serve (h : c.inService = fun _ => false) (hn : n < 8) :
    (c.serve n).endOfInterrupt = { c with irr := Function.update c.irr n false } := by
  have hfirst : first (c.serve n).inService = some n := by
    rw [first_eq_some]
    simp only [serve, h]
    constructor
    · simp
    · constructor
      · exact hn
      · intro m hm
        simp [Nat.ne_of_lt hm]
  unfold endOfInterrupt
  rw [hfirst]
  dsimp only
  unfold serve
  congr 1
  rw [Function.update_idem, h]
  exact Function.update_eq_self n _

theorem data_ready (h : c.awaits = []) (v : UInt8) :
    c.data v = { c with imr := v } := by
  cases c
  cases h
  rfl

theorem command_eoi (c : Pic8259) : c.command 0x20 = c.endOfInterrupt := by
  unfold command
  rw [if_neg (by decide), if_pos rfl]

end Pic8259

/-- What `pic_remap` makes of a controller, whatever it was doing. -/
def ready (base icw3 imr : UInt8) : Pic8259 where
  imr := imr
  irr := fun _ => false
  inService := fun _ => false
  base := base &&& 0xF8
  icw3 := icw3
  icw4 := 0x01
  awaits := []

theorem picRemap_eq (p : Pics) (offset1 offset2 : UInt8) :
    picRemap p offset1 offset2 =
      { master := ready offset1 0x04 0xFB, slave := ready offset2 0x02 0xFF } := by
  rfl

end Drivers
end EarlnuxOS
