import EarlnuxOS.Arch.Context
import EarlnuxOS.Types

/-!
# Descriptor tables

The segment descriptors that `gdt_init` installs and the gates of `idt_init`, as
the processor reads them, and the way from a vector through both tables to the
stub that runs.
-/

namespace EarlnuxOS
namespace Arch

open Foundation

/-! ## Segments -/

structure GdtEntry where
  limitLow : UInt16
  baseLow : UInt16
  baseMiddle : UInt8
  access : UInt8
  granularity : UInt8
  baseHigh : UInt8
  deriving DecidableEq

abbrev Gdt := Nat -> GdtEntry

def gdtEntries : Nat := 6

def gdtSetEntry (gdt : Gdt) (num : Nat) (base limit : UInt32)
    (access gran : UInt8) : Gdt :=
  Function.update gdt num
    { baseLow := (base &&& 0xFFFF).toUInt16
      baseMiddle := ((base >>> 16) &&& 0xFF).toUInt8
      baseHigh := ((base >>> 24) &&& 0xFF).toUInt8
      limitLow := (limit &&& 0xFFFF).toUInt16
      granularity := ((limit >>> 16) &&& 0x0F).toUInt8 ||| (gran &&& 0xF0)
      access := access }

/-- `gdt_init`, up to the load of the table. -/
def gdtInit (gdt : Gdt) : Gdt :=
  let gdt := gdtSetEntry gdt 0 0 0 0 0
  let gdt := gdtSetEntry gdt 1 0 0xFFFFFFFF 0x9A 0xCF
  let gdt := gdtSetEntry gdt 2 0 0xFFFFFFFF 0x92 0xCF
  let gdt := gdtSetEntry gdt 3 0 0xFFFFFFFF 0xFA 0xCF
  let gdt := gdtSetEntry gdt 4 0 0xFFFFFFFF 0xF2 0xCF
  gdtSetEntry gdt 5 0 0 0 0

namespace GdtEntry

def base (e : GdtEntry) : Nat :=
  e.baseLow.toNat + 2 ^ 16 * e.baseMiddle.toNat + 2 ^ 24 * e.baseHigh.toNat

def limit (e : GdtEntry) : Nat :=
  e.limitLow.toNat + 2 ^ 16 * (e.granularity.toNat % 16)

/-- The last offset inside the segment: the limit counts pages or bytes. -/
def last (e : GdtEntry) : Nat :=
  if e.granularity.toNat.testBit 7 then 4096 * e.limit + 4095 else e.limit

def present (e : GdtEntry) : Bool := e.access.toNat.testBit 7

end GdtEntry

theorem toNat_low_byte (x : UInt32) : (x &&& 0xFF).toUInt8.toNat = x.toNat % 256 := by
  have hmask := Nat.and_two_pow_sub_one_eq_mod x.toNat 8
  simp only [UInt32.toNat_toUInt8, UInt32.toNat_and]
  change (x.toNat &&& 2 ^ 8 - 1) % 2 ^ 8 = _
  omega

theorem toNat_low_half (x : UInt32) :
    (x &&& 0xFFFF).toUInt16.toNat = x.toNat % 2 ^ 16 := by
  have hmask := Nat.and_two_pow_sub_one_eq_mod x.toNat 16
  simp only [UInt32.toNat_toUInt16, UInt32.toNat_and]
  change (x.toNat &&& 2 ^ 16 - 1) % 2 ^ 16 = _
  omega

theorem toNat_high_bits (x : UInt32) {k : Nat} (hk : k < 32) :
    (x >>> UInt32.ofNat k).toNat = x.toNat / 2 ^ k := by
  rw [UInt32.toNat_shiftRight, UInt32.toNat_ofNat', Nat.shiftRight_eq_div_pow]
  rw [Nat.mod_eq_of_lt (show k < 2 ^ 32 by omega), Nat.mod_eq_of_lt hk]

/-- The two nibbles of the granularity byte come from different arguments. -/
theorem toNat_granularity (limit : UInt32) (gran : UInt8) :
    (((limit >>> 16) &&& 0x0F).toUInt8 ||| (gran &&& 0xF0)).toNat =
      2 ^ 4 * (gran.toNat / 2 ^ 4) + limit.toNat / 2 ^ 16 % 2 ^ 4 := by
  have hmask := Nat.and_two_pow_sub_one_eq_mod (limit.toNat / 2 ^ 16) 4
  have hlow : ((limit >>> 16) &&& 0x0F).toUInt8.toNat =
      limit.toNat / 2 ^ 16 % 2 ^ 4 := by
    have hshift := toNat_high_bits limit (k := 16) (by decide)
    rw [UInt32.toNat_toUInt8, UInt32.toNat_and]
    change ((limit >>> UInt32.ofNat 16).toNat &&& 2 ^ 4 - 1) % 2 ^ 8 = _
    rw [hshift, hmask]
    omega
  have hhigh : (gran &&& 0xF0).toNat = 2 ^ 4 * (gran.toNat / 2 ^ 4) := by
    have hbits := and_high_bits (k := 4) gran.toNat_lt (by decide)
    rw [UInt8.toNat_and, Nat.mul_comm]
    exact hbits
  rw [UInt8.toNat_or, hlow, hhigh, Nat.or_comm]
  exact (Nat.two_pow_add_eq_or_of_lt (Nat.mod_lt _ (by decide)) _).symm

/-- A descriptor says what it was made from; only 20 bits of the limit fit. -/
theorem gdtSetEntry_decode (gdt : Gdt) (num : Nat) (base limit : UInt32)
    (access gran : UInt8) :
    (gdtSetEntry gdt num base limit access gran num).base = base.toNat ∧
      (gdtSetEntry gdt num base limit access gran num).limit =
        limit.toNat % 2 ^ 20 ∧
      (gdtSetEntry gdt num base limit access gran num).granularity.toNat / 16 =
        gran.toNat / 16 ∧
      (gdtSetEntry gdt num base limit access gran num).access = access := by
  have hbase := base.toNat_lt
  have hgran := gran.toNat_lt
  have hmiddle := toNat_high_bits base (k := 16) (by decide)
  have hhigh := toNat_high_bits base (k := 24) (by decide)
  have hgranularity := toNat_granularity limit gran
  unfold gdtSetEntry GdtEntry.base GdtEntry.limit
  rw [Function.update_self]
  dsimp only
  refine ⟨?_, ?_, ?_, rfl⟩
  · rw [toNat_low_half, toNat_low_byte, toNat_low_byte]
    change _ + 2 ^ 16 * ((base >>> UInt32.ofNat 16).toNat % 256) +
      2 ^ 24 * ((base >>> UInt32.ofNat 24).toNat % 256) = _
    omega
  · rw [toNat_low_half, hgranularity]
    omega
  · rw [hgranularity]
    omega

/--
The descriptor behind a selector: one of the table, not the null descriptor and
not one of a local table.
-/
def segment (gdt : Gdt) (entries : Nat) (sel : UInt16) : Option GdtEntry :=
  let index := sel.toNat / 8
  if sel.toNat.testBit 2 ∨ index = 0 ∨ entries ≤ index then none
  else if (gdt index).present then some (gdt index) else none

/-- The linear address of an offset, which must lie within the limit. -/
def linear (gdt : Gdt) (entries : Nat) (sel : UInt16) (offset : UInt32) :
    Option UInt32 :=
  (segment gdt entries sel).bind fun e =>
    if offset.toNat ≤ e.last then some (UInt32.ofNat (e.base + offset.toNat))
    else none

structure Flat (e : GdtEntry) : Prop where
  base : e.base = 0
  last : e.last = 2 ^ 32 - 1
  present : e.present = true

theorem Flat.linear_eq {gdt : Gdt} {entries : Nat} {sel : UInt16}
    (h : Flat (gdt (sel.toNat / 8))) (hlocal : sel.toNat.testBit 2 = false)
    (hindex : 1 ≤ sel.toNat / 8) (hentries : sel.toNat / 8 < entries)
    (offset : UInt32) : linear gdt entries sel offset = some offset := by
  have hoffset := offset.toNat_lt
  unfold linear segment
  simp only [hlocal, Bool.false_eq_true, false_or, h.present, if_true]
  rw [if_neg (by omega)]
  change (if _ then _ else _) = _
  rw [h.base, h.last, if_pos (by omega), Nat.zero_add, UInt32.ofNat_toNat]

theorem flat_gdtSetEntry (gdt : Gdt) (num : Nat) (access : UInt8)
    (haccess : access.toNat.testBit 7 = true) :
    Flat (gdtSetEntry gdt num 0 0xFFFFFFFF access 0xCF num) := by
  rcases gdtSetEntry_decode gdt num 0 0xFFFFFFFF access 0xCF with
    ⟨hbase, hlimit, hgran, hkept⟩
  have hpages : (gdtSetEntry gdt num 0 0xFFFFFFFF access 0xCF num).granularity.toNat.testBit 7 =
      true := by
    have hhigh := Nat.testBit_div_two_pow (i := 3)
      (gdtSetEntry gdt num 0 0xFFFFFFFF access 0xCF num).granularity.toNat (n := 4)
    rw [← hhigh, hgran]
    decide
  constructor
  · exact hbase
  · unfold GdtEntry.last
    rw [if_pos hpages, hlimit]
    decide
  · unfold GdtEntry.present
    rw [hkept]
    exact haccess

/-- The code and data segments of `gdt_init`, at both privilege levels. -/
theorem gdtInit_flat (gdt : Gdt) {index : Nat} (hlow : 1 ≤ index)
    (hhigh : index ≤ 4) : Flat (gdtInit gdt index) := by
  rcases (by omega : index = 1 ∨ index = 2 ∨ index = 3 ∨ index = 4) with
    rfl | rfl | rfl | rfl
  · exact flat_gdtSetEntry gdt 1 0x9A (by decide)
  · exact flat_gdtSetEntry gdt 2 0x92 (by decide)
  · exact flat_gdtSetEntry gdt 3 0xFA (by decide)
  · exact flat_gdtSetEntry gdt 4 0xF2 (by decide)

theorem gdtInit_absent (gdt : Gdt) {index : Nat} (hindex : index = 0 ∨ index = 5) :
    (gdtInit gdt index).present = false := by
  have hentry : gdtInit gdt index = ⟨0, 0, 0, 0, 0, 0⟩ := by
    rcases hindex with rfl | rfl <;> rfl
  rw [hentry]
  decide

/--
After `gdt_init` a selector maps every offset to itself, if it picks one of the
four segments, and no offset otherwise.
-/
theorem linear_gdtInit (gdt : Gdt) (sel : UInt16) (offset : UInt32) :
    linear (gdtInit gdt) gdtEntries sel offset =
      if sel.toNat.testBit 2 = false ∧ 1 ≤ sel.toNat / 8 ∧ sel.toNat / 8 ≤ 4 then
        some offset
      else none := by
  by_cases hflat : sel.toNat.testBit 2 = false ∧ 1 ≤ sel.toNat / 8 ∧
      sel.toNat / 8 ≤ 4
  · rw [if_pos hflat]
    rcases hflat with ⟨hlocal, hlow, hhigh⟩
    exact (gdtInit_flat gdt hlow hhigh).linear_eq hlocal hlow
      (show _ < 6 by omega) offset
  · rw [if_neg hflat]
    suffices hnone : segment (gdtInit gdt) gdtEntries sel = none by
      unfold linear
      rw [hnone]
      rfl
    unfold segment gdtEntries
    by_cases hbad : sel.toNat.testBit 2 = true ∨ sel.toNat / 8 = 0 ∨
        6 ≤ sel.toNat / 8
    · exact if_pos hbad
    · have hlocal : sel.toNat.testBit 2 = false := by
        cases hbit : sel.toNat.testBit 2 with
        | false => rfl
        | true => exact absurd (Or.inl hbit) hbad
      have hlast : sel.toNat / 8 = 5 := by
        simp only [hlocal, true_and, Bool.false_eq_true, false_or] at hflat hbad
        omega
      dsimp only
      rw [if_neg hbad, gdtInit_absent gdt (Or.inr hlast)]
      rfl

/-! ## Gates -/

structure IdtEntry where
  baseLow : UInt16
  sel : UInt16
  zero : UInt8
  flags : UInt8
  baseHigh : UInt16
  deriving DecidableEq

abbrev Idt := Nat -> IdtEntry

def idtSetGate (idt : Idt) (num : UInt8) (base : UInt32) (sel : UInt16)
    (flags : UInt8) : Idt :=
  Function.update idt num.toNat
    { baseLow := (base &&& 0xFFFF).toUInt16
      baseHigh := ((base >>> 16) &&& 0xFFFF).toUInt16
      sel := sel
      zero := 0
      flags := flags }

/-- `KERNEL_CS << 3` -/
def kernelCs : UInt16 := 0x08

def idtGateInterrupt : UInt8 := 0x8E

/-- Gates for stubs that stand one behind the other in the table. -/
def idtSetGates (idt : Idt) (first : Nat) (stubs : Nat -> UInt32) (n : Nat) : Idt :=
  (List.range n).foldl (fun idt k => idtSetGate idt (UInt8.ofNat (first + k)) (stubs k)
    kernelCs idtGateInterrupt) idt

/-- `idt_init`, with the addresses of the 32 and the 16 stubs. -/
def idtInit (isrAddr irqAddr : Nat -> UInt32) : Idt :=
  let idt : Idt := fun _ => ⟨0, 0, 0, 0, 0⟩
  let idt := idtSetGates idt 0 isrAddr 32
  idtSetGates idt 32 irqAddr 16

/-- The selector and the address behind a vector, if its gate is present. -/
def gate (idt : Idt) (vector : Nat) : Option (UInt16 × UInt32) :=
  let e := idt vector
  if e.flags.toNat.testBit 7 ∧ e.flags.toNat % 32 = 14 then
    some (e.sel, UInt32.ofNat (e.baseLow.toNat + 2 ^ 16 * e.baseHigh.toNat))
  else none

theorem gate_idtSetGate_self (idt : Idt) (num : UInt8) (base : UInt32) (sel : UInt16) :
    gate (idtSetGate idt num base sel idtGateInterrupt) num.toNat =
      some (sel, base) := by
  have hbase := base.toNat_lt
  have hhigh := toNat_high_bits base (k := 16) (by decide)
  unfold gate idtSetGate
  rw [Function.update_self]
  dsimp only
  rw [if_pos (by decide), toNat_low_half, toNat_low_half]
  congr 2
  apply UInt32.toNat_inj.mp
  rw [UInt32.toNat_ofNat']
  change (_ + 2 ^ 16 * ((base >>> UInt32.ofNat 16).toNat % 2 ^ 16)) % 2 ^ 32 = _
  omega

theorem gate_idtSetGate_of_ne (idt : Idt) {num : UInt8} {vector : Nat}
    (h : vector ≠ num.toNat) (base : UInt32) (sel : UInt16) (flags : UInt8) :
    gate (idtSetGate idt num base sel flags) vector = gate idt vector := by
  unfold gate idtSetGate
  rw [Function.update_of_ne h]

/-- A row of gates sends each of its vectors to the stub of its own number. -/
theorem gate_idtSetGates (idt : Idt) (first : Nat) (stubs : Nat -> UInt32) {n : Nat}
    (hn : first + n ≤ 256) (vector : Nat) :
    gate (idtSetGates idt first stubs n) vector =
      if first ≤ vector ∧ vector < first + n then
        some (kernelCs, stubs (vector - first))
      else gate idt vector := by
  induction n with
  | zero =>
      rw [if_neg (by omega)]
      rfl
  | succ n ih =>
      have hnum : (UInt8.ofNat (first + n)).toNat = first + n := by
        rw [UInt8.toNat_ofNat']
        exact Nat.mod_eq_of_lt (by omega)
      have hrow := ih (by omega)
      unfold idtSetGates at hrow ⊢
      rw [List.range_succ, List.foldl_append, List.foldl_cons, List.foldl_nil]
      by_cases hlast : vector = first + n
      · have hself := gate_idtSetGate_self (idtSetGates idt first stubs n)
          (UInt8.ofNat (first + n)) (stubs n) kernelCs
        rw [hnum] at hself
        rw [hlast, if_pos (by omega), Nat.add_sub_cancel_left]
        exact hself
      · rw [gate_idtSetGate_of_ne _ (by omega), hrow]
        by_cases hold : first ≤ vector ∧ vector < first + n
        · rw [if_pos hold, if_pos (by omega)]
        · rw [if_neg hold, if_neg (by omega)]

/-- After `idt_init` every exception and every line has a gate, and nothing else. -/
theorem gate_idtInit (isrAddr irqAddr : Nat -> UInt32) (vector : Nat) :
    gate (idtInit isrAddr irqAddr) vector =
      if vector < 32 then some (kernelCs, isrAddr vector)
      else if vector < 48 then some (kernelCs, irqAddr (vector - 32))
      else none := by
  unfold idtInit
  dsimp only
  rw [gate_idtSetGates _ 32 irqAddr (by decide),
    gate_idtSetGates _ 0 isrAddr (by decide)]
  by_cases hexception : vector < 32
  · rw [if_neg (by omega), if_pos (by omega), if_pos hexception, Nat.sub_zero]
  · rw [if_neg hexception]
    by_cases hline : vector < 48
    · rw [if_pos (by omega), if_pos hline]
    · rw [if_neg (by omega), if_neg (by omega), if_neg hline]
      exact if_neg (by simp)

/-! ## From the vector to the stub -/

structure Linked (text : UInt32 -> List Instr) (isrAddr irqAddr : Nat -> UInt32) :
    Prop where
  isr : forall n, n < 32 -> text (isrAddr n) = stub n
  irq : forall n, n < 16 -> text (irqAddr n) = stub (32 + n)

/--
An interrupt through the tables: nothing runs if the gate is not there or its
segment does not reach the stub.
-/
def deliver (gdt : Gdt) (idt : Idt) (text : UInt32 -> List Instr)
    (code : Target -> Cpu -> Cpu) (ret : UInt32) (c : Cpu) (vector : Nat)
    (error : Option UInt32) : Option Cpu :=
  (gate idt vector).bind fun g =>
    (linear gdt gdtEntries g.1 g.2).map fun address =>
      (c.enter error).exec code ret (text address)

theorem linear_kernelCs (gdt : Gdt) (offset : UInt32) :
    linear (gdtInit gdt) gdtEntries kernelCs offset = some offset :=
  (@gdtInit_flat gdt 1 (by decide) (by decide)).linear_eq (by decide)
    (by decide) (by decide) offset

/-- With the tables of the kernel each vector below 48 runs its own stub. -/
theorem deliver_eq {text : UInt32 -> List Instr} {isrAddr irqAddr : Nat -> UInt32}
    (hlinked : Linked text isrAddr irqAddr) (gdt : Gdt)
    (code : Target -> Cpu -> Cpu) (ret : UInt32) (c : Cpu) (vector : Nat)
    (error : Option UInt32) :
    deliver (gdtInit gdt) (idtInit isrAddr irqAddr) text code ret c vector error =
      if vector < 48 then some (interrupt code ret c vector error) else none := by
  unfold deliver interrupt
  rw [gate_idtInit]
  by_cases hexception : vector < 32
  · rw [if_pos hexception, if_pos (by omega), Option.bind_some, linear_kernelCs,
      Option.map_some, hlinked.isr vector hexception]
  · rw [if_neg hexception]
    by_cases hline : vector < 48
    · have hvector : 32 + (vector - 32) = vector := by omega
      rw [if_pos hline, if_pos hline, Option.bind_some, linear_kernelCs,
        Option.map_some, hlinked.irq _ (by omega), hvector]
    · rw [if_neg hline, if_neg hline]
      rfl

/--
An interrupt that finds the tables of the kernel comes back to the program it
interrupted, with every register as it was, exactly when its vector is below 48,
the processor pushed an error code for just the vectors whose stubs expect one,
and the four data segment registers were equal.
-/
theorem deliver_resumes_iff {text : UInt32 -> List Instr}
    {isrAddr irqAddr : Nat -> UInt32} (hlinked : Linked text isrAddr irqAddr)
    (gdt : Gdt) {code : Target -> Cpu -> Cpu} {ret : UInt32} {c : Cpu}
    {vector : Nat} {error : Option UInt32} (hroom : 68 ≤ c.esp.toNat)
    (hreturns : Returns c.esp.toNat (called ret c vector error)
      (code (target vector) (called ret c vector error))) :
    (exists f, deliver (gdtInit gdt) (idtInit isrAddr irqAddr) text code ret c
        vector error = some f ∧ Resumed c f) ↔
      vector < 48 ∧ (error.isSome ↔ vector ∈ errVectors) ∧
        forall s, c.seg s = c.seg .ds := by
  rw [deliver_eq hlinked, ← interrupt_resumes_iff hroom hreturns]
  by_cases hvector : vector < 48
  · rw [if_pos hvector]
    constructor
    · rintro ⟨f, hf, hresumed⟩
      cases hf
      exact ⟨hvector, hresumed⟩
    · rintro ⟨_, hresumed⟩
      exact ⟨_, rfl, hresumed⟩
  · rw [if_neg hvector]
    constructor
    · rintro ⟨f, hf, _⟩
      cases hf
    · rintro ⟨hlt, _⟩
      exact absurd hlt hvector

/-- A program text with the stub of each vector at sixteen times its number. -/
def sparseText (a : UInt32) : List Instr := stub (a.toNat / 16)

theorem sparseText_linked :
    Linked sparseText (fun n => UInt32.ofNat (16 * n))
      (fun n => UInt32.ofNat (16 * (32 + n))) := by
  have hstub : forall n, n < 48 ->
      sparseText (UInt32.ofNat (16 * n)) = stub n := by
    intro n hn
    unfold sparseText
    rw [UInt32.toNat_ofNat', Nat.mod_eq_of_lt (by omega),
      Nat.mul_div_cancel_left n (by decide)]
  exact ⟨fun n hn => hstub n (by omega), fun n hn => hstub (32 + n) (by omega)⟩

theorem keyboard_interrupt_resumes :
    exists f, deliver (gdtInit fun _ => ⟨0, 0, 0, 0, 0, 0⟩)
        (idtInit (fun n => UInt32.ofNat (16 * n))
          (fun n => UInt32.ofNat (16 * (32 + n))))
        sparseText returnAtOnce 0x1000 idleCpu 33 none = some f ∧
      Resumed idleCpu f :=
  (deliver_resumes_iff sparseText_linked _ (by decide)
    ⟨rfl, fun _ _ _ => rfl⟩).mpr ⟨by decide, by decide, fun _ => rfl⟩

end Arch
end EarlnuxOS
