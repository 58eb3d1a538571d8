import Mathlib.Data.List.ProdSigma
import Mathlib.Data.Nat.Bitwise
import Mathlib.Data.UInt

/-!
# The scan of the PCI bus

`kernel/drivers/pci.c`.  A function of a device is behind two ports: the address
of a register goes to the first one, and the second one has the register.
-/

namespace EarlnuxOS
namespace Drivers

/-!
# The configuration space
-/

/-- A function on the bus: `bus`, `slot` and `func`. -/
abbrev PciFunction := Nat × Nat × Nat

/-- The address that was put out last, and the registers of each function. -/
structure PciPorts where
  address : UInt32
  config : PciFunction -> Nat -> UInt32

def pciConfigAddress : Nat := 0xCF8
def pciConfigData : Nat := 0xCFC

namespace PciPorts

def selected (a : UInt32) : PciFunction × Nat :=
  ((a.toNat / 2 ^ 16 % 2 ^ 8, a.toNat / 2 ^ 11 % 2 ^ 5, a.toNat / 2 ^ 8 % 2 ^ 3),
    a.toNat / 4 % 2 ^ 6)

/-- Only with its highest bit set does an address select a register. -/
def outl (p : PciPorts) (port : Nat) (v : UInt32) : PciPorts :=
  if port = pciConfigAddress then { p with address := v }
  else if port = pciConfigData ∧ 2 ^ 31 ≤ p.address.toNat then
    let s := selected p.address
    let registers := Function.update (p.config s.1) s.2 v
    { p with config := Function.update p.config s.1 registers }
  else p

def inl (p : PciPorts) (port : Nat) : UInt32 :=
  if port = pciConfigData ∧ 2 ^ 31 ≤ p.address.toNat then
    let s := selected p.address
    p.config s.1 s.2
  else 0xFFFFFFFF

end PciPorts

def pciAddress (bus slot func offset : UInt8) : UInt32 :=
  (bus.toUInt32 <<< 16) ||| (slot.toUInt32 <<< 11) ||| (func.toUInt32 <<< 8) |||
    (offset &&& 0xfc).toUInt32 ||| 0x80000000

def pciConfigReadDword (p : PciPorts) (bus slot func offset : UInt8) :
    UInt32 × PciPorts :=
  let p := p.outl pciConfigAddress (pciAddress bus slot func offset)
  (p.inl pciConfigData, p)

def pciConfigWriteDword (p : PciPorts) (bus slot func offset : UInt8)
    (val : UInt32) : PciPorts :=
  (p.outl pciConfigAddress (pciAddress bus slot func offset)).outl
    pciConfigData val

/-!
# The scan
-/

structure PciDevice where
  bus : UInt8
  device : UInt8
  function : UInt8
  vendorId : UInt16
  deviceId : UInt16
  classId : UInt16
  bar0 : UInt32
  irq : UInt8
deriving DecidableEq

/-- The ports, `device_count`, and what `rtl8139_init` was called with. -/
structure PciScan where
  ports : PciPorts
  deviceCount : UInt32
  inits : List PciDevice

def PciDevice.isRtl8139 (dev : PciDevice) : Bool :=
  dev.vendorId == 0x10EC && dev.deviceId == 0x8139

def PciScan.visit (s : PciScan) (bus slot func : UInt8) : PciScan :=
  let vendorDevice := pciConfigReadDword s.ports bus slot func 0
  if vendorDevice.1 &&& 0xFFFF = 0xFFFF then { s with ports := vendorDevice.2 }
  else
    let classRev := pciConfigReadDword vendorDevice.2 bus slot func 0x08
    let bar0 := pciConfigReadDword classRev.2 bus slot func 0x10
    let irqInfo := pciConfigReadDword bar0.2 bus slot func 0x3C
    let dev : PciDevice :=
      { bus := bus
        device := slot
        function := func
        vendorId := (vendorDevice.1 &&& 0xFFFF).toUInt16
        deviceId := ((vendorDevice.1 >>> 16) &&& 0xFFFF).toUInt16
        classId := (classRev.1 >>> 16).toUInt16
        bar0 := bar0.1
        irq := (irqInfo.1 &&& 0xFF).toUInt8 }
    { ports := irqInfo.2
      deviceCount := s.deviceCount + 1
      inits := if dev.isRtl8139 then s.inits ++ [dev] else s.inits }

def pciInit (p : PciPorts) : PciScan :=
  (List.range 256).foldl
    (fun s bus => (List.range 32).foldl
      (fun s slot => (List.range 8).foldl
        (fun s func =>
          s.visit (UInt8.ofNat bus) (UInt8.ofNat slot) (UInt8.ofNat func)) s) s)
    { ports := p
      deviceCount := 0
      inits := [] }

/-!
# What is on the bus
-/

def pciFunctions : List PciFunction :=
  List.range 256 ×ˢ (List.range 32 ×ˢ List.range 8)

/-- A function that is not there answers with ones. -/
def PciPorts.present (p : PciPorts) (f : PciFunction) : Bool :=
  p.config f 0 &&& 0xFFFF != 0xFFFF

def PciPorts.deviceAt (p : PciPorts) (f : PciFunction) : PciDevice where
  bus := UInt8.ofNat f.1
  device := UInt8.ofNat f.2.1
  function := UInt8.ofNat f.2.2
  vendorId := (p.config f 0 &&& 0xFFFF).toUInt16
  deviceId := ((p.config f 0 >>> 16) &&& 0xFFFF).toUInt16
  classId := (p.config f 2 >>> 16).toUInt16
  bar0 := p.config f 4
  irq := (p.config f 15 &&& 0xFF).toUInt8

/-!
# Addresses
-/

theorem toNat_offset (offset : UInt8) :
    (offset &&& 0xfc).toNat = offset.toNat / 4 * 4 := by
  have hall : forall n, n < 256 -> n &&& 0xfc = n / 4 * 4 := by
    decide +kernel
  rw [UInt8.toNat_and]
  exact hall _ offset.toNat_lt

theorem toNat_shifted (b : UInt8) {k : UInt32} {i : Nat} (hk : k.toNat = i)
    (hi : i ≤ 24) : (b.toUInt32 <<< k).toNat = 2 ^ i * b.toNat := by
  have hlt := b.toNat_lt
  have hpow : 2 ^ i * b.toNat < 2 ^ 32 := by
    calc 2 ^ i * b.toNat < 2 ^ i * 2 ^ 8 :=
          Nat.mul_lt_mul_of_pos_left hlt (Nat.two_pow_pos i)
      _ ≤ 2 ^ 24 * 2 ^ 8 :=
          Nat.mul_le_mul_right _ (Nat.pow_le_pow_right (by decide) hi)
      _ = 2 ^ 32 := by decide
  rw [UInt32.toNat_shiftLeft, UInt8.toNat_toUInt32, hk,
    Nat.mod_eq_of_lt (show i < 32 by omega), Nat.shiftLeft_eq, Nat.mul_comm,
    Nat.mod_eq_of_lt hpow]

theorem toNat_pciAddress {bus slot func : UInt8} (offset : UInt8)
    (hslot : slot.toNat < 32) (hfunc : func.toNat < 8) :
    (pciAddress bus slot func offset).toNat =
      2 ^ 31 + (2 ^ 16 * bus.toNat + 2 ^ 11 * slot.toNat +
        2 ^ 8 * func.toNat + offset.toNat / 4 * 4) := by
  have hbus := bus.toNat_lt
  have hoffset := offset.toNat_lt
  have hhigh : (0x80000000 : UInt32).toNat = 2 ^ 31 * 1 := rfl
  have hbusSlot : 2 ^ 16 * bus.toNat + 2 ^ 11 * slot.toNat =
      2 ^ 11 * (32 * bus.toNat + slot.toNat) := by omega
  have hbusFunc : 2 ^ 11 * (32 * bus.toNat + slot.toNat) + 2 ^ 8 * func.toNat =
      2 ^ 8 * (8 * (32 * bus.toNat + slot.toNat) + func.toNat) := by omega
  unfold pciAddress
  rw [UInt32.toNat_or, UInt32.toNat_or, UInt32.toNat_or, UInt32.toNat_or,
    toNat_shifted bus (i := 16) rfl (by decide),
    toNat_shifted slot (i := 11) rfl (by decide),
    toNat_shifted func (i := 8) rfl (by decide), UInt8.toNat_toUInt32,
    toNat_offset, hhigh]
  rw [← Nat.two_pow_add_eq_or_of_lt
      (show 2 ^ 11 * slot.toNat < 2 ^ 16 by omega), hbusSlot,
    ← Nat.two_pow_add_eq_or_of_lt
      (show 2 ^ 8 * func.toNat < 2 ^ 11 by omega), hbusFunc,
    ← Nat.two_pow_add_eq_or_of_lt
      (show offset.toNat / 4 * 4 < 2 ^ 8 by omega), Nat.or_comm,
    ← Nat.two_pow_add_eq_or_of_lt (i := 31) (by omega)]
  omega

/-!
# Registers
-/

theorem selected_pciAddress (bus : UInt8) {slot func : UInt8} (offset : UInt8)
    (hslot : slot.toNat < 32) (hfunc : func.toNat < 8) :
    2 ^ 31 ≤ (pciAddress bus slot func offset).toNat ∧
      PciPorts.selected (pciAddress bus slot func offset) =
        ((bus.toNat, slot.toNat, func.toNat), offset.toNat / 4) := by
  have hbus := bus.toNat_lt
  have hoffset := offset.toNat_lt
  unfold PciPorts.selected
  rw [toNat_pciAddress offset hslot hfunc]
  refine ⟨by omega, Prod.ext (Prod.ext ?_ (Prod.ext ?_ ?_)) ?_⟩
  · show _ / 2 ^ 16 % 2 ^ 8 = bus.toNat
    omega
  · show _ / 2 ^ 11 % 2 ^ 5 = slot.toNat
    omega
  · show _ / 2 ^ 8 % 2 ^ 3 = func.toNat
    omega
  · show _ / 4 % 2 ^ 6 = offset.toNat / 4
    omega

theorem pciConfigReadDword_eq (p : PciPorts) (bus : UInt8) {slot func : UInt8}
    (offset : UInt8) (hslot : slot.toNat < 32)
    (hfunc : func.toNat < 8) :
    (pciConfigReadDword p bus slot func offset).1 =
        p.config (bus.toNat, slot.toNat, func.toNat) (offset.toNat / 4) ∧
      (pciConfigReadDword p bus slot func offset).2.config = p.config := by
  rcases selected_pciAddress bus offset hslot hfunc with ⟨hhigh, hsel⟩
  unfold pciConfigReadDword PciPorts.outl
  rw [if_pos rfl]
  refine ⟨?_, rfl⟩
  unfold PciPorts.inl
  dsimp only
  rw [if_pos ⟨rfl, hhigh⟩, hsel]

theorem pciConfigWriteDword_config (p : PciPorts) (bus : UInt8)
    {slot func : UInt8} (offset : UInt8) (val : UInt32)
    (hslot : slot.toNat < 32) (hfunc : func.toNat < 8) :
    (pciConfigWriteDword p bus slot func offset val).config =
      Function.update p.config (bus.toNat, slot.toNat, func.toNat)
        (Function.update (p.config (bus.toNat, slot.toNat, func.toNat))
          (offset.toNat / 4) val) := by
  rcases selected_pciAddress bus offset hslot hfunc with ⟨hhigh, hsel⟩
  have hport : pciConfigData ≠ pciConfigAddress := by decide
  unfold pciConfigWriteDword PciPorts.outl
  rw [if_pos rfl, if_neg hport, if_pos ⟨rfl, hhigh⟩]
  dsimp only
  rw [hsel]

/-!
# One function after the other
-/

/-- The functions so far were seen as they are. -/
structure Scanned (p : PciPorts) (seen : List PciFunction) (s : PciScan) :
    Prop where
  config : s.ports.config = p.config
  deviceCount : s.deviceCount = UInt32.ofNat (seen.countP p.present)
  inits : s.inits =
    ((seen.filter p.present).map p.deviceAt).filter PciDevice.isRtl8139

variable {p : PciPorts} {seen : List PciFunction} {s : PciScan}

theorem Scanned.visit (h : Scanned p seen s) (bus : UInt8) {slot func : UInt8}
    (hslot : slot.toNat < 32) (hfunc : func.toNat < 8) :
    Scanned p (seen ++ [(bus.toNat, slot.toNat, func.toNat)])
      (s.visit bus slot func) := by
  have hvalue := fun q offset =>
    (pciConfigReadDword_eq q bus offset hslot hfunc).left
  have hconfig := fun q offset =>
    (pciConfigReadDword_eq q bus offset hslot hfunc).right
  generalize hf : (bus.toNat, slot.toNat, func.toNat) = f at hvalue
  have hdevice : p.deviceAt f =
      { bus := bus
        device := slot
        function := func
        vendorId := (p.config f 0 &&& 0xFFFF).toUInt16
        deviceId := ((p.config f 0 >>> 16) &&& 0xFFFF).toUInt16
        classId := (p.config f 2 >>> 16).toUInt16
        bar0 := p.config f 4
        irq := (p.config f 15 &&& 0xFF).toUInt8 } := by
    unfold PciPorts.deviceAt
    rw [← hf, UInt8.ofNat_toNat, UInt8.ofNat_toNat, UInt8.ofNat_toNat]
  have hregisters : (0 : UInt8).toNat / 4 = 0 ∧ (0x08 : UInt8).toNat / 4 = 2 ∧
      (0x10 : UInt8).toNat / 4 = 4 ∧ (0x3C : UInt8).toNat / 4 = 15 := by decide
  unfold PciScan.visit
  simp only [hvalue, hconfig, h.config, hregisters]
  rw [← hdevice]
  split
  · rename_i habsent
    have hpresent : p.present f = false := by
      unfold PciPorts.present
      rw [habsent]
      rfl
    constructor
    · exact (hconfig _ _).trans h.config
    · rw [List.countP_append, List.countP_singleton, hpresent]
      exact h.deviceCount
    · rw [List.filter_append, List.filter_singleton, hpresent]
      exact h.inits.trans (by simp)
  · rename_i hthere
    have hpresent : p.present f = true := by
      unfold PciPorts.present
      exact bne_iff_ne.mpr hthere
    constructor
    · simp only [hconfig]
      exact h.config
    · rw [List.countP_append, List.countP_singleton, hpresent, UInt32.ofNat_add,
        ← h.deviceCount]
      rfl
    · dsimp only
      rw [List.filter_append, List.filter_singleton, hpresent, List.map_append,
        List.filter_append, ← h.inits]
      show (if (p.deviceAt f).isRtl8139 = true then _ else _) =
        s.inits ++ [p.deviceAt f].filter PciDevice.isRtl8139
      rw [List.filter_singleton]
      cases (p.deviceAt f).isRtl8139 with
      | true => rfl
      | false => exact (List.append_nil _).symm

def PciFunction.InRange (f : PciFunction) : Prop :=
  f.1 < 256 ∧ f.2.1 < 32 ∧ f.2.2 < 8

theorem Scanned.visits (h : Scanned p seen s) {rest : List PciFunction}
    (hrest : forall f, f ∈ rest -> PciFunction.InRange f) :
    Scanned p (seen ++ rest)
      (rest.foldl (fun s f => s.visit (UInt8.ofNat f.1) (UInt8.ofNat f.2.1)
        (UInt8.ofNat f.2.2)) s) := by
  induction rest generalizing seen s with
  | nil =>
      rw [List.append_nil]
      exact h
  | cons f rest ih =>
      rcases hrest f List.mem_cons_self with ⟨hbus, hslot, hfunc⟩
      have hb : (UInt8.ofNat f.1).toNat = f.1 := UInt8.toNat_ofNat_of_lt' hbus
      have hs : (UInt8.ofNat f.2.1).toNat = f.2.1 :=
        UInt8.toNat_ofNat_of_lt' (hslot.trans (by decide))
      have hn : (UInt8.ofNat f.2.2).toNat = f.2.2 :=
        UInt8.toNat_ofNat_of_lt' (hfunc.trans (by decide))
      have hfirst := h.visit (UInt8.ofNat f.1) (hs.symm ▸ hslot)
        (hn.symm ▸ hfunc)
      rw [hb, hs, hn] at hfirst
      have hlast := ih hfirst fun g hg => hrest g (List.mem_cons_of_mem f hg)
      rw [List.append_assoc] at hlast
      exact hlast

theorem mem_pciFunctions {f : PciFunction} :
    f ∈ pciFunctions <-> PciFunction.InRange f := by
  rcases f with ⟨bus, slot, func⟩
  exact List.pair_mem_product.trans (and_congr List.mem_range
    (List.pair_mem_product.trans (and_congr List.mem_range List.mem_range)))

theorem nodup_pciFunctions : pciFunctions.Nodup :=
  List.nodup_range.product (List.nodup_range.product List.nodup_range)

theorem pciInit_eq (p : PciPorts) :
    pciInit p = pciFunctions.foldl
      (fun s f => s.visit (UInt8.ofNat f.1) (UInt8.ofNat f.2.1)
        (UInt8.ofNat f.2.2))
      { ports := p
        deviceCount := 0
        inits := [] } := by
  unfold pciInit pciFunctions
  simp only [SProd.sprod, List.product, List.foldl_flatMap, List.foldl_map]

theorem deviceAt_inj {f g : PciFunction} (hf : PciFunction.InRange f)
    (hg : PciFunction.InRange g) (h : p.deviceAt f = p.deviceAt g) : f = g := by
  have hbyte : forall {m n : Nat}, m < 256 -> n < 256 ->
      UInt8.ofNat m = UInt8.ofNat n -> m = n := by
    intro m n hm hn heq
    rw [← UInt8.toNat_ofNat_of_lt' hm, heq, UInt8.toNat_ofNat_of_lt' hn]
  have hbus := hbyte hf.left hg.left (congrArg PciDevice.bus h)
  have hslot := hbyte (hf.right.left.trans (by decide))
    (hg.right.left.trans (by decide)) (congrArg PciDevice.device h)
  have hfunc := hbyte (hf.right.right.trans (by decide))
    (hg.right.right.trans (by decide)) (congrArg PciDevice.function h)
  exact Prod.ext hbus (Prod.ext hslot hfunc)

/--
Whatever is on the bus: `rtl8139_init` is called once for each RTL8139, in the
order of the bus and with what its registers say, each function that is there is
counted, and no register is changed.
-/
theorem pciInit_scans (p : PciPorts) :
    (pciInit p).inits = ((pciFunctions.filter p.present).map p.deviceAt).filter
        PciDevice.isRtl8139 ∧
      (pciInit p).inits.Nodup ∧
      (pciInit p).deviceCount.toNat = pciFunctions.countP p.present ∧
      (pciInit p).ports.config = p.config := by
  have hstart : Scanned p []
      { ports := p
        deviceCount := 0
        inits := [] } := ⟨rfl, rfl, rfl⟩
  have hscanned := hstart.visits fun f hf => mem_pciFunctions.mp hf
  rw [List.nil_append, ← pciInit_eq] at hscanned
  refine ⟨hscanned.inits, ?_, ?_, hscanned.config⟩
  · rw [hscanned.inits]
    refine List.Nodup.filter _ ((nodup_pciFunctions.filter _).map_on ?_)
    intro f hf g hg
    exact deviceAt_inj (mem_pciFunctions.mp (List.mem_filter.mp hf).left)
      (mem_pciFunctions.mp (List.mem_filter.mp hg).left)
  · have hlength : pciFunctions.length = 65536 := by
      unfold pciFunctions
      rw [List.length_product, List.length_product, List.length_range,
        List.length_range, List.length_range]
    have hle := List.countP_le_length (p := p.present) (l := pciFunctions)
    rw [hlength] at hle
    rw [hscanned.deviceCount]
    exact UInt32.toNat_ofNat_of_lt' (Nat.lt_of_le_of_lt hle (by decide))

end Drivers
end EarlnuxOS
