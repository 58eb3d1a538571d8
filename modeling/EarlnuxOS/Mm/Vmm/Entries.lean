import EarlnuxOS.Mm.Vmm.Paging

/-!
# Words of directories and tables

An entry is an address and twelve low bits.  The module has the words that the
manager writes, the page that each pair of indices leads to, and what the
elementary steps leave unchanged.
-/

namespace EarlnuxOS
namespace Mm

universe u

/-!
# Bits
-/

theorem or_and (a b c : UInt32) : (a ||| b) &&& c = (a &&& c) ||| (b &&& c) := by
  apply UInt32.toBitVec_inj.mp
  ext i hi
  simp [Bool.and_or_distrib_right]

theorem toNat_frame (address : UInt32) :
    (frame address).toNat = address.toNat / 2 ^ 12 * 2 ^ 12 := by
  unfold frame
  rw [UInt32.toNat_and]
  exact and_high_bits (n := 32) (k := 12) address.toNat_lt (by decide)

@[simp] theorem frame_frame (entry : UInt32) :
    frame (frame entry) = frame entry := by
  unfold frame
  rw [UInt32.and_assoc, UInt32.and_self]

/-- What the mask of the low bits keeps is not part of an address. -/
theorem frame_low (entry mask : UInt32) (h : mask &&& pteAddrMask = 0) :
    frame (entry &&& mask) = 0 := by
  unfold frame
  rw [UInt32.and_assoc, h, UInt32.and_zero]

theorem frame_or (address low : UInt32) (h : frame low = 0) :
    frame (frame address ||| low) = frame address := by
  unfold frame at h ⊢
  rw [or_and, h, UInt32.or_zero, UInt32.and_assoc, UInt32.and_self]

theorem low_or (address low mask : UInt32) (h : pteAddrMask &&& mask = 0) :
    (frame address ||| low) &&& mask = low &&& mask := by
  unfold frame
  rw [or_and, UInt32.and_assoc, h, UInt32.and_zero, UInt32.zero_or]

theorem present_zero : present 0 = false := by decide

/-!
# The words that are written
-/

theorem mapEntry_eq (phys flags : UInt32) :
    mapEntry phys flags = frame phys ||| (ptePresent ||| (flags &&&
      (pteWrite ||| pteUser ||| pteNocache ||| pteWritethrough |||
        pteGlobal))) := by
  unfold mapEntry
  rw [UInt32.or_assoc]

theorem frame_mapEntry (phys flags : UInt32) :
    frame (mapEntry phys flags) = frame phys := by
  rw [mapEntry_eq]
  apply frame_or
  unfold frame
  rw [or_and, UInt32.and_assoc flags]
  have hpresent : ptePresent &&& pteAddrMask = 0 := by decide
  have hflags : (pteWrite ||| pteUser ||| pteNocache ||| pteWritethrough |||
      pteGlobal) &&& pteAddrMask = 0 := by decide
  rw [hpresent, hflags, UInt32.and_zero, UInt32.or_zero]

theorem present_mapEntry (phys flags : UInt32) :
    present (mapEntry phys flags) = true := by
  unfold present
  rw [mapEntry_eq, low_or _ _ _ (by decide), or_and, UInt32.and_assoc flags]
  have hflags : (pteWrite ||| pteUser ||| pteNocache ||| pteWritethrough |||
      pteGlobal) &&& ptePresent = 0 := by decide
  rw [hflags, UInt32.and_zero]
  decide

theorem tableEntry_eq (pt flags : UInt32) :
    tableEntry pt flags =
      frame pt ||| (ptePresent ||| pteWrite ||| (flags &&& pteUser)) := by
  unfold tableEntry
  rw [UInt32.or_assoc, UInt32.or_assoc, ← UInt32.or_assoc ptePresent]

theorem frame_tableEntry (pt flags : UInt32) :
    frame (tableEntry pt flags) = frame pt := by
  rw [tableEntry_eq]
  apply frame_or
  have huser := frame_low flags pteUser (by decide)
  unfold frame at huser ⊢
  rw [or_and, huser]
  decide

theorem present_tableEntry (pt flags : UInt32) :
    present (tableEntry pt flags) = true := by
  have huser : flags &&& pteUser &&& ptePresent = 0 := by
    rw [UInt32.and_assoc]
    exact UInt32.and_zero
  unfold present
  rw [tableEntry_eq, low_or _ _ _ (by decide), or_and, huser]
  decide

theorem huge_tableEntry (pt flags : UInt32) :
    huge (tableEntry pt flags) = false := by
  have huser : flags &&& pteUser &&& pteHuge = 0 := by
    rw [UInt32.and_assoc]
    exact UInt32.and_zero
  unfold huge
  rw [tableEntry_eq, low_or _ _ _ (by decide), or_and, huser]
  decide

/-- An entry for another frame, with the low bits of an old one. -/
def moveEntry (page entry : UInt32) : UInt32 :=
  frame page ||| (entry &&& 0xFFF)

theorem frame_moveEntry (page entry : UInt32) :
    frame (moveEntry page entry) = frame page :=
  frame_or page _ (frame_low entry _ (by decide))

theorem moveEntry_low (page entry mask : UInt32)
    (hmask : mask &&& 0xFFF = mask) :
    moveEntry page entry &&& mask = entry &&& mask := by
  have hhigh : pteAddrMask &&& mask = 0 := by
    rw [← hmask, UInt32.and_comm mask, ← UInt32.and_assoc]
    exact UInt32.zero_and
  unfold moveEntry
  rw [low_or _ _ _ hhigh, UInt32.and_assoc, UInt32.and_comm 0xFFF, hmask]

@[simp] theorem present_moveEntry (page entry : UInt32) :
    present (moveEntry page entry) = present entry := by
  unfold present
  rw [moveEntry_low _ _ _ (by decide)]

@[simp] theorem huge_moveEntry (page entry : UInt32) :
    huge (moveEntry page entry) = huge entry := by
  unfold huge
  rw [moveEntry_low _ _ _ (by decide)]

/-!
# Addresses
-/

theorem pdeIndex_val (virt : UInt32) :
    (pdeIndex virt).val = virt.toNat / 2 ^ 22 := by
  have hlt := virt.toNat_lt
  have hbits : ((virt >>> 22) &&& 0x3FF).toNat = virt.toNat / 2 ^ 22 := by
    rw [UInt32.toNat_and, UInt32.toNat_shiftRight]
    show virt.toNat >>> 22 &&& (2 ^ 10 - 1) = _
    rw [Nat.and_two_pow_sub_one_eq_mod, Nat.shiftRight_eq_div_pow]
    omega
  unfold pdeIndex
  rw [hbits]
  show virt.toNat / 2 ^ 22 % 1024 = _
  omega

theorem pteIndex_val (virt : UInt32) :
    (pteIndex virt).val = virt.toNat / 2 ^ 12 % 1024 := by
  have hbits : ((virt >>> 12) &&& 0x3FF).toNat =
      virt.toNat / 2 ^ 12 % 1024 := by
    rw [UInt32.toNat_and, UInt32.toNat_shiftRight]
    show virt.toNat >>> 12 &&& (2 ^ 10 - 1) = _
    rw [Nat.and_two_pow_sub_one_eq_mod, Nat.shiftRight_eq_div_pow]
  unfold pteIndex
  rw [hbits]
  show virt.toNat / 2 ^ 12 % 1024 % 1024 = _
  omega

theorem frame_eq_iff (v w : UInt32) :
    frame v = frame w <->
      pdeIndex v = pdeIndex w ∧ pteIndex v = pteIndex w := by
  rw [← UInt32.toNat_inj, toNat_frame, toNat_frame, Fin.ext_iff, Fin.ext_iff,
    pdeIndex_val, pdeIndex_val, pteIndex_val, pteIndex_val]
  omega

theorem kernelIndex_val : (pdeIndex kernelBase).val = 768 := by decide

/-!
# Pages
-/

/-- The table entry that the entry of a 4 MB page stands for. -/
def hugeEntry (pde : UInt32) (j : Fin 1024) : UInt32 :=
  let page : UInt32 := UInt32.ofNat j.val <<< 12
  (pde &&& 0xFFC00FFF) ||| page

def entryAt (mem : Frames) (dir : UInt32) (i j : Fin 1024) : Option UInt32 :=
  let pde := mem dir i
  if ¬ present pde then none
  else if huge pde then some (hugeEntry pde j)
  else
    let pte := mem (frame pde) j
    if ¬ present pte then none else some pte

def physOf (entry : Option UInt32) (virt : UInt32) : UInt32 :=
  match entry with
  | none => 0
  | some pte => frame pte ||| (virt &&& 0xFFF)

theorem shiftLeft_pteIndex (virt : UInt32) :
    UInt32.ofNat (pteIndex virt).val <<< 12 = virt &&& 0x3FF000 := by
  have hlt := virt.toNat_lt
  apply UInt32.toNat_inj.mp
  have hmask : (virt &&& 0x3FF000).toNat =
      virt.toNat % 2 ^ 22 / 2 ^ 12 * 2 ^ 12 := by
    have hsplit : (0x3FF000 : UInt32) = 0x3FFFFF &&& pteAddrMask := by decide
    rw [hsplit, ← UInt32.and_assoc]
    show (frame (virt &&& 0x3FFFFF)).toNat = _
    rw [toNat_frame, UInt32.toNat_and]
    show (virt.toNat &&& (2 ^ 22 - 1)) / 2 ^ 12 * 2 ^ 12 = _
    rw [Nat.and_two_pow_sub_one_eq_mod]
  rw [hmask, UInt32.toNat_shiftLeft, UInt32.toNat_ofNat, pteIndex_val]
  show (virt.toNat / 2 ^ 12 % 1024 % 2 ^ 32) <<< 12 % 2 ^ 32 = _
  rw [Nat.shiftLeft_eq]
  omega

theorem vmmVirtToPhys_eq (mem : Frames) (dir virt : UInt32) :
    vmmVirtToPhys mem dir virt =
      physOf (entryAt mem dir (pdeIndex virt) (pteIndex virt)) virt := by
  unfold vmmVirtToPhys entryAt
  dsimp only
  split
  · rfl
  split
  · unfold physOf hugeEntry frame
    dsimp only
    rw [shiftLeft_pteIndex, or_and, UInt32.and_assoc, UInt32.and_assoc virt]
    have hhigh : (0xFFC00FFF : UInt32) &&& pteAddrMask = 0xFFC00000 := by
      decide
    have hmiddle : (0x3FF000 : UInt32) &&& pteAddrMask = 0x3FF000 := by decide
    have hlow : (0x3FFFFF : UInt32) = 0x3FF000 ||| 0xFFF := by decide
    rw [hhigh, hmiddle, hlow, UInt32.or_assoc, UInt32.and_comm virt, or_and,
      UInt32.and_comm virt, UInt32.and_comm virt]
  · split <;> rfl

/-- The entries of two memories that agree on a directory and its table. -/
theorem entryAt_congr {mem mem' : Frames} {dir dir' : UInt32} {i : Fin 1024}
    (j : Fin 1024) (hdir : mem' dir' i = mem dir i)
    (htable : present (mem dir i) = true ->
      mem' (frame (mem dir i)) j = mem (frame (mem dir i)) j) :
    entryAt mem' dir' i j = entryAt mem dir i j := by
  unfold entryAt
  dsimp only
  rw [hdir]
  split
  · rfl
  · rename_i hpresent
    rw [not_not] at hpresent
    rw [htable hpresent]

theorem entryAt_table {mem : Frames} {dir : UInt32} {i : Fin 1024}
    (j : Fin 1024) (hpresent : present (mem dir i) = true)
    (hhuge : huge (mem dir i) = false) :
    entryAt mem dir i j =
      if ¬ present (mem (frame (mem dir i)) j) then none
      else some (mem (frame (mem dir i)) j) := by
  unfold entryAt
  dsimp only
  rw [if_neg (not_not.mpr hpresent), if_neg (by rw [hhuge]; decide)]

theorem entryAt_absent {mem : Frames} {dir : UInt32} {i : Fin 1024}
    (j : Fin 1024) (hpresent : present (mem dir i) = false) :
    entryAt mem dir i j = none := by
  unfold entryAt
  dsimp only
  rw [if_pos (by rw [hpresent]; decide)]

end Mm
end EarlnuxOS
