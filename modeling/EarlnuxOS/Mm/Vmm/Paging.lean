import Mathlib.Data.List.FinRange
import EarlnuxOS.Types

/-!
# The virtual memory manager

`kernel/mm/vmm.c`, over any allocator of page frames.  Memory is a collection
of frames of 1024 words; the functions take the physical address of a frame for
a pointer to it.  The TLB is left out: whatever changes an entry flushes it.
-/

namespace EarlnuxOS
namespace Mm

universe u

/-!
# Entries
-/

def ptePresent : UInt32 := 0x1
def pteWrite : UInt32 := 0x2
def pteUser : UInt32 := 0x4
def pteWritethrough : UInt32 := 0x8
def pteNocache : UInt32 := 0x10
def pteHuge : UInt32 := 0x80
def pteGlobal : UInt32 := 0x100

def pteAddrMask : UInt32 := 0xFFFFF000

def pdeIndex (virt : UInt32) : Fin 1024 :=
  Fin.ofNat 1024 ((virt >>> 22) &&& 0x3FF).toNat

def pteIndex (virt : UInt32) : Fin 1024 :=
  Fin.ofNat 1024 ((virt >>> 12) &&& 0x3FF).toNat

def kernelBase : UInt32 := 0xC0000000

/-- `entry & PTE_PRESENT` -/
def present (entry : UInt32) : Bool := entry &&& ptePresent != 0

/-- `entry & PTE_HUGE` -/
def huge (entry : UInt32) : Bool := entry &&& pteHuge != 0

/-- `entry & PTE_ADDR_MASK` -/
def frame (entry : UInt32) : UInt32 := entry &&& pteAddrMask

/-- The entry that `vmm_map_page` writes. -/
def mapEntry (phys flags : UInt32) : UInt32 :=
  frame phys ||| ptePresent |||
    (flags &&& (pteWrite ||| pteUser ||| pteNocache ||| pteWritethrough |||
      pteGlobal))

def tableEntry (pt flags : UInt32) : UInt32 :=
  frame pt ||| ptePresent ||| pteWrite ||| (flags &&& pteUser)

abbrev Frames := UInt32 -> Fin 1024 -> UInt32

def vmmVirtToPhys (mem : Frames) (dir virt : UInt32) : UInt32 :=
  let pde := mem dir (pdeIndex virt)
  if ¬ present pde then 0
  else if huge pde then (pde &&& 0xFFC00000) ||| (virt &&& 0x003FFFFF)
  else
    let pte := mem (frame pde) (pteIndex virt)
    if ¬ present pte then 0
    else frame pte ||| (virt &&& 0xFFF)

/-- `pmm_alloc_page` and `pmm_free_page`. -/
class PageAllocator (alpha : Type u) where
  pmmAllocPage : alpha -> UInt32 × alpha
  pmmFreePage : alpha -> UInt32 -> alpha

/--
Memory, the allocator, and the static variables of `vmm.c`.  Not of the source
are the frames that the manager has taken from the allocator and those it has
freed, the latest first, and whether it has used the address of a directory or
table that the kernel's directory does not map to itself.
-/
structure Vmm (alpha : Type u) where
  mem : Frames
  pmm : alpha
  kernelPgdir : UInt32
  currentPgdir : UInt32
  cr3 : UInt32
  paging : Bool
  taken : List UInt32
  freed : List UInt32
  unmapped : Bool

namespace Vmm

variable {alpha : Type u}

/-!
# Memory
-/

/-- A directory or table is accessed through its address. -/
def access (st : Vmm alpha) (address : UInt32) : Vmm alpha :=
  { st with
      unmapped := st.unmapped ||
        (st.paging &&
          vmmVirtToPhys st.mem st.kernelPgdir address != address) }

def store (st : Vmm alpha) (address : UInt32) (i : Fin 1024) (word : UInt32) :
    Vmm alpha :=
  let st := st.access address
  { st with
      mem := Function.update st.mem address
        (Function.update (st.mem address) i word) }

def copyPage (st : Vmm alpha) (sp dp : UInt32) : Vmm alpha :=
  { st with mem := Function.update st.mem dp (st.mem sp) }

def loadCr3 (st : Vmm alpha) (phys : UInt32) : Vmm alpha :=
  { st with cr3 := phys }

variable [PageAllocator alpha]

def pmmAllocPage (st : Vmm alpha) : UInt32 × Vmm alpha :=
  let page := PageAllocator.pmmAllocPage st.pmm
  (page.1,
    { st with
        pmm := page.2
        taken := if page.1 = 0 then st.taken else page.1 :: st.taken })

def pmmFreePage (st : Vmm alpha) (phys : UInt32) : Vmm alpha :=
  { st with
      pmm := PageAllocator.pmmFreePage st.pmm phys
      freed := phys :: st.freed }

/-!
# Mapping
-/

def allocPageTable (st : Vmm alpha) : UInt32 × Vmm alpha :=
  let page := st.pmmAllocPage
  if page.1 = 0 then page
  else
    (page.1,
      (List.finRange 1024).foldl (fun st i => st.store page.1 i 0) page.2)

def vmmMapPage (st : Vmm alpha) (dir virt phys flags : UInt32) :
    Int × Vmm alpha :=
  let st := st.access dir
  let pde := st.mem dir (pdeIndex virt)
  if ¬ present pde then
    let table := st.allocPageTable
    if table.1 = 0 then (-1, table.2)
    else
      let st := table.2.store dir (pdeIndex virt) (tableEntry table.1 flags)
      (0, st.store table.1 (pteIndex virt) (mapEntry phys flags))
  else
    (0, st.store (frame pde) (pteIndex virt) (mapEntry phys flags))

omit [PageAllocator alpha] in
def vmmUnmapPage (st : Vmm alpha) (dir virt : UInt32) : Vmm alpha :=
  let st := st.access dir
  let pde := st.mem dir (pdeIndex virt)
  if ¬ present pde then st
  else st.store (frame pde) (pteIndex virt) 0

def vmmMapRange (st : Vmm alpha) (dir virt phys size flags : UInt32) :
    Vmm alpha :=
  let v := alignDown virt pageSize
  let p := alignDown phys pageSize
  let pages := alignUp size pageSize / pageSize
  (List.range pages.toNat).foldl
    (fun st i =>
      (st.vmmMapPage dir (v + UInt32.ofNat i * pageSize)
        (p + UInt32.ofNat i * pageSize) flags).2) st

def identityLoop (stop flags : UInt32) : Nat -> UInt32 -> Vmm alpha -> Vmm alpha
  | 0, _, st => st
  | steps + 1, s, st =>
      if s < stop then
        identityLoop stop flags steps (s + pageSize)
          (st.vmmMapPage st.kernelPgdir s s flags).2
      else
        st

/-- `vmm_identity_map`; there are `2 ^ 20` pages. -/
def vmmIdentityMap (st : Vmm alpha) (start stop flags : UInt32) : Vmm alpha :=
  identityLoop (alignUp stop pageSize) flags (2 ^ 20)
    (alignDown start pageSize) st

/-!
# Directories
-/

/-- The body of the inner loop of `vmm_clone_dir`. -/
def clonePage (srcPt dstPt : UInt32) (st : Vmm alpha) (j : Fin 1024) :
    Vmm alpha :=
  let st := st.access srcPt
  let sPte := st.mem srcPt j
  if ¬ present sPte then st.store dstPt j 0
  else
    let page := st.pmmAllocPage
    if page.1 = 0 then page.2
    else
      (page.2.copyPage (frame sPte) page.1).store dstPt j
        (frame page.1 ||| (sPte &&& 0xFFF))

def cloneTable (src dst : UInt32) (st : Vmm alpha) (i : Fin 1024) :
    Vmm alpha :=
  let st := st.access src
  let sPde := st.mem src i
  if ¬ present sPde then st.store dst i 0
  else if pdeIndex kernelBase ≤ i then st.store dst i sPde
  else
    let table := st.pmmAllocPage
    if table.1 = 0 then table.2
    else
      ((List.finRange 1024).foldl (clonePage (frame sPde) table.1)
        table.2).store dst i (frame table.1 ||| (sPde &&& 0xFFF))

def vmmCloneDir (st : Vmm alpha) (src : UInt32) : UInt32 × Vmm alpha :=
  let dir := st.pmmAllocPage
  if dir.1 = 0 then dir
  else (dir.1, (List.finRange 1024).foldl (cloneTable src dir.1) dir.2)

/-- The body of the inner loop of `vmm_destroy_dir`. -/
def destroyPage (pt : UInt32) (st : Vmm alpha) (j : Fin 1024) : Vmm alpha :=
  let st := st.access pt
  let pte := st.mem pt j
  if present pte then st.pmmFreePage (frame pte) else st

def destroyTable (dir : UInt32) (st : Vmm alpha) (i : Fin 1024) : Vmm alpha :=
  let st := st.access dir
  let pde := st.mem dir i
  if ¬ present pde then st
  else
    ((List.finRange 1024).foldl (destroyPage (frame pde)) st).pmmFreePage
      (frame pde)

def userIndices : List (Fin 1024) :=
  (List.finRange 1024).filter (fun i => i < pdeIndex kernelBase)

def vmmDestroyDir (st : Vmm alpha) (dir : UInt32) : Vmm alpha :=
  (userIndices.foldl (destroyTable dir) st).pmmFreePage dir

/-!
# The directory in use
-/

omit [PageAllocator alpha] in
def vmmSwitchDir (st : Vmm alpha) (dir : UInt32) : Vmm alpha :=
  let st := { st with currentPgdir := dir }
  st.loadCr3 (vmmVirtToPhys st.mem st.kernelPgdir dir)

def vmmInit (st : Vmm alpha) : Vmm alpha :=
  let st := (List.finRange 1024).foldl
    (fun st i => st.store st.kernelPgdir i 0) st
  let st := st.vmmIdentityMap 0 (8 * 1024 * 1024) (ptePresent ||| pteWrite)
  let st := st.vmmIdentityMap 0xB8000 0xC0000
    (ptePresent ||| pteWrite ||| pteNocache)
  let st := st.loadCr3 st.kernelPgdir
  { st with
      paging := true
      currentPgdir := st.kernelPgdir }

end Vmm

end Mm
end EarlnuxOS
