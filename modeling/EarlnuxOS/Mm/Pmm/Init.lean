import EarlnuxOS.Types
import EarlnuxOS.Mm.Pmm.Buddy

/-!
# The physical memory manager

The three zones share one descriptor array.  `pmm_init` fills the zones from
the memory map, and the page functions allocate from two of them.
-/

namespace EarlnuxOS
namespace Mm

/-- `mem_type_t` is a 32-bit word; firmware may pass any value. -/
def memtypeUsable : UInt32 := 1

structure MemMapEntry where
  base : UInt64
  length : UInt64
  type : UInt32
deriving DecidableEq, Repr

/-- `PMM_ZONE_DMA`, `PMM_ZONE_NORMAL` and `PMM_ZONE_HIGHMEM`. -/
inductive ZoneId where
  | dma
  | normal
  | highmem
deriving DecidableEq, Repr

/-- The static variables of `kernel/mm/pmm.c`. -/
structure Pmm where
  zones : ZoneId -> BuddyZone
  pages : PageArray
  totalPageFrames : Nat
  physMemoryEnd : UInt32
  ready : Bool

namespace Pmm

def boot : Pmm where
  zones := fun _ =>
    { freeList := fun _ => none
      freeCount := fun _ => 0
      basePfn := 0
      endPfn := 0
      totalPages := 0
      freePages := 0 }
  pages :=
    { page := fun _ =>
        { flags := 0, refCount := 0, order := 0, next := none, prev := none }
      outside := false }
  totalPageFrames := 0
  physMemoryEnd := 0
  ready := false

def zoned (s : Pmm) (id : ZoneId) : Zoned :=
  { zone := s.zones id, pages := s.pages }

/-- The state after a buddy function has worked on one zone. -/
def put (s : Pmm) (id : ZoneId) (z : Zoned) : Pmm :=
  { s with zones := Function.update s.zones id z.zone, pages := z.pages }

def setPages (s : Pmm) (pages : PageArray) : Pmm :=
  { s with pages := pages }

def setBounds (s : Pmm) (id : ZoneId) (basePfn endPfn : Nat) : Pmm :=
  { s with
      zones := Function.update s.zones id
        { s.zones id with basePfn := basePfn, endPfn := endPfn } }

def freeRange (s : Pmm) (id : ZoneId) (startPfn endPfn : Nat) : Pmm :=
  s.put id (buddyFreeRange (s.zoned id) startPfn endPfn)

end Pmm

def dmaLimit : UInt32 := 16 * 1024 * 1024

def normalLimit : UInt32 := 896 * 1024 * 1024

def selectZone (phys : UInt32) : ZoneId :=
  if phys < dmaLimit then ZoneId.dma
  else if phys < normalLimit then ZoneId.normal
  else ZoneId.highmem

/-!
# `pmm_init`
-/

/-- The loop that marks the descriptors of `count` pages as usable. -/
def markUsable (a : PageArray) (pfn : Nat) : Nat -> PageArray
  | 0 => a
  | count + 1 =>
      markUsable
        (a.modify pfn fun p =>
          { p with
              flags := pageFlagFree, refCount := 0, next := none
              prev := none })
        (pfn + 1) count

/-- The loop that marks the descriptors of the kernel image as used. -/
def markKernel (a : PageArray) (pfn : Nat) : Nat -> PageArray
  | 0 => a
  | count + 1 =>
      markKernel
        (a.modify pfn fun p =>
          { p with flags := pageFlagKernel ||| pageFlagReserved, refCount := 1 })
        (pfn + 1) count

/-- `start`: rounded up to a page, and never below 1 MB. -/
def MemMapEntry.start (e : MemMapEntry) : UInt32 :=
  let start := alignUp e.base.toUInt32 pageSize
  if start < 0x100000 then 0x100000 else start

/-- `end`: rounded down to a page. -/
def MemMapEntry.stop (e : MemMapEntry) : UInt32 :=
  alignDown (e.base + e.length).toUInt32 pageSize

namespace Pmm

def initZones (s : Pmm) : Pmm :=
  let s := s.setBounds ZoneId.dma 0 (physToPfn dmaLimit.toNat)
  let s := s.setBounds ZoneId.normal (s.zones ZoneId.dma).endPfn
    (physToPfn normalLimit.toNat)
  s.setBounds ZoneId.highmem (s.zones ZoneId.normal).endPfn
    (0xFFFFFFFF >>> pageShift)

/-- `total_page_frames` and `phys_memory_end` grow to cover the entry. -/
def extend (s : Pmm) (stop : UInt32) (pfnEnd : Nat) : Pmm :=
  { s with
      physMemoryEnd := if s.physMemoryEnd < stop then stop else s.physMemoryEnd
      totalPageFrames :=
        if s.totalPageFrames < pfnEnd then pfnEnd else s.totalPageFrames }

def addSpanning (s : Pmm) (pfnStart pfnEnd : Nat) : Pmm :=
  if (s.zones ZoneId.dma).endPfn < pfnEnd ∧
      pfnStart < (s.zones ZoneId.normal).endPfn then
    let ns := if (s.zones ZoneId.dma).endPfn < pfnStart then pfnStart
      else (s.zones ZoneId.dma).endPfn
    let ne := if pfnEnd < (s.zones ZoneId.normal).endPfn then pfnEnd
      else (s.zones ZoneId.normal).endPfn
    if ns < ne then s.freeRange ZoneId.normal ns ne else s
  else
    s

def addTotal (s : Pmm) (id : ZoneId) (pages : Nat) : Pmm :=
  { s with
      zones := Function.update s.zones id
        { s.zones id with
            totalPages := (s.zones id).totalPages + UInt32.ofNat pages } }

/-- The rest of the loop body, for the pages from `start` to `stop`. -/
def addPages (s : Pmm) (start stop : UInt32) : Pmm :=
  let pfnStart := physToPfn start.toNat
  let pfnEnd := physToPfn stop.toNat
  let s := s.extend stop pfnEnd
  let s := s.setPages
    (markUsable s.pages pfnStart (min pfnEnd pageArraySize - pfnStart))
  let id := selectZone start
  let s := s.freeRange id pfnStart
    (if (s.zones id).endPfn < pfnEnd then (s.zones id).endPfn else pfnEnd)
  let s := s.addSpanning pfnStart pfnEnd
  s.addTotal id (pfnEnd - pfnStart)

def addEntry (s : Pmm) (e : MemMapEntry) : Pmm :=
  if e.type ≠ memtypeUsable then s
  else if e.base + e.length ≤ 0x100000 then s
  else if e.stop ≤ e.start then s
  else s.addPages e.start e.stop

def kernelPfnStart : Nat := physToPfn 0x100000

def kernelPfnEnd : Nat := physToPfn 0x200000

def reserveKernel (s : Pmm) : Pmm :=
  s.setPages (markKernel s.pages kernelPfnStart (kernelPfnEnd - kernelPfnStart))

def pmmInit (s : Pmm) (map : List MemMapEntry) : Pmm :=
  { (map.foldl addEntry s.initZones).reserveKernel with ready := true }

/-!
# The page functions
-/

/-- NORMAL first, then DMA; HIGHMEM needs mapping. -/
def pmmAllocPages (s : Pmm) (order : Nat) : Nat × Pmm :=
  if s.ready = false then
    (0, s)
  else
    let normal :=
      buddyAlloc s.totalPageFrames (s.zoned ZoneId.normal) order
    let s := s.put ZoneId.normal normal.2
    if normal.1 = 0 then
      let dma := buddyAlloc s.totalPageFrames (s.zoned ZoneId.dma) order
      (dma.1, s.put ZoneId.dma dma.2)
    else
      (normal.1, s)

def pmmAllocPage (s : Pmm) : Nat × Pmm :=
  s.pmmAllocPages 0

def pmmFreePages (s : Pmm) (phys : UInt32) (order : Nat) : Pmm :=
  if s.ready = false ∨ phys = 0 then
    s
  else
    let id := selectZone phys
    s.put id (buddyFree s.totalPageFrames (s.zoned id) phys.toNat order)

def pmmFreePage (s : Pmm) (phys : UInt32) : Pmm :=
  s.pmmFreePages phys 0

end Pmm

end Mm
end EarlnuxOS
