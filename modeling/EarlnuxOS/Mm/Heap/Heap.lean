import EarlnuxOS.Types
import EarlnuxOS.Foundation.ByteMemory

/-!
# The kernel heap

`kernel/mm/heap.c`: a header in front of each block, a free list through the
headers of the free blocks, first fit, splitting and coalescing.  A pointer is
the address it holds and `NULL` is 0; addresses and sizes are 32-bit words, and
headers are read from and written to memory byte by byte.
-/

namespace EarlnuxOS
namespace Mm

open Foundation

def heapMagicFree : Nat := 0xDEADC0DE
def heapMagicUsed : Nat := 0xC0FFEE99
def heapAlign : UInt32 := 16

/-- `sizeof(block_hdr_t)` is 20, rounded up to 16. -/
def blockHdrSize : Nat := 32

def minBlockSize : Nat := blockHdrSize + 16

inductive HdrField where
  | magic
  | size
  | prevPhys
  | nextFree
  | prevFree
deriving DecidableEq

def HdrField.offset : HdrField -> Nat
  | HdrField.magic => 0
  | HdrField.size => 4
  | HdrField.prevPhys => 8
  | HdrField.nextFree => 12
  | HdrField.prevFree => 16

structure HeapStats where
  heapStart : UInt32
  heapEnd : UInt32
  heapSize : UInt32
  usedBytes : UInt32
  freeBytes : UInt32
  allocCount : UInt32
  freeCount : UInt32
  peakUsage : UInt32
deriving DecidableEq, Repr

/-- The static variables of `kernel/mm/heap.c` and the memory they point into. -/
structure Heap where
  mem : Memory
  startPtr : Nat
  endPtr : Nat
  brk : Nat
  freeList : Nat
  stat : HeapStats

namespace Heap

/-!
# Header fields
-/

/-- `blk->field` -/
def get (h : Heap) (field : HdrField) (blk : Nat) : Nat :=
  load32 h.mem (blk + field.offset)

/-- `blk->field = v` -/
def set (h : Heap) (field : HdrField) (blk v : Nat) : Heap :=
  { h with mem := store32 h.mem (blk + field.offset) v }

abbrev magic (h : Heap) (blk : Nat) : Nat := h.get HdrField.magic blk

abbrev size (h : Heap) (blk : Nat) : Nat := h.get HdrField.size blk

abbrev prevPhys (h : Heap) (blk : Nat) : Nat := h.get HdrField.prevPhys blk

abbrev nextFree (h : Heap) (blk : Nat) : Nat := h.get HdrField.nextFree blk

abbrev prevFree (h : Heap) (blk : Nat) : Nat := h.get HdrField.prevFree blk

abbrev setMagic (h : Heap) (blk v : Nat) : Heap := h.set HdrField.magic blk v

abbrev setSize (h : Heap) (blk v : Nat) : Heap := h.set HdrField.size blk v

abbrev setPrevPhys (h : Heap) (blk v : Nat) : Heap :=
  h.set HdrField.prevPhys blk v

abbrev setNextFree (h : Heap) (blk v : Nat) : Heap :=
  h.set HdrField.nextFree blk v

abbrev setPrevFree (h : Heap) (blk v : Nat) : Heap :=
  h.set HdrField.prevFree blk v

/-- `heap_stat.free_bytes += bytes`. -/
def countFree (h : Heap) (bytes : Nat) : Heap :=
  { h with stat :=
      { h.stat with freeBytes := h.stat.freeBytes + UInt32.ofNat bytes } }

/-!
# The free list
-/

/-- Put a block at the head of the free list; the source writes it out. -/
def pushFree (h : Heap) (blk : Nat) : Heap :=
  let head := h.freeList
  let h := h.setNextFree blk head
  let h := h.setPrevFree blk 0
  let h := if head = 0 then h else h.setPrevFree head blk
  { h with freeList := blk }

def freeListRemove (h : Heap) (blk : Nat) : Heap :=
  let h :=
    if h.prevFree blk = 0 then { h with freeList := h.nextFree blk }
    else h.setNextFree (h.prevFree blk) (h.nextFree blk)
  let h :=
    if h.nextFree blk = 0 then h
    else h.setPrevFree (h.nextFree blk) (h.prevFree blk)
  let h := h.setNextFree blk 0
  h.setPrevFree blk 0

/-- `heap_expand`: the new free block, or 0 at the end of the heap. -/
def heapExpand (h : Heap) (minSize : Nat) : Nat × Heap :=
  let expand :=
    (alignUp (UInt32.ofNat (add32 minSize blockHdrSize)) pageSize).toNat
  if h.endPtr < add32 h.brk expand then
    (0, h)
  else
    let blk := h.brk
    let h := { h with brk := add32 h.brk expand }
    let h := h.setMagic blk heapMagicFree
    let h := h.setSize blk (sub32 expand blockHdrSize)
    let h := h.setPrevPhys blk 0
    let h := h.pushFree blk
    let h := { h with stat :=
        { h.stat with heapEnd := UInt32.ofNat h.brk } }
    (blk, h.countFree (h.size blk))

def maybeSplit (h : Heap) (blk size : Nat) : Heap :=
  if h.size blk < add32 size minBlockSize then
    h
  else
    let remainder := add32 (add32 blk blockHdrSize) size
    let h := h.setMagic remainder heapMagicFree
    let h := h.setSize remainder
      (sub32 (sub32 (h.size blk) size) blockHdrSize)
    let h := h.setPrevPhys remainder blk
    let h := h.pushFree remainder
    let h := h.countFree (h.size remainder)
    h.setSize blk size

/-- The first half of `coalesce`: the next physical block. -/
def coalesceNext (h : Heap) (blk : Nat) : Heap :=
  let next := add32 (add32 blk blockHdrSize) (h.size blk)
  if next < h.brk ∧ h.magic next = heapMagicFree then
    let h := h.freeListRemove next
    let h := h.setSize blk
      (add32 (h.size blk) (add32 blockHdrSize (h.size next)))
    h.countFree blockHdrSize
  else
    h

/-- The second half of `coalesce`: the previous physical block. -/
def coalescePrev (h : Heap) (blk : Nat) : Heap :=
  if h.prevPhys blk ≠ 0 ∧ h.magic (h.prevPhys blk) = heapMagicFree then
    let prev := h.prevPhys blk
    let h := h.freeListRemove prev
    let h := h.setSize prev
      (add32 (h.size prev) (add32 blockHdrSize (h.size blk)))
    let h := h.countFree blockHdrSize
    h.pushFree prev
  else
    h.pushFree blk

def coalesce (h : Heap) (blk : Nat) : Heap :=
  (h.coalesceNext blk).coalescePrev blk

/-!
# `kmalloc`, `kfree` and `krealloc`
-/

/--
The first-fit search from `blk` on: the block it stops at, 0 at the end of the
list, `none` when the steps are used up.
-/
def firstFit (h : Heap) (size : Nat) : Nat -> Nat -> Option Nat
  | 0, _ => none
  | steps + 1, blk =>
      if blk = 0 then some 0
      else if h.magic blk = heapMagicFree ∧ size ≤ h.size blk then some blk
      else firstFit h size steps (h.nextFree blk)

/-- A walk of this many steps has met some address twice. -/
def walkSteps : Nat := 2 ^ 32

/-- The statements of `kmalloc` for the block it has found. -/
def takeBlock (h : Heap) (blk size : Nat) : Nat × Heap :=
  let h := h.freeListRemove blk
  let h := h.maybeSplit blk size
  let h := h.setMagic blk heapMagicUsed
  let used := h.stat.usedBytes + UInt32.ofNat (h.size blk)
  let h := { h with stat :=
      { h.stat with
          usedBytes := used
          freeBytes := h.stat.freeBytes - UInt32.ofNat (h.size blk)
          allocCount := h.stat.allocCount + 1
          peakUsage :=
            if h.stat.peakUsage < used then used else h.stat.peakUsage } }
  (add32 blk blockHdrSize, h)

/--
`kmalloc`, which calls itself after it has expanded the heap; `none` when the
search or the calls do not end within the given depth.
-/
def kmalloc : Nat -> Heap -> Nat -> Option (Nat × Heap)
  | 0, _, _ => none
  | depth + 1, h, size =>
      if size = 0 then
        some (0, h)
      else
        let size := (alignUp (UInt32.ofNat size) heapAlign).toNat
        match h.firstFit size walkSteps h.freeList with
        | none => none
        | some blk =>
            if blk = 0 then
              let expanded := h.heapExpand size
              if expanded.1 = 0 then some (0, expanded.2)
              else kmalloc depth expanded.2 size
            else
              some (h.takeBlock blk size)

def kfree (h : Heap) (ptr : Nat) : Heap :=
  if ptr = 0 then
    h
  else
    let blk := sub32 ptr blockHdrSize
    if h.magic blk ≠ heapMagicUsed then
      h
    else
      let h := { h with stat :=
          { h.stat with
              usedBytes := h.stat.usedBytes - UInt32.ofNat (h.size blk)
              freeBytes := h.stat.freeBytes + UInt32.ofNat (h.size blk)
              freeCount := h.stat.freeCount + 1 } }
      let h := h.setMagic blk heapMagicFree
      h.coalesce blk

/-- `for (size_t i = 0; i < n; i++) dst[i] = src[i];` -/
def copyBytes (h : Heap) (src dst n : Nat) : Heap :=
  (List.range n).foldl
    (fun h i =>
      { h with mem := storeByte h.mem (add32 dst i) (h.mem (add32 src i)) }) h

def krealloc (depth : Nat) (h : Heap) (ptr newSize : Nat) :
    Option (Nat × Heap) :=
  if ptr = 0 then
    kmalloc depth h newSize
  else if newSize = 0 then
    some (0, h.kfree ptr)
  else
    let blk := sub32 ptr blockHdrSize
    if newSize ≤ h.size blk then
      some (ptr, h)
    else
      match kmalloc depth h newSize with
      | none => none
      | some (np, h) =>
          if np = 0 then
            some (0, h)
          else
            let copySize := if h.size blk < newSize then h.size blk else newSize
            some (np, (h.copyBytes ptr np copySize).kfree ptr)

def ksize (h : Heap) (ptr : Nat) : Nat :=
  if ptr = 0 then 0
  else
    let blk := sub32 ptr blockHdrSize
    if h.magic blk ≠ heapMagicUsed then 0 else h.size blk

/-- `heap_init` on memory with any contents. -/
def heapInit (mem : Memory) (virtStart size : Nat) : Heap :=
  let h : Heap :=
    { mem := mem
      startPtr := virtStart
      endPtr := add32 virtStart size
      brk := virtStart
      freeList := 0
      stat :=
        { heapStart := UInt32.ofNat virtStart
          heapEnd := UInt32.ofNat virtStart
          heapSize := UInt32.ofNat size
          usedBytes := 0
          freeBytes := 0
          allocCount := 0
          freeCount := 0
          peakUsage := 0 } }
  (h.heapExpand pageSize.toNat).2

end Heap

def kernelHeapStart : Nat := 0xD0000000

def kernelHeapSize : Nat := 256 * 1024 * 1024

end Mm
end EarlnuxOS
