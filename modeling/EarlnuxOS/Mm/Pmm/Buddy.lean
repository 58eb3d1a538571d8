import Mathlib.Algebra.Group.Nat.Defs
import Mathlib.Logic.Function.Basic

/-!
# The buddy allocator of one zone

The page descriptors, the free lists of a zone, and the three functions that
work on them, as `kernel/mm/pmm.c` and `kernel/mm/mm.h` define them.  A
descriptor pointer is the index of the descriptor in `page_array`, and `NULL`
is `none`.

Page frame numbers and orders are natural numbers: every frame number the code
forms lies below `2 ^ 20 + 2 ^ 11`, so the 32-bit additions on them are exact.
Counters and flags are 32-bit words.
-/

namespace EarlnuxOS
namespace Mm

def pmmMaxOrder : Nat := 11

def pageShift : Nat := 12

def pageArraySize : Nat := 1024 * 256

def pageFlagFree : UInt32 := 1
def pageFlagReserved : UInt32 := 2
def pageFlagKernel : UInt32 := 4

/-- The page frame descriptor `page_t`. -/
structure Page where
  flags : UInt32
  refCount : UInt32
  order : Nat
  next : Option Nat
  prev : Option Nat
deriving DecidableEq, Repr

/-- `p->flags & PAGE_FLAG_FREE`. -/
def Page.isFree (p : Page) : Bool :=
  p.flags &&& pageFlagFree != 0

/--
The descriptor array.  An access beyond `page_array` is undefined behaviour;
`outside` records that one was made, and the array carries on unbounded.
-/
structure PageArray where
  page : Nat -> Page
  outside : Bool

def PageArray.touch (a : PageArray) (pfn : Nat) : PageArray :=
  { a with outside := a.outside || decide (pageArraySize ≤ pfn) }

def PageArray.modify (a : PageArray) (pfn : Nat) (f : Page -> Page) :
    PageArray :=
  { page := Function.update a.page pfn (f (a.page pfn))
    outside := a.outside || decide (pageArraySize ≤ pfn) }

/-- The zone descriptor `buddy_zone_t`, without its printed name. -/
structure BuddyZone where
  freeList : Nat -> Option Nat
  freeCount : Nat -> UInt32
  basePfn : Nat
  endPfn : Nat
  totalPages : UInt32
  freePages : UInt32

/-- What a buddy function works on: one zone and the shared descriptors. -/
structure Zoned where
  zone : BuddyZone
  pages : PageArray

def physToPfn (phys : Nat) : Nat := phys >>> pageShift

def pfnToPhys (pfn : Nat) : Nat := (pfn <<< pageShift) % 2 ^ 32

/-- The page frame number with the bit of `order` flipped. -/
def buddyPfn (pfn order : Nat) : Nat := pfn ^^^ (1 <<< order)

/-!
# Free list edits

The eight statements that put a block on its free list occur three times in
the source, once in each function below.
-/

namespace Zoned

def page (z : Zoned) (pfn : Nat) : Page := z.pages.page pfn

def modify (z : Zoned) (pfn : Nat) (f : Page -> Page) : Zoned :=
  { z with pages := z.pages.modify pfn f }

def touch (z : Zoned) (pfn : Nat) : Zoned :=
  { z with pages := z.pages.touch pfn }

def setFreeList (z : Zoned) (order : Nat) (head : Option Nat) : Zoned :=
  { z with zone :=
      { z.zone with
          freeList := Function.update z.zone.freeList order head } }

/-- `zone->free_count[order]++; zone->free_pages += 1u << order`. -/
def countUp (z : Zoned) (order : Nat) : Zoned :=
  { z with zone :=
      { z.zone with
          freeCount := Function.update z.zone.freeCount order
            (z.zone.freeCount order + 1)
          freePages := z.zone.freePages + UInt32.ofNat (1 <<< order) } }

/-- `zone->free_count[order]--; zone->free_pages -= 1u << order`. -/
def countDown (z : Zoned) (order : Nat) : Zoned :=
  { z with zone :=
      { z.zone with
          freeCount := Function.update z.zone.freeCount order
            (z.zone.freeCount order - 1)
          freePages := z.zone.freePages - UInt32.ofNat (1 <<< order) } }

/-- `if (p) p->prev = back`. -/
def setPrev (z : Zoned) (p : Option Nat) (back : Option Nat) : Zoned :=
  match p with
  | none => z
  | some q => z.modify q fun d => { d with prev := back }

/-- Put the block at `pfn` at the head of the free list of `order`. -/
def pushFree (z : Zoned) (pfn order : Nat) : Zoned :=
  let head := z.zone.freeList order
  let z := z.modify pfn fun p =>
    { p with flags := pageFlagFree, order := order, next := head, prev := none }
  let z := z.setPrev head (some pfn)
  (z.setFreeList order (some pfn)).countUp order

/-- Take the head `pfn` of the free list of `order` off that list. -/
def popFree (z : Zoned) (pfn order : Nat) : Zoned :=
  let z := z.touch pfn
  let next := (z.page pfn).next
  let z := z.setFreeList order next
  let z := z.setPrev next none
  z.countDown order

/-- Take the block at `pfn` out of the middle of the free list of `order`. -/
def unlinkFree (z : Zoned) (pfn order : Nat) : Zoned :=
  let buddy := z.page pfn
  let z :=
    match buddy.prev with
    | some q => z.modify q fun d => { d with next := buddy.next }
    | none => z.setFreeList order buddy.next
  let buddy := z.page pfn
  let z := z.setPrev buddy.next buddy.prev
  z.countDown order

end Zoned

/-!
# `buddy_free_range`
-/

/-- The inner `while (order > 0)` loop: the largest order that fits at `pfn`. -/
def rangeOrder (pfn endPfn : Nat) : Nat -> Nat
  | 0 => 0
  | order + 1 =>
      if pfn &&& ((1 <<< (order + 1)) - 1) = 0 ∧
          pfn + (1 <<< (order + 1)) ≤ endPfn then
        order + 1
      else
        rangeOrder pfn endPfn order

theorem one_shiftLeft_pos (order : Nat) : 0 < 1 <<< order := by
  rw [Nat.one_shiftLeft]
  exact Nat.two_pow_pos order

def buddyFreeRange (z : Zoned) (pfn endPfn : Nat) : Zoned :=
  if pfn < endPfn then
    let order := rangeOrder pfn endPfn pmmMaxOrder
    buddyFreeRange (z.pushFree pfn order) (pfn + (1 <<< order)) endPfn
  else
    z
termination_by endPfn - pfn
decreasing_by
  have hpos := one_shiftLeft_pos (rangeOrder pfn endPfn pmmMaxOrder)
  omega

/-!
# `buddy_alloc`
-/

/-- The first order from `order` on whose free list is not empty. -/
def foundOrder (zone : BuddyZone) (order : Nat) : Nat :=
  if order ≤ pmmMaxOrder ∧ zone.freeList order = none then
    foundOrder zone (order + 1)
  else
    order
termination_by pmmMaxOrder + 1 - order

/-- Split the block at `p` down to `order`, freeing the right halves. -/
def splitDown (totalPageFrames p order : Nat) (z : Zoned) : Nat -> Zoned
  | 0 => z
  | found + 1 =>
      if order < found + 1 then
        let buddyPfnVal := p + (1 <<< found)
        let z := if buddyPfnVal < totalPageFrames then
            z.pushFree buddyPfnVal found
          else
            z
        splitDown totalPageFrames p order z found
      else
        z

/-- The last statements of `buddy_alloc`: the block at `p` is handed out. -/
def handOut (z : Zoned) (p order : Nat) : Zoned :=
  z.modify p fun d =>
    { d with
        flags := d.flags &&& ~~~pageFlagFree, order := order, refCount := 1 }

/-- `buddy_alloc`: the physical address of a block, or 0 when there is none. -/
def buddyAlloc (totalPageFrames : Nat) (z : Zoned) (order : Nat) :
    Nat × Zoned :=
  let found := foundOrder z.zone order
  if pmmMaxOrder < found then
    (0, z)
  else
    match z.zone.freeList found with
    | none => (0, z)
    | some p =>
        let z := z.popFree p found
        let z := splitDown totalPageFrames p order z found
        (pfnToPhys p, handOut z p order)

/-!
# `buddy_free`
-/

/-- The merge loop of `buddy_free`: the block it ends with, and the state. -/
def mergeUp (totalPageFrames : Nat) (z : Zoned) (pfn order : Nat) :
    Nat × Nat × Zoned :=
  if order < pmmMaxOrder then
    let bPfn := buddyPfn pfn order
    if bPfn < totalPageFrames then
      let z := z.touch bPfn
      let buddy := z.page bPfn
      if buddy.isFree = false ∨ buddy.order ≠ order then
        (pfn, order, z)
      else
        let z := z.unlinkFree bPfn order
        let z := z.modify bPfn fun d => { d with flags := 0 }
        mergeUp totalPageFrames z (if bPfn < pfn then bPfn else pfn) (order + 1)
    else
      (pfn, order, z)
  else
    (pfn, order, z)
termination_by pmmMaxOrder - order

def buddyFree (totalPageFrames : Nat) (z : Zoned) (phys order : Nat) : Zoned :=
  let pfn := physToPfn phys
  if pfn < totalPageFrames then
    let z := z.modify pfn fun d => { d with refCount := 0 }
    let merged := mergeUp totalPageFrames z pfn order
    merged.2.2.pushFree merged.1 merged.2.1
  else
    z

end Mm
end EarlnuxOS
