import EarlnuxOS.Mm.Vmm.Images
import EarlnuxOS.Mm.Vmm.Lending

/-!
# Private address spaces

Directories are cloned, mapped into, written through and destroyed in any order
over the buddy allocator, while other callers take blocks, write to them and
give them back.  Address spaces are private: what the user finds at a page is
what was put there, whatever happens to other spaces and other blocks.

As everywhere in `kernel/mm/vmm.c`, directories and tables are accessed at their
physical addresses.
-/

namespace EarlnuxOS
namespace Mm

open Foundation
open Vmm

/-!
# What address spaces are for
-/

/-- The pages that callers hold, by address, and those of each space. -/
@[ext] structure Spaces where
  held : UInt32 -> Option Words
  space : UInt32 -> Option Image

inductive SpaceOp where
  | alloc (order : Nat)
  | free (b : Held)
  | write (page : UInt32) (i : Fin 1024) (word : UInt32)
  | map (dir virt page flags : UInt32)
  | unmap (dir virt : UInt32)
  | store (dir virt : UInt32) (i : Fin 1024) (word : UInt32)
  | clone (src : UInt32)
  | destroy (dir : UInt32)

def blockFrames (phys order : Nat) : Set UInt32 :=
  { f | frame f = f ∧
    physToPfn f.toNat ∈ Block.units { start := physToPfn phys, order := order } }

def Held.frames (b : Held) : Set UInt32 :=
  blockFrames b.phys b.order

namespace Spaces

open scoped Classical in
noncomputable def setHeld (m : Spaces) (frames : Set UInt32)
    (words : UInt32 -> Option Words) : Spaces :=
  { m with held := fun f => if f ∈ frames then words f else m.held f }

theorem setHeld_held_mem (m : Spaces) {frames : Set UInt32}
    (words : UInt32 -> Option Words) {f : UInt32} (hf : f ∈ frames) :
    (m.setHeld frames words).held f = words f :=
  if_pos hf

theorem setHeld_held_other (m : Spaces) {frames : Set UInt32}
    (words : UInt32 -> Option Words) {f : UInt32} (hf : f ∉ frames) :
    (m.setHeld frames words).held f = m.held f :=
  if_neg hf

theorem setHeld_congr (m : Spaces) {frames : Set UInt32}
    {words words' : UInt32 -> Option Words}
    (h : forall f, f ∈ frames -> words f = words' f) :
    m.setHeld frames words = m.setHeld frames words' := by
  ext1
  · funext f
    by_cases hf : f ∈ frames
    · rw [m.setHeld_held_mem _ hf, m.setHeld_held_mem _ hf, h f hf]
    · rw [m.setHeld_held_other _ hf, m.setHeld_held_other _ hf]
  · rfl

def setSpace (m : Spaces) (dir : UInt32) (shown : Option Image) : Spaces :=
  { m with space := Function.update m.space dir shown }

/--
What each call means, given its result.  The words of a block that is handed
out may be anything, as may the image of a clone of the kernel's directory.
-/
def Does (m m' : Spaces) : SpaceOp -> UInt32 -> Prop
  | SpaceOp.alloc order, phys =>
      if phys = 0 then m' = m
      else
        (forall f, f ∈ blockFrames phys.toNat order -> m.held f = none) ∧
          exists words : UInt32 -> Words,
            m' = m.setHeld (blockFrames phys.toNat order)
              (fun f => some (words f))
  | SpaceOp.free b, _ => m' = m.setHeld b.frames (fun _ => none)
  | SpaceOp.write page i word, _ =>
      exists words, m.held page = some words ∧
        m' = m.setHeld {page} (fun _ => some (Function.update words i word))
  | SpaceOp.map dir virt page flags, result =>
      if result = 0 then
        exists shown words, m.space dir = some shown ∧
          m.held page = some words ∧
          m' = (m.setHeld {page} (fun _ => none)).setSpace dir
            (some (shown.set virt
              (some { flags := mapFlags flags, words := words })))
      else m' = m
  | SpaceOp.unmap dir virt, page =>
      exists shown, m.space dir = some shown ∧
        ((shown.at virt = none ∧ page = 0 ∧ m' = m) ∨
          exists p, shown.at virt = some p ∧ page ≠ 0 ∧ m.held page = none ∧
            m' = (m.setHeld {page} (fun _ => some p.words)).setSpace dir
              (some (shown.set virt none)))
  | SpaceOp.store dir virt i word, _ =>
      exists shown p, m.space dir = some shown ∧ shown.at virt = some p ∧
        m' = m.setSpace dir (some (shown.set virt
          (some { p with words := Function.update p.words i word })))
  | SpaceOp.clone src, dir =>
      m.space dir = none ∧ m.held dir = none ∧
        exists shown, (forall s, m.space src = some s -> shown = s) ∧
          m' = m.setSpace dir (some shown)
  | SpaceOp.destroy dir, _ => m' = m.setSpace dir none

end Spaces

/-!
# The calls
-/

def Vmm.poke {alpha : Type} (st : Vmm alpha) (page : UInt32) (i : Fin 1024)
    (word : UInt32) : Vmm alpha :=
  { st with
      mem := Function.update st.mem page
        (Function.update (st.mem page) i word) }

theorem Vmm.poke_self {alpha : Type} (st : Vmm alpha) (page : UInt32)
    (i : Fin 1024) (word : UInt32) : (st.poke page i word).mem page =
      Function.update (st.mem page) i word :=
  Function.update_self _ _ _

theorem Vmm.poke_other {alpha : Type} (st : Vmm alpha) {page f : UInt32}
    (i : Fin 1024) (word : UInt32) (hf : f ≠ page) :
    (st.poke page i word).mem f = st.mem f :=
  Function.update_of_ne hf _ _

/-- The manager, the directories in use, and the blocks that callers hold. -/
structure SpaceState where
  vm : Vmm Pmm
  spaces : List UInt32
  pages : List Held

namespace SpaceState

def start (vm : Vmm Pmm) : SpaceState :=
  { vm := vm, spaces := [], pages := [] }

def exec (s : SpaceState) : SpaceOp -> SpaceState
  | SpaceOp.alloc order =>
      let result := s.vm.pmm.pmmAllocPages order
      { s with
          vm := { s.vm with pmm := result.2 }
          pages :=
            if result.1 = 0 then s.pages
            else
              { phys := result.1, order := order
                zone := s.vm.pmm.sourceZone order } :: s.pages }
  | SpaceOp.free b =>
      { s with
          vm :=
            { s.vm with
                pmm := s.vm.pmm.pmmFreePages (UInt32.ofNat b.phys) b.order }
          pages := s.pages.erase b }
  | SpaceOp.write page i word => { s with vm := s.vm.poke page i word }
  | SpaceOp.map dir virt page flags =>
      let result := s.vm.vmmMapPage dir virt page flags
      { s with
          vm := result.2
          pages :=
            if result.1 = 0 then s.pages.erase (heldPage page) else s.pages }
  | SpaceOp.unmap dir virt =>
      let page := frame (vmmVirtToPhys s.vm.mem dir virt)
      { s with
          vm := s.vm.vmmUnmapPage dir virt
          pages := if page = 0 then s.pages else heldPage page :: s.pages }
  | SpaceOp.store dir virt i word =>
      { s with
          vm := s.vm.poke (frame (vmmVirtToPhys s.vm.mem dir virt)) i word }
  | SpaceOp.clone src =>
      let result := s.vm.vmmCloneDir src
      { s with vm := result.2, spaces := result.1 :: s.spaces }
  | SpaceOp.destroy dir =>
      { s with
          vm := s.vm.vmmDestroyDir dir
          spaces := s.spaces.erase dir }

/-- What a call returns, or the page whose mapping it removes. -/
def result (s : SpaceState) : SpaceOp -> UInt32
  | SpaceOp.alloc order => UInt32.ofNat (s.vm.pmm.pmmAllocPages order).1
  | SpaceOp.map dir virt page flags =>
      UInt32.ofInt (s.vm.vmmMapPage dir virt page flags).1
  | SpaceOp.unmap dir virt => frame (vmmVirtToPhys s.vm.mem dir virt)
  | SpaceOp.clone src => (s.vm.vmmCloneDir src).1
  | _ => 0

def heldFrames (pages : List Held) : Set UInt32 :=
  { f | exists b, b ∈ pages ∧ f ∈ b.frames }

/--
Callers free and write what they hold, map a page of theirs where there is
none, and store to pages that are mapped.  For a clone no frame is missing, and
none is a page of the kernel's directory `k` when that is the source.
-/
def Valid (k : UInt32) (s : SpaceState) : SpaceOp -> Prop
  | SpaceOp.alloc _ => True
  | SpaceOp.free b => b ∈ s.pages
  | SpaceOp.write page _ _ => page ∈ heldFrames s.pages
  | SpaceOp.map dir virt page _ =>
      dir ∈ s.spaces ∧ pdeIndex virt < pdeIndex kernelBase ∧
        heldPage page ∈ s.pages ∧
        entryAt s.vm.mem dir (pdeIndex virt) (pteIndex virt) = none
  | SpaceOp.unmap dir virt =>
      dir ∈ s.spaces ∧ pdeIndex virt < pdeIndex kernelBase
  | SpaceOp.store dir virt _ _ =>
      dir ∈ s.spaces ∧ pdeIndex virt < pdeIndex kernelBase ∧
        entryAt s.vm.mem dir (pdeIndex virt) (pteIndex virt) ≠ none
  | SpaceOp.clone src =>
      (src ∈ s.spaces ∨ src = k) ∧
        forall m, m < cloneNeeds s.vm.mem src ->
          answer s.vm.pmm m ≠ 0 ∧
            (src = k -> ¬ UserPage s.vm.mem k (answer s.vm.pmm m))
  | SpaceOp.destroy dir => dir ∈ s.spaces

def frames (s : SpaceState) : List UInt32 :=
  s.spaces.flatMap (spaceFrames s.vm.mem)

end SpaceState

/-!
# What is seen
-/

section Views

open scoped Classical in
noncomputable def heldView (pages : List Held) (mem : Frames) :
    UInt32 -> Option Words :=
  fun f => if f ∈ SpaceState.heldFrames pages then some (mem f) else none

def spaceView (spaces : List UInt32) (mem : Frames) :
    UInt32 -> Option Image :=
  fun d => if d ∈ spaces then some (image mem d) else none

noncomputable def SpaceState.view (s : SpaceState) : Spaces where
  held := heldView s.pages s.vm.mem
  space := spaceView s.spaces s.vm.mem

variable {mem mem' : Frames} {pages pages' : List Held} {b : Held}
  {spaces : List UInt32} {dir f : UInt32}

theorem heldView_some (hf : f ∈ SpaceState.heldFrames pages) :
    heldView pages mem f = some (mem f) :=
  if_pos hf

theorem heldView_none (hf : f ∉ SpaceState.heldFrames pages) :
    heldView pages mem f = none :=
  if_neg hf

theorem heldFrames_perm (hperm : pages.Perm pages') :
    SpaceState.heldFrames pages = SpaceState.heldFrames pages' := by
  ext f
  exact exists_congr fun b => and_congr_left fun _ => hperm.mem_iff

theorem mem_heldFrames_cons : f ∈ SpaceState.heldFrames (b :: pages) <->
    f ∈ b.frames ∨ f ∈ SpaceState.heldFrames pages := by
  constructor
  · intro hf
    rcases hf with ⟨c, hc, hfc⟩
    rcases List.mem_cons.mp hc with heq | hmem
    · exact Or.inl (heq ▸ hfc)
    · exact Or.inr ⟨c, hmem, hfc⟩
  · intro hf
    rcases hf with hf | ⟨c, hc, hfc⟩
    · exact ⟨b, List.mem_cons_self, hf⟩
    · exact ⟨c, List.mem_cons_of_mem b hc, hfc⟩

theorem heldView_perm (hperm : pages.Perm pages') :
    heldView pages mem = heldView pages' mem := by
  unfold heldView
  rw [heldFrames_perm hperm]

theorem heldView_cons_mem (hf : f ∈ b.frames) :
    heldView (b :: pages) mem f = some (mem f) :=
  heldView_some (mem_heldFrames_cons.mpr (Or.inl hf))

theorem heldView_cons_other (hf : f ∉ b.frames) :
    heldView (b :: pages) mem f = heldView pages mem f := by
  have hiff : f ∈ SpaceState.heldFrames (b :: pages) <->
      f ∈ SpaceState.heldFrames pages :=
    mem_heldFrames_cons.trans (or_iff_right hf)
  by_cases hmem : f ∈ SpaceState.heldFrames pages
  · rw [heldView_some hmem, heldView_some (hiff.mpr hmem)]
  · rw [heldView_none hmem, heldView_none (fun h => hmem (hiff.mp h))]

theorem heldView_cons (m : Spaces) (hm : m.held = heldView pages mem) :
    heldView (b :: pages) mem =
      (m.setHeld b.frames (fun f => some (mem f))).held := by
  funext f
  by_cases hf : f ∈ b.frames
  · rw [Spaces.setHeld_held_mem _ _ hf, heldView_cons_mem hf]
  · rw [Spaces.setHeld_held_other _ _ hf, heldView_cons_other hf, hm]

theorem heldView_erase (m : Spaces) (hm : m.held = heldView pages mem)
    (hb : b ∈ pages)
    (hapart : forall f, f ∈ b.frames ->
      f ∉ SpaceState.heldFrames (pages.erase b)) :
    heldView (pages.erase b) mem =
      (m.setHeld b.frames (fun _ => none)).held := by
  funext f
  by_cases hf : f ∈ b.frames
  · rw [Spaces.setHeld_held_mem _ _ hf, heldView_none (hapart f hf)]
  · rw [Spaces.setHeld_held_other _ _ hf, hm,
      heldView_perm (List.perm_cons_erase hb), heldView_cons_other hf]

theorem heldView_congr
    (h : forall f, f ∈ SpaceState.heldFrames pages -> mem' f = mem f) :
    heldView pages mem' = heldView pages mem := by
  funext f
  by_cases hf : f ∈ SpaceState.heldFrames pages
  · rw [heldView_some hf, heldView_some hf, h f hf]
  · rw [heldView_none hf, heldView_none hf]

theorem spaceView_some (hd : dir ∈ spaces) :
    spaceView spaces mem dir = some (image mem dir) :=
  if_pos hd

theorem spaceView_none (hd : dir ∉ spaces) :
    spaceView spaces mem dir = none :=
  if_neg hd

theorem spaceView_congr
    (h : forall d, d ∈ spaces -> image mem' d = image mem d) :
    spaceView spaces mem' = spaceView spaces mem := by
  funext d
  by_cases hd : d ∈ spaces
  · rw [spaceView_some hd, spaceView_some hd, h d hd]
  · rw [spaceView_none hd, spaceView_none hd]

theorem spaceView_update (hd : dir ∈ spaces)
    (h : forall d, d ∈ spaces -> d ≠ dir -> image mem' d = image mem d) :
    spaceView spaces mem' =
      Function.update (spaceView spaces mem) dir (some (image mem' dir)) := by
  funext d
  rw [Function.update_apply]
  by_cases hdd : d = dir
  · rw [if_pos hdd, hdd, spaceView_some hd]
  · rw [if_neg hdd]
    by_cases hmem : d ∈ spaces
    · rw [spaceView_some hmem, spaceView_some hmem, h d hmem hdd]
    · rw [spaceView_none hmem, spaceView_none hmem]

theorem spaceView_cons :
    spaceView (dir :: spaces) mem =
      Function.update (spaceView spaces mem) dir (some (image mem dir)) := by
  funext d
  rw [Function.update_apply]
  by_cases hdd : d = dir
  · rw [if_pos hdd, hdd, spaceView_some List.mem_cons_self]
  · rw [if_neg hdd]
    exact if_congr (by rw [List.mem_cons, or_iff_right hdd]) rfl rfl

theorem spaceView_erase (hnodup : spaces.Nodup) :
    spaceView (spaces.erase dir) mem =
      Function.update (spaceView spaces mem) dir none := by
  funext d
  rw [Function.update_apply]
  by_cases hdd : d = dir
  · rw [if_pos hdd, spaceView_none]
    intro hmem
    exact (hnodup.mem_erase_iff.mp hmem).left hdd
  · rw [if_neg hdd]
    exact if_congr (List.mem_erase_of_ne hdd) rfl rfl

end Views

end Mm
end EarlnuxOS
