import EarlnuxOS.Foundation.LinkedList
import EarlnuxOS.Mm.Heap.Heap

/-!
# The headers of a set of blocks

The allocator's view of memory: at the addresses of some blocks, which lie far
enough apart for their headers not to overlap, it keeps a payload size, a magic
word, a back link, and the links of the free list.  Each statement of `heap.c`
that writes a header changes this view at one block.
-/

namespace EarlnuxOS
namespace Mm

open Foundation

def toPtr (v : Nat) : Option Nat := if v = 0 then none else some v

theorem toPtr_of_pos {v : Nat} (h : 0 < v) : toPtr v = some v :=
  if_neg (Nat.ne_of_gt h)

theorem toPtr_eq_some {v a : Nat} : toPtr v = some a <-> v ≠ 0 ∧ v = a := by
  unfold toPtr
  by_cases h : v = 0
  · simp [h]
  · simp [h]

theorem toPtr_eq_none {v : Nat} : toPtr v = none <-> v = 0 := by
  unfold toPtr
  by_cases h : v = 0
  · simp [h]
  · simp [h]

def HdrApart (a b : Nat) : Prop := a + 20 ≤ b ∨ b + 20 ≤ a

theorem HdrApart.symm {a b : Nat} (h : HdrApart a b) : HdrApart b a := Or.symm h

theorem HdrApart.ne {a b : Nat} (h : HdrApart a b) : a ≠ b := by
  intro heq
  unfold HdrApart at h
  omega

theorem HdrField.offset_apart (f g : HdrField) :
    f = g ∨ f.offset + 4 ≤ g.offset ∨ g.offset + 4 ≤ f.offset := by
  cases f <;> cases g <;> decide

theorem HdrField.offset_le (f : HdrField) : f.offset ≤ 16 := by
  cases f <;> decide

namespace Heap

def next (h : Heap) (blk : Nat) : Option Nat := toPtr (h.nextFree blk)

def prev (h : Heap) (blk : Nat) : Option Nat := toPtr (h.prevFree blk)

def head (h : Heap) : Option Nat := toPtr h.freeList

theorem get_lt (h : Heap) (field : HdrField) (blk : Nat) :
    h.get field blk < 2 ^ 32 :=
  load32_lt _ _

/-- What a field of one header sees of a store to a field of another. -/
theorem get_set (h : Heap) (f g : HdrField) {a b v : Nat}
    (hab : a = b ∨ HdrApart a b) (hv : v < 2 ^ 32) :
    (h.set f a v).get g b = if a = b ∧ f = g then v else h.get g b := by
  have hf := f.offset_le
  have hg := g.offset_le
  have hfg := f.offset_apart g
  unfold get set
  split
  · rename_i heq
    rw [heq.left, heq.right]
    exact load32_store32_self h.mem _ hv
  · rename_i hne
    apply load32_store32_of_disjoint
    unfold HdrApart at hab
    rcases hab with hab | hab
    · rcases hfg with hfg | hfg
      · exact absurd ⟨hab, hfg⟩ hne
      · omega
    · omega

theorem get_set_of_ne (h : Heap) {f g : HdrField} (hfg : f ≠ g) {a b v : Nat}
    (hab : a = b ∨ HdrApart a b) (hv : v < 2 ^ 32) :
    (h.set f a v).get g b = h.get g b := by
  rw [h.get_set f g hab hv, if_neg (fun heq => hfg heq.right)]

theorem get_set_self (h : Heap) (f : HdrField) {a b v : Nat}
    (hab : a = b ∨ HdrApart a b) (hv : v < 2 ^ 32) :
    (h.set f a v).get f b = if a = b then v else h.get f b := by
  rw [h.get_set f f hab hv]
  simp

/-- What a header reads after a block has been put on the free list. -/
theorem get_pushFree (h : Heap) (g : HdrField) {x a : Nat}
    (hxa : x = a ∨ HdrApart x a)
    (hhead : h.freeList = 0 ∨ h.freeList = a ∨ HdrApart h.freeList a)
    (hx : x < 2 ^ 32) (hlt : h.freeList < 2 ^ 32) :
    (h.pushFree x).get g a =
      if g = HdrField.nextFree ∧ x = a then h.freeList
      else if g = HdrField.prevFree ∧ h.freeList ≠ 0 ∧ h.freeList = a then x
      else if g = HdrField.prevFree ∧ x = a then 0
      else h.get g a := by
  have hzero : (0 : Nat) < 2 ^ 32 := by decide
  have hfirst : ((h.setNextFree x h.freeList).setPrevFree x 0).get g a =
      if g = HdrField.nextFree ∧ x = a then h.freeList
      else if g = HdrField.prevFree ∧ x = a then 0
      else h.get g a := by
    rw [get_set _ _ g hxa hzero, get_set _ _ g hxa hlt]
    cases g <;> simp
  by_cases hnull : h.freeList = 0
  · have hpush : (h.pushFree x).get g a =
        ((h.setNextFree x h.freeList).setPrevFree x 0).get g a := by
      unfold pushFree
      simp only [if_pos hnull]
      rfl
    rw [hpush, hfirst]
    simp [hnull]
  · have hpush : (h.pushFree x).get g a =
        (((h.setNextFree x h.freeList).setPrevFree x 0).setPrevFree
          h.freeList x).get g a := by
      unfold pushFree
      simp only [if_neg hnull]
      rfl
    rw [hpush, get_set _ _ g (hhead.resolve_left hnull) hx, hfirst]
    cases g <;> simp [hnull]

/-- What a header reads after a block has been taken off the free list. -/
theorem get_freeListRemove (h : Heap) (g : HdrField) {x a : Nat}
    (hxa : x = a ∨ HdrApart x a)
    (hprev : h.prevFree x = 0 ∨ h.prevFree x = a ∨ HdrApart (h.prevFree x) a)
    (hnext : h.nextFree x = 0 ∨ h.nextFree x = a ∨ HdrApart (h.nextFree x) a)
    (hprevx : h.prevFree x = 0 ∨ HdrApart (h.prevFree x) x) :
    (h.freeListRemove x).get g a =
      if x = a ∧ (g = HdrField.nextFree ∨ g = HdrField.prevFree) then 0
      else if g = HdrField.nextFree ∧ h.prevFree x ≠ 0 ∧ h.prevFree x = a then
        h.nextFree x
      else if g = HdrField.prevFree ∧ h.nextFree x ≠ 0 ∧ h.nextFree x = a then
        h.prevFree x
      else h.get g a := by
  have hzero : (0 : Nat) < 2 ^ 32 := by decide
  have hfirst : exists h1 : Heap,
      h.freeListRemove x =
        ((if h1.nextFree x = 0 then h1
          else h1.setPrevFree (h1.nextFree x) (h1.prevFree x)).setNextFree x
            0).setPrevFree x 0 ∧
      h1.nextFree x = h.nextFree x ∧ h1.prevFree x = h.prevFree x ∧
      h1.get g a =
        if g = HdrField.nextFree ∧ h.prevFree x ≠ 0 ∧ h.prevFree x = a then
          h.nextFree x
        else h.get g a := by
    by_cases hnull : h.prevFree x = 0
    · refine ⟨{ h with freeList := h.nextFree x }, ?_, rfl, rfl, ?_⟩
      · unfold freeListRemove
        rw [if_pos hnull]
      · simp only [hnull]
        simp [get]
    · refine ⟨h.setNextFree (h.prevFree x) (h.nextFree x), ?_, ?_, ?_, ?_⟩
      · unfold freeListRemove
        rw [if_neg hnull]
      · have hapart := hprevx.resolve_left hnull
        rw [nextFree, get_set_self _ _ (Or.inr hapart) (h.get_lt _ _),
          if_neg hapart.ne]
      · exact get_set_of_ne _ (by decide)
          (Or.inr (hprevx.resolve_left hnull)) (h.get_lt _ _)
      · rw [get_set _ _ g (hprev.resolve_left hnull) (h.get_lt _ _)]
        cases g <;> simp [hnull]
  rcases hfirst with ⟨h1, hremove, hnext1, hprev1, hget1⟩
  rw [hremove, get_set _ _ g hxa hzero, get_set _ _ g hxa hzero, hnext1,
    hprev1]
  by_cases hnull : h.nextFree x = 0
  · rw [if_pos hnull, hget1]
    cases g <;> simp [hnull]
  · rw [if_neg hnull,
      get_set _ _ g (hnext.resolve_left hnull) (h.get_lt _ _), hget1]
    cases g <;> simp [hnull]

theorem freeList_freeListRemove (h : Heap) (x : Nat) :
    (h.freeListRemove x).freeList =
      if h.prevFree x = 0 then h.nextFree x else h.freeList := by
  unfold freeListRemove
  by_cases hnull : h.prevFree x = 0
  · simp only [if_pos hnull]
    split <;> rfl
  · simp only [if_neg hnull]
    split <;> rfl

end Heap

/-!
# The view
-/

structure Tag where
  size : Nat
  magic : Nat
  prevPhys : Nat
  listed : Bool
deriving DecidableEq, Repr

/--
`H` are the tags of the blocks, by address, and `fl` is the free list: the
headers hold the tags, and the list holds the blocks that are listed.
-/
structure Headers (H : Nat -> Option Tag) (fl : List Nat) (h : Heap) :
    Prop where
  apart : forall a b, H a ≠ none -> H b ≠ none -> a = b ∨ HdrApart a b
  range : forall a, H a ≠ none -> 0 < a ∧ a < 2 ^ 32
  tags : forall a t, H a = some t ->
    h.magic a = t.magic ∧ h.size a = t.size ∧ h.prevPhys a = t.prevPhys
  links : DList h.next h.prev h.head fl
  listed : forall a, a ∈ fl <-> exists t, H a = some t ∧ t.listed = true

namespace Headers

variable {H : Nat -> Option Tag} {fl : List Nat} {h : Heap}

theorem known_of_mem (hh : Headers H fl h) {a : Nat} (ha : a ∈ fl) :
    H a ≠ none := by
  rcases (hh.listed a).mp ha with ⟨t, ht, _⟩
  rw [ht]
  simp

theorem frame (hh : Headers H fl h) {h' : Heap}
    (hmem : forall a f, H a ≠ none -> h'.get f a = h.get f a)
    (hhead : h'.freeList = h.freeList) : Headers H fl h' where
  apart := hh.apart
  range := hh.range
  tags := by
    intro a t ht
    have hknown : H a ≠ none := by
      rw [ht]
      simp
    rw [Heap.magic, Heap.size, Heap.prevPhys, hmem a _ hknown,
      hmem a _ hknown, hmem a _ hknown]
    exact hh.tags a t ht
  links := by
    unfold Heap.head
    rw [hhead]
    apply hh.links.congr
    · intro a ha
      exact congrArg toPtr (hmem a _ (hh.known_of_mem ha))
    · intro a ha
      exact congrArg toPtr (hmem a _ (hh.known_of_mem ha))
  listed := hh.listed

theorem set_other (hh : Headers H fl h) (f : HdrField) {x v : Nat}
    (hx : forall a, H a ≠ none -> HdrApart x a) (hv : v < 2 ^ 32) :
    Headers H fl (h.set f x v) := by
  apply hh.frame
  · intro a g ha
    rw [h.get_set f g (Or.inr (hx a ha)) hv, if_neg]
    intro heq
    exact (hx a ha).ne heq.left
  · rfl

theorem adopt (hh : Headers H fl h) {x : Nat} {t : Tag}
    (hx : forall a, H a ≠ none -> HdrApart x a) (hpos : 0 < x)
    (hlt : x < 2 ^ 32) (hmagic : h.magic x = t.magic)
    (hsize : h.size x = t.size) (hback : h.prevPhys x = t.prevPhys)
    (hlisted : t.listed = false) :
    Headers (Function.update H x (some t)) fl h := by
  have hnone : H x = none := by
    by_contra hknown
    exact (hx x hknown).ne rfl
  constructor
  · intro a b ha hb
    rw [Function.update_apply] at ha hb
    by_cases hax : a = x
    · by_cases hbx : b = x
      · exact Or.inl (hax.trans hbx.symm)
      · rw [if_neg hbx] at hb
        rw [hax]
        exact Or.inr (hx b hb)
    · rw [if_neg hax] at ha
      by_cases hbx : b = x
      · rw [hbx]
        exact Or.inr (hx a ha).symm
      · rw [if_neg hbx] at hb
        exact hh.apart a b ha hb
  · intro a ha
    rw [Function.update_apply] at ha
    by_cases hax : a = x
    · rw [hax]
      exact ⟨hpos, hlt⟩
    · rw [if_neg hax] at ha
      exact hh.range a ha
  · intro a u hu
    rw [Function.update_apply] at hu
    by_cases hax : a = x
    · rw [if_pos hax] at hu
      cases hu
      rw [hax]
      exact ⟨hmagic, hsize, hback⟩
    · rw [if_neg hax] at hu
      exact hh.tags a u hu
  · exact hh.links
  · intro a
    rw [hh.listed a, Function.update_apply]
    by_cases hax : a = x
    · rw [if_pos hax, hax, hnone]
      simp [hlisted]
    · rw [if_neg hax]

theorem drop (hh : Headers H fl h) {x : Nat} {t : Tag} (ht : H x = some t)
    (hlisted : t.listed = false) :
    Headers (Function.update H x none) fl h := by
  have hknown : forall a, Function.update H x none a ≠ none -> H a ≠ none := by
    intro a ha
    rw [Function.update_apply] at ha
    by_cases hax : a = x
    · rw [if_pos hax] at ha
      exact absurd rfl ha
    · rw [if_neg hax] at ha
      exact ha
  constructor
  · intro a b ha hb
    exact hh.apart a b (hknown a ha) (hknown b hb)
  · intro a ha
    exact hh.range a (hknown a ha)
  · intro a u hu
    rw [Function.update_apply] at hu
    by_cases hax : a = x
    · rw [if_pos hax] at hu
      cases hu
    · rw [if_neg hax] at hu
      exact hh.tags a u hu
  · exact hh.links
  · intro a
    rw [hh.listed a, Function.update_apply]
    by_cases hax : a = x
    · rw [if_pos hax, hax, ht]
      simp [hlisted]
    · rw [if_neg hax]

/-- A change to one block: its new tag, and the fields it is read from. -/
theorem retag (hh : Headers H fl h) {h' : Heap} {fl' : List Nat} {x : Nat}
    {t t' : Tag} (ht : H x = some t)
    (hmagic : forall a, H a ≠ none ->
      h'.magic a = if x = a then t'.magic else h.magic a)
    (hsize : forall a, H a ≠ none ->
      h'.size a = if x = a then t'.size else h.size a)
    (hback : forall a, H a ≠ none -> h'.prevPhys a = h.prevPhys a)
    (hsame : t'.prevPhys = t.prevPhys)
    (hlinks : DList h'.next h'.prev h'.head fl')
    (hlisted : forall a, a ∈ fl' <->
      if a = x then t'.listed = true else a ∈ fl) :
    Headers (Function.update H x (some t')) fl' h' := by
  have hknown : forall a, Function.update H x (some t') a ≠ none ->
      H a ≠ none := by
    intro a ha
    rw [Function.update_apply] at ha
    by_cases hax : a = x
    · rw [hax, ht]
      simp
    · rw [if_neg hax] at ha
      exact ha
  constructor
  · intro a b ha hb
    exact hh.apart a b (hknown a ha) (hknown b hb)
  · intro a ha
    exact hh.range a (hknown a ha)
  · intro a u hu
    have ha : H a ≠ none := by
      apply hknown a
      rw [hu]
      simp
    rw [hmagic a ha, hsize a ha, hback a ha]
    rw [Function.update_apply] at hu
    by_cases hax : a = x
    · rw [if_pos hax] at hu
      cases hu
      rw [if_pos hax.symm, if_pos hax.symm, hax, hsame]
      exact ⟨rfl, rfl, (hh.tags x t ht).right.right⟩
    · rw [if_neg hax] at hu
      rw [if_neg (Ne.symm hax), if_neg (Ne.symm hax)]
      exact hh.tags a u hu
  · exact hlinks
  · intro a
    rw [hlisted a, Function.update_apply]
    by_cases hax : a = x
    · rw [if_pos hax, if_pos hax]
      simp
    · rw [if_neg hax, if_neg hax]
      exact hh.listed a

theorem tags_at (hh : Headers H fl h) {x : Nat} {t : Tag} (ht : H x = some t)
    (a : Nat) :
    h.magic a = (if x = a then t.magic else h.magic a) ∧
      h.size a = if x = a then t.size else h.size a := by
  by_cases hxa : x = a
  · rw [if_pos hxa, if_pos hxa, ← hxa]
    exact ⟨(hh.tags x t ht).left, (hh.tags x t ht).right.left⟩
  · rw [if_neg hxa, if_neg hxa]
    exact ⟨rfl, rfl⟩

theorem listed_at (hh : Headers H fl h) {x : Nat} {t : Tag} (ht : H x = some t)
    (a : Nat) : a ∈ fl <-> if a = x then t.listed = true else a ∈ fl := by
  by_cases hax : a = x
  · rw [if_pos hax, hh.listed a, hax, ht]
    simp
  · rw [if_neg hax]

theorem links_set (hh : Headers H fl h) {f : HdrField} {x v : Nat}
    (hnext : f ≠ HdrField.nextFree) (hprev : f ≠ HdrField.prevFree)
    (hx : H x ≠ none) (hv : v < 2 ^ 32) :
    DList (h.set f x v).next (h.set f x v).prev (h.set f x v).head fl := by
  apply hh.links.congr
  · intro a ha
    exact congrArg toPtr
      (h.get_set_of_ne hnext (hh.apart x a hx (hh.known_of_mem ha)) hv)
  · intro a ha
    exact congrArg toPtr
      (h.get_set_of_ne hprev (hh.apart x a hx (hh.known_of_mem ha)) hv)

theorem setMagic (hh : Headers H fl h) {x v : Nat} {t : Tag}
    (ht : H x = some t) (hv : v < 2 ^ 32) :
    Headers (Function.update H x (some { t with magic := v })) fl
      (h.setMagic x v) := by
  have hx : H x ≠ none := by
    rw [ht]
    simp
  apply hh.retag ht
  · intro a ha
    exact h.get_set_self _ (hh.apart x a hx ha) hv
  · intro a ha
    exact (h.get_set_of_ne (by decide) (hh.apart x a hx ha) hv).trans
      (hh.tags_at ht a).right
  · intro a ha
    exact h.get_set_of_ne (by decide) (hh.apart x a hx ha) hv
  · rfl
  · exact hh.links_set (by decide) (by decide) hx hv
  · intro a
    exact hh.listed_at ht a

theorem setSize (hh : Headers H fl h) {x v : Nat} {t : Tag}
    (ht : H x = some t) (hv : v < 2 ^ 32) :
    Headers (Function.update H x (some { t with size := v })) fl
      (h.setSize x v) := by
  have hx : H x ≠ none := by
    rw [ht]
    simp
  apply hh.retag ht
  · intro a ha
    exact (h.get_set_of_ne (by decide) (hh.apart x a hx ha) hv).trans
      (hh.tags_at ht a).left
  · intro a ha
    exact h.get_set_self _ (hh.apart x a hx ha) hv
  · intro a ha
    exact h.get_set_of_ne (by decide) (hh.apart x a hx ha) hv
  · rfl
  · exact hh.links_set (by decide) (by decide) hx hv
  · intro a
    exact hh.listed_at ht a

theorem head_known (hh : Headers H fl h) :
    h.freeList = 0 ∨ h.freeList ∈ fl := by
  by_cases hnull : h.freeList = 0
  · exact Or.inl hnull
  · have hlinks := hh.links
    rw [Heap.head, toPtr_of_pos (Nat.pos_of_ne_zero hnull)] at hlinks
    exact Or.inr hlinks.head_mem

theorem push (hh : Headers H fl h) {x : Nat} {t : Tag} (ht : H x = some t)
    (hlisted : t.listed = false) :
    Headers (Function.update H x (some { t with listed := true })) (x :: fl)
      (h.pushFree x) := by
  have hx : H x ≠ none := by
    rw [ht]
    simp
  have hxfl : x ∉ fl := by
    intro hmem
    rcases (hh.listed x).mp hmem with ⟨u, hu, hulisted⟩
    rw [ht] at hu
    cases hu
    rw [hlisted] at hulisted
    cases hulisted
  have hxpos := hh.range x hx
  have hhead : forall a, H a ≠ none ->
      h.freeList = 0 ∨ h.freeList = a ∨ HdrApart h.freeList a := by
    intro a ha
    rcases hh.head_known with hnull | hmem
    · exact Or.inl hnull
    · exact Or.inr (hh.apart _ a (hh.known_of_mem hmem) ha)
  have hlt : h.freeList < 2 ^ 32 := by
    rcases hh.head_known with hnull | hmem
    · omega
    · exact (hh.range _ (hh.known_of_mem hmem)).right
  have hget := fun g a ha => h.get_pushFree g (hh.apart x a hx ha)
    (hhead a ha) hxpos.right hlt
  apply hh.retag ht
  · intro a ha
    rw [Heap.magic, hget _ a ha]
    split
    · rename_i heq
      exact absurd heq.left (by decide)
    · simp only [reduceCtorEq, false_and, if_false]
      exact (hh.tags_at ht a).left
  · intro a ha
    rw [Heap.size, hget _ a ha]
    simp only [reduceCtorEq, false_and, if_false]
    exact (hh.tags_at ht a).right
  · intro a ha
    rw [Heap.prevPhys, hget _ a ha]
    simp only [reduceCtorEq, false_and, if_false]
  · rfl
  · have hhead' : (h.pushFree x).head = some x := toPtr_of_pos hxpos.left
    rw [hhead']
    apply hh.links.push hxfl
    · show toPtr ((h.pushFree x).nextFree x) = h.head
      rw [Heap.nextFree, hget _ x hx]
      simp [Heap.head]
    · show toPtr ((h.pushFree x).prevFree x) = none
      rw [Heap.prevFree, hget _ x hx]
      rcases hh.head_known with hnull | hmem
      · simp [hnull, toPtr]
      · have hne : h.freeList ≠ x := by
          intro heq
          rw [heq] at hmem
          exact hxfl hmem
        simp [hne, toPtr]
    · intro a ha
      have hne : x ≠ a := by
        intro heq
        rw [heq] at hxfl
        exact hxfl ha
      show toPtr ((h.pushFree x).nextFree a) = toPtr (h.nextFree a)
      rw [Heap.nextFree, hget _ a (hh.known_of_mem ha)]
      simp [hne]
    · intro a ha
      have hne : x ≠ a := by
        intro heq
        rw [heq] at hxfl
        exact hxfl ha
      show toPtr ((h.pushFree x).prevFree a) =
        if h.head = some a then some x else toPtr (h.prevFree a)
      rw [Heap.prevFree, hget _ a (hh.known_of_mem ha)]
      simp only [Heap.head, toPtr_eq_some, hne, reduceCtorEq, and_false,
        true_and, if_false]
      split
      · exact toPtr_of_pos hxpos.left
      · rfl
  · intro a
    rw [List.mem_cons]
    split
    · rename_i hax
      simp [hax]
    · rename_i hax
      simp [hax]

theorem remove (hh : Headers H fl h) {x : Nat} {t : Tag} (ht : H x = some t)
    (hlisted : t.listed = true) :
    Headers (Function.update H x (some { t with listed := false }))
      (fl.erase x) (h.freeListRemove x) := by
  have hx : H x ≠ none := by
    rw [ht]
    simp
  have hxfl : x ∈ fl := (hh.listed x).mpr ⟨t, ht, hlisted⟩
  have hprevMem : h.prevFree x = 0 ∨ h.prevFree x ∈ fl := by
    by_cases hnull : h.prevFree x = 0
    · exact Or.inl hnull
    · exact Or.inr (hh.links.prev_mem hxfl
        (toPtr_of_pos (Nat.pos_of_ne_zero hnull)))
  have hnextMem : h.nextFree x = 0 ∨ h.nextFree x ∈ fl := by
    by_cases hnull : h.nextFree x = 0
    · exact Or.inl hnull
    · exact Or.inr (hh.links.next_mem hxfl
        (toPtr_of_pos (Nat.pos_of_ne_zero hnull)))
  have hapart : forall y a, y = 0 ∨ y ∈ fl -> H a ≠ none ->
      y = 0 ∨ y = a ∨ HdrApart y a := by
    intro y a hy ha
    rcases hy with hy | hy
    · exact Or.inl hy
    · exact Or.inr (hh.apart y a (hh.known_of_mem hy) ha)
  have hprevx : h.prevFree x = 0 ∨ HdrApart (h.prevFree x) x := by
    rcases hapart _ x hprevMem hx with hnull | heq | hapart
    · exact Or.inl hnull
    · refine absurd ?_ (hh.links.prev_ne hxfl)
      show toPtr (h.prevFree x) = some x
      rw [heq]
      exact toPtr_of_pos (hh.range x hx).left
    · exact Or.inr hapart
  have hget := fun g a ha => h.get_freeListRemove g (hh.apart x a hx ha)
    (hapart _ a hprevMem ha) (hapart _ a hnextMem ha) hprevx
  apply hh.retag ht
  · intro a ha
    rw [Heap.magic, hget _ a ha]
    simp only [reduceCtorEq, false_and, and_false, or_self, if_false]
    exact (hh.tags_at ht a).left
  · intro a ha
    rw [Heap.size, hget _ a ha]
    simp only [reduceCtorEq, false_and, and_false, or_self, if_false]
    exact (hh.tags_at ht a).right
  · intro a ha
    rw [Heap.prevPhys, hget _ a ha]
    simp only [reduceCtorEq, false_and, and_false, or_self, if_false]
  · rfl
  · apply hh.links.unlink hxfl
    · intro a ha hax
      show toPtr ((h.freeListRemove x).nextFree a) =
        if toPtr (h.prevFree x) = some a then toPtr (h.nextFree x)
        else toPtr (h.nextFree a)
      rw [Heap.nextFree, hget _ a (hh.known_of_mem ha)]
      simp only [Ne.symm hax, toPtr_eq_some, reduceCtorEq, false_and,
        true_and, if_false]
      split <;> rfl
    · intro a ha hax
      show toPtr ((h.freeListRemove x).prevFree a) =
        if toPtr (h.nextFree x) = some a then toPtr (h.prevFree x)
        else toPtr (h.prevFree a)
      rw [Heap.prevFree, hget _ a (hh.known_of_mem ha)]
      simp only [Ne.symm hax, toPtr_eq_some, reduceCtorEq, false_and,
        true_and, if_false]
      split <;> rfl
    · show toPtr (h.freeListRemove x).freeList =
        if toPtr (h.prevFree x) = none then toPtr (h.nextFree x)
        else toPtr h.freeList
      rw [Heap.freeList_freeListRemove]
      simp only [toPtr_eq_none]
      split <;> rfl
  · intro a
    rw [hh.links.nodup.mem_erase_iff]
    split
    · rename_i hax
      simp [hax]
    · rename_i hax
      simp [hax]

end Headers

end Mm
end EarlnuxOS
