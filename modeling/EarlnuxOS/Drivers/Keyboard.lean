import EarlnuxOS.Foundation.RingQueue
import EarlnuxOS.Foundation.Run
import Mathlib.Data.UInt

/-!
# The keyboard buffer

The interrupt handler of `kernel/drivers/keyboard.c` puts characters into a
circular buffer, and `keyboard_getchar` takes them out in two steps between
which an interrupt may come.  The buffer is a queue: what comes out is what was
put in, in order, and a character is lost only when 127 are waiting.
-/

namespace EarlnuxOS
namespace Drivers

open Foundation

/-!
# Scancodes
-/

def kbBufSize : Nat := 128

/-- `scancode_to_ascii`; the slots behind the listed ones are 0. -/
def scancodeToAscii : List UInt8 :=
  [0x00, 0x1B, 0x31, 0x32, 0x33, 0x34, 0x35, 0x36,
    0x37, 0x38, 0x39, 0x30, 0x2D, 0x3D, 0x08, 0x09,
    0x71, 0x77, 0x65, 0x72, 0x74, 0x79, 0x75, 0x69,
    0x6F, 0x70, 0x5B, 0x5D, 0x0A, 0x00, 0x61, 0x73,
    0x64, 0x66, 0x67, 0x68, 0x6A, 0x6B, 0x6C, 0x3B,
    0x27, 0x60, 0x00, 0x5C, 0x7A, 0x78, 0x63, 0x76,
    0x62, 0x6E, 0x6D, 0x2C, 0x2E, 0x2F, 0x00, 0x2A,
    0x00, 0x20]

def scancodeShift : List UInt8 :=
  [0x00, 0x1B, 0x21, 0x40, 0x23, 0x24, 0x25, 0x5E,
    0x26, 0x2A, 0x28, 0x29, 0x5F, 0x2B, 0x08, 0x09,
    0x51, 0x57, 0x45, 0x52, 0x54, 0x59, 0x55, 0x49,
    0x4F, 0x50, 0x7B, 0x7D, 0x0A, 0x00, 0x41, 0x53,
    0x44, 0x46, 0x47, 0x48, 0x4A, 0x4B, 0x4C, 0x3A,
    0x22, 0x7E, 0x00, 0x7C, 0x5A, 0x58, 0x43, 0x56,
    0x42, 0x4E, 0x4D, 0x3C, 0x3E, 0x3F, 0x00, 0x2A,
    0x00, 0x20]

/-!
# The driver
-/

/--
The static variables, and the character `keyboard_getchar` has read but not yet
taken out.  The last three fields record the run: the characters the handler
stored, the slots it stored them in, and the characters returned.
-/
structure Keyboard where
  kbBuffer : Nat -> UInt8
  kbHead : UInt8
  kbTail : UInt8
  shiftDown : Bool
  ctrlDown : Bool
  altDown : Bool
  fetched : Option UInt8
  accepted : List UInt8
  slots : List Nat
  returned : List UInt8

/-- `(i + 1) % KB_BUF_SIZE` -/
def nextIndex (i : UInt8) : UInt8 :=
  UInt8.ofNat ((i.toNat + 1) % kbBufSize)

namespace Keyboard

def keyboardInit (k : Keyboard) : Keyboard :=
  { k with
    kbHead := 0
    kbTail := 0
    shiftDown := false }

/-- A modifier key goes down or up, `none` for any other key. -/
def modifier (k : Keyboard) (key : UInt8) (down : Bool) : Option Keyboard :=
  if key = 0x2A ∨ key = 0x36 then some { k with shiftDown := down }
  else if key = 0x1D then some { k with ctrlDown := down }
  else if key = 0x38 then some { k with altDown := down }
  else none

def translate (k : Keyboard) (sc : UInt8) : UInt8 :=
  let table := if k.shiftDown then scancodeShift else scancodeToAscii
  table.getD sc.toNat 0

def store (k : Keyboard) (c : UInt8) : Keyboard :=
  let next := nextIndex k.kbHead
  if next = k.kbTail then k
  else
    { k with
      kbBuffer := fun i => if i = k.kbHead.toNat then c else k.kbBuffer i
      kbHead := next
      accepted := k.accepted ++ [c]
      slots := k.slots ++ [k.kbHead.toNat] }

def keyboardHandleScancode (k : Keyboard) (sc : UInt8) : Keyboard :=
  if sc &&& 0x80 ≠ 0 then (k.modifier (sc &&& 0x7F) false).getD k
  else
    match k.modifier sc true with
    | some k => k
    | none => if k.translate sc = 0 then k else k.store (k.translate sc)

def keyboardHasData (k : Keyboard) : Bool := k.kbTail != k.kbHead

/-- `keyboard_getchar` reads the character at the front, or waits for one. -/
def getcharFetch (k : Keyboard) : Keyboard :=
  match k.fetched with
  | some _ => k
  | none =>
      if k.kbTail = k.kbHead then k
      else { k with fetched := some (k.kbBuffer k.kbTail.toNat) }

/-- `keyboard_getchar` advances `kb_tail` and returns. -/
def getcharAdvance (k : Keyboard) : Keyboard :=
  match k.fetched with
  | none => k
  | some c =>
      { k with
        kbTail := nextIndex k.kbTail
        fetched := none
        returned := k.returned ++ [c] }

end Keyboard

inductive KeyboardOp where
  | scancode (sc : UInt8)
  | fetch
  | advance

namespace Keyboard

def exec (k : Keyboard) : KeyboardOp -> Keyboard
  | KeyboardOp.scancode sc => k.keyboardHandleScancode sc
  | KeyboardOp.fetch => k.getcharFetch
  | KeyboardOp.advance => k.getcharAdvance

/-- After `keyboard_init`, with any buffer and any other modifiers. -/
def start (kbBuffer : Nat -> UInt8) (ctrlDown altDown : Bool) : Keyboard :=
  keyboardInit
    { kbBuffer := kbBuffer
      kbHead := 0
      kbTail := 0
      shiftDown := false
      ctrlDown := ctrlDown
      altDown := altDown
      fetched := none
      accepted := []
      slots := []
      returned := [] }

/-!
# What is promised
-/

def pending (k : Keyboard) : Nat := k.accepted.length - k.returned.length

def readCount (k : Keyboard) : Nat :=
  k.returned.length + k.fetched.toList.length

structure Lossless (k : Keyboard) : Prop where
  order : k.returned <+: k.accepted
  /--
  A call that finds data returns the next character that was accepted, whatever
  is typed between its two steps.
  -/
  delivers : k.keyboardHasData = true -> forall scs : List UInt8,
    exists c, k.returned ++ [c] <+: k.accepted ∧
      (run keyboardHandleScancode k.getcharFetch scs).getcharAdvance.returned =
        k.returned ++ [c]
  /-- A typed character is stored behind the others, or 127 are waiting. -/
  kept : forall sc, sc &&& 0x80 = 0 -> k.modifier sc true = none ->
    k.translate sc ≠ 0 ->
    (k.keyboardHandleScancode sc).accepted =
        k.accepted ++ [k.translate sc] ∨
      k.pending = 127
  /-- Nothing else is stored. -/
  only : forall sc, (k.keyboardHandleScancode sc).accepted = k.accepted ∨
    (k.keyboardHandleScancode sc).accepted = k.accepted ++ [k.translate sc]
  /-- The slot that is written is not one that is still to be read. -/
  unread : forall sc slot,
    (k.keyboardHandleScancode sc).slots = k.slots ++ [slot] ->
      slot ∉ k.slots.drop k.readCount
  /-- The record of slots is what the handler changes in the buffer. -/
  untouched : forall sc i,
    (k.keyboardHandleScancode sc).kbBuffer i ≠ k.kbBuffer i ->
      (k.keyboardHandleScancode sc).slots = k.slots ++ [i]
  empty : k.keyboardHasData = false <-> k.returned = k.accepted

/-!
# The buffer is a queue
-/

def used (k : Keyboard) : List Nat :=
  ringSlots kbBufSize k.kbTail.toNat
    (ringLength kbBufSize k.kbHead.toNat k.kbTail.toNat)

structure QueueInv (k : Keyboard) : Prop where
  head_lt : k.kbHead.toNat < kbBufSize
  tail_lt : k.kbTail.toNat < kbBufSize
  contents : k.accepted = k.returned ++ k.used.map k.kbBuffer
  slots : exists old, old.length = k.returned.length ∧ k.slots = old ++ k.used
  fetched : forall c, k.fetched = some c ->
    k.kbTail ≠ k.kbHead ∧ c = k.kbBuffer k.kbTail.toNat

theorem toNat_nextIndex (i : UInt8) :
    (nextIndex i).toNat = (i.toNat + 1) % kbBufSize := by
  have hlt : (i.toNat + 1) % kbBufSize < kbBufSize := Nat.mod_lt _ (by decide)
  unfold kbBufSize at hlt ⊢
  exact UInt8.toNat_ofNat_of_lt' (Nat.lt_trans hlt (by decide))

theorem nextIndex_lt (i : UInt8) : (nextIndex i).toNat < kbBufSize := by
  rw [toNat_nextIndex]
  exact Nat.mod_lt _ (by decide)

theorem used_start (kbBuffer : Nat -> UInt8) (ctrlDown altDown : Bool) :
    (start kbBuffer ctrlDown altDown).used = [] := by
  show ringSlots kbBufSize (0 : UInt8).toNat
    (ringLength kbBufSize (0 : UInt8).toNat (0 : UInt8).toNat) = []
  decide

theorem start_inv (kbBuffer : Nat -> UInt8) (ctrlDown altDown : Bool) :
    QueueInv (start kbBuffer ctrlDown altDown) := by
  have hzero : (0 : UInt8).toNat < kbBufSize := by decide
  refine ⟨hzero, hzero, ?_, ⟨[], rfl, ?_⟩, fun _ h => by cases h⟩
  · rw [used_start]
    rfl
  · rw [used_start]
    rfl

variable {k : Keyboard}

theorem pending_eq (h : QueueInv k) :
    k.pending = ringLength kbBufSize k.kbHead.toNat k.kbTail.toNat := by
  unfold pending
  rw [h.contents, List.length_append, List.length_map]
  unfold used
  rw [length_ringSlots]
  omega

theorem QueueInv.store (h : QueueInv k) (c : UInt8) :
    QueueInv (k.store c) := by
  unfold Keyboard.store
  dsimp only
  split
  · exact h
  · rename_i hfree
    have hnext : (k.kbHead.toNat + 1) % kbBufSize ≠ k.kbTail.toNat := by
      rw [← toNat_nextIndex]
      exact fun heq => hfree (UInt8.toNat_inj.mp heq)
    have hpush := ringLength_push h.head_lt h.tail_lt hnext
    have hend := ring_end h.head_lt h.tail_lt
    have hhead := head_not_mem_ringSlots h.head_lt h.tail_lt
    have hused : ringSlots kbBufSize k.kbTail.toNat
        (ringLength kbBufSize (nextIndex k.kbHead).toNat k.kbTail.toNat) =
        k.used ++ [k.kbHead.toNat] := by
      rw [toNat_nextIndex, hpush, ringSlots_push, hend]
      rfl
    have hold : k.used.map (fun i =>
        if i = k.kbHead.toNat then c else k.kbBuffer i) =
        k.used.map k.kbBuffer := by
      apply List.map_congr_left
      intro i hi
      apply if_neg
      intro heq
      rw [heq] at hi
      exact hhead hi
    refine ⟨nextIndex_lt _, h.tail_lt, ?_, ?_, ?_⟩
    · unfold used
      dsimp only
      rw [hused, List.map_append, hold, h.contents, List.append_assoc]
      congr 2
      exact congrArg (fun c => [c]) (if_pos rfl).symm
    · rcases h.slots with ⟨old, hlen, hslots⟩
      refine ⟨old, hlen, ?_⟩
      unfold used
      dsimp only
      rw [hused, hslots, List.append_assoc]
    · intro c' hc'
      rcases h.fetched c' hc' with ⟨hne, hchar⟩
      refine ⟨fun heq => hfree heq.symm, ?_⟩
      have hother : k.kbTail.toNat ≠ k.kbHead.toNat := fun heq =>
        hne (UInt8.toNat_inj.mp heq)
      exact hchar.trans (if_neg hother).symm

theorem modifier_cases (k : Keyboard) (key : UInt8) (down : Bool) :
    k.modifier key down = none ∨
      exists shift ctrl alt, k.modifier key down = some { k with
        shiftDown := shift
        ctrlDown := ctrl
        altDown := alt } := by
  unfold modifier
  split
  · exact Or.inr ⟨down, k.ctrlDown, k.altDown, rfl⟩
  split
  · exact Or.inr ⟨k.shiftDown, down, k.altDown, rfl⟩
  split
  · exact Or.inr ⟨k.shiftDown, k.ctrlDown, down, rfl⟩
  · exact Or.inl rfl

/-- All that the handler can do: set modifiers, or store a character. -/
theorem handleScancode_cases (k : Keyboard) (sc : UInt8) :
    (exists shift ctrl alt, k.keyboardHandleScancode sc = { k with
        shiftDown := shift
        ctrlDown := ctrl
        altDown := alt }) ∨
      k.keyboardHandleScancode sc = k.store (k.translate sc) := by
  unfold keyboardHandleScancode
  split
  · rcases k.modifier_cases (sc &&& 0x7F) false with h | ⟨s, c, a, h⟩
    · rw [h]
      exact Or.inl ⟨k.shiftDown, k.ctrlDown, k.altDown, rfl⟩
    · rw [h]
      exact Or.inl ⟨s, c, a, rfl⟩
  · rcases k.modifier_cases sc true with h | ⟨s, c, a, h⟩
    · rw [h]
      dsimp only
      split
      · exact Or.inl ⟨k.shiftDown, k.ctrlDown, k.altDown, rfl⟩
      · exact Or.inr rfl
    · rw [h]
      exact Or.inl ⟨s, c, a, rfl⟩

theorem QueueInv.handleScancode (h : QueueInv k) (sc : UInt8) :
    QueueInv (k.keyboardHandleScancode sc) := by
  rcases k.handleScancode_cases sc with ⟨s, c, a, heq⟩ | heq
  · rw [heq]
    exact ⟨h.head_lt, h.tail_lt, h.contents, h.slots, h.fetched⟩
  · rw [heq]
    exact h.store _

theorem QueueInv.getcharFetch (h : QueueInv k) : QueueInv k.getcharFetch := by
  unfold Keyboard.getcharFetch
  split
  · exact h
  split
  · exact h
  · rename_i hsome
    refine ⟨h.head_lt, h.tail_lt, h.contents, h.slots, ?_⟩
    intro c hc
    exact ⟨hsome, (Option.some.inj hc).symm⟩

theorem used_pop (h : QueueInv k) (hsome : k.kbTail ≠ k.kbHead) :
    k.used = k.kbTail.toNat ::
      ringSlots kbBufSize (nextIndex k.kbTail).toNat
        (ringLength kbBufSize k.kbHead.toNat (nextIndex k.kbTail).toNat) := by
  have hne : k.kbTail.toNat ≠ k.kbHead.toNat := fun heq =>
    hsome (UInt8.toNat_inj.mp heq)
  unfold used
  rw [ringLength_pop h.head_lt h.tail_lt hne, ringSlots_pop h.tail_lt,
    toNat_nextIndex]

theorem QueueInv.getcharAdvance (h : QueueInv k) :
    QueueInv k.getcharAdvance := by
  unfold Keyboard.getcharAdvance
  split
  · exact h
  · rename_i c hc
    rcases h.fetched c hc with ⟨hsome, hchar⟩
    have hpop := used_pop h hsome
    refine ⟨h.head_lt, nextIndex_lt _, ?_, ?_, fun _ h => by cases h⟩
    · dsimp only
      rw [h.contents, hpop, List.map_cons, hchar, List.append_assoc]
      rfl
    · rcases h.slots with ⟨old, hlen, hslots⟩
      refine ⟨old ++ [k.kbTail.toNat], ?_, ?_⟩
      · rw [List.length_append, List.length_append, hlen]
        rfl
      · dsimp only
        rw [hslots, hpop, List.append_assoc]
        rfl

theorem QueueInv.exec (h : QueueInv k) (o : KeyboardOp) :
    QueueInv (k.exec o) := by
  cases o with
  | scancode sc => exact h.handleScancode sc
  | fetch => exact h.getcharFetch
  | advance => exact h.getcharAdvance

/-!
# Nothing is lost
-/

theorem QueueInv.empty (h : QueueInv k) :
    k.keyboardHasData = false <-> k.returned = k.accepted := by
  have hlen : k.used.length = 0 <-> k.kbTail.toNat = k.kbHead.toNat := by
    unfold used
    rw [length_ringSlots]
    exact ringLength_eq_zero h.head_lt h.tail_lt
  have hdata : k.keyboardHasData = false <-> k.kbTail = k.kbHead := by
    unfold keyboardHasData
    simp
  rw [hdata, ← UInt8.toNat_inj, ← hlen, h.contents]
  constructor
  · intro hzero
    rw [List.eq_nil_of_length_eq_zero hzero]
    exact (List.append_nil _).symm
  · intro heq
    have hsum := congrArg List.length heq
    rw [List.length_append, List.length_map] at hsum
    omega

theorem QueueInv.unread (h : QueueInv k) :
    k.kbHead.toNat ∉ k.slots.drop k.readCount := by
  intro hmem
  rcases h.slots with ⟨old, hlen, hslots⟩
  have hdrop : k.slots.drop k.readCount =
      k.used.drop k.fetched.toList.length := by
    unfold readCount
    rw [hslots, ← hlen, List.drop_append, List.drop_eq_nil_of_le
      (Nat.le_add_right _ _), Nat.add_sub_cancel_left]
    rfl
  rw [hdrop] at hmem
  exact head_not_mem_ringSlots h.head_lt h.tail_lt (List.mem_of_mem_drop hmem)

theorem hasData_iff (k : Keyboard) :
    k.keyboardHasData = true <-> k.kbTail ≠ k.kbHead := by
  unfold keyboardHasData
  exact bne_iff_ne

theorem QueueInv.fetches_next (h : QueueInv k)
    (hdata : k.keyboardHasData = true) :
    exists c, k.getcharFetch.fetched = some c ∧
      k.returned ++ [c] <+: k.accepted := by
  have hsome := (hasData_iff k).mp hdata
  have hnext : k.returned ++ [k.kbBuffer k.kbTail.toNat] <+: k.accepted := by
    rw [h.contents, used_pop h hsome, List.map_cons]
    exact (List.prefix_append_right_inj _).mpr ⟨_, rfl⟩
  refine ⟨k.kbBuffer k.kbTail.toNat, ?_, hnext⟩
  cases hfetched : k.fetched with
  | none =>
      simp only [Keyboard.getcharFetch, hfetched, if_neg hsome]
  | some c =>
      simp only [Keyboard.getcharFetch, hfetched]
      rw [(h.fetched c hfetched).right]

theorem getcharFetch_returned (k : Keyboard) :
    k.getcharFetch.returned = k.returned := by
  unfold getcharFetch
  split
  · rfl
  · split
    · rfl
    · rfl

theorem handleScancode_keeps (k : Keyboard) (sc : UInt8) :
    (k.keyboardHandleScancode sc).fetched = k.fetched ∧
      (k.keyboardHandleScancode sc).returned = k.returned := by
  rcases k.handleScancode_cases sc with ⟨s, c, a, heq⟩ | heq
  · rw [heq]
    exact ⟨rfl, rfl⟩
  · rw [heq]
    unfold Keyboard.store
    dsimp only
    split
    · exact ⟨rfl, rfl⟩
    · exact ⟨rfl, rfl⟩

theorem handleScancodes_keep (k : Keyboard) (scs : List UInt8) :
    (run keyboardHandleScancode k scs).fetched = k.fetched ∧
      (run keyboardHandleScancode k scs).returned = k.returned := by
  induction scs generalizing k with
  | nil => exact ⟨rfl, rfl⟩
  | cons sc scs ih =>
      have hone := k.handleScancode_keeps sc
      have hrest := ih (k.keyboardHandleScancode sc)
      exact ⟨hrest.left.trans hone.left, hrest.right.trans hone.right⟩

theorem QueueInv.delivers (h : QueueInv k) (hdata : k.keyboardHasData = true)
    (scs : List UInt8) :
    exists c, k.returned ++ [c] <+: k.accepted ∧
      (run keyboardHandleScancode k.getcharFetch scs).getcharAdvance.returned =
        k.returned ++ [c] := by
  rcases h.fetches_next hdata with ⟨c, hfetch, hnext⟩
  refine ⟨c, hnext, ?_⟩
  rcases handleScancodes_keep k.getcharFetch scs with ⟨hread, hreturned⟩
  unfold Keyboard.getcharAdvance
  rw [hread, hfetch]
  dsimp only
  rw [hreturned, getcharFetch_returned]

theorem QueueInv.store_cases (h : QueueInv k) (c : UInt8) :
    k.store c = k ∧ k.pending = 127 ∨
      (k.store c).accepted = k.accepted ++ [c] ∧
        (k.store c).slots = k.slots ++ [k.kbHead.toNat] ∧
        (k.store c).kbBuffer =
          fun i => if i = k.kbHead.toNat then c else k.kbBuffer i := by
  unfold Keyboard.store
  dsimp only
  split
  · rename_i hfull
    refine Or.inl ⟨rfl, ?_⟩
    have htail : (k.kbHead.toNat + 1) % kbBufSize = k.kbTail.toNat := by
      rw [← toNat_nextIndex, hfull]
    rw [pending_eq h, ringLength_full h.head_lt h.tail_lt htail]
    rfl
  · exact Or.inr ⟨rfl, rfl, rfl⟩

theorem QueueInv.lossless (h : QueueInv k) : Lossless k where
  order := ⟨_, h.contents.symm⟩
  delivers := h.delivers
  kept := by
    intro sc hmake hkey hchar
    have hstore : k.keyboardHandleScancode sc = k.store (k.translate sc) := by
      unfold keyboardHandleScancode
      rw [if_neg (not_not.mpr hmake), hkey]
      exact if_neg hchar
    rw [hstore]
    rcases h.store_cases (k.translate sc) with ⟨_, hfull⟩ | ⟨hacc, _⟩
    · exact Or.inr hfull
    · exact Or.inl hacc
  only := by
    intro sc
    rcases k.handleScancode_cases sc with ⟨s, c, a, heq⟩ | heq
    · rw [heq]
      exact Or.inl rfl
    · rw [heq]
      rcases h.store_cases (k.translate sc) with ⟨hsame, _⟩ | ⟨hacc, _⟩
      · rw [hsame]
        exact Or.inl rfl
      · exact Or.inr hacc
  unread := by
    intro sc slot hslot
    rcases k.handleScancode_cases sc with ⟨s, c, a, heq⟩ | heq
    · rw [heq] at hslot
      have hlen := congrArg List.length hslot
      simp at hlen
    · rw [heq] at hslot
      rcases h.store_cases (k.translate sc) with ⟨hsame, _⟩ | ⟨_, hnew, _⟩
      · rw [hsame] at hslot
        have hlen := congrArg List.length hslot
        simp at hlen
      · rw [hnew] at hslot
        have hhead : k.kbHead.toNat = slot := by
          injection List.append_cancel_left hslot
        rw [← hhead]
        exact h.unread
  untouched := by
    intro sc i hi
    rcases k.handleScancode_cases sc with ⟨s, c, a, heq⟩ | heq
    · rw [heq] at hi
      exact absurd rfl hi
    · rw [heq] at hi ⊢
      rcases h.store_cases (k.translate sc) with ⟨hsame, _⟩ | ⟨_, hnew, hbuf⟩
      · rw [hsame] at hi
        exact absurd rfl hi
      · have hslot : i = k.kbHead.toNat := by
          by_contra hne
          rw [hbuf] at hi
          exact hi (if_neg hne)
        rw [hnew, hslot]
  empty := h.empty

/-- Whatever is typed and however the two steps of a call are interleaved. -/
theorem keyboard_lossless (kbBuffer : Nat -> UInt8) (ctrlDown altDown : Bool)
    (ops : List KeyboardOp) :
    Lossless (run exec (start kbBuffer ctrlDown altDown) ops) := by
  have hmeets : Meets exec (fun _ _ => True)
      (start kbBuffer ctrlDown altDown) ops := meets_true _ _ _
  have hinv := hmeets.invariant (P := QueueInv) (fun _ o h _ => h.exec o)
    (start_inv kbBuffer ctrlDown altDown)
  exact hinv.lossless

end Keyboard
end Drivers
end EarlnuxOS
