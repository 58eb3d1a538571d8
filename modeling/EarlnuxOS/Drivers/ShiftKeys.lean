import EarlnuxOS.Drivers.Keyboard
import EarlnuxOS.Foundation.HeldKeys

/-!
# The shift keys

The keyboard has two shift keys and the driver one flag, `shift_down`.  The
flag forgets that two keys were held when one of them is released: until the
next stroke of a shift key the characters come from the wrong table.
-/

namespace EarlnuxOS
namespace Drivers

open Foundation

def ShiftKey (key : UInt8) : Prop := key = 0x2A ∨ key = 0x36

instance (key : UInt8) : Decidable (ShiftKey key) :=
  inferInstanceAs (Decidable (_ ∨ _))

def strokeOf (sc : UInt8) : Stroke UInt8 :=
  if sc &&& 0x80 ≠ 0 then Stroke.release (sc &&& 0x7F) else Stroke.press sc

def strokes : List KeyboardOp -> List (Stroke UInt8)
  | [] => []
  | KeyboardOp.scancode sc :: ops => strokeOf sc :: strokes ops
  | _ :: ops => strokes ops

namespace Keyboard

def table (k : Keyboard) : List UInt8 :=
  if k.shiftDown then scancodeShift else scancodeToAscii

/-- A key with a character goes down and a slot of the buffer is free. -/
def Types (k : Keyboard) (sc : UInt8) : Prop :=
  sc &&& 0x80 = 0 ∧ k.modifier sc true = none ∧ k.translate sc ≠ 0 ∧
    nextIndex k.kbHead ≠ k.kbTail

/--
Each character that is stored is the shifted one of its key exactly when a
shift key has been pressed and not released since.
-/
def FollowsShift (k : Keyboard) (ops : List KeyboardOp) : Prop :=
  forall first sc rest c, ops = first ++ KeyboardOp.scancode sc :: rest ->
    ((run exec k first).keyboardHandleScancode sc).accepted =
      (run exec k first).accepted ++ [c] ->
    c = (run exec k first).table.getD sc.toNat 0 ∧
      ((run exec k first).table = scancodeShift <->
        Stroke.AnyHeld ShiftKey (strokes first))

/--
No character is typed after one of two shift keys held together has been
released, before the next stroke of a shift key.
-/
def NoneTypedBeside (k : Keyboard) (ops : List KeyboardOp) : Prop :=
  forall first sc rest, ops = first ++ KeyboardOp.scancode sc :: rest ->
    (run exec k first).Types sc ->
    ¬ Stroke.ReleasedBeside ShiftKey (strokes first)

/-!
# The flag remembers the last stroke
-/

theorem strokes_append (first second : List KeyboardOp) :
    strokes (first ++ second) = strokes first ++ strokes second := by
  induction first with
  | nil => rfl
  | cons o first ih =>
      cases o with
      | scancode sc => exact congrArg (strokeOf sc :: ·) ih
      | fetch => exact ih
      | advance => exact ih

variable {k : Keyboard}

theorem table_eq_shift : k.table = scancodeShift <-> k.shiftDown = true := by
  unfold table
  split
  · rename_i h
    exact iff_of_true rfl h
  · rename_i h
    exact iff_of_false (by decide) h

theorem modifier_shiftDown {key : UInt8} (hkey : ShiftKey key) (down : Bool) :
    k.modifier key down = some { k with shiftDown := down } :=
  if_pos hkey

theorem modifier_other {key : UInt8} (hkey : ¬ ShiftKey key) (down : Bool) :
    ((k.modifier key down).getD k).shiftDown = k.shiftDown := by
  unfold ShiftKey at hkey
  unfold modifier
  rw [if_neg hkey]
  split
  · rfl
  split <;> rfl

theorem store_shiftDown (k : Keyboard) (c : UInt8) :
    (k.store c).shiftDown = k.shiftDown := by
  unfold store
  dsimp only
  split <;> rfl

theorem handleScancode_shiftDown (k : Keyboard) (sc : UInt8) :
    (k.keyboardHandleScancode sc).shiftDown = true <->
      (exists key, strokeOf sc = Stroke.press key ∧ ShiftKey key) ∨
        k.shiftDown = true ∧ ¬ ShiftKey (strokeOf sc).key := by
  unfold keyboardHandleScancode strokeOf
  by_cases hrelease : sc &&& 0x80 ≠ 0
  · rw [if_pos hrelease, if_pos hrelease]
    by_cases hkey : ShiftKey (sc &&& 0x7F)
    · rw [modifier_shiftDown hkey]
      simp [Stroke.key, hkey]
    · rw [modifier_other hkey]
      simp [Stroke.key, hkey]
  · rw [if_neg hrelease, if_neg hrelease]
    by_cases hkey : ShiftKey sc
    · rw [modifier_shiftDown hkey]
      simp [hkey]
    · have hsame := modifier_other (k := k) hkey true
      simp only [Stroke.press.injEq, exists_eq_left', hkey, false_or,
        Stroke.key, not_false_eq_true, and_true]
      split
      · rename_i heq
        rw [heq] at hsame
        exact hsame ▸ Iff.rfl
      · split
        · exact Iff.rfl
        · rw [store_shiftDown]

theorem exec_fetch_shiftDown (k : Keyboard) :
    k.getcharFetch.shiftDown = k.shiftDown := by
  unfold getcharFetch
  split
  · rfl
  split <;> rfl

theorem exec_advance_shiftDown (k : Keyboard) :
    k.getcharAdvance.shiftDown = k.shiftDown := by
  unfold getcharAdvance
  split <;> rfl

theorem run_shiftDown (hk : k.shiftDown = false) (ops : List KeyboardOp) :
    (run exec k ops).shiftDown = true <->
      Stroke.LastPressed ShiftKey (strokes ops) := by
  induction ops using List.reverseRecOn with
  | nil =>
      refine iff_of_false ?_ Stroke.not_lastPressed_nil
      rw [run_nil, hk]
      decide
  | append_singleton ops o ih =>
      rw [run_append, strokes_append]
      cases o with
      | scancode sc =>
          show ((run exec k ops).keyboardHandleScancode sc).shiftDown = true <->
            Stroke.LastPressed ShiftKey (strokes ops ++ [strokeOf sc])
          rw [handleScancode_shiftDown, Stroke.lastPressed_append, ih]
      | fetch =>
          show (run exec k ops).getcharFetch.shiftDown = true <->
            Stroke.LastPressed ShiftKey (strokes ops ++ [])
          rw [exec_fetch_shiftDown, List.append_nil, ih]
      | advance =>
          show (run exec k ops).getcharAdvance.shiftDown = true <->
            Stroke.LastPressed ShiftKey (strokes ops ++ [])
          rw [exec_advance_shiftDown, List.append_nil, ih]

/-!
# Which characters are stored
-/

/-- A character is stored exactly when one is typed, and it is that one. -/
theorem stores_iff (k : Keyboard) (sc c : UInt8) :
    (k.keyboardHandleScancode sc).accepted = k.accepted ++ [c] <->
      k.Types sc ∧ c = k.translate sc := by
  have hself : k.accepted ≠ k.accepted ++ [c] := by simp
  unfold keyboardHandleScancode Types
  by_cases hrelease : sc &&& 0x80 ≠ 0
  · rw [if_pos hrelease]
    refine iff_of_false ?_ fun h => hrelease h.left.left
    rcases k.modifier_cases (sc &&& 0x7F) false with h | ⟨_, _, _, h⟩ <;>
      rw [h] <;> exact hself
  rw [if_neg hrelease]
  rcases k.modifier_cases sc true with h | ⟨_, _, _, h⟩
  · rw [h]
    dsimp only
    by_cases hzero : k.translate sc = 0
    · rw [if_pos hzero]
      exact iff_of_false hself fun h => h.left.right.right.left hzero
    rw [if_neg hzero]
    unfold store
    dsimp only
    by_cases hfull : nextIndex k.kbHead = k.kbTail
    · rw [if_pos hfull]
      exact iff_of_false hself fun h => h.left.right.right.right hfull
    · rw [if_neg hfull]
      simp only [List.append_cancel_left_eq, List.cons.injEq, and_true]
      refine ⟨fun heq => ⟨⟨not_not.mp hrelease, trivial, hzero, hfull⟩, heq.symm⟩,
        fun h => h.right.symm⟩
  · rw [h]
    exact iff_of_false hself fun h' => by simp at h'

/-!
# When the table is the right one
-/

theorem followsShift_iff_noneTypedBeside (hk : k.shiftDown = false)
    (ops : List KeyboardOp) :
    k.FollowsShift ops <-> k.NoneTypedBeside ops := by
  have hright : forall first,
      ((run exec k first).table = scancodeShift <->
        Stroke.AnyHeld ShiftKey (strokes first)) <->
      ¬ Stroke.ReleasedBeside ShiftKey (strokes first) := by
    intro first
    rw [table_eq_shift, run_shiftDown hk, Stroke.lastPressed_iff_anyHeld]
  constructor
  · intro hall first sc rest hops htypes
    have hstored := (stores_iff _ sc _).mpr ⟨htypes, rfl⟩
    exact (hright first).mp (hall first sc rest _ hops hstored).right
  · intro hnone first sc rest c hops hstored
    rcases (stores_iff _ sc c).mp hstored with ⟨htypes, hchar⟩
    exact ⟨hchar, (hright first).mpr (hnone first sc rest hops htypes)⟩

/-- For every sequence of scancodes, and calls of `keyboard_getchar` between. -/
theorem shift_follows_iff (kbBuffer : Nat -> UInt8) (ctrlDown altDown : Bool)
    (ops : List KeyboardOp) :
    (start kbBuffer ctrlDown altDown).FollowsShift ops <->
      (start kbBuffer ctrlDown altDown).NoneTypedBeside ops :=
  followsShift_iff_noneTypedBeside rfl ops

/-- Both shift keys down, the left one up, and then the key A. -/
def bothThenA : List KeyboardOp :=
  [0x2A, 0x36, 0xAA, 0x1E].map KeyboardOp.scancode

/-- The right shift key is still held, and a small letter is stored. -/
theorem shift_forgotten :
    ¬ (start (fun _ => 0) false false).FollowsShift bothThenA ∧
      (run exec (start (fun _ => 0) false false) bothThenA).accepted =
        [0x61] := by
  refine ⟨fun hall => ?_, by decide⟩
  have htable := (hall ([0x2A, 0x36, 0xAA].map KeyboardOp.scancode) 0x1E [] 0x61
    rfl (by decide)).right
  have hheld : Stroke.AnyHeld ShiftKey
      (strokes ([0x2A, 0x36, 0xAA].map KeyboardOp.scancode)) := by
    refine ⟨0x36, Or.inr rfl, [Stroke.press 0x2A], [Stroke.release 0x2A], ?_, ?_⟩
    · rfl
    · simp
  exact absurd (htable.mpr hheld) (by decide)

end Keyboard
end Drivers
end EarlnuxOS
