import EarlnuxOS.Foundation.ByteMemory

/-!
# A stack of words

A stack of 32-bit words that grows downwards in byte-addressed memory.  The
words on it are listed from the top, which is the lowest address; what lay above
the stack when it was empty stays as it was.
-/

namespace EarlnuxOS
namespace Foundation

/-- The words of a list stand one behind the other from an address on. -/
def WordsAt (m : Memory) : Nat -> List UInt32 -> Prop
  | _, [] => True
  | a, w :: ws => load32 m a = w.toNat ∧ WordsAt m (a + 4) ws

/-- The 32-bit word at an address, as a register takes it. -/
def loadWord (m : Memory) (a : Nat) : UInt32 := UInt32.ofNat (load32 m a)

theorem loadWord_eq {m : Memory} {a : Nat} {w : UInt32}
    (h : load32 m a = w.toNat) : loadWord m a = w := by
  unfold loadWord
  rw [h, UInt32.ofNat_toNat]

theorem loadWord_congr {m m' : Memory} {a : Nat}
    (hsame : forall x, a ≤ x -> x < a + 4 -> m' x = m x) :
    loadWord m' a = loadWord m a := by
  unfold loadWord
  rw [load32_congr fun i hi => hsame (a + i) (by omega) (by omega)]

theorem WordsAt.congr {m m' : Memory} {a : Nat} {ws : List UInt32}
    (h : WordsAt m a ws)
    (hsame : forall x, a ≤ x -> x < a + 4 * ws.length -> m' x = m x) :
    WordsAt m' a ws := by
  induction ws generalizing a with
  | nil => exact trivial
  | cons w ws ih =>
      rw [List.length_cons] at hsame
      constructor
      · rw [← h.left]
        apply load32_congr
        intro i hi
        exact hsame (a + i) (by omega) (by omega)
      · apply ih h.right
        intro x hax hx
        exact hsame x (by omega) (by omega)

/--
The stack pointer `sp` with the words pushed since it was at `top`, in a memory
that agrees with the old one from `top` on.
-/
structure Stacked (old : Memory) (top : Nat) (ws : List UInt32) (m : Memory)
    (sp : UInt32) : Prop where
  depth : sp.toNat + 4 * ws.length = top
  words : WordsAt m sp.toNat ws
  above : forall x, top ≤ x -> m x = old x

namespace Stacked

variable {old m m' : Memory} {top : Nat} {w : UInt32} {ws : List UInt32}
  {sp : UInt32}

theorem nil (m : Memory) (sp : UInt32) : Stacked m sp.toNat [] m sp :=
  ⟨rfl, trivial, fun _ _ => rfl⟩

theorem push (h : Stacked old top ws m sp) (w : UInt32)
    (hroom : 4 * (ws.length + 1) ≤ top) :
    Stacked old top (w :: ws) (store32 m (sp - 4).toNat w.toNat) (sp - 4) := by
  have hdepth := h.depth
  have hsp : (sp - 4).toNat + 4 = sp.toNat := by
    have hle : (4 : UInt32) ≤ sp := UInt32.le_iff_toNat_le.mpr
      (show 4 ≤ sp.toNat by omega)
    have hsub : (sp - 4).toNat = sp.toNat - 4 := UInt32.toNat_sub_of_le sp 4 hle
    omega
  refine ⟨?_, ⟨?_, ?_⟩, ?_⟩
  · rw [List.length_cons]
    omega
  · exact load32_store32_self m _ w.toNat_lt
  · rw [hsp]
    apply h.words.congr
    intro x hx _
    exact store32_apply_of_not_mem m _ (by omega)
  · intro x hx
    rw [store32_apply_of_not_mem m _ (by omega)]
    exact h.above x hx

theorem pop (h : Stacked old top (w :: ws) m sp) (htop : top < 2 ^ 32) :
    loadWord m sp.toNat = w ∧ Stacked old top ws m (sp + 4) := by
  have hdepth := h.depth
  rw [List.length_cons] at hdepth
  have hsp : (sp + 4).toNat = sp.toNat + 4 := by
    rw [UInt32.toNat_add]
    exact Nat.mod_eq_of_lt (show sp.toNat + 4 < 2 ^ 32 by omega)
  refine ⟨loadWord_eq h.words.left, ?_, ?_, h.above⟩
  · omega
  · rw [hsp]
    exact h.words.right

private theorem add_words_succ (sp : UInt32) (n : Nat) :
    sp + 4 * UInt32.ofNat (n + 1) = sp + 4 + 4 * UInt32.ofNat n := by
  rw [UInt32.ofNat_add, UInt32.mul_add, UInt32.add_assoc, UInt32.add_comm (4 * _)]
  rfl

theorem drop (h : Stacked old top ws m sp) (htop : top < 2 ^ 32) {n : Nat}
    (hn : n ≤ ws.length) :
    Stacked old top (ws.drop n) m (sp + 4 * UInt32.ofNat n) := by
  induction n generalizing ws sp with
  | zero => simpa using h
  | succ n ih =>
      cases ws with
      | nil => simp at hn
      | cons w ws =>
          rw [add_words_succ]
          exact ih (h.pop htop).right (by simpa using hn)

theorem peek (h : Stacked old top ws m sp) (htop : top < 2 ^ 32) {n : Nat}
    (hw : ws[n]? = some w) :
    loadWord m (sp + 4 * UInt32.ofNat n).toNat = w := by
  rcases List.getElem?_eq_some_iff.mp hw with ⟨hn, rfl⟩
  have hrest := h.drop htop (Nat.le_of_lt hn)
  rw [List.drop_eq_getElem_cons hn] at hrest
  exact (hrest.pop htop).left

/-- A memory with the same words makes the same stack over itself. -/
theorem rebase (h : Stacked old top ws m sp)
    (hsame : forall x, sp.toNat ≤ x -> x < top -> m' x = m x) :
    Stacked m' top ws m' sp := by
  have hdepth := h.depth
  constructor
  · exact hdepth
  · apply h.words.congr
    intro x hx hlt
    exact hsame x hx (by omega)
  · intro x _
    rfl

end Stacked

end Foundation
end EarlnuxOS
