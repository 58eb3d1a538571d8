import Mathlib.Data.UInt
import Mathlib.Data.List.Basic

/-!
# Strings and paths

A C string is the list of its bytes without the final NUL.  The module has the
path functions of `kernel/fs/vfs.c` and the way `ramfs.c` cuts a path into
components.
-/

namespace EarlnuxOS
namespace Fs

abbrev CStr := List UInt8

def cstr (s : String) : CStr := s.toList.map Char.toUInt8

def slash : UInt8 := 0x2F

def nameMax : Nat := 255

def pathMax : Nat := 1024

def dot : CStr := [0x2E]

def dotDot : CStr := [0x2E, 0x2E]

/-- `strncmp(a, b, n) == 0` -/
def strncmpEq (a b : CStr) (n : Nat) : Bool := a.take n == b.take n

/-- `strrchr`: where the last `c` stands. -/
def strrchr : CStr -> UInt8 -> Option Nat
  | [], _ => none
  | x :: s, c =>
      match strrchr s c with
      | some i => some (i + 1)
      | none => if x = c then some 0 else none

/-- `path_dirname`, for a buffer of at least two bytes. -/
def pathDirname (path : CStr) (len : Nat) : CStr :=
  match strrchr path slash with
  | none => dot
  | some 0 => [slash]
  | some i => (path.take i).take (len - 1)

/-- `path_basename`, for a buffer of at least one byte. -/
def pathBasename (path : CStr) (len : Nat) : CStr :=
  match strrchr path slash with
  | none => path.take (len - 1)
  | some i => (path.drop (i + 1)).take (len - 1)

/--
The strings that `ramfs_get_inode_by_path` collects in its buffer, one after
the other: a component of more than `NAME_MAX` bytes comes in several pieces.
-/
def components : Nat -> CStr -> List CStr
  | 0, _ => []
  | steps + 1, path =>
      let p := path.dropWhile (fun c => c == slash)
      if p = [] then
        []
      else
        let buf := (p.takeWhile (fun c => c != slash)).take nameMax
        buf :: components steps (p.drop buf.length)

theorem strrchr_none {s : CStr} {c : UInt8} (h : strrchr s c = none) :
    c ∉ s := by
  induction s with
  | nil => exact List.not_mem_nil
  | cons x s ih =>
      unfold strrchr at h
      cases hrest : strrchr s c with
      | some j =>
          rw [hrest] at h
          cases h
      | none =>
          rw [hrest] at h
          dsimp only at h
          split at h
          · cases h
          · rename_i hne
            intro hmem
            rcases List.mem_cons.mp hmem with heq | hmem
            · exact hne heq.symm
            · exact ih hrest hmem

theorem strrchr_some {s : CStr} {c : UInt8} {i : Nat}
    (h : strrchr s c = some i) : c ∉ s.drop (i + 1) := by
  induction s generalizing i with
  | nil => cases h
  | cons x s ih =>
      unfold strrchr at h
      rw [List.drop_succ_cons]
      cases hrest : strrchr s c with
      | some j =>
          rw [hrest] at h
          cases h
          exact ih hrest
      | none =>
          rw [hrest] at h
          dsimp only at h
          split at h
          · cases h
            exact strrchr_none hrest
          · cases h

theorem slash_not_mem_basename (path : CStr) (len : Nat) :
    slash ∉ pathBasename path len := by
  intro hmem
  unfold pathBasename at hmem
  split at hmem
  · rename_i hnone
    exact strrchr_none hnone (List.mem_of_mem_take hmem)
  · rename_i hsome
    exact strrchr_some hsome (List.mem_of_mem_take hmem)

end Fs
end EarlnuxOS
