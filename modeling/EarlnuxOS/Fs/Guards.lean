import EarlnuxOS.Fs.RamfsCalls

/-!
# Guards of the calls

Which calls of `vfs.c` look at a pointer before they use it.  `vfs_mount` is
the one that does not, and `procfs_type` and `vibefs_type` cannot be mounted.
-/

namespace EarlnuxOS
namespace Fs
namespace Dispatch

open Foundation

universe u

variable {W : Type u}

def lacks (k : Kernel W) : Call -> Bool
  | Call.mount _ target fstype _ =>
      target.isSome && (fstype.bind k.findType).any fun fs => !fs.mount
  | Call.openFile path _ _ =>
      (path.bind k.findMount).any fun m => !m.1.fs.openFile
  | Call.mkdir path _ => (path.bind k.findMount).any fun m => !m.1.fs.mkdir
  | Call.unlink path => (path.bind k.findMount).any fun m => !m.1.fs.unlink
  | Call.read fd _ _ =>
      (k.fdFile fd).any fun file => !k.hasOp file FileOps.read
  | Call.write fd _ _ =>
      (k.fdFile fd).any fun file => !k.hasOp file FileOps.write
  | Call.readdir fd _ _ =>
      (k.fdFile fd).any fun file => !k.hasOp file FileOps.readdir
  | Call.close fd => (k.fdFile fd).any fun file => !k.hasOp file FileOps.close

/-- What a call returns then, and the descriptors that it leaves. -/
def refusal (k : Kernel W) : Call -> Int × (Nat -> Option Nat)
  | Call.close fd => (0, Function.update k.fdTable fd.toNat none)
  | _ => (-1, k.fdTable)

/-- No `NULL` is called, and a call whose operation is missing is refused. -/
def Guarded (code : Code W) (k : Kernel W) (c : Call) : Prop :=
  exists result after, perform code k c = some (result, after) ∧
    (lacks k c = true ->
      (result, after.fdTable) = refusal k c ∧ after.mountList = k.mountList)

def Mountable (k : Kernel W) : Call -> Prop
  | Call.mount source target fstype flags =>
      lacks k (Call.mount source target fstype flags) = false
  | _ => True

/-!
# One call
-/

section

variable {code : Code W} {k : Kernel W} {c : Call}

theorem guarded_of_refused (hcall : perform code k c = some (-1, k))
    (hrefusal : refusal k c = (-1, k.fdTable)) : Guarded code k c :=
  ⟨-1, k, hcall, fun _ => ⟨hrefusal.symm, rfl⟩⟩

theorem guarded_of_returns {outcome : Int × Kernel W}
    (hcall : perform code k c = some outcome) (hlacks : lacks k c = false) :
    Guarded code k c := by
  refine ⟨outcome.1, outcome.2, hcall, ?_⟩
  intro h
  rw [hlacks] at h
  cases h

theorem guarded_of_guard {pointer : Bool} {outcome : Int × Kernel W}
    (hcall : perform code k c =
      if ¬ pointer then some (-1, k) else through pointer outcome)
    (hlacks : lacks k c = !pointer)
    (hrefusal : refusal k c = (-1, k.fdTable)) : Guarded code k c := by
  cases pointer with
  | false => exact guarded_of_refused hcall hrefusal
  | true => exact guarded_of_returns hcall hlacks

theorem guarded_by_path (path : Option CStr) (op : FsType -> Bool)
    {outcome : Mountpoint × CStr -> Int × Kernel W}
    (hcall : perform code k c =
      match path.bind k.findMount with
      | none => some (-1, k)
      | some found =>
          if ¬ op found.1.fs then some (-1, k)
          else through (op found.1.fs) (outcome found))
    (hlacks : lacks k c =
      (path.bind k.findMount).any fun found => !op found.1.fs)
    (hrefusal : refusal k c = (-1, k.fdTable)) : Guarded code k c := by
  cases hfind : path.bind k.findMount with
  | none =>
      rw [hfind] at hcall
      exact guarded_of_refused hcall hrefusal
  | some found =>
      rw [hfind] at hcall hlacks
      exact guarded_of_guard hcall hlacks hrefusal

theorem guarded_by_file (fd : Int) (op : FileOps -> Bool)
    (outcome : Nat -> Int × Kernel W)
    (hcall : perform code k c =
      match k.fdFile fd with
      | none => some (-1, k)
      | some file =>
          if ¬ k.hasOp file op then some (-1, k)
          else through (k.hasOp file op) (outcome file))
    (hlacks : lacks k c = (k.fdFile fd).any fun file => !k.hasOp file op)
    (hrefusal : refusal k c = (-1, k.fdTable)) : Guarded code k c := by
  cases hfile : k.fdFile fd with
  | none =>
      rw [hfile] at hcall
      exact guarded_of_refused hcall hrefusal
  | some file =>
      rw [hfile] at hcall hlacks
      exact guarded_of_guard hcall hlacks hrefusal

end

variable (code : Code W) (k : Kernel W)

theorem guarded_mkdir (path : Option CStr) (mode : UInt16) :
    Guarded code k (Call.mkdir path mode) := by
  have hcall : k.vfsMkdir code path mode =
      match path.bind k.findMount with
      | none => some (-1, k)
      | some found =>
          if ¬ found.1.fs.mkdir then some (-1, k)
          else through found.1.fs.mkdir
            (code.mkdir found.1 found.2 mode k) := by
    unfold Kernel.vfsMkdir
    cases path.bind k.findMount with
    | none => rfl
    | some found => rfl
  exact guarded_by_path path FsType.mkdir hcall rfl rfl

theorem guarded_unlink (path : Option CStr) :
    Guarded code k (Call.unlink path) := by
  have hcall : k.vfsUnlink code path =
      match path.bind k.findMount with
      | none => some (-1, k)
      | some found =>
          if ¬ found.1.fs.unlink then some (-1, k)
          else through found.1.fs.unlink (code.unlink found.1 found.2 k) := by
    unfold Kernel.vfsUnlink
    cases path.bind k.findMount with
    | none => rfl
    | some found => rfl
  exact guarded_by_path path FsType.unlink hcall rfl rfl

theorem guarded_read (fd : Int) (buf : Nat) (len : UInt32) :
    Guarded code k (Call.read fd buf len) :=
  guarded_by_file fd FileOps.read (fun file => code.read file buf len k) rfl rfl
    rfl

theorem guarded_write (fd : Int) (buf : Nat) (len : UInt32) :
    Guarded code k (Call.write fd buf len) :=
  guarded_by_file fd FileOps.write (fun file => code.write file buf len k) rfl
    rfl rfl

/-- A descriptor that is not open for a directory is refused before. -/
theorem guarded_readdir (fd : Int) (buf : Nat) (len : UInt32) :
    Guarded code k (Call.readdir fd buf len) := by
  cases hfile : k.fdFile fd with
  | none =>
      have hcall : k.vfsReaddir code fd buf len = some (-1, k) := by
        unfold Kernel.vfsReaddir
        rw [hfile]
      exact guarded_of_refused hcall rfl
  | some file =>
      have hlacks : lacks k (Call.readdir fd buf len) =
          !k.hasOp file FileOps.readdir := by
        change (k.fdFile fd).any _ = _
        rw [hfile]
        rfl
      have hcall : k.vfsReaddir code fd buf len =
          if (k.file file).flags &&& oDirectory = 0 then some (-1, k)
          else if ¬ k.hasOp file FileOps.readdir then some (-1, k)
          else through (k.hasOp file FileOps.readdir)
            (code.readdir file buf len k) := by
        unfold Kernel.vfsReaddir
        rw [hfile]
      split at hcall
      · exact guarded_of_refused hcall rfl
      · exact guarded_of_guard hcall hlacks rfl

theorem guarded_close (fd : Int) : Guarded code k (Call.close fd) := by
  cases hfile : k.fdFile fd with
  | none =>
      have hlacks : lacks k (Call.close fd) = false := by
        change (k.fdFile fd).any _ = false
        rw [hfile]
        rfl
      have hcall : k.vfsClose code fd = some (-1, k) := by
        unfold Kernel.vfsClose
        rw [hfile]
      exact guarded_of_returns hcall hlacks
  | some file =>
      have hlacks : lacks k (Call.close fd) =
          !k.hasOp file FileOps.close := by
        change (k.fdFile fd).any _ = _
        rw [hfile]
        rfl
      have hcall : k.vfsClose code fd =
          (if k.hasOp file FileOps.close then
            through (k.hasOp file FileOps.close) (code.close file k)
          else some k).map
            fun k => (0, (k.kfree code file).setFd fd.toNat none) := by
        unfold Kernel.vfsClose
        rw [hfile]
      cases hop : k.hasOp file FileOps.close with
      | false =>
          rw [hop] at hcall
          exact ⟨0, _, hcall, fun _ => ⟨rfl, rfl⟩⟩
      | true =>
          rw [hop] at hcall hlacks
          exact guarded_of_returns hcall hlacks

/-- The file system's `open` may fail, and its slot is given back then. -/
theorem guarded_openFile (path : Option CStr) (flags : UInt32)
    (mode : UInt16) : Guarded code k (Call.openFile path flags mode) := by
  cases hfind : path.bind k.findMount with
  | none =>
      have hcall : k.vfsOpen code path flags mode = some (-1, k) := by
        unfold Kernel.vfsOpen
        rw [hfind]
      exact guarded_of_refused hcall rfl
  | some found =>
      have hlacks : lacks k (Call.openFile path flags mode) =
          !found.1.fs.openFile := by
        change (path.bind k.findMount).any _ = _
        rw [hfind]
        rfl
      cases hop : found.1.fs.openFile with
      | false =>
          have hcall : k.vfsOpen code path flags mode = some (-1, k) := by
            unfold Kernel.vfsOpen
            rw [hfind]
            dsimp only
            rw [hop]
            rfl
          exact guarded_of_refused hcall rfl
      | true =>
          have hcall : exists outcome,
              k.vfsOpen code path flags mode = some outcome := by
            unfold Kernel.vfsOpen
            rw [hfind]
            dsimp only
            rw [hop, if_neg (not_not.mpr rfl)]
            split
            · exact ⟨_, rfl⟩
            · split
              · exact ⟨_, rfl⟩
              · exact ⟨_, rfl⟩
          rcases hcall with ⟨outcome, hcall⟩
          rw [hop] at hlacks
          exact guarded_of_returns hcall hlacks

theorem vfsMount_isSome (source : Option CStr) (target : CStr) {fstype : CStr}
    (flags : UInt32) {fs : FsType} (hfind : k.findType fstype = some fs) :
    (k.vfsMount code source (some target) (some fstype) flags).isSome =
      fs.mount := by
  unfold Kernel.vfsMount
  dsimp only
  rw [hfind]
  dsimp only
  rw [Option.isSome_map]
  cases fs.mount with
  | false => rfl
  | true => rfl

theorem guarded_mount_iff (source target fstype : Option CStr)
    (flags : UInt32) :
    Guarded code k (Call.mount source target fstype flags) <->
      Mountable k (Call.mount source target fstype flags) := by
  cases target with
  | none =>
      have hcall : k.vfsMount code source none fstype flags = some (-1, k) :=
        rfl
      exact iff_of_true (guarded_of_refused hcall rfl) rfl
  | some target =>
      cases fstype with
      | none =>
          have hcall : k.vfsMount code source (some target) none flags =
              some (-1, k) := rfl
          exact iff_of_true (guarded_of_refused hcall rfl) rfl
      | some fstype =>
          have hlacks : lacks k (Call.mount source (some target)
              (some fstype) flags) =
                (k.findType fstype).any fun fs => !fs.mount := rfl
          change Guarded code k _ <-> lacks k _ = false
          cases hfind : k.findType fstype with
          | none =>
              rw [hfind] at hlacks
              have hcall : k.vfsMount code source (some target) (some fstype)
                  flags = some (-1, k) := by
                unfold Kernel.vfsMount
                dsimp only
                rw [hfind]
              exact iff_of_true (guarded_of_refused hcall rfl) hlacks
          | some fs =>
              have hreturns := vfsMount_isSome code k source target flags hfind
              rw [hfind, Option.any_some] at hlacks
              cases hop : fs.mount with
              | true =>
                  rw [hop] at hreturns hlacks
                  rcases Option.isSome_iff_exists.mp hreturns with
                    ⟨outcome, hcall⟩
                  exact iff_of_true (guarded_of_returns hcall hlacks) hlacks
              | false =>
                  rw [hop] at hreturns hlacks
                  refine iff_of_false ?_ ?_
                  · rintro ⟨result, after, hcall, _⟩
                    have hnone := Option.isSome_eq_false_iff.mp hreturns
                    rw [Option.isNone_iff_eq_none] at hnone
                    cases hnone.symm.trans hcall
                  · rw [hlacks]
                    exact Bool.noConfusion

theorem guarded_iff (c : Call) : Guarded code k c <-> Mountable k c := by
  cases c with
  | mount source target fstype flags =>
      exact guarded_mount_iff code k source target fstype flags
  | openFile path flags mode =>
      exact iff_of_true (guarded_openFile code k path flags mode) trivial
  | mkdir path mode =>
      exact iff_of_true (guarded_mkdir code k path mode) trivial
  | unlink path => exact iff_of_true (guarded_unlink code k path) trivial
  | read fd buf len =>
      exact iff_of_true (guarded_read code k fd buf len) trivial
  | write fd buf len =>
      exact iff_of_true (guarded_write code k fd buf len) trivial
  | readdir fd buf len =>
      exact iff_of_true (guarded_readdir code k fd buf len) trivial
  | close fd => exact iff_of_true (guarded_close code k fd) trivial

/-!
# Runs
-/

/--
All along a run no `NULL` is called and missing operations are refused, exactly
when the run asks only for mounts of types that can be mounted.
-/
theorem calls_guarded_iff (calls : List Call) :
    Meets (exec code) (Guarded code) k calls <->
      Meets (exec code) Mountable k calls :=
  meets_congr (guarded_iff code) k calls

/-- `vfs_mount(NULL, "/proc", "procfs", 0)` after the boot. -/
theorem mount_procfs_calls_null :
    ¬ (forall (code : Code RamMemory) (k : Kernel RamMemory)
      (calls : List Call), Meets (exec code) (Guarded code) k calls) := by
  intro h
  have hrun := h (ramfsCode fun _ _ _ k => (0, k))
    (booted ⟨Vfs.boot fun _ => false, fun _ => 0⟩)
    [Call.mount none (some (cstr "/proc")) (some (cstr "procfs")) 0]
  rcases hrun.left with ⟨result, after, hcall, _⟩
  cases hcall

end Dispatch
end Fs
end EarlnuxOS
