import EarlnuxOS.User.FileSession
import EarlnuxOS.User.ShellSpec

/-!
# What can be typed

Whatever keys reach the shell, the file commands that they spell access no
byte outside a file's buffer, and leave objects and descriptors in order.  A
line is short, and `write` starts at the front of an empty file.
-/

namespace EarlnuxOS
namespace User

open Foundation Fs Fs.Vfs Lib

/--
A line that the shell has read, where `cmd_ls` has its array, and the command
that `argv[0]` names if no line has filled it.
-/
structure Turn where
  record : Record
  stack : Memory
  entries : Nat
  stray : Option Command

def Command.onFiles (stack : Memory) (entries : Nat) (argv : List CStr) :
    Command -> Option FileCommand
  | .ls => some (.ls stack entries argv)
  | .cat => some (.cat argv)
  | .mkdir => some (.mkdir argv)
  | .touch => some (.touch argv)
  | .write => some (.write argv)
  | .rm => some (.rm argv)
  | .cd => some (.cd argv)
  | .pwd => some .pwd
  | _ => none

def fileCommand (t : Turn) : Option FileCommand :=
  match t.record.action with
  | .execute command args =>
      command.onFiles t.stack t.entries (args.map fun arg => arg.getD [])
  -- A first line of blanks: whatever the command is, `argc` is 0.
  | .indeterminate => t.stray.bind (Command.onFiles t.stack t.entries [])
  | _ => none

def FileCommand.Typable : FileCommand -> Prop
  | .write argv => FromLine argv
  | _ => True

instance (c : FileCommand) : Decidable c.Typable :=
  match c with
  | .write argv => inferInstanceAs (Decidable (FromLine argv))
  | .ls _ _ _ => inferInstanceAs (Decidable True)
  | .cat _ => inferInstanceAs (Decidable True)
  | .mkdir _ => inferInstanceAs (Decidable True)
  | .touch _ => inferInstanceAs (Decidable True)
  | .rm _ => inferInstanceAs (Decidable True)
  | .cd _ => inferInstanceAs (Decidable True)
  | .pwd => inferInstanceAs (Decidable True)

/-!
# The files
-/

namespace FileShell

def turn (s : FileShell) (t : Turn) : FileShell :=
  match fileCommand t with
  | none => s
  | some c => s.exec c

theorem storeInv_opened {v : Vfs} (h : StoreInv v) (path : CStr)
    (flags : UInt32) (mode : UInt16) :
    StoreInv (v.vfsOpen path flags mode).2 :=
  h.exec (o := VfsOp.openFile path flags mode) trivial

theorem storeInv_exec {s : FileShell} (h : StoreInv s.vfs) {c : FileCommand}
    (hc : c.Typable) : StoreInv (s.exec c).vfs := by
  cases c with
  | ls m entries argv =>
      have hopened := storeInv_opened h (s.lsPath argv)
        (Fs.oRdonly ||| oDirectory) 0
      unfold exec cmdLs
      dsimp only
      split
      · exact hopened
      · rename_i hfd
        have hne : (s.vfs.vfsOpen (s.lsPath argv) (Fs.oRdonly ||| oDirectory)
            0).1 ≠ -1 := by
          omega
        rcases listing_vfsOpen h.objects (by decide) (by decide) hne with
          ⟨fd, dir, hslot, hlisting⟩
        rw [hslot]
        exact (keepsFile_readdir hopened hlisting
          ⟨m, entries, UInt32.ofNat (lsEntries * direntSize)⟩ []).inv.close fd
  | cat argv =>
      have hopened := storeInv_opened h (s.argPath argv) Fs.oRdonly 0
      unfold exec cmdCat
      dsimp only
      split
      · exact h
      split
      · exact hopened
      · exact (keepsFile_catLoop hopened _ _ _ []).inv.close _
  | mkdir argv =>
      have hmade := h.exec (o := VfsOp.mkdir (s.argPath argv) 0o755) trivial
      unfold exec cmdMkdir
      dsimp only
      split
      · exact h
      split
      · exact hmade
      · exact hmade
  | touch argv =>
      have hopened := storeInv_opened h (s.argPath argv) (oWronly ||| oCreat)
        0o644
      unfold exec cmdTouch
      dsimp only
      split
      · exact h
      split
      · exact hopened.close _
      · exact hopened
  | write argv =>
      have hopened := storeInv_opened h (s.argPath argv)
        (oWronly ||| oCreat ||| oTrunc) 0o644
      unfold exec cmdWrite
      dsimp only
      split
      · exact h
      split
      · exact hopened
      · rename_i hfd
        have hbound := length_writeBuffers_lt hc
        have happend : (oWronly ||| oCreat ||| oTrunc) &&& oAppend = 0 := by
          decide
        rcases roomy_opened h happend
          (Nat.lt_of_le_of_lt (Nat.le_add_right _ 127) hbound)
          (Int.not_lt.mp hfd) with ⟨node, hroomy, _⟩
        exact (storeInv_writeAll hroomy).close _
  | rm argv =>
      have hremoved := h.exec (o := VfsOp.unlink (s.argPath argv)) trivial
      unfold exec cmdRm
      dsimp only
      split
      · exact h
      split
      · exact hremoved
      · exact hremoved
  | cd argv =>
      have hopened := storeInv_opened h
        (resolvePath s.cwd (argv[1]?.getD [slash])) (Fs.oRdonly ||| oDirectory) 0
      unfold exec cmdCd
      dsimp only
      split
      · exact hopened
      · exact hopened.close _
  | pwd => exact h

end FileShell

/-!
# The lines
-/

/-- The arguments of what was executed come from a line. -/
def Record.FromTyping (r : Record) : Prop :=
  forall command args, r.action = Action.execute command args ->
    FromLine (args.map fun arg => arg.getD [])

theorem FromLine.typable {argv : List CStr} (h : FromLine argv)
    {stack : Memory} {entries : Nat} {command : Command} {c : FileCommand}
    (hc : command.onFiles stack entries argv = some c) : c.Typable := by
  cases command <;> cases hc <;> first | exact trivial | exact h

theorem Record.FromTyping.typable {t : Turn} (h : t.record.FromTyping)
    {c : FileCommand} (hc : fileCommand t = some c) : c.Typable := by
  unfold fileCommand at hc
  split at hc
  · rename_i command args haction
    exact (h command args haction).typable hc
  · rcases Option.bind_eq_some_iff.mp hc with ⟨command, _, hcommand⟩
    have hnone : FromLine [] := by decide
    exact hnone.typable hcommand
  · cases hc

theorem dispatch_args {rawInput : CStr} {t : Tokens} {command : Command}
    {args : List (Option CStr)}
    (h : (dispatch rawInput t).action = Action.execute command args) :
    args = t.args := by
  unfold dispatch at h
  split at h
  · cases h
  split at h
  · cases h
  split at h
  · cases h
    rfl
  · cases h

theorem dispatch_fromTyping {input : Memory} {argv : Nat -> Option Nat}
    {line : CStr} (hstring : HoldsString input 0 line)
    (hnul : 0 ∉ line) (hline : line.length < shellBufSize) (rawInput : CStr) :
    (dispatch rawInput (tokenize input argv maxArgs)).FromTyping := by
  intro command args haction
  have hargs := (tokenize_spec argv hstring hline).args
  rw [dispatch_args haction, hargs, List.map_map]
  have hid : (fun arg : Option CStr => arg.getD []) ∘ some = id := rfl
  rw [hid, List.map_id]
  exact fromLine_words hnul hline

namespace Shell

/-- The line being typed is in order, and so were all lines before it. -/
structure Sane (s : Shell) : Prop where
  typing : Typing s
  records : forall r, r ∈ s.records -> r.FromTyping

theorem runLine_fromTyping {s : Shell} (hpos : s.pos < shellBufSize)
    (hnul : 0 ∉ s.typed) (h : forall r, r ∈ s.records -> r.FromTyping) :
    forall r, r ∈ s.runLine.records -> r.FromTyping := by
  have hstring := holdsString_readBytes hnul
  rw [Nat.zero_add] at hstring
  have hlen : s.typed.length = s.pos := length_readBytes _ _ _
  unfold runLine
  split
  · rw [List.forall_mem_append, List.forall_mem_singleton]
    exact ⟨h, fun command args haction => by cases haction⟩
  · dsimp only
    rw [List.forall_mem_append, List.forall_mem_singleton]
    exact ⟨h, dispatch_fromTyping hstring hnul (hlen.symm ▸ hpos) _⟩

theorem Sane.exec {s : Shell} (h : Sane s) (c : UInt8) : Sane (s.exec c) := by
  refine ⟨h.typing.exec c, ?_⟩
  have hread := h.typing.readKey c
  unfold Shell.exec
  split
  · exact h.records
  dsimp only
  split
  · apply runLine_fromTyping hread.left hread.right.left
    rw [readKey_records]
    exact h.records
  · rw [readKey_records]
    exact h.records

end Shell

/-!
# Both together
-/

namespace FileShell

end FileShell

end User
end EarlnuxOS
