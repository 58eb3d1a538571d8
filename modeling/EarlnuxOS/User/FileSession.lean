import Mathlib.Data.List.Flatten
import EarlnuxOS.Fs.Appends
import EarlnuxOS.Fs.KeptFiles
import EarlnuxOS.User.FileCommands
import EarlnuxOS.User.Shell

/-!
# Sessions with files

What `write` puts into a file is what `cat` shows of it, through every run of
commands in between that are about other files.
-/

namespace EarlnuxOS
namespace User

open Foundation Fs Fs.Vfs Lib

/-!
# Arguments
-/

/-- The strings come from a line that fits `shell_input`. -/
structure FromLine (argv : List CStr) : Prop where
  noNul : forall w, w ∈ argv -> 0 ∉ w
  fits : argv.flatten.length + argv.length ≤ shellBufSize

instance (argv : List CStr) : Decidable (FromLine argv) :=
  decidable_of_iff ((forall w, w ∈ argv -> 0 ∉ w) ∧
      argv.flatten.length + argv.length ≤ shellBufSize)
    ⟨fun h => ⟨h.left, h.right⟩, fun h => ⟨h.noNul, h.fits⟩⟩

/-- Each piece of a string takes up a separator more than its length, but one. -/
theorem length_splitOnP (p : UInt8 -> Bool) (s : CStr) :
    (s.splitOnP p).flatten.length + (s.splitOnP p).length = s.length + 1 := by
  induction s with
  | nil => rfl
  | cons c s ih =>
      rw [List.splitOnP_cons_eq_if_modifyHead]
      split
      · rw [List.flatten_cons, List.nil_append, List.length_cons,
          List.length_cons]
        omega
      · cases hpieces : s.splitOnP p with
        | nil => exact absurd hpieces (List.splitOnP_ne_nil p s)
        | cons w ws =>
            rw [hpieces, List.flatten_cons, List.length_append,
              List.length_cons] at ih
            rw [List.modifyHead_cons, List.flatten_cons, List.length_append,
              List.length_cons, List.length_cons, List.length_cons]
            omega

theorem mem_of_splitOnP {p : UInt8 -> Bool} {s w : CStr} {c : UInt8}
    (hw : w ∈ s.splitOnP p) (hc : c ∈ w) : c ∈ s := by
  induction s generalizing w with
  | nil =>
      rw [List.splitOnP_nil, List.mem_singleton] at hw
      rw [hw] at hc
      exact hc
  | cons d s ih =>
      rw [List.splitOnP_cons_eq_if_modifyHead] at hw
      split at hw
      · rcases List.mem_cons.mp hw with hnil | hw
        · rw [hnil] at hc
          cases hc
        · exact List.mem_cons_of_mem d (ih hw hc)
      · cases hpieces : s.splitOnP p with
        | nil => exact absurd hpieces (List.splitOnP_ne_nil p s)
        | cons u us =>
            rw [hpieces] at hw ih
            rcases List.mem_cons.mp hw with heq | hw
            · rw [heq] at hc
              rcases List.mem_cons.mp hc with hd | hc
              · exact List.mem_cons.mpr (Or.inl hd)
              · exact List.mem_cons_of_mem d (ih List.mem_cons_self hc)
            · exact List.mem_cons_of_mem d (ih (List.mem_cons_of_mem u hw) hc)

theorem fromLine_words {line : CStr} (hnul : 0 ∉ line)
    (hline : line.length < shellBufSize) :
    FromLine ((words blank line).take maxArgs) := by
  have hpieces := length_splitOnP blank line
  have hsub : List.Sublist ((words blank line).take maxArgs)
      (line.splitOnP blank) :=
    (List.take_sublist _ _).trans List.filter_sublist
  have hflat := hsub.flatten.length_le
  have hlen := hsub.length_le
  constructor
  · exact fun w hw hmem => hnul (mem_of_splitOnP (hsub.subset hw) hmem)
  · omega

/-!
# What `write` writes
-/

/-- The words with spaces between them, and a newline. -/
def lineOf (ws : List CStr) : CStr := [0x20].intercalate ws ++ cstr "\n"

theorem flatten_writeBuffers {ws : List CStr} (hws : ws ≠ []) :
    (FileShell.writeBuffers ws).flatten = lineOf ws := by
  induction ws with
  | nil => exact absurd rfl hws
  | cons w ws ih =>
      cases ws with
      | nil => simp [FileShell.writeBuffers, lineOf, List.intercalate]
      | cons w' ws =>
          have hrest := ih (List.cons_ne_nil w' ws)
          have hspace : cstr " " = [0x20] := by decide
          unfold lineOf List.intercalate at hrest ⊢
          rw [FileShell.writeBuffers, List.flatten_cons, List.flatten_cons,
            hrest, List.intersperse_cons_cons, List.flatten_cons,
            List.flatten_cons, List.append_assoc, List.append_assoc, hspace]
          exact List.cons_ne_nil w' ws

theorem length_writeBuffers (ws : List CStr) :
    (FileShell.writeBuffers ws).flatten.length ≤
      ws.flatten.length + ws.length + 1 := by
  have hspace : (cstr " ").length = 1 := by decide
  have hnewline : (cstr "\n").length = 1 := by decide
  induction ws with
  | nil => simp [FileShell.writeBuffers, hnewline]
  | cons w ws ih =>
      cases ws with
      | nil =>
          simp only [FileShell.writeBuffers, List.flatten_cons,
            List.flatten_nil, List.length_append, List.length_nil,
            List.length_cons]
          omega
      | cons w' ws =>
          rw [FileShell.writeBuffers, List.flatten_cons, List.flatten_cons,
            List.length_append, List.length_append, List.flatten_cons,
            List.length_append, List.length_cons]
          · omega
          · exact List.cons_ne_nil w' ws

theorem mem_writeBuffers {ws : List CStr} {buf : CStr}
    (h : buf ∈ FileShell.writeBuffers ws) :
    buf ∈ ws ∨ buf = cstr " " ∨ buf = cstr "\n" := by
  induction ws with
  | nil => exact Or.inr (Or.inr (List.mem_singleton.mp h))
  | cons w ws ih =>
      cases ws with
      | nil =>
          rcases List.mem_cons.mp h with heq | h
          · exact Or.inl (List.mem_cons.mpr (Or.inl heq))
          · exact Or.inr (Or.inr (List.mem_singleton.mp h))
      | cons w' ws =>
          rw [FileShell.writeBuffers] at h
          · rcases List.mem_cons.mp h with heq | h
            · exact Or.inl (List.mem_cons.mpr (Or.inl heq))
            rcases List.mem_cons.mp h with heq | h
            · exact Or.inr (Or.inl heq)
            · exact (ih h).imp_left (List.mem_cons_of_mem w)
          · exact List.cons_ne_nil w' ws

theorem length_writeBuffers_lt {argv : List CStr} (hargv : FromLine argv) :
    (FileShell.writeBuffers (argv.drop 2)).flatten.length + 127 < 2 ^ 31 := by
  have hbuffers := length_writeBuffers (argv.drop 2)
  have hflat := (List.drop_sublist 2 argv).flatten.length_le
  have hlen := (List.drop_sublist 2 argv).length_le
  have hfits := hargv.fits
  unfold shellBufSize at hfits
  omega

theorem noNul_writeBuffers {argv : List CStr} (hargv : FromLine argv) :
    0 ∉ (FileShell.writeBuffers (argv.drop 2)).flatten := by
  intro hnul
  rcases List.mem_flatten.mp hnul with ⟨buf, hbuf, hmem⟩
  rcases mem_writeBuffers hbuf with hword | heq | heq
  · exact hargv.noNul buf (List.mem_of_mem_drop hword) hmem
  · rw [heq] at hmem
    exact absurd hmem (by decide)
  · rw [heq] at hmem
    exact absurd hmem (by decide)

namespace FileShell

theorem writing_writeAll {v : Vfs} {path text : CStr} {fd : Int}
    {bufs : List CStr} (h : Writing v path fd [] text)
    (hlen : text.length + bufs.flatten.length < 2 ^ 31)
    (hresults : forall r, r ∈ (writeAll v fd bufs).1 -> 0 ≤ r) :
    Writing (writeAll v fd bufs).2 path fd [] (text ++ bufs.flatten) := by
  induction bufs generalizing v text with
  | nil =>
      rw [List.flatten_nil, List.append_nil]
      exact h
  | cons buf bufs ih =>
      rw [List.flatten_cons, List.length_append] at hlen
      have hfirst := h.write (by omega) (hresults _ List.mem_cons_self)
      have hrest := ih hfirst (by rw [List.length_append]; omega)
        fun r hr => hresults r (List.mem_cons_of_mem _ hr)
      rw [List.flatten_cons, ← List.append_assoc]
      exact hrest

/-- The files are in order, and the one at a path holds the line. -/
structure Wrote (v : Vfs) (path line : CStr) : Prop where
  inv : StoreInv v
  fileAt : v.fileAt path = some line

theorem drop_two_ne_nil {argv : List CStr} (hthree : 3 ≤ argv.length) :
    argv.drop 2 ≠ [] := by
  rw [ne_eq, List.drop_eq_nil_iff]
  exact Nat.not_le.mpr hthree

theorem wrote_cmdWrite {s : FileShell} (h : StoreInv s.vfs) {argv : List CStr}
    (hargv : FromLine argv) (hthree : 3 ≤ argv.length)
    (hplain : s.vfs.Plain (s.argPath argv))
    (hresults : forall r, r ∈ (s.cmdWrite argv).1 -> 0 ≤ r) :
    Wrote (s.cmdWrite argv).2.vfs (s.argPath argv) (lineOf (argv.drop 2)) := by
  have hdrop := drop_two_ne_nil hthree
  have hbound := length_writeBuffers_lt hargv
  unfold cmdWrite at hresults ⊢
  rw [if_neg (by omega)] at hresults ⊢
  dsimp only at hresults ⊢
  split at hresults
  · rename_i hneg
    have hfd := hresults _ List.mem_cons_self
    exact absurd hneg (Int.not_lt.mpr hfd)
  · rename_i hnonneg
    rw [if_neg hnonneg]
    have hopened := writing_truncated h hplain (oWronly ||| oCreat ||| oTrunc)
      0o644 (by decide) (by decide) (Int.not_lt.mp hnonneg)
    have hroom : ([] : CStr).length +
        (writeBuffers (argv.drop 2)).flatten.length < 2 ^ 31 := by
      rw [List.length_nil]
      omega
    have hwritten := writing_writeAll hopened hroom
      fun r hr => hresults r (List.mem_cons_of_mem _ hr)
    have hclosed := hwritten.close
    rw [List.nil_append, flatten_writeBuffers hdrop] at hclosed
    refine ⟨hclosed.left, hclosed.right.trans ?_⟩
    unfold overwrite
    simp

/-!
# What `cat` shows
-/

theorem kprintf_string (text : CStr) : kprintf (cstr "%s") [text] = text := by
  have htext : kprintf (cstr "%s") [text] = consolePuts [] text := rfl
  rw [htext, consolePuts_eq]
  rfl

theorem catLoop_shows {v : Vfs} {fd : Int} {content : CStr} {pos steps : Nat}
    (h : Reading v fd content pos) (hnul : 0 ∉ content)
    (hlen : content.length + 127 < 2 ^ 31) (hpos : pos ≤ content.length)
    (hsteps : content.length < pos + steps) (out : CStr) :
    (catLoop steps v fd out).1 = out ++ content.drop pos := by
  induction steps generalizing v pos out with
  | zero => omega
  | succ steps ih =>
      have hfits : pos + (127 : UInt32).toNat < 2 ^ 31 := by
        have h127 : (127 : UInt32).toNat = 127 := rfl
        omega
      have hslice : slice content pos (127 : UInt32).toNat =
          (content.drop pos).take 127 := rfl
      have hread := h.read hfits
      rw [hslice] at hread
      rcases hread with ⟨hbytes, hresult, hnext⟩
      have hcount : ((content.drop pos).take 127).length =
          min 127 (content.length - pos) := by
        rw [List.length_take, List.length_drop]
      unfold catLoop
      dsimp only
      rw [hresult, hbytes]
      split
      · rename_i hsome
        have hsub : 0 ∉ (content.drop pos).take 127 :=
          fun hmem => hnul (List.mem_of_mem_drop (List.mem_of_mem_take hmem))
        have hend : terminated [0] = [] := rfl
        rw [ih hnext (by omega) (by omega), kprintf_string,
          terminated_append hsub, hend, List.append_nil, List.append_assoc,
          ← List.drop_drop, hcount]
        congr 1
        rcases Nat.le_total 127 (content.length - pos) with hle | hle
        · rw [Nat.min_eq_left hle, List.take_append_drop]
        · rw [Nat.min_eq_right hle, ← List.length_drop, List.drop_length,
            List.append_nil, List.take_of_length_le]
          rw [List.length_drop]
          exact hle
      · rename_i hnone
        rw [List.drop_of_length_le (by omega), List.append_nil]

theorem length_reading {v : Vfs} {fd : Int} {content : CStr} {pos : Nat}
    (h : Reading v fd content pos) : content.length < catRounds v fd := by
  rcases h.desc with ⟨id, hdesc, hcontent⟩
  rcases descOf_some hdesc with ⟨file, hfile, hnode, _⟩
  unfold catRounds
  rw [hfile]
  dsimp only
  rw [hnode, ← hcontent]
  show (v.inode id).bytes.length < _
  rw [Inode.length_bytes]
  exact Nat.lt_succ_self _

theorem cmdCat_shows {s : FileShell} {argv : List CStr} {content : CStr}
    (h : Wrote s.vfs (s.argPath argv) content) (htwo : 2 ≤ argv.length)
    (hgranted : s.vfs.OpenGranted (s.argPath argv)) (hnul : 0 ∉ content)
    (hlen : content.length + 127 < 2 ^ 31) :
    (s.cmdCat argv).screen = s.screen ++ content ++ cstr "\n" := by
  have hopened : 0 ≤ (s.vfs.vfsOpen (s.argPath argv) Fs.oRdonly 0).1 := by
    rw [vfsOpen_opens_path s.vfs (s.argPath argv) 0 (by decide)]
    refine ⟨hgranted, fun hnone => ?_⟩
    have hfile := h.fileAt
    unfold Vfs.fileAt at hfile
    rw [hnone] at hfile
    cases hfile
  have hreading := reading_opened h.inv (by decide) (by decide) hopened h.fileAt
  unfold cmdCat
  rw [if_neg (by omega)]
  dsimp only
  rw [if_neg (Int.not_lt.mpr hopened)]
  show s.screen ++ _ = _
  rw [catLoop_shows hreading hnul hlen (Nat.zero_le _)
    (by rw [Nat.zero_add]; exact length_reading hreading), List.nil_append,
    List.drop_zero, ← List.append_assoc]

/-!
# Commands about other files
-/

theorem keepsFile_catLoop {v : Vfs} (h : StoreInv v) (steps : Nat) (fd : Int)
    (out path : CStr) : KeepsFile v (catLoop steps v fd out).2 path := by
  induction steps generalizing v out with
  | zero => exact KeepsFile.refl h
  | succ steps ih =>
      have hread := keepsFile_read h fd 127 path
      unfold catLoop
      dsimp only
      split
      · exact hread.trans (ih hread.inv _)
      · exact hread

theorem storeInv_writeAll {v : Vfs} {fd : Int} {node : Nat} {bufs : List CStr}
    (h : Roomy v fd node bufs.flatten.length) :
    StoreInv (writeAll v fd bufs).2 := by
  induction bufs generalizing v with
  | nil => exact h.inv
  | cons buf bufs ih =>
      rw [List.flatten_cons, List.length_append] at h
      exact ih h.write.left

theorem keepsFile_writeAll {v : Vfs} {path : CStr} {fd : Int} {node : Nat}
    {bufs : List CStr} (h : Roomy v fd node bufs.flatten.length)
    (hother : v.pathNode path ≠ some node) :
    KeepsFile v (writeAll v fd bufs).2 path := by
  induction bufs generalizing v with
  | nil => exact KeepsFile.refl h.inv
  | cons buf bufs ih =>
      rw [List.flatten_cons, List.length_append] at h
      have hkeeps := keeps_write v fd buf
      have hnode := pathNode_congr hkeeps.mountList hkeeps.sameDirs path
      exact (keepsFile_write h hother).trans
        (ih h.write.left (hnode.symm ▸ hother))

/-- The command leaves the file at the path alone. -/
def Spares (path : CStr) (s : FileShell) : FileCommand -> Prop
  | .mkdir argv => s.vfs.Plain (s.argPath argv) ∧
      s.vfs.pathNode (s.argPath argv) = none
  | .touch argv => s.vfs.Plain (s.argPath argv)
  | .write argv => FromLine argv ∧ s.vfs.Plain (s.argPath argv) ∧
      s.vfs.pathNode (s.argPath argv) ≠ s.vfs.pathNode path
  | .rm argv => forall id dir victim, s.vfs.pathNode path = some id ->
      s.vfs.unlinkTarget (s.argPath argv) = some (dir, victim) ->
      ¬ s.vfs.Above victim.inode id
  | _ => True

theorem keepsFile_exec {s : FileShell} (h : StoreInv s.vfs) {path : CStr}
    (hpath : s.vfs.pathNode path ≠ none) {c : FileCommand}
    (hspares : Spares path s c) : KeepsFile s.vfs (s.exec c).vfs path := by
  have hstay : KeepsFile s.vfs s.vfs path := KeepsFile.refl h
  cases c with
  | ls m entries argv =>
      unfold exec cmdLs
      dsimp only
      have hopened := keepsFile_opened h path (s.lsPath argv)
        (Fs.oRdonly ||| oDirectory) 0 (Or.inl (by decide)) (by decide)
      split
      · exact hopened
      · rename_i hfd
        have hne : (s.vfs.vfsOpen (s.lsPath argv) (Fs.oRdonly ||| oDirectory)
            0).1 ≠ -1 := by
          omega
        rcases listing_vfsOpen h.objects (by decide) (by decide) hne with
          ⟨fd, dir, hslot, hlisting⟩
        rw [hslot]
        have hlisted := keepsFile_readdir hopened.inv hlisting
          ⟨m, entries, UInt32.ofNat (lsEntries * direntSize)⟩ path
        exact (hopened.trans hlisted).trans (keepsFile_close hlisted.inv fd path)
  | cat argv =>
      have hopened := keepsFile_opened h path (s.argPath argv) Fs.oRdonly 0
        (Or.inl (by decide)) (by decide)
      unfold exec cmdCat
      dsimp only
      split
      · exact hstay
      split
      · exact hopened
      · exact (hopened.trans (keepsFile_catLoop hopened.inv _ _ _ path)).trans
          (keepsFile_close (keepsFile_catLoop hopened.inv _ _ _ path).inv _ path)
  | mkdir argv =>
      have hmade := keepsFile_mkdir h path hspares.left 0o755 hspares.right
      unfold exec cmdMkdir
      dsimp only
      split
      · exact hstay
      split
      · exact hmade
      · exact hmade
  | touch argv =>
      have hopened := keepsFile_opened h path (s.argPath argv)
        (oWronly ||| oCreat) 0o644 (Or.inr hspares) (by decide)
      unfold exec cmdTouch
      dsimp only
      split
      · exact hstay
      split
      · exact hopened.trans (keepsFile_close hopened.inv _ path)
      · exact hopened
  | write argv =>
      rcases hspares with ⟨hargv, hplain, hother⟩
      have hopened := keepsFile_truncated h hplain hother
        (oWronly ||| oCreat ||| oTrunc) 0o644
      unfold exec cmdWrite
      dsimp only
      split
      · exact hstay
      split
      · exact hopened
      · rename_i hfd
        have hbound := length_writeBuffers_lt hargv
        have happend : (oWronly ||| oCreat ||| oTrunc) &&& oAppend = 0 := by decide
        rcases Option.ne_none_iff_exists'.mp hpath with ⟨id, hid⟩
        rcases roomy_opened h happend
          (Nat.lt_of_le_of_lt (Nat.le_add_right _ 127) hbound)
          (Int.not_lt.mp hfd) with ⟨node, hroomy, hnode⟩
        have hne : (s.vfs.vfsOpen (s.argPath argv) (oWronly ||| oCreat ||| oTrunc)
            0o644).2.pathNode path ≠ some node := by
          rw [(hopened.file id hid).left]
          intro heq
          cases heq
          rcases hnode with hnode | hnew
          · exact hother (hnode.trans hid.symm)
          · exact pathNode_known h.objects hid hnew
        have hwritten := hopened.trans (keepsFile_writeAll hroomy hne)
        exact hwritten.trans (keepsFile_close hwritten.inv _ path)
  | rm argv =>
      have hremoved := keepsFile_unlink h hspares
      unfold exec cmdRm
      dsimp only
      split
      · exact hstay
      split
      · exact hremoved
      · exact hremoved
  | cd argv =>
      unfold exec cmdCd
      dsimp only
      generalize resolvePath s.cwd (argv[1]?.getD [slash]) = target
      have hopened := keepsFile_opened h path target
        (Fs.oRdonly ||| oDirectory) 0 (Or.inl (by decide)) (by decide)
      split
      · exact hopened
      · exact hopened.trans (keepsFile_close hopened.inv _ path)
  | pwd => exact hstay

theorem wrote_exec {s : FileShell} {path line : CStr}
    (h : Wrote s.vfs path line) {c : FileCommand} (hspares : Spares path s c) :
    Wrote (s.exec c).vfs path line := by
  have hpath : s.vfs.pathNode path ≠ none := by
    intro hnone
    have hfile := h.fileAt
    unfold Vfs.fileAt at hfile
    rw [hnone] at hfile
    cases hfile
  have hkept := keepsFile_exec h.inv hpath hspares
  exact ⟨hkept.inv, hkept.fileAt h.fileAt⟩

/-!
# What `ls` shows
-/

theorem stringAt_of_nul {m : Memory} {a k n : Nat} (h : 0 ∈ readBytes m a k)
    (hk : k ≤ n) : stringAt m n a = terminated (readBytes m a k) := by
  induction k generalizing a n with
  | zero => cases h
  | succ k ih =>
      cases n with
      | zero => exact absurd hk (Nat.not_succ_le_zero k)
      | succ n =>
          rw [readBytes_succ] at h ⊢
          unfold terminated at ih ⊢
          rw [stringAt, List.takeWhile_cons]
          by_cases hzero : m a = 0
          · rw [if_pos hzero, hzero]
            rfl
          · have hmem := (List.mem_cons.mp h).resolve_left (Ne.symm hzero)
            rw [if_neg hzero, if_pos (by simpa using hzero),
              ih hmem (Nat.le_of_succ_le_succ hk)]

theorem lsName_eq {m : Memory} {entries i ino : Nat} {name : CStr}
    (h : recordAt m (entries + direntSize * i) = (ino, some name)) :
    lsName m entries i = name := by
  have hname := congrArg Prod.snd h
  unfold recordAt nameAt at hname
  dsimp only at hname
  split at hname
  · rename_i hnul
    cases hname
    exact stringAt_of_nul hnul (by decide)
  · cases hname

theorem lsNames_page {v : Vfs} {fd : Int} {dir id : Nat}
    (h : Listing v fd dir id 0) (hfit : EntriesFit (v.inode dir).entries)
    (hshort : forall de, de ∈ (v.inode dir).entries ->
      de.name.length < nameMax) {c : ReaddirCall}
    (hc : c.len = UInt32.ofNat (lsEntries * direntSize)) :
    (List.range (v.vfsReaddir c.mem fd c.buf c.len).1.toNat).map
        (lsName (v.vfsReaddir c.mem fd c.buf c.len).2.1 c.buf) =
      ((v.inode dir).entries.take lsEntries).map Dirent.name := by
  have hrecords := h.records hfit c
  have hcapacity : c.capacity = lsEntries := by
    unfold ReaddirCall.capacity
    rw [hc]
    rfl
  have hpage : v.page dir 0 c = (v.inode dir).entries.take lsEntries := by
    unfold page
    rw [List.drop_zero, hcapacity]
  rw [← hpage]
  apply List.ext_getElem?
  intro i
  have hrecord := congrArg (fun records => records[i]?) hrecords
  unfold recordsAt at hrecord
  rw [List.getElem?_map, List.getElem?_mapIdx] at hrecord
  rw [List.getElem?_map, List.getElem?_map]
  cases hi : (List.range (v.vfsReaddir c.mem fd c.buf c.len).1.toNat)[i]? with
  | none =>
      rw [hi] at hrecord
      cases hde : (v.page dir 0 c)[i]? with
      | none => rfl
      | some de =>
          rw [hde] at hrecord
          cases hrecord
  | some j =>
      rw [hi] at hrecord
      cases hde : (v.page dir 0 c)[i]? with
      | none =>
          rw [hde] at hrecord
          cases hrecord
      | some de =>
          rw [hde] at hrecord
          have hmem : de ∈ (v.inode dir).entries :=
            List.mem_of_mem_drop (List.mem_of_mem_take (List.mem_of_getElem? hde))
          have heq := Option.some.inj hrecord
          unfold listedAs at heq
          rw [if_pos (Or.inl (hshort de hmem))] at heq
          exact congrArg some (lsName_eq heq)

def lsLine (name : CStr) : CStr := cstr "  " ++ name ++ cstr "\n"

theorem kprintf_lsLine (name : CStr) :
    kprintf (cstr "  %s\n") [name] = lsLine name := by
  have htext : kprintf (cstr "  %s\n") [name] =
      consolePutchar (consolePuts (cstr "  ") name) newline := rfl
  rw [htext, consolePuts_eq]
  rfl

theorem listing_opened {v : Vfs} (hi : ObjInv v) {path : CStr} {flags : UInt32}
    {mode : UInt16} {dir : Nat} (hflag : flags &&& oDirectory ≠ 0)
    (happend : flags &&& oAppend = 0)
    (hopened : 0 ≤ (v.vfsOpen path flags mode).1)
    (hdir : v.pathNode path = some dir) :
    exists id, Listing (v.vfsOpen path flags mode).2
      (v.vfsOpen path flags mode).1 dir id 0 := by
  have hne : (v.vfsOpen path flags mode).1 ≠ -1 := by omega
  rcases listing_vfsOpen hi hflag happend hne with ⟨fd, dir', hfd, hlisting⟩
  rcases vfsOpen_reopens hi path flags mode with
    ⟨hfail, _⟩ | ⟨fd', node, hfd', hopen, hfound⟩
  · omega
  · have hnode : node = dir := by
      rcases hfound with hfound | ⟨hnone, _⟩
      · rw [hdir] at hfound
        exact (Option.some.inj hfound).symm
      · rw [hdir] at hnone
        cases hnone
    have hinode := hlisting.inode
    rw [hopen.opened] at hinode
    change node = dir' at hinode
    rw [hfd, ← hnode, hinode]
    exact ⟨v.nextId, hlisting⟩

theorem lsLines_opened {v : Vfs} (hi : ObjInv v) {path : CStr} {dir : Nat}
    (hopened : 0 ≤ (v.vfsOpen path (Fs.oRdonly ||| oDirectory) 0).1)
    (hdir : v.pathNode path = some dir)
    (hfit : EntriesFit (v.inode dir).entries)
    (hshort : forall de, de ∈ (v.inode dir).entries ->
      de.name.length < nameMax) (m : Memory) (entries : Nat) :
    let opened := v.vfsOpen path (Fs.oRdonly ||| oDirectory) 0
    let listed := opened.2.vfsReaddir m opened.1 entries
      (UInt32.ofNat (lsEntries * direntSize))
    ((List.range listed.1.toNat).flatMap fun i =>
        kprintf (cstr "  %s\n") [lsName listed.2.1 entries i]) =
      (((v.inode dir).entries.take lsEntries).map Dirent.name).flatMap
        lsLine := by
  have hcreat : (Fs.oRdonly ||| oDirectory) &&& oCreat = 0 := by decide
  have hentries := (sameDirs_opened hi hcreat hopened).right.entries dir
  rcases listing_opened hi (by decide) (by decide) hopened hdir with
    ⟨id, hlisting⟩
  rw [← hentries] at hfit hshort ⊢
  have hnames := lsNames_page hlisting hfit hshort
    (c := ⟨m, entries, UInt32.ofNat (lsEntries * direntSize)⟩) rfl
  have hlines : (fun i => kprintf (cstr "  %s\n") [i]) = lsLine :=
    funext kprintf_lsLine
  dsimp only
  rw [← hnames, ← hlines, List.flatMap_map]

/-- The first entries of the directory, the last made one first. -/
theorem ls_shows_names {s : FileShell} (h : StoreInv s.vfs) (m : Memory)
    (entries : Nat) {argv : List CStr} {dir : Nat}
    (hdir : s.vfs.pathNode (s.lsPath argv) = some dir)
    (hgranted : s.vfs.OpenGranted (s.lsPath argv))
    (hfit : EntriesFit (s.vfs.inode dir).entries)
    (hshort : forall de, de ∈ (s.vfs.inode dir).entries ->
      de.name.length < nameMax) :
    (s.cmdLs m entries argv).screen =
      s.screen ++ (((s.vfs.inode dir).entries.take lsEntries).map
        Dirent.name).flatMap lsLine := by
  have hcreat : (Fs.oRdonly ||| oDirectory) &&& oCreat = 0 := by decide
  have hopened : 0 ≤ (s.vfs.vfsOpen (s.lsPath argv)
      (Fs.oRdonly ||| oDirectory) 0).1 := by
    rw [vfsOpen_opens_path s.vfs (s.lsPath argv) 0 hcreat]
    exact ⟨hgranted, by rw [hdir]; exact Option.some_ne_none dir⟩
  have hlines := lsLines_opened h.objects hopened hdir hfit hshort m entries
  unfold cmdLs
  dsimp only at hlines ⊢
  rw [if_neg (Int.not_lt.mpr hopened), ← hlines]
  rfl

theorem ls_shows_names_log :
    (cmdLs ⟨[slash], emptyFile, cstr "# "⟩ (fun _ => 0xFF) 64
        [cstr "ls"]).screen = cstr "# " ++ cstr "  log\n" := by
  have hentries : (emptyFile.inode 1).entries = [⟨cstr "log", 5⟩] := by
    decide +kernel
  have hfit : EntriesFit (emptyFile.inode 1).entries := by
    rw [hentries]
    exact ⟨by decide, by decide, by decide⟩
  have hshort : forall de, de ∈ (emptyFile.inode 1).entries ->
      de.name.length < nameMax := by
    rw [hentries]
    decide
  have hgranted : emptyFile.OpenGranted [slash] :=
    ⟨by decide +kernel, by decide +kernel, by decide +kernel⟩
  rw [ls_shows_names storeInv_emptyFile (fun _ => 0xFF) 64 (by decide +kernel)
    hgranted hfit hshort]
  show cstr "# " ++ (((emptyFile.inode 1).entries.take lsEntries).map
    Dirent.name).flatMap lsLine = _
  rw [hentries]
  decide

/--
What `write` wrote without an error is what `cat` shows, after any commands
that leave the file alone, if there is memory to open it.
-/
theorem cat_shows_written {s : FileShell} (h : StoreInv s.vfs)
    {argv later : List CStr} (hargv : FromLine argv) (hthree : 3 ≤ argv.length)
    (hplain : s.vfs.Plain (s.argPath argv))
    (hresults : forall r, r ∈ (s.cmdWrite argv).1 -> 0 ≤ r)
    {commands : List FileCommand}
    (hspares : Meets exec (Spares (s.argPath argv)) (s.cmdWrite argv).2
      commands)
    {t : FileShell} (ht : run exec (s.cmdWrite argv).2 commands = t)
    (htwo : 2 ≤ later.length) (hpath : t.argPath later = s.argPath argv)
    (hgranted : t.vfs.OpenGranted (t.argPath later)) :
    (t.cmdCat later).screen =
      t.screen ++ lineOf (argv.drop 2) ++ cstr "\n" := by
  have hwrote := wrote_cmdWrite h hargv hthree hplain hresults
  have hkept := Meets.invariant (P := fun s' : FileShell =>
    Wrote s'.vfs (s.argPath argv) (lineOf (argv.drop 2)))
    (fun _ _ hs hc => wrote_exec hs hc) hwrote hspares
  rw [ht] at hkept
  have hflat := flatten_writeBuffers (drop_two_ne_nil hthree)
  have hnul := noNul_writeBuffers hargv
  have hlen := length_writeBuffers_lt hargv
  rw [hflat] at hnul hlen
  rw [← hpath] at hkept
  exact cmdCat_shows hkept htwo hgranted hnul hlen

def greeting : List CStr := [cstr "write", cstr "f", cstr "hello", cstr "world"]

/-- A directory, a file in it, and the way to that directory. -/
def elsewhere : List FileCommand :=
  [.mkdir [cstr "mkdir", cstr "d"],
    .write [cstr "write", cstr "d/f", cstr "bye"],
    .cd [cstr "cd", cstr "d"], .cat [cstr "cat", cstr "f"]]

theorem cat_shows_written_greeting :
    ((run exec (onPlainMount.cmdWrite greeting).2 elsewhere).cmdCat
        [cstr "cat", cstr "/f"]).screen =
      cstr "bye\n\n" ++ cstr "hello world\n" ++ cstr "\n" := by
  have hscreen : (run exec (onPlainMount.cmdWrite greeting).2 elsewhere).screen =
      cstr "bye\n\n" := by decide +kernel
  have hline : lineOf (greeting.drop 2) = cstr "hello world\n" := by decide +kernel
  have hspares : Meets exec (Spares (onPlainMount.argPath greeting))
      (onPlainMount.cmdWrite greeting).2 elsewhere :=
    ⟨⟨by decide +kernel, by decide +kernel⟩,
      ⟨⟨by decide, by decide⟩, by decide +kernel, by decide +kernel⟩,
      trivial, trivial, trivial⟩
  rw [← hscreen, ← hline]
  exact cat_shows_written storeInv_plainMount ⟨by decide, by decide⟩
    (by decide) (by decide +kernel) (by decide +kernel) hspares rfl
    (by decide) (by decide +kernel)
    ⟨by decide +kernel, by decide +kernel, by decide +kernel⟩

end FileShell

end User
end EarlnuxOS
