import EarlnuxOS.Fs.Namespace

/-!
# Renaming an entry

`ramfs_rename` writes the new name over the old one in the old directory.  It
does not look at the new directory, nor for an entry that has the new name.
-/

namespace EarlnuxOS
namespace Fs

open Foundation

/-- `strncmp(de->name, name, NAME_MAX) == 0` -/
def Dirent.named (name : CStr) (de : Dirent) : Bool :=
  strncmpEq de.name name nameMax

/--
The loop of `ramfs_rename`.  The last byte of the field stays the NUL that
`ramfs_create` has put there.
-/
def renameFirst (oldName newName : CStr) : List Dirent -> Option (List Dirent)
  | [] => none
  | de :: rest =>
      if de.named oldName then
        some ({ de with name := newName.take nameMax } :: rest)
      else
        (renameFirst oldName newName rest).map (de :: ·)

namespace Vfs

def ramfsRename (v : Vfs) (oldDir : Nat) (oldName : CStr) (_newDir : Nat)
    (newName : CStr) : Int × Vfs :=
  match renameFirst oldName newName (v.inode oldDir).entries with
  | none => (-1, v)
  | some entries =>
      (0, v.modifyInode oldDir (fun node => { node with entries := entries }))

end Vfs

/-!
# What renaming is to do

A directory maps names to inodes; only the first `NAME_MAX` bytes of a name
count.
-/

/-- The inode that a name stands for in a list of entries. -/
def inodeOf (entries : List Dirent) (name : CStr) : Option Nat :=
  (entries.find? (Dirent.named name)).map Dirent.inode

/-- No two entries have one name, and each name fits its field. -/
structure UniqueEntries (entries : List Dirent) : Prop where
  nodup : (entries.map Dirent.name).Nodup
  short : forall de, de ∈ entries -> de.name.length ≤ nameMax

namespace Vfs

def entryOf (v : Vfs) (dir : Nat) (name : CStr) : Option Nat :=
  inodeOf (v.inode dir).entries name

def UniqueNames (v : Vfs) : Prop :=
  forall dir, UniqueEntries (v.inode dir).entries

def SameEntry (dir : Nat) (name : CStr) (dir' : Nat) (name' : CStr) : Prop :=
  dir = dir' ∧ name.take nameMax = name'.take nameMax

structure MovesEntry (v v' : Vfs) (oldDir : Nat) (oldName : CStr)
    (newDir : Nat) (newName : CStr) : Prop where
  arrives : v'.entryOf newDir newName = v.entryOf oldDir oldName
  leaves : ¬ SameEntry oldDir oldName newDir newName ->
    v'.entryOf oldDir oldName = none
  unique : v'.UniqueNames
  /-- Every other entry of every directory is as it was. -/
  others : forall dir name, ¬ SameEntry dir name oldDir oldName ->
    ¬ SameEntry dir name newDir newName ->
    v'.entryOf dir name = v.entryOf dir name

/-- A failed call is one without such an entry, and changes nothing. -/
structure RenameOk (v : Vfs) (oldDir : Nat) (oldName : CStr) (newDir : Nat)
    (newName : CStr) : Prop where
  missing : v.entryOf oldDir oldName = none ->
    v.ramfsRename oldDir oldName newDir newName = (-1, v)
  moves : forall v', v.ramfsRename oldDir oldName newDir newName = (0, v') ->
    MovesEntry v v' oldDir oldName newDir newName

end Vfs

/-!
# Lists of entries
-/

variable {entries : List Dirent}

theorem named_iff {de : Dirent} (hde : de.name.length ≤ nameMax)
    (name : CStr) : de.named name = true <-> de.name = name.take nameMax := by
  unfold Dirent.named strncmpEq
  rw [beq_iff_eq, List.take_of_length_le hde]

theorem inodeOf_iff (h : UniqueEntries entries) (name : CStr) (i : Nat) :
    inodeOf entries name = some i <->
      ⟨name.take nameMax, i⟩ ∈ entries := by
  induction entries with
  | nil =>
      refine iff_of_false (fun heq => ?_) List.not_mem_nil
      cases heq
  | cons de rest ih =>
      have hnodup := List.nodup_cons.mp h.nodup
      have hrest : UniqueEntries rest :=
        ⟨hnodup.right, fun d hd => h.short d (List.mem_cons_of_mem de hd)⟩
      have hde := named_iff (h.short de List.mem_cons_self) name
      unfold inodeOf
      by_cases hname : de.name = name.take nameMax
      · rw [List.find?_cons_of_pos (hde.mpr hname), List.mem_cons]
        constructor
        · intro heq
          rw [← Option.some.inj heq, ← hname]
          exact Or.inl rfl
        · rintro (heq | hmem)
          · rw [← heq]
            rfl
          · refine absurd (List.mem_map.mpr ⟨_, hmem, ?_⟩) hnodup.left
            exact hname.symm
      · rw [List.find?_cons_of_neg (fun heq => hname (hde.mp heq)),
          List.mem_cons]
        refine (ih hrest).trans (or_iff_right ?_).symm
        rintro rfl
        exact hname rfl

theorem inodeOf_eq_none (h : UniqueEntries entries) (name : CStr) :
    inodeOf entries name = none <->
      name.take nameMax ∉ entries.map Dirent.name := by
  rw [Option.eq_none_iff_forall_ne_some]
  constructor
  · intro hnone hmem
    rcases List.mem_map.mp hmem with ⟨de, hde, hname⟩
    refine hnone de.inode ((inodeOf_iff h name de.inode).mpr ?_)
    rw [← hname]
    exact hde
  · intro hnot i hi
    exact hnot (List.mem_map.mpr ⟨_, (inodeOf_iff h name i).mp hi, rfl⟩)

theorem inodeOf_congr {name name' : CStr}
    (h : name.take nameMax = name'.take nameMax) :
    inodeOf entries name = inodeOf entries name' := by
  have hnamed : Dirent.named name = Dirent.named name' := by
    funext de
    unfold Dirent.named strncmpEq
    rw [h]
  unfold inodeOf
  rw [hnamed]

theorem renameFirst_ne_none {oldName : CStr} (newName : CStr) {de : Dirent}
    (hde : de ∈ entries) (hnamed : de.named oldName = true) :
    renameFirst oldName newName entries ≠ none := by
  induction entries with
  | nil => exact absurd hde List.not_mem_nil
  | cons d rest ih =>
      unfold renameFirst
      split
      · exact Option.some_ne_none _
      · rename_i hd
        rw [Ne, Option.map_eq_none_iff]
        rcases List.mem_cons.mp hde with rfl | hmem
        · exact absurd hnamed hd
        · exact ih hmem

theorem renameFirst_some {oldName newName : CStr} {entries' : List Dirent}
    (h : renameFirst oldName newName entries = some entries') :
    exists front de rest, entries = front ++ de :: rest ∧
      de.named oldName = true ∧
      entries' =
        front ++ { de with name := newName.take nameMax } :: rest := by
  induction entries generalizing entries' with
  | nil => cases h
  | cons de rest ih =>
      unfold renameFirst at h
      split at h
      · rename_i hnamed
        cases h
        exact ⟨[], de, rest, rfl, hnamed, rfl⟩
      · rcases Option.map_eq_some_iff.mp h with ⟨rest', hrest, rfl⟩
        rcases ih hrest with ⟨front, d, back, hsplit, hnamed, hback⟩
        refine ⟨de :: front, d, back, ?_, hnamed, ?_⟩
        · rw [hsplit]
          rfl
        · rw [hback]
          rfl

/-!
# One entry with a new name
-/

variable {front rest : List Dirent} {de : Dirent}

theorem UniqueEntries.middle (h : UniqueEntries (front ++ de :: rest)) :
    de.name ∉ (front ++ rest).map Dirent.name ∧
      ((front ++ rest).map Dirent.name).Nodup := by
  have hnodup := h.nodup
  rw [List.map_append, List.map_cons, List.nodup_middle, List.nodup_cons,
    ← List.map_append] at hnodup
  exact hnodup

theorem mem_middle {a d : Dirent} :
    d ∈ front ++ a :: rest <-> d = a ∨ d ∈ front ++ rest := by
  rw [List.mem_append, List.mem_cons, List.mem_append, or_left_comm]

theorem mem_renamed (h : UniqueEntries (front ++ de :: rest)) (name : CStr)
    {d : Dirent} :
    d ∈ front ++ { de with name := name } :: rest <->
      d = { de with name := name } ∨
        d ∈ front ++ de :: rest ∧ d.name ≠ de.name := by
  rw [mem_middle, mem_middle]
  refine or_congr_right ⟨fun hd => ⟨Or.inr hd, fun heq => ?_⟩, ?_⟩
  · exact h.middle.left (List.mem_map.mpr ⟨d, hd, heq⟩)
  · rintro ⟨rfl | hd, hne⟩
    · exact absurd rfl hne
    · exact hd

theorem UniqueEntries.renamed (h : UniqueEntries (front ++ de :: rest))
    {name : CStr} (hlen : name.length ≤ nameMax)
    (hfree : name ∉ (front ++ de :: rest).map Dirent.name) :
    UniqueEntries (front ++ { de with name := name } :: rest) where
  nodup := by
    rw [List.map_append, List.map_cons, List.nodup_middle, List.nodup_cons,
      ← List.map_append]
    refine ⟨fun hmem => hfree ?_, h.middle.right⟩
    rcases List.mem_map.mp hmem with ⟨d, hd, hname⟩
    exact List.mem_map.mpr ⟨d, mem_middle.mpr (Or.inr hd), hname⟩
  short := by
    intro d hd
    rcases (mem_renamed h name).mp hd with rfl | ⟨hd, _⟩
    · exact hlen
    · exact h.short d hd

/-- A directory without the new name has it afterwards instead of the old. -/
theorem inodeOf_renamed (h : UniqueEntries (front ++ de :: rest))
    {newName : CStr}
    (hfree : newName.take nameMax ∉
      (front ++ de :: rest).map Dirent.name) (name : CStr) :
    inodeOf (front ++ { de with name := newName.take nameMax } :: rest) name =
      if name.take nameMax = newName.take nameMax then some de.inode
      else if name.take nameMax = de.name then none
      else inodeOf (front ++ de :: rest) name := by
  have hunique := h.renamed (List.length_take_le nameMax newName) hfree
  ext i
  rw [inodeOf_iff hunique, mem_renamed h, Dirent.mk.injEq]
  have hmem : newName.take nameMax = name.take nameMax ->
      (⟨name.take nameMax, i⟩ : Dirent) ∉ front ++ de :: rest :=
    fun heq hd => hfree (List.mem_map.mpr ⟨_, hd, heq.symm⟩)
  split
  · rename_i hnew
    rw [Option.some.injEq, or_iff_left fun hd => hmem hnew.symm hd.left,
      and_iff_right hnew, eq_comm]
  · rename_i hnew
    rw [or_iff_right fun hd => hnew hd.left]
    split
    · rename_i hold
      exact iff_of_false (fun hd => hd.right hold) (fun heq => by cases heq)
    · rename_i hold
      rw [and_iff_left hold, inodeOf_iff h]

theorem UniqueEntries.free {name : CStr}
    (h : UniqueEntries (front ++ { de with name := name } :: rest))
    (hne : name ≠ de.name) : name ∉ (front ++ de :: rest).map Dirent.name := by
  intro hmem
  rcases List.mem_map.mp hmem with ⟨d, hd, hname⟩
  rcases mem_middle.mp hd with rfl | hd
  · exact hne hname.symm
  · exact h.middle.left (List.mem_map.mpr ⟨d, hd, hname⟩)

theorem inodeOf_ne_none {d : Dirent} (hd : d ∈ entries)
    {name : CStr} (hname : d.name = name.take nameMax) :
    inodeOf entries name ≠ none := by
  unfold inodeOf
  rw [Ne, Option.map_eq_none_iff, List.find?_eq_none]
  intro hnone
  refine hnone d hd ?_
  unfold Dirent.named strncmpEq
  rw [hname, List.take_take, Nat.min_self, beq_self_eq_true]

namespace Vfs

variable {v v' : Vfs}

/-!
# What a call does
-/

theorem entryOf_congr {dir : Nat} {name name' : CStr}
    (h : name.take nameMax = name'.take nameMax) :
    v.entryOf dir name = v.entryOf dir name' :=
  inodeOf_congr h

/-- A call fails and changes nothing, or it gives one entry its new name. -/
theorem ramfsRename_cases (v : Vfs) (oldDir : Nat) (oldName : CStr)
    (newDir : Nat) (newName : CStr) :
    v.entryOf oldDir oldName = none ∧
        v.ramfsRename oldDir oldName newDir newName = (-1, v) ∨
      exists front de rest,
        (v.inode oldDir).entries = front ++ de :: rest ∧
          de.named oldName = true ∧
          v.ramfsRename oldDir oldName newDir newName =
            (0, v.modifyInode oldDir (fun node =>
              { node with
                entries := front ++
                  { de with name := newName.take nameMax } :: rest })) := by
  unfold ramfsRename
  cases hloop : renameFirst oldName newName (v.inode oldDir).entries with
  | none =>
      refine Or.inl ⟨?_, rfl⟩
      by_contra hsome
      rcases Option.ne_none_iff_exists'.mp hsome with ⟨i, hi⟩
      rcases Option.map_eq_some_iff.mp hi with ⟨de, hfind, _⟩
      exact renameFirst_ne_none newName (List.mem_of_find?_eq_some hfind)
        (List.find?_some hfind) hloop
  | some entries' =>
      rcases renameFirst_some hloop with
        ⟨front, de, rest, hsplit, hnamed, hentries⟩
      refine Or.inr ⟨front, de, rest, hsplit, hnamed, ?_⟩
      rw [hentries]

theorem entries_assign {dir : Nat} {old : List Dirent}
    (new : List Dirent) (hold : (v.inode dir).entries = old) (hne : old ≠ [])
    (j : Nat) :
    ((v.modifyInode dir (fun node => { node with entries := new })).inode
      j).entries = if j = dir then new else (v.inode j).entries := by
  have hsome : (v.inodes dir).isSome = true := by
    cases hdir : v.inodes dir with
    | some node => rfl
    | none =>
        unfold inode at hold
        rw [hdir] at hold
        exact absurd hold.symm hne
  rw [inode_modifyInode]
  by_cases hj : j = dir
  · rw [if_pos ⟨hj, hsome⟩, if_pos hj]
  · rw [if_neg fun h => hj h.left, if_neg hj]

theorem modifyInode_same (v : Vfs) (dir : Nat) :
    v.modifyInode dir (fun node =>
      { node with entries := (v.inode dir).entries }) = v := by
  have hsame : (v.inodes dir).map (fun node =>
      { node with entries := (v.inode dir).entries }) = v.inodes dir := by
    unfold inode
    cases v.inodes dir <;> rfl
  unfold modifyInode
  rw [hsame, Function.update_eq_self]

/-!
# When renaming moves one entry
-/

/--
There is no such entry, or the directories are one and the new name is that of
the entry or of none.
-/
def RenameSound (v : Vfs) (oldDir : Nat) (oldName : CStr) (newDir : Nat)
    (newName : CStr) : Prop :=
  v.entryOf oldDir oldName = none ∨ oldDir = newDir ∧
    (oldName.take nameMax = newName.take nameMax ∨
      v.entryOf newDir newName = none)

section Renamed

variable {oldDir newDir : Nat} {oldName newName : CStr}
variable {front rest : List Dirent} {de : Dirent}

theorem entryOf_assign {old : List Dirent} (new : List Dirent)
    (hold : (v.inode oldDir).entries = old) (hne : old ≠ []) (dir : Nat)
    (name : CStr) :
    (v.modifyInode oldDir (fun node => { node with entries := new })).entryOf
      dir name =
      if dir = oldDir then inodeOf new name else v.entryOf dir name := by
  unfold entryOf
  rw [entries_assign new hold hne]
  split <;> rfl

theorem movesEntry_same (h : v.UniqueNames)
    (hkey : oldName.take nameMax = newName.take nameMax) :
    MovesEntry v v oldDir oldName oldDir newName where
  arrives := (entryOf_congr hkey).symm
  leaves := fun hne => absurd ⟨rfl, hkey⟩ hne
  unique := h
  others := fun _ _ _ _ => rfl

theorem movesEntry_free (h : v.UniqueNames)
    (hsplit : (v.inode oldDir).entries = front ++ de :: rest)
    (hname : de.name = oldName.take nameMax)
    (hfree : newName.take nameMax ∉ (front ++ de :: rest).map Dirent.name) :
    MovesEntry v
      (v.modifyInode oldDir (fun node =>
        { node with
          entries := front ++
            { de with name := newName.take nameMax } :: rest }))
      oldDir oldName oldDir newName := by
  have hunique : UniqueEntries (front ++ de :: rest) := hsplit ▸ h oldDir
  have hentry := entryOf_assign (front ++
    { de with name := newName.take nameMax } :: rest) hsplit (by simp)
  have hne : oldName.take nameMax ≠ newName.take nameMax := by
    rw [← hname]
    exact fun heq => hfree (List.mem_map.mpr
      ⟨de, mem_middle.mpr (Or.inl rfl), heq⟩)
  have hold : v.entryOf oldDir oldName = some de.inode := by
    unfold entryOf
    rw [hsplit, inodeOf_iff hunique, ← hname]
    exact mem_middle.mpr (Or.inl rfl)
  refine ⟨?_, fun _ => ?_, ?_, ?_⟩
  · rw [hentry, if_pos rfl, inodeOf_renamed hunique hfree, if_pos rfl, hold]
  · rw [hentry, if_pos rfl, inodeOf_renamed hunique hfree, if_neg hne,
      if_pos hname.symm]
  · intro dir
    rw [entries_assign _ hsplit (by simp)]
    split
    · exact hunique.renamed (List.length_take_le _ _) hfree
    · exact h dir
  · intro dir name hother hnew
    rw [hentry]
    split
    · rename_i hdir
      subst hdir
      rw [inodeOf_renamed hunique hfree, if_neg fun heq => hnew ⟨rfl, heq⟩,
        if_neg fun heq => hother ⟨rfl, heq.trans hname⟩]
      unfold entryOf
      rw [hsplit]
    · rfl

/-- A call that moves the entry stays in one directory and finds no new name. -/
theorem MovesEntry.sound (h : v.UniqueNames)
    (hsplit : (v.inode oldDir).entries = front ++ de :: rest)
    (hname : de.name = oldName.take nameMax)
    (hmoves : MovesEntry v
      (v.modifyInode oldDir (fun node =>
        { node with
          entries := front ++
            { de with name := newName.take nameMax } :: rest }))
      oldDir oldName newDir newName) :
    oldDir = newDir ∧ (oldName.take nameMax = newName.take nameMax ∨
      v.entryOf newDir newName = none) := by
  have hunique : UniqueEntries (front ++ de :: rest) := hsplit ▸ h oldDir
  have hentry := entryOf_assign (front ++
    { de with name := newName.take nameMax } :: rest) hsplit (by simp)
  have hthere : inodeOf (front ++
      { de with name := newName.take nameMax } :: rest) newName ≠ none :=
    inodeOf_ne_none (mem_middle.mpr (Or.inl rfl)) rfl
  have hfree : oldName.take nameMax ≠ newName.take nameMax ->
      v.entryOf oldDir newName = none := by
    intro hne
    have hnew := hmoves.unique oldDir
    rw [entries_assign _ hsplit (by simp), if_pos rfl] at hnew
    unfold entryOf
    rw [hsplit, inodeOf_eq_none hunique]
    exact hnew.free (hname ▸ hne.symm)
  have hdir : oldDir = newDir := by
    by_contra hdir
    have hleft := hmoves.leaves fun hsame => hdir hsame.left
    rw [hentry, if_pos rfl] at hleft
    have hne : oldName.take nameMax ≠ newName.take nameMax :=
      fun heq => hthere ((inodeOf_congr heq).symm.trans hleft)
    have hother := hmoves.others oldDir newName
      (fun hsame => hne hsame.right.symm) (fun hsame => hdir hsame.left)
    rw [hentry, if_pos rfl, hfree hne] at hother
    exact hthere hother
  refine ⟨hdir, ?_⟩
  by_cases hne : oldName.take nameMax = newName.take nameMax
  · exact Or.inl hne
  · exact Or.inr (hdir ▸ hfree hne)

/-- For every two directories and names. -/
theorem rename_iff (h : v.UniqueNames) (oldDir : Nat) (oldName : CStr)
    (newDir : Nat) (newName : CStr) :
    RenameOk v oldDir oldName newDir newName <->
      RenameSound v oldDir oldName newDir newName := by
  rcases v.ramfsRename_cases oldDir oldName newDir newName with
    ⟨hnone, hcall⟩ | ⟨front, de, rest, hsplit, hnamed, hcall⟩
  · refine iff_of_true ⟨fun _ => hcall, fun v' hv' => ?_⟩ (Or.inl hnone)
    rw [hcall] at hv'
    cases hv'
  have hunique : UniqueEntries (front ++ de :: rest) := hsplit ▸ h oldDir
  have hname := (named_iff (hunique.short de (mem_middle.mpr (Or.inl rfl)))
    oldName).mp hnamed
  have hold : v.entryOf oldDir oldName ≠ none := by
    unfold entryOf
    rw [hsplit]
    exact inodeOf_ne_none (mem_middle.mpr (Or.inl rfl)) hname
  constructor
  · intro hok
    exact Or.inr ((hok.moves _ hcall).sound h hsplit hname)
  · rintro (hnone | ⟨rfl, hkey⟩)
    · exact absurd hnone hold
    refine ⟨fun hnone => absurd hnone hold, fun v' hv' => ?_⟩
    rw [hcall] at hv'
    cases hv'
    by_cases hsame : oldName.take nameMax = newName.take nameMax
    · have hfield : { de with name := newName.take nameMax } = de := by
        rw [← hsame, ← hname]
      rw [hfield, ← hsplit]
      have hnothing : v.modifyInode oldDir (fun node =>
          { node with entries := (v.inode oldDir).entries }) = v :=
        modifyInode_same v oldDir
      rw [hnothing]
      exact movesEntry_same h hsame
    · have hnone := hkey.resolve_left hsame
      unfold entryOf at hnone
      rw [hsplit, inodeOf_eq_none hunique] at hnone
      exact movesEntry_free h hsplit hname hnone

end Renamed

def twoDirs : Vfs :=
  { plainMount with
    inodes := fun id =>
      match id with
      | 1 => some
          { Inode.blank with
            mode := sIfdir ||| 0o755
            nlinks := 3
            entries := [⟨cstr "b", 3⟩, ⟨cstr "a", 2⟩] }
      | 2 => some { Inode.blank with mode := sIfdir ||| 0o755 }
      | 3 => some { Inode.blank with mode := sIfdir ||| 0o755 }
      | _ => none }

theorem twoDirs_unique : twoDirs.UniqueNames := by
  have hempty : UniqueEntries [] := ⟨List.nodup_nil, fun _ h => by cases h⟩
  intro dir
  match dir with
  | 0 => exact hempty
  | 1 => exact ⟨by decide, by decide⟩
  | 2 => exact hempty
  | 3 => exact hempty
  | _ + 4 => exact hempty

theorem rename_iff_twoDirs :
    RenameOk twoDirs 1 (cstr "a") 1 (cstr "c") <->
      RenameSound twoDirs 1 (cstr "a") 1 (cstr "c") :=
  rename_iff twoDirs_unique 1 (cstr "a") 1 (cstr "c")

/-- Moving `/a` to `/b/c` leaves it in the root, and `/b` empty. -/
theorem rename_stays :
    (twoDirs.ramfsRename 1 (cstr "a") 3 (cstr "c")).1 = 0 ∧
      twoDirs.UniqueNames ∧
      ¬ RenameOk twoDirs 1 (cstr "a") 3 (cstr "c") := by
  refine ⟨by decide +kernel, twoDirs_unique, fun hok => ?_⟩
  have harrives := (hok.moves _ rfl).arrives
  exact absurd harrives (by decide +kernel)

end Vfs

end Fs
end EarlnuxOS
