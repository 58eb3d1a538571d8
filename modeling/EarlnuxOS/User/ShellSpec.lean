import EarlnuxOS.User.Tokenize

/-!
# What the shell does for a line

`tokenize` finds the words of the line, so that a line with a word in it is
carried out from its own slots alone.  For a line of blanks `shell_run` still
reads the first slot.
-/

namespace EarlnuxOS
namespace User

open Foundation Fs

/-!
# The words become arguments
-/

/-- Behind the position, the words were made the next arguments. -/
structure AddsArgs (t t' : Tokens) (p : Nat) (ws : List CStr) : Prop where
  argc : t'.argc = t.argc + ws.length
  before : forall x, x < p -> t'.input x = t.input x
  old : forall i, i < t.argc -> t'.argv i = t.argv i
  new : forall i w, ws[i]? = some w -> exists q, p ≤ q ∧
    t'.argv (t.argc + i) = some q ∧ HoldsString t'.input q w
  short : forall w, w ∈ ws -> w.length < shellBufSize

theorem tokenizeLoop_spec {max steps p : Nat} {t : Tokens} {s : CStr}
    (h : HoldsString t.input p s) (hsteps : s.length ≤ steps)
    (hs : s.length < shellBufSize) :
    AddsArgs t (tokenizeLoop max steps p t) p
      ((words blank s).take (max - t.argc)) := by
  rcases exists_splitsRest max h.pointsInto with ⟨t', hrest⟩
  have hadds := hrest.adds
  rw [hrest.loop steps hsteps hs]
  constructor
  · exact hadds.argc
  · exact hadds.before
  · exact hadds.old
  · intro i w hw
    rcases hadds.new i w hw with ⟨q, hpq, _, hslot, hholds⟩
    exact ⟨q, hpq, hslot, hholds⟩
  · intro w hw
    rcases List.mem_iff_getElem?.mp hw with ⟨i, hi⟩
    rcases hadds.new i w hi with ⟨q, hpq, hstop, _, _⟩
    omega

theorem tokenize_spec {input : Memory} {s : CStr}
    (argv : Nat -> Option Nat) (h : HoldsString input 0 s)
    (hs : s.length < shellBufSize) :
    AddsArgs ⟨input, argv, 0⟩ (tokenize input argv maxArgs) 0
      ((words blank s).take maxArgs) :=
  tokenizeLoop_spec h (Nat.le_of_lt hs) hs

section

variable {input : Memory} {argv : Nat -> Option Nat} {t : Tokens} {p : Nat}
  {ws : List CStr}

theorem AddsArgs.argc_eq (h : AddsArgs ⟨input, argv, 0⟩ t p ws) :
    t.argc = ws.length :=
  h.argc.trans (Nat.zero_add ws.length)

theorem AddsArgs.arg (h : AddsArgs ⟨input, argv, 0⟩ t p ws) {i : Nat}
    {w : CStr} (hw : ws[i]? = some w) : t.arg i = some w := by
  rcases h.new i w hw with ⟨q, _, hargv, hq⟩
  have hslot : t.argv i = some q := by
    rw [← hargv]
    exact congrArg t.argv (Nat.zero_add i).symm
  have hshort := Nat.le_of_lt (h.short w (List.mem_of_getElem? hw))
  rw [Tokens.arg, hslot, Option.map_some, hq.stringAt_eq hshort]

theorem AddsArgs.args (h : AddsArgs ⟨input, argv, 0⟩ t p ws) :
    t.args = ws.map some := by
  apply List.ext_getElem
  · simp [Tokens.args, h.argc_eq]
  · intro i hi hi'
    rw [List.length_map] at hi'
    have harg := h.arg (List.getElem?_eq_getElem hi')
    simp [Tokens.args, harg]

end

/-!
# One line
-/

theorem Command.argvReads_lt {command : Command} {argc i : Nat}
    (h : i ∈ command.argvReads argc) : i < argc := by
  cases command <;> simp [Command.argvReads] at h <;> omega

section

variable (rawInput : CStr) (t : Tokens)

theorem dispatch_line : (dispatch rawInput t).line = rawInput := by
  unfold dispatch
  split
  · rfl
  split
  · rfl
  split <;> rfl

theorem dispatch_argc : (dispatch rawInput t).argc = t.argc := by
  unfold dispatch
  split
  · rfl
  split
  · rfl
  split <;> rfl

theorem dispatch_first : 0 ∈ (dispatch rawInput t).argvReads := by
  unfold dispatch
  split
  · exact List.mem_cons_self
  split
  · exact List.mem_cons_self
  split <;> exact List.mem_cons_self

end

theorem dispatch_argvReads (rawInput : CStr) {t : Tokens} (h : 0 < t.argc) :
    forall i, i ∈ (dispatch rawInput t).argvReads -> i < t.argc := by
  have hzero : forall i, i ∈ [0] -> i < t.argc :=
    List.forall_mem_singleton.mpr h
  unfold dispatch
  split
  · exact hzero
  split
  · exact hzero
  split
  · exact List.forall_mem_cons.mpr ⟨h, fun i hi => Command.argvReads_lt hi⟩
  · exact hzero

theorem dispatch_good_iff {input : Memory} {argv : Nat -> Option Nat}
    {t : Tokens} {line : CStr} (hline : line ≠ [])
    (h : AddsArgs ⟨input, argv, 0⟩ t 0 ((words blank line).take maxArgs)) :
    (dispatch line t).Good <-> ¬ BlankLine line := by
  cases hwords : (words blank line).take maxArgs with
  | nil =>
      have hnil : words blank line = [] := by
        rcases List.take_eq_nil_iff.mp hwords with hmax | hnil
        · cases hmax
        · exact hnil
      have hargc := h.argc_eq
      rw [hwords] at hargc
      refine iff_of_false ?_ (not_not.mpr ⟨hline, words_eq_nil_iff.mp hnil⟩)
      intro hgood
      have hread := hgood.argvReads 0 (dispatch_first line t)
      rw [dispatch_argc, hargc] at hread
      exact absurd hread (Nat.not_lt_zero 0)
  | cons w ws =>
      have hnonblank : ¬ BlankLine line := by
        rintro ⟨_, hall⟩
        rw [words_eq_nil_iff.mpr hall, List.take_nil] at hwords
        cases hwords
      rw [hwords] at h
      have hargc : 0 < t.argc := by
        rw [h.argc_eq]
        exact Nat.zero_lt_succ ws.length
      have hfirst : t.arg 0 = some w := h.arg rfl
      refine iff_of_true ⟨?_, ?_⟩ hnonblank
      · rw [dispatch_line, actionOf, hwords, dispatch, hfirst]
        dsimp only
        split
        · rfl
        · cases findCommand w with
          | none => rfl
          | some command => rw [← h.args]
      · rw [dispatch_argc]
        exact dispatch_argvReads line hargc

/-!
# Runs
-/

namespace Shell

structure Typing (s : Shell) : Prop where
  pos : s.pos < shellBufSize - 1
  nul : 0 ∉ s.typed

theorem typing_boot (input : Memory) : Typing (boot input) where
  pos := show 0 < shellBufSize - 1 by decide
  nul := by simp [typed, boot, readBytes]

theorem typed_store (s : Shell) (c : UInt8) :
    typed { s with input := storeByte s.input s.pos c, pos := s.pos + 1 } =
      s.typed ++ [c] := by
  have hnext := readBytes_storeByte_next s.input 0 s.pos c
  rw [Nat.zero_add] at hnext
  exact hnext

theorem typed_erase (s : Shell) :
    typed { s with pos := s.pos - 1 } = s.typed.dropLast :=
  readBytes_dropLast s.input 0 s.pos

theorem readKey_records (s : Shell) (c : UInt8) :
    (s.readKey c).2.records = s.records := by
  unfold readKey
  split
  · rfl
  split
  · rfl
  split <;> rfl

theorem Typing.readKey {s : Shell} (h : Typing s) (c : UInt8) :
    (s.readKey c).2.pos < shellBufSize ∧ 0 ∉ (s.readKey c).2.typed ∧
      ((s.readKey c).1 = false -> Typing (s.readKey c).2) := by
  have hpos : s.pos < shellBufSize :=
    Nat.lt_of_lt_of_le h.pos (Nat.sub_le shellBufSize 1)
  unfold Shell.readKey
  split
  · exact ⟨hpos, h.nul, fun hf => by cases hf⟩
  split
  · have hnul : 0 ∉ typed { s with pos := s.pos - 1 } := by
      rw [typed_erase]
      exact fun hmem => h.nul (List.mem_of_mem_dropLast hmem)
    have hle : s.pos - 1 ≤ s.pos := Nat.sub_le s.pos 1
    exact ⟨Nat.lt_of_le_of_lt hle hpos, hnul,
      fun _ => ⟨Nat.lt_of_le_of_lt hle h.pos, hnul⟩⟩
  split
  · rename_i hprint
    have hc : c ≠ 0 := by
      rintro rfl
      exact absurd hprint (by decide)
    have hnul : 0 ∉ typed { s with
        input := storeByte s.input s.pos c, pos := s.pos + 1 } := by
      rw [typed_store, List.mem_append, List.mem_singleton, not_or]
      exact ⟨h.nul, Ne.symm hc⟩
    refine ⟨?_, hnul, ?_⟩
    · have hroom := h.pos
      show s.pos + 1 < shellBufSize
      omega
    · intro hroom
      exact ⟨Nat.not_le.mp (of_decide_eq_false hroom), hnul⟩
  · exact ⟨hpos, h.nul, fun _ => h⟩

theorem runLine_records {s : Shell} (hpos : s.pos < shellBufSize)
    (hnul : 0 ∉ s.typed) :
    exists r, s.runLine.records = s.records ++ [r] ∧ r.line = s.typed ∧
      (r.Good <-> ¬ BlankLine s.typed) := by
  have hstring := holdsString_readBytes hnul
  rw [Nat.zero_add] at hstring
  have hlen : s.typed.length = s.pos := length_readBytes _ _ _
  unfold runLine
  split
  · rename_i hzero
    have hnil : s.typed = [] := List.length_eq_zero_iff.mp (hlen.trans hzero)
    rw [hnil]
    refine ⟨_, rfl, rfl, iff_of_true ⟨rfl, List.forall_mem_nil _⟩ ?_⟩
    exact fun hblank => hblank.left rfl
  · rename_i hpos'
    have hline : s.typed ≠ [] := fun hnil => hpos' (by rw [← hlen, hnil]; rfl)
    have hshort : s.typed.length < shellBufSize := hlen.symm ▸ hpos
    have hraw : stringAt (storeByte s.input s.pos 0) shellBufSize 0 = s.typed :=
      hstring.stringAt_eq (Nat.le_of_lt hshort)
    dsimp only
    rw [hraw]
    exact ⟨_, rfl, dispatch_line _ _,
      dispatch_good_iff hline (tokenize_spec s.argv hstring hshort)⟩

theorem runLine_typing (s : Shell) : Typing s.runLine := by
  have hzero : s.runLine.pos = 0 := by
    unfold runLine
    split
    · assumption
    · rfl
  refine ⟨by rw [hzero]; decide, ?_⟩
  unfold typed
  rw [hzero]
  exact List.not_mem_nil

theorem Typing.exec {s : Shell} (h : Typing s) (c : UInt8) :
    Typing (s.exec c) := by
  unfold Shell.exec
  split
  · exact h
  dsimp only
  split
  · exact runLine_typing _
  · rename_i hmore
    exact (h.readKey c).right.right (Bool.eq_false_of_not_eq_true hmore)

theorem shellReadline_run {s : Shell} {keys line rest : CStr}
    (h : Typing s) (hret : s.returned = false)
    (hread : readKeys (fun c => c == newline || c == carriageReturn)
      (fun c => c == backspace || c == delete) shellBufSize keys s.typed =
        some (line, rest)) :
    exists first r, keys = first ++ rest ∧ r.line = line ∧
      (run Shell.exec s first).records = s.records ++ [r] := by
  induction keys generalizing s with
  | nil =>
      have hroom : s.typed.length < sub32 shellBufSize 1 := by
        rw [typed, length_readBytes]
        exact h.pos
      rw [readKeys, if_pos hroom] at hread
      cases hread
  | cons c keys ih =>
      have hroom : s.typed.length < sub32 shellBufSize 1 := by
        rw [typed, length_readBytes]
        exact h.pos
      have hnext := h.exec c
      have hturn := h.readKey c
      have hrun : Shell.exec s c =
          if (s.readKey c).1 then (s.readKey c).2.runLine
          else (s.readKey c).2 := if_neg (hret ▸ Bool.false_ne_true)
      -- The keys behind one that does not end the line.
      have hmore : (s.readKey c).1 = false -> (s.readKey c).2.returned = false ->
          readKeys (fun c => c == newline || c == carriageReturn)
            (fun c => c == backspace || c == delete) shellBufSize keys
            (s.readKey c).2.typed = some (line, rest) ->
          exists first r, c :: keys = first ++ rest ∧ r.line = line ∧
            (run Shell.exec s first).records = s.records ++ [r] := by
        intro hfalse hret' hread'
        rw [hfalse, if_neg Bool.false_ne_true] at hrun
        rw [hrun] at hnext
        rcases ih hnext hret' hread' with ⟨first, r, hkeys, hline, hrecords⟩
        refine ⟨c :: first, r, by rw [hkeys]; rfl, hline, ?_⟩
        rw [run_cons, hrun, hrecords, readKey_records]
      have hlast : (s.readKey c).1 = true -> line = (s.readKey c).2.typed ->
          rest = keys -> exists first r, c :: keys = first ++ rest ∧
            r.line = line ∧
              (run Shell.exec s first).records = s.records ++ [r] := by
        intro htrue hline hrest
        rw [htrue, if_pos rfl] at hrun
        rcases runLine_records hturn.left hturn.right.left with
          ⟨r, hrecords, hr, _⟩
        refine ⟨[c], r, by rw [hrest]; rfl, hr.trans hline.symm, ?_⟩
        rw [run_cons, run_nil, hrun, hrecords, readKey_records]
      unfold readKeys at hread
      rw [if_pos hroom] at hread
      unfold Shell.readKey at hmore hlast
      split at hread
      · rename_i hend
        rw [if_pos hend] at hlast
        cases hread
        exact hlast rfl rfl rfl
      rename_i hend
      rw [if_neg hend] at hmore hlast
      split at hread
      · rename_i herase
        rw [if_pos herase] at hmore
        exact hmore rfl hret ((typed_erase s).symm ▸ hread)
      rename_i herase
      rw [if_neg herase] at hmore hlast
      split at hread
      · rename_i hprint
        rw [if_pos hprint] at hmore hlast
        rw [← typed_store] at hread
        by_cases hfull : shellBufSize - 1 ≤ s.pos + 1
        · rw [readKeys_full keys
            (by rw [typed, length_readBytes]; exact hfull)] at hread
          cases hread
          exact hlast (decide_eq_true hfull) rfl rfl
        · exact hmore (decide_eq_false hfull) hret hread
      · rename_i hprint
        rw [if_neg hprint] at hmore
        exact hmore rfl hret hread

structure AllGood (s : Shell) : Prop where
  typing : Typing s
  records : forall r, r ∈ s.records -> r.Good

theorem exec_iff (s : Shell) (c : UInt8) (h : AllGood s) :
    NoBlankLine s c <-> AllGood (s.exec c) := by
  have hnext := h.typing.exec c
  unfold NoBlankLine Shell.exec at *
  cases hret : s.returned with
  | true =>
      rw [if_pos rfl]
      exact iff_of_true (fun hf => by cases hf) h
  | false =>
      rw [hret, if_neg Bool.false_ne_true] at hnext
      rw [if_neg Bool.false_ne_true]
      dsimp only at hnext ⊢
      cases hend : (s.readKey c).1 with
      | false =>
          rw [hend, if_neg Bool.false_ne_true] at hnext
          rw [if_neg Bool.false_ne_true]
          refine iff_of_true (fun _ hf => by cases hf) ⟨hnext, ?_⟩
          rw [readKey_records]
          exact h.records
      | true =>
          rw [hend, if_pos rfl] at hnext
          rw [if_pos rfl]
          have hread := h.typing.readKey c
          rcases runLine_records hread.left hread.right.left with
            ⟨r, hrecords, _, hgood⟩
          rw [readKey_records] at hrecords
          constructor
          · intro hline
            refine ⟨hnext, ?_⟩
            rw [hrecords, List.forall_mem_append, List.forall_mem_singleton]
            exact ⟨h.records, hgood.mpr (hline rfl rfl)⟩
          · intro hall _ _
            have hlast : r ∈ (s.readKey c).2.runLine.records := by
              rw [hrecords]
              exact List.mem_append_right _ List.mem_cons_self
            exact hgood.mp (hall.records r hlast)

theorem exec_records (s : Shell) (c : UInt8) :
    s.records <+: (s.exec c).records := by
  unfold Shell.exec
  split
  · exact List.prefix_rfl
  dsimp only
  rw [← readKey_records s c]
  split
  · unfold runLine
    split <;> exact List.prefix_append _ _
  · exact List.prefix_rfl

theorem run_records (s : Shell) (keys : CStr) :
    s.records <+: (run Shell.exec s keys).records := by
  induction keys generalizing s with
  | nil => exact List.prefix_rfl
  | cons c keys ih => exact (exec_records s c).trans (ih (s.exec c))

/--
Whatever is typed, each line of a run is carried out for its own words alone,
from the slots they fill, exactly when no line of the run is blank.
-/
theorem lines_decide_iff (input : Memory) (keys : CStr) :
    (forall r, r ∈ (run Shell.exec (boot input) keys).records -> r.Good) <->
      Meets Shell.exec NoBlankLine (boot input) keys := by
  have hboot : AllGood (boot input) :=
    ⟨typing_boot input, List.forall_mem_nil _⟩
  rw [meets_iff_always exec_iff hboot]
  constructor
  · intro hall first hfirst
    have htyping : Typing (run Shell.exec (boot input) first) :=
      (meets_true Shell.exec (boot input) first).invariant
        (fun s c h _ => h.exec c) (typing_boot input)
    refine ⟨htyping, fun r hr => hall r ?_⟩
    rcases hfirst with ⟨rest, hkeys⟩
    rw [← hkeys, run_append]
    exact (run_records _ rest).subset hr
  · exact fun halways => (halways keys List.prefix_rfl).records

/-- Two blanks in front of `ls`, and a line of one blank. -/
theorem blank_line_repeats :
    ¬ forall (input : Memory) (keys : CStr), forall r,
      r ∈ (run Shell.exec (boot input) keys).records -> r.Good := by
  intro hall
  have hline : forall r, r ∈ (run Shell.exec (boot fun _ => 0)
      (cstr "  ls\n \n")).records -> r.action = actionOf r.line :=
    fun r hr => (hall _ _ r hr).action
  revert hline
  decide +kernel

end Shell
end User
end EarlnuxOS
