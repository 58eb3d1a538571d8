import EarlnuxOS.Types
import EarlnuxOS.Foundation.ByteRuns
import EarlnuxOS.Lib.PrintfAgreement

/-!
# Printing into memory

`sbuf_t` and `kvsnprintf` of `kernel/lib/printf.c` with the pointers as they
are: all that the loop does to the buffer goes through `sbuf_putchar`, one
character after the other.  So a call stores a front part of a text in which
neither the buffer nor its size has a part.
-/

namespace EarlnuxOS
namespace Lib

open Foundation Fs

universe u

/-!
# The loop over any sink
-/

section Sinks

variable {sink : Type u} (put : sink -> UInt8 -> sink)

/-- `for (char *p = numbuf; *p; p++) put(*p);` -/
def puts (b : sink) (s : CStr) : sink := s.foldl put b

/-- The switch of `kvsnprintf`, with the function that takes its characters. -/
def putSwitch (a : VarArgs) (conv : UInt8) (isLong : Bool) (args : Nat)
    (b : sink) : sink × Nat :=
  if conv = convD ∨ conv = convI then
    let w := a.word args
    if negative w then
      (puts put (put b 0x2D) (uintToStr (0 - w) 10), args + 1)
    else
      (puts put b (uintToStr w 10), args + 1)
  else if conv = convU then
    if isLong then (puts put b (uint64ToStr (a.long args) 10), args + 2)
    else (puts put b (uintToStr (a.word args) 10), args + 1)
  else if conv = convX ∨ conv = convUpperX then
    if isLong then (puts put b (uint64ToStr (a.long args) 16), args + 2)
    else (puts put b (uintToStr (a.word args) 16), args + 1)
  else if conv = convC then
    (put b (a.word args).toUInt8, args + 1)
  else if conv = convS then
    (puts put b (a.str args), args + 1)
  else if conv = percent then
    (put b percent, args)
  else
    (put b questionMark, args)

/-- The loop of `kvsnprintf`, up to the end of the format. -/
def putLoop (a : VarArgs) : Nat -> CStr -> Nat -> sink -> sink
  | 0, _, _, b => b
  | steps + 1, fmt, args, b =>
      match fmt with
      | [] => b
      | c :: fmt =>
          if c ≠ percent then
            putLoop a steps fmt args (put b c)
          else if fmt = [] then
            b
          else
            match lengthModifier (skipWidth fmt) with
            | (_, []) => put b questionMark
            | (isLong, conv :: fmt) =>
                let done := putSwitch put a conv isLong args b
                putLoop a steps fmt done.2 done.1

end Sinks

/-!
# The buffer
-/

/-- `sbuf_t`, and the memory that it points into. -/
structure SBuf where
  mem : Memory
  p : Nat
  stop : Nat

def SBuf.putchar (b : SBuf) (c : UInt8) : SBuf :=
  if b.p < sub32 b.stop 1 then
    { b with
      mem := storeByte b.mem b.p c
      p := add32 b.p 1 }
  else b

/-- `kvsnprintf`: memory after it, and the `int` it returns. -/
def kvsnprintfAt (a : VarArgs) (m : Memory) (buf n : Nat) (fmt : CStr) :
    Memory × Int32 :=
  if buf = 0 ∨ n = 0 then (m, 0)
  else
    let b := putLoop SBuf.putchar a fmt.length fmt 0 ⟨m, buf, add32 buf n⟩
    (storeByte b.mem b.p 0, Int32.ofNat (sub32 b.p buf))

def ksnprintfAt (a : VarArgs) (m : Memory) (buf n : Nat) (fmt : CStr) :
    Memory × Int32 :=
  kvsnprintfAt a m buf n fmt

structure Buffer (buf n : Nat) : Prop where
  not_null : 0 < buf
  room : buf + n ≤ 2 ^ 32

/-- What a call that stores a text leaves behind, and what it returns. -/
structure StoresText (m : Memory) (buf n : Nat) (text : CStr)
    (after : Memory × Int32) : Prop where
  stored : after.1 = writeBytes m buf (text ++ [0])
  short : text.length ≤ n - 1
  inside : forall x, x < buf ∨ buf + n ≤ x -> after.1 x = m x
  returned : after.2 = Int32.ofNat text.length
  counted : n ≤ 2 ^ 31 -> after.2.toInt = text.length

/-!
# The text of a format
-/

def directiveText (a : VarArgs) (conv : UInt8) (isLong : Bool) (args : Nat) :
    CStr × Nat :=
  putSwitch consolePutchar a conv isLong args []

def formatText (a : VarArgs) : Nat -> CStr -> Nat -> CStr
  | 0, _, _ => []
  | steps + 1, fmt, args =>
      match fmt with
      | [] => []
      | c :: fmt =>
          if c ≠ percent then
            c :: formatText a steps fmt args
          else if fmt = [] then
            []
          else
            match lengthModifier (skipWidth fmt) with
            | (_, []) => [questionMark]
            | (isLong, conv :: fmt) =>
                let text := directiveText a conv isLong args
                text.1 ++ formatText a steps fmt text.2

section Sinks

variable {sink : Type u} (put : sink -> UInt8 -> sink)

theorem puts_append (b : sink) (s t : CStr) :
    puts put b (s ++ t) = puts put (puts put b s) t :=
  List.foldl_append

theorem puts_console (s : CStr) : puts consolePutchar [] s = s :=
  consolePuts_eq [] s

theorem putSwitch_eq (a : VarArgs) (conv : UInt8) (isLong : Bool) (args : Nat)
    (b : sink) :
    putSwitch put a conv isLong args b =
      (puts put b (directiveText a conv isLong args).1,
        (directiveText a conv isLong args).2) := by
  unfold directiveText putSwitch
  by_cases hd : conv = convD ∨ conv = convI
  · rw [if_pos hd, if_pos hd]
    dsimp only
    cases negative (a.word args) with
    | true =>
        have hminus : puts consolePutchar (consolePutchar [] 0x2D)
            (uintToStr (0 - a.word args) 10) =
            [0x2D] ++ uintToStr (0 - a.word args) 10 := consolePuts_eq _ _
        rw [if_pos rfl, if_pos rfl, hminus, puts_append]
        rfl
    | false =>
        rw [if_neg Bool.false_ne_true, if_neg Bool.false_ne_true, puts_console]
  rw [if_neg hd, if_neg hd]
  by_cases hu : conv = convU
  · rw [if_pos hu, if_pos hu]
    cases isLong <;> simp [puts_console]
  rw [if_neg hu, if_neg hu]
  by_cases hx : conv = convX ∨ conv = convUpperX
  · rw [if_pos hx, if_pos hx]
    cases isLong <;> simp [puts_console]
  rw [if_neg hx, if_neg hx]
  by_cases hc : conv = convC
  · rw [if_pos hc, if_pos hc]
    rfl
  rw [if_neg hc, if_neg hc]
  by_cases hs : conv = convS
  · rw [if_pos hs, if_pos hs, puts_console]
  rw [if_neg hs, if_neg hs]
  by_cases hpercent : conv = percent
  · rw [if_pos hpercent, if_pos hpercent]
    rfl
  · rw [if_neg hpercent, if_neg hpercent]
    rfl

theorem putLoop_eq (a : VarArgs) (steps : Nat) (fmt : CStr) (args : Nat)
    (b : sink) :
    putLoop put a steps fmt args b = puts put b (formatText a steps fmt args) := by
  induction steps generalizing fmt args b with
  | zero => rfl
  | succ steps ih =>
      unfold putLoop formatText
      cases fmt with
      | nil => rfl
      | cons c fmt =>
          dsimp only
          by_cases hc : c ≠ percent
          · rw [if_pos hc, if_pos hc, ih]
            rfl
          rw [if_neg hc, if_neg hc]
          by_cases hend : fmt = []
          · rw [if_pos hend, if_pos hend]
            rfl
          rw [if_neg hend, if_neg hend]
          cases hspec : lengthModifier (skipWidth fmt) with
          | mk isLong fmt' =>
              cases fmt' with
              | nil => rfl
              | cons conv fmt' =>
                  dsimp only
                  rw [putSwitch_eq, ih, puts_append]

end Sinks

/-!
# What is stored
-/

theorem kvsnprintfSwitch_eq (a : VarArgs) (n : Nat) :
    kvsnprintfSwitch a n = putSwitch (sbufPutchar n) a := rfl

theorem kvsnprintfLoop_eq (a : VarArgs) (n steps : Nat) (fmt : CStr)
    (args : Nat) (b : CStr) :
    (kvsnprintfLoop a n steps fmt args b).1 =
      putLoop (sbufPutchar n) a steps fmt args b := by
  induction steps generalizing fmt args b with
  | zero => rfl
  | succ steps ih =>
      unfold kvsnprintfLoop putLoop
      cases fmt with
      | nil => rfl
      | cons c fmt =>
          dsimp only
          by_cases hc : c ≠ percent
          · rw [if_pos hc, if_pos hc, ih]
          rw [if_neg hc, if_neg hc]
          by_cases hend : fmt = []
          · rw [if_pos hend, if_pos hend]
          rw [if_neg hend, if_neg hend]
          cases hspec : lengthModifier (skipWidth fmt) with
          | mk isLong fmt' =>
              cases fmt' with
              | nil => rfl
              | cons conv fmt' =>
                  dsimp only
                  rw [ih, kvsnprintfSwitch_eq]

theorem sbufPuts_eq (n : Nat) (s : CStr) : sbufPuts n [] s = s.take (n - 1) := by
  have htake := sbufPuts_take n [] s
  rw [List.take_nil, consolePuts_eq, List.nil_append] at htake
  exact htake

/-- A buffer that holds the front part `t` of what it was told. -/
structure SBuf.Holds (m : Memory) (buf n : Nat) (b : SBuf) (t : CStr) :
    Prop where
  mem : b.mem = writeBytes m buf t
  p : b.p = buf + t.length
  stop : b.stop = add32 buf n
  room : t.length ≤ n - 1

/-- One character: it is stored behind the others, or there is no room. -/
theorem SBuf.Holds.putchar {m : Memory} {buf n : Nat} {b : SBuf} {t : CStr}
    (hbuf : Buffer buf n) (hn : 1 ≤ n) (h : b.Holds m buf n t) (c : UInt8) :
    (b.putchar c).Holds m buf n (sbufPutchar n t c) := by
  have hroom := hbuf.room
  have hlast : sub32 b.stop 1 = buf + n - 1 := by
    rw [h.stop]
    unfold sub32 add32
    omega
  have hshort := h.room
  unfold SBuf.putchar sbufPutchar
  rw [hlast, h.p]
  by_cases hfree : t.length < n - 1
  · have hnext : add32 (buf + t.length) 1 = buf + t.length + 1 := by
      unfold add32
      omega
    rw [if_pos hfree, if_pos (by omega), hnext]
    constructor
    · dsimp only
      rw [h.mem, writeBytes_append, writeBytes_cons, writeBytes_nil]
    · rw [List.length_append, List.length_singleton, ← Nat.add_assoc]
    · exact h.stop
    · rw [List.length_append, List.length_singleton]
      exact hfree
  · rw [if_neg hfree, if_neg (by omega)]
    exact h

theorem SBuf.Holds.puts {m : Memory} {buf n : Nat} {b : SBuf} {t : CStr}
    (hbuf : Buffer buf n) (hn : 1 ≤ n) (h : b.Holds m buf n t) (s : CStr) :
    (Lib.puts SBuf.putchar b s).Holds m buf n (sbufPuts n t s) := by
  unfold Lib.puts sbufPuts
  induction s generalizing b t with
  | nil => exact h
  | cons c s ih =>
      rw [List.foldl_cons, List.foldl_cons]
      exact ih (h.putchar hbuf hn c)

/-- The front part of the format's text for which there is room. -/
def storedText (a : VarArgs) (n : Nat) (fmt : CStr) : CStr :=
  (formatText a fmt.length fmt 0).take (n - 1)

theorem kvsnprintfAt_stores (a : VarArgs) (m : Memory) {buf n : Nat}
    (fmt : CStr) (hbuf : Buffer buf n) (hn : 1 ≤ n) :
    StoresText m buf n (storedText a n fmt) (kvsnprintfAt a m buf n fmt) := by
  have hroom := hbuf.room
  have hpos := hbuf.not_null
  have hstart : SBuf.Holds m buf n ⟨m, buf, add32 buf n⟩ [] :=
    ⟨(writeBytes_nil m buf).symm, rfl, rfl, Nat.zero_le _⟩
  have hend : (puts SBuf.putchar ⟨m, buf, add32 buf n⟩
      (formatText a fmt.length fmt 0)).Holds m buf n (storedText a n fmt) := by
    have hputs := hstart.puts hbuf hn (formatText a fmt.length fmt 0)
    rw [sbufPuts_eq] at hputs
    exact hputs
  have hshort := hend.room
  have hlen : sub32 (buf + (storedText a n fmt).length) buf =
      (storedText a n fmt).length := by
    unfold sub32
    omega
  have hafter : kvsnprintfAt a m buf n fmt =
      (writeBytes m buf (storedText a n fmt ++ [0]),
        Int32.ofNat (storedText a n fmt).length) := by
    unfold kvsnprintfAt
    rw [if_neg (by omega), putLoop_eq]
    dsimp only
    rw [hend.p, hend.mem, hlen, writeBytes_append, writeBytes_cons,
      writeBytes_nil]
  rw [hafter]
  constructor
  · rfl
  · exact hshort
  · intro x hx
    apply writeBytes_apply_outside
    rw [List.length_append, List.length_singleton]
    omega
  · rfl
  · intro hsmall
    exact Int32.toInt_ofNat_of_lt (by omega)

theorem ksnprintf_text (a : VarArgs) {n : Nat} (fmt : CStr) (hn : 1 ≤ n) :
    (ksnprintf a n fmt).text = storedText a n fmt ++ [0] := by
  unfold ksnprintf kvsnprintf
  rw [if_neg (by omega)]
  dsimp only
  rw [kvsnprintfLoop_eq, putLoop_eq]
  congr 1
  exact sbufPuts_eq n _

/--
A call writes inside its buffer, puts one NUL behind the characters it stored
and counts these; a larger buffer receives the same characters and more.
-/
theorem ksnprintf_bounded (a : VarArgs) (fmt : CStr) (m m' : Memory)
    {buf buf' n n' : Nat} (hn : 1 ≤ n) (hle : n ≤ n') (hbuf : Buffer buf n)
    (hbuf' : Buffer buf' n') :
    exists text text', StoresText m buf n text (ksnprintfAt a m buf n fmt) ∧
      StoresText m' buf' n' text' (ksnprintfAt a m' buf' n' fmt) ∧
      text = text'.take (min (n - 1) text'.length) := by
  refine ⟨storedText a n fmt, storedText a n' fmt,
    kvsnprintfAt_stores a m fmt hbuf hn,
    kvsnprintfAt_stores a m' fmt hbuf' (Nat.le_trans hn hle), ?_⟩
  unfold storedText
  rw [← List.take_take, List.take_length, List.take_take,
    Nat.min_eq_left (by omega)]

def tildes : Memory := fun _ => 0x7E

/-- Eight bytes and sixty-four for the same text. -/
theorem ksnprintf_bounded_someArgs :
    exists text text',
      StoresText tildes 0x1000 8 text
        (ksnprintfAt someArgs tildes 0x1000 8 (cstr "%s: %d")) ∧
      StoresText tildes 0x2000 64 text'
        (ksnprintfAt someArgs tildes 0x2000 64 (cstr "%s: %d")) ∧
      text = text'.take (min (8 - 1) text'.length) :=
  ksnprintf_bounded someArgs (cstr "%s: %d") tildes tildes (by decide)
    (by decide) ⟨by decide, by decide⟩ ⟨by decide, by decide⟩

end Lib
end EarlnuxOS
