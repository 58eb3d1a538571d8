import EarlnuxOS.Fs.Path

/-!
# Formatted output

The two engines of `kernel/lib/printf.c`: `kvprintf` prints to the console and
`kvsnprintf` into a buffer.  Each has its own loop over the format string and
its own conversion switch, as in the source.  A `va_list` is a position in the
words of the caller's stack.
-/

namespace EarlnuxOS
namespace Lib

open Fs

/-- The words from the first variadic argument on, and the string at each address. -/
structure VarArgs where
  word : Nat -> UInt32
  string : UInt32 -> CStr

/-- What a call returns, the characters it puts out, and the next argument after each directive. -/
structure Output where
  result : Int
  text : CStr
  args : List Nat
deriving DecidableEq, Repr

namespace VarArgs

/-- `va_arg(args, uint64_t)` takes two words, the low one first. -/
def long (a : VarArgs) (i : Nat) : Nat :=
  (a.word i).toNat + 2 ^ 32 * (a.word (i + 1)).toNat

def str (a : VarArgs) (i : Nat) : CStr :=
  if a.word i = 0 then cstr "(null)" else a.string (a.word i)

end VarArgs

/-!
# Numbers
-/

/-- `digits[d]` -/
def digit (d : Nat) : UInt8 :=
  if d < 10 then UInt8.ofNat (0x30 + d) else UInt8.ofNat (0x61 + (d - 10))

/-- The loop of `uint_to_str`; what is in `tmp` comes out in reverse. -/
def digitLoop (base : Nat) : Nat -> Nat -> CStr -> CStr
  | 0, _, tmp => tmp
  | slots + 1, val, tmp =>
      if val = 0 then tmp
      else digitLoop base slots (val / base) (digit (val % base) :: tmp)

def uintToStr (val : UInt32) (base : Nat) : CStr :=
  if val = 0 then cstr "0" else digitLoop base 32 val.toNat []

def uint64ToStr (val : Nat) (base : Nat) : CStr :=
  if val = 0 then cstr "0" else digitLoop base 64 val []

def negative (w : UInt32) : Bool := 2 ^ 31 ≤ w.toNat

def intToStr (w : UInt32) : CStr :=
  if negative w then cstr "-" ++ uintToStr (0 - w) 10 else uintToStr w 10

/-!
# The format string
-/

def percent : UInt8 := 0x25

def isDigit (c : UInt8) : Bool := 0x30 ≤ c ∧ c ≤ 0x39

/-- `if (*fmt == '-') fmt++` -/
def skipMinus : CStr -> CStr
  | [] => []
  | c :: fmt => if c = 0x2D then fmt else c :: fmt

/-- `while (*fmt >= '0' && *fmt <= '9') fmt++` -/
def skipDigits (fmt : CStr) : CStr := fmt.dropWhile isDigit

def skipPrecision : CStr -> CStr
  | [] => []
  | c :: fmt => if c = 0x2E then skipDigits fmt else c :: fmt

/-- What stands between `%` and the conversion, without the length modifier. -/
def skipWidth (fmt : CStr) : CStr := skipPrecision (skipDigits (skipMinus fmt))

/-- `is_long`, and the format behind the modifier. -/
def lengthModifier : CStr -> Bool × CStr
  | [] => (false, [])
  | c :: fmt => if c = 0x6C then (true, fmt) else (false, c :: fmt)

def convD : UInt8 := 0x64
def convI : UInt8 := 0x69
def convU : UInt8 := 0x75
def convX : UInt8 := 0x78
def convUpperX : UInt8 := 0x58
def convP : UInt8 := 0x70
def convC : UInt8 := 0x63
def convS : UInt8 := 0x73

def questionMark : UInt8 := 0x3F

/-!
# Printing to the console
-/

/-- `console_putchar`, with all that was put before. -/
def consolePutchar (out : CStr) (c : UInt8) : CStr := out ++ [c]

/-- `for (char *p = numbuf; *p; p++) console_putchar(*p)` -/
def consolePuts (out s : CStr) : CStr := s.foldl consolePutchar out

/-- The switch of `kvprintf`: the output and the next argument. -/
def kvprintfSwitch (a : VarArgs) (conv : UInt8) (isLong : Bool) (args : Nat)
    (out : CStr) : CStr × Nat :=
  if conv = convD ∨ conv = convI then
    (consolePuts out (intToStr (a.word args)), args + 1)
  else if conv = convU then
    if isLong then (consolePuts out (uint64ToStr (a.long args) 10), args + 2)
    else (consolePuts out (uintToStr (a.word args) 10), args + 1)
  else if conv = convX ∨ conv = convUpperX then
    if isLong then (consolePuts out (uint64ToStr (a.long args) 16), args + 2)
    else (consolePuts out (uintToStr (a.word args) 16), args + 1)
  else if conv = convP then
    let out := consolePutchar (consolePutchar out 0x30) 0x78
    (consolePuts out (uintToStr (a.word args) 16), args + 1)
  else if conv = convC then
    (consolePutchar out (a.word args).toUInt8, args + 1)
  else if conv = convS then
    (consolePuts out (a.str args), args + 1)
  else if conv = percent then
    (consolePutchar out percent, args)
  else
    (consolePutchar out questionMark, args)

/--
The loop of `kvprintf`: all that was printed, and after each directive the next
argument.
-/
def kvprintfLoop (a : VarArgs) : Nat -> CStr -> Nat -> CStr -> CStr × List Nat
  | 0, _, _, out => (out, [])
  | steps + 1, fmt, args, out =>
      match fmt with
      | [] => (out, [])
      | c :: fmt =>
          if c ≠ percent then
            kvprintfLoop a steps fmt args (consolePutchar out c)
          else if fmt = [] then
            (out, [])
          else
            match lengthModifier (skipWidth fmt) with
            | (_, []) => (consolePutchar out questionMark, [])
            | (isLong, conv :: fmt) =>
                let put := kvprintfSwitch a conv isLong args out
                let rest := kvprintfLoop a steps fmt put.2 put.1
                (rest.1, put.2 :: rest.2)

def kvprintf (a : VarArgs) (fmt : CStr) : Output :=
  let printed := kvprintfLoop a fmt.length fmt 0 []
  { result := 0
    text := printed.1
    args := printed.2 }

/-!
# Printing into a buffer
-/

/-- `sbuf_putchar`, for a buffer of `n` bytes of which `b` are used. -/
def sbufPutchar (n : Nat) (b : CStr) (c : UInt8) : CStr :=
  if b.length < n - 1 then b ++ [c] else b

def sbufPuts (n : Nat) (b s : CStr) : CStr := s.foldl (sbufPutchar n) b

def kvsnprintfSwitch (a : VarArgs) (n : Nat) (conv : UInt8) (isLong : Bool)
    (args : Nat) (b : CStr) : CStr × Nat :=
  if conv = convD ∨ conv = convI then
    let w := a.word args
    if negative w then
      (sbufPuts n (sbufPutchar n b 0x2D) (uintToStr (0 - w) 10), args + 1)
    else
      (sbufPuts n b (uintToStr w 10), args + 1)
  else if conv = convU then
    if isLong then (sbufPuts n b (uint64ToStr (a.long args) 10), args + 2)
    else (sbufPuts n b (uintToStr (a.word args) 10), args + 1)
  else if conv = convX ∨ conv = convUpperX then
    if isLong then (sbufPuts n b (uint64ToStr (a.long args) 16), args + 2)
    else (sbufPuts n b (uintToStr (a.word args) 16), args + 1)
  else if conv = convC then
    (sbufPutchar n b (a.word args).toUInt8, args + 1)
  else if conv = convS then
    (sbufPuts n b (a.str args), args + 1)
  else if conv = percent then
    (sbufPutchar n b percent, args)
  else
    (sbufPutchar n b questionMark, args)

def kvsnprintfLoop (a : VarArgs) (n : Nat) :
    Nat -> CStr -> Nat -> CStr -> CStr × List Nat
  | 0, _, _, b => (b, [])
  | steps + 1, fmt, args, b =>
      match fmt with
      | [] => (b, [])
      | c :: fmt =>
          if c ≠ percent then
            kvsnprintfLoop a n steps fmt args (sbufPutchar n b c)
          else if fmt = [] then
            (b, [])
          else
            match lengthModifier (skipWidth fmt) with
            | (_, []) => (sbufPutchar n b questionMark, [])
            | (isLong, conv :: fmt) =>
                let put := kvsnprintfSwitch a n conv isLong args b
                let rest := kvsnprintfLoop a n steps fmt put.2 put.1
                (rest.1, put.2 :: rest.2)

/-- `kvsnprintf`: the text is what it stores, the final NUL included. -/
def kvsnprintf (a : VarArgs) (n : Nat) (fmt : CStr) : Output :=
  if n = 0 then
    { result := 0
      text := []
      args := [] }
  else
    let stored := kvsnprintfLoop a n fmt.length fmt 0 []
    { result := stored.1.length
      text := stored.1 ++ [0]
      args := stored.2 }

def ksnprintf (a : VarArgs) (n : Nat) (fmt : CStr) : Output :=
  kvsnprintf a n fmt

end Lib
end EarlnuxOS
