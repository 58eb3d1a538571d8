import EarlnuxOS.Foundation.ByteRuns
import EarlnuxOS.Foundation.Run
import EarlnuxOS.Foundation.Words
import EarlnuxOS.User.Login

/-!
# The shell

`shell_run` of `kernel/kernel.c` with `shell_readline` and `tokenize`.  The
array `argv` lives as long as the call of `shell_run` does, and a line fills
only as many of its slots as it has words.
-/

namespace EarlnuxOS
namespace User

open Foundation Fs

/-!
# Splitting the line
-/

def shellBufSize : Nat := 256

def maxArgs : Nat := 16

def blank (c : UInt8) : Bool := c == 0x20 || c == 0x09

/-- `while (*p == ' ' || *p == '\t') p++;` -/
def skipBlanks (m : Memory) : Nat -> Nat -> Nat
  | 0, p => p
  | steps + 1, p => if blank (m p) then skipBlanks m steps (p + 1) else p

/-- `while (*p && *p != ' ' && *p != '\t') p++;` -/
def skipWord (m : Memory) : Nat -> Nat -> Nat
  | 0, p => p
  | steps + 1, p =>
      if m p ≠ 0 ∧ blank (m p) = false then skipWord m steps (p + 1) else p

/--
`shell_input`, the places in it to which the slots of `argv` point, and `argc`.
A slot that was never filled has no value.
-/
structure Tokens where
  input : Memory
  argv : Nat -> Option Nat
  argc : Nat

namespace Tokens

/-- `argv[argc++] = p;` -/
def addArg (t : Tokens) (p : Nat) : Tokens :=
  { t with
    argv := fun i => if i = t.argc then some p else t.argv i
    argc := t.argc + 1 }

def arg (t : Tokens) (i : Nat) : Option CStr :=
  (t.argv i).map (stringAt t.input shellBufSize)

def args (t : Tokens) : List (Option CStr) := (List.range t.argc).map t.arg

end Tokens

def tokenizeLoop (max : Nat) : Nat -> Nat -> Tokens -> Tokens
  | 0, _, t => t
  | steps + 1, p, t =>
      if t.input p ≠ 0 ∧ t.argc < max then
        let p := skipBlanks t.input shellBufSize p
        if t.input p = 0 then t
        else
          let t := t.addArg p
          let p := skipWord t.input shellBufSize p
          if t.input p ≠ 0 then
            tokenizeLoop max steps (p + 1)
              { t with input := storeByte t.input p 0 }
          else
            tokenizeLoop max steps p t
      else t

def tokenize (input : Memory) (argv : Nat -> Option Nat) (max : Nat) :
    Tokens :=
  tokenizeLoop max shellBufSize 0
    { input := input
      argv := argv
      argc := 0 }

/-!
# Commands
-/

inductive Command where
  | help
  | echo
  | clear
  | meminfo
  | netinfo
  | sysinfo
  | ping
  | ls
  | cat
  | mkdir
  | rm
  | touch
  | write
  | cd
  | pwd
  | logout
  | uptime
  | uname
  | reboot
  | halt
deriving DecidableEq

def commands : List (CStr × Command) :=
  [(cstr "help", Command.help), (cstr "echo", Command.echo),
    (cstr "clear", Command.clear), (cstr "meminfo", Command.meminfo),
    (cstr "netinfo", Command.netinfo), (cstr "sysinfo", Command.sysinfo),
    (cstr "ping", Command.ping), (cstr "ls", Command.ls),
    (cstr "cat", Command.cat), (cstr "mkdir", Command.mkdir),
    (cstr "rm", Command.rm), (cstr "touch", Command.touch),
    (cstr "write", Command.write), (cstr "cd", Command.cd),
    (cstr "pwd", Command.pwd), (cstr "logout", Command.logout),
    (cstr "uptime", Command.uptime), (cstr "uname", Command.uname),
    (cstr "reboot", Command.reboot), (cstr "halt", Command.halt)]

def findCommand (name : CStr) : Option Command :=
  (commands.find? fun c => c.1 == name).map Prod.snd

def Command.argvReads (argc : Nat) : Command -> List Nat
  | Command.echo => List.range' 1 (argc - 1)
  | Command.write => if argc < 3 then [] else List.range' 1 (argc - 1)
  | Command.ping | Command.ls | Command.cat | Command.mkdir | Command.rm
  | Command.touch | Command.cd => if argc < 2 then [] else [1]
  | _ => []

inductive Action where
  | nothing
  | logout
  | execute (command : Command) (args : List (Option CStr))
  | evaluate (rawInput word : CStr)
  | indeterminate
deriving DecidableEq

/-- Neither `logout` nor `halt` comes back to the loop. -/
def Action.leaves : Action -> Bool
  | Action.logout => true
  | Action.execute Command.halt _ => true
  | _ => false

/-- A line, the words `tokenize` counted, the slots read, and what was done. -/
structure Record where
  line : CStr
  argc : Nat
  argvReads : List Nat
  action : Action

/-- The body of the loop of `shell_run` behind `tokenize`. -/
def dispatch (rawInput : CStr) (t : Tokens) : Record :=
  match t.arg 0 with
  | none => ⟨rawInput, t.argc, [0], Action.indeterminate⟩
  | some word =>
      if word = cstr "logout" then ⟨rawInput, t.argc, [0], Action.logout⟩
      else
        match findCommand word with
        | some command =>
            ⟨rawInput, t.argc, 0 :: command.argvReads t.argc,
              Action.execute command t.args⟩
        | none => ⟨rawInput, t.argc, [0], Action.evaluate rawInput word⟩

/-!
# The loop
-/

/--
A call of `shell_run`: `pos` is that of `shell_readline`, and `records` has the
lines so far.
-/
structure Shell where
  input : Memory
  pos : Nat
  argv : Nat -> Option Nat
  returned : Bool
  records : List Record

namespace Shell

def boot (input : Memory) : Shell where
  input := input
  pos := 0
  argv := fun _ => none
  returned := false
  records := []

/-- One turn of the loop of `shell_readline`: whether it is the last one. -/
def readKey (s : Shell) (c : UInt8) : Bool × Shell :=
  if c == newline || c == carriageReturn then (true, s)
  else if c == backspace || c == delete then
    (false, { s with pos := s.pos - 1 })
  else if printable c then
    (decide (shellBufSize - 1 ≤ s.pos + 1),
      { s with
        input := storeByte s.input s.pos c
        pos := s.pos + 1 })
  else (false, s)

def typed (s : Shell) : CStr := readBytes s.input 0 s.pos

/-- `buf[pos] = '\0'`, and the turn of the loop of `shell_run` for the line. -/
def runLine (s : Shell) : Shell :=
  let input := storeByte s.input s.pos 0
  if s.pos = 0 then
    { s with
      input := input
      records := s.records ++ [⟨[], 0, [], Action.nothing⟩] }
  else
    let t := tokenize input s.argv maxArgs
    let r := dispatch (stringAt input shellBufSize 0) t
    { input := t.input
      pos := 0
      argv := t.argv
      returned := r.action.leaves
      records := s.records ++ [r] }

def exec (s : Shell) (c : UInt8) : Shell :=
  if s.returned then s
  else
    let turn := s.readKey c
    if turn.1 then turn.2.runLine else turn.2

end Shell

/-!
# What a line asks for
-/

def actionOf (line : CStr) : Action :=
  match (words blank line).take maxArgs with
  | [] => Action.nothing
  | word :: rest =>
      if word = cstr "logout" then Action.logout
      else
        match findCommand word with
        | some command => Action.execute command ((word :: rest).map some)
        | none => Action.evaluate line word

/-- The line alone decided, and only slots that it filled were read. -/
structure Record.Good (r : Record) : Prop where
  action : r.action = actionOf r.line
  argvReads : forall i, i ∈ r.argvReads -> i < r.argc

def BlankLine (line : CStr) : Prop :=
  line ≠ [] ∧ forall c, c ∈ line -> blank c = true

def NoBlankLine (s : Shell) (c : UInt8) : Prop :=
  s.returned = false -> (s.readKey c).1 = true ->
    ¬ BlankLine (s.readKey c).2.typed

end User
end EarlnuxOS
