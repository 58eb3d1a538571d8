import EarlnuxOS.Foundation.WordStack

/-!
# The processor that the assembly files run on

The registers and the instructions that the interrupt stubs use.  An interrupt
is taken at the privilege level of the kernel itself, so entering a handler
pushes the flags, the code segment and the instruction pointer, and an error
code for some of the exceptions, and no stack is switched.
-/

namespace EarlnuxOS
namespace Arch

open Foundation

/-- The general registers apart from the stack pointer. -/
@[ext] structure General where
  eax : UInt32
  ecx : UInt32
  edx : UInt32
  ebx : UInt32
  ebp : UInt32
  esi : UInt32
  edi : UInt32
  deriving DecidableEq

/-- The data segment registers that the stubs save and load. -/
inductive SegReg where
  | ds
  | es
  | fs
  | gs
  deriving DecidableEq

@[ext] structure Cpu where
  general : General
  esp : UInt32
  seg : SegReg -> UInt16
  cs : UInt16
  eip : UInt32
  eflags : UInt32
  mem : Memory

inductive Target where
  | isrHandler
  | irqHandler
  deriving DecidableEq

/-- The instructions of `isr_common.asm`. -/
inductive Instr where
  | cli
  | pushImm (w : UInt32)
  | pusha
  | movAxDs
  | pushEax
  | movAxImm (w : UInt16)
  | movSegAx (s : SegReg)
  | pushEsp
  | call (t : Target)
  | addEsp (n : UInt32)
  | popEax
  | popa
  | iret

def interruptFlag : UInt32 := 0x200

/-- The flags that entering a handler through an interrupt gate clears. -/
def gateClears : UInt32 := 0x34300

namespace Cpu

def setEax (c : Cpu) (w : UInt32) : Cpu :=
  { c with general := { c.general with eax := w } }

def ax (c : Cpu) : UInt16 := UInt16.ofNat c.general.eax.toNat

/-- `mov ax, w`: the high half of `eax` stays. -/
def setAx (c : Cpu) (w : UInt16) : Cpu :=
  c.setEax (UInt32.ofNat (c.general.eax.toNat / 2 ^ 16 * 2 ^ 16 + w.toNat))

def setSeg (c : Cpu) (s : SegReg) (w : UInt16) : Cpu :=
  { c with seg := Function.update c.seg s w }

def push (c : Cpu) (w : UInt32) : Cpu :=
  { c with esp := c.esp - 4, mem := store32 c.mem (c.esp - 4).toNat w.toNat }

def pushes (c : Cpu) (ws : List UInt32) : Cpu :=
  ws.foldl push c

/-- The word that the next `pop` takes, and the one `n` words above it. -/
def peek (c : Cpu) (n : Nat) : UInt32 :=
  loadWord c.mem (c.esp + 4 * UInt32.ofNat n).toNat

def pusha (c : Cpu) : Cpu :=
  c.pushes [c.general.eax, c.general.ecx, c.general.edx, c.general.ebx, c.esp,
    c.general.ebp, c.general.esi, c.general.edi]

def popa (c : Cpu) : Cpu :=
  { c with
    general := { eax := c.peek 7, ecx := c.peek 6, edx := c.peek 5,
                 ebx := c.peek 4, ebp := c.peek 2, esi := c.peek 1,
                 edi := c.peek 0 }
    esp := c.esp + 32 }

def iret (c : Cpu) : Cpu :=
  { c with eip := c.peek 0, cs := UInt16.ofNat (c.peek 1).toNat,
           eflags := c.peek 2, esp := c.esp + 12 }

/--
What the processor does before the first instruction of a stub: the context it
comes back to goes onto the stack, with the error code behind it if there is
one.
-/
def enter (c : Cpu) (error : Option UInt32) : Cpu :=
  let pushed := c.pushes ([c.eflags, UInt32.ofNat c.cs.toNat, c.eip] ++
    error.toList)
  { pushed with eflags := c.eflags &&& ~~~gateClears }

/-- One instruction; `code` is what the C functions do and `ret` the return address. -/
def step (code : Target -> Cpu -> Cpu) (ret : UInt32) (c : Cpu) : Instr -> Cpu
  | .cli => { c with eflags := c.eflags &&& ~~~interruptFlag }
  | .pushImm w => c.push w
  | .pusha => c.pusha
  | .movAxDs => c.setAx (c.seg .ds)
  | .pushEax => c.push c.general.eax
  | .movAxImm w => c.setAx w
  | .movSegAx s => c.setSeg s c.ax
  | .pushEsp => c.push c.esp
  | .call t => code t (c.push ret)
  | .addEsp n => { c with esp := c.esp + n }
  | .popEax => { c.setEax (c.peek 0) with esp := c.esp + 4 }
  | .popa => c.popa
  | .iret => c.iret

def exec (code : Target -> Cpu -> Cpu) (ret : UInt32) (c : Cpu)
    (program : List Instr) : Cpu :=
  program.foldl (step code ret) c

@[simp] theorem exec_nil (code : Target -> Cpu -> Cpu) (ret : UInt32) (c : Cpu) :
    c.exec code ret [] = c :=
  rfl

@[simp] theorem exec_cons (code : Target -> Cpu -> Cpu) (ret : UInt32) (c : Cpu)
    (i : Instr) (program : List Instr) :
    c.exec code ret (i :: program) = (c.step code ret i).exec code ret program :=
  rfl

theorem exec_append (code : Target -> Cpu -> Cpu) (ret : UInt32) (c : Cpu)
    (first second : List Instr) :
    c.exec code ret (first ++ second) =
      (c.exec code ret first).exec code ret second :=
  List.foldl_append

theorem exec_congr (code code' : Target -> Cpu -> Cpu) (ret : UInt32) (c : Cpu)
    {program : List Instr} (h : forall t, Instr.call t ∉ program) :
    c.exec code ret program = c.exec code' ret program := by
  induction program generalizing c with
  | nil => rfl
  | cons i program ih =>
      have hstep : c.step code ret i = c.step code' ret i := by
        cases i with
        | call t => exact absurd List.mem_cons_self (h t)
        | _ => rfl
      rw [exec_cons, exec_cons, hstep]
      exact ih _ (fun t ht => h t (List.mem_cons_of_mem _ ht))

@[simp] theorem setEax_esp (c : Cpu) (w : UInt32) : (c.setEax w).esp = c.esp :=
  rfl

@[simp] theorem setEax_mem (c : Cpu) (w : UInt32) : (c.setEax w).mem = c.mem :=
  rfl

@[simp] theorem setEax_seg (c : Cpu) (w : UInt32) : (c.setEax w).seg = c.seg :=
  rfl

@[simp] theorem setAx_esp (c : Cpu) (w : UInt16) : (c.setAx w).esp = c.esp :=
  rfl

@[simp] theorem setAx_mem (c : Cpu) (w : UInt16) : (c.setAx w).mem = c.mem :=
  rfl

@[simp] theorem setAx_seg (c : Cpu) (w : UInt16) : (c.setAx w).seg = c.seg :=
  rfl

@[simp] theorem setSeg_esp (c : Cpu) (s : SegReg) (w : UInt16) :
    (c.setSeg s w).esp = c.esp :=
  rfl

@[simp] theorem setSeg_mem (c : Cpu) (s : SegReg) (w : UInt16) :
    (c.setSeg s w).mem = c.mem :=
  rfl

@[simp] theorem setSeg_general (c : Cpu) (s : SegReg) (w : UInt16) :
    (c.setSeg s w).general = c.general :=
  rfl

@[simp] theorem setSeg_ax (c : Cpu) (s : SegReg) (w : UInt16) :
    (c.setSeg s w).ax = c.ax :=
  rfl

@[simp] theorem push_general (c : Cpu) (w : UInt32) :
    (c.push w).general = c.general :=
  rfl

@[simp] theorem push_seg (c : Cpu) (w : UInt32) : (c.push w).seg = c.seg :=
  rfl

@[simp] theorem pushes_general (c : Cpu) (ws : List UInt32) :
    (c.pushes ws).general = c.general := by
  induction ws generalizing c with
  | nil => rfl
  | cons w ws ih => exact ih (c.push w)

@[simp] theorem pushes_seg (c : Cpu) (ws : List UInt32) :
    (c.pushes ws).seg = c.seg := by
  induction ws generalizing c with
  | nil => rfl
  | cons w ws ih => exact ih (c.push w)

theorem toNat_low (n : Nat) (w : UInt16) :
    UInt16.ofNat (UInt32.ofNat (n / 2 ^ 16 * 2 ^ 16 + w.toNat)).toNat = w := by
  have hw := w.toNat_lt
  apply UInt16.toNat_inj.mp
  rw [UInt16.toNat_ofNat', UInt32.toNat_ofNat']
  omega

@[simp] theorem setAx_ax (c : Cpu) (w : UInt16) : (c.setAx w).ax = w :=
  toNat_low c.general.eax.toNat w

end Cpu

/--
The stack of `c` holds `ws` over what it held when its pointer was `top`, and
the memory from `top` on is the one of `old`.
-/
def Holds (old : Memory) (top : Nat) (ws : List UInt32) (c : Cpu) : Prop :=
  Stacked old top ws c.mem c.esp

theorem Holds.push {old : Memory} {top : Nat} {ws : List UInt32} {c : Cpu}
    (h : Holds old top ws c) (w : UInt32) (hroom : 4 * (ws.length + 1) ≤ top) :
    Holds old top (w :: ws) (c.push w) :=
  Stacked.push h w hroom

theorem Holds.pushes {old : Memory} {top : Nat} {ws : List UInt32} {c : Cpu}
    (h : Holds old top ws c) (vs : List UInt32)
    (hroom : 4 * (ws.length + vs.length) ≤ top) :
    Holds old top (vs.reverse ++ ws) (c.pushes vs) := by
  induction vs generalizing ws c with
  | nil => exact h
  | cons v vs ih =>
      rw [List.length_cons] at hroom
      have hnext := ih (h.push v (by omega)) (by rw [List.length_cons]; omega)
      rw [List.reverse_cons, List.append_assoc]
      exact hnext

end Arch
end EarlnuxOS
