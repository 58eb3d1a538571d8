import EarlnuxOS.Arch.Processor

/-!
# The interrupt stubs

`isr_common.asm`: one stub for each of the 32 exceptions and the 16 interrupt
lines.  Each ends in a jump to one of two common stubs, which save the context
as a `struct regs`, call a C function with a pointer to it and put the context
back.
-/

namespace EarlnuxOS
namespace Arch

open Foundation

/-- `KERNEL_DS << 3` -/
def kernelDs : UInt16 := 0x10

def loadSegments : List Instr :=
  [.movSegAx .ds, .movSegAx .es, .movSegAx .fs, .movSegAx .gs]

def commonEntry : List Instr :=
  [.pusha, .movAxDs, .pushEax, .movAxImm kernelDs] ++ loadSegments ++ [.pushEsp]

def commonExit : List Instr :=
  [.addEsp 4, .popEax] ++ loadSegments ++ [.popa, .addEsp 8, .iret]

def isrCommonStub : List Instr :=
  commonEntry ++ .call .isrHandler :: commonExit

def irqCommonStub : List Instr :=
  commonEntry ++ .call .irqHandler :: commonExit

def isrNoErr (n : Nat) : List Instr :=
  [.cli, .pushImm 0, .pushImm (UInt32.ofNat n)] ++ isrCommonStub

def isrErr (n : Nat) : List Instr :=
  [.cli, .pushImm (UInt32.ofNat n)] ++ isrCommonStub

def irq (vector : Nat) : List Instr :=
  [.cli, .pushImm 0, .pushImm (UInt32.ofNat vector)] ++ irqCommonStub

/-- The exceptions that are written with `ISR_ERR`. -/
def errVectors : List Nat := [8, 10, 11, 12, 13, 14, 17, 30]

/-- The stub that the file defines for a vector below 48. -/
def stub (vector : Nat) : List Instr :=
  if vector < 32 then
    if vector ∈ errVectors then isrErr vector else isrNoErr vector
  else irq vector

theorem exec_loadSegments (code : Target -> Cpu -> Cpu) (ret : UInt32) (c : Cpu) :
    c.exec code ret loadSegments = { c with seg := fun _ => c.ax } := by
  have hseg : (c.exec code ret loadSegments).seg = fun _ => c.ax := by
    funext s
    cases s <;> rfl
  rw [← hseg]
  rfl

def target (vector : Nat) : Target :=
  if vector < 32 then .isrHandler else .irqHandler

def numbers (vector : Nat) : List UInt32 :=
  if vector ∈ errVectors then [UInt32.ofNat vector] else [0, UInt32.ofNat vector]

theorem not_mem_errVectors {vector : Nat} (h : 32 ≤ vector) :
    vector ∉ errVectors := by
  intro hmem
  simp only [errVectors, List.mem_cons, List.not_mem_nil, or_false] at hmem
  omega

theorem stub_eq (vector : Nat) :
    stub vector = .cli :: (numbers vector).map .pushImm ++
      (commonEntry ++ .call (target vector) :: commonExit) := by
  unfold stub numbers target
  by_cases hlow : vector < 32
  · rw [if_pos hlow, if_pos hlow]
    by_cases herr : vector ∈ errVectors
    · rw [if_pos herr, if_pos herr]
      rfl
    · rw [if_neg herr, if_neg herr]
      rfl
  · rw [if_neg hlow, if_neg hlow, if_neg (not_mem_errVectors (by omega))]
    rfl

@[ext] structure Regs where
  ds : UInt32
  edi : UInt32
  esi : UInt32
  ebp : UInt32
  esp : UInt32
  ebx : UInt32
  edx : UInt32
  ecx : UInt32
  eax : UInt32
  intNo : UInt32
  errCode : UInt32
  eip : UInt32
  cs : UInt32
  eflags : UInt32
  useresp : UInt32
  ss : UInt32
  deriving DecidableEq

/-- The structure that a `struct regs *` points at. -/
def regsAt (m : Memory) (p : UInt32) : Regs :=
  let field (n : Nat) := loadWord m (p + 4 * UInt32.ofNat n).toNat
  { ds := field 0, edi := field 1, esi := field 2, ebp := field 3,
    esp := field 4, ebx := field 5, edx := field 6, ecx := field 7,
    eax := field 8, intNo := field 9, errCode := field 10, eip := field 11,
    cs := field 12, eflags := field 13, useresp := field 14, ss := field 15 }

/-- The processor as the C function of a vector finds it. -/
def called (ret : UInt32) (c : Cpu) (vector : Nat) (error : Option UInt32) : Cpu :=
  ((c.enter error).exec (fun _ c => c) ret
    (.cli :: (numbers vector).map .pushImm ++ commonEntry)).push ret

/-- An interrupt with a vector below 48, up to the end of its stub. -/
def interrupt (code : Target -> Cpu -> Cpu) (ret : UInt32) (c : Cpu)
    (vector : Nat) (error : Option UInt32) : Cpu :=
  (c.enter error).exec code ret (stub vector)

theorem call_not_mem_before (vector : Nat) (t : Target) :
    Instr.call t ∉ .cli :: (numbers vector).map .pushImm ++ commonEntry := by
  simp [commonEntry, loadSegments]

theorem interrupt_eq (code : Target -> Cpu -> Cpu) (ret : UInt32) (c : Cpu)
    (vector : Nat) (error : Option UInt32) :
    interrupt code ret c vector error =
      (code (target vector) (called ret c vector error)).exec code ret
        commonExit := by
  unfold interrupt called
  have hbefore : forall (d : Cpu),
      d.exec code ret (.cli :: (numbers vector).map .pushImm ++ commonEntry) =
        d.exec (fun _ c => c) ret
          (.cli :: (numbers vector).map .pushImm ++ commonEntry) :=
    fun d => Cpu.exec_congr code _ ret d (call_not_mem_before vector)
  rw [stub_eq, ← List.append_assoc, Cpu.exec_append, hbefore, Cpu.exec_cons]
  rfl

end Arch
end EarlnuxOS
