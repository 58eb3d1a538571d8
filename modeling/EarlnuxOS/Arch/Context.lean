import EarlnuxOS.Arch.Stubs

/-!
# The context around an interrupt

What a C function finds on the stack when a stub calls it, and which contexts
the stub puts back after it.  Both follow from the words that the entry of the
stub leaves on the stack.
-/

namespace EarlnuxOS
namespace Arch

open Foundation

/-! ## The stack during a stub -/

theorem Holds.peek {old : Memory} {top : Nat} {ws : List UInt32} {c : Cpu}
    (h : Holds old top ws c) (htop : top < 2 ^ 32) {n : Nat} {w : UInt32}
    (hw : ws[n]? = some w) : c.peek n = w :=
  Stacked.peek h htop hw

theorem enter_holds {c : Cpu} (error : Option UInt32) (hroom : 16 ≤ c.esp.toNat) :
    Holds c.mem c.esp.toNat
      (error.toList ++ [c.eip, UInt32.ofNat c.cs.toNat, c.eflags])
      (c.enter error) := by
  have hempty : Holds c.mem c.esp.toNat [] c := Stacked.nil c.mem c.esp
  cases error with
  | none => exact hempty.pushes [_, _, _] (show 4 * 3 ≤ _ by omega)
  | some e => exact hempty.pushes [_, _, _, e] (show 4 * 4 ≤ _ by omega)

theorem exec_map_pushImm (code : Target -> Cpu -> Cpu) (ret : UInt32) (c : Cpu)
    (ws : List UInt32) : c.exec code ret (ws.map .pushImm) = c.pushes ws := by
  induction ws generalizing c with
  | nil => rfl
  | cons w ws ih => exact ih (c.push w)

/-- The word that saves `ds`: the high half is that of `eax`. -/
def dsWord (c : Cpu) : UInt32 := (c.setAx (c.seg .ds)).general.eax

theorem dsWord_low (c : Cpu) : UInt16.ofNat (dsWord c).toNat = c.seg .ds :=
  Cpu.setAx_ax c (c.seg .ds)

/-- The registers as the common stubs save them, the last one pushed first. -/
def savedWords (c : Cpu) : List UInt32 :=
  [dsWord c, c.general.edi, c.general.esi, c.general.ebp, c.esp,
    c.general.ebx, c.general.edx, c.general.ecx, c.general.eax]

/-- The registers saved and the segments of the kernel loaded. -/
def saveAll (c : Cpu) : Cpu :=
  { ((c.pusha.setAx (c.seg .ds)).push (dsWord c)).setAx kernelDs with
    seg := fun _ => kernelDs }

theorem exec_commonEntry (code : Target -> Cpu -> Cpu) (ret : UInt32) (c : Cpu) :
    c.exec code ret commonEntry = (saveAll c).push (saveAll c).esp := by
  unfold commonEntry
  rw [Cpu.exec_append, Cpu.exec_append, exec_loadSegments]
  have hax : (c.exec code ret [.pusha, .movAxDs, .pushEax, .movAxImm kernelDs]).ax =
      kernelDs :=
    Cpu.setAx_ax _ kernelDs
  rw [hax]
  rfl

theorem saveAll_holds {old : Memory} {top : Nat} {ws : List UInt32} {c : Cpu}
    (h : Holds old top ws c) (hroom : 4 * (ws.length + 9) ≤ top) :
    Holds old top (savedWords c ++ ws) (saveAll c) := by
  have hpusha : Holds old top ([c.general.edi, c.general.esi, c.general.ebp,
      c.esp, c.general.ebx, c.general.edx, c.general.ecx, c.general.eax] ++ ws)
      c.pusha :=
    h.pushes [c.general.eax, c.general.ecx, c.general.edx, c.general.ebx, c.esp,
      c.general.ebp, c.general.esi, c.general.edi] (show 4 * (ws.length + 8) ≤ top by omega)
  have hdsWord := hpusha.push (dsWord c) (show 4 * (ws.length + 9) ≤ top by omega)
  have hmem : (saveAll c).mem = (c.pusha.push (dsWord c)).mem := rfl
  have hesp : (saveAll c).esp = (c.pusha.push (dsWord c)).esp := rfl
  unfold Holds
  rw [hmem, hesp]
  exact hdsWord

def numbered (c : Cpu) (vector : Nat) (error : Option UInt32) : Cpu :=
  let entered := c.enter error
  { entered with eflags := entered.eflags &&& ~~~interruptFlag }.pushes
    (numbers vector)

theorem called_eq (ret : UInt32) (c : Cpu) (vector : Nat) (error : Option UInt32) :
    called ret c vector error =
      ((saveAll (numbered c vector error)).push
        (saveAll (numbered c vector error)).esp).push ret := by
  unfold called
  rw [Cpu.exec_append, exec_commonEntry, Cpu.exec_cons, exec_map_pushImm]
  rfl

/-- What the processor and the numbers of the stub put below the context. -/
def contextWords (c : Cpu) (vector : Nat) (error : Option UInt32) : List UInt32 :=
  (numbers vector).reverse ++
    (error.toList ++ [c.eip, UInt32.ofNat c.cs.toNat, c.eflags])

theorem numbers_length_le (vector : Nat) : (numbers vector).length ≤ 2 := by
  unfold numbers
  split <;> simp

theorem contextWords_length (c : Cpu) (vector : Nat) (error : Option UInt32) :
    (contextWords c vector error).length =
      (numbers vector).length + error.toList.length + 3 := by
  unfold contextWords
  simp only [List.length_append, List.length_reverse, List.length_cons,
    List.length_nil]
  omega

theorem numbered_holds {c : Cpu} (vector : Nat) (error : Option UInt32)
    (hroom : 24 ≤ c.esp.toNat) :
    Holds c.mem c.esp.toNat (contextWords c vector error)
      (numbered c vector error) := by
  have hnumbers := numbers_length_le vector
  have herror : error.toList.length ≤ 1 := by cases error <;> simp
  have hentered := enter_holds (c := c) error (by omega)
  apply Holds.pushes (c := { c.enter error with
    eflags := (c.enter error).eflags &&& ~~~interruptFlag }) hentered
  simp only [List.length_append, List.length_cons, List.length_nil]
  omega

/--
The stack of a called C function: the return address, the pointer that it takes,
and behind them the structure that the pointer points at.
-/
theorem called_holds {c : Cpu} (ret : UInt32) (vector : Nat) (error : Option UInt32)
    (hroom : 68 ≤ c.esp.toNat) :
    Holds c.mem c.esp.toNat
      (ret :: (saveAll (numbered c vector error)).esp ::
        (savedWords (numbered c vector error) ++ contextWords c vector error))
      (called ret c vector error) := by
  have hlength := contextWords_length c vector error
  have hnumbers := numbers_length_le vector
  have herror : error.toList.length ≤ 1 := by cases error <;> simp
  have hsaved : (savedWords (numbered c vector error)).length = 9 := rfl
  have hnumbered := numbered_holds (c := c) vector error (by omega)
  have hframe := saveAll_holds hnumbered (by omega)
  have hpointer := hframe.push (saveAll (numbered c vector error)).esp
    (by rw [List.length_append]; omega)
  rw [called_eq]
  exact hpointer.push ret (by rw [List.length_cons, List.length_append]; omega)

/-! ## The exit -/

theorem commonExit_esp (code : Target -> Cpu -> Cpu) (ret : UInt32) (c : Cpu) :
    (c.exec code ret commonExit).esp = c.esp + 60 := by
  change c.esp + 4 + 4 + 32 + 8 + 12 = c.esp + 60
  simp only [UInt32.add_assoc]
  rfl

/--
The processor after the exit of a stub, if it finds its words on the stack
behind the argument of the C function.
-/
theorem exec_commonExit {old : Memory} {top : Nat} {c : Cpu}
    {ds edi esi ebp esp ebx edx ecx eax number error eip cs flags : UInt32}
    {ws : List UInt32} (code : Target -> Cpu -> Cpu) (ret : UInt32)
    (hds : Stacked old top (ds :: edi :: esi :: ebp :: esp :: ebx :: edx ::
      ecx :: eax :: number :: error :: eip :: cs :: flags :: ws) c.mem (c.esp + 4))
    (htop : top < 2 ^ 32) :
    c.exec code ret commonExit =
      { general := { eax := eax, ecx := ecx, edx := edx, ebx := ebx, ebp := ebp,
                     esi := esi, edi := edi }
        esp := c.esp + 60, seg := fun _ => UInt16.ofNat ds.toNat,
        cs := UInt16.ofNat cs.toNat, eip := eip, eflags := flags, mem := c.mem } := by
  have hregs := (hds.pop htop).right
  have hnumbers := hregs.drop htop (n := 8) (by simp)
  have hreturn := hnumbers.drop htop (n := 2) (by simp)
  have hesp := commonExit_esp code ret c
  unfold commonExit at hesp ⊢
  rw [Cpu.exec_append, Cpu.exec_append, exec_loadSegments] at hesp ⊢
  apply Cpu.ext
  · apply General.ext
    · exact hregs.peek htop (n := 7) rfl
    · exact hregs.peek htop (n := 6) rfl
    · exact hregs.peek htop (n := 5) rfl
    · exact hregs.peek htop (n := 4) rfl
    · exact hregs.peek htop (n := 2) rfl
    · exact hregs.peek htop (n := 1) rfl
    · exact hregs.peek htop (n := 0) rfl
  · exact hesp
  · funext s
    exact congrArg (fun w => UInt16.ofNat w.toNat) (hds.peek htop (n := 0) rfl)
  · exact congrArg (fun w => UInt16.ofNat w.toNat) (hreturn.peek htop (n := 1) rfl)
  · exact hreturn.peek htop (n := 0) rfl
  · exact hreturn.peek htop (n := 2) rfl
  · rfl

/-! ## Whole interrupts -/

/-- A C function that comes back as the calling convention has it. -/
structure Returns (top : Nat) (before after : Cpu) : Prop where
  esp : after.esp = before.esp + 4
  frame : forall x, before.esp.toNat + 8 ≤ x -> x < top -> after.mem x = before.mem x

/-- The program that was interrupted can go on as if nothing had happened. -/
structure Resumed (c f : Cpu) : Prop where
  general : f.general = c.general
  esp : f.esp = c.esp
  seg : f.seg = c.seg
  cs : f.cs = c.cs
  eip : f.eip = c.eip
  eflags : f.eflags = c.eflags

theorem enter_general (c : Cpu) (error : Option UInt32) :
    (c.enter error).general = c.general :=
  Cpu.pushes_general c _

theorem numbered_general (c : Cpu) (vector : Nat) (error : Option UInt32) :
    (numbered c vector error).general = c.general := by
  unfold numbered
  rw [Cpu.pushes_general]
  exact enter_general c error

theorem numbered_seg (c : Cpu) (vector : Nat) (error : Option UInt32) :
    (numbered c vector error).seg = c.seg := by
  unfold numbered
  rw [Cpu.pushes_seg]
  exact Cpu.pushes_seg c _

theorem numbers_length_of_mem {vector : Nat} (h : vector ∈ errVectors) :
    (numbers vector).length = 1 := by
  unfold numbers
  rw [if_pos h]
  rfl

theorem numbers_length_of_not_mem {vector : Nat} (h : vector ∉ errVectors) :
    (numbers vector).length = 2 := by
  unfold numbers
  rw [if_neg h]
  rfl

/-- Where the stack pointer ends depends on how many numbers were pushed. -/
theorem interrupt_esp {code : Target -> Cpu -> Cpu} {ret : UInt32} {c : Cpu}
    {vector : Nat} {error : Option UInt32} (hroom : 68 ≤ c.esp.toNat)
    (hreturns : Returns c.esp.toNat (called ret c vector error)
      (code (target vector) (called ret c vector error))) :
    (interrupt code ret c vector error).esp.toNat =
      (c.esp.toNat + 8 - 4 * ((numbers vector).length + error.toList.length)) %
        2 ^ 32 := by
  have hdepth := (called_holds ret vector error hroom).depth
  have hcontext := contextWords_length c vector error
  have hsaved : (savedWords (numbered c vector error)).length = 9 := rfl
  rw [List.length_cons, List.length_cons, List.length_append] at hdepth
  rw [interrupt_eq, commonExit_esp, hreturns.esp, UInt32.add_assoc,
    UInt32.toNat_add]
  change ((called ret c vector error).esp.toNat + 64) % 2 ^ 32 = _
  congr 1
  omega

/-- A stub takes the numbers off again that the processor and it have pushed. -/
theorem interrupt_esp_iff {code : Target -> Cpu -> Cpu} {ret : UInt32} {c : Cpu}
    {vector : Nat} {error : Option UInt32} (hroom : 68 ≤ c.esp.toNat)
    (hreturns : Returns c.esp.toNat (called ret c vector error)
      (code (target vector) (called ret c vector error))) :
    (interrupt code ret c vector error).esp = c.esp ↔
      (error.isSome ↔ vector ∈ errVectors) := by
  have hlt := c.esp.toNat_lt
  rw [← UInt32.toNat_inj, interrupt_esp hroom hreturns]
  by_cases hmem : vector ∈ errVectors
  · rw [numbers_length_of_mem hmem]
    cases error with
    | none =>
        simp only [Option.toList_none, List.length_nil, Option.isSome_none, hmem,
          Bool.false_eq_true, false_iff, not_true_eq_false, iff_false]
        omega
    | some e =>
        simp only [Option.toList_some, List.length_cons, List.length_nil,
          Option.isSome_some, hmem, iff_true]
        omega
  · rw [numbers_length_of_not_mem hmem]
    cases error with
    | none =>
        simp only [Option.toList_none, List.length_nil, Option.isSome_none, hmem,
          Bool.false_eq_true, iff_true]
        omega
    | some e =>
        simp only [Option.toList_some, List.length_cons, List.length_nil,
          Option.isSome_some, hmem, iff_false, not_true_eq_false]
        omega

/-- The error code that the C function is told: that of the processor, or none. -/
def errCode (error : Option UInt32) : UInt32 := error.getD 0

/-- With an error code exactly where the stub expects one, the numbers fit. -/
theorem contextWords_eq (c : Cpu) {vector : Nat} {error : Option UInt32}
    (hfits : error.isSome ↔ vector ∈ errVectors) :
    contextWords c vector error =
      [UInt32.ofNat vector, errCode error, c.eip, UInt32.ofNat c.cs.toNat,
        c.eflags] := by
  unfold contextWords numbers
  cases error with
  | none =>
      have hmem : vector ∉ errVectors := fun h => by simpa using hfits.mpr h
      rw [if_neg hmem]
      rfl
  | some e =>
      rw [if_pos (hfits.mp rfl)]
      rfl

/-- The saved context is still there when the C function has returned. -/
theorem returned_stacked {c after : Cpu} {ret : UInt32} {vector : Nat}
    {error : Option UInt32} (hroom : 68 ≤ c.esp.toNat)
    (hreturns : Returns c.esp.toNat (called ret c vector error) after) :
    Stacked after.mem c.esp.toNat
      (savedWords (numbered c vector error) ++ contextWords c vector error)
      after.mem (after.esp + 4) := by
  have htop := c.esp.toNat_lt
  have hcalled := called_holds ret vector error hroom
  have hframe := ((hcalled.pop htop).right.pop htop).right
  have hdepth := hcalled.depth
  have hdepth' := hframe.depth
  simp only [List.length_cons] at hdepth
  rw [hreturns.esp]
  apply hframe.rebase
  intro x hx hlt
  exact hreturns.frame x (by omega) hlt

theorem interrupt_fits {code : Target -> Cpu -> Cpu} {ret : UInt32} {c : Cpu}
    {vector : Nat} {error : Option UInt32} (hroom : 68 ≤ c.esp.toNat)
    (hreturns : Returns c.esp.toNat (called ret c vector error)
      (code (target vector) (called ret c vector error)))
    (hfits : error.isSome ↔ vector ∈ errVectors) :
    interrupt code ret c vector error =
      { c with seg := fun _ => c.seg .ds
               mem := (code (target vector) (called ret c vector error)).mem } := by
  have hstack := returned_stacked hroom hreturns
  have hesp := (interrupt_esp_iff hroom hreturns).mpr hfits
  rw [contextWords_eq c hfits] at hstack
  have hexit := exec_commonExit code ret hstack c.esp.toNat_lt
  rw [interrupt_eq] at hesp ⊢
  rw [hexit] at hesp ⊢
  apply Cpu.ext
  · change General.mk _ _ _ _ _ _ _ = c.general
    rw [numbered_general]
  · exact hesp
  · funext s
    change UInt16.ofNat (dsWord (numbered c vector error)).toNat = c.seg .ds
    rw [dsWord_low, numbered_seg]
  · change UInt16.ofNat (UInt32.ofNat c.cs.toNat).toNat = c.cs
    have hcs := c.cs.toNat_lt
    apply UInt16.toNat_inj.mp
    rw [UInt16.toNat_ofNat', UInt32.toNat_ofNat']
    omega
  · rfl
  · rfl
  · rfl

/--
A stub gives the interrupted program its whole context back exactly when the
processor pushed an error code where the stub was written for one, and the four
data segment registers were equal.
-/
theorem interrupt_resumes_iff {code : Target -> Cpu -> Cpu} {ret : UInt32} {c : Cpu}
    {vector : Nat} {error : Option UInt32} (hroom : 68 ≤ c.esp.toNat)
    (hreturns : Returns c.esp.toNat (called ret c vector error)
      (code (target vector) (called ret c vector error))) :
    Resumed c (interrupt code ret c vector error) ↔
      (error.isSome ↔ vector ∈ errVectors) ∧ forall s, c.seg s = c.seg .ds := by
  constructor
  · intro hresumed
    have hfits := (interrupt_esp_iff hroom hreturns).mp hresumed.esp
    have hseg := hresumed.seg
    rw [interrupt_fits hroom hreturns hfits] at hseg
    exact ⟨hfits, fun s => (congrFun hseg s).symm⟩
  · rintro ⟨hfits, hseg⟩
    rw [interrupt_fits hroom hreturns hfits]
    exact ⟨rfl, rfl, funext fun s => (hseg s).symm, rfl, rfl, rfl⟩

/-- A C function that returns at once, and an interrupted idle loop. -/
def returnAtOnce (_ : Target) (c : Cpu) : Cpu := { c with esp := c.esp + 4 }

def idleCpu : Cpu where
  general := { eax := 1, ecx := 2, edx := 3, ebx := 4, ebp := 5, esi := 6, edi := 7 }
  esp := 0x9000
  seg := fun _ => kernelDs
  cs := 8
  eip := 0x100000
  eflags := 0x202
  mem := fun _ => 0

/-! ## The structure that the C functions get -/

theorem numbered_dsWord (c : Cpu) (vector : Nat) (error : Option UInt32) :
    dsWord (numbered c vector error) = dsWord c := by
  unfold dsWord Cpu.setAx Cpu.setEax
  rw [numbered_general, numbered_seg]

theorem numbered_esp {c : Cpu} {vector : Nat} {error : Option UInt32}
    (hroom : 68 ≤ c.esp.toNat) (hfits : error.isSome ↔ vector ∈ errVectors) :
    (numbered c vector error).esp = c.esp - 20 := by
  have hholds := numbered_holds (c := c) vector error (by omega)
  rw [contextWords_eq c hfits] at hholds
  have hdepth := hholds.depth
  have hle : (20 : UInt32) ≤ c.esp :=
    UInt32.le_iff_toNat_le.mpr (show 20 ≤ c.esp.toNat by omega)
  apply UInt32.toNat_inj.mp
  rw [UInt32.toNat_sub_of_le _ _ hle]
  change (numbered c vector error).esp.toNat = c.esp.toNat - 20
  simp only [List.length_cons, List.length_nil] at hdepth
  omega

theorem numbered_savedWords {c : Cpu} {vector : Nat} {error : Option UInt32}
    (hroom : 68 ≤ c.esp.toNat) (hfits : error.isSome ↔ vector ∈ errVectors) :
    savedWords (numbered c vector error) =
      savedWords { c with esp := c.esp - 20 } := by
  unfold savedWords
  rw [numbered_dsWord, numbered_general, numbered_esp hroom hfits]
  rfl

def contextRegs (c : Cpu) (vector : Nat) (error : Option UInt32) : Regs where
  ds := dsWord c
  edi := c.general.edi
  esi := c.general.esi
  ebp := c.general.ebp
  esp := c.esp - 20
  ebx := c.general.ebx
  edx := c.general.edx
  ecx := c.general.ecx
  eax := c.general.eax
  intNo := UInt32.ofNat vector
  errCode := errCode error
  eip := c.eip
  cs := UInt32.ofNat c.cs.toNat
  eflags := c.eflags
  useresp := loadWord c.mem c.esp.toNat
  ss := loadWord c.mem (c.esp + 4).toNat

theorem called_seg (ret : UInt32) (c : Cpu) (vector : Nat) (error : Option UInt32)
    (s : SegReg) : (called ret c vector error).seg s = kernelDs := by
  rw [called_eq]
  rfl

theorem regsAt_eq {c d : Cpu} {p : UInt32} {vector : Nat} {error : Option UInt32}
    (htop : c.esp.toNat + 8 ≤ 2 ^ 32)
    (hframe : Stacked c.mem c.esp.toNat
      (savedWords { c with esp := c.esp - 20 } ++
        [UInt32.ofNat vector, errCode error, c.eip, UInt32.ofNat c.cs.toNat,
          c.eflags]) d.mem p) :
    regsAt d.mem p = contextRegs c vector error := by
  have hlt := c.esp.toNat_lt
  have hrest := hframe.drop hlt (n := 14) (by simp [savedWords])
  have hesp : p + 4 * UInt32.ofNat 14 = c.esp := UInt32.toNat_inj.mp hrest.depth
  have hss : p + 4 * UInt32.ofNat 15 = c.esp + 4 := by
    rw [← hesp, UInt32.add_assoc]
    rfl
  have htoNat : (c.esp + 4).toNat = c.esp.toNat + 4 := by
    rw [UInt32.toNat_add]
    exact Nat.mod_eq_of_lt (show c.esp.toNat + 4 < 2 ^ 32 by omega)
  apply Regs.ext
  · exact hframe.peek hlt (n := 0) rfl
  · exact hframe.peek hlt (n := 1) rfl
  · exact hframe.peek hlt (n := 2) rfl
  · exact hframe.peek hlt (n := 3) rfl
  · exact hframe.peek hlt (n := 4) rfl
  · exact hframe.peek hlt (n := 5) rfl
  · exact hframe.peek hlt (n := 6) rfl
  · exact hframe.peek hlt (n := 7) rfl
  · exact hframe.peek hlt (n := 8) rfl
  · exact hframe.peek hlt (n := 9) rfl
  · exact hframe.peek hlt (n := 10) rfl
  · exact hframe.peek hlt (n := 11) rfl
  · exact hframe.peek hlt (n := 12) rfl
  · exact hframe.peek hlt (n := 13) rfl
  · change loadWord d.mem (p + 4 * UInt32.ofNat 14).toNat = _
    rw [hesp]
    exact loadWord_congr fun x hx _ => hframe.above x hx
  · change loadWord d.mem (p + 4 * UInt32.ofNat 15).toNat = _
    rw [hss]
    exact loadWord_congr fun x hx _ => hframe.above x (by omega)

/--
A C function is called with the segments of the kernel and a pointer to the
whole interrupted context, with the vector and the error code; the two fields
that only a change of privilege would fill show what the interrupted program had
on top of its stack, and that stack is untouched.
-/
theorem called_regs {c : Cpu} (ret : UInt32) {vector : Nat} {error : Option UInt32}
    (hroom : 68 ≤ c.esp.toNat) (htop : c.esp.toNat + 8 ≤ 2 ^ 32)
    (hfits : error.isSome ↔ vector ∈ errVectors) :
    regsAt (called ret c vector error).mem ((called ret c vector error).peek 1) =
        contextRegs c vector error ∧
      (forall s, (called ret c vector error).seg s = kernelDs) ∧
      forall x, c.esp.toNat ≤ x -> (called ret c vector error).mem x = c.mem x := by
  have hlt := c.esp.toNat_lt
  have hcalled := called_holds ret vector error hroom
  have hframe := ((hcalled.pop hlt).right.pop hlt).right
  have hpointer : (called ret c vector error).peek 1 =
      (called ret c vector error).esp + 4 + 4 := by
    rw [hcalled.peek hlt (n := 1) rfl, called_eq]
    change _ = (saveAll (numbered c vector error)).esp - 4 - 4 + 4 + 4
    rw [UInt32.sub_add_cancel, UInt32.sub_add_cancel]
  rw [contextWords_eq c hfits, numbered_savedWords hroom hfits] at hframe
  constructor
  · rw [hpointer]
    exact regsAt_eq htop hframe
  · constructor
    · exact called_seg ret c vector error
    · exact hcalled.above

theorem page_fault_regs :
    (regsAt (called 0x1000 idleCpu 14 (some 2)).mem
      ((called 0x1000 idleCpu 14 (some 2)).peek 1)).errCode = 2 :=
  congrArg Regs.errCode
    (called_regs 0x1000 (by decide) (by decide) (by decide)).left

end Arch
end EarlnuxOS
