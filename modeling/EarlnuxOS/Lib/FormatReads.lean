import EarlnuxOS.Foundation.Halting
import EarlnuxOS.Foundation.Words
import EarlnuxOS.Lib.PrintfAgreement

/-!
# Reading the format string

The loops of `kvprintf` and `kvsnprintf` as they move `fmt` through memory.
Each step of the machine looks at the one byte `*fmt`.  Only the character
behind `%` is compared with the terminator; the conversion is not, and a
directive that has none takes `fmt` past it.
-/

namespace EarlnuxOS
namespace Lib

open Foundation Fs

/-!
# The loops
-/

inductive Point where
  | text
  | afterPercent
  | minus
  | width
  | dot
  | precision
  | modifier
  | conversion
deriving DecidableEq

structure Scan where
  point : Point
  fmt : Nat
  isLong : Bool
  args : Nat
  out : CStr

/-- What the two functions do not share: where a character goes, and the switch. -/
structure Engine where
  putchar : CStr -> UInt8 -> CStr
  convert : UInt8 -> Bool -> Nat -> CStr -> CStr × Nat

def kvprintfEngine (a : VarArgs) : Engine where
  putchar := consolePutchar
  convert := kvprintfSwitch a

def kvsnprintfEngine (a : VarArgs) (n : Nat) : Engine where
  putchar := sbufPutchar n
  convert := kvsnprintfSwitch a n

namespace Engine

def step (e : Engine) (m : Memory) (s : Scan) : Option Scan :=
  let c := m s.fmt
  match s.point with
  | Point.text =>
      -- while (*fmt)
      if c = 0 then none
      else if c ≠ percent then
        some { s with fmt := s.fmt + 1, out := e.putchar s.out c }
      else some { s with point := Point.afterPercent, fmt := s.fmt + 1 }
  | Point.afterPercent =>
      -- if (!*fmt) break;
      if c = 0 then none else some { s with point := Point.minus }
  | Point.minus =>
      if c = 0x2D then
        some { s with point := Point.width, fmt := s.fmt + 1 }
      else some { s with point := Point.width }
  | Point.width =>
      if isDigit c then some { s with fmt := s.fmt + 1 }
      else some { s with point := Point.dot }
  | Point.dot =>
      if c = 0x2E then
        some { s with point := Point.precision, fmt := s.fmt + 1 }
      else some { s with point := Point.modifier }
  | Point.precision =>
      if isDigit c then some { s with fmt := s.fmt + 1 }
      else some { s with point := Point.modifier }
  | Point.modifier =>
      if c = 0x6C then
        some { s with
          point := Point.conversion
          fmt := s.fmt + 1
          isLong := true }
      else some { s with point := Point.conversion, isLong := false }
  | Point.conversion =>
      -- switch (*fmt++)
      let put := e.convert c s.isLong s.args s.out
      some
        { point := Point.text
          fmt := s.fmt + 1
          isLong := false
          args := put.2
          out := put.1 }

end Engine

def scanStart (fmt : Nat) : Scan where
  point := Point.text
  fmt := fmt
  isLong := false
  args := 0
  out := []

/-- The loop ends, and each `*fmt` it reads is no further than `stop`. -/
def ReadsUpTo (e : Engine) (m : Memory) (fmt stop : Nat) : Prop :=
  exists trace last, Halts (e.step m) (scanStart fmt) trace last ∧
    (forall s, s ∈ trace -> s.fmt ≤ stop) ∧ last.fmt ≤ stop

/-- `kvprintf` ends and reads the format no further than `stop`. -/
def KvprintfReadsUpTo (a : VarArgs) (m : Memory) (fmt stop : Nat) : Prop :=
  ReadsUpTo (kvprintfEngine a) m fmt stop

/-- `kvsnprintf` returns at once when there is no room to print in. -/
def KvsnprintfReadsUpTo (a : VarArgs) (m : Memory) (buf n fmt stop : Nat) :
    Prop :=
  if buf = 0 ∨ n = 0 then True
  else ReadsUpTo (kvsnprintfEngine a n) m fmt stop

/-!
# Directives that are cut off
-/

/-- What is left of the format at the conversion of a directive. -/
def atConversion (fmt : CStr) : CStr := (lengthModifier (skipWidth fmt)).2

/-- The format ends inside a directive, with something behind its `%`. -/
inductive CutOff : CStr -> Prop where
  | plain {c : UInt8} {fmt : CStr} : c ≠ percent -> CutOff fmt ->
      CutOff (c :: fmt)
  | here {fmt : CStr} : fmt ≠ [] -> atConversion fmt = [] ->
      CutOff (percent :: fmt)
  | later {fmt rest : CStr} {conv : UInt8} : atConversion fmt = conv :: rest ->
      CutOff rest -> CutOff (percent :: fmt)

/-- The directive has no conversion, or a later one has none. -/
def CutOffAt (fmt : CStr) : Prop :=
  fmt = [] ∨ exists conv rest, fmt = conv :: rest ∧ CutOff rest

theorem not_cutOff_nil : ¬ CutOff [] := by
  intro h
  cases h

theorem cutOff_plain {c : UInt8} {fmt : CStr} (hc : c ≠ percent) :
    CutOff (c :: fmt) <-> CutOff fmt := by
  constructor
  · intro h
    cases h with
    | plain _ hfmt => exact hfmt
    | here _ _ => exact absurd rfl hc
    | later _ _ => exact absurd rfl hc
  · exact CutOff.plain hc

theorem not_cutOff_percent : ¬ CutOff [percent] := by
  intro h
  cases h with
  | plain hc _ => exact hc rfl
  | here hne _ => exact hne rfl
  | later hconv _ => cases hconv

theorem cutOff_directive {fmt : CStr} (hne : fmt ≠ []) :
    CutOff (percent :: fmt) <-> CutOffAt (atConversion fmt) := by
  constructor
  · intro h
    cases h with
    | plain hc _ => exact absurd rfl hc
    | here _ hnil => exact Or.inl hnil
    | later hconv hrest => exact Or.inr ⟨_, _, hconv, hrest⟩
  · intro h
    rcases h with hnil | ⟨conv, rest, hconv, hrest⟩
    · exact CutOff.here hne hnil
    · exact CutOff.later hconv hrest

theorem cutOffAt_cons {conv : UInt8} {rest : CStr} :
    CutOffAt (conv :: rest) <-> CutOff rest := by
  constructor
  · intro h
    rcases h with hnil | ⟨_, _, hcons, hrest⟩
    · cases hnil
    · cases hcons
      exact hrest
  · exact fun h => Or.inr ⟨conv, rest, rfl, h⟩

/-!
# One step
-/

/-- `fmt` points at the rest of a format that ends at `stop`. -/
structure Stands (m : Memory) (stop : Nat) (s : Scan) (rest : CStr) :
    Prop where
  string : HoldsString m s.fmt rest
  ends : s.fmt + rest.length = stop

def Point.rank : Point -> Nat
  | Point.text => 0
  | Point.afterPercent => 7
  | Point.minus => 6
  | Point.width => 5
  | Point.dot => 4
  | Point.precision => 3
  | Point.modifier => 2
  | Point.conversion => 1

theorem Point.rank_lt (p : Point) : p.rank < 8 := by
  cases p <;> decide

def Scan.size (stop : Nat) (s : Scan) : Nat :=
  8 * (stop - s.fmt) + s.point.rank

def Point.InDirective (p : Point) : Prop :=
  p ≠ Point.text ∧ p ≠ Point.afterPercent

/-- `is_long` at the conversion, and what is left of the format there. -/
def Scan.ahead (s : Scan) (rest : CStr) : Bool × CStr :=
  match s.point with
  | Point.text | Point.afterPercent | Point.minus =>
      lengthModifier (skipWidth rest)
  | Point.width => lengthModifier (skipPrecision (skipDigits rest))
  | Point.dot => lengthModifier (skipPrecision rest)
  | Point.precision => lengthModifier (skipDigits rest)
  | Point.modifier => lengthModifier rest
  | Point.conversion => (s.isLong, rest)

/-- What a step does to the state and to the rest of the format. -/
inductive Reads (e : Engine) : Scan -> CStr -> Scan -> CStr -> Prop where
  | plain {s s' : Scan} {c : UInt8} {rest : CStr} : s.point = Point.text ->
      c ≠ percent -> s'.point = Point.text -> s'.args = s.args ->
      s'.out = e.putchar s.out c -> Reads e s (c :: rest) s' rest
  | percent {s s' : Scan} {rest : CStr} : s.point = Point.text ->
      s'.point = Point.afterPercent -> s'.args = s.args -> s'.out = s.out ->
      Reads e s (percent :: rest) s' rest
  | more {s s' : Scan} {rest : CStr} : s.point = Point.afterPercent ->
      rest ≠ [] -> s'.point = Point.minus -> s'.args = s.args ->
      s'.out = s.out -> Reads e s rest s' rest
  | scan {s s' : Scan} {rest rest' : CStr} : s.point.InDirective ->
      s'.point.InDirective -> s'.ahead rest' = s.ahead rest ->
      s'.args = s.args -> s'.out = s.out -> Reads e s rest s' rest'
  | convert {s s' : Scan} {conv : UInt8} {rest : CStr} :
      s.point = Point.conversion -> s'.point = Point.text ->
      (s'.out, s'.args) = e.convert conv s.isLong s.args s.out ->
      Reads e s (conv :: rest) s' rest

/-- The state is still in front of the end, and nearer to it. -/
structure Nearer (m : Memory) (stop : Nat) (s s' : Scan) (rest' : CStr) :
    Prop where
  stands : Stands m stop s' rest'
  size : s'.size stop < s.size stop

namespace Stands

variable {m : Memory} {stop : Nat} {s s' : Scan} {rest : CStr} {c : UInt8}

theorem stay (h : Stands m stop s rest) (hfmt : s'.fmt = s.fmt)
    (hrank : s'.point.rank < s.point.rank) : Nearer m stop s s' rest where
  stands := ⟨by rw [hfmt]; exact h.string, by rw [hfmt]; exact h.ends⟩
  size := by
    unfold Scan.size
    rw [hfmt]
    exact Nat.add_lt_add_left hrank _

theorem advance (h : Stands m stop s (c :: rest)) (hfmt : s'.fmt = s.fmt + 1) :
    Nearer m stop s s' rest where
  stands := by
    have hends := h.ends
    rw [List.length_cons] at hends
    constructor
    · rw [hfmt]
      exact h.string.right.right
    · rw [hfmt]
      omega
  size := by
    have hends := h.ends
    have hrank := s'.point.rank_lt
    rw [List.length_cons] at hends
    unfold Scan.size
    rw [hfmt]
    omega

theorem byte (h : Stands m stop s rest) : m s.fmt = rest.headD 0 := by
  cases rest with
  | nil => exact h.string
  | cons c rest => exact h.string.left

theorem text (h : Stands m stop s rest) (e : Engine)
    (hpoint : s.point = Point.text) :
    (e.step m s = none ∧ rest = []) ∨
      exists s' rest', e.step m s = some s' ∧ Nearer m stop s s' rest' ∧
        Reads e s rest s' rest' := by
  unfold Engine.step
  rw [hpoint, h.byte]
  cases rest with
  | nil => exact Or.inl ⟨rfl, rfl⟩
  | cons c rest =>
      have hc : c ≠ 0 := h.string.right.left
      dsimp only [List.headD_cons]
      rw [if_neg hc]
      refine Or.inr ?_
      split
      · rename_i hplain
        exact ⟨_, rest, rfl, h.advance rfl,
          Reads.plain hpoint hplain rfl rfl rfl⟩
      · rename_i hpercent
        rw [not_not.mp hpercent] at h ⊢
        exact ⟨_, rest, rfl, h.advance rfl, Reads.percent hpoint rfl rfl rfl⟩

theorem afterPercent (h : Stands m stop s rest) (e : Engine)
    (hpoint : s.point = Point.afterPercent) :
    (e.step m s = none ∧ rest = []) ∨
      exists s' rest', e.step m s = some s' ∧ Nearer m stop s s' rest' ∧
        Reads e s rest s' rest' := by
  unfold Engine.step
  rw [hpoint, h.byte]
  cases rest with
  | nil => exact Or.inl ⟨rfl, rfl⟩
  | cons c rest =>
      have hc : c ≠ 0 := h.string.right.left
      have hrank : Point.minus.rank < s.point.rank := by
        rw [hpoint]
        decide
      dsimp only [List.headD_cons]
      rw [if_neg hc]
      exact Or.inr ⟨_, c :: rest, rfl, h.stay rfl hrank,
        Reads.more hpoint (List.cons_ne_nil c rest) rfl rfl rfl⟩

theorem optional (h : Stands m stop s rest) (e : Engine)
    (test : UInt8 -> Prop) [DecidablePred test] (hnul : ¬ test 0)
    {s₁ s₂ : Scan} (hin : s.point.InDirective) (hin₁ : s₁.point.InDirective)
    (hin₂ : s₂.point.InDirective)
    (hmove₁ : s₁.fmt = s.fmt + 1 ∧ s₁.args = s.args ∧ s₁.out = s.out)
    (hmove₂ : s₂.fmt = s.fmt ∧ s₂.args = s.args ∧ s₂.out = s.out)
    (hahead₁ : forall c r, test c -> s₁.ahead r = s.ahead (c :: r))
    (hend : s₂.ahead [] = s.ahead [])
    (hahead₂ : forall c r, ¬ test c -> s₂.ahead (c :: r) = s.ahead (c :: r))
    (hrank : s₂.point.rank < s.point.rank) :
    exists s' rest', (if test (m s.fmt) then some s₁ else some s₂) = some s' ∧
      Nearer m stop s s' rest' ∧ Reads e s rest s' rest' := by
  rw [h.byte]
  split
  · rename_i htest
    cases rest with
    | nil => exact absurd htest hnul
    | cons c r =>
        exact ⟨s₁, r, rfl, h.advance hmove₁.left,
          Reads.scan hin hin₁ (hahead₁ c r htest) hmove₁.right.left
            hmove₁.right.right⟩
  · rename_i htest
    have hahead : s₂.ahead rest = s.ahead rest := by
      cases rest with
      | nil => exact hend
      | cons c r => exact hahead₂ c r htest
    exact ⟨s₂, rest, rfl, h.stay hmove₂.left hrank,
      Reads.scan hin hin₂ hahead hmove₂.right.left hmove₂.right.right⟩

theorem scanning (h : Stands m stop s rest) (e : Engine)
    (hin : s.point.InDirective) (hconv : s.point ≠ Point.conversion) :
    exists s' rest', e.step m s = some s' ∧ Nearer m stop s s' rest' ∧
      Reads e s rest s' rest' := by
  rcases s with ⟨point, fmt, isLong, args, out⟩
  cases point with
  | text => exact absurd rfl hin.left
  | afterPercent => exact absurd rfl hin.right
  | conversion => exact absurd rfl hconv
  | minus =>
      refine h.optional e (fun c => c = 0x2D) (by decide) hin
        (by simp [Point.InDirective]) (by simp [Point.InDirective])
        ⟨rfl, rfl, rfl⟩ ⟨rfl, rfl, rfl⟩ ?_ rfl ?_ (by simp [Point.rank])
      · intro c r hc
        simp [Scan.ahead, skipWidth, skipMinus, hc]
      · intro c r hc
        simp [Scan.ahead, skipWidth, skipMinus, hc]
  | width =>
      refine h.optional e (fun c => isDigit c = true) (by decide) hin
        (by simp [Point.InDirective]) (by simp [Point.InDirective])
        ⟨rfl, rfl, rfl⟩ ⟨rfl, rfl, rfl⟩ ?_ rfl ?_ (by simp [Point.rank])
      · intro c r hc
        simp [Scan.ahead, skipDigits, hc]
      · intro c r hc
        simp [Scan.ahead, skipDigits, hc]
  | dot =>
      refine h.optional e (fun c => c = 0x2E) (by decide) hin
        (by simp [Point.InDirective]) (by simp [Point.InDirective])
        ⟨rfl, rfl, rfl⟩ ⟨rfl, rfl, rfl⟩ ?_ rfl ?_ (by simp [Point.rank])
      · intro c r hc
        simp [Scan.ahead, skipPrecision, hc]
      · intro c r hc
        simp [Scan.ahead, skipPrecision, hc]
  | precision =>
      refine h.optional e (fun c => isDigit c = true) (by decide) hin
        (by simp [Point.InDirective]) (by simp [Point.InDirective])
        ⟨rfl, rfl, rfl⟩ ⟨rfl, rfl, rfl⟩ ?_ rfl ?_ (by simp [Point.rank])
      · intro c r hc
        simp [Scan.ahead, skipDigits, hc]
      · intro c r hc
        simp [Scan.ahead, skipDigits, hc]
  | modifier =>
      refine h.optional e (fun c => c = 0x6C) (by decide) hin
        (by simp [Point.InDirective]) (by simp [Point.InDirective])
        ⟨rfl, rfl, rfl⟩ ⟨rfl, rfl, rfl⟩ ?_ rfl ?_ (by simp [Point.rank])
      · intro c r hc
        simp [Scan.ahead, lengthModifier, hc]
      · intro c r hc
        simp [Scan.ahead, lengthModifier, hc]

theorem conversion (h : Stands m stop s rest) (e : Engine)
    (hpoint : s.point = Point.conversion) :
    exists s', e.step m s = some s' ∧
      ((rest = [] ∧ s'.fmt = stop + 1) ∨
        exists rest', Nearer m stop s s' rest' ∧ Reads e s rest s' rest') := by
  rcases s with ⟨point, fmt, isLong, args, out⟩
  cases hpoint
  refine ⟨_, rfl, ?_⟩
  cases rest with
  | nil => exact Or.inl ⟨rfl, congrArg (· + 1) h.ends⟩
  | cons c rest =>
      have hc : m fmt = c := h.string.left
      refine Or.inr ⟨rest, h.advance rfl, Reads.convert rfl rfl ?_⟩
      rw [← hc]

end Stands

def Point.CanEnd (p : Point) : Prop :=
  p = Point.text ∨ p = Point.afterPercent

theorem step_cases (e : Engine) {m : Memory} {stop : Nat} {s : Scan}
    {rest : CStr} (h : Stands m stop s rest) :
    (e.step m s = none ∧ s.point.CanEnd ∧ rest = []) ∨
      exists s', e.step m s = some s' ∧
        ((s.point = Point.conversion ∧ rest = [] ∧ s'.fmt = stop + 1) ∨
          exists rest', Nearer m stop s s' rest' ∧ Reads e s rest s' rest') := by
  by_cases htext : s.point = Point.text
  · rcases h.text e htext with ⟨hdone, hnil⟩ | ⟨s', rest', hstep, hreads⟩
    · exact Or.inl ⟨hdone, Or.inl htext, hnil⟩
    · exact Or.inr ⟨s', hstep, Or.inr ⟨rest', hreads⟩⟩
  by_cases hafter : s.point = Point.afterPercent
  · rcases h.afterPercent e hafter with ⟨hdone, hnil⟩ | ⟨s', rest', hstep, hreads⟩
    · exact Or.inl ⟨hdone, Or.inr hafter, hnil⟩
    · exact Or.inr ⟨s', hstep, Or.inr ⟨rest', hreads⟩⟩
  by_cases hconv : s.point = Point.conversion
  · rcases h.conversion e hconv with ⟨s', hstep, hreads⟩
    exact Or.inr ⟨s', hstep, hreads.imp_left fun hpast => ⟨hconv, hpast⟩⟩
  · rcases h.scanning e ⟨htext, hafter⟩ hconv with ⟨s', rest', hstep, hreads⟩
    exact Or.inr ⟨s', hstep, Or.inr ⟨rest', hreads⟩⟩

/-!
# Whether the format is cut off
-/

/-- The directive in work, or a later one, has no conversion. -/
def Scan.cutOff (s : Scan) (rest : CStr) : Prop :=
  match s.point with
  | Point.text => CutOff rest
  | Point.afterPercent => CutOff (percent :: rest)
  | _ => CutOffAt (s.ahead rest).2

theorem Scan.cutOff_inDirective {s : Scan} (h : s.point.InDirective)
    (rest : CStr) : s.cutOff rest <-> CutOffAt (s.ahead rest).2 := by
  unfold Scan.cutOff
  cases hpoint : s.point with
  | text => exact absurd hpoint h.left
  | afterPercent => exact absurd hpoint h.right
  | _ => exact Iff.rfl

theorem Point.inDirective_minus : Point.minus.InDirective :=
  ⟨by decide, by decide⟩

theorem Reads.cutOff {e : Engine} {s s' : Scan} {rest rest' : CStr}
    (h : Reads e s rest s' rest') : s'.cutOff rest' <-> s.cutOff rest := by
  cases h with
  | plain hpoint hc hpoint' _ _ =>
      unfold Scan.cutOff
      rw [hpoint, hpoint']
      exact (cutOff_plain hc).symm
  | percent hpoint hpoint' _ _ =>
      unfold Scan.cutOff
      rw [hpoint, hpoint']
  | more hpoint hne hpoint' _ _ =>
      have hin : s'.point.InDirective := hpoint' ▸ Point.inDirective_minus
      have hahead : s'.ahead rest = lengthModifier (skipWidth rest) := by
        unfold Scan.ahead
        rw [hpoint']
      rw [Scan.cutOff_inDirective hin, hahead]
      unfold Scan.cutOff
      rw [hpoint]
      exact (cutOff_directive hne).symm
  | scan hin hin' hahead _ _ =>
      rw [Scan.cutOff_inDirective hin, Scan.cutOff_inDirective hin', hahead]
  | convert hpoint hpoint' _ =>
      unfold Scan.cutOff Scan.ahead
      rw [hpoint, hpoint']
      exact cutOffAt_cons.symm

theorem not_cutOff_canEnd {s : Scan} (h : s.point.CanEnd) : ¬ s.cutOff [] := by
  unfold Scan.cutOff
  rcases h with hpoint | hpoint
  · rw [hpoint]
    exact not_cutOff_nil
  · rw [hpoint]
    exact not_cutOff_percent

/-!
# What is printed
-/

namespace Engine

def loop (e : Engine) : Nat -> CStr -> Nat -> CStr -> CStr
  | 0, _, _, out => out
  | steps + 1, fmt, args, out =>
      match fmt with
      | [] => out
      | c :: fmt =>
          if c ≠ percent then e.loop steps fmt args (e.putchar out c)
          else if fmt = [] then out
          else
            match lengthModifier (skipWidth fmt) with
            | (_, []) => e.putchar out questionMark
            | (isLong, conv :: fmt) =>
                let put := e.convert conv isLong args out
                e.loop steps fmt put.2 put.1

theorem loop_kvprintf (a : VarArgs) (steps : Nat) (fmt : CStr) (args : Nat)
    (out : CStr) : (kvprintfEngine a).loop steps fmt args out =
      (kvprintfLoop a steps fmt args out).1 := by
  induction steps generalizing fmt args out with
  | zero => rfl
  | succ steps ih =>
      unfold loop kvprintfLoop
      cases fmt with
      | nil => rfl
      | cons c fmt =>
          dsimp only
          rw [ih]
          split
          · rfl
          split
          · rfl
          cases hspec : lengthModifier (skipWidth fmt) with
          | mk isLong fmt' =>
              cases fmt' with
              | nil => rfl
              | cons conv fmt' => exact ih _ _ _

theorem loop_kvsnprintf (a : VarArgs) (n steps : Nat) (fmt : CStr)
    (args : Nat) (b : CStr) : (kvsnprintfEngine a n).loop steps fmt args b =
      (kvsnprintfLoop a n steps fmt args b).1 := by
  induction steps generalizing fmt args b with
  | zero => rfl
  | succ steps ih =>
      unfold loop kvsnprintfLoop
      cases fmt with
      | nil => rfl
      | cons c fmt =>
          dsimp only
          rw [ih]
          split
          · rfl
          split
          · rfl
          cases hspec : lengthModifier (skipWidth fmt) with
          | mk isLong fmt' =>
              cases fmt' with
              | nil => rfl
              | cons conv fmt' => exact ih _ _ _

theorem loop_steps (e : Engine) {steps : Nat} {fmt : CStr} (args : Nat)
    (out : CStr) (h : fmt.length ≤ steps) :
    e.loop steps fmt args out = e.loop fmt.length fmt args out := by
  induction steps using Nat.strongRecOn generalizing fmt args out with
  | ind steps ih =>
      cases steps with
      | zero =>
          rw [List.length_eq_zero_iff.mp (Nat.le_zero.mp h)]
          rfl
      | succ steps =>
          cases fmt with
          | nil => rfl
          | cons c fmt =>
              rw [List.length_cons] at h ⊢
              unfold loop
              dsimp only
              rw [ih steps (Nat.lt_succ_self _) args (e.putchar out c)
                (Nat.le_of_succ_le_succ h)]
              cases hspec : lengthModifier (skipWidth fmt) with
              | mk isLong fmt' =>
                  cases fmt' with
                  | nil => rfl
                  | cons conv fmt' =>
                      have hlt := length_directive hspec
                      dsimp only
                      rw [ih steps (Nat.lt_succ_self _) _ _
                          (by omega : fmt'.length ≤ steps),
                        ih fmt.length (by omega) _ _ (Nat.le_of_lt hlt)]

def directive (e : Engine) (spec : Bool × CStr) (args : Nat) (out : CStr) :
    CStr :=
  match spec with
  | (_, []) => e.putchar out questionMark
  | (isLong, conv :: fmt) =>
      let put := e.convert conv isLong args out
      e.loop fmt.length fmt put.2 put.1

theorem loop_directive (e : Engine) {fmt : CStr} (args : Nat) (out : CStr)
    (hne : fmt ≠ []) :
    e.loop (percent :: fmt).length (percent :: fmt) args out =
      e.directive (lengthModifier (skipWidth fmt)) args out := by
  rw [List.length_cons]
  unfold loop directive
  dsimp only
  rw [if_neg (by simp), if_neg hne]
  cases hspec : lengthModifier (skipWidth fmt) with
  | mk isLong fmt' =>
      cases fmt' with
      | nil => rfl
      | cons conv fmt' =>
          have hlt := length_directive hspec
          exact e.loop_steps _ _ (Nat.le_of_lt hlt)

end Engine

/-- All that will have been printed when the loop ends. -/
def Scan.result (e : Engine) (s : Scan) (rest : CStr) : CStr :=
  match s.point with
  | Point.text => e.loop rest.length rest s.args s.out
  | Point.afterPercent =>
      e.loop (percent :: rest).length (percent :: rest) s.args s.out
  | _ => e.directive (s.ahead rest) s.args s.out

theorem Scan.result_inDirective (e : Engine) {s : Scan}
    (h : s.point.InDirective) (rest : CStr) :
    s.result e rest = e.directive (s.ahead rest) s.args s.out := by
  unfold Scan.result
  cases hpoint : s.point with
  | text => exact absurd hpoint h.left
  | afterPercent => exact absurd hpoint h.right
  | _ => rfl

theorem Reads.result {e : Engine} {s s' : Scan} {rest rest' : CStr}
    (h : Reads e s rest s' rest') : s'.result e rest' = s.result e rest := by
  cases h with
  | plain hpoint hc hpoint' hargs hout =>
      unfold Scan.result
      rw [hpoint, hpoint', hargs, hout, List.length_cons]
      exact (if_pos hc).symm
  | percent hpoint hpoint' hargs hout =>
      unfold Scan.result
      rw [hpoint, hpoint', hargs, hout]
  | more hpoint hne hpoint' hargs hout =>
      have hin : s'.point.InDirective := hpoint' ▸ Point.inDirective_minus
      have hahead : s'.ahead rest = lengthModifier (skipWidth rest) := by
        unfold Scan.ahead
        rw [hpoint']
      rw [Scan.result_inDirective e hin, hahead, hargs, hout]
      unfold Scan.result
      rw [hpoint]
      exact (e.loop_directive _ _ hne).symm
  | scan hin hin' hahead hargs hout =>
      rw [Scan.result_inDirective e hin, Scan.result_inDirective e hin', hahead,
        hargs, hout]
  | convert hpoint hpoint' hput =>
      unfold Scan.result Scan.ahead Engine.directive
      rw [hpoint, hpoint']
      dsimp only
      rw [← hput]

theorem result_canEnd {e : Engine} {s : Scan} (h : s.point.CanEnd) :
    s.result e [] = s.out := by
  unfold Scan.result
  rcases h with hpoint | hpoint
  · rw [hpoint]
    rfl
  · rw [hpoint]
    rfl

/-!
# Whole formats
-/

/-- In front of the end, with what the whole format leads to. -/
def InFront (e : Engine) (m : Memory) (p : Nat) (fmt : CStr) (s : Scan) :
    Prop :=
  exists rest, Stands m (p + fmt.length) s rest ∧
    (s.cutOff rest <-> CutOff fmt) ∧
    s.result e rest = e.loop fmt.length fmt 0 []

theorem inFront_scanStart (e : Engine) {m : Memory} {p : Nat} {fmt : CStr}
    (hs : HoldsString m p fmt) : InFront e m p fmt (scanStart p) :=
  ⟨fmt, ⟨hs, rfl⟩, Iff.rfl, rfl⟩

theorem InFront.fmt_le {e : Engine} {m : Memory} {p : Nat} {fmt : CStr}
    {s : Scan} (h : InFront e m p fmt s) : s.fmt ≤ p + fmt.length := by
  rcases h with ⟨rest, hstands, _⟩
  rw [← hstands.ends]
  exact Nat.le_add_right _ _

/-- One step: the loop ends, or passes the terminator, or stays in front. -/
theorem InFront.step {e : Engine} {m : Memory} {p : Nat} {fmt : CStr}
    {s : Scan} (h : InFront e m p fmt s) :
    (e.step m s = none ∧ ¬ CutOff fmt ∧
      s.out = e.loop fmt.length fmt 0 []) ∨
      exists s', e.step m s = some s' ∧
        ((CutOff fmt ∧ s'.fmt = p + fmt.length + 1) ∨
          InFront e m p fmt s' ∧
            s'.size (p + fmt.length) < s.size (p + fmt.length)) := by
  rcases h with ⟨rest, hstands, hcut, hresult⟩
  rcases step_cases e hstands with
    ⟨hdone, hend, hnil⟩ | ⟨s', hnext, ⟨hpoint, hnil, hpast⟩ | ⟨rest', hnearer, hreads⟩⟩
  · rw [hnil] at hcut hresult
    refine Or.inl ⟨hdone, fun h => not_cutOff_canEnd hend (hcut.mpr h), ?_⟩
    rw [← hresult, result_canEnd hend]
  · have hat : s.cutOff rest := by
      rw [hnil]
      unfold Scan.cutOff Scan.ahead
      rw [hpoint]
      exact Or.inl rfl
    exact Or.inr ⟨s', hnext, Or.inl ⟨hcut.mp hat, hpast⟩⟩
  · exact Or.inr ⟨s', hnext, Or.inr ⟨⟨rest', hnearer.stands,
      hreads.cutOff.trans hcut, hreads.result.trans hresult⟩, hnearer.size⟩⟩

/--
A loop over a format that is not cut off ends in front of the end, and has
printed what the loop over the list prints.
-/
theorem halts_of_not_cutOff (e : Engine) {m : Memory} {p : Nat} {fmt : CStr}
    (hs : HoldsString m p fmt) (hcut : ¬ CutOff fmt) :
    exists trace last, Halts (e.step m) (scanStart p) trace last ∧
      (forall s, s ∈ trace -> s.fmt ≤ p + fmt.length) ∧
      last.fmt ≤ p + fmt.length ∧ last.out = e.loop fmt.length fmt 0 [] := by
  have hstep : forall s, InFront e m p fmt s ->
      e.step m s = none ∨ exists s', e.step m s = some s' ∧
        InFront e m p fmt s' ∧
          s'.size (p + fmt.length) < s.size (p + fmt.length) := by
    intro s h
    rcases h.step with ⟨hdone, _⟩ | ⟨s', hnext, ⟨hbad, _⟩ | hin⟩
    · exact Or.inl hdone
    · exact absurd hbad hcut
    · exact Or.inr ⟨s', hnext, hin⟩
  rcases halts_of_measure _ hstep (inFront_scanStart e hs) with
    ⟨trace, last, hhalts, htrace, hlast⟩
  refine ⟨trace, last, hhalts, fun s h => (htrace s h).fmt_le, hlast.fmt_le, ?_⟩
  rcases hlast.step with ⟨_, _, hout⟩ | ⟨s', hnext, _⟩
  · exact hout
  · rw [hhalts.step_last] at hnext
    cases hnext

/-- A loop over a format that is cut off does not end before it is past it. -/
theorem not_readsUpTo_of_cutOff (e : Engine) {m : Memory} {p : Nat}
    {fmt : CStr} (hs : HoldsString m p fmt) (hcut : CutOff fmt) :
    ¬ ReadsUpTo e m p (p + fmt.length) := by
  have hstep : forall s, InFront e m p fmt s ->
      exists s', e.step m s = some s' ∧
        (InFront e m p fmt s' ∨ s'.fmt = p + fmt.length + 1) := by
    intro s h
    rcases h.step with ⟨_, hnot, _⟩ | ⟨s', hnext, ⟨_, hpast⟩ | ⟨hin, _⟩⟩
    · exact absurd hcut hnot
    · exact ⟨s', hnext, Or.inr hpast⟩
    · exact ⟨s', hnext, Or.inl hin⟩
  rintro ⟨trace, last, hhalts, htrace, hlast⟩
  rcases hhalts.meets hstep (inFront_scanStart e hs) with
    hbad | ⟨s, hmem, hbad⟩
  · omega
  · have hle := htrace s hmem
    omega

theorem readsUpTo_iff (e : Engine) {m : Memory} {p : Nat} {fmt : CStr}
    (hs : HoldsString m p fmt) :
    ReadsUpTo e m p (p + fmt.length) <-> ¬ CutOff fmt :=
  ⟨fun h hcut => not_readsUpTo_of_cutOff e hs hcut h, fun hcut =>
    match halts_of_not_cutOff e hs hcut with
    | ⟨trace, last, hhalts, htrace, hlast, _⟩ =>
        ⟨trace, last, hhalts, htrace, hlast⟩⟩

/-- `kvprintf` on the memory of a format prints what it prints on the list. -/
theorem kvprintf_refined (a : VarArgs) {m : Memory} {p : Nat} {fmt : CStr}
    (hs : HoldsString m p fmt) (hcut : ¬ CutOff fmt) :
    exists trace last,
      Halts ((kvprintfEngine a).step m) (scanStart p) trace last ∧
        last.out = (kvprintf a fmt).text := by
  rcases halts_of_not_cutOff (kvprintfEngine a) hs hcut with
    ⟨trace, last, hhalts, _, _, hout⟩
  refine ⟨trace, last, hhalts, hout.trans ?_⟩
  exact Engine.loop_kvprintf a fmt.length fmt 0 []

theorem kvsnprintf_refined (a : VarArgs) {n : Nat} (hn : n ≠ 0) {m : Memory}
    {p : Nat} {fmt : CStr} (hs : HoldsString m p fmt) (hcut : ¬ CutOff fmt) :
    exists trace last,
      Halts ((kvsnprintfEngine a n).step m) (scanStart p) trace last ∧
        last.out ++ [0] = (kvsnprintf a n fmt).text := by
  rcases halts_of_not_cutOff (kvsnprintfEngine a n) hs hcut with
    ⟨trace, last, hhalts, _, _, hout⟩
  refine ⟨trace, last, hhalts, ?_⟩
  unfold kvsnprintf
  rw [if_neg hn, hout, Engine.loop_kvsnprintf]

/--
The engines stay inside the format string exactly when no directive of it is
cut off; the one that prints into a buffer also when it has none.
-/
theorem format_reads_iff {m : Memory} {p : Nat} {fmt : CStr}
    (hs : HoldsString m p fmt) (a : VarArgs) (buf n : Nat) :
    (KvprintfReadsUpTo a m p (p + fmt.length) <-> ¬ CutOff fmt) ∧
      (KvsnprintfReadsUpTo a m buf n p (p + fmt.length) <->
        buf = 0 ∨ n = 0 ∨ ¬ CutOff fmt) := by
  refine ⟨readsUpTo_iff _ hs, ?_⟩
  unfold KvsnprintfReadsUpTo
  rw [← or_assoc]
  split
  · rename_i hnothing
    exact iff_of_true trivial (Or.inl hnothing)
  · rename_i hroom
    rw [or_iff_right hroom]
    exact readsUpTo_iff _ hs

def formatMemory (fmt : CStr) : Memory :=
  writeBytes (fun _ => percent) 0 (fmt ++ [0])

theorem holdsString_formatMemory (fmt : CStr) (hfmt : 0 ∉ fmt) :
    HoldsString (formatMemory fmt) 0 fmt :=
  holdsString_of_holdsAt hfmt (readBytes_writeBytes_self _ 0 _)

theorem format_reads_iff_percent :
    KvprintfReadsUpTo someArgs (formatMemory (cstr "%-5ld%")) 0 6 ∧
      KvsnprintfReadsUpTo someArgs (formatMemory (cstr "%-5ld%")) 1 64 0 6 := by
  have hcut : ¬ CutOff (cstr "%-5ld%") := by
    have hfmt : cstr "%-5ld%" = percent :: cstr "-5ld%" := by decide
    have hconv : atConversion (cstr "-5ld%") = [convD, percent] := by decide
    rw [hfmt, cutOff_directive (by decide), hconv, cutOffAt_cons]
    exact not_cutOff_percent
  have hiff := format_reads_iff
    (holdsString_formatMemory (cstr "%-5ld%") (by decide)) someArgs 1 64
  exact ⟨hiff.left.mpr hcut, hiff.right.mpr (Or.inr (Or.inr hcut))⟩

/-- A width with no conversion behind it. -/
theorem width_reads_past :
    ¬ KvprintfReadsUpTo someArgs (formatMemory (cstr "%5")) 0 2 ∧
      ¬ KvsnprintfReadsUpTo someArgs (formatMemory (cstr "%5")) 1 64 0 2 := by
  have hcut : CutOff (cstr "%5") := by
    have hfmt : cstr "%5" = percent :: cstr "5" := by decide
    rw [hfmt]
    exact CutOff.here (by decide) (by decide)
  have hs := holdsString_formatMemory (cstr "%5") (by decide)
  exact ⟨not_readsUpTo_of_cutOff _ hs hcut, not_readsUpTo_of_cutOff _ hs hcut⟩

end Lib
end EarlnuxOS
