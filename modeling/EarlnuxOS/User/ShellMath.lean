import EarlnuxOS.Foundation.Words
import EarlnuxOS.Lib.Numerals

/-!
# The calculator of the shell

`shell_eval_math` of `kernel/shell_math.c`.  It recognises and evaluates its
input in one pass over the string; the two numbers and the result are of type
`int`, and nothing is compared with the range of that type.
-/

namespace EarlnuxOS
namespace User

open Foundation Fs Lib

/-!
# One pass over the string
-/

def plusSign : UInt8 := 0x2B
def minusSign : UInt8 := 0x2D
def timesSign : UInt8 := 0x2A

def isOp (c : UInt8) : Bool :=
  c == plusSign || c == minusSign || c == timesSign || c == slash

def isSpace (c : UInt8) : Bool := c == 0x20

/-- `while (*p == ' ') p++;` -/
def skipSpaces (p : CStr) : CStr := p.dropWhile isSpace

/-- `while (is_digit(*p))`, with the number so far. -/
def readInt : Int32 -> CStr -> Int32 × CStr
  | n, [] => (n, [])
  | n, c :: p =>
      if isDigit c then readInt (n * 10 + Int32.ofNat (c.toNat - 0x30)) p
      else (n, c :: p)

/-- `is_digit(*p)` -/
def atDigit : CStr -> Bool
  | [] => false
  | c :: _ => isDigit c

/-- The switch over the operator; there is no result where the processor traps. -/
def applyOp (op : UInt8) (a b result : Int32) : Option (Int × Int32) :=
  if op = plusSign then some (0, a + b)
  else if op = minusSign then some (0, a - b)
  else if op = timesSign then some (0, a * b)
  else if op = slash then
    if b = 0 then some (-2, result)
    -- no `int` holds this quotient, and `idiv` raises a divide error
    else if a = Int32.minValue ∧ b = -1 then none
    else some (0, a / b)
  else some (-1, result)

/-- `shell_eval_math`: what it returns, and `*result` after it. -/
def shellEvalMath (str : CStr) (result : Int32) : Option (Int × Int32) :=
  let p := skipSpaces str
  if atDigit p then
    let first := readInt 0 p
    match skipSpaces first.2 with
    | [] => some (-1, result)
    | op :: p =>
        if isOp op then
          let p := skipSpaces p
          if atDigit p then
            let second := readInt 0 p
            if skipSpaces second.2 = [] then
              applyOp op first.1 second.1 result
            else some (-1, result)
          else some (-1, result)
        else some (-1, result)
  else some (-1, result)

/-!
# Expressions
-/

def spaces (n : Nat) : CStr := List.replicate n 0x20

/-- Spaces, digits, spaces, an operator, spaces, digits, spaces. -/
structure Expression (s x : CStr) (op : UInt8) (y : CStr) : Prop where
  first : Numeral x
  operator : isOp op = true
  second : Numeral y
  shape : exists i j k l, s =
    spaces i ++ (x ++ (spaces j ++ op :: (spaces k ++ (y ++ spaces l))))

/-- What an expression is worth; the quotient is truncated. -/
def exactValue (op : UInt8) (a b : Nat) : Int :=
  if op = plusSign then a + b
  else if op = minusSign then a - b
  else if op = timesSign then a * b
  else (a : Int).tdiv b

/-- What it is worth in the arithmetic of `int`, modulo `2 ^ 32`. -/
def intValue (op : UInt8) (a b : Nat) : Int32 :=
  if op = slash then Int32.ofNat a / Int32.ofNat b
  else Int32.ofInt (exactValue op a b)

def FitsInt (v : Int) : Prop := -2 ^ 31 ≤ v ∧ v < 2 ^ 31

structure CalculatesExactly (s : CStr) (result : Int32) : Prop where
  accepted : forall v, shellEvalMath s result = some (0, v) ->
    exists x op y, Expression s x op y ∧
      v.toInt = exactValue op (decimalValue x) (decimalValue y)
  complete : forall x op y, Expression s x op y ->
    FitsInt (decimalValue x) -> FitsInt (decimalValue y) ->
    FitsInt (exactValue op (decimalValue x) (decimalValue y)) ->
    ¬ (op = slash ∧ decimalValue y = 0) ->
    exists v, shellEvalMath s result = some (0, v)
  divZero : (exists v, shellEvalMath s result = some (-2, v)) <->
    exists x y, Expression s x slash y ∧ decimalValue y = 0

/-!
# Numbers
-/

theorem readInt_append {x rest : CStr}
    (hx : forall c, c ∈ x -> isDigit c = true) (hrest : Stops isDigit rest)
    (v : Nat) :
    readInt (Int32.ofNat v) (x ++ rest) =
      (Int32.ofNat (x.foldl addDigit v), rest) := by
  induction x generalizing v with
  | nil =>
      cases rest with
      | nil => rfl
      | cons c rest =>
          have hc := hrest c rest rfl
          show readInt _ (c :: rest) = _
          unfold readInt
          rw [hc]
          rfl
  | cons c x ih =>
      rw [List.forall_mem_cons] at hx
      show readInt _ (c :: (x ++ rest)) = _
      unfold readInt
      rw [if_pos hx.left, ofNat_addDigit, ih hx.right]
      rfl

theorem readInt_numeral {x rest : CStr} (hx : Numeral x)
    (hrest : Stops isDigit rest) :
    readInt 0 (x ++ rest) = (Int32.ofNat (decimalValue x), rest) :=
  readInt_append hx.digits hrest 0

theorem atDigit_numeral {x : CStr} (rest : CStr) (hx : Numeral x) :
    atDigit (x ++ rest) = true := by
  cases x with
  | nil => exact absurd rfl hx.nonempty
  | cons c x => exact hx.digits c List.mem_cons_self

theorem exists_numeral {p : CStr} (hp : atDigit p = true) :
    exists x rest, p = x ++ rest ∧ Numeral x ∧ Stops isDigit rest := by
  rcases exists_run isDigit p with ⟨x, rest, hsplit, hdigits, hstops, _⟩
  refine ⟨x, rest, hsplit, ⟨hdigits, ?_⟩, hstops⟩
  intro hnil
  rw [hnil, List.nil_append] at hsplit
  cases rest with
  | nil =>
      rw [hsplit] at hp
      cases hp
  | cons c rest =>
      rw [hsplit, show atDigit (c :: rest) = isDigit c from rfl,
        hstops c rest rfl] at hp
      cases hp

/-!
# Spaces
-/

theorem mem_spaces {n : Nat} {c : UInt8} (hc : c ∈ spaces n) :
    isSpace c = true := by
  rw [List.eq_of_mem_replicate hc]
  rfl

theorem eq_spaces {w : CStr} (hw : forall c, c ∈ w -> isSpace c = true) :
    w = spaces w.length := by
  apply List.eq_replicate_of_mem
  exact fun c hc => eq_of_beq (hw c hc)

theorem skipSpaces_spaces (n : Nat) {rest : CStr} (hrest : Stops isSpace rest) :
    skipSpaces (spaces n ++ rest) = rest :=
  dropWhile_run (fun _ hc => mem_spaces hc) hrest

theorem exists_spaces (p : CStr) :
    exists n, p = spaces n ++ skipSpaces p := by
  rcases exists_run isSpace p with ⟨w, rest, hsplit, hspaces, _, hdrop⟩
  refine ⟨w.length, ?_⟩
  rw [← eq_spaces hspaces, show skipSpaces p = rest from hdrop]
  exact hsplit

theorem not_space_of_digit {c : UInt8} (hc : isDigit c = true) :
    isSpace c = false := by
  cases hspace : isSpace c with
  | false => rfl
  | true =>
      rw [eq_of_beq hspace] at hc
      exact absurd hc (by decide)

theorem isOp_iff {c : UInt8} :
    isOp c = true <->
      c = plusSign ∨ c = minusSign ∨ c = timesSign ∨ c = slash := by
  unfold isOp
  rw [Bool.or_eq_true, Bool.or_eq_true, Bool.or_eq_true, beq_iff_eq,
    beq_iff_eq, beq_iff_eq, beq_iff_eq, or_assoc, or_assoc]

theorem isOp_stops {c : UInt8} (hc : isOp c = true) :
    isDigit c = false ∧ isSpace c = false := by
  rcases isOp_iff.mp hc with rfl | rfl | rfl | rfl <;> exact ⟨rfl, rfl⟩

theorem Numeral.stops_space {x : CStr} (rest : CStr) (hx : Numeral x) :
    Stops isSpace (x ++ rest) := by
  cases x with
  | nil => exact absurd rfl hx.nonempty
  | cons c x =>
      exact stops_cons _ (not_space_of_digit (hx.digits c List.mem_cons_self))

theorem stops_digit (n : Nat) {rest : CStr} (hrest : Stops isDigit rest) :
    Stops isDigit (spaces n ++ rest) := by
  cases n with
  | zero => exact hrest
  | succ n => exact stops_cons _ rfl

theorem stops_digit_spaces (n : Nat) : Stops isDigit (spaces n) := by
  have hstops := stops_digit n (stops_nil isDigit)
  rw [List.append_nil] at hstops
  exact hstops

/-!
# Recognition
-/

theorem shellEvalMath_expression {s x y : CStr} {op : UInt8}
    (h : Expression s x op y) (result : Int32) :
    shellEvalMath s result =
      applyOp op (Int32.ofNat (decimalValue x)) (Int32.ofNat (decimalValue y))
        result := by
  rcases h.shape with ⟨i, j, k, l, hs⟩
  have hop := isOp_stops h.operator
  have hspaces : skipSpaces (spaces l) = [] := by
    have hskip := skipSpaces_spaces l (stops_nil isSpace)
    rw [List.append_nil] at hskip
    exact hskip
  unfold shellEvalMath
  dsimp only
  rw [hs, skipSpaces_spaces i (Numeral.stops_space _ h.first),
    if_pos (atDigit_numeral _ h.first),
    readInt_numeral h.first (stops_digit j (stops_cons _ hop.left))]
  dsimp only
  rw [skipSpaces_spaces j (stops_cons _ hop.right)]
  dsimp only
  rw [if_pos h.operator,
    skipSpaces_spaces k (Numeral.stops_space _ h.second),
    if_pos (atDigit_numeral _ h.second), readInt_numeral h.second (stops_digit_spaces l)]
  dsimp only
  rw [if_pos hspaces]

theorem exists_expression {s : CStr} {result : Int32}
    (h : shellEvalMath s result ≠ some (-1, result)) :
    exists x op y, Expression s x op y := by
  unfold shellEvalMath at h
  dsimp only at h
  by_cases hfirst : atDigit (skipSpaces s) = true
  · rw [if_pos hfirst] at h
    rcases exists_spaces s with ⟨i, hs⟩
    rcases exists_numeral hfirst with ⟨x, rest, hx, hnumx, hstops⟩
    rw [hx, readInt_numeral hnumx hstops] at h
    rcases exists_spaces rest with ⟨j, hrest⟩
    cases hop : skipSpaces rest with
    | nil =>
        rw [hop] at h
        exact absurd rfl h
    | cons op p =>
        rw [hop] at h
        dsimp only at h
        by_cases hisop : isOp op = true
        · rw [if_pos hisop] at h
          by_cases hsecond : atDigit (skipSpaces p) = true
          · rw [if_pos hsecond] at h
            rcases exists_spaces p with ⟨k, hp⟩
            rcases exists_numeral hsecond with ⟨y, last, hy, hnumy, hstopsy⟩
            rw [hy, readInt_numeral hnumy hstopsy] at h
            dsimp only at h
            rcases exists_spaces last with ⟨l, hlast⟩
            by_cases hend : skipSpaces last = []
            · refine ⟨x, op, y, hnumx, hisop, hnumy, i, j, k, l, ?_⟩
              rw [hend, List.append_nil] at hlast
              rw [← hlast, ← hy, ← hp, ← hop, ← hrest, ← hx, ← hs]
            · rw [if_neg hend] at h
              exact absurd rfl h
          · rw [if_neg hsecond] at h
            exact absurd rfl h
        · rw [if_neg hisop] at h
          exact absurd rfl h
  · rw [if_neg hfirst] at h
    exact absurd rfl h

theorem Expression.unique {s x x' y y' : CStr} {op op' : UInt8}
    (h : Expression s x op y) (h' : Expression s x' op' y') :
    x = x' ∧ op = op' ∧ y = y' := by
  rcases h.shape with ⟨i, j, k, l, hs⟩
  rcases h'.shape with ⟨i', j', k', l', hs'⟩
  have hop := isOp_stops h.operator
  have hop' := isOp_stops h'.operator
  rw [hs] at hs'
  have hfirst := (run_unique (fun _ => mem_spaces)
    (Numeral.stops_space _ h.first) (fun _ => mem_spaces)
    (Numeral.stops_space _ h'.first) hs').right
  rcases run_unique h.first.digits (stops_digit j (stops_cons _ hop.left))
    h'.first.digits (stops_digit j' (stops_cons _ hop'.left)) hfirst with
    ⟨hx, hrest⟩
  rcases List.cons.inj (run_unique (fun _ => mem_spaces)
    (stops_cons _ hop.right) (fun _ => mem_spaces) (stops_cons _ hop'.right)
    hrest).right with ⟨heq, hbehind⟩
  have hsecond := (run_unique (fun _ => mem_spaces)
    (Numeral.stops_space _ h.second) (fun _ => mem_spaces)
    (Numeral.stops_space _ h'.second) hbehind).right
  exact ⟨hx, heq, (run_unique h.second.digits (stops_digit_spaces l)
    h'.second.digits (stops_digit_spaces l') hsecond).left⟩

/-!
# Evaluation
-/

theorem ofNat_eq_zero_iff (n : Nat) : Int32.ofNat n = 0 <-> 2 ^ 32 ∣ n := by
  rw [← Int32.ofInt_eq_ofNat, Int32.ofInt_eq_iff_bmod_eq_toInt,
    show (0 : Int32).toInt = 0 from rfl, ← Int.dvd_iff_bmod_eq_zero]
  exact Int.natCast_dvd_natCast

theorem toInt_ofNat_of_fits {n : Nat} (hn : FitsInt n) :
    (Int32.ofNat n).toInt = n := by
  rw [← Int32.ofInt_eq_ofNat]
  exact Int32.toInt_ofInt_of_le hn.left hn.right

/-- As `int`s the numbers are the least one and -1. -/
def Overflows (a b : Nat) : Prop :=
  a % 2 ^ 32 = 2 ^ 31 ∧ b % 2 ^ 32 = 2 ^ 32 - 1

instance (a b : Nat) : Decidable (Overflows a b) :=
  inferInstanceAs (Decidable (_ ∧ _))

theorem overflows_iff (a b : Nat) :
    Int32.ofNat a = Int32.minValue ∧ Int32.ofNat b = -1 <->
      Overflows a b := by
  rw [← Int32.ofInt_eq_ofNat, ← Int32.ofInt_eq_ofNat,
    Int32.ofInt_eq_iff_bmod_eq_toInt, Int32.ofInt_eq_iff_bmod_eq_toInt,
    show Int32.minValue.toInt = -2 ^ 31 from rfl,
    show (-1 : Int32).toInt = -1 from rfl, Int.bmod_def, Int.bmod_def]
  unfold Overflows
  omega

theorem applyOp_eq {op : UInt8} (hop : isOp op = true) (a b : Nat)
    (result : Int32) :
    applyOp op (Int32.ofNat a) (Int32.ofNat b) result =
      if op = slash ∧ 2 ^ 32 ∣ b then some (-2, result)
      else if op = slash ∧ Overflows a b then none
      else some (0, intValue op a b) := by
  have hsum : Int32.ofInt (a + b) = Int32.ofNat a + Int32.ofNat b := by
    rw [Int32.ofInt_add, Int32.ofInt_eq_ofNat, Int32.ofInt_eq_ofNat]
  have hdiff : Int32.ofInt (a - b) = Int32.ofNat a - Int32.ofNat b := by
    rw [Int32.ofInt_sub, Int32.ofInt_eq_ofNat, Int32.ofInt_eq_ofNat]
  have hprod : Int32.ofInt (a * b) = Int32.ofNat a * Int32.ofNat b := by
    rw [Int32.ofInt_mul, Int32.ofInt_eq_ofNat, Int32.ofInt_eq_ofNat]
  unfold applyOp
  rcases isOp_iff.mp hop with rfl | rfl | rfl | rfl
  · have hne : plusSign ≠ slash := by decide
    rw [if_pos rfl, if_neg fun h => hne h.left, if_neg fun h => hne h.left,
      ← hsum]
    rfl
  · have hne : minusSign ≠ slash := by decide
    rw [if_neg (by decide), if_pos rfl, if_neg fun h => hne h.left,
      if_neg fun h => hne h.left, ← hdiff]
    rfl
  · have hne : timesSign ≠ slash := by decide
    rw [if_neg (by decide), if_neg (by decide), if_pos rfl,
      if_neg fun h => hne h.left, if_neg fun h => hne h.left, ← hprod]
    rfl
  · rw [if_neg (by decide), if_neg (by decide), if_neg (by decide),
      if_pos rfl]
    by_cases hb : 2 ^ 32 ∣ b
    · rw [if_pos ((ofNat_eq_zero_iff b).mpr hb), if_pos ⟨rfl, hb⟩]
    rw [if_neg fun h => hb ((ofNat_eq_zero_iff b).mp h)]
    by_cases hover : Overflows a b
    · rw [if_pos ((overflows_iff a b).mpr hover), if_neg fun h => hb h.right,
        if_pos ⟨rfl, hover⟩]
    · rw [if_neg fun h => hover ((overflows_iff a b).mp h),
        if_neg fun h => hb h.right, if_neg fun h => hover h.right]
      rfl

theorem shellEvalMath_eq {s x y : CStr} {op : UInt8}
    (h : Expression s x op y) (result : Int32) :
    shellEvalMath s result =
      if op = slash ∧ 2 ^ 32 ∣ decimalValue y then some (-2, result)
      else if op = slash ∧ Overflows (decimalValue x) (decimalValue y) then none
      else some (0, intValue op (decimalValue x) (decimalValue y)) := by
  rw [shellEvalMath_expression h, applyOp_eq h.operator]

/-- Sums, differences and products come out right when an `int` can hold them. -/
theorem toInt_intValue_iff {op : UInt8} (hop : op ≠ slash) (a b : Nat) :
    (intValue op a b).toInt = exactValue op a b <->
      FitsInt (exactValue op a b) := by
  unfold intValue
  rw [if_neg hop]
  constructor
  · intro h
    rw [← h]
    exact ⟨Int32.le_toInt _, Int32.toInt_lt _⟩
  · intro h
    exact Int32.toInt_ofInt_of_le h.left h.right

/-- Numbers that an `int` can hold are calculated with as they are. -/
theorem toInt_intValue {op : UInt8} {a b : Nat} (ha : FitsInt a)
    (hb : FitsInt b) (hv : FitsInt (exactValue op a b)) :
    (intValue op a b).toInt = exactValue op a b := by
  by_cases hop : op = slash
  · have hquot : exactValue op a b = (a : Int).tdiv b := by
      rw [hop]
      rfl
    unfold intValue
    rw [if_pos hop, Int32.toInt_div, toInt_ofNat_of_fits ha,
      toInt_ofNat_of_fits hb]
    rw [hquot] at hv ⊢
    exact Int.bmod_eq_of_le hv.left hv.right
  · exact (toInt_intValue_iff hop a b).mpr hv

/-!
# What the calculator answers
-/

/--
The calculator is exact in the arithmetic of `int`; it does not return where a
quotient overflows.
-/
structure CalculatesInInt (s : CStr) (result : Int32) : Prop where
  traps : shellEvalMath s result = none <->
    exists x y, Expression s x slash y ∧
      Overflows (decimalValue x) (decimalValue y)
  accepted : forall v, shellEvalMath s result = some (0, v) ->
    exists x op y, Expression s x op y ∧
      v = intValue op (decimalValue x) (decimalValue y) ∧
      (op ≠ slash ->
        (v.toInt = exactValue op (decimalValue x) (decimalValue y) <->
          FitsInt (exactValue op (decimalValue x) (decimalValue y))))
  complete : forall x op y, Expression s x op y ->
    FitsInt (decimalValue x) -> FitsInt (decimalValue y) ->
    FitsInt (exactValue op (decimalValue x) (decimalValue y)) ->
    ¬ (op = slash ∧ decimalValue y = 0) ->
    exists v, shellEvalMath s result = some (0, v) ∧
      v.toInt = exactValue op (decimalValue x) (decimalValue y)
  divZero : (exists v, shellEvalMath s result = some (-2, v)) <->
    exists x y, Expression s x slash y ∧ 2 ^ 32 ∣ decimalValue y
  untouched : forall code v, shellEvalMath s result = some (code, v) ->
    code ≠ 0 -> v = result

theorem Overflows.not_dvd {a b : Nat} (h : Overflows a b) : ¬ 2 ^ 32 ∣ b := by
  intro hdvd
  have hzero := Nat.mod_eq_zero_of_dvd hdvd
  have hlast := h.right
  omega

theorem FitsInt.not_overflows {a b : Nat} (ha : FitsInt a) :
    ¬ Overflows a b := by
  intro h
  have hleast := h.left
  have hlt := ha.right
  omega

theorem shellEvalMath_cases (s : CStr) (result : Int32) :
    shellEvalMath s result = some (-1, result) ∧
        (¬ exists x op y, Expression s x op y) ∨
      (exists x y, Expression s x slash y ∧ 2 ^ 32 ∣ decimalValue y ∧
        shellEvalMath s result = some (-2, result)) ∨
      (exists x y, Expression s x slash y ∧
        Overflows (decimalValue x) (decimalValue y) ∧
        shellEvalMath s result = none) ∨
      exists x op y, Expression s x op y ∧
        shellEvalMath s result =
          some (0, intValue op (decimalValue x) (decimalValue y)) := by
  by_cases hexpr : exists x op y, Expression s x op y
  · rcases hexpr with ⟨x, op, y, hexpr⟩
    have heq := shellEvalMath_eq hexpr result
    by_cases hdiv : op = slash ∧ 2 ^ 32 ∣ decimalValue y
    · rw [if_pos hdiv] at heq
      rw [hdiv.left] at hexpr
      exact Or.inr (Or.inl ⟨x, y, hexpr, hdiv.right, heq⟩)
    rw [if_neg hdiv] at heq
    by_cases hover : op = slash ∧ Overflows (decimalValue x) (decimalValue y)
    · rw [if_pos hover] at heq
      rw [hover.left] at hexpr
      exact Or.inr (Or.inr (Or.inl ⟨x, y, hexpr, hover.right, heq⟩))
    · rw [if_neg hover] at heq
      exact Or.inr (Or.inr (Or.inr ⟨x, op, y, hexpr, heq⟩))
  · refine Or.inl ⟨?_, hexpr⟩
    by_contra hne
    exact hexpr (exists_expression hne)

theorem shellEvalMath_inInt (s : CStr) (result : Int32) :
    CalculatesInInt s result := by
  constructor
  · constructor
    · intro hnone
      rcases shellEvalMath_cases s result with
        ⟨heq, _⟩ | ⟨_, _, _, _, heq⟩ | ⟨x, y, hexpr, hover, _⟩ |
          ⟨_, _, _, _, heq⟩
      · rw [heq] at hnone
        cases hnone
      · rw [heq] at hnone
        cases hnone
      · exact ⟨x, y, hexpr, hover⟩
      · rw [heq] at hnone
        cases hnone
    · rintro ⟨x, y, hexpr, hover⟩
      rw [shellEvalMath_eq hexpr, if_neg fun h => hover.not_dvd h.right,
        if_pos ⟨rfl, hover⟩]
  · intro v hzero
    rcases shellEvalMath_cases s result with
      ⟨heq, _⟩ | ⟨_, _, _, _, heq⟩ | ⟨_, _, _, _, heq⟩ | ⟨x, op, y, hexpr, heq⟩
    · rw [heq] at hzero
      cases hzero
    · rw [heq] at hzero
      cases hzero
    · rw [heq] at hzero
      cases hzero
    · rw [heq] at hzero
      cases hzero
      exact ⟨x, op, y, hexpr, rfl, fun hop => toInt_intValue_iff hop _ _⟩
  · intro x op y hexpr hx hy hv hne
    have hdiv : ¬ (op = slash ∧ 2 ^ 32 ∣ decimalValue y) := by
      rintro ⟨hop, hdvd⟩
      -- zero is the only multiple that an `int` can hold
      have hlt := hy.right
      exact hne ⟨hop, Nat.eq_zero_of_dvd_of_lt hdvd (by omega)⟩
    refine ⟨_, ?_, toInt_intValue hx hy hv⟩
    rw [shellEvalMath_eq hexpr, if_neg hdiv,
      if_neg fun h => hx.not_overflows h.right]
  · constructor
    · rintro ⟨v, htwo⟩
      rcases shellEvalMath_cases s result with
        ⟨heq, _⟩ | ⟨x, y, hexpr, hdvd, _⟩ | ⟨_, _, _, _, heq⟩ |
          ⟨_, _, _, _, heq⟩
      · rw [heq] at htwo
        cases htwo
      · exact ⟨x, y, hexpr, hdvd⟩
      · rw [heq] at htwo
        cases htwo
      · rw [heq] at htwo
        cases htwo
    · rintro ⟨x, y, hexpr, hdvd⟩
      exact ⟨result, by rw [shellEvalMath_eq hexpr, if_pos ⟨rfl, hdvd⟩]⟩
  · intro code v hcode hne
    rcases shellEvalMath_cases s result with
      ⟨heq, _⟩ | ⟨_, _, _, _, heq⟩ | ⟨_, _, _, _, heq⟩ | ⟨_, _, _, _, heq⟩
    · rw [heq] at hcode
      cases hcode
      rfl
    · rw [heq] at hcode
      cases hcode
      rfl
    · rw [heq] at hcode
      cases hcode
    · rw [heq] at hcode
      cases hcode
      exact absurd rfl hne

def wideSum : CStr := cstr "4294967297 + 1"

theorem expression_wideSum :
    Expression wideSum (cstr "4294967297") plusSign (cstr "1") :=
  ⟨by decide, rfl, by decide, 0, 1, 1, 0, rfl⟩

def wideQuotient : CStr := cstr "8 / 4294967296"

theorem expression_wideQuotient :
    Expression wideQuotient (cstr "8") slash (cstr "4294967296") :=
  ⟨by decide, rfl, by decide, 0, 1, 1, 0, rfl⟩

theorem shellEvalMath_wraps :
    shellEvalMath wideSum 0 = some (0, 2) ∧ ¬ CalculatesExactly wideSum 0 ∧
      shellEvalMath wideQuotient 0 = some (-2, 0) ∧
      ¬ CalculatesExactly wideQuotient 0 := by
  have hsum : shellEvalMath wideSum 0 = some (0, 2) := by decide +kernel
  have hquot : shellEvalMath wideQuotient 0 = some (-2, 0) := by
    decide +kernel
  refine ⟨hsum, ?_, hquot, ?_⟩
  · intro h
    rcases h.accepted 2 hsum with ⟨x, op, y, hexpr, hvalue⟩
    rcases hexpr.unique expression_wideSum with ⟨rfl, rfl, rfl⟩
    exact absurd hvalue (by decide +kernel)
  · intro h
    rcases h.divZero.mp ⟨0, hquot⟩ with ⟨x, y, hexpr, hzero⟩
    rcases hexpr.unique expression_wideQuotient with ⟨rfl, _, rfl⟩
    exact absurd hzero (by decide +kernel)

/-- `idiv` has no quotient for the least `int` and -1. -/
example : shellEvalMath (cstr "2147483648/4294967295") 0 = none := by
  decide +kernel

end User
end EarlnuxOS
