import EarlnuxOS.Foundation.Halting
import EarlnuxOS.User.Shell

/-!
# Splitting a line in place

`tokenize` one test or assignment at a time, for strings of any length.  The
words are found from the left, and each one is cut off by a NUL that replaces
the blank behind it, so what has not been scanned yet is still as it was.
-/

namespace EarlnuxOS
namespace User

open Foundation Fs

inductive Tokenizer where
  | outer (p : Nat) (t : Tokens)
  | blanks (p : Nat) (t : Tokens)
  | check (p : Nat) (t : Tokens)
  | add (p : Nat) (t : Tokens)
  | word (p : Nat) (t : Tokens)
  | cut (p : Nat) (t : Tokens)
  | done (t : Tokens)

namespace Tokenizer

def step (max : Nat) : Tokenizer -> Option Tokenizer
  | outer p t =>
      -- while (*p && argc < max_args)
      if t.input p ≠ 0 ∧ t.argc < max then some (blanks p t)
      else some (done t)
  | blanks p t =>
      -- while (*p == ' ' || *p == '\t') p++;
      if blank (t.input p) then some (blanks (p + 1) t) else some (check p t)
  | check p t =>
      -- if (*p == '\0') break;
      if t.input p = 0 then some (done t) else some (add p t)
  | add p t =>
      -- argv[argc++] = p;
      some (word p (t.addArg p))
  | word p t =>
      -- while (*p && *p != ' ' && *p != '\t') p++;
      if t.input p ≠ 0 ∧ blank (t.input p) = false then some (word (p + 1) t)
      else some (cut p t)
  | cut p t =>
      -- if (*p) *p++ = '\0';
      if t.input p ≠ 0 then
        some (outer (p + 1) { t with input := storeByte t.input p 0 })
      else some (outer p t)
  | done _ => none

def reads : Tokenizer -> List Nat
  | outer p _ | blanks p _ | check p _ | word p _ | cut p _ => [p]
  | _ => []

def writes : Tokenizer -> List Nat
  | cut p t => if t.input p ≠ 0 then [p] else []
  | _ => []

def fills : Tokenizer -> List Nat
  | add _ t => [t.argc]
  | _ => []

/-- Nothing but the string and its terminator is used, and `argv` is not overrun. -/
structure Inside (str stop max : Nat) (s : Tokenizer) : Prop where
  reads_inside : forall x, x ∈ s.reads -> str ≤ x ∧ x ≤ stop
  writes_inside : forall x, x ∈ s.writes -> str ≤ x ∧ x ≤ stop
  fills_inside : forall i, i ∈ s.fills -> i < max

def Returns (str stop max : Nat) (s : Tokenizer) (t : Tokens) : Prop :=
  HaltsWithin (step max) (Inside str stop max) s (done t)

end Tokenizer

structure Splits (m : Memory) (str : Nat) (s : CStr) (max : Nat) (t : Tokens) :
    Prop where
  argc : t.argc = min max (words blank s).length
  args : forall i w, i < t.argc -> (words blank s)[i]? = some w ->
    exists q, t.argv i = some q ∧ HoldsString t.input q w
  kept : forall x, x < str ∨ str + s.length ≤ x -> t.input x = m x

/-!
# The inner loops
-/

section

variable {str stop max : Nat} {t last : Tokens}

theorem inside_read {s : Tokenizer} {p : Nat} {rest : CStr}
    (h : PointsInto t.input str stop p rest) (hreads : s.reads = [p])
    (hwrites : s.writes = []) (hfills : s.fills = []) :
    Tokenizer.Inside str stop max s := by
  constructor
  · rw [hreads]
    exact List.forall_mem_singleton.mpr ⟨h.lower, h.le⟩
  · rw [hwrites]
    exact List.forall_mem_nil _
  · rw [hfills]
    exact List.forall_mem_nil _

theorem inside_cut {p : Nat} {rest : CStr}
    (h : PointsInto t.input str stop p rest) :
    (Tokenizer.cut p t).Inside str stop max := by
  refine ⟨List.forall_mem_singleton.mpr ⟨h.lower, h.le⟩, ?_,
    List.forall_mem_nil _⟩
  intro x hx
  change x ∈ (if t.input p ≠ 0 then [p] else []) at hx
  split at hx
  · rw [List.mem_singleton.mp hx]
    exact ⟨h.lower, h.le⟩
  · cases hx

theorem blanks_returns {p : Nat} {gap body : CStr}
    (hgap : forall c, c ∈ gap -> blank c = true) (hbody : Stops blank body)
    (h : PointsInto t.input str stop p (gap ++ body))
    (hcheck : (Tokenizer.check (p + gap.length) t).Returns str stop max last) :
    (Tokenizer.blanks p t).Returns str stop max last := by
  induction gap generalizing p with
  | nil =>
      have hstop : ¬ blank (t.input p) = true := by
        cases body with
        | nil => rw [show t.input p = 0 from h.holds]; decide
        | cons c body =>
            rw [show t.input p = c from h.holds.left, hbody c body rfl]
            exact Bool.false_ne_true
      exact HaltsWithin.next (if_neg hstop) (inside_read h rfl rfl rfl) hcheck
  | cons c gap ih =>
      rw [List.forall_mem_cons] at hgap
      have hblank : blank (t.input p) = true :=
        h.holds.left.symm ▸ hgap.left
      rw [List.length_cons, Nat.add_comm gap.length, ← Nat.add_assoc] at hcheck
      exact HaltsWithin.next (if_pos hblank) (inside_read h rfl rfl rfl)
        (ih hgap.right h.next hcheck)

theorem word_returns {p : Nat} {w rest : CStr}
    (hw : forall c, c ∈ w -> blank c = false)
    (hrest : forall c u, rest = c :: u -> blank c = true)
    (h : PointsInto t.input str stop p (w ++ rest))
    (hcut : (Tokenizer.cut (p + w.length) t).Returns str stop max last) :
    (Tokenizer.word p t).Returns str stop max last := by
  induction w generalizing p with
  | nil =>
      have hstop : ¬ (t.input p ≠ 0 ∧ blank (t.input p) = false) := by
        rintro ⟨hne, hblank⟩
        cases rest with
        | nil => exact hne h.holds
        | cons c rest =>
            rw [show t.input p = c from h.holds.left, hrest c rest rfl] at hblank
            cases hblank
      exact HaltsWithin.next (if_neg hstop) (inside_read h rfl rfl rfl) hcut
  | cons c w ih =>
      rw [List.forall_mem_cons] at hw
      have hgo : t.input p ≠ 0 ∧ blank (t.input p) = false := by
        rw [show t.input p = c from h.holds.left]
        exact ⟨h.holds.right.left, hw.left⟩
      rw [List.length_cons, Nat.add_comm w.length, ← Nat.add_assoc] at hcut
      exact HaltsWithin.next (if_pos hgo) (inside_read h rfl rfl rfl)
        (ih hw.right h.next hcut)

end

/-!
# The loops of the shell

`shell_run` splits lines of less than `shellBufSize` characters.
-/

theorem skipBlanks_eq {m : Memory} {steps p : Nat} {gap body : CStr}
    (h : HoldsString m p (gap ++ body)) (hsteps : gap.length < steps)
    (hgap : forall c, c ∈ gap -> blank c = true) (hbody : Stops blank body) :
    skipBlanks m steps p = p + gap.length := by
  induction gap generalizing steps p with
  | nil =>
      cases steps with
      | zero => exact absurd hsteps (Nat.not_lt_zero 0)
      | succ steps =>
          refine if_neg ?_
          cases body with
          | nil => rw [show m p = 0 from h]; decide
          | cons c body =>
              rw [show m p = c from h.left, hbody c body rfl]
              exact Bool.false_ne_true
  | cons a gap ih =>
      cases steps with
      | zero => exact absurd hsteps (Nat.not_lt_zero (a :: gap).length)
      | succ steps =>
          rw [List.forall_mem_cons] at hgap
          unfold skipBlanks
          rw [h.left, if_pos hgap.left,
            ih h.right.right (Nat.lt_of_succ_lt_succ hsteps) hgap.right,
            List.length_cons]
          omega

theorem skipWord_eq {m : Memory} {steps p : Nat} {w rest : CStr}
    (h : HoldsString m p (w ++ rest)) (hsteps : w.length < steps)
    (hw : forall c, c ∈ w -> blank c = false)
    (hrest : forall c t, rest = c :: t -> blank c = true) :
    skipWord m steps p = p + w.length := by
  induction w generalizing steps p with
  | nil =>
      cases steps with
      | zero => exact absurd hsteps (Nat.not_lt_zero 0)
      | succ steps =>
          refine if_neg ?_
          rintro ⟨hne, hblank⟩
          cases rest with
          | nil => exact hne h
          | cons c t =>
              rw [h.left, hrest c t rfl] at hblank
              cases hblank
  | cons a w ih =>
      cases steps with
      | zero => exact absurd hsteps (Nat.not_lt_zero (a :: w).length)
      | succ steps =>
          rw [List.forall_mem_cons] at hw
          unfold skipWord
          rw [h.left, if_pos ⟨h.right.left, hw.left⟩,
            ih h.right.right (Nat.lt_of_succ_lt_succ hsteps) hw.right,
            List.length_cons]
          omega

theorem tokenizeLoop_stop {max p : Nat} {t : Tokens} (steps : Nat)
    (hstop : ¬ (t.input p ≠ 0 ∧ t.argc < max)) :
    tokenizeLoop max steps p t = t := by
  cases steps with
  | zero => rfl
  | succ steps => exact if_neg hstop

theorem tokenizeLoop_blanks {max steps p : Nat} {t : Tokens} {gap : CStr}
    (hgo : t.input p ≠ 0 ∧ t.argc < max) (h : HoldsString t.input p gap)
    (hgap : forall c, c ∈ gap -> blank c = true)
    (hs : gap.length < shellBufSize) :
    tokenizeLoop max (steps + 1) p t = t := by
  have hskip : skipBlanks t.input shellBufSize p = p + gap.length :=
    skipBlanks_eq (by rw [List.append_nil]; exact h) hs hgap (stops_nil blank)
  have hnul : t.input (p + gap.length) = 0 :=
    HoldsString.append (t := []) (by rw [List.append_nil]; exact h)
  unfold tokenizeLoop
  rw [if_pos hgo, hskip]
  exact if_pos hnul

theorem tokenizeLoop_word {max steps p : Nat} {t : Tokens} {gap w rest : CStr}
    (hgo : t.input p ≠ 0 ∧ t.argc < max)
    (h : HoldsString t.input p (gap ++ (w ++ rest)))
    (hgap : forall c, c ∈ gap -> blank c = true) (hne : w ≠ [])
    (hw : forall c, c ∈ w -> blank c = false)
    (hrest : forall c u, rest = c :: u -> blank c = true)
    (hs : (gap ++ (w ++ rest)).length < shellBufSize) :
    tokenizeLoop max (steps + 1) p t =
      if t.input (p + gap.length + w.length) ≠ 0 then
        tokenizeLoop max steps (p + gap.length + w.length + 1)
          { t.addArg (p + gap.length) with
            input := storeByte t.input (p + gap.length + w.length) 0 }
      else
        tokenizeLoop max steps (p + gap.length + w.length)
          (t.addArg (p + gap.length)) := by
  rw [List.length_append, List.length_append] at hs
  have hat : HoldsString t.input (p + gap.length) (w ++ rest) := h.append
  have hword : Stops blank (w ++ rest) ∧ ¬ t.input (p + gap.length) = 0 := by
    cases w with
    | nil => exact absurd rfl hne
    | cons c w =>
        rw [show t.input (p + gap.length) = c from hat.left]
        exact ⟨stops_cons _ (hw c List.mem_cons_self), hat.right.left⟩
  have hskip : skipBlanks t.input shellBufSize p = p + gap.length :=
    skipBlanks_eq h (by omega) hgap hword.left
  have hend : skipWord (t.addArg (p + gap.length)).input shellBufSize
      (p + gap.length) = p + gap.length + w.length :=
    skipWord_eq hat (by omega) hw hrest
  rw [tokenizeLoop, if_pos hgo, hskip]
  dsimp only
  rw [if_neg hword.right, hend]
  rfl

/-!
# The words become arguments
-/

/-- Behind a position, the words were made the next arguments. -/
structure AddsWords (t t' : Tokens) (p stop : Nat) (ws : List CStr) : Prop where
  argc : t'.argc = t.argc + ws.length
  before : forall x, x < p -> t'.input x = t.input x
  behind : forall x, stop ≤ x -> t'.input x = t.input x
  old : forall i, i < t.argc -> t'.argv i = t.argv i
  new : forall i w, ws[i]? = some w -> exists q, p ≤ q ∧ q + w.length ≤ stop ∧
    t'.argv (t.argc + i) = some q ∧ HoldsString t'.input q w

theorem AddsWords.none (t : Tokens) (p stop : Nat) :
    AddsWords t t p stop [] where
  argc := rfl
  before := fun _ _ => rfl
  behind := fun _ _ => rfl
  old := fun _ _ => rfl
  new := fun i w h => by cases h

theorem AddsWords.cons {t t' : Tokens} {m : Memory} {p q r stop : Nat}
    {w : CStr} {ws : List CStr} (hpq : p ≤ q) (hr : q + w.length < r)
    (hstop : q + w.length ≤ stop)
    (hm : forall x, x < p ∨ stop ≤ x -> m x = t.input x)
    (hw : HoldsString m q w)
    (h : AddsWords { t.addArg q with input := m } t' r stop ws) :
    AddsWords t t' p stop (w :: ws) where
  argc := by
    rw [h.argc, List.length_cons]
    show t.argc + 1 + ws.length = _
    omega
  before := fun x hx => (h.before x (by omega)).trans (hm x (Or.inl hx))
  behind := fun x hx => (h.behind x hx).trans (hm x (Or.inr hx))
  old := by
    intro i hi
    rw [h.old i (Nat.lt_succ_of_lt hi)]
    exact if_neg (Nat.ne_of_lt hi)
  new := by
    intro i v hv
    cases i with
    | zero =>
        cases hv
        refine ⟨q, hpq, hstop, ?_, hw.congr fun x _ hx => h.before x (by omega)⟩
        have hslot := h.old t.argc (Nat.lt_succ_self t.argc)
        exact hslot.trans (if_pos rfl)
    | succ i =>
        rcases h.new i v hv with ⟨a, hra, hastop, hargv, ha⟩
        have hslot : t.argc + (i + 1) = t.argc + 1 + i := by omega
        refine ⟨a, by omega, hastop, ?_, ha⟩
        rw [hslot]
        exact hargv

theorem words_gap {gap : CStr} (s : CStr)
    (hgap : forall c, c ∈ gap -> blank c = true) :
    words blank (gap ++ s) = words blank s := by
  induction gap with
  | nil => rfl
  | cons c gap ih =>
      rw [List.cons_append, words_cons_sep _ (hgap c List.mem_cons_self)]
      exact ih fun b hb => hgap b (List.mem_cons_of_mem c hb)

/-- The loop stops at the end of the input or when the arguments are full. -/
theorem no_words_left {max p : Nat} {t : Tokens} {s : CStr}
    (h : HoldsString t.input p s)
    (hstop : ¬ (t.input p ≠ 0 ∧ t.argc < max)) :
    (words blank s).take (max - t.argc) = [] := by
  by_cases hfull : t.argc < max
  · have hnul : t.input p = 0 := by
      by_contra hne
      exact hstop ⟨hne, hfull⟩
    cases s with
    | nil => rw [words_nil, List.take_nil]
    | cons c s => exact absurd (h.left.symm.trans hnul) h.right.left
  · rw [Nat.sub_eq_zero_of_le (Nat.not_lt.mp hfull), List.take_zero]

/-- The body of the outer loop up to the end of the word it finds. -/
theorem body_returns {str stop max p : Nat} {t last : Tokens}
    {gap w rest : CStr} (hgo : t.input p ≠ 0 ∧ t.argc < max)
    (hgap : forall c, c ∈ gap -> blank c = true) (hne : w ≠ [])
    (hw : forall c, c ∈ w -> blank c = false)
    (hrest : forall c u, rest = c :: u -> blank c = true)
    (h : PointsInto t.input str stop p (gap ++ (w ++ rest)))
    (hcut : (Tokenizer.cut (p + gap.length + w.length)
      (t.addArg (p + gap.length))).Returns str stop max last) :
    (Tokenizer.outer p t).Returns str stop max last := by
  have hat : PointsInto t.input str stop (p + gap.length) (w ++ rest) :=
    h.append
  have hword : Stops blank (w ++ rest) ∧ ¬ t.input (p + gap.length) = 0 := by
    cases w with
    | nil => exact absurd rfl hne
    | cons c w =>
        rw [show t.input (p + gap.length) = c from hat.holds.left]
        exact ⟨stops_cons _ (hw c List.mem_cons_self), hat.holds.right.left⟩
  have hadd : Tokenizer.Inside str stop max
      (Tokenizer.add (p + gap.length) t) :=
    ⟨List.forall_mem_nil _, List.forall_mem_nil _,
      List.forall_mem_singleton.mpr hgo.right⟩
  refine HaltsWithin.next (if_pos hgo) (inside_read h rfl rfl rfl) ?_
  refine blanks_returns hgap hword.left h ?_
  refine HaltsWithin.next (if_neg hword.right) (inside_read hat rfl rfl rfl) ?_
  exact HaltsWithin.next rfl hadd (word_returns hw hrest hat hcut)

/-!
# The rounds of the outer loop
-/

/-- What the outer loop makes of the rest of the string. -/
structure SplitsRest (str stop max p : Nat) (t : Tokens) (s : CStr)
    (t' : Tokens) : Prop where
  returns : (Tokenizer.outer p t).Returns str stop max t'
  adds : AddsWords t t' p stop ((words blank s).take (max - t.argc))
  loop : forall steps, s.length ≤ steps -> s.length < shellBufSize ->
    tokenizeLoop max steps p t = t'

section

variable {str stop max p : Nat} {t : Tokens} {s gap w : CStr}

theorem splitsRest_stop (h : PointsInto t.input str stop p s)
    (hstop : ¬ (t.input p ≠ 0 ∧ t.argc < max)) :
    SplitsRest str stop max p t s t where
  returns := HaltsWithin.next (if_neg hstop) (inside_read h rfl rfl rfl)
    (HaltsWithin.stop rfl)
  adds := by
    rw [no_words_left h.holds hstop]
    exact AddsWords.none t p stop
  loop := fun steps _ _ => tokenizeLoop_stop steps hstop

theorem length_pos_of_go (h : PointsInto t.input str stop p s)
    (hgo : t.input p ≠ 0 ∧ t.argc < max) : 0 < s.length := by
  cases s with
  | nil => exact absurd h.holds hgo.left
  | cons c s => exact Nat.succ_pos s.length

theorem splitsRest_blanks (h : PointsInto t.input str stop p gap)
    (hgo : t.input p ≠ 0 ∧ t.argc < max)
    (hgap : forall c, c ∈ gap -> blank c = true) :
    SplitsRest str stop max p t gap t := by
  have hpos := length_pos_of_go h hgo
  have hall : PointsInto t.input str stop p (gap ++ []) := by
    rw [List.append_nil]
    exact h
  have hend : PointsInto t.input str stop (p + gap.length) [] := hall.append
  have hnul : t.input (p + gap.length) = 0 := hend.holds
  constructor
  · refine HaltsWithin.next (if_pos hgo) (inside_read h rfl rfl rfl)
      (blanks_returns hgap (stops_nil blank) hall ?_)
    exact HaltsWithin.next (if_pos hnul) (inside_read hend rfl rfl rfl)
      (HaltsWithin.stop rfl)
  · rw [words_eq_nil_iff.mpr hgap, List.take_nil]
    exact AddsWords.none t p stop
  · intro steps hsteps hs
    cases steps with
    | zero => omega
    | succ steps => exact tokenizeLoop_blanks hgo h.holds hgap hs

theorem take_room {ws : List CStr} (hgo : t.input p ≠ 0 ∧ t.argc < max) :
    (w :: ws).take (max - t.argc) = w :: ws.take (max - (t.argc + 1)) := by
  have hroom : max - t.argc = max - (t.argc + 1) + 1 := by omega
  rw [hroom, List.take_succ_cons]

theorem splitsRest_last (h : PointsInto t.input str stop p (gap ++ (w ++ [])))
    (hgo : t.input p ≠ 0 ∧ t.argc < max)
    (hgap : forall c, c ∈ gap -> blank c = true) (hne : w ≠ [])
    (hw : forall c, c ∈ w -> blank c = false) :
    SplitsRest str stop max p t (gap ++ (w ++ []))
      (t.addArg (p + gap.length)) := by
  have hpos := length_pos_of_go h hgo
  have hrest : forall c u, ([] : CStr) = c :: u -> blank c = true := by
    intro c u hcons
    cases hcons
  have hat : PointsInto t.input str stop (p + gap.length) (w ++ []) := h.append
  have hend : PointsInto t.input str stop (p + gap.length + w.length) [] :=
    hat.append
  have hnul : (t.addArg (p + gap.length)).input
      (p + gap.length + w.length) = 0 := hend.holds
  constructor
  · apply body_returns hgo hgap hne hw hrest h
    refine HaltsWithin.next (if_neg (not_not_intro hnul)) (inside_cut hend) ?_
    exact HaltsWithin.next (if_neg fun hc => hc.left hnul)
      (inside_read hend rfl rfl rfl) (HaltsWithin.stop rfl)
  · rw [List.append_nil] at hat ⊢
    rw [words_gap w hgap, words_word hw hne, take_room hgo, List.take_nil]
    exact AddsWords.cons (Nat.le_add_right p _) (Nat.lt_succ_self _) hend.le
      (fun _ _ => rfl) hat.holds (AddsWords.none _ _ _)
  · intro steps hsteps hs
    cases steps with
    | zero => omega
    | succ steps =>
        have hstop : ¬ t.input (p + gap.length + w.length) ≠ 0 :=
          not_not_intro hnul
        rw [tokenizeLoop_word hgo h.holds hgap hne hw hrest hs, if_neg hstop]
        exact tokenizeLoop_stop steps fun hc => hc.left hnul

theorem splitsRest_word {b : UInt8} {rest : CStr} {t' : Tokens}
    (h : PointsInto t.input str stop p (gap ++ (w ++ b :: rest)))
    (hgo : t.input p ≠ 0 ∧ t.argc < max)
    (hgap : forall c, c ∈ gap -> blank c = true) (hne : w ≠ [])
    (hw : forall c, c ∈ w -> blank c = false) (hb : blank b = true)
    (hrec : SplitsRest str stop max (p + gap.length + w.length + 1)
      { t.addArg (p + gap.length) with
        input := storeByte t.input (p + gap.length + w.length) 0 } rest t') :
    SplitsRest str stop max p t (gap ++ (w ++ b :: rest)) t' := by
  have hpos := length_pos_of_go h hgo
  have hrest : forall c u, b :: rest = c :: u -> blank c = true := by
    intro c u hcons
    cases hcons
    exact hb
  have hat : PointsInto t.input str stop (p + gap.length) (w ++ b :: rest) :=
    h.append
  have hend := hat.append
  have hupper := hend.upper
  have hcut : t.input (p + gap.length + w.length) ≠ 0 :=
    hend.holds.left.symm ▸ hend.holds.right.left
  rw [List.length_cons] at hupper
  constructor
  · apply body_returns hgo hgap hne hw hrest h
    exact HaltsWithin.next (if_pos hcut) (inside_cut hend) hrec.returns
  · rw [words_gap _ hgap, words_word_cons rest hw hne hb, take_room hgo]
    refine AddsWords.cons (Nat.le_add_right p _) (Nat.lt_succ_self _) hend.le
      ?_ hat.holds.cut hrec.adds
    intro x hx
    exact if_neg (by omega)
  · intro steps hsteps hs
    cases steps with
    | zero => omega
    | succ steps =>
        rw [tokenizeLoop_word hgo h.holds hgap hne hw hrest hs, if_pos hcut]
        rw [List.length_append, List.length_append, List.length_cons] at hsteps hs
        exact hrec.loop steps (by omega) (by omega)

end

/-- The outer loop makes the words its arguments as long as there is room. -/
theorem exists_splitsRest {str stop p : Nat} {t : Tokens} {s : CStr}
    (max : Nat) (h : PointsInto t.input str stop p s) :
    exists t', SplitsRest str stop max p t s t' := by
  generalize hlen : s.length = n
  induction n using Nat.strongRecOn generalizing p t s with
  | ind n ih =>
      by_cases hgo : t.input p ≠ 0 ∧ t.argc < max
      · rcases exists_run blank s with ⟨gap, body, hsplit, hgap, hbody, _⟩
        subst hsplit
        cases body with
        | nil =>
            rw [List.append_nil] at h ⊢
            exact ⟨t, splitsRest_blanks h hgo hgap⟩
        | cons c body =>
            rcases words_of_not_sep (s := body) (hbody c body rfl) with
              ⟨w, rest, hne, hsplit, hw, hrest, _⟩
            rw [hsplit] at h hlen ⊢
            cases rest with
            | nil => exact ⟨_, splitsRest_last h hgo hgap hne hw⟩
            | cons b rest =>
                have hend := h.append.append
                have hrestAt : PointsInto
                    (storeByte t.input (p + gap.length + w.length) 0) str stop
                    (p + gap.length + w.length + 1) rest := by
                  refine ⟨hend.next.holds.congr ?_, hend.next.lower,
                    hend.next.upper⟩
                  intro x hx _
                  exact if_neg (by omega)
                rw [List.length_append, List.length_append,
                  List.length_cons] at hlen
                rcases ih rest.length (by omega)
                    (t := { t.addArg (p + gap.length) with
                      input := storeByte t.input
                        (p + gap.length + w.length) 0 }) hrestAt rfl with
                  ⟨t', hrec⟩
                exact ⟨t', splitsRest_word h hgo hgap hne hw (hrest b rest rfl)
                  hrec⟩
      · exact ⟨t, splitsRest_stop h hgo⟩

/-- `tokenize` splits a string as its words are, and keeps to the string. -/
theorem tokenize_splits {m : Memory} {str : Nat} {s : CStr}
    (h : HoldsString m str s) (argv : Nat -> Option Nat) (max : Nat) :
    exists t, (Tokenizer.outer str ⟨m, argv, 0⟩).Returns str (str + s.length)
        max t ∧
      Splits m str s max t := by
  rcases exists_splitsRest (t := ⟨m, argv, 0⟩) max h.pointsInto with
    ⟨t, hrest⟩
  have hadds := hrest.adds
  have hargc : t.argc = min max (words blank s).length := by
    rw [hadds.argc, List.length_take]
    exact Nat.zero_add _
  refine ⟨t, hrest.returns, hargc, ?_, ?_⟩
  · intro i w hi hw
    have htake : ((words blank s).take (max - 0))[i]? = some w := by
      rw [List.getElem?_take_of_lt (by omega), hw]
    rcases hadds.new i w htake with ⟨q, _, _, hslot, hholds⟩
    rw [Nat.zero_add] at hslot
    exact ⟨q, hslot, hholds⟩
  · intro x hx
    rcases hx with hx | hx
    · exact hadds.before x hx
    · exact hadds.behind x hx

def blankLine : CStr := cstr " echo  a\tb "

theorem tokenize_splits_blankLine :
    exists t, (Tokenizer.outer 64 ⟨writeBytes (fun _ => 0) 64 blankLine,
        fun _ => none, 0⟩).Returns 64 (64 + blankLine.length) 2 t ∧
      Splits (writeBytes (fun _ => 0) 64 blankLine) 64 blankLine 2 t :=
  tokenize_splits (holdsString_of_holdsAt (by decide)
    (by unfold HoldsAt; decide +kernel)) (fun _ => none) 2

end User
end EarlnuxOS
