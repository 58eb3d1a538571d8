import Mathlib.Data.List.TakeWhile
import EarlnuxOS.Foundation.Trails
import EarlnuxOS.Foundation.Words
import EarlnuxOS.Lib.PrintfAgreement
import EarlnuxOS.Lib.Strings

/-!
# The paths of the shell

`resolve_path` of `kernel/kernel.c`.  It cuts the path at the component before
the first two dots that `strstr` finds.  Whatever stands behind these dots is
lost, and it need not be a component `..` that they belong to.
-/

namespace EarlnuxOS
namespace User

open Foundation Fs Lib

/-- The arguments of a call that passes strings, each at an address of its own. -/
def stringArgs (strings : List CStr) : VarArgs :=
  { word := fun i => UInt32.ofNat (i + 1)
    string := fun a => strings.getD (a.toNat - 1) [] }

/-- `ksnprintf(temp, PATH_MAX, fmt, ...)`: the string in `temp`. -/
def formatPath (fmt : CStr) (strings : List CStr) : CStr :=
  (ksnprintf (stringArgs strings) pathMax fmt).text.dropLast

/-- `temp` before the normalization. -/
def joinPath (cwd inp : CStr) : CStr :=
  if inp.head? = some slash then
    inp.take pathMax
  else if cwd = [slash] then
    formatPath (cstr "/%s") [inp]
  else
    formatPath (cstr "%s/%s") [cwd, inp]

/-- `while (slash > temp && *slash != '/') slash--;` -/
def slashBefore (temp : CStr) : Nat -> Nat
  | 0 => 0
  | i + 1 => if temp[i + 1]? = some slash then i + 1 else slashBefore temp i

/-- What is left of `temp` for two dots at `p`; storing a NUL cuts it off. -/
def cutBefore (temp : CStr) (p : Nat) : CStr :=
  if 1 < p then
    let i := slashBefore temp (p - 2)
    if i = 0 then [slash] else temp.take i
  else
    [slash]

/-- The `..` normalization. -/
def normalizeDots (temp : CStr) : CStr :=
  match strstr temp dotDot with
  | none => temp
  | some p => cutBefore temp p

/-- `resolve_path`: the string in `out`. -/
def resolvePath (cwd inp : CStr) : CStr :=
  (normalizeDots (joinPath cwd inp)).take pathMax

/-!
# Lexical normalization
-/

def pieces (path : CStr) : List CStr := path.splitOn slash

def isName (piece : CStr) : Bool := piece != [] && piece != dot

def names (pieces : List CStr) : List CStr := pieces.filter isName

def pathNames (path : CStr) : List CStr := names (pieces path)

/-- The components that are left when each `..` takes away the one before it. -/
def normalized (path : CStr) : List CStr :=
  follow dotDot [] (pathNames path)

def askedPath (cwd inp : CStr) : CStr :=
  if inp.head? = some slash then inp else cwd ++ slash :: inp

/-- The same, without a second slash after the root. -/
def combination (cwd inp : CStr) : CStr :=
  if inp.head? = some slash then inp
  else if cwd = [slash] then slash :: inp
  else cwd ++ slash :: inp

/-!
# The two dots
-/

def noDots (piece : CStr) : Bool := (strstr piece dotDot).isNone

def aheadOfDots (path : CStr) : List CStr := (pieces path).takeWhile noDots

def fromDots (path : CStr) : List CStr := (pieces path).dropWhile noDots

/-- The first two dots stand right behind a name and a slash. -/
def dotsAfterName (path : CStr) : Bool :=
  (aheadOfDots path).getLast?.any isName &&
    (fromDots path).head?.any fun piece => matchFront piece dotDot

/--
What begins with the first two dots is a trail that comes back: it enters the
names that it has left, or all but the last one of them when the dots stand
right behind that name.
-/
def ComesBack (path : CStr) : Prop :=
  let left := names (aheadOfDots path)
  let trail := course dotDot (names (fromDots path))
  if dotsAfterName path then
    1 ≤ trail.climbs ∧
      trail.enters = left.dropLast.drop (left.length - trail.climbs)
  else
    trail.enters = left.drop (left.length - trail.climbs)

instance (path : CStr) : Decidable (ComesBack path) :=
  inferInstanceAs (Decidable (ite _ _ _))

/-!
# The path in `temp`
-/

theorem formatPath_root (inp : CStr) :
    formatPath (cstr "/%s") [inp] = (slash :: inp).take (pathMax - 1) := by
  have hputs := sbufPuts_take pathMax [slash] inp
  rw [consolePuts_eq] at hputs
  have htext : (ksnprintf (stringArgs [inp]) pathMax (cstr "/%s")).text =
      sbufPuts pathMax [slash] inp ++ [0] := rfl
  unfold formatPath
  rw [htext, List.dropLast_concat]
  exact hputs

theorem formatPath_under (cwd inp : CStr) :
    formatPath (cstr "%s/%s") [cwd, inp] =
      (cwd ++ slash :: inp).take (pathMax - 1) := by
  have htext : (ksnprintf (stringArgs [cwd, inp]) pathMax
      (cstr "%s/%s")).text =
        sbufPuts pathMax
          (sbufPutchar pathMax (sbufPuts pathMax [] cwd) slash) inp ++ [0] :=
    rfl
  have hcwd : sbufPuts pathMax [] cwd = cwd.take (pathMax - 1) := by
    have hputs := sbufPuts_take pathMax [] cwd
    rw [consolePuts_eq] at hputs
    exact hputs
  have hslash : sbufPutchar pathMax (cwd.take (pathMax - 1)) slash =
      (cwd ++ [slash]).take (pathMax - 1) := sbufPutchar_take pathMax cwd slash
  unfold formatPath
  rw [htext, List.dropLast_concat, hcwd, hslash, sbufPuts_take, consolePuts_eq,
    List.append_assoc]
  rfl

theorem joinPath_eq {cwd inp : CStr}
    (hlen : (combination cwd inp).length < pathMax) :
    joinPath cwd inp = combination cwd inp := by
  unfold joinPath
  unfold combination at hlen ⊢
  split
  · rename_i habs
    rw [if_pos habs] at hlen
    exact List.take_of_length_le (Nat.le_of_lt hlen)
  · rename_i hrel
    rw [if_neg hrel] at hlen
    split
    · rename_i hroot
      rw [if_pos hroot] at hlen
      rw [formatPath_root]
      exact List.take_of_length_le (Nat.le_pred_of_lt hlen)
    · rename_i hunder
      rw [if_neg hunder] at hlen
      rw [formatPath_under]
      exact List.take_of_length_le (Nat.le_pred_of_lt hlen)

/-!
# What is cut off
-/

theorem slashBefore_eq {front piece rest : CStr} {i : Nat}
    (hpiece : slash ∉ piece) (hi : i ≤ piece.length) :
    slashBefore (front ++ slash :: (piece ++ rest)) (front.length + i) =
      front.length := by
  induction i with
  | zero =>
      cases hlen : front.length with
      | zero => rfl
      | succ n =>
          have hslash : (front ++ slash :: (piece ++ rest))[n + 1]? =
              some slash := by
            rw [← hlen, List.getElem?_append_right (Nat.le_refl _),
              Nat.sub_self]
            rfl
          exact if_pos hslash
  | succ i ih =>
      have hchar : (front ++ slash :: (piece ++ rest))[front.length + (i + 1)]?
          ≠ some slash := by
        rw [List.getElem?_append_right (Nat.le_add_right _ _),
          Nat.add_sub_cancel_left, List.getElem?_cons_succ,
          List.getElem?_append_left hi]
        intro h
        exact hpiece (List.mem_of_getElem? h)
      rw [← Nat.add_assoc] at hchar ⊢
      rw [slashBefore, if_neg hchar]
      exact ih (Nat.le_of_succ_le hi)

theorem noDots_iff {piece : CStr} :
    noDots piece = true <-> ¬ dotDot <:+: piece := by
  unfold noDots
  rw [← strstr_isSome, ← Option.not_isSome, Bool.not_eq_true', Bool.not_eq_true]

/-- Two dots found right behind a piece or inside it cost this piece. -/
theorem pathNames_cutBefore {front piece rest : CStr} {i : Nat}
    (hpiece : slash ∉ piece) (hi : i ≤ piece.length) :
    pathNames (cutBefore (front ++ slash :: (piece ++ rest))
      (front.length + i + 2)) = pathNames front := by
  have hpos : 1 < front.length + i + 2 := Nat.le_add_left 2 _
  unfold cutBefore
  rw [if_pos hpos, Nat.add_sub_cancel, slashBefore_eq hpiece hi]
  dsimp only
  split
  · rename_i hnil
    rw [List.eq_nil_of_length_eq_zero hnil]
    rfl
  · rw [List.take_left]

theorem exists_dots {path : CStr} {p : Nat} (habs : path.head? = some slash)
    (h : strstr path dotDot = some p) :
    exists front piece rest,
      path = front ++ slash :: (piece ++ (dotDot ++ rest)) ∧
        slash ∉ piece ∧ p = front.length + 1 + piece.length := by
  rcases (strstr_some h).left with ⟨before, rest, hpath, hlen⟩
  have hslash : slash ∈ before := by
    cases before with
    | nil =>
        rw [hpath] at habs
        cases habs
    | cons c before =>
        rw [hpath] at habs
        cases habs
        exact List.mem_cons_self
  rcases exists_last_piece hslash with ⟨front, piece, hbefore, hpiece⟩
  refine ⟨front, piece, rest, ?_, hpiece, ?_⟩
  · rw [hpath, hbefore, List.append_assoc]
    rfl
  · rw [← hlen, hbefore, List.length_append, List.length_cons]
    omega

section

variable {path front piece rest : CStr}

theorem aheadOfDots_eq
    (hpath : path = front ++ slash :: (piece ++ (dotDot ++ rest)))
    (hpiece : slash ∉ piece)
    (hfirst : forall a b, path = a ++ (dotDot ++ b) ->
      front.length + 1 + piece.length ≤ a.length) :
    aheadOfDots path = pieces front ∧
      exists w ws, fromDots path = w :: ws ∧
        (matchFront w dotDot = true <-> piece = []) := by
  have hfree : forall v, v ∈ pieces front -> noDots v = true := by
    intro v hv
    rw [noDots_iff]
    intro hdots
    rcases hdots.trans (infix_of_mem_splitOn hv) with ⟨a, b, hfront⟩
    have hlen := hfirst a (b ++ slash :: (piece ++ (dotDot ++ rest))) (by
      rw [hpath, ← hfront, List.append_assoc, List.append_assoc])
    have hle := congrArg List.length hfront
    rw [List.length_append, List.length_append] at hle
    omega
  have hslash : slash ∉ piece ++ dotDot := by
    rw [List.mem_append, not_or]
    exact ⟨hpiece, by decide⟩
  rcases splitOn_append_of_not_mem rest hslash with ⟨w, ws, hrest, hsplit⟩
  have hpieces : pieces path =
      pieces front ++ (piece ++ dotDot ++ w) :: ws := by
    unfold pieces
    rw [hpath, List.splitOn_append_cons_self, ← List.append_assoc piece, hsplit]
  have hdots : ¬ noDots (piece ++ dotDot ++ w) = true := by
    rw [noDots_iff, not_not]
    exact ⟨piece, w, rfl⟩
  unfold aheadOfDots fromDots
  rw [hpieces, List.takeWhile_append_of_pos hfree,
    List.dropWhile_append_of_pos hfree, List.takeWhile_cons_of_neg hdots,
    List.dropWhile_cons_of_neg hdots, List.append_nil]
  refine ⟨rfl, piece ++ dotDot ++ w, ws, rfl, ?_⟩
  rw [matchFront_iff]
  constructor
  · rintro ⟨b, hb⟩
    rcases (splitOn_pieces hrest).left with ⟨b', hb'⟩
    have hlen := hfirst (front ++ [slash]) (b ++ b') (by
      rw [← List.append_assoc dotDot, hb, hpath, ← hb']
      simp only [List.append_assoc, List.cons_append, List.nil_append])
    rw [List.length_append, List.length_singleton] at hlen
    exact List.eq_nil_of_length_eq_zero (by omega)
  · intro hnil
    rw [hnil, List.nil_append]
    exact List.prefix_append dotDot w

end

theorem names_concat (front : List CStr) (piece : CStr) :
    names (front ++ [piece]) =
      if isName piece then names front ++ [piece] else names front := by
  unfold names
  rw [List.filter_append, List.filter_singleton]
  cases isName piece with
  | true => rfl
  | false => exact List.append_nil _

theorem pathNames_normalizeDots {path : CStr}
    (habs : path.head? = some slash) :
    pathNames (normalizeDots path) =
      if dotsAfterName path then (names (aheadOfDots path)).dropLast
      else names (aheadOfDots path) := by
  unfold normalizeDots
  cases hfind : strstr path dotDot with
  | none =>
      have hfree : forall v, v ∈ pieces path -> noDots v = true := by
        intro v hv
        rw [noDots_iff]
        intro hdots
        exact strstr_none hfind (hdots.trans (infix_of_mem_splitOn hv))
      have hahead : aheadOfDots path = pieces path :=
        List.takeWhile_eq_self_iff.mpr hfree
      have hfrom : fromDots path = [] := List.dropWhile_eq_nil_iff.mpr hfree
      unfold dotsAfterName
      rw [hfrom, hahead, List.head?_nil, Option.any_none, Bool.and_false]
      rfl
  | some p =>
      rcases exists_dots habs hfind with
        ⟨front, piece, rest, hpath, hpiece, hp⟩
      have hfirst := (strstr_some hfind).right
      rw [hp] at hfirst
      rcases aheadOfDots_eq hpath hpiece hfirst with
        ⟨hahead, w, ws, hfrom, hw⟩
      unfold dotsAfterName
      rw [hfrom, hahead, List.head?_cons, Option.any_some]
      cases piece with
      | nil =>
          -- the dots stand right behind a slash: the piece before it goes
          rw [hw.mpr rfl, Bool.and_true]
          cases front with
          | nil =>
              rw [hp]
              rfl
          | cons c front =>
              have hslash : slash ∈ c :: front := by
                rw [hpath] at habs
                cases habs
                exact List.mem_cons_self
              rcases exists_last_piece hslash with
                ⟨front', name, hfront, hname⟩
              have hlast : pieces (c :: front) = pieces front' ++ [name] := by
                unfold pieces
                rw [hfront, List.splitOn_append_cons_self,
                  List.splitOn_eq_singleton hname]
              have hat : p = front'.length + name.length + 2 := by
                rw [hp, hfront, List.length_append, List.length_cons]
                simp only [List.length_nil]
                omega
              rw [hfront, List.append_assoc, List.cons_append] at hpath
              rw [hat, hpath, pathNames_cutBefore hname (Nat.le_refl _), hlast,
                List.getLast?_concat, Option.any_some, names_concat]
              cases isName name with
              | true => exact (List.dropLast_concat).symm
              | false => rfl
      | cons c piece =>
          -- something stands before the dots: their own piece goes
          have hafter : matchFront w dotDot = false :=
            Bool.eq_false_iff.mpr fun h => by cases hw.mp h
          have hat : p = front.length + piece.length + 2 := by
            rw [hp, List.length_cons]
            omega
          rw [hafter, Bool.and_false, if_neg Bool.false_ne_true, hat, hpath]
          exact pathNames_cutBefore hpiece (Nat.le_succ piece.length)

/-!
# What is left
-/

theorem dotDot_not_mem_ahead (path : CStr) :
    dotDot ∉ names (aheadOfDots path) := by
  intro h
  have hfree := List.mem_takeWhile_imp (List.mem_filter.mp h).left
  exact noDots_iff.mp hfree (List.infix_refl dotDot)

theorem normalized_eq (path : CStr) :
    normalized path =
      (course dotDot (names (fromDots path))).lead
        (names (aheadOfDots path)) := by
  have hsplit : pathNames path =
      names (aheadOfDots path) ++ names (fromDots path) := by
    unfold pathNames names aheadOfDots fromDots
    rw [← List.filter_append, List.takeWhile_append_dropWhile]
  unfold normalized
  rw [hsplit, follow_append, follow_of_not_mem (dotDot_not_mem_ahead path),
    List.nil_append, follow_eq_lead]

theorem names_ne_nil_of_dotsAfterName {path : CStr}
    (h : dotsAfterName path = true) : names (aheadOfDots path) ≠ [] := by
  unfold dotsAfterName at h
  rw [Bool.and_eq_true, Option.any_eq_true] at h
  rcases h.left with ⟨name, hlast, hname⟩
  exact List.ne_nil_of_mem
    (List.mem_filter.mpr ⟨List.mem_of_getLast? hlast, hname⟩)

theorem normalizeDots_normalizes_iff {path : CStr}
    (habs : path.head? = some slash) :
    pathNames (normalizeDots path) = normalized path <-> ComesBack path := by
  rw [pathNames_normalizeDots habs, normalized_eq, eq_comm]
  unfold ComesBack
  split
  · rename_i hafter
    exact Course.lead_eq_dropLast_iff (names_ne_nil_of_dotsAfterName hafter)
  · exact Course.lead_eq_self_iff

theorem combination_head {cwd : CStr} (inp : CStr)
    (habs : cwd.head? = some slash) :
    (combination cwd inp).head? = some slash := by
  unfold combination
  split
  · rename_i hinp
    exact hinp
  · split
    · rfl
    · cases cwd with
      | nil => cases habs
      | cons c cwd => exact habs

theorem pathNames_combination (cwd inp : CStr) :
    pathNames (combination cwd inp) = pathNames (askedPath cwd inp) := by
  unfold combination askedPath
  split
  · rfl
  · split
    · rename_i hroot
      rw [hroot]
      rfl
    · rfl

theorem length_normalizeDots {path : CStr} (h : path ≠ []) :
    (normalizeDots path).length ≤ path.length := by
  have hpos : 0 < path.length := List.length_pos_of_ne_nil h
  unfold normalizeDots
  split
  · exact Nat.le_refl path.length
  · unfold cutBefore
    split
    · dsimp only
      split
      · exact hpos
      · exact List.length_take_le' _ path
    · exact hpos

/--
The shell resolves a path correctly exactly when the part that it cuts off
comes back.
-/
theorem resolvePath_normalizes_iff {cwd inp : CStr}
    (habs : cwd.head? = some slash)
    (hlen : (combination cwd inp).length < pathMax) :
    pathNames (resolvePath cwd inp) = normalized (askedPath cwd inp) <->
      ComesBack (combination cwd inp) := by
  have hhead := combination_head inp habs
  have hne : combination cwd inp ≠ [] := by
    intro h
    rw [h] at hhead
    cases hhead
  have hout : resolvePath cwd inp = normalizeDots (combination cwd inp) := by
    unfold resolvePath
    rw [joinPath_eq hlen]
    exact List.take_of_length_le (Nat.le_of_lt
      (Nat.lt_of_le_of_lt (length_normalizeDots hne) hlen))
  have hasked : normalized (askedPath cwd inp) =
      normalized (combination cwd inp) := by
    unfold normalized
    rw [pathNames_combination]
  rw [hout, hasked]
  exact normalizeDots_normalizes_iff hhead

theorem resolvePath_normalizes_parent :
    (cstr "/home/user").head? = some slash ∧
      (combination (cstr "/home/user") (cstr "..")).length < pathMax ∧
      ComesBack (combination (cstr "/home/user") (cstr "..")) ∧
      pathNames (resolvePath (cstr "/home/user") (cstr "..")) =
        normalized (askedPath (cstr "/home/user") (cstr "..")) :=
  ⟨by decide, by decide, by decide,
    (resolvePath_normalizes_iff (by decide) (by decide)).mpr (by decide)⟩

/-- `/a/../b` becomes the root. -/
theorem resolvePath_loses_tail :
    ¬ (forall cwd inp : CStr, cwd.head? = some slash ->
      (askedPath cwd inp).length < pathMax ->
      pathNames (resolvePath cwd inp) = normalized (askedPath cwd inp)) := by
  intro h
  exact absurd (h (cstr "/") (cstr "/a/../b") (by decide) (by decide))
    (by decide)

end User
end EarlnuxOS
