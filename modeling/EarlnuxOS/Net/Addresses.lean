import Mathlib.Data.List.TakeWhile
import EarlnuxOS.Lib.Numerals
import EarlnuxOS.Lib.PrintfAgreement
import EarlnuxOS.Lib.Strings
import EarlnuxOS.Net.Headers

/-!
# Addresses as text

`ip4_parse` and `ip4_to_str` of `kernel/net/net.c`.  An octet is added up in
eight bits, and the fourth group may be followed by a dot and anything behind
it.
-/

namespace EarlnuxOS
namespace Net

open Fs Lib

def dotChar : UInt8 := 0x2E

/-!
# Parsing
-/

/-- `while (*str >= '0' && *str <= '9')` with the octet so far. -/
def readOctet : CStr -> UInt8 -> UInt8 × CStr
  | [], octet => (octet, [])
  | c :: str, octet =>
      if isDigit c then readOctet str (octet * 10 + (c - 0x30))
      else (octet, c :: str)

/--
`while (*str && i < 4)`, with the number of octets that there is still room for;
`none` when it returns -1.
-/
def ip4ParseLoop : Nat -> CStr -> List UInt8 -> Option (List UInt8)
  | 0, _, octets => some octets
  | _ + 1, [], octets => some octets
  | room + 1, c :: str, octets =>
      if ¬ isDigit c then none
      else
        let group := readOctet (c :: str) 0
        let octets := octets ++ [group.1]
        match group.2 with
        | [] => if octets.length = 4 then some octets else none
        | d :: rest => if d = dotChar then ip4ParseLoop room rest octets else none

/-- `ip4_parse`: what it returns, and `*addr` after it. -/
def ip4Parse (str : CStr) (addr : UInt32) : Int × UInt32 :=
  match ip4ParseLoop 4 str [] with
  | some [a, b, c, d] => (0, ip4 a b c d)
  | _ => (-1, addr)

/-!
# Dotted quads
-/

def dotted : List CStr -> CStr
  | [] => []
  | [g] => g
  | g :: gs => g ++ dotChar :: dotted gs

def Quad (s : CStr) (a b c d : UInt8) : Prop :=
  exists gs, (forall g, g ∈ gs -> Numeral g) ∧
    gs.map decimalValue = [a.toNat, b.toNat, c.toNat, d.toNat] ∧ s = dotted gs

/-- What `ip4_parse` is to do with a string. -/
structure ParsesExactly (s : CStr) (addr : UInt32) : Prop where
  accepted : (ip4Parse s addr).1 = 0 <-> exists a b c d, Quad s a b c d
  stored : forall a b c d, Quad s a b c d ->
    (ip4Parse s addr).2 = ip4 a b c d
  untouched : (¬ exists a b c d, Quad s a b c d) -> (ip4Parse s addr).2 = addr

def EndOrDot (tail : CStr) : Prop := tail = [] ∨ exists t, tail = dotChar :: t

/-- Four numerals of which one is over 255, or which are followed by a dot. -/
def Misread (s : CStr) : Prop :=
  exists gs tail, gs.length = 4 ∧ (forall g, g ∈ gs -> Numeral g) ∧
    EndOrDot tail ∧ s = dotted gs ++ tail ∧
    (tail ≠ [] ∨ exists g, g ∈ gs ∧ 255 < decimalValue g)

def octetOf (g : CStr) : UInt8 := UInt8.ofNat (decimalValue g)

/-!
# One group
-/

theorem next_octet {c : UInt8} (v : Nat) (hc : isDigit c = true) :
    UInt8.ofNat v * 10 + (c - 0x30) = UInt8.ofNat (addDigit v c) := by
  have hdigit : 0x30 ≤ c.toNat := by
    unfold isDigit at hc
    exact UInt8.le_iff_toNat_le.mp (of_decide_eq_true hc).left
  have hlt := c.toNat_lt
  apply UInt8.toNat_inj.mp
  unfold addDigit
  rw [UInt8.toNat_add, UInt8.toNat_mul, UInt8.toNat_sub, UInt8.toNat_ofNat',
    UInt8.toNat_ofNat', show (10 : UInt8).toNat = 10 from rfl,
    show (0x30 : UInt8).toNat = 48 from rfl]
  omega

def NoDigitFirst (rest : CStr) : Prop :=
  forall c t, rest = c :: t -> isDigit c = false

theorem readOctet_append {g rest : CStr}
    (hg : forall c, c ∈ g -> isDigit c = true) (hrest : NoDigitFirst rest)
    (v : Nat) :
    readOctet (g ++ rest) (UInt8.ofNat v) =
      (UInt8.ofNat (g.foldl addDigit v), rest) := by
  induction g generalizing v with
  | nil =>
      cases rest with
      | nil => rfl
      | cons c rest =>
          have hc := hrest c rest rfl
          show readOctet (c :: rest) _ = _
          unfold readOctet
          rw [hc]
          rfl
  | cons c g ih =>
      rw [List.forall_mem_cons] at hg
      show readOctet (c :: (g ++ rest)) _ = _
      unfold readOctet
      rw [if_pos hg.left, next_octet v hg.left, ih hg.right]
      rfl

theorem readOctet_group {g rest : CStr} (hg : Numeral g)
    (hrest : NoDigitFirst rest) : readOctet (g ++ rest) 0 = (octetOf g, rest) :=
  readOctet_append hg.digits hrest 0

theorem EndOrDot.noDigitFirst {tail : CStr} (h : EndOrDot tail) :
    NoDigitFirst tail := by
  intro c t htail
  rcases h with hnil | ⟨t', hdot⟩
  · rw [hnil] at htail
    cases htail
  · rw [hdot] at htail
    cases htail
    decide

theorem exists_group {c : UInt8} {str : CStr} (hc : isDigit c = true) :
    exists g rest, c :: str = g ++ rest ∧ Numeral g ∧ NoDigitFirst rest := by
  refine ⟨(c :: str).takeWhile isDigit, (c :: str).dropWhile isDigit,
    List.takeWhile_append_dropWhile.symm, ⟨?_, ?_⟩, ?_⟩
  · exact fun b hb => List.mem_takeWhile_imp hb
  · rw [List.takeWhile_cons, if_pos hc]
    exact List.cons_ne_nil _ _
  · intro b t hb
    have hhead := List.head?_dropWhile_not isDigit (c :: str)
    rw [hb] at hhead
    simpa using hhead

theorem numeral_cons {g : CStr} (hg : Numeral g) :
    exists c g', g = c :: g' ∧ isDigit c = true := by
  cases g with
  | nil => exact absurd rfl hg.nonempty
  | cons c g' => exact ⟨c, g', rfl, hg.digits c List.mem_cons_self⟩

theorem dotted_cons {g : CStr} {gs : List CStr} (hgs : gs ≠ []) :
    dotted (g :: gs) = g ++ dotChar :: dotted gs := by
  cases gs with
  | nil => exact absurd rfl hgs
  | cons g' gs => rfl

theorem ip4ParseLoop_last {g : CStr} (room : Nat) (octets : List UInt8)
    (hg : Numeral g) :
    ip4ParseLoop (room + 1) g octets =
      if octets.length + 1 = 4 then some (octets ++ [octetOf g]) else none := by
  have hread : readOctet (g ++ []) 0 = (octetOf g, []) :=
    readOctet_group hg (by intro c t h; cases h)
  rcases numeral_cons hg with ⟨c, g', hcons, hc⟩
  rw [List.append_nil, hcons] at hread
  rw [hcons, ip4ParseLoop, if_neg (by simp [hc]), hread]
  dsimp only
  rw [List.length_append, List.length_singleton]

theorem ip4ParseLoop_more {g rest : CStr} {d : UInt8} (room : Nat)
    (octets : List UInt8) (hg : Numeral g)
    (hrest : NoDigitFirst (d :: rest)) :
    ip4ParseLoop (room + 1) (g ++ d :: rest) octets =
      if d = dotChar then ip4ParseLoop room rest (octets ++ [octetOf g])
      else none := by
  have hread := readOctet_group hg hrest
  rcases numeral_cons hg with ⟨c, g', hcons, hc⟩
  rw [hcons, List.cons_append] at hread
  rw [hcons, List.cons_append, ip4ParseLoop, if_neg (by simp [hc]), hread]

/-!
# All groups
-/

theorem noDigitFirst_dot (t : CStr) : NoDigitFirst (dotChar :: t) :=
  EndOrDot.noDigitFirst (Or.inr ⟨t, rfl⟩)

/-- Groups with dots between them are taken, whatever stands behind a last dot. -/
theorem ip4ParseLoop_dotted {gs : List CStr} {tail : CStr}
    {octets : List UInt8} (hne : gs ≠ []) (hgs : forall g, g ∈ gs -> Numeral g)
    (htail : EndOrDot tail) (hcount : octets.length + gs.length = 4) :
    ip4ParseLoop gs.length (dotted gs ++ tail) octets =
      some (octets ++ gs.map octetOf) := by
  induction gs generalizing octets with
  | nil => exact absurd rfl hne
  | cons g gs ih =>
      rw [List.forall_mem_cons] at hgs
      rw [List.length_cons] at hcount ⊢
      have hlen : (octets ++ [octetOf g]).length = octets.length + 1 := by
        rw [List.length_append, List.length_singleton]
      cases gs with
      | nil =>
          rcases htail with hnil | ⟨t, hdot⟩
          · rw [hnil, List.append_nil]
            exact (ip4ParseLoop_last 0 octets hgs.left).trans (if_pos hcount)
          · rw [hdot]
            exact (ip4ParseLoop_more 0 octets hgs.left
              (noDigitFirst_dot t)).trans (if_pos rfl)
      | cons g' gs =>
          rw [dotted_cons (List.cons_ne_nil g' gs), List.append_assoc,
            List.cons_append,
            ip4ParseLoop_more _ octets hgs.left (noDigitFirst_dot _),
            if_pos rfl, ih (List.cons_ne_nil g' gs) hgs.right (by omega),
            List.append_assoc]
          rfl

theorem exists_group_of_ip4ParseLoop {room : Nat} {str : CStr}
    {octets os : List UInt8} (hcount : octets.length + (room + 1) = 4)
    (h : ip4ParseLoop (room + 1) str octets = some os) (hos : os.length = 4) :
    exists g, Numeral g ∧
      ((str = g ∧ os = octets ++ [octetOf g]) ∨
        exists rest, str = g ++ dotChar :: rest ∧
          ip4ParseLoop room rest (octets ++ [octetOf g]) = some os) := by
  cases str with
  | nil =>
      cases Option.some.inj h
      omega
  | cons c str =>
      cases hc : isDigit c with
      | false =>
          rw [ip4ParseLoop, if_pos (by simp [hc])] at h
          cases h
      | true =>
          rcases exists_group hc with ⟨g, rest, hstr, hg, hrest⟩
          refine ⟨g, hg, ?_⟩
          rw [hstr] at h ⊢
          cases rest with
          | nil =>
              rw [List.append_nil] at h ⊢
              rw [ip4ParseLoop_last room octets hg] at h
              split at h
              · exact Or.inl ⟨rfl, (Option.some.inj h).symm⟩
              · cases h
          | cons d rest =>
              rw [ip4ParseLoop_more room octets hg hrest] at h
              split at h
              · rename_i hd
                rw [hd]
                exact Or.inr ⟨rest, rfl, h⟩
              · cases h

theorem dotted_of_ip4ParseLoop {room : Nat} {str : CStr}
    {octets os : List UInt8} (hcount : octets.length + (room + 1) = 4)
    (h : ip4ParseLoop (room + 1) str octets = some os) (hos : os.length = 4) :
    exists gs tail, gs.length = room + 1 ∧ (forall g, g ∈ gs -> Numeral g) ∧
      EndOrDot tail ∧ str = dotted gs ++ tail ∧
      os = octets ++ gs.map octetOf := by
  induction room generalizing str octets with
  | zero =>
      rcases exists_group_of_ip4ParseLoop hcount h hos with
        ⟨g, hg, ⟨hstr, hos'⟩ | ⟨rest, hstr, hrest⟩⟩
      · exact ⟨[g], [], rfl, List.forall_mem_singleton.mpr hg, Or.inl rfl,
          hstr.trans (List.append_nil g).symm, hos'⟩
      · exact ⟨[g], dotChar :: rest, rfl, List.forall_mem_singleton.mpr hg,
          Or.inr ⟨rest, rfl⟩, hstr, (Option.some.inj hrest).symm⟩
  | succ room ih =>
      rcases exists_group_of_ip4ParseLoop hcount h hos with
        ⟨g, hg, ⟨_, hos'⟩ | ⟨rest, hstr, hrest⟩⟩
      · rw [hos', List.length_append, List.length_singleton] at hos
        omega
      · have hcount' : (octets ++ [octetOf g]).length + (room + 1) = 4 := by
          rw [List.length_append, List.length_singleton]
          omega
        rcases ih hcount' hrest with ⟨gs, tail, hlen, hgs, htail, hsplit, hos'⟩
        have hne : gs ≠ [] := List.ne_nil_of_length_pos (by omega)
        refine ⟨g :: gs, tail, congrArg (· + 1) hlen,
          List.forall_mem_cons.mpr ⟨hg, hgs⟩, htail, ?_, ?_⟩
        · rw [dotted_cons hne, List.append_assoc, List.cons_append, ← hsplit]
          exact hstr
        · rw [hos', List.append_assoc]
          rfl

/-!
# One way to read a string
-/

theorem group_unique {g g' rest rest' : CStr} (hg : Numeral g)
    (hg' : Numeral g') (hrest : NoDigitFirst rest)
    (hrest' : NoDigitFirst rest') (h : g ++ rest = g' ++ rest') :
    g = g' ∧ rest = rest' := by
  have htake : forall {g rest : CStr}, Numeral g -> NoDigitFirst rest ->
      (g ++ rest).takeWhile isDigit = g := by
    intro g rest hg hrest
    rw [List.takeWhile_append_of_pos hg.digits]
    cases rest with
    | nil => exact List.append_nil g
    | cons c t =>
        rw [List.takeWhile_cons, hrest c t rfl]
        exact List.append_nil g
  have hsame : g = g' := by
    rw [← htake hg hrest, h, htake hg' hrest']
  rw [hsame] at h
  exact ⟨hsame, List.append_cancel_left h⟩

theorem dotted_unique {gs gs' : List CStr} {tail tail' : CStr}
    (hne : gs ≠ []) (hlen : gs.length = gs'.length)
    (hgs : forall g, g ∈ gs -> Numeral g)
    (hgs' : forall g, g ∈ gs' -> Numeral g) (htail : EndOrDot tail)
    (htail' : EndOrDot tail') (h : dotted gs ++ tail = dotted gs' ++ tail') :
    gs = gs' ∧ tail = tail' := by
  induction gs generalizing gs' with
  | nil => exact absurd rfl hne
  | cons g gs ih =>
      cases gs' with
      | nil => cases hlen
      | cons g' gs' =>
          rw [List.forall_mem_cons] at hgs hgs'
          have hlen' : gs.length = gs'.length := Nat.succ_injective hlen
          cases gs with
          | nil =>
              rw [List.length_eq_zero_iff.mp hlen'.symm] at h ⊢
              rcases group_unique hgs.left hgs'.left htail.noDigitFirst
                htail'.noDigitFirst h with ⟨hg, hrest⟩
              exact ⟨by rw [hg], hrest⟩
          | cons g₂ gs =>
              have hne' : gs' ≠ [] := List.ne_nil_of_length_pos (by
                rw [← hlen']
                exact Nat.succ_pos _)
              rw [dotted_cons (List.cons_ne_nil g₂ gs), dotted_cons hne',
                List.append_assoc, List.append_assoc, List.cons_append,
                List.cons_append] at h
              rcases group_unique hgs.left hgs'.left (noDigitFirst_dot _)
                (noDigitFirst_dot _) h with ⟨hg, hrest⟩
              injection hrest with _ hrest
              rcases ih (List.cons_ne_nil g₂ gs) hlen' hgs.right hgs'.right hrest
                with ⟨hsame, htails⟩
              exact ⟨by rw [hg, hsame], htails⟩

/-!
# What is accepted
-/

theorem exists_four {gs : List CStr} (h : gs.length = 4) :
    exists a b c d, gs = [a, b, c, d] := by
  match gs, h with
  | [a, b, c, d], _ => exact ⟨a, b, c, d, rfl⟩

theorem ip4Parse_dotted {g₁ g₂ g₃ g₄ tail : CStr}
    (hgs : forall g, g ∈ [g₁, g₂, g₃, g₄] -> Numeral g)
    (htail : EndOrDot tail) (addr : UInt32) :
    ip4Parse (dotted [g₁, g₂, g₃, g₄] ++ tail) addr =
      (0, ip4 (octetOf g₁) (octetOf g₂) (octetOf g₃) (octetOf g₄)) := by
  have hloop : ip4ParseLoop 4 (dotted [g₁, g₂, g₃, g₄] ++ tail) [] =
      some ([] ++ [g₁, g₂, g₃, g₄].map octetOf) :=
    ip4ParseLoop_dotted (List.cons_ne_nil _ _) hgs htail rfl
  unfold ip4Parse
  exact congrArg (fun r => match r with
    | some [a, b, c, d] => (0, ip4 a b c d)
    | _ => (-1, addr)) hloop

theorem dotted_of_ip4Parse {s : CStr} {addr : UInt32}
    (h : (ip4Parse s addr).1 = 0) :
    exists gs tail, gs.length = 4 ∧ (forall g, g ∈ gs -> Numeral g) ∧
      EndOrDot tail ∧ s = dotted gs ++ tail := by
  unfold ip4Parse at h
  split at h
  · rename_i a b c d hloop
    rcases dotted_of_ip4ParseLoop rfl hloop rfl with
      ⟨gs, tail, hlen, hgs, htail, hs, _⟩
    exact ⟨gs, tail, hlen, hgs, htail, hs⟩
  · cases h

theorem ip4Parse_refused {s : CStr} {addr : UInt32}
    (h : (ip4Parse s addr).1 ≠ 0) : (ip4Parse s addr).2 = addr := by
  unfold ip4Parse at h ⊢
  split
  · rename_i hloop
    rw [hloop] at h
    exact absurd rfl h
  · rfl

theorem octetOf_of_value {g : CStr} {a : UInt8}
    (h : decimalValue g = a.toNat) : octetOf g = a := by
  unfold octetOf
  rw [h, UInt8.ofNat_toNat]

theorem Quad.ip4Parse {s : CStr} {a b c d : UInt8} (h : Quad s a b c d)
    (addr : UInt32) : ip4Parse s addr = (0, ip4 a b c d) := by
  rcases h with ⟨gs, hgs, hvalues, hs⟩
  have hlen : gs.length = 4 := by
    rw [← List.length_map (f := decimalValue), hvalues]
    rfl
  rcases exists_four hlen with ⟨g₁, g₂, g₃, g₄, heq⟩
  rw [heq] at hgs hvalues hs
  simp only [List.map_cons, List.map_nil, List.cons.injEq, and_true] at hvalues
  rcases hvalues with ⟨ha, hb, hc, hd⟩
  rw [hs, ← List.append_nil (dotted _), ip4Parse_dotted hgs (Or.inl rfl) addr,
    octetOf_of_value ha, octetOf_of_value hb, octetOf_of_value hc,
    octetOf_of_value hd]

theorem quad_of_small {gs : List CStr} (hlen : gs.length = 4)
    (hgs : forall g, g ∈ gs -> Numeral g)
    (hsmall : forall g, g ∈ gs -> decimalValue g ≤ 255) :
    exists a b c d, Quad (dotted gs) a b c d := by
  rcases exists_four hlen with ⟨g₁, g₂, g₃, g₄, heq⟩
  have hvalue : forall g, g ∈ gs -> decimalValue g = (octetOf g).toNat := by
    intro g hg
    have hle := hsmall g hg
    unfold octetOf
    rw [UInt8.toNat_ofNat', Nat.mod_eq_of_lt (by omega)]
  refine ⟨octetOf g₁, octetOf g₂, octetOf g₃, octetOf g₄, gs, hgs, ?_, rfl⟩
  rw [heq] at hvalue ⊢
  simp only [List.map_cons, List.map_nil, List.cons.injEq, and_true]
  exact ⟨hvalue _ (by simp), hvalue _ (by simp), hvalue _ (by simp),
    hvalue _ (by simp)⟩

theorem parsesExactly_iff (s : CStr) (addr : UInt32) :
    ParsesExactly s addr <-> ¬ Misread s := by
  constructor
  · rintro h ⟨gs, tail, hlen, hgs, htail, hs, hwrong⟩
    have hzero : (ip4Parse s addr).1 = 0 := by
      rcases exists_four hlen with ⟨g₁, g₂, g₃, g₄, heq⟩
      rw [heq] at hgs hs
      rw [hs, ip4Parse_dotted hgs htail]
    rcases h.accepted.mp hzero with ⟨a, b, c, d, gs', hgs', hvalues, hs'⟩
    have hlen' : gs'.length = 4 := by
      rw [← List.length_map (f := decimalValue), hvalues]
      rfl
    have hsplit : dotted gs ++ tail = dotted gs' ++ [] := by
      rw [← hs, hs', List.append_nil]
    rcases dotted_unique (List.ne_nil_of_length_pos (by omega))
      (hlen.trans hlen'.symm) hgs hgs' htail (Or.inl rfl) hsplit with
      ⟨hsame, hnil⟩
    rcases hwrong with htail' | ⟨g, hg, hover⟩
    · exact htail' hnil
    · have hmem : decimalValue g ∈ gs'.map decimalValue :=
        List.mem_map_of_mem (hsame ▸ hg)
      have ha := a.toNat_lt
      have hb := b.toNat_lt
      have hc := c.toNat_lt
      have hd := d.toNat_lt
      rw [hvalues] at hmem
      simp only [List.mem_cons, List.not_mem_nil, or_false] at hmem
      omega
  · intro hno
    have hquad : (ip4Parse s addr).1 = 0 -> exists a b c d, Quad s a b c d := by
      intro hzero
      rcases dotted_of_ip4Parse hzero with ⟨gs, tail, hlen, hgs, htail, hs⟩
      have hnil : tail = [] := by
        by_contra hne
        exact hno ⟨gs, tail, hlen, hgs, htail, hs, Or.inl hne⟩
      have hsmall : forall g, g ∈ gs -> decimalValue g ≤ 255 := by
        intro g hg
        by_contra hover
        exact hno ⟨gs, tail, hlen, hgs, htail, hs,
          Or.inr ⟨g, hg, Nat.lt_of_not_le hover⟩⟩
      rw [hnil, List.append_nil] at hs
      rw [hs]
      exact quad_of_small hlen hgs hsmall
    constructor
    · refine ⟨hquad, ?_⟩
      rintro ⟨a, b, c, d, h⟩
      rw [h.ip4Parse addr]
    · intro a b c d h
      rw [h.ip4Parse addr]
    · intro hnone
      exact ip4Parse_refused fun hzero => hnone (hquad hzero)

/-!
# Printing
-/

def ip4Args (ip : UInt32) : VarArgs where
  word := fun i =>
    [(ip >>> 24) &&& 0xFF, (ip >>> 16) &&& 0xFF, (ip >>> 8) &&& 0xFF,
      ip &&& 0xFF].getD i 0
  string := fun _ => []

def ip4ToStr (ip : UInt32) : CStr :=
  terminated (ksnprintf (ip4Args ip) 16 (cstr "%u.%u.%u.%u")).text

def octetTexts (ip : UInt32) : List CStr :=
  [uintToStr ((ip >>> 24) &&& 0xFF) 10, uintToStr ((ip >>> 16) &&& 0xFF) 10,
    uintToStr ((ip >>> 8) &&& 0xFF) 10, uintToStr (ip &&& 0xFF) 10]

theorem numeral_octetTexts (ip : UInt32) :
    forall g, g ∈ octetTexts ip -> Numeral g := by
  intro g hg
  simp only [octetTexts, List.mem_cons, List.not_mem_nil, or_false] at hg
  rcases hg with rfl | rfl | rfl | rfl <;> exact numeral_uintToStr _

theorem toNat_octet (v : UInt32) : (v &&& 0xFF).toNat = v.toNat % 256 := by
  rw [UInt32.toNat_and]
  exact Nat.and_two_pow_sub_one_eq_mod v.toNat 8

theorem toNat_octetOf (v : UInt32) :
    (octetOf (uintToStr (v &&& 0xFF) 10)).toNat = v.toNat % 256 := by
  unfold octetOf
  rw [decimalValue_uintToStr, toNat_octet, UInt8.toNat_ofNat', Nat.mod_mod]

theorem length_dotted_octetTexts (ip : UInt32) :
    (dotted (octetTexts ip)).length ≤ 15 := by
  have hlen : forall v : UInt32, (uintToStr (v &&& 0xFF) 10).length ≤ 3 := by
    intro v
    apply length_uintToStr (by decide)
    rw [toNat_octet]
    omega
  have h1 := hlen (ip >>> 24)
  have h2 := hlen (ip >>> 16)
  have h3 := hlen (ip >>> 8)
  have h4 := hlen ip
  simp only [octetTexts, dotted, List.length_append, List.length_cons]
  omega

theorem noNul_dotted {gs : List CStr} (hgs : forall g, g ∈ gs -> Numeral g) :
    0 ∉ dotted gs := by
  have hdigits : forall g, g ∈ gs -> 0 ∉ g := by
    intro g hg hzero
    exact absurd ((hgs g hg).digits 0 hzero) (by decide)
  clear hgs
  induction gs with
  | nil => exact List.not_mem_nil
  | cons g gs ih =>
      rw [List.forall_mem_cons] at hdigits
      cases gs with
      | nil => exact hdigits.left
      | cons g' gs =>
          rw [dotted_cons (List.cons_ne_nil g' gs), List.mem_append,
            List.mem_cons, not_or, not_or]
          exact ⟨hdigits.left, by decide, ih hdigits.right⟩

theorem ip4ToStr_eq (ip : UInt32) : ip4ToStr ip = dotted (octetTexts ip) := by
  have hconvs : conversions (cstr "%u.%u.%u.%u").length (cstr "%u.%u.%u.%u") =
      some [convU, convU, convU, convU] := by decide +kernel
  have hloop := loop_take (ip4Args ip) 16 0 [] hconvs (by decide)
  have hprinted : (kvprintfLoop (ip4Args ip) (cstr "%u.%u.%u.%u").length
      (cstr "%u.%u.%u.%u") 0 []).1 = dotted (octetTexts ip) := by
    have hputs : (kvprintfLoop (ip4Args ip) (cstr "%u.%u.%u.%u").length
        (cstr "%u.%u.%u.%u") 0 []).1 =
          consolePuts (consolePutchar (consolePuts (consolePutchar (consolePuts
            (consolePutchar (consolePuts []
              (uintToStr ((ip >>> 24) &&& 0xFF) 10)) dotChar)
              (uintToStr ((ip >>> 16) &&& 0xFF) 10)) dotChar)
              (uintToStr ((ip >>> 8) &&& 0xFF) 10)) dotChar)
              (uintToStr (ip &&& 0xFF) 10) := rfl
    rw [hputs]
    simp only [consolePuts_eq, consolePutchar, octetTexts, dotted,
      List.append_assoc, List.nil_append, List.cons_append]
  unfold ip4ToStr ksnprintf kvsnprintf
  rw [if_neg (by decide)]
  dsimp only
  rw [List.take_nil] at hloop
  rw [hloop, hprinted, List.take_of_length_le (length_dotted_octetTexts ip),
    terminated_append (noNul_dotted (numeral_octetTexts ip))]
  exact List.append_nil _


theorem ip4_octets (ip : UInt32) :
    ip4 (octetOf (uintToStr ((ip >>> 24) &&& 0xFF) 10))
      (octetOf (uintToStr ((ip >>> 16) &&& 0xFF) 10))
      (octetOf (uintToStr ((ip >>> 8) &&& 0xFF) 10))
      (octetOf (uintToStr (ip &&& 0xFF) 10)) = ip := by
  have hlt := ip.toNat_lt
  have hshift : forall (k : UInt32) (n : Nat), k.toNat = n -> n < 32 ->
      (ip >>> k).toNat = ip.toNat / 2 ^ n := by
    intro k n hk hn
    rw [UInt32.toNat_shiftRight, hk, Nat.mod_eq_of_lt hn]
    exact Nat.shiftRight_eq_div_pow ip.toNat n
  apply UInt32.toNat_inj.mp
  rw [toNat_ip4, toNat_octetOf, toNat_octetOf, toNat_octetOf, toNat_octetOf,
    hshift 24 24 rfl (by decide), hshift 16 16 rfl (by decide),
    hshift 8 8 rfl (by decide)]
  omega

theorem ip4Parse_ip4ToStr (ip addr : UInt32) :
    ip4Parse (ip4ToStr ip) addr = (0, ip) := by
  have hparse := ip4Parse_dotted (numeral_octetTexts ip) (Or.inl rfl) addr
  rw [List.append_nil, ip4_octets] at hparse
  rw [ip4ToStr_eq]
  exact hparse

/--
`ip4_parse` misreads the strings with a number over 255 and those that go on
behind a fourth dot, and no others; what `ip4_to_str` prints it reads back.
-/
theorem ip4Parse_exact (s : CStr) (ip addr : UInt32) :
    (ParsesExactly s addr <-> ¬ Misread s) ∧
      ip4Parse (ip4ToStr ip) addr = (0, ip) :=
  ⟨parsesExactly_iff s addr, ip4Parse_ip4ToStr ip addr⟩

theorem ip4Parse_misreads :
    ip4Parse (cstr "256.1.1.1") 7 = (0, ip4 0 1 1 1) ∧
      ip4Parse (cstr "1.2.3.4.x") 7 = (0, ip4 1 2 3 4) ∧
      ¬ ParsesExactly (cstr "256.1.1.1") 7 ∧
      ¬ ParsesExactly (cstr "1.2.3.4.x") 7 := by
  have hover : Misread (cstr "256.1.1.1") :=
    ⟨[cstr "256", cstr "1", cstr "1", cstr "1"], [], rfl, by decide,
      Or.inl rfl, by decide, Or.inr ⟨cstr "256", List.mem_cons_self, by decide⟩⟩
  have hbehind : Misread (cstr "1.2.3.4.x") :=
    ⟨[cstr "1", cstr "2", cstr "3", cstr "4"], cstr ".x", rfl, by decide,
      Or.inr ⟨cstr "x", by decide⟩, by decide, Or.inl (by decide)⟩
  exact ⟨by decide, by decide,
    fun h => (parsesExactly_iff _ 7).mp h hover,
    fun h => (parsesExactly_iff _ 7).mp h hbehind⟩

end Net
end EarlnuxOS
