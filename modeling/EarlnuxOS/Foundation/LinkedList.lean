import Mathlib.Data.List.Nodup

/-!
# Intrusive doubly linked lists

A heap of nodes is seen through two link functions `next` and `prev`, and a
list through its `head`.  The module states what it means for such a heap to
hold a well-formed list, and shows that the two edits of an intrusive list
(linking a node in at the head, and unlinking a member) keep it well formed.
-/

namespace EarlnuxOS
namespace Foundation

universe u

variable {alpha : Type u}

/-!
# Finite chains

A chain only follows `next`: it says that the walk from `head` meets exactly
the nodes of a finite list and then falls off the end.
-/

/-- The walk from `head` along `next` visits the nodes of the list, then ends. -/
def Chain (next : alpha -> Option alpha) : Option alpha -> List alpha -> Prop
  | head, [] => head = none
  | head, x :: rest => head = some x ∧ Chain next (next x) rest

@[simp] theorem chain_nil (next : alpha -> Option alpha) (head : Option alpha) :
    Chain next head [] <-> head = none :=
  Iff.rfl

@[simp] theorem chain_cons (next : alpha -> Option alpha) (head : Option alpha)
    (x : alpha) (rest : List alpha) :
    Chain next head (x :: rest) <-> head = some x ∧ Chain next (next x) rest :=
  Iff.rfl

/-- The walk from `head` along `next` meets the node, if it gets that far. -/
inductive Reaches (next : alpha -> Option alpha) : Option alpha -> alpha -> Prop
  where
  | here (x : alpha) : Reaches next (some x) x
  | later {x y : alpha} : Reaches next (next x) y -> Reaches next (some x) y

theorem Chain.reaches_iff {next : alpha -> Option alpha} {head : Option alpha}
    {l : List alpha} (h : Chain next head l) (y : alpha) :
    Reaches next head y <-> y ∈ l := by
  induction l generalizing head with
  | nil =>
      rw [chain_nil] at h
      rw [h]
      constructor
      · intro hreach
        cases hreach
      · intro hmem
        cases hmem
  | cons x rest ih =>
      rw [h.left, List.mem_cons, ← ih h.right]
      constructor
      · intro hreach
        cases hreach with
        | here => exact Or.inl rfl
        | later hreach => exact Or.inr hreach
      · intro hmem
        rcases hmem with hmem | hmem
        · rw [hmem]
          exact Reaches.here x
        · exact Reaches.later hmem

/--
A set of nodes that `next` never leaves: a walk that enters it goes on forever.
-/
def Trap (next : alpha -> Option alpha) (C : alpha -> Prop) : Prop :=
  forall x, C x -> exists y, next x = some y ∧ C y

theorem Trap.no_chain {next : alpha -> Option alpha} {C : alpha -> Prop}
    (htrap : Trap next C) {x : alpha} (hx : C x) (l : List alpha) :
    ¬ Chain next (some x) l := by
  induction l generalizing x with
  | nil =>
      intro h
      cases h
  | cons z rest ih =>
      intro h
      have hzx : x = z := Option.some.inj h.left
      subst hzx
      rcases htrap x hx with ⟨y, hnext, hy⟩
      have htail := h.right
      rw [hnext] at htail
      exact ih hy htail

/-!
# Doubly linked lists
-/

/--
`head`, `next` and `prev` hold the list `l`: every member points to its
neighbours on both sides and no member occurs twice.
-/
structure DList (next prev : alpha -> Option alpha) (head : Option alpha)
    (l : List alpha) : Prop where
  head_eq : head = l.head?
  links : forall a x b, l = a ++ x :: b ->
    next x = b.head? ∧ prev x = a.getLast?
  nodup : l.Nodup

theorem DList.nil (next prev : alpha -> Option alpha) :
    DList next prev none [] where
  head_eq := rfl
  links := by
    intro a x b h
    simp at h
  nodup := List.nodup_nil

theorem DList.mem_of_head {next prev : alpha -> Option alpha} {x : alpha}
    {l : List alpha} (h : DList next prev (some x) l) :
    exists rest, l = x :: rest := by
  have hhead := h.head_eq
  cases l with
  | nil => cases hhead
  | cons y rest =>
      have hxy : x = y := Option.some.inj hhead
      exact ⟨rest, by rw [hxy]⟩

theorem DList.congr {next prev next' prev' : alpha -> Option alpha}
    {head : Option alpha} {l : List alpha} (h : DList next prev head l)
    (hnext : forall x, x ∈ l -> next' x = next x)
    (hprev : forall x, x ∈ l -> prev' x = prev x) :
    DList next' prev' head l where
  head_eq := h.head_eq
  links := by
    intro a x b hl
    have hx : x ∈ l := by
      rw [hl]
      simp
    rw [hnext x hx, hprev x hx]
    exact h.links a x b hl
  nodup := h.nodup

theorem DList.chain {next prev : alpha -> Option alpha} {head : Option alpha}
    {l : List alpha} (h : DList next prev head l) : Chain next head l := by
  have hsuffix : forall b a, l = a ++ b -> Chain next b.head? b := by
    intro b
    induction b with
    | nil =>
        intro a _
        rfl
    | cons x rest ih =>
        intro a hl
        refine ⟨rfl, ?_⟩
        rw [(h.links a x rest hl).left]
        exact ih (a ++ [x]) (by rw [hl]; simp)
  rw [h.head_eq]
  exact hsuffix l [] rfl

theorem DList.next_mem {next prev : alpha -> Option alpha}
    {head : Option alpha} {l : List alpha} (h : DList next prev head l)
    {x y : alpha} (hx : x ∈ l) (hy : next x = some y) : y ∈ l := by
  rcases List.append_of_mem hx with ⟨a, b, hl⟩
  rw [(h.links a x b hl).left] at hy
  rw [hl]
  exact List.mem_append_right a
    (List.mem_cons_of_mem x (List.mem_of_mem_head? hy))

theorem DList.prev_mem {next prev : alpha -> Option alpha}
    {head : Option alpha} {l : List alpha} (h : DList next prev head l)
    {x y : alpha} (hx : x ∈ l) (hy : prev x = some y) : y ∈ l := by
  rcases List.append_of_mem hx with ⟨a, b, hl⟩
  rw [(h.links a x b hl).right] at hy
  rw [hl]
  exact List.mem_append_left (x :: b) (List.mem_of_getLast? hy)

theorem DList.prev_ne {next prev : alpha -> Option alpha}
    {head : Option alpha} {l : List alpha} (h : DList next prev head l)
    {x : alpha} (hx : x ∈ l) : prev x ≠ some x := by
  intro hself
  rcases List.append_of_mem hx with ⟨a, b, hl⟩
  rw [(h.links a x b hl).right] at hself
  have hnodup := h.nodup
  rw [hl] at hnodup
  exact (List.nodup_append.mp hnodup).right.right x
    (List.mem_of_getLast? hself) x List.mem_cons_self rfl

theorem DList.head_mem {next prev : alpha -> Option alpha}
    {l : List alpha} {x : alpha} (h : DList next prev (some x) l) : x ∈ l := by
  rcases h.mem_of_head with ⟨rest, hl⟩
  rw [hl]
  exact List.mem_cons_self

/-!
## The two edits
-/

theorem DList.push {next prev next' prev' : alpha -> Option alpha}
    {head : Option alpha} {l : List alpha} {x : alpha}
    [DecidableEq alpha]
    (h : DList next prev head l) (hx : x ∉ l)
    (hnextx : next' x = head) (hprevx : prev' x = none)
    (hnext : forall y, y ∈ l -> next' y = next y)
    (hprev : forall y, y ∈ l ->
      prev' y = if head = some y then some x else prev y) :
    DList next' prev' (some x) (x :: l) where
  head_eq := rfl
  links := by
    intro a y b hl
    cases a with
    | nil =>
        rw [List.nil_append, List.cons.injEq] at hl
        rcases hl with ⟨hxy, hb⟩
        subst hxy
        rw [hnextx, hprevx, ← hb, h.head_eq]
        exact ⟨rfl, rfl⟩
    | cons z a =>
        rw [List.cons_append, List.cons.injEq] at hl
        rcases hl with ⟨hxz, hl⟩
        subst hxz
        have hy : y ∈ l := by
          rw [hl]
          simp
        rcases h.links a y b hl with ⟨hby, hay⟩
        refine ⟨(hnext y hy).trans hby, ?_⟩
        rw [hprev y hy, h.head_eq]
        cases a with
        | nil =>
            rw [hl]
            simp
        | cons w a =>
            -- The old head is `w`, so `y` keeps its back link.
            have hwy : w ≠ y := by
              have hnodup := h.nodup
              rw [hl] at hnodup
              intro hwy
              rw [hwy] at hnodup
              simp at hnodup
            rw [hl]
            simp [hwy, hay]
  nodup := List.nodup_cons.mpr ⟨hx, h.nodup⟩

theorem append_cons_split {a b a' b' : List alpha} {x : alpha}
    (h : a ++ b = a' ++ x :: b') :
    (exists c, a = a' ++ x :: c ∧ b' = c ++ b) ∨
      (exists c, a' = a ++ c ∧ b = c ++ x :: b') := by
  rcases List.append_eq_append_iff.mp h with ⟨c, ha', hb⟩ | ⟨c, ha, hb⟩
  · exact Or.inr ⟨c, ha', hb⟩
  · cases c with
    | nil =>
        rw [List.append_nil] at ha
        exact Or.inr ⟨[], by rw [ha, List.append_nil], by simpa using hb.symm⟩
    | cons y c =>
        rw [List.cons_append, List.cons.injEq] at hb
        rcases hb with ⟨hxy, hb'⟩
        subst hxy
        exact Or.inl ⟨c, ha, hb'⟩

/-- What has something behind it in a list is not its last member too. -/
theorem getLast?_ne_of_nodup {a c : List alpha} {y z : alpha}
    (h : (a ++ y :: z :: c).Nodup) :
    (a ++ y :: z :: c).getLast? ≠ some y := by
  intro hlast
  have hbehind := (List.nodup_cons.mp (List.nodup_append.mp h).right.left).left
  rw [List.getLast?_append, List.getLast?_cons_cons] at hlast
  cases hz : (z :: c).getLast? with
  | none => simp at hz
  | some w =>
      rw [hz] at hlast
      have hwy : w = y := by simpa using hlast
      rw [hwy] at hz
      exact hbehind (List.mem_of_getLast? hz)

/-- Unlinking a member: its two neighbours are joined to each other. -/
theorem DList.unlink {next prev next' prev' : alpha -> Option alpha}
    {head head' : Option alpha} {l : List alpha} {x : alpha}
    [DecidableEq alpha]
    (h : DList next prev head l) (hx : x ∈ l)
    (hnext : forall y, y ∈ l -> y ≠ x ->
      next' y = if prev x = some y then next x else next y)
    (hprev : forall y, y ∈ l -> y ≠ x ->
      prev' y = if next x = some y then prev x else prev y)
    (hhead : head' = if prev x = none then next x else head) :
    DList next' prev' head' (l.erase x) := by
  rcases List.append_of_mem hx with ⟨a, b, hl⟩
  have hnodup := h.nodup
  rw [hl] at hnodup
  have hxa : x ∉ a := by
    intro hmem
    exact (List.nodup_append.mp hnodup).right.right x hmem x
      List.mem_cons_self rfl
  have hxb : x ∉ b :=
    (List.nodup_cons.mp (List.nodup_append.mp hnodup).right.left).left
  have herase : l.erase x = a ++ b := by
    rw [hl, List.erase_append_right _ hxa, List.erase_cons_head]
  rcases h.links a x b hl with ⟨hnx, hpx⟩
  rw [hnx] at hprev hhead hnext
  rw [hpx] at hprev hhead hnext
  rw [herase]
  have hkeep : (a ++ b).Nodup := by
    rw [← herase]
    exact h.nodup.erase x
  refine { head_eq := ?_, links := ?_, nodup := hkeep }
  · rw [hhead, h.head_eq, hl]
    cases a with
    | nil => simp
    | cons y a => simp [List.getLast?_cons]
  · intro a' y b' hsplit
    have hyab : y ∈ a ++ b := by
      rw [hsplit]
      simp
    have hyl : y ∈ l := by
      rw [← herase] at hyab
      exact List.mem_of_mem_erase hyab
    have hyx : y ≠ x := by
      intro hyx
      rw [hyx] at hyab
      rcases List.mem_append.mp hyab with hmem | hmem
      · exact hxa hmem
      · exact hxb hmem
    rw [hnext y hyl hyx, hprev y hyl hyx]
    rcases append_cons_split hsplit with ⟨c, ha, hb'⟩ | ⟨c, ha', hb⟩
    · -- `y` lies before `x`; only its forward link can have changed.
      have hold := h.links a' y (c ++ x :: b) (by rw [hl, ha]; simp)
      have hyb : b.head? ≠ some y := by
        intro hhd
        have hyb := List.mem_of_mem_head? hhd
        have hya : y ∈ a := by
          rw [ha]
          simp
        exact (List.nodup_append.mp hkeep).right.right y hya y hyb rfl
      rw [if_neg hyb, hold.left, hold.right, hb', ha]
      refine ⟨?_, rfl⟩
      cases c with
      | nil => simp
      | cons z c =>
          have hdup : (a' ++ y :: z :: c).Nodup := by
            rw [← ha]
            exact (List.nodup_append.mp hnodup).left
          rw [if_neg (getLast?_ne_of_nodup hdup)]
          simp
    · -- `y` lies behind `x`; only its back link can have changed.
      have hold := h.links (a ++ x :: c) y b' (by rw [hl, hb]; simp)
      have hya : a.getLast? ≠ some y := by
        intro hlast
        have hmem := List.mem_of_getLast? hlast
        have hyb : y ∈ b := by
          rw [hb]
          simp
        exact (List.nodup_append.mp hkeep).right.right y hmem y hyb rfl
      rw [if_neg hya, hold.left, hold.right, ha', hb]
      refine ⟨rfl, ?_⟩
      cases c with
      | nil => simp
      | cons z c =>
          have hzy : z ≠ y := by
            intro hzy
            rw [hzy] at hb
            rw [hb] at hkeep
            have hbdup := (List.nodup_append.mp hkeep).right.left
            simp at hbdup
          simp [hzy, List.getLast?_append, List.getLast?_cons]

end Foundation
end EarlnuxOS
