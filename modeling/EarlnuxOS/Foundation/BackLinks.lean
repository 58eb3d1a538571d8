import Mathlib.Data.List.Chain

/-!
# Back links

A row of nodes that each name the node in front.  The row falls into segments,
and the first node of a segment may name none.  When nodes are put in or taken
out, all links stay right exactly if the node behind the place names none.
-/

namespace EarlnuxOS
namespace Foundation

universe u

variable {α : Type u} {starts starts' : α -> Prop} {null : α}

/-- The second of two neighbours names the first, or begins a segment. -/
def Names (starts : α -> Prop) (null : α) (b c : α × α) : Prop :=
  c.2 = b.1 ∨ starts c.1 ∧ c.2 = null

structure BackLinked (starts : α -> Prop) (null : α) (l : List (α × α)) :
    Prop where
  head : forall b, b ∈ l.head? -> starts b.1 ∧ b.2 = null
  links : l.IsChain (Names starts null)

def HeadFree (null : α) (l : List (α × α)) : Prop :=
  forall b, b ∈ l.head? -> b.2 = null

/-- A row is chained if both its parts are, and each end with the node between. -/
theorem isChain_middle {β : Type u} {R : β -> β -> Prop} {xs ys : List β}
    {a : β} :
    (xs ++ a :: ys).IsChain R <->
      (xs.IsChain R ∧ forall x, x ∈ xs.getLast? -> R x a) ∧
        (forall y, y ∈ ys.head? -> R a y) ∧ ys.IsChain R := by
  rw [List.isChain_append, List.isChain_cons]
  simp only [List.head?_cons, Option.mem_def, Option.some.injEq, forall_eq']
  constructor
  · exact fun h => ⟨⟨h.left, h.right.right⟩, h.right.left⟩
  · exact fun h => ⟨h.left.left, h.right, h.left.right⟩

theorem backLinked_nil (starts : α -> Prop) (null : α) :
    BackLinked starts null [] where
  head := by
    intro b hb
    cases hb
  links := List.isChain_nil

/-- Each node names the one in front, or names none and begins a segment. -/
theorem backLinked_iff {l : List (α × α)} :
    BackLinked starts null l <->
      forall xs c ys, l = xs ++ c :: ys ->
        starts c.1 ∧ c.2 = null ∨
          exists front b, xs = front ++ [b] ∧ c.2 = b.1 := by
  constructor
  · rintro h xs c ys rfl
    rcases List.eq_nil_or_concat xs with rfl | ⟨front, b, rfl⟩
    · exact Or.inl (h.head c rfl)
    · have hlinks := h.links
      rw [List.concat_eq_append, ← List.append_cons,
        List.isChain_append_cons_cons] at hlinks
      rcases hlinks.right.left with hname | hstart
      · exact Or.inr ⟨front, b, List.concat_eq_append, hname⟩
      · exact Or.inl hstart
  · intro h
    constructor
    · intro b hb
      rcases List.head?_eq_some_iff.mp hb with ⟨ys, hl⟩
      rcases h [] b ys hl with hstart | ⟨front, c, hnil, _⟩
      · exact hstart
      · exact absurd hnil.symm (List.concat_ne_nil c front)
    · rw [List.isChain_iff_forall_rel_of_append_cons_cons]
      intro b c xs ys hl
      rcases h (xs ++ [b]) c ys (by rw [hl, List.append_cons]) with
        hstart | ⟨front, d, hfront, hname⟩
      · exact Or.inr hstart
      · rw [← (List.append_singleton_inj.mp hfront).right] at hname
        exact Or.inl hname

/-- The links in front of a node and those behind it are independent. -/
theorem backLinked_split {xs ys : List (α × α)} {a : α × α} :
    BackLinked starts null (xs ++ a :: ys) <->
      BackLinked starts null (xs ++ [a]) ∧
        (a :: ys).IsChain (Names starts null) := by
  have hhead : (xs ++ a :: ys).head? = (xs ++ [a]).head? := by
    cases xs <;> rfl
  constructor
  · intro h
    have hsplit := List.isChain_split.mp h.links
    exact ⟨⟨hhead ▸ h.head, hsplit.left⟩, hsplit.right⟩
  · intro h
    exact ⟨hhead.symm ▸ h.left.head,
      List.isChain_split.mpr ⟨h.left.links, h.right⟩⟩

theorem isChain_front {ys : List (α × α)} {x y : α × α}
    (h : (y :: ys).IsChain (Names starts null)) (hne : x.1 ≠ y.1)
    (hnull : y.1 ≠ null) :
    (x :: ys).IsChain (Names starts null) <-> HeadFree null ys := by
  rw [List.isChain_cons] at h ⊢
  constructor
  · intro hx b hb
    rcases h.left b hb with hold | hold
    · rcases hx.left b hb with hnew | hnew
      · exact absurd (hnew.symm.trans hold) hne
      · exact hnew.right
    · exact hold.right
  · intro hfree
    refine ⟨fun b hb => ?_, h.right⟩
    rcases h.left b hb with hold | hold
    · exact absurd (hold.symm.trans (hfree b hb)) hnull
    · exact Or.inr hold

theorem BackLinked.remove_iff {xs mid ys : List (α × α)} {a y : α × α}
    (h : BackLinked starts null (xs ++ a :: (mid ++ y :: ys)))
    (hne : a.1 ≠ y.1) (hnull : y.1 ≠ null) :
    BackLinked starts null (xs ++ a :: ys) <-> HeadFree null ys := by
  have hfront := backLinked_split.mp h
  have hrest : (y :: ys).IsChain (Names starts null) := by
    have htail := hfront.right
    rw [← List.cons_append, List.isChain_split] at htail
    exact htail.right
  rw [backLinked_split, isChain_front hrest hne hnull]
  exact and_iff_right hfront.left

theorem BackLinked.insert_iff {xs ys : List (α × α)} {a : α × α} {r : α}
    (h : BackLinked starts null (xs ++ a :: ys)) (hne : r ≠ a.1)
    (hnull : a.1 ≠ null) :
    BackLinked starts null (xs ++ a :: (r, a.1) :: ys) <->
      HeadFree null ys := by
  have hfront := backLinked_split.mp h
  have hnames : Names starts null a (r, a.1) := Or.inl rfl
  rw [backLinked_split, List.isChain_cons_cons, and_iff_right hnames,
    ← isChain_front (x := (r, a.1)) hfront.right hne hnull]
  exact and_iff_right hfront.left

theorem BackLinked.append {l : List (α × α)} {a : α}
    (h : BackLinked starts null l) (ha : starts a) :
    BackLinked starts null (l ++ [(a, null)]) := by
  have hnames : forall b, Names starts null b (a, null) := fun b =>
    Or.inr ⟨ha, rfl⟩
  constructor
  · intro b hb
    cases l with
    | nil =>
        cases hb
        exact ⟨ha, rfl⟩
    | cons c l => exact h.head b hb
  · rw [List.isChain_append]
    refine ⟨h.links, List.isChain_singleton _, ?_⟩
    intro b _ c hc
    cases hc
    exact hnames b

theorem BackLinked.mono {l : List (α × α)} (h : BackLinked starts null l)
    (hsub : forall a, starts a -> starts' a) : BackLinked starts' null l where
  head := fun b hb => ⟨hsub b.1 (h.head b hb).left, (h.head b hb).right⟩
  links := h.links.imp fun _ c hc =>
    hc.imp_right fun hstart => ⟨hsub c.1 hstart.left, hstart.right⟩

end Foundation
end EarlnuxOS
