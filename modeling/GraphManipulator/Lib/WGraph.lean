import Mathlib.Algebra.Order.BigOperators.Group.List
import Mathlib.Order.Bounds.Defs

/-!
This module contains undirected multigraphs with weighted edges, the walks in them and what it means
for the edges of one graph to form a shortest path tree of another.
-/

universe u v w x

/--
An undirected multigraph. The edges are the elements of `E`, several of them may have the same ends.
-/
structure WGraph (V : Type u) (E : Type v) (W : Type w) where
  ends : E → V × V
  weight : E → W

namespace WGraph

variable {V : Type u} {E : Type v} {E' : Type x} {W : Type w}

def ofList {ε : Type*} (es : List ε) (ends : ε → V × V) (weight : ε → W)
    : WGraph V (Fin es.length) W where
  ends e := ends es[e]
  weight e := weight es[e]

def Joins (G : WGraph V E W) (e : E) (a b : V) : Prop :=
  G.ends e = (a, b) ∨ G.ends e = (b, a)

/--
`G.Walk a p b` states that the steps `p`, each an edge together with the vertex it leads to, lead from
`a` to `b`.
-/
inductive Walk (G : WGraph V E W) : V → List (E × V) → V → Prop
  | nil (a : V) : Walk G a [] a
  | cons {a b c : V} {e : E} {p : List (E × V)} (hjoins : G.Joins e a b) (hwalk : Walk G b p c)
    : Walk G a ((e, b) :: p) c

def Reachable (G : WGraph V E W) (a b : V) : Prop :=
  ∃ p, G.Walk a p b

def SimplePath (G : WGraph V E W) (a : V) (p : List (E × V)) (b : V) : Prop :=
  G.Walk a p b ∧ (a :: p.map Prod.snd).Nodup

def cost [AddCommMonoid W] (G : WGraph V E W) (p : List (E × V)) : W :=
  (p.map (fun s => G.weight s.1)).sum

/--
From `root` each vertex that `G` reaches is reached by exactly one simple path in `T`, and the cost of
that path is the least of all walks in `G`.
-/
def ShortestPathTree [AddCommMonoid W] [Preorder W] (G : WGraph V E W) (T : WGraph V E' W) (root : V)
    : Prop :=
  ∀ t, G.Reachable root t →
    ∃ p, T.SimplePath root p t
      ∧ (∀ q, T.SimplePath root q t → q = p)
      ∧ IsLeast {c | ∃ q, G.Walk root q t ∧ c = G.cost q} (T.cost p)

def LeastDistances [AddCommMonoid W] [Preorder W] (G : WGraph V E W) (s : V) (dist : V → W) : Prop :=
  ∀ t, G.Reachable s t → IsLeast {c | ∃ q, G.Walk s q t ∧ c = G.cost q} (dist t)

def IsMatching (G : WGraph V E W) : Prop :=
  ∀ e e' a b c, G.Joins e a b → G.Joins e' a c → e = e' ∧ b = c

theorem ofList_joins {ε : Type*} {es : List ε} {ends : ε → V × V} {weight : ε → W} {a b : V}
    : (∃ e, (ofList es ends weight).Joins e a b) ↔ ∃ e ∈ es, ends e = (a, b) ∨ ends e = (b, a) := by
  constructor
  . rintro ⟨e, he⟩
    exact ⟨es[e], List.getElem_mem _, he⟩
  . rintro ⟨e, hmem, he⟩
    obtain ⟨i, hi, rfl⟩ := List.mem_iff_getElem.mp hmem
    exact ⟨⟨i, hi⟩, he⟩

theorem reachable_of_joins {G : WGraph V E W} {e : E} {a b : V} (h : G.Joins e a b)
    : G.Reachable a b :=
  ⟨[(e, b)], .cons h (.nil b)⟩

@[simp]
theorem cost_nil [AddCommMonoid W] (G : WGraph V E W) : G.cost [] = 0 := by
  simp [cost]

theorem cost_nonneg [AddCommMonoid W] [PartialOrder W] [IsOrderedAddMonoid W] {G : WGraph V E W}
    (h : ∀ e, 0 ≤ G.weight e) (p : List (E × V))
    : 0 ≤ G.cost p := by
  apply List.sum_nonneg
  intro c hc
  obtain ⟨s, -, rfl⟩ := List.mem_map.mp hc
  apply h

theorem Walk.eq_nil_of_isEmpty [IsEmpty E] {G : WGraph V E W} {a b : V} {p : List (E × V)}
    (h : G.Walk a p b)
    : p = [] ∧ a = b := by
  cases h with
  | nil => simp
  | cons hjoins => exact isEmptyElim (α := E) ‹E›

theorem Walk.eq_of_isolated {G : WGraph V E W} {a b : V} {p : List (E × V)} (h : G.Walk a p b)
    (hisolated : ∀ e c, G.Joins e a c → c = a)
    : b = a := by
  induction h with
  | nil => rfl
  | cons hjoins hwalk ih =>
    have := hisolated _ _ hjoins
    subst this
    exact ih hisolated

theorem shortestPathTree_iff_of_isEmpty [AddCommMonoid W] [PartialOrder W] [IsOrderedAddMonoid W]
    [IsEmpty E'] {G : WGraph V E W} {T : WGraph V E' W} {root : V} (hnonneg : ∀ e, 0 ≤ G.weight e)
    : G.ShortestPathTree T root ↔ ∀ e c, G.Joins e root c → c = root := by
  constructor
  . intro h e c hjoins
    obtain ⟨p, hp, -⟩ := h c (reachable_of_joins hjoins)
    exact hp.1.eq_nil_of_isEmpty.2.symm
  . intro h t ⟨q, hq⟩
    have ht := hq.eq_of_isolated h
    subst ht
    refine ⟨[], ⟨.nil t, by simp⟩, ?_, ?_⟩
    . intro q hq
      exact hq.1.eq_nil_of_isEmpty.1
    . constructor
      . exact ⟨[], .nil t, by simp⟩
      . rintro c ⟨q, -, rfl⟩
        rw [cost_nil]
        exact cost_nonneg hnonneg q

@[simp]
theorem cost_cons [AddCommMonoid W] (G : WGraph V E W) (step : E × V) (p : List (E × V))
    : G.cost (step :: p) = G.weight step.1 + G.cost p := by
  simp [cost]

theorem Joins.symm {G : WGraph V E W} {e : E} {a b : V} (h : G.Joins e a b) : G.Joins e b a :=
  Or.symm h

theorem Walk.mono {G : WGraph V E W} {G' : WGraph V E W} (hjoins : ∀ e a b, G.Joins e a b → G'.Joins e a b)
    {a b : V} {p : List (E × V)} (h : G.Walk a p b)
    : G'.Walk a p b := by
  induction h with
  | nil => apply Walk.nil
  | cons hstep hwalk ih => exact .cons (hjoins _ _ _ hstep) ih

theorem Walk.eq_or_joins {G : WGraph V E W} (hmatching : G.IsMatching) {a b : V} {p : List (E × V)}
    (h : G.Walk a p b)
    : b = a ∨ ∃ e, G.Joins e a b := by
  induction h with
  | nil => exact Or.inl rfl
  | @cons a c b e p hjoins hwalk ih =>
    rcases ih with rfl | ⟨e', he'⟩
    . exact Or.inr ⟨e, hjoins⟩
    . exact Or.inl (hmatching e' e c b a he' hjoins.symm).2

section

variable [AddCommMonoid W] [PartialOrder W] [IsOrderedAddMonoid W]

theorem Walk.weight_le_cost {G : WGraph V E W} (hmatching : G.IsMatching) (hnonneg : ∀ e, 0 ≤ G.weight e)
    {a b : V} {p : List (E × V)} (h : G.Walk a p b) (hne : b ≠ a) {e : E} (he : G.Joins e a b)
    : G.weight e ≤ G.cost p := by
  cases h with
  | nil => exact absurd rfl hne
  | cons hjoins hwalk =>
    rw [cost_cons, (hmatching _ _ _ _ _ he hjoins).1]
    exact le_add_of_nonneg_right (cost_nonneg hnonneg _)

theorem leastDistances_iff_of_zero {G : WGraph V E W} (hmatching : G.IsMatching)
    (hnonneg : ∀ e, 0 ≤ G.weight e) {s : V} {dist : V → W} (hzero : ∀ t, G.Reachable s t → dist t = 0)
    : G.LeastDistances s dist ↔ ∀ e t, G.Joins e s t → t ≠ s → G.weight e = 0 := by
  constructor
  . intro h e t hjoins hne
    have hreach := reachable_of_joins hjoins
    obtain ⟨q, hq, hcost⟩ := (h t hreach).1
    rw [hzero t hreach] at hcost
    apply le_antisymm
    . rw [hcost]
      exact hq.weight_le_cost hmatching hnonneg hne hjoins
    . exact hnonneg e
  . intro h t hreach
    rw [hzero t hreach]
    constructor
    . obtain ⟨q, hq⟩ := hreach
      by_cases heq : t = s
      . subst heq
        exact ⟨[], .nil t, G.cost_nil.symm⟩
      . obtain ⟨e, hjoins⟩ := (hq.eq_or_joins hmatching).resolve_left heq
        refine ⟨[(e, t)], .cons hjoins (.nil t), ?_⟩
        rw [cost_cons, cost_nil, add_zero, h e t hjoins heq]
    . rintro c ⟨q, -, rfl⟩
      exact cost_nonneg hnonneg q

end

end WGraph
