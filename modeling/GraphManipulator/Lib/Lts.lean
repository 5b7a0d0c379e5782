import Mathlib.Init

/-!
This module contains runs of a partial transition function and the induction that carries an invariant
along a run in which every step is taken from a state that allows it.
-/

universe u v

variable {σ : Type u} {α : Type v}

namespace Lts

/--
`Run step ok s as t` states that the actions `as` lead from `s` to `t` and that each of them was taken
in a state in which `ok` holds of it.
-/
inductive Run (step : σ → α → Option σ) (ok : σ → α → Prop) : σ → List α → σ → Prop
  | nil (s : σ) : Run step ok s [] s
  | cons {s s' t : σ} {a : α} {as : List α} (hok : ok s a) (hstep : step s a = some s')
    (hrun : Run step ok s' as t) : Run step ok s (a :: as) t

variable {step : σ → α → Option σ} {ok : σ → α → Prop}

theorem Run.invariant (Inv : σ → Prop)
    (hpreserved : ∀ s a s', ok s a → Inv s → step s a = some s' → Inv s')
    {s t : σ} {as : List α} (hrun : Run step ok s as t) (hs : Inv s)
    : Inv t := by
  induction hrun with
  | nil => exact hs
  | cons hok hstep hrun ih =>
    apply ih
    exact hpreserved _ _ _ hok hs hstep

theorem Run.exists_first_not {ok' : σ → α → Prop} {s t : σ} {as : List α} (hrun : Run step ok s as t)
    (hnot : ¬ Run step ok' s as t)
    : ∃ pre a s₁ s₂, pre ++ [a] <+: as ∧ Run step ok' s pre s₁ ∧ ¬ ok' s₁ a ∧ ok s₁ a ∧ step s₁ a = some s₂ := by
  induction hrun with
  | nil s => exact absurd (.nil s) hnot
  | @cons s s' t a as hok hstep hrun ih =>
    by_cases hfirst : ok' s a
    . have hrest : ¬ Run step ok' s' as t := fun hrest => hnot (.cons hfirst hstep hrest)
      obtain ⟨pre, b, s₁, s₂, hbegins, hpre, hb⟩ := ih hrest
      refine ⟨a :: pre, b, s₁, s₂, ?_, .cons hfirst hstep hpre, hb⟩
      rw [List.cons_append, List.cons_prefix_cons]
      exact ⟨rfl, hbegins⟩
    . exact ⟨[], a, s, s', List.cons_prefix_cons.mpr ⟨rfl, List.nil_prefix⟩, .nil s, hfirst, hok, hstep⟩

end Lts
