import Mathlib.Data.List.Induction

/-!
This module contains the rule for loops over a list whose body might fail: an invariant of the elements
that were visited and the state, which the body carries on without failing.
-/

universe u v w

namespace Loop

variable {α : Type u} {β : Type v} {ε : Type w}

theorem foldlM_append_ok {f : β → α → Except ε β} {I : List α → β → Prop} {pre l : List α} {s : β}
    (hs : I pre s)
    (hbody : ∀ pre' x s, x ∈ l → I pre' s → ∃ s', f s x = .ok s' ∧ I (pre' ++ [x]) s')
    : ∃ s', l.foldlM f s = .ok s' ∧ I (pre ++ l) s' := by
  induction l generalizing pre s with
  | nil => exact ⟨s, rfl, by simpa using hs⟩
  | cons x l ih =>
    obtain ⟨s₁, hf, hs₁⟩ := hbody pre x s (by simp) hs
    obtain ⟨s₂, hfold, hs₂⟩ := ih hs₁ (fun pre' y s hy => hbody pre' y s (List.mem_cons_of_mem _ hy))
    refine ⟨s₂, ?_, by simpa using hs₂⟩
    rw [List.foldlM_cons, hf]
    exact hfold

theorem foldlM_ok {f : β → α → Except ε β} (I : List α → β → Prop) {l : List α} {s : β} (hs : I [] s)
    (hbody : ∀ pre x s, x ∈ l → I pre s → ∃ s', f s x = .ok s' ∧ I (pre ++ [x]) s')
    : ∃ s', l.foldlM f s = .ok s' ∧ I l s' := by
  have := foldlM_append_ok hs hbody
  rwa [List.nil_append] at this

/--
The body may rely on what it has visited being the beginning of the list.
-/
theorem foldlM_prefix_ok {f : β → α → Except ε β} (I : List α → β → Prop) {l : List α} {s : β} (hs : I [] s)
    (hbody : ∀ pre x s, pre ++ [x] <+: l → I pre s → ∃ s', f s x = .ok s' ∧ I (pre ++ [x]) s')
    : ∃ s', l.foldlM f s = .ok s' ∧ I l s' := by
  induction l using List.reverseRecOn with
  | nil => exact ⟨s, rfl, hs⟩
  | append_singleton l x ih =>
    obtain ⟨s₁, hfold, hs₁⟩ := ih (fun pre y s hbegins => hbody pre y s (hbegins.trans (List.prefix_append l [x])))
    obtain ⟨s₂, hf, hs₂⟩ := hbody l x s₁ List.prefix_rfl hs₁
    refine ⟨s₂, ?_, hs₂⟩
    rw [List.foldlM_append, hfold]
    change List.foldlM f s₁ [x] = _
    rw [List.foldlM_cons, hf]
    rfl

theorem invariant_of_foldlM {f : β → α → Except ε β} (I : β → Prop) {l : List α} {s s' : β} (hs : I s)
    (hbody : ∀ x ∈ l, ∀ s s', I s → f s x = .ok s' → I s') (h : l.foldlM f s = .ok s')
    : I s' := by
  induction l generalizing s with
  | nil =>
    cases h
    exact hs
  | cons x l ih =>
    rw [List.forall_mem_cons] at hbody
    rw [List.foldlM_cons] at h
    cases hf : f s x with
    | error e =>
      rw [hf] at h
      cases h
    | ok s₁ =>
      rw [hf] at h
      exact ih (hbody.1 s s₁ hs hf) hbody.2 h

theorem error_of_foldlM {f : β → α → Except ε β} (I : β → Prop) {P : ε → Prop} {l : List α} {s : β} {e : ε}
    (hs : I s) (hbody : ∀ x ∈ l, ∀ s s', I s → f s x = .ok s' → I s')
    (herror : ∀ x ∈ l, ∀ s e, I s → f s x = .error e → P e) (h : l.foldlM f s = .error e)
    : P e := by
  induction l generalizing s with
  | nil => cases h
  | cons x l ih =>
    rw [List.forall_mem_cons] at hbody herror
    rw [List.foldlM_cons] at h
    cases hf : f s x with
    | error e' =>
      rw [hf] at h
      cases h
      exact herror.1 s e hs hf
    | ok s₁ =>
      rw [hf] at h
      exact ih (hbody.1 s s₁ hs hf) hbody.2 herror.2 h

theorem foldlM_nested {γ : Type*} {f : β → γ → Except ε β} {g : α → List γ} (l : List α) (s : β)
    : l.foldlM (fun s x => (g x).foldlM f s) s = (l.flatMap g).foldlM f s := by
  induction l generalizing s with
  | nil => rfl
  | cons x l ih => simp only [List.foldlM_cons, List.flatMap_cons, List.foldlM_append, ih]

theorem mapM_ok {γ : Type v} {f : α → Except ε γ} {g : α → γ} {l : List α}
    (hbody : ∀ x ∈ l, f x = .ok (g x))
    : l.mapM f = .ok (l.map g) := by
  induction l with
  | nil => rfl
  | cons x l ih =>
    rw [List.forall_mem_cons] at hbody
    rw [List.mapM_cons, hbody.1, ih hbody.2]
    rfl

end Loop
