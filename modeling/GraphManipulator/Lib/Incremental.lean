import Mathlib.Init

/-!
This module contains decoders of a sequence that arrives in parts: a step either takes something from the
beginning of what is there, or is final, or waits for more. What they decode depends on the sequence alone and
not on the parts.
-/

universe u v w

inductive Incremental.Step (α : Type u) (σ : Type v) (ε : Type w) where
  | wait
  | finish (e : ε)
  | next (s : σ) (rest : List α)

inductive Incremental.Progress (α : Type u) (σ : Type v) (ε : Type w) where
  | waiting (pending : List α) (s : σ)
  | finished (e : ε)

section

variable {α : Type u} {σ : Type v} {ε : Type w} {σ' : Type v} {ε' : Type w}

def Incremental.Step.map (f : σ → σ') (g : ε → ε') (step : Step α σ ε) : Step α σ' ε' :=
  match step with
  | .wait => .wait
  | .finish e => .finish (g e)
  | .next s rest => .next (f s) rest

def Incremental.Progress.map (f : σ → σ') (g : ε → ε') (p : Progress α σ ε) : Progress α σ' ε' :=
  match p with
  | .waiting pending s => .waiting pending (f s)
  | .finished e => .finished (g e)

end

/--
A step that does not wait is the same one when there is more.
-/
structure Incremental (α : Type u) (σ : Type v) (ε : Type w) where
  step : List α → σ → Incremental.Step α σ ε
  length_rest : ∀ {l s s' rest}, step l s = .next s' rest → rest.length < l.length
  step_append : ∀ {l s s' rest} (l' : List α), step l s = .next s' rest
    → step (l ++ l') s = .next s' (rest ++ l')
  finish_append : ∀ {l s e} (l' : List α), step l s = .finish e → step (l ++ l') s = .finish e

namespace Incremental

variable {α : Type u} {σ : Type v} {ε : Type w} (d : Incremental α σ ε)

def decode (l : List α) (s : σ) : Progress α σ ε :=
  match _hstep : d.step l s with
  | .wait => .waiting l s
  | .finish e => .finished e
  | .next s rest => decode rest s
termination_by l.length
decreasing_by exact d.length_rest _hstep

def Progress.absorb (p : Progress α σ ε) (l : List α) : Progress α σ ε :=
  match p with
  | .waiting pending s => d.decode (pending ++ l) s
  | .finished e => .finished e

def Progress.IsSettled (p : Progress α σ ε) : Prop :=
  match p with
  | .waiting pending s => d.step pending s = .wait
  | .finished _ => True

section

variable {l : List α} {s : σ}

theorem decode_of_wait (h : d.step l s = .wait) : d.decode l s = .waiting l s := by
  rw [decode]
  split <;> simp_all

theorem decode_of_finish {e : ε} (h : d.step l s = .finish e) : d.decode l s = .finished e := by
  rw [decode]
  split <;> simp_all

theorem decode_of_next {s' : σ} {rest : List α} (h : d.step l s = .next s' rest)
    : d.decode l s = d.decode rest s' := by
  rw [decode]
  split <;> simp_all

end

theorem isSettled_decode (l : List α) (s : σ) : (d.decode l s).IsSettled d := by
  induction l, s using decode.induct d with
  | case1 l s hwait =>
    rw [decode_of_wait d hwait]
    exact hwait
  | case2 l s e hfinish =>
    rw [decode_of_finish d hfinish]
    trivial
  | case3 l s s' rest hnext ih =>
    rw [decode_of_next d hnext]
    exact ih

theorem decode_append (l l' : List α) (s : σ) : d.decode (l ++ l') s = (d.decode l s).absorb d l' := by
  induction l, s using decode.induct d with
  | case1 l s hwait =>
    rw [decode_of_wait d hwait]
    rfl
  | case2 l s e hfinish =>
    rw [decode_of_finish d hfinish, decode_of_finish d (d.finish_append l' hfinish)]
    rfl
  | case3 l s s' rest hnext ih =>
    rw [decode_of_next d hnext, decode_of_next d (d.step_append l' hnext), ih]

theorem absorb_append (p : Progress α σ ε) (l l' : List α)
    : p.absorb d (l ++ l') = (p.absorb d l).absorb d l' := by
  cases p with
  | waiting pending s =>
    rw [Progress.absorb, ← List.append_assoc, decode_append]
    rfl
  | finished e => rfl

theorem absorb_nil {p : Progress α σ ε} (h : p.IsSettled d) : p.absorb d [] = p := by
  cases p with
  | waiting pending s => rw [Progress.absorb, List.append_nil, decode_of_wait d h]
  | finished e => rfl

theorem isSettled_absorb {p : Progress α σ ε} (l : List α) : (p.absorb d l).IsSettled d := by
  cases p with
  | waiting pending s => exact isSettled_decode d _ _
  | finished e => trivial

theorem foldl_absorb {p : Progress α σ ε} (h : p.IsSettled d) (parts : List (List α))
    : parts.foldl (Progress.absorb d) p = p.absorb d parts.flatten := by
  induction parts generalizing p with
  | nil => rw [List.foldl_nil, List.flatten_nil, absorb_nil d h]
  | cons l parts ih => rw [List.foldl_cons, ih (isSettled_absorb d l), List.flatten_cons, absorb_append]

theorem decode_map {σ' : Type v} {ε' : Type w} {d' : Incremental α σ' ε'} {f : σ → σ'} {g : ε → ε'}
    (hstep : ∀ l s, d'.step l (f s) = (d.step l s).map f g) (l : List α) (s : σ)
    : d'.decode l (f s) = (d.decode l s).map f g := by
  induction l, s using decode.induct d with
  | case1 l s hwait =>
    rw [decode_of_wait d hwait]
    exact decode_of_wait d' (by rw [hstep, hwait, Step.map])
  | case2 l s e hfinish =>
    rw [decode_of_finish d hfinish]
    exact decode_of_finish d' (by rw [hstep, hfinish, Step.map])
  | case3 l s s' rest hnext ih =>
    rw [decode_of_next d hnext, ← ih]
    exact decode_of_next d' (by rw [hstep, hnext, Step.map])

theorem decode_invariant {P : σ → Prop} {Q : ε → Prop}
    (hnext : ∀ {l s s' rest}, P s → d.step l s = .next s' rest → P s')
    (hfinish : ∀ {l s e}, P s → d.step l s = .finish e → Q e) (l : List α) {s : σ} (hs : P s)
    : match d.decode l s with
      | .waiting _ s => P s
      | .finished e => Q e := by
  induction l, s using decode.induct d with
  | case1 l s hwait =>
    rw [decode_of_wait d hwait]
    exact hs
  | case2 l s e hstep =>
    rw [decode_of_finish d hstep]
    exact hfinish hs hstep
  | case3 l s s' rest hstep ih =>
    rw [decode_of_next d hstep]
    exact ih (hnext hs hstep)

end Incremental
