import Mathlib.Data.List.TakeWhile

/-!
This module contains parsing expressions: recognizers with an ordered choice, which go back to where they
started when they fail, and the rules by which their results follow from the results of their parts.
-/

universe u v

/--
The result of a parsing expression. It is `stuck` when a repetition or a nesting exceeds its bound, which is
no failure that another alternative could make up for.
-/
inductive Reply (τ : Type u) (α : Type v) where
  | ok (a : α) (rest : List τ)
  | fail
  | stuck
  deriving DecidableEq, Repr

structure Peg (τ : Type u) (α : Type v) where
  run : List τ → Reply τ α

namespace Peg

variable {τ : Type u} {α β : Type v}

instance : Monad (Peg τ) where
  pure a := ⟨fun s => .ok a s⟩
  bind p f := ⟨fun s =>
    match p.run s with
    | .ok a rest => (f a).run rest
    | .fail => .fail
    | .stuck => .stuck⟩

def failure : Peg τ α := ⟨fun _ => .fail⟩

def stuck : Peg τ α := ⟨fun _ => .stuck⟩

def choice (p q : Peg τ α) : Peg τ α := ⟨fun s =>
  match p.run s with
  | .ok a rest => .ok a rest
  | .fail => q.run s
  | .stuck => .stuck⟩

def opt (p : Peg τ α) : Peg τ (Option α) := ⟨fun s =>
  match p.run s with
  | .ok a rest => .ok (some a) rest
  | .fail => .ok none s
  | .stuck => .stuck⟩

def notFollowedBy (p : Peg τ α) : Peg τ PUnit := ⟨fun s =>
  match p.run s with
  | .ok _ _ => .fail
  | .fail => .ok ⟨⟩ s
  | .stuck => .stuck⟩

def starWithin (p : Peg τ α) (fuel : Nat) (s : List τ) : Reply τ (List α) :=
  match fuel with
  | 0 => .stuck
  | fuel + 1 =>
    match p.run s with
    | .ok a rest =>
      match starWithin p fuel rest with
      | .ok as rest => .ok (a :: as) rest
      | .fail => .fail
      | .stuck => .stuck
    | .fail => .ok [] s
    | .stuck => .stuck

def star (p : Peg τ α) : Peg τ (List α) := ⟨fun s => starWithin p (s.length + 1) s⟩

def plus (p : Peg τ α) : Peg τ (List α) := do
  let a ← p
  let as ← star p
  return a :: as

def sat (P : τ → Bool) : Peg τ τ := ⟨fun s =>
  match s with
  | [] => .fail
  | c :: rest => if P c then .ok c rest else .fail⟩

def wordBy [DecidableEq τ] (norm : τ → τ) (w : List τ) : Peg τ (List τ) := ⟨fun s =>
  if (s.take w.length).map norm = w then .ok (s.take w.length) (s.drop w.length) else .fail⟩

def word [DecidableEq τ] (w : List τ) : Peg τ (List τ) := wordBy id w

variable {p q : Peg τ α} {f : α → Peg τ β} {s t r : List τ} {a : α} {as : List α}

@[simp]
theorem pure_apply (a : α) (s : List τ) : (pure a : Peg τ α).run s = .ok a s := rfl

theorem bind_ok (h : p.run s = .ok a t) : (p >>= f).run s = (f a).run t := by
  simp only [bind, h]

theorem bind_fail (h : p.run s = .fail) : (p >>= f).run s = .fail := by
  simp only [bind, h]

theorem choice_ok (h : p.run s = .ok a t) : (choice p q).run s = .ok a t := by
  simp only [choice, h]

theorem choice_fail (h : p.run s = .fail) : (choice p q).run s = q.run s := by
  simp only [choice, h]

theorem opt_ok (h : p.run s = .ok a t) : (opt p).run s = .ok (some a) t := by
  simp only [opt, h]

theorem opt_fail (h : p.run s = .fail) : (opt p).run s = .ok none s := by
  simp only [opt, h]

theorem starWithin_mono {m n : Nat} (h : starWithin p m s = .ok as t) (hle : m ≤ n)
    : starWithin p n s = .ok as t := by
  induction m generalizing n s t as with
  | zero => simp [starWithin] at h
  | succ m ih =>
    obtain ⟨n, rfl⟩ : ∃ k, n = k + 1 := ⟨n - 1, by omega⟩
    simp only [starWithin] at h ⊢
    split at h
    . split at h
      . next hrest =>
        rw [ih hrest (by omega)]
        exact h
      . contradiction
      . contradiction
    . exact h
    . contradiction

theorem star_nil (h : p.run s = .fail) : (star p).run s = .ok [] s := by
  simp only [star, starWithin, h]

theorem star_cons (h : p.run s = .ok a t) (hlt : t.length < s.length) (hrest : (star p).run t = .ok as r)
    : (star p).run s = .ok (a :: as) r := by
  unfold star at hrest
  have := starWithin_mono (n := s.length) hrest (by omega)
  simp only [star, starWithin, h, this]

theorem sat_ok {P : τ → Bool} {c : τ} (h : P c = true) : (sat P).run (c :: s) = .ok c s := by
  simp only [sat, h, if_true]

def Ends (P : τ → Bool) (s : List τ) : Prop := ∀ c ∈ s.head?, P c = false

theorem sat_fail {P : τ → Bool} (h : Ends P s) : (sat P).run s = .fail := by
  cases s with
  | nil => rfl
  | cons c s =>
    have hc : P c = false := h c (by simp)
    simp [sat, hc]

theorem star_sat {P : τ → Bool} {w : List τ} (hw : ∀ c ∈ w, P c = true) (hs : Ends P s)
    : (star (sat P)).run (w ++ s) = .ok w s := by
  induction w with
  | nil => exact star_nil (sat_fail hs)
  | cons c w ih =>
    rw [List.forall_mem_cons] at hw
    exact star_cons (sat_ok hw.1) (by simp) (ih hw.2)

theorem plus_sat {P : τ → Bool} {w : List τ} (hne : w ≠ []) (hw : ∀ c ∈ w, P c = true) (hs : Ends P s)
    : (plus (sat P)).run (w ++ s) = .ok w s := by
  cases w with
  | nil => exact absurd rfl hne
  | cons c w =>
    rw [List.forall_mem_cons] at hw
    unfold plus
    rw [List.cons_append, bind_ok (sat_ok hw.1), bind_ok (star_sat hw.2 hs)]
    rfl

theorem plus_sat_fail {P : τ → Bool} (hs : Ends P s) : (plus (sat P)).run s = .fail :=
  bind_fail (sat_fail hs)

theorem word_ok [DecidableEq τ] (w : List τ) : (word w).run (w ++ s) = .ok w s := by
  simp [word, wordBy]

theorem word_singleton_ok [DecidableEq τ] (c : τ) : (word [c]).run (c :: s) = .ok [c] s :=
  word_ok [c]

theorem word_fail [DecidableEq τ] {c : τ} {w : List τ} (h : s.head? ≠ some c)
    : (word (c :: w)).run s = .fail := by
  cases s with
  | nil => simp [word, wordBy]
  | cons d s =>
    simp only [List.head?_cons, ne_eq, Option.some.injEq] at h
    simp [word, wordBy, h]

end Peg
