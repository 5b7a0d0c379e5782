import Mathlib.Data.List.Range

/-!
This module contains the loop over the indices below a bound whose counter has 32 bits. It visits each index
once, or it is never left because the bound is larger than all values of the counter.
-/

universe u v

namespace UnsignedLoop

variable {σ : Type u} {ε : Type v}

def run (size : Nat) (stuck : ε) (body : Nat → σ → Except ε σ) (fuel : Nat) (i : UInt32) (s : σ)
    : Except ε σ :=
  match fuel with
  | 0 => .error stuck
  | fuel + 1 =>
    if i.toNat < size then do
      let s ← body i.toNat s
      run size stuck body fuel (i + 1) s
    else
      .ok s

theorem toNat_succ {i : UInt32} {size : Nat} (hsize : size < 4294967296) (hi : i.toNat < size)
    : (i + 1).toNat = i.toNat + 1 := by
  rw [UInt32.toNat_add, UInt32.toNat_one]
  omega

theorem run_ok {size : Nat} (hsize : size < 4294967296) (stuck : ε) {body : Nat → σ → Except ε σ}
    (I : Nat → σ → Prop)
    (hbody : ∀ j s, j < size → I j s → ∃ s', body j s = .ok s' ∧ I (j + 1) s')
    {fuel : Nat} {i : UInt32} {s : σ} (hfuel : size < fuel + i.toNat) (hi : i.toNat ≤ size)
    (hs : I i.toNat s)
    : ∃ s', run size stuck body fuel i s = .ok s' ∧ I size s' := by
  induction fuel generalizing i s with
  | zero => omega
  | succ fuel ih =>
    unfold run
    split
    . next hlt =>
      obtain ⟨s₁, hrun, hs₁⟩ := hbody i.toNat s hlt hs
      have hnext := toNat_succ hsize hlt
      rw [hrun]
      apply ih
      . omega
      . omega
      . rwa [hnext]
    . next hnlt =>
      have heq : i.toNat = size := Nat.le_antisymm hi (Nat.le_of_not_lt hnlt)
      rw [heq] at hs
      exact ⟨s, rfl, hs⟩

theorem run_stuck {size : Nat} (hsize : 4294967296 ≤ size) (stuck : ε) {body : Nat → σ → Except ε σ}
    (hbody : ∀ j s, j < size → ∃ s', body j s = .ok s') (fuel : Nat) (i : UInt32) (s : σ)
    : run size stuck body fuel i s = .error stuck := by
  induction fuel generalizing i s with
  | zero => rfl
  | succ fuel ih =>
    have hlt : i.toNat < size := Nat.lt_of_lt_of_le i.toNat_lt hsize
    obtain ⟨s₁, hrun⟩ := hbody i.toNat s hlt
    unfold run
    rw [if_pos hlt, hrun]
    apply ih

def collect {α : Type v} (size fuel : Nat) (f : Nat → α) : Except Unit (List α) :=
  run size () (fun j collected => .ok (collected ++ [f j])) fuel 0 []

theorem collect_eq_ok {α : Type v} {size : Nat} (hsize : size < 4294967296) (f : Nat → α)
    : ∃ fuel, collect size fuel f = .ok ((List.range size).map f) := by
  have hbody : ∀ j collected, j < size → collected = (List.range j).map f →
      ∃ collected', (.ok (collected ++ [f j]) : Except Unit (List α)) = .ok collected'
        ∧ collected' = (List.range (j + 1)).map f := by
    rintro j collected - rfl
    refine ⟨_, rfl, ?_⟩
    rw [List.range_succ, List.map_append]
    rfl
  obtain ⟨collected, hrun, rfl⟩ := run_ok hsize () (fun j collected => collected = (List.range j).map f) hbody
    (i := 0) (Nat.lt_succ_self size) (Nat.zero_le size) rfl
  exact ⟨size + 1, hrun⟩

end UnsignedLoop
