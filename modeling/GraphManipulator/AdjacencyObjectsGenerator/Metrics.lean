import GraphManipulator.AdjacencyObjectsGenerator.Grouping

/-!
This module contains how long the keys are: a key has as many digits as were drawn for it unless the first one
is a zero.
-/

theorem le_ofDigitChars (s : Str) (init : Nat) : init * 10 ^ s.length ≤ Nat.ofDigitChars 10 s init := by
  induction s generalizing init with
  | nil => simp
  | cons c s ih =>
    rw [Nat.ofDigitChars_cons]
    calc
      init * 10 ^ (c :: s).length
      _ = (10 * init) * 10 ^ s.length := by
        rw [List.length_cons, Nat.pow_succ]
        ac_rfl
      _ ≤ (10 * init + (c.toNat - '0'.toNat)) * 10 ^ s.length := by
        apply Nat.mul_le_mul_right
        apply Nat.le_add_right
      _ ≤ Nat.ofDigitChars 10 s (10 * init + (c.toNat - '0'.toNat)) := ih _

theorem pow_le_ofDigitChars_cons_iff {c : Char} {s : Str} (h : ∀ a ∈ c :: s, a.isDigit = true)
    : 10 ^ s.length ≤ Nat.ofDigitChars 10 (c :: s) 0 ↔ c ≠ '0' := by
  rw [List.forall_mem_cons] at h
  have hc := Char.isDigit_iff_toNat.mp h.1
  rw [Nat.ofDigitChars_cons, Nat.mul_zero, Nat.zero_add]
  constructor
  . rintro hle rfl
    have hlt := ofDigitChars_lt h.2 0
    rw [Nat.zero_add, Nat.one_mul] at hlt
    exact absurd hlt (Nat.not_lt_of_le hle)
  . intro hne
    have hpos : 1 ≤ c.toNat - '0'.toNat := by
      have : c.toNat ≠ '0'.toNat := fun heq => hne (Char.toNat_inj.mp heq)
      omega
    calc
      10 ^ s.length
      _ = 1 * 10 ^ s.length := (Nat.one_mul _).symm
      _ ≤ (c.toNat - '0'.toNat) * 10 ^ s.length := Nat.mul_le_mul_right _ hpos
      _ ≤ Nat.ofDigitChars 10 s (c.toNat - '0'.toNat) := le_ofDigitChars s _

namespace AdjacencyObjectsGenerator

theorem drawChars_succ (chars : Str) (dimension : Nat) (w : Nat → Nat)
    : drawChars chars (dimension + 1) w
        =
      chars.getD (indexDist chars (w 0)) '\x00' :: drawChars chars dimension (fun i => w (i + 1)) := by
  simp [drawChars, List.range_succ_eq_map]

def firstDigit (d : Draws) (t : Nat) : Char :=
  metricsChars.getD (indexDist metricsChars (d.metric t 0)) '\x00'

theorem pow_le_metricKey_iff (g : AdjacencyObjectsGenerator) (d : Draws) (t : Nat)
    : 10 ^ (g.metricDimension - 1) ≤ g.metricKey d t ↔ firstDigit d t ≠ '0' := by
  obtain ⟨n, hn⟩ := Nat.exists_eq_succ_of_ne_zero (Nat.ne_of_gt g.metric_pos)
  have hdigits : ∀ c ∈ drawChars metricsChars (n + 1) (d.metric t), c.isDigit = true :=
    isDigit_of_mem_drawChars
  rw [drawChars_succ] at hdigits
  rw [metricKey, hn, Nat.succ_sub_one, drawChars_succ]
  have hiff := pow_le_ofDigitChars_cons_iff hdigits
  rw [length_drawChars] at hiff
  rw [firstDigit, ← hiff]
  norm_cast

theorem IsTable.mem_keys {g : AdjacencyObjectsGenerator} {d : Draws} {ps : List (Str × Str)}
    {table : GraphPayload} (h : g.IsTable d ps table) {key : Int}
    : key ∈ table.toList.map Prod.fst ↔ ∃ t < ps.length, g.metricKey d t = key := by
  rw [h.grouping.keys]
  constructor
  . intro hkey
    obtain ⟨⟨_, p⟩, hp, rfl⟩ := List.mem_map.mp hkey
    obtain ⟨t, ht, heq⟩ := mem_keyedPairs.mp hp
    exact ⟨t, (List.getElem?_eq_some_iff.mp ht).1, heq⟩
  . rintro ⟨t, ht, heq⟩
    have hp : (key, ps[t]) ∈ g.keyedPairs d ps := mem_keyedPairs.mpr ⟨t, List.getElem?_eq_getElem ht, heq⟩
    exact List.mem_map_of_mem hp

structure HasDigits (m : Nat) (key : Int) : Prop where
  isInt : IsInt key
  positive : 0 < key
  le : 10 ^ (m - 1) ≤ key
  lt : key < 10 ^ m

theorem hasDigits_metricKey_iff (g : AdjacencyObjectsGenerator) (d : Draws) (t : Nat)
    : HasDigits g.metricDimension (g.metricKey d t) ↔ firstDigit d t ≠ '0' := by
  rw [← g.pow_le_metricKey_iff d t]
  constructor
  . intro h
    exact h.le
  . intro hle
    have hint := g.metric_lt_int (d.metric t)
    have hpos : (0 : Int) < 10 ^ (g.metricDimension - 1) := by positivity
    refine ⟨?_, hpos.trans_le hle, hle, ?_⟩
    . unfold IsInt intMin intMax metricKey
      omega
    . unfold metricKey
      exact_mod_cast g.metric_lt_pow (d.metric t)

theorem generateData_hasDigits_iff {g : AdjacencyObjectsGenerator} {d : Draws} {table : GraphPayload}
    (htable : g.generateData d = .ok table)
    : (∀ e ∈ table.toList, HasDigits g.metricDimension e.1)
        ↔
      ∀ t < (g.selectedNames d).card, firstDigit d t ≠ '0' := by
  obtain ⟨ps, hps⟩ := isTable_of_generateData htable
  rw [← hps.length_eq]
  constructor
  . intro h t ht
    obtain ⟨e, he, heq⟩ := List.mem_map.mp (hps.mem_keys.mpr ⟨t, ht, rfl⟩)
    rw [← hasDigits_metricKey_iff g d t, ← heq]
    exact h e he
  . intro h e he
    obtain ⟨t, ht, heq⟩ := hps.mem_keys.mp (List.mem_map_of_mem he)
    rw [← heq, hasDigits_metricKey_iff]
    exact h t ht

theorem generateData_hasDigits_single
    : let g : AdjacencyObjectsGenerator := .ofDims 2 1 1
      let d : Draws := ⟨fun n _ => n, fun i _ => 1 - i, fun _ _ => 4⟩
      (∀ e ∈ (OrdMap.empty.alter 5 (fun _ => [(['A'], ['B'])]) : GraphPayload).toList,
          HasDigits g.metricDimension e.1)
        ↔
      ∀ t < (g.selectedNames d).card, firstDigit d t ≠ '0' := by
  intro g d
  have htable : g.generateData d = .ok (OrdMap.empty.alter 5 (fun _ => [(['A'], ['B'])])) := rfl
  exact generateData_hasDigits_iff htable

theorem not_hasDigits_zero
    : let g : AdjacencyObjectsGenerator := .ofDims 2 1 1
      let d : Draws := ⟨fun n _ => n, fun i _ => 1 - i, fun _ _ => 9⟩
      let table : GraphPayload := OrdMap.empty.alter 0 (fun _ => [(['A'], ['B'])])
      g.generateData d = .ok table ∧ ¬ ∀ e ∈ table.toList, HasDigits g.metricDimension e.1 := by
  intro g d table
  refine ⟨rfl, ?_⟩
  intro h
  exact absurd (h (0, [(['A'], ['B'])]) List.mem_cons_self).positive (by decide)

end AdjacencyObjectsGenerator
