import GraphManipulator.AdjacencyObjectsGenerator.Impl
import GraphManipulator.Lib.Grouping
import GraphManipulator.Lib.Loop
import GraphManipulator.Lib.UnsignedLoop

/-!
This module contains what holds of the generated table for every outcome of the draws, and when the
generator returns one.
-/

theorem ofDigitChars_lt {s : Str} (h : ∀ c ∈ s, c.isDigit = true) (init : Nat)
    : Nat.ofDigitChars 10 s init < (init + 1) * 10 ^ s.length := by
  induction s generalizing init with
  | nil => simp
  | cons c s ih =>
    have hc := Char.isDigit_iff_toNat.mp (h c (by simp))
    have hzero : '0'.toNat = 48 := rfl
    have hnine : '9'.toNat = 57 := rfl
    rw [Nat.ofDigitChars_cons]
    calc
      Nat.ofDigitChars 10 s (10 * init + (c.toNat - '0'.toNat))
      _ < (10 * init + (c.toNat - '0'.toNat) + 1) * 10 ^ s.length :=
        ih (fun c hc => h c (List.mem_cons_of_mem _ hc)) _
      _ ≤ (10 * (init + 1)) * 10 ^ s.length := by
        apply Nat.mul_le_mul_right
        omega
      _ = (init + 1) * 10 ^ (c :: s).length := by
        rw [List.length_cons, Nat.pow_succ]
        ac_rfl

def IsName (s : Str) : Prop := s ≠ [] ∧ ∀ c ∈ s, c.isUpper = true

namespace AdjacencyObjectsGenerator

theorem indexDist_lt {chars : Str} (h : chars ≠ []) (w : Nat) : indexDist chars w < chars.length := by
  have := List.length_pos_iff.mpr h
  have := uniformInt_le (a := 0) (b := chars.length - 1) (w := w) (by omega)
  unfold indexDist
  omega

@[simp]
theorem length_drawChars (chars : Str) (dimension : Nat) (w : Nat → Nat)
    : (drawChars chars dimension w).length = dimension := by
  simp [drawChars]

theorem getD_indexDist_mem {chars : Str} (h : chars ≠ []) (w : Nat)
    : chars.getD (indexDist chars w) '\x00' ∈ chars := by
  rw [List.getD_eq_getElem?_getD, List.getElem?_eq_getElem (indexDist_lt h w)]
  apply List.getElem_mem

theorem forall_drawChars {chars : Str} {P : Char → Prop} (hne : chars ≠ []) (h : ∀ c ∈ chars, P c)
    (dimension : Nat) (w : Nat → Nat)
    : ∀ c ∈ drawChars chars dimension w, P c := by
  intro c hc
  obtain ⟨i, -, rfl⟩ := List.mem_map.mp hc
  apply h
  apply getD_indexDist_mem hne

theorem isDigit_of_mem_drawChars {dimension : Nat} {w : Nat → Nat}
    : ∀ c ∈ drawChars metricsChars dimension w, c.isDigit = true :=
  forall_drawChars (by decide) (by decide) dimension w

theorem isName_generateNames (g : AdjacencyObjectsGenerator) (w : Nat → Nat)
    : IsName (g.generateNames w) := by
  constructor
  . apply List.ne_nil_of_length_pos
    rw [generateNames, length_drawChars]
    exact g.one_le
  . exact forall_drawChars (by decide) (by decide) _ w

theorem metric_lt_pow (g : AdjacencyObjectsGenerator) (w : Nat → Nat)
    : Nat.ofDigitChars 10 (drawChars metricsChars g.metricDimension w) 0 < 10 ^ g.metricDimension := by
  have hlt := ofDigitChars_lt (s := drawChars metricsChars g.metricDimension w) isDigit_of_mem_drawChars 0
  rwa [length_drawChars, Nat.zero_add, Nat.one_mul] at hlt

theorem metric_lt_int (g : AdjacencyObjectsGenerator) (w : Nat → Nat)
    : Nat.ofDigitChars 10 (drawChars metricsChars g.metricDimension w) 0 < 2147483648 := by
  have hpow : 10 ^ g.metricDimension ≤ 10 ^ 9 :=
    Nat.pow_le_pow_right (by decide) (Nat.le_of_lt_succ g.metric_lt)
  have := g.metric_lt_pow w
  omega

theorem generateMetric_eq (g : AdjacencyObjectsGenerator) (w : Nat → Nat)
    : g.generateMetric w = .ok (Nat.ofDigitChars 10 (drawChars metricsChars g.metricDimension w) 0) := by
  apply stoi_of_digits
  . apply List.ne_nil_of_length_pos
    rw [length_drawChars]
    exact g.metric_pos
  . exact isDigit_of_mem_drawChars
  . have := g.metric_lt_int w
    unfold IsInt intMin intMax
    omega

theorem generateMetric_eq_ok (g : AdjacencyObjectsGenerator) (w : Nat → Nat)
    : ∃ k : Nat, g.generateMetric w = .ok (k : Int)
        ∧ k < 10 ^ g.metricDimension
        ∧ k < 2147483648 :=
  ⟨_, g.generateMetric_eq w, g.metric_lt_pow w, g.metric_lt_int w⟩

def IsSelected (g : AdjacencyObjectsGenerator) (d : Draws) (a b : Str) : Prop :=
  a ≠ b ∧ ∃ i j, (g.serversNames d)[i]? = some a ∧ (g.serversNames d)[j]? = some b ∧ d.coin i j % 2 = 1

theorem mem_selectedPairs_iff {g : AdjacencyObjectsGenerator} {d : Draws} {p : Str × Str}
    : p ∈ g.selectedPairs d ↔ g.IsSelected d p.1 p.2 := by
  simp only [selectedPairs, pairUp, List.mem_flatMap, List.mem_filterMap, IsSelected]
  constructor
  . rintro ⟨i, hi, j, hj, hp⟩
    rw [List.mem_zipIdx_iff_getElem?] at hi hj
    split at hp
    . next hne =>
      split at hp
      . next hcoin =>
        cases hp
        exact ⟨hne, i.2, j.2, hi, hj, hcoin⟩
      . contradiction
    . contradiction
  . rintro ⟨hne, i, j, hi, hj, hcoin⟩
    refine ⟨(p.1, i), ?_, (p.2, j), ?_, ?_⟩
    . rwa [List.mem_zipIdx_iff_getElem?]
    . rwa [List.mem_zipIdx_iff_getElem?]
    . rw [if_pos hne, if_pos hcoin]

theorem isName_of_mem_selectedPairs {g : AdjacencyObjectsGenerator} {d : Draws} {p : Str × Str}
    (h : p ∈ g.selectedPairs d)
    : IsName p.1 ∧ IsName p.2 := by
  have hname : ∀ (i : Nat) name, (g.serversNames d)[i]? = some name → IsName name := by
    intro i name hi
    obtain ⟨n, -, rfl⟩ := List.mem_map.mp (List.mem_of_getElem? hi)
    apply isName_generateNames
  obtain ⟨-, i, j, hi, hj, -⟩ := mem_selectedPairs_iff.mp h
  exact ⟨hname i p.1 hi, hname j p.2 hj⟩

def insertPair (ps : List (Str × Str)) (i : Nat) (uniqueSet : PairSet) : Except Fault PairSet := do
  let p ← vectorAt ps i
  .ok (uniqueSet.insert (toLex p) ())

theorem insertPair_eq_ok {ps : List (Str × Str)} {i : Nat} (h : i < ps.length) (uniqueSet : PairSet)
    : insertPair ps i uniqueSet = .ok (uniqueSet.insert (toLex ps[i]) ()) := by
  rw [insertPair, vectorAt_eq_ok (List.getElem?_eq_getElem h)]
  rfl

theorem addUnique_eq_run (ps : List (Str × Str)) (fuel : Nat) (i : UInt32) (uniqueSet : PairSet)
    : addUnique ps fuel i uniqueSet
        =
      UnsignedLoop.run ps.length .nonterminating (insertPair ps) fuel i uniqueSet := by
  induction fuel generalizing i uniqueSet with
  | zero => rfl
  | succ fuel ih =>
    unfold addUnique UnsignedLoop.run
    split
    . next hlt =>
      rw [insertPair_eq_ok hlt, vectorAt_eq_ok (List.getElem?_eq_getElem hlt)]
      apply ih
    . rfl

theorem addUnique_eq_ok {ps : List (Str × Str)} (hps : ps.length < 4294967296)
    : ∃ res, addUnique ps (ps.length + 1) 0 OrdMap.empty = .ok res
        ∧ ∀ p, p ∈ res.toList.map Prod.fst ↔ ofLex p ∈ ps := by
  let Has (i : Nat) (uniqueSet : PairSet) : Prop :=
    ∀ p, p ∈ uniqueSet.toList.map Prod.fst ↔ ofLex p ∈ ps.take i
  have hinit : Has 0 OrdMap.empty := by simp [Has, OrdMap.empty]
  have hbody : ∀ i uniqueSet, i < ps.length → Has i uniqueSet →
      ∃ uniqueSet', insertPair ps i uniqueSet = .ok uniqueSet' ∧ Has (i + 1) uniqueSet' := by
    intro i uniqueSet hi hhas
    refine ⟨_, insertPair_eq_ok hi uniqueSet, ?_⟩
    intro p
    have hinsert : p ∈ (uniqueSet.insert (toLex ps[i]) ()).toList.map Prod.fst
        ↔ p = toLex ps[i] ∨ p ∈ uniqueSet.toList.map Prod.fst := OrdMap.mem_keys_upsert
    rw [hinsert, hhas p, List.take_succ_eq_append_getElem hi, List.mem_append, List.mem_singleton, or_comm]
    rfl
  obtain ⟨res, hrun, hres⟩ := UnsignedLoop.run_ok hps Fault.nonterminating Has hbody (i := 0)
    (Nat.lt_succ_self _) (Nat.zero_le _) hinit
  refine ⟨res, ?_, ?_⟩
  . rw [addUnique_eq_run]
    exact hrun
  . intro p
    rw [hres p, List.take_length]

theorem addUnique_nonterminating {ps : List (Str × Str)} (hps : 4294967296 ≤ ps.length) (fuel : Nat)
    (i : UInt32) (uniqueSet : PairSet)
    : addUnique ps fuel i uniqueSet = .error .nonterminating := by
  rw [addUnique_eq_run]
  apply UnsignedLoop.run_stuck hps
  intro j uniqueSet hj
  exact ⟨_, insertPair_eq_ok hj uniqueSet⟩

/--
From the counter `i` on, the loop adds the pairs in `rest` to the set, one in each round, and is left after them.
-/
def Visits (ps : List (Str × Str)) (i : UInt32) (uniqueSet : PairSet) (rest : List (Str × Str)) : Prop :=
  match rest with
  | [] => ∀ fuel, addUnique ps (fuel + 1) i uniqueSet = .ok uniqueSet
  | p :: rest =>
    (∀ fuel, addUnique ps (fuel + 1) i uniqueSet = addUnique ps fuel (i + 1) (uniqueSet.insert (toLex p) ()))
      ∧ Visits ps (i + 1) (uniqueSet.insert (toLex p) ()) rest

theorem Visits.eq_ok {ps rest : List (Str × Str)} {i : UInt32} {uniqueSet : PairSet}
    (h : Visits ps i uniqueSet rest)
    : ∃ res, addUnique ps (rest.length + 1) i uniqueSet = .ok res := by
  induction rest generalizing i uniqueSet with
  | nil => exact ⟨uniqueSet, h 0⟩
  | cons p rest ih =>
    rw [List.length_cons, h.1]
    exact ih h.2

theorem visits_of_lt {pre rest : List (Str × Str)} (hlength : (pre ++ rest).length < 4294967296) {i : UInt32}
    (hi : i.toNat = pre.length) (uniqueSet : PairSet)
    : Visits (pre ++ rest) i uniqueSet rest := by
  induction rest generalizing pre i uniqueSet with
  | nil =>
    intro fuel
    rw [addUnique, if_neg]
    rw [hi, List.append_nil]
    exact Nat.lt_irrefl _
  | cons p rest ih =>
    have hlt : i.toNat < (pre ++ p :: rest).length := by
      rw [hi, List.length_append, List.length_cons]
      omega
    have hget : vectorAt (pre ++ p :: rest) i.toNat = .ok p := by
      apply vectorAt_eq_ok
      rw [hi, List.getElem?_append_right (Nat.le_refl _), Nat.sub_self]
      rfl
    constructor
    . intro fuel
      rw [addUnique, if_pos hlt, hget]
      rfl
    . have hsplit : pre ++ p :: rest = (pre ++ [p]) ++ rest := by rw [List.append_assoc, List.singleton_append]
      have hnext : (i + 1).toNat = (pre ++ [p]).length := by
        rw [UnsignedLoop.toNat_succ hlength hlt, hi, List.length_append]
        rfl
      rw [hsplit] at hlength ⊢
      exact ih hlength hnext _

theorem visits_iff {ps : List (Str × Str)}
    : Visits ps 0 OrdMap.empty ps ↔ ps.length < 4294967296 := by
  constructor
  . intro h
    obtain ⟨res, hres⟩ := h.eq_ok
    apply Nat.lt_of_not_le
    intro hle
    rw [addUnique_nonterminating hle] at hres
    contradiction
  . intro hlt
    exact @visits_of_lt [] ps hlt 0 rfl OrdMap.empty

def metricKey (g : AdjacencyObjectsGenerator) (d : Draws) (t : Nat) : Int :=
  Nat.ofDigitChars 10 (drawChars metricsChars g.metricDimension (d.metric t)) 0

theorem generateMetric_eq_metricKey (g : AdjacencyObjectsGenerator) (d : Draws) (t : Nat)
    : g.generateMetric (d.metric t) = .ok (g.metricKey d t) :=
  g.generateMetric_eq (d.metric t)

def keyedPairs (g : AdjacencyObjectsGenerator) (d : Draws) (ps : List (Str × Str)) : List (Int × (Str × Str)) :=
  ps.zipIdx.map (fun sNode => (g.metricKey d sNode.2, sNode.1))

@[simp]
theorem map_snd_keyedPairs (g : AdjacencyObjectsGenerator) (d : Draws) (ps : List (Str × Str))
    : (g.keyedPairs d ps).map Prod.snd = ps := by
  rw [keyedPairs, List.map_map]
  exact List.zipIdx_map_fst 0 ps

theorem mem_keyedPairs {g : AdjacencyObjectsGenerator} {d : Draws} {ps : List (Str × Str)} {key : Int}
    {p : Str × Str}
    : (key, p) ∈ g.keyedPairs d ps ↔ ∃ t : Nat, ps[t]? = some p ∧ g.metricKey d t = key := by
  simp only [keyedPairs, List.mem_map, List.mem_zipIdx_iff_getElem?, Prod.mk.injEq]
  constructor
  . rintro ⟨sNode, hp, hkey, rfl⟩
    exact ⟨sNode.2, hp, hkey⟩
  . rintro ⟨t, hp, hkey⟩
    exact ⟨(p, t), hp, hkey, rfl⟩

theorem addMetrics_isGrouping (g : AdjacencyObjectsGenerator) (d : Draws) (ps : List (Str × Str))
    : ∃ table, g.addMetrics d ps = .ok table ∧ OrdMap.IsGrouping (g.keyedPairs d ps) table.toList := by
  let keyed (sNodes : List ((Str × Str) × Nat)) := sNodes.map (fun sNode => (g.metricKey d sNode.2, sNode.1))
  let Groups (sNodes : List ((Str × Str) × Nat)) (serversData : GraphPayload) : Prop :=
    OrdMap.IsGrouping (keyed sNodes) serversData.toList
  have hinit : Groups [] OrdMap.empty := OrdMap.isGrouping_nil
  refine Loop.foldlM_ok Groups hinit ?_
  intro pre sNode serversData _ hgrouping
  refine ⟨serversData.alter (g.metricKey d sNode.2) (fun pathNode => pathNode.getD [] ++ [sNode.1]), ?_, ?_⟩
  . rw [generateMetric_eq_metricKey]
    rfl
  . dsimp only [Groups, keyed]
    rw [List.map_append]
    exact OrdMap.isGrouping_push serversData.sorted hgrouping _ _

theorem generateData_eq_addMetrics {g : AdjacencyObjectsGenerator} {d : Draws}
    (h : (g.selectedPairs d).length < 4294967296)
    : ∃ ps, g.generateData d = g.addMetrics d ps
        ∧ ps.Pairwise (fun p q => toLex p < toLex q)
        ∧ ∀ p, p ∈ ps ↔ p ∈ g.selectedPairs d := by
  obtain ⟨uniqueSet, hunique, hmem⟩ := addUnique_eq_ok h
  refine ⟨uniqueSet.toList.map (fun e => ofLex e.1), by simp only [generateData, hunique]; rfl, ?_, ?_⟩
  . rw [List.pairwise_map]
    exact uniqueSet.sorted
  . intro p
    have hkey := hmem (toLex p)
    rw [ofLex_toLex] at hkey
    rw [← hkey]
    simp only [List.mem_map]
    rfl

structure IsTable (g : AdjacencyObjectsGenerator) (d : Draws) (ps : List (Str × Str)) (table : GraphPayload)
    : Prop where
  ascending : ps.Pairwise (fun p q => toLex p < toLex q)
  selected : ∀ p, p ∈ ps ↔ g.IsSelected d p.1 p.2
  grouping : OrdMap.IsGrouping (g.keyedPairs d ps) table.toList

theorem generateData_isTable {g : AdjacencyObjectsGenerator} {d : Draws}
    (h : (g.selectedPairs d).length < 4294967296)
    : ∃ ps table, g.generateData d = .ok table ∧ g.IsTable d ps table := by
  obtain ⟨ps, hdata, hascending, hmem⟩ := generateData_eq_addMetrics h
  obtain ⟨table, htable, hgrouping⟩ := g.addMetrics_isGrouping d ps
  refine ⟨ps, table, hdata.trans htable, hascending, ?_, hgrouping⟩
  intro p
  rw [hmem, mem_selectedPairs_iff]

theorem generateData_eq_ok {g : AdjacencyObjectsGenerator} {d : Draws}
    (h : (g.selectedPairs d).length < 4294967296)
    : ∃ table, g.generateData d = .ok table := by
  obtain ⟨ps, table, htable, -⟩ := generateData_isTable h
  exact ⟨table, htable⟩

theorem generateData_nonterminating {g : AdjacencyObjectsGenerator} {d : Draws}
    (h : 4294967296 ≤ (g.selectedPairs d).length)
    : g.generateData d = .error .nonterminating := by
  simp only [generateData, addUnique_nonterminating h]
  rfl

theorem nonterminating_of_generateData {g : AdjacencyObjectsGenerator} {d : Draws} {e : Fault}
    (h : g.generateData d = .error e)
    : 4294967296 ≤ (g.selectedPairs d).length ∧ e = .nonterminating := by
  by_cases hlt : (g.selectedPairs d).length < 4294967296
  . obtain ⟨table, htable⟩ := generateData_eq_ok hlt
    rw [htable] at h
    contradiction
  . have hle := Nat.le_of_not_lt hlt
    rw [generateData_nonterminating hle] at h
    cases h
    exact ⟨hle, rfl⟩

theorem isTable_of_generateData {g : AdjacencyObjectsGenerator} {d : Draws} {table : GraphPayload}
    (htable : g.generateData d = .ok table)
    : ∃ ps, g.IsTable d ps table := by
  by_cases h : (g.selectedPairs d).length < 4294967296
  . obtain ⟨ps, table', htable', hps⟩ := generateData_isTable h
    rw [htable] at htable'
    cases htable'
    exact ⟨ps, hps⟩
  . rw [generateData_nonterminating (Nat.le_of_not_lt h)] at htable
    contradiction

def IsEntry (key : Int) (pathNode : List (Str × Str)) : Prop :=
  0 ≤ key ∧ ∀ p ∈ pathNode, IsName p.1 ∧ IsName p.2

theorem isEntry_of_generateData {g : AdjacencyObjectsGenerator} {d : Draws} {table : GraphPayload}
    (h : g.generateData d = .ok table)
    : ∀ e ∈ table.toList, IsEntry e.1 e.2 := by
  obtain ⟨ps, hps⟩ := isTable_of_generateData h
  intro e he
  constructor
  . obtain ⟨⟨key, p⟩, hp, hkey⟩ := List.mem_map.mp ((hps.grouping.keys e.1).mp (List.mem_map_of_mem he))
    obtain ⟨t, -, heq⟩ := mem_keyedPairs.mp hp
    rw [← hkey, ← heq]
    apply Int.natCast_nonneg
  . intro p hp
    obtain ⟨t, ht, -⟩ := mem_keyedPairs.mp ((hps.grouping.mem_iff he).mp hp)
    apply isName_of_mem_selectedPairs
    rw [mem_selectedPairs_iff, ← hps.selected]
    exact List.mem_of_getElem? ht

end AdjacencyObjectsGenerator
