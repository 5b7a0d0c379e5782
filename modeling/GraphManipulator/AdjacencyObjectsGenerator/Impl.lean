import GraphManipulator.Basic
import GraphManipulator.Lib.OrdMap
import Mathlib.Data.Char
import Mathlib.Data.List.Lex
import Mathlib.Data.Prod.Lex

/-!
This module contains the generator of the table of pathes: random names, a coin for each pair of them and a
random key for each pair that is kept.
-/

abbrev GraphPayload := OrdMap Int (List (Str × Str))

structure AdjacencyObjectsGenerator where
  overallAdjencyMatrixDimension : Nat := 2
  charactersDimension : Nat := 3
  metricDimension : Nat := 5
  two_le : 2 ≤ overallAdjencyMatrixDimension := by decide
  one_le : 1 ≤ charactersDimension := by decide
  metric_pos : 1 ≤ metricDimension := by decide
  metric_lt : metricDimension < 10 := by decide

/--
The outcome of every random draw, by the place at which it is made.
-/
structure Draws where
  -- the word for a character of a name, by the name and the character
  name : Nat → Nat → Nat
  -- the value of `std::rand()` for a pair of names
  coin : Nat → Nat → Nat
  -- the word for a digit of a key, by the pair that gets the key and the digit
  metric : Nat → Nat → Nat

namespace AdjacencyObjectsGenerator

def ofDims (adjencyMatrixDim charDim metricDim : Int) : AdjacencyObjectsGenerator where
  overallAdjencyMatrixDimension := (if adjencyMatrixDim > 1 then adjencyMatrixDim else 2).toNat
  charactersDimension := (if charDim > 0 then charDim else 3).toNat
  metricDimension := (if metricDim > 0 ∧ metricDim < 10 then metricDim else 5).toNat
  two_le := by split <;> omega
  one_le := by split <;> omega
  metric_pos := by split <;> omega
  metric_lt := by split <;> omega

def metricsChars : Str := "1234567890".toList

def namesChars : Str := "ABCDEFGHGKLMNOPQRSTUZWY".toList

def indexDist (chars : Str) (w : Nat) : Nat :=
  uniformInt 0 (chars.length - 1) w

def drawChars (chars : Str) (dimension : Nat) (w : Nat → Nat) : Str :=
  (List.range dimension).map (fun i => chars.getD (indexDist chars (w i)) '\x00')

def generateMetric (g : AdjacencyObjectsGenerator) (w : Nat → Nat) : Except Fault Int :=
  stoi (drawChars metricsChars g.metricDimension w)

def generateNames (g : AdjacencyObjectsGenerator) (w : Nat → Nat) : Str :=
  drawChars namesChars g.charactersDimension w

def serversNames (g : AdjacencyObjectsGenerator) (d : Draws) : List Str :=
  (List.range g.overallAdjencyMatrixDimension).map (fun n => g.generateNames (d.name n))

def pairUp (serversNames : List Str) (d : Draws) : List (Str × Str) :=
  serversNames.zipIdx.flatMap (fun i =>
    serversNames.zipIdx.filterMap (fun j =>
      if i.1 ≠ j.1 then
        if d.coin i.2 j.2 % 2 = 1 then some (i.1, j.1) else none
      else
        none))

abbrev PairSet := OrdMap (Str ×ₗ Str) Unit

/--
Add the pairs from index `i` on to the set. The counter is `unsigned`, the number of pairs is not, so that
the loop might not end.
-/
def addUnique (ps : List (Str × Str)) (fuel : Nat) (i : UInt32) (uniqueSet : PairSet)
    : Except Fault PairSet :=
  match fuel with
  | 0 => .error .nonterminating
  | fuel + 1 =>
    if i.toNat < ps.length then do
      let p ← vectorAt ps i.toNat
      addUnique ps fuel (i + 1) (uniqueSet.insert (toLex p) ())
    else
      .ok uniqueSet

def addMetrics (g : AdjacencyObjectsGenerator) (d : Draws) (ps : List (Str × Str))
    : Except Fault GraphPayload :=
  ps.zipIdx.foldlM (fun serversData sNode => do
    let key ← g.generateMetric (d.metric sNode.2)
    .ok (serversData.alter key (fun pathNode => pathNode.getD [] ++ [sNode.1]))) OrdMap.empty

def selectedPairs (g : AdjacencyObjectsGenerator) (d : Draws) : List (Str × Str) :=
  pairUp (g.serversNames d) d

def generateData (g : AdjacencyObjectsGenerator) (d : Draws) : Except Fault GraphPayload := do
  let ps := g.selectedPairs d
  -- as many rounds as there are pairs, and the one that leaves the loop
  let uniqueSet ← addUnique ps (ps.length + 1) 0 OrdMap.empty
  g.addMetrics d (uniqueSet.toList.map (fun e => ofLex e.1))

def getAdjencyObjects (g : AdjacencyObjectsGenerator) (d : Draws) : Except Fault GraphPayload :=
  g.generateData d

end AdjacencyObjectsGenerator
