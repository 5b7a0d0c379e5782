import GraphManipulator.WSServer.Parameters
import Mathlib.Data.List.Perm.Subperm

/-!
This module contains which parameter the value of a member reaches: the parameters are taken in the order of the
keys, no key is looked up.
-/

theorem countP_eq_iff_of_subset {α : Type*} {l₁ l₂ : List α} (hnodup : l₁.Nodup) (hsub : l₁ ⊆ l₂)
    (hnodup' : l₂.Nodup) (p : α → Bool)
    : l₁.countP p = l₂.countP p ↔ ∀ x ∈ l₂, p x = true → x ∈ l₁ := by
  have hfilter : l₁.filter p ⊆ l₂.filter p := by
    intro x hx
    rw [List.mem_filter] at hx ⊢
    exact ⟨hsub hx.1, hx.2⟩
  rw [List.countP_eq_length_filter, List.countP_eq_length_filter]
  constructor
  . intro hlength x hx hp
    have hperm := (List.subperm_of_subset (hnodup.filter p) hfilter).perm_of_length_le hlength.ge
    exact (List.mem_filter.mp (hperm.mem_iff.mpr (List.mem_filter.mpr ⟨hx, hp⟩))).1
  . intro h
    apply List.Perm.length_eq
    rw [List.perm_ext_iff_of_nodup (hnodup.filter p) (hnodup'.filter p)]
    intro x
    constructor
    . apply hfilter
    . intro hx
      rw [List.mem_filter] at hx ⊢
      exact ⟨h x hx.1 hx.2, hx.2⟩

namespace WSServer

open Client Parser

variable {D : Type} {fl : FloatOps D}

def pageKeys : List Str := ["matrix_dim".toList, "characters_length".toList, "metrics".toList]

section

variable {members : List (Str × Json D)} {message : List UInt8} {payloadData : List Int}

theorem messageValues_eq (hparse : parse fl message = .ok (.object members))
    : messageValues fl message = members.map (fun m => m.2.asInt fl) := by
  rw [messageValues, hparse]
  simp [Json.elements]

theorem getElem?_parametersAfter_rank (hparse : parse fl message = .ok (.object members))
    {m : Str × Json D} (hm : m ∈ members) (hrank : OrdMap.rank m.1 members < payloadData.length)
    : (parametersAfter fl payloadData message)[OrdMap.rank m.1 members]? = some (m.2.asInt fl) := by
  have hget := (parse_sorted hparse).getElem?_rank hm
  have hlt := (List.getElem?_eq_some_iff.mp hget).1
  rw [parametersAfter, messageValues_eq hparse, getElem?_overwrite_of_lt (by rwa [List.length_map]) hrank,
    List.getElem?_map, hget]
  rfl

theorem getElem?_parametersAfter_of_le (hparse : parse fl message = .ok (.object members)) {i : Nat}
    (hi : members.length ≤ i)
    : (parametersAfter fl payloadData message)[i]? = payloadData[i]? := by
  rw [parametersAfter, messageValues_eq hparse]
  apply getElem?_overwrite_of_le
  rwa [List.length_map]

theorem parametersAfter_emplace (hparse : parse fl message = .ok (.object members)) {key : Str} {value : Json D}
    (hrank : payloadData.length ≤ OrdMap.rank key members) {message' : List UInt8}
    (hparse' : parse fl message' = .ok (.object (OrdMap.emplace key value members)))
    : parametersAfter fl payloadData message' = parametersAfter fl payloadData message := by
  have htake : (OrdMap.emplace key value members).take payloadData.length = members.take payloadData.length :=
    OrdMap.take_upsert (parse_sorted hparse) hrank
  rw [parametersAfter, parametersAfter, ← overwrite_take, messageValues_eq hparse', ← List.map_take, htake,
    List.map_take, ← messageValues_eq hparse, overwrite_take]

theorem isConvertible_emplace (hparse : parse fl message = .ok (.object members))
    (hmessage : IsConvertible fl message) {key : Str} {value : Json D} (hrank : 3 ≤ OrdMap.rank key members)
    {message' : List UInt8} (hparse' : parse fl message' = .ok (.object (OrdMap.emplace key value members)))
    : IsConvertible fl message' := by
  obtain ⟨jsonObj, hparse₂, hvalues⟩ := hmessage
  cases hparse.symm.trans hparse₂
  refine ⟨_, hparse', ?_⟩
  have htake : (OrdMap.emplace key value members).take 3 = members.take 3 :=
    OrdMap.take_upsert (parse_sorted hparse) hrank
  simp only [Json.elements, ← List.map_take, htake] at hvalues ⊢
  exact hvalues

theorem rank_eq_iff (hsorted : OrdMap.Sorted members) (hkeys : ∀ m ∈ members, m.1 ∈ pageKeys)
    {full : List (Str × Json D)} (hfull : (full.map Prod.fst).Perm pageKeys) (key : Str)
    : OrdMap.rank key members = OrdMap.rank key full
        ↔ ∀ k ∈ pageKeys, k < key → k ∈ members.map Prod.fst := by
  have hsub : members.map Prod.fst ⊆ pageKeys := by
    intro k hk
    obtain ⟨m, hm, rfl⟩ := List.mem_map.mp hk
    exact hkeys m hm
  rw [OrdMap.rank_eq_countP, OrdMap.rank_eq_countP, hfull.countP_eq,
    countP_eq_iff_of_subset hsorted.nodup_keys hsub (by decide +kernel)]
  simp only [decide_eq_true_eq]

end

theorem updatePayload_members {calls : List Call} {server : WSServer} (h : History fl calls server) {call : Call}
    {members : List (Str × Json D)} (hparse : parse fl call.message = .ok (.object members))
    (hmessage : IsConvertible fl call.message)
    : ∃ payloadData g, Generates fl server call payloadData g
        ∧ (∀ m ∈ members, OrdMap.rank m.1 members < 3 →
            payloadData[OrdMap.rank m.1 members]? = some (m.2.asInt fl))
        ∧ (∀ i, members.length ≤ i → payloadData[i]? = server.payloadData[i]?)
        ∧ (∀ (call' : Call) key value,
            parse fl call'.message = .ok (.object (OrdMap.emplace key value members)) →
            3 ≤ OrdMap.rank key members →
            Generates fl server call' payloadData g)
        ∧ ((∀ m ∈ members, m.1 ∈ pageKeys) →
            ∀ full : List (Str × Json D), (full.map Prod.fst).Perm pageKeys →
            ∀ m ∈ members, OrdMap.rank m.1 members = OrdMap.rank m.1 full
              ↔ ∀ key ∈ pageKeys, key < m.1 → key ∈ members.map Prod.fst) := by
  have hlength := h.hasParameters.length_eq
  obtain ⟨g, hg⟩ := adjacencyObjects_parametersAfter fl h.hasParameters call.message
  refine ⟨_, g, generates_of_isConvertible h.hasParameters hmessage hg, ?_, ?_, ?_, ?_⟩
  . intro m hm hrank
    exact getElem?_parametersAfter_rank hparse hm (by rwa [hlength])
  . intro i hi
    exact getElem?_parametersAfter_of_le hparse hi
  . intro call' key value hparse' hrank
    have hmessage' := isConvertible_emplace hparse hmessage hrank hparse'
    have hsame := parametersAfter_emplace hparse (hlength.symm ▸ hrank) hparse'
    rw [← hsame] at hg ⊢
    exact generates_of_isConvertible h.hasParameters hmessage' hg
  . intro hkeys full hfull m _
    exact rank_eq_iff (parse_sorted hparse) hkeys hfull m.1

def objectCall (m : Str × Int) (ms : List (Str × Int)) : Call where
  message := encode (objectText m ms)
  draws := ⟨fun _ _ => 0, fun _ _ => 0, fun _ _ => 0⟩
  env := GraphMapper.isolatedStart

theorem parse_objectCall_single (fl : FloatOps D) {key : Str} {v : Int} (hkey : ∀ c ∈ key, Lexer.IsPlain c)
    (hvalue : Lexer.IsStored v)
    : parse fl (objectCall (key, v) []).message = .ok (.object [(key, intValue v)]) := by
  apply parse_encode_objectText
  simpa using ⟨hkey, hvalue⟩

theorem parse_metricsCall
    : parse FloatOps.none (objectCall ("metrics".toList, 2) []).message
        =
      .ok (.object [("metrics".toList, intValue 2)]) :=
  parse_objectCall_single FloatOps.none (by decide +kernel) (by decide)

def intMembers (ms : List (Str × Int)) : List (Str × Json D) := ms.map (fun m => (m.1, intValue m.2))

theorem isConvertible_of_intValues (ms : List (Str × Int))
    (hparse : parse fl message = .ok (.object (intMembers ms)))
    : IsConvertible fl message := by
  refine ⟨_, hparse, ?_⟩
  intro v hv
  have hv := List.mem_of_mem_take hv
  simp only [Json.elements, intMembers, List.map_map, List.mem_map] at hv
  obtain ⟨m, -, rfl⟩ := hv
  apply isConvertible_intValue

def pageMembers : List (Str × Int) :=
  [("characters_length".toList, 4), ("matrix_dim".toList, 3), ("metrics".toList, 2)]

def addedCall : Call :=
  objectCall ("characters_length".toList, 4) [("matrix_dim".toList, 3), ("metrics".toList, 2), ("z".toList, 9)]

theorem parse_addedCall
    : parse FloatOps.none addedCall.message = .ok (.object (intMembers (pageMembers ++ [("z".toList, 9)]))) := by
  have hplain : ∀ m ∈ pageMembers ++ [("z".toList, 9)], (∀ c ∈ m.1, Lexer.IsPlain c) ∧ Lexer.IsStored m.2 := by
    decide +kernel
  have hkeys : ((pageMembers ++ [("z".toList, 9)]).map Prod.fst).Pairwise (· < ·) := by decide +kernel
  have hsorted : OrdMap.Sorted (intMembers (D := Unit) (pageMembers ++ [("z".toList, 9)])) := by
    rw [List.pairwise_map] at hkeys
    exact List.pairwise_map.mpr hkeys
  rw [← OrdMap.ofList_of_sorted hsorted]
  exact parse_encode_objectText FloatOps.none _ _ hplain

theorem parse_pageCall
    : parse FloatOps.none (fieldsCall 3 4 2).message = .ok (.object (intMembers pageMembers)) := by
  have hms := plain_of_mem_fieldMembers (a := 3) (b := 4) (c := 2) (by decide) (by decide) (by decide)
  have hmembers := ofList_fieldMembers (D := Unit) (List.Perm.refl (fieldMembers 3 4 2))
  unfold fieldMembers at hms hmembers
  rw [fieldsCall, payload_intText, parse_encode_objectText FloatOps.none _ _ hms, hmembers]
  rfl

theorem updatePayload_members_page
    : let members : List (Str × Json Unit) := intMembers pageMembers
      ∃ payloadData g, Generates FloatOps.none new (fieldsCall 3 4 2) payloadData g
        ∧ (∀ m ∈ members, OrdMap.rank m.1 members < 3 →
            payloadData[OrdMap.rank m.1 members]? = some (m.2.asInt FloatOps.none))
        ∧ Generates FloatOps.none new addedCall payloadData g
        ∧ ∀ full : List (Str × Json Unit), (full.map Prod.fst).Perm pageKeys →
            ∀ m ∈ members, OrdMap.rank m.1 members = OrdMap.rank m.1 full
              ↔ ∀ key ∈ pageKeys, key < m.1 → key ∈ members.map Prod.fst := by
  intro members
  have hfirst : History FloatOps.none [] new := .nil _
  have hmessage : IsConvertible FloatOps.none (fieldsCall 3 4 2).message :=
    isConvertible_of_intValues pageMembers parse_pageCall
  obtain ⟨payloadData, g, hcall, hmembers, -, hadded, hpage⟩ :=
    updatePayload_members hfirst parse_pageCall hmessage
  have hkeys : ∀ m ∈ members, m.1 ∈ pageKeys := by
    intro m hm
    obtain ⟨m', hm', rfl⟩ := List.mem_map.mp hm
    exact (show ∀ m ∈ pageMembers, m.1 ∈ pageKeys by decide +kernel) m' hm'
  refine ⟨payloadData, g, hcall, hmembers, ?_, hpage hkeys⟩
  apply hadded addedCall "z".toList (intValue 9)
  . exact parse_addedCall
  . decide +kernel

theorem not_addressed_by_key
    : ∃ server₁ server₂ server₃ : WSServer,
        updatePayload FloatOps.none new (fieldsCall 3 4 2) = (.ok (), server₁)
        ∧ updatePayload FloatOps.none new (objectCall ("metrics".toList, 2) []) = (.ok (), server₂)
        ∧ updatePayload FloatOps.none new (objectCall ("a".toList, 9) [("metrics".toList, 2)]) = (.ok (), server₃)
        ∧ server₁.payloadData = [4, 3, 2]
        ∧ server₂.payloadData = [2, 0, 0]
        ∧ server₃.payloadData = [9, 2, 0] := by
  have hplain : ∀ m ∈ [("a".toList, (9 : Int)), ("metrics".toList, 2)],
      (∀ c ∈ m.1, Lexer.IsPlain c) ∧ Lexer.IsStored m.2 := by
    decide +kernel
  have hparse : parse FloatOps.none (objectCall ("a".toList, 9) [("metrics".toList, 2)]).message
      = .ok (.object [("a".toList, intValue 9), ("metrics".toList, intValue 2)]) := by
    have hlt : "a".toList < "metrics".toList := by decide +kernel
    have hsorted : OrdMap.Sorted [("a".toList, intValue (D := Unit) 9), ("metrics".toList, intValue 2)] :=
      List.pairwise_pair.mpr hlt
    rw [objectCall, parse_encode_objectText FloatOps.none _ _ hplain, ← OrdMap.ofList_of_sorted hsorted]
    rfl
  have hmetrics : parametersAfter FloatOps.none [0, 0, 0] (objectCall ("metrics".toList, 2) []).message
      = [2, 0, 0] := by
    rw [parametersAfter, messageValues_eq parse_metricsCall]
    rfl
  have hadded : parametersAfter FloatOps.none [0, 0, 0]
      (objectCall ("a".toList, 9) [("metrics".toList, 2)]).message = [9, 2, 0] := by
    rw [parametersAfter, messageValues_eq hparse]
    rfl
  have hfields : IsFieldsMessage 3 4 2 (fieldsCall 3 4 2).message := .inl rfl
  obtain ⟨server₁, hcall₁, hserver₁⟩ := updatePayload_of_le hasParameters_new
    (isConvertible_fieldsMessage FloatOps.none (by decide) (by decide) (by decide) hfields)
    (parametersAfter_fieldsMessage FloatOps.none (by decide) (by decide) (by decide) hfields rfl) (by decide)
  obtain ⟨server₂, hcall₂, hserver₂⟩ := updatePayload_of_le hasParameters_new
    (isConvertible_of_intValues [("metrics".toList, 2)] parse_metricsCall) hmetrics (by decide)
  obtain ⟨server₃, hcall₃, hserver₃⟩ := updatePayload_of_le hasParameters_new
    (isConvertible_of_intValues [("a".toList, 9), ("metrics".toList, 2)] hparse) hadded (by decide)
  exact ⟨server₁, server₂, server₃, hcall₁, hcall₂, hcall₃, hserver₁, hserver₂, hserver₃⟩

end WSServer
