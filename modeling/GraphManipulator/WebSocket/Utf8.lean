import GraphManipulator.Lib.Memory
import GraphManipulator.Lib.Utf8
import GraphManipulator.WebSocket.Impl
import Mathlib.Algebra.Order.Ring.Nat

/-!
This module contains that the check of a text accepts exactly UTF-8, also where it reads four bytes at once.
-/

namespace WebSocketProtocol

open Utf8

section

variable (mem : Memory UInt8)

/--
The `uint32_t` at `s`, on a machine that stores its lowest byte first
-/
def word (s : Nat) : UInt32 :=
  (mem s).toUInt32 ||| (mem (s + 1)).toUInt32 <<< 8 ||| (mem (s + 2)).toUInt32 <<< 16
    ||| (mem (s + 3)).toUInt32 <<< 24

def skipAscii (s e : Nat) : Option Nat :=
  if mem s &&& 0x80 = 0 then
    if s + 1 < e then skipAscii (s + 1) e else none
  else
    some s
termination_by e - s

theorem le_of_skipAscii {s e s' : Nat} (h : skipAscii mem s e = some s') : s ≤ s' := by
  fun_induction skipAscii mem s e with
  | case1 s hascii hmore ih => exact Nat.le_of_succ_le (ih h)
  | case2 => cases h
  | case3 =>
    cases h
    exact Nat.le_refl _

def isValidUtf8Range (s e : Nat) : Bool :=
  if _hs : s < e then
    if s + 4 ≤ e ∧ word mem s &&& 0x80808080 = 0 then
      isValidUtf8Range (s + 4) e
    else
      match _hskip : skipAscii mem s e with
      | none => true
      | some s =>
        if mem s &&& 0x60 = 0x40 then
          if s + 1 ≥ e || mem (s + 1) &&& 0xc0 ≠ 0x80 || mem s &&& 0xfe = 0xc0 then
            false
          else
            isValidUtf8Range (s + 2) e
        else if mem s &&& 0xf0 = 0xe0 then
          if s + 2 ≥ e || mem (s + 1) &&& 0xc0 ≠ 0x80 || mem (s + 2) &&& 0xc0 ≠ 0x80
              || (mem s = 0xe0 && mem (s + 1) &&& 0xe0 = 0x80)
              || (mem s = 0xed && mem (s + 1) &&& 0xe0 = 0xa0) then
            false
          else
            isValidUtf8Range (s + 3) e
        else if mem s &&& 0xf8 = 0xf0 then
          if s + 3 ≥ e || mem (s + 1) &&& 0xc0 ≠ 0x80 || mem (s + 2) &&& 0xc0 ≠ 0x80
              || mem (s + 3) &&& 0xc0 ≠ 0x80 || (mem s = 0xf0 && mem (s + 1) &&& 0xf0 = 0x80)
              || (mem s = 0xf4 && mem (s + 1) > 0x8f) || mem s > 0xf4 then
            false
          else
            isValidUtf8Range (s + 4) e
        else
          false
  else
    true
termination_by e - s
decreasing_by
  all_goals first
    | omega
    | have := le_of_skipAscii mem _hskip
      omega

end

section

theorem forall_byte {P : UInt8 → Prop} (h : ∀ n < 256, P (UInt8.ofNat n)) (b : UInt8) : P b := by
  have hb := h b.toNat b.toNat_lt
  rwa [UInt8.ofNat_toNat] at hb

theorem toNat_and_ofNat
    : ∀ k < 8, ∀ n < 256, (UInt8.ofNat n &&& UInt8.ofNat (256 - 2 ^ k)).toNat = n - n % 2 ^ k := by
  decide +kernel

theorem and_eq_iff {k v : Nat} (hk : k < 8) (hv : v < 256) (hdvd : 2 ^ k ∣ v) (b : UInt8)
    : b &&& UInt8.ofNat (256 - 2 ^ k) = UInt8.ofNat v ↔ v ≤ b.toNat ∧ b.toNat < v + 2 ^ k := by
  have hand := toNat_and_ofNat k hk b.toNat b.toNat_lt
  have hmod := Nat.mod_lt b.toNat (Nat.two_pow_pos k)
  have hdiv := Nat.div_add_mod b.toNat (2 ^ k)
  obtain ⟨q, rfl⟩ := hdvd
  rw [UInt8.ofNat_toNat] at hand
  rw [← UInt8.toNat_inj, hand, UInt8.toNat_ofNat_of_lt' hv]
  constructor
  . intro h
    omega
  . rintro ⟨hle, hlt⟩
    have hq : b.toNat / 2 ^ k = q := by
      apply Nat.div_eq_of_lt_le
      . rwa [Nat.mul_comm]
      . rw [Nat.add_mul, Nat.one_mul, Nat.mul_comm]
        exact hlt
    rw [hq] at hdiv
    omega

theorem isAscii_iff (b : UInt8) : b &&& 0x80 = 0 ↔ b.toNat < 128 := by
  have h := and_eq_iff (k := 7) (v := 0) (by decide) (by decide) (by decide) b
  rw [Nat.zero_add] at h
  exact h.trans ⟨And.right, fun h => ⟨Nat.zero_le _, h⟩⟩

theorem isContinuation_iff (b : UInt8) : b &&& 0xc0 = 0x80 ↔ IsContinuation b :=
  and_eq_iff (k := 6) (v := 0x80) (by decide) (by decide) (by decide) b

theorem isFirstOfTwo_iff {b : UInt8} (h : ¬ b &&& 0x80 = 0)
    : b &&& 0x60 = 0x40 ↔ 192 ≤ b.toNat ∧ b.toNat < 224 := by
  have hall : ∀ b : UInt8, ¬ b &&& 0x80 = 0 → (b &&& 0x60 = 0x40 ↔ 192 ≤ b.toNat ∧ b.toNat < 224) :=
    forall_byte (by decide +kernel)
  exact hall b h

theorem isOverlong_iff (b : UInt8) : b &&& 0xfe = 0xc0 ↔ 192 ≤ b.toNat ∧ b.toNat < 194 :=
  and_eq_iff (k := 1) (v := 0xc0) (by decide) (by decide) (by decide) b

theorem isFirstOfThree_iff (b : UInt8) : b &&& 0xf0 = 0xe0 ↔ 224 ≤ b.toNat ∧ b.toNat < 240 :=
  and_eq_iff (k := 4) (v := 0xe0) (by decide) (by decide) (by decide) b

theorem isFirstOfFour_iff (b : UInt8) : b &&& 0xf8 = 0xf0 ↔ 240 ≤ b.toNat ∧ b.toNat < 248 :=
  and_eq_iff (k := 3) (v := 0xf0) (by decide) (by decide) (by decide) b

theorem isSecondOfThree_iff {s0 s1 : UInt8} (h1 : IsContinuation s1)
    : ¬ (s0 = 0xe0 ∧ s1 &&& 0xe0 = 0x80) ∧ ¬ (s0 = 0xed ∧ s1 &&& 0xe0 = 0xa0) ↔ IsSecondOfThree s0 s1 := by
  have hlow : s1 &&& 0xe0 = 0x80 ↔ 128 ≤ s1.toNat ∧ s1.toNat < 160 :=
    and_eq_iff (k := 5) (v := 0x80) (by decide) (by decide) (by decide) s1
  have hhigh : s1 &&& 0xe0 = 0xa0 ↔ 160 ≤ s1.toNat ∧ s1.toNat < 192 :=
    and_eq_iff (k := 5) (v := 0xa0) (by decide) (by decide) (by decide) s1
  rw [IsContinuation] at h1
  rw [hlow, hhigh, ← UInt8.toNat_inj, ← UInt8.toNat_inj, IsSecondOfThree]
  show ¬ (s0.toNat = 224 ∧ _) ∧ ¬ (s0.toNat = 237 ∧ _) ↔ _
  omega

theorem isSecondOfFour_iff {s0 s1 : UInt8} (h1 : IsContinuation s1)
    : ¬ (s0 = 0xf0 ∧ s1 &&& 0xf0 = 0x80) ∧ ¬ (s0 = 0xf4 ∧ s1 > 0x8f) ↔ IsSecondOfFour s0 s1 := by
  have hlow : s1 &&& 0xf0 = 0x80 ↔ 128 ≤ s1.toNat ∧ s1.toNat < 144 :=
    and_eq_iff (k := 4) (v := 0x80) (by decide) (by decide) (by decide) s1
  rw [IsContinuation] at h1
  rw [hlow, gt_iff_lt, UInt8.lt_iff_toNat_lt, ← UInt8.toNat_inj, ← UInt8.toNat_inj, IsSecondOfFour]
  show ¬ (s0.toNat = 240 ∧ _) ∧ ¬ (s0.toNat = 244 ∧ 143 < _) ↔ _
  omega

end

section

theorem isUtf8_of_isValidUtf8 {s : List UInt8} (h : isValidUtf8 s = true) : IsUtf8 s := by
  fun_induction isValidUtf8 s with
  | case1 => exact isUtf8_nil
  | case2 s0 tail hascii ih => exact isUtf8_append (.one ((isAscii_iff s0).mp hascii)) (ih h)
  | case4 s0 hascii htwo s1 rest hvalid ih =>
    simp only [Bool.or_eq_true, decide_eq_true_eq, not_or, ne_eq, Classical.not_not,
      isContinuation_iff, isOverlong_iff] at hvalid
    obtain ⟨h1, hlow⟩ := hvalid
    rw [isFirstOfTwo_iff hascii] at htwo
    exact isUtf8_append (.two (by omega) h1) (ih h)
  | case7 s0 hascii htwo hthree s1 s2 rest hvalid ih =>
    simp only [Bool.or_eq_true, Bool.and_eq_true, decide_eq_true_eq, not_or, ne_eq, Classical.not_not,
      isContinuation_iff] at hvalid
    obtain ⟨⟨⟨h1, h2⟩, hlow⟩, hsurrogate⟩ := hvalid
    exact isUtf8_append
      (.three ((isFirstOfThree_iff s0).mp hthree) h1 h2 ((isSecondOfThree_iff h1).mp ⟨hlow, hsurrogate⟩))
      (ih h)
  | case10 s0 hascii htwo hthree hfour s1 s2 s3 rest hvalid ih =>
    simp only [Bool.or_eq_true, Bool.and_eq_true, decide_eq_true_eq, not_or, ne_eq, Classical.not_not,
      isContinuation_iff] at hvalid
    obtain ⟨⟨⟨⟨⟨h1, h2⟩, h3⟩, hlow⟩, hhigh⟩, hlast⟩ := hvalid
    have hfirst := (isFirstOfFour_iff s0).mp hfour
    have hle : s0.toNat ≤ 244 := UInt8.le_iff_toNat_le.mp (UInt8.not_lt.mp hlast)
    exact isUtf8_append
      (.four ⟨hfirst.1, by omega⟩ h1 h2 h3 ((isSecondOfFour_iff h1).mp ⟨hlow, hhigh⟩)) (ih h)
  | _ => cases h

theorem isValidUtf8_cons {s0 : UInt8} (h : s0 &&& 0x80 = 0) (tail : List UInt8)
    : isValidUtf8 (s0 :: tail) = isValidUtf8 tail := by
  conv =>
    lhs
    unfold isValidUtf8
  exact if_pos h

theorem isValidUtf8_append {first : List UInt8} (hfirst : IsChar first) (rest : List UInt8)
    : isValidUtf8 (first ++ rest) = isValidUtf8 rest := by
  cases hfirst with
  | @one s0 h0 =>
    exact isValidUtf8_cons ((isAscii_iff s0).mpr h0) rest
  | @two s0 s1 h0 h1 =>
    have hascii : ¬ s0 &&& 0x80 = 0 := by
      rw [isAscii_iff]
      omega
    have hlow : ¬ s0 &&& 0xfe = 0xc0 := by
      rw [isOverlong_iff]
      omega
    have htwo := (isFirstOfTwo_iff hascii).mpr ⟨by omega, h0.2⟩
    simp [isValidUtf8, hascii, htwo, hlow, (isContinuation_iff s1).mpr h1]
  | @three s0 s1 s2 h0 h1 h2 hsecond =>
    have hascii : ¬ s0 &&& 0x80 = 0 := by
      rw [isAscii_iff]
      omega
    have htwo : ¬ s0 &&& 0x60 = 0x40 := by
      rw [isFirstOfTwo_iff hascii]
      omega
    have hthree := (isFirstOfThree_iff s0).mpr h0
    obtain ⟨hlow, hsurrogate⟩ := (isSecondOfThree_iff h1).mpr hsecond
    simp [isValidUtf8, hascii, htwo, hthree, hlow, hsurrogate, (isContinuation_iff s1).mpr h1,
      (isContinuation_iff s2).mpr h2]
  | @four s0 s1 s2 s3 h0 h1 h2 h3 hsecond =>
    have hascii : ¬ s0 &&& 0x80 = 0 := by
      rw [isAscii_iff]
      omega
    have htwo : ¬ s0 &&& 0x60 = 0x40 := by
      rw [isFirstOfTwo_iff hascii]
      omega
    have hthree : ¬ s0 &&& 0xf0 = 0xe0 := by
      rw [isFirstOfThree_iff]
      omega
    have hfour := (isFirstOfFour_iff s0).mpr ⟨h0.1, by omega⟩
    have hlast : ¬ s0 > 0xf4 := by
      rw [gt_iff_lt, UInt8.lt_iff_toNat_lt]
      show ¬ 244 < s0.toNat
      omega
    obtain ⟨hlow, hhigh⟩ := (isSecondOfFour_iff h1).mpr hsecond
    simp [isValidUtf8, hascii, htwo, hthree, hfour, hlow, hhigh, hlast, (isContinuation_iff s1).mpr h1,
      (isContinuation_iff s2).mpr h2, (isContinuation_iff s3).mpr h3]

theorem isValidUtf8_of_isUtf8 {s : List UInt8} (h : IsUtf8 s) : isValidUtf8 s = true := by
  obtain ⟨cs, rfl⟩ := h
  induction cs with
  | nil => rfl
  | cons c cs ih => rw [List.flatMap_cons, isValidUtf8_append (isChar_utf8EncodeChar c), ih]

theorem isValidUtf8_iff (s : List UInt8) : isValidUtf8 s = true ↔ IsUtf8 s :=
  ⟨isUtf8_of_isValidUtf8, isValidUtf8_of_isUtf8⟩

end

section

variable {mem : Memory UInt8}

theorem isAscii_iff_getLsbD (b : UInt8) : b &&& 0x80 = 0 ↔ b.toBitVec.getLsbD 7 = false :=
  forall_byte (P := fun b => b &&& 0x80 = 0 ↔ b.toBitVec.getLsbD 7 = false) (by decide +kernel) b

theorem isAscii_of_word {s : Nat} (h : word mem s &&& 0x80808080 = 0) {i : Nat} (hi : i < 4)
    : mem (s + i) &&& 0x80 = 0 := by
  have hbits : (word mem s &&& 0x80808080).toBitVec.getLsbD (8 * i + 7) = false := by
    rw [h]
    exact BitVec.getLsbD_zero
  rw [isAscii_iff_getLsbD]
  match i, hi with
  | 0, _ => simpa [word] using hbits
  | 1, _ => simpa [word] using hbits
  | 2, _ => simpa [word] using hbits
  | 3, _ => simpa [word] using hbits

theorem read_cons {s e : Nat} (h : s < e)
    : mem.read s (e - s) = mem s :: mem.read (s + 1) (e - (s + 1)) := by
  have hlength : e - s = e - (s + 1) + 1 := by omega
  rw [hlength]
  rfl

theorem read_nil {s e : Nat} (h : e ≤ s) : mem.read s (e - s) = [] := by
  rw [Nat.sub_eq_zero_of_le h]
  rfl

theorem isValidUtf8_skip {s e : Nat} (hs : s < e) (hascii : mem s &&& 0x80 = 0)
    : isValidUtf8 (mem.read s (e - s)) = isValidUtf8 (mem.read (s + 1) (e - (s + 1))) := by
  rw [read_cons hs, isValidUtf8_cons hascii]

theorem isValidUtf8_of_skipAscii (mem : Memory UInt8) {s e : Nat} (hs : s < e)
    : match skipAscii mem s e with
      | none => isValidUtf8 (mem.read s (e - s)) = true
      | some s' => s' < e ∧ ¬ mem s' &&& 0x80 = 0
          ∧ isValidUtf8 (mem.read s (e - s)) = isValidUtf8 (mem.read s' (e - s')) := by
  fun_induction skipAscii mem s e with
  | case1 s hascii hmore ih =>
    rw [isValidUtf8_skip hs hascii]
    exact ih hmore
  | case2 s hascii hend =>
    rw [isValidUtf8_skip hs hascii, read_nil (Nat.not_lt.mp hend)]
    rfl
  | case3 s hascii => exact ⟨hs, hascii, rfl⟩

theorem isValidUtf8_read {start s e : Nat} (hstart : start < e) (hskip : skipAscii mem start e = some s)
    : isValidUtf8 (mem.read start (e - start))
        =
      if mem s &&& 0x60 = 0x40 then
        if s + 1 ≥ e || mem (s + 1) &&& 0xc0 ≠ 0x80 || mem s &&& 0xfe = 0xc0 then
          false
        else
          isValidUtf8 (mem.read (s + 2) (e - (s + 2)))
      else if mem s &&& 0xf0 = 0xe0 then
        if s + 2 ≥ e || mem (s + 1) &&& 0xc0 ≠ 0x80 || mem (s + 2) &&& 0xc0 ≠ 0x80
            || (mem s = 0xe0 && mem (s + 1) &&& 0xe0 = 0x80)
            || (mem s = 0xed && mem (s + 1) &&& 0xe0 = 0xa0) then
          false
        else
          isValidUtf8 (mem.read (s + 3) (e - (s + 3)))
      else if mem s &&& 0xf8 = 0xf0 then
        if s + 3 ≥ e || mem (s + 1) &&& 0xc0 ≠ 0x80 || mem (s + 2) &&& 0xc0 ≠ 0x80
            || mem (s + 3) &&& 0xc0 ≠ 0x80 || (mem s = 0xf0 && mem (s + 1) &&& 0xf0 = 0x80)
            || (mem s = 0xf4 && mem (s + 1) > 0x8f) || mem s > 0xf4 then
          false
        else
          isValidUtf8 (mem.read (s + 4) (e - (s + 4)))
      else
        false := by
  have hskipped := isValidUtf8_of_skipAscii mem hstart
  rw [hskip] at hskipped
  obtain ⟨hs, hascii, heq⟩ := hskipped
  rw [heq]
  rw [read_cons hs]
  by_cases h1 : s + 1 < e
  . rw [read_cons h1]
    by_cases h2 : s + 2 < e
    . rw [read_cons h2]
      by_cases h3 : s + 3 < e
      . rw [read_cons h3]
        simp [isValidUtf8, hascii, Nat.not_le.mpr h1, Nat.not_le.mpr h2, Nat.not_le.mpr h3]
      . rw [read_nil (Nat.not_lt.mp h3)]
        simp [isValidUtf8, hascii, Nat.not_le.mpr h1, Nat.not_le.mpr h2, Nat.not_lt.mp h3]
    . rw [read_nil (Nat.not_lt.mp h2)]
      have h3 : e ≤ s + 3 := by omega
      simp [isValidUtf8, hascii, Nat.not_le.mpr h1, Nat.not_lt.mp h2, h3]
  . rw [read_nil (Nat.not_lt.mp h1)]
    have h2 : e ≤ s + 2 := by omega
    have h3 : e ≤ s + 3 := by omega
    simp [isValidUtf8, hascii, Nat.not_lt.mp h1, h2, h3]

theorem isValidUtf8Range_eq (s e : Nat) : isValidUtf8Range mem s e = isValidUtf8 (mem.read s (e - s)) := by
  fun_induction isValidUtf8Range mem s e with
  | case1 s hs hword ih =>
    have hascii := fun i hi => isAscii_of_word hword.2 (i := i) hi
    rw [ih, isValidUtf8_skip hs (hascii 0 (by decide)), isValidUtf8_skip (by omega) (hascii 1 (by decide)),
      isValidUtf8_skip (by omega) (hascii 2 (by decide)), isValidUtf8_skip (by omega) (hascii 3 (by decide))]
  | case2 s hs hword hskip =>
    have hskipped := isValidUtf8_of_skipAscii mem hs
    rw [hskip] at hskipped
    exact hskipped.symm
  | case3 s hs hword s' hskip htwo hinvalid => rw [isValidUtf8_read hs hskip, if_pos htwo, if_pos hinvalid]
  | case4 s hs hword s' hskip htwo hvalid ih => rw [isValidUtf8_read hs hskip, if_pos htwo, if_neg hvalid, ih]
  | case5 s hs hword s' hskip htwo hthree hinvalid =>
    rw [isValidUtf8_read hs hskip, if_neg htwo, if_pos hthree, if_pos hinvalid]
  | case6 s hs hword s' hskip htwo hthree hvalid ih =>
    rw [isValidUtf8_read hs hskip, if_neg htwo, if_pos hthree, if_neg hvalid, ih]
  | case7 s hs hword s' hskip htwo hthree hfour hinvalid =>
    rw [isValidUtf8_read hs hskip, if_neg htwo, if_neg hthree, if_pos hfour, if_pos hinvalid]
  | case8 s hs hword s' hskip htwo hthree hfour hvalid ih =>
    rw [isValidUtf8_read hs hskip, if_neg htwo, if_neg hthree, if_pos hfour, if_neg hvalid, ih]
  | case9 s hs hword s' hskip htwo hthree hfour =>
    rw [isValidUtf8_read hs hskip, if_neg htwo, if_neg hthree, if_neg hfour]
  | case10 s hs =>
    rw [read_nil (Nat.not_lt.mp hs)]
    rfl

/--
The check with words and positions accepts the bytes between them if they are UTF-8, whatever is around them.
-/
theorem isValidUtf8Range_iff (mem : Memory UInt8) (s e : Nat)
    : isValidUtf8Range mem s e = true ↔ IsUtf8 (mem.read s (e - s)) := by
  rw [isValidUtf8Range_eq, isValidUtf8_iff]

end

end WebSocketProtocol
