import Mathlib.Init

/-!
This module contains the byte sequences that encode characters in UTF-8, by the ranges of their bytes.
-/

namespace Utf8

def IsUtf8 (s : List UInt8) : Prop := ∃ cs : List Char, s = cs.flatMap String.utf8EncodeChar

def IsContinuation (b : UInt8) : Prop := 128 ≤ b.toNat ∧ b.toNat < 192

/--
The second byte of a sequence of three: no code that fits into two bytes and no surrogate
-/
def IsSecondOfThree (s0 s1 : UInt8) : Prop :=
  (s0.toNat = 224 → 160 ≤ s1.toNat) ∧ (s0.toNat = 237 → s1.toNat < 160)

/--
The second byte of a sequence of four: no code that fits into three bytes and none above 0x10ffff
-/
def IsSecondOfFour (s0 s1 : UInt8) : Prop :=
  (s0.toNat = 240 → 144 ≤ s1.toNat) ∧ (s0.toNat = 244 → s1.toNat < 144)

inductive IsChar : List UInt8 → Prop
  | one {s0 : UInt8} (h0 : s0.toNat < 128) : IsChar [s0]
  | two {s0 s1 : UInt8} (h0 : 194 ≤ s0.toNat ∧ s0.toNat < 224) (h1 : IsContinuation s1) : IsChar [s0, s1]
  | three {s0 s1 s2 : UInt8} (h0 : 224 ≤ s0.toNat ∧ s0.toNat < 240) (h1 : IsContinuation s1)
    (h2 : IsContinuation s2) (hsecond : IsSecondOfThree s0 s1) : IsChar [s0, s1, s2]
  | four {s0 s1 s2 s3 : UInt8} (h0 : 240 ≤ s0.toNat ∧ s0.toNat < 245) (h1 : IsContinuation s1)
    (h2 : IsContinuation s2) (h3 : IsContinuation s3) (hsecond : IsSecondOfFour s0 s1)
    : IsChar [s0, s1, s2, s3]

theorem isChar_utf8EncodeChar (c : Char) : IsChar (String.utf8EncodeChar c) := by
  have hvalid : c.val.toNat < 0xd800 ∨ (0xdfff < c.val.toNat ∧ c.val.toNat < 0x110000) := c.valid
  unfold String.utf8EncodeChar
  dsimp only
  generalize c.val.toNat = v at hvalid
  split
  . apply IsChar.one
    rw [UInt8.toNat_ofNat']
    omega
  . split
    . apply IsChar.two <;> simp only [IsContinuation, UInt8.toNat_ofNat'] <;> omega
    . split
      . apply IsChar.three <;> simp only [IsContinuation, IsSecondOfThree, UInt8.toNat_ofNat'] <;> omega
      . apply IsChar.four <;> simp only [IsContinuation, IsSecondOfFour, UInt8.toNat_ofNat'] <;> omega

theorem exists_char {v : Nat} (h : v < 0xd800 ∨ (0xdfff < v ∧ v < 0x110000)) : ∃ c : Char, c.val.toNat = v :=
  ⟨Char.ofNatAux v h, rfl⟩

theorem exists_of_isChar {s : List UInt8} (h : IsChar s) : ∃ c : Char, s = String.utf8EncodeChar c := by
  have hbyte : ∀ {b : UInt8} {n : Nat}, b.toNat = n → b = UInt8.ofNat n := by
    rintro b n rfl
    exact (UInt8.ofNat_toNat).symm
  cases h with
  | @one s0 h0 =>
    obtain ⟨c, hc⟩ := exists_char (v := s0.toNat) (by omega)
    refine ⟨c, ?_⟩
    unfold String.utf8EncodeChar
    dsimp only
    rw [hc, if_pos (by omega), ← hbyte rfl]
  | @two s0 s1 h0 h1 =>
    rw [IsContinuation] at h1
    obtain ⟨c, hc⟩ := exists_char (v := (s0.toNat - 192) * 64 + (s1.toNat - 128)) (by omega)
    refine ⟨c, ?_⟩
    unfold String.utf8EncodeChar
    dsimp only
    rw [hc, if_neg (by omega), if_pos (by omega), ← hbyte (b := s0) (by omega), ← hbyte (b := s1) (by omega)]
  | @three s0 s1 s2 h0 h1 h2 hsecond =>
    rw [IsContinuation] at h1 h2
    rw [IsSecondOfThree] at hsecond
    obtain ⟨c, hc⟩ := exists_char
      (v := (s0.toNat - 224) * 4096 + (s1.toNat - 128) * 64 + (s2.toNat - 128)) (by omega)
    refine ⟨c, ?_⟩
    unfold String.utf8EncodeChar
    dsimp only
    rw [hc, if_neg (by omega), if_neg (by omega), if_pos (by omega), ← hbyte (b := s0) (by omega),
      ← hbyte (b := s1) (by omega), ← hbyte (b := s2) (by omega)]
  | @four s0 s1 s2 s3 h0 h1 h2 h3 hsecond =>
    rw [IsContinuation] at h1 h2 h3
    rw [IsSecondOfFour] at hsecond
    obtain ⟨c, hc⟩ := exists_char
      (v := (s0.toNat - 240) * 262144 + (s1.toNat - 128) * 4096 + (s2.toNat - 128) * 64 + (s3.toNat - 128))
      (by omega)
    refine ⟨c, ?_⟩
    unfold String.utf8EncodeChar
    dsimp only
    rw [hc, if_neg (by omega), if_neg (by omega), if_neg (by omega), ← hbyte (b := s0) (by omega),
      ← hbyte (b := s1) (by omega), ← hbyte (b := s2) (by omega), ← hbyte (b := s3) (by omega)]

theorem isUtf8_nil : IsUtf8 [] := ⟨[], rfl⟩

theorem isUtf8_append {s rest : List UInt8} (hs : IsChar s) (hrest : IsUtf8 rest) : IsUtf8 (s ++ rest) := by
  obtain ⟨c, rfl⟩ := exists_of_isChar hs
  obtain ⟨cs, rfl⟩ := hrest
  exact ⟨c :: cs, rfl⟩

end Utf8
