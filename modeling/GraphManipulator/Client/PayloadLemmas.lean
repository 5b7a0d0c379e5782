import GraphManipulator.Client.Page
import GraphManipulator.Json.ParserLemmas

/-!
This module contains what the server reads in the message of the page: an object with the numbers in the text
fields as its members.
-/

namespace Client

open Parser

variable {D : Type}

theorem utf8EncodeChar_of_le {c : Char} (h : c.toNat ≤ 127)
    : String.utf8EncodeChar c = [c.val.toUInt8] := by
  apply String.utf8EncodeChar_eq_singleton
  rw [Char.utf8Size_eq_one_iff]
  exact UInt32.le_iff_toNat_le.mpr h

theorem byteChar_toUInt8 {c : Char} (h : c.toNat ≤ 127) : byteChar c.val.toUInt8 = c := by
  have hnat : c.val.toUInt8.toNat = c.toNat := by
    rw [UInt32.toNat_toUInt8]
    apply Nat.mod_eq_of_lt
    exact Nat.lt_of_le_of_lt h (by decide)
  rw [byteChar, hnat, Char.ofNat_toNat]

theorem map_byteChar_encode {s : Str} (h : ∀ c ∈ s, c.toNat ≤ 127) : (encode s).map byteChar = s := by
  induction s with
  | nil => rfl
  | cons c s ih =>
    rw [List.forall_mem_cons] at h
    rw [encode, List.flatMap_cons, List.map_append, utf8EncodeChar_of_le h.1]
    rw [List.map_singleton, byteChar_toUInt8 h.1, ← encode, ih h.2]
    rfl

theorem parse_encode (fl : FloatOps D) {s : Str} (h : ∀ c ∈ s, c.toNat ≤ 127)
    : parse fl (encode s) = parseChars fl s := by
  have hmark : skipByteOrderMark (encode s) = encode s := by
    unfold skipByteOrderMark
    split
    . next tail heq =>
      have hmap := map_byteChar_encode h
      rw [heq, List.map_cons] at hmap
      have hle := h (byteChar 0xEF) (by rw [← hmap]; exact List.mem_cons_self)
      exact absurd hle (by decide)
    . rfl
  rw [parse, hmark, map_byteChar_encode h]

theorem ascii_of_mem_intText (n : Int) : ∀ c ∈ intText n, c.toNat ≤ 127 := by
  have hdigits : ∀ n, ∀ c ∈ Nat.toDigits 10 n, c.toNat ≤ 127 := by
    intro n c hc
    have hdigit := Char.isDigit_iff_toNat.mp (isDigit_of_mem_toDigits hc)
    have : '9'.toNat = 57 := rfl
    omega
  cases n with
  | ofNat n => exact hdigits n
  | negSucc n =>
    simp only [intText, List.forall_mem_cons]
    exact ⟨by decide, hdigits (n + 1)⟩

theorem ascii_of_mem_memberText {m : Str × Int} (hkey : ∀ c ∈ m.1, Lexer.IsPlain c)
    : ∀ c ∈ memberText m, c.toNat ≤ 127 := by
  simp only [memberText, List.forall_mem_cons, List.forall_mem_append]
  exact ⟨by decide, fun c hc => (hkey c hc).2.2.2, by decide, by decide, by decide,
    ascii_of_mem_intText m.2⟩

theorem ascii_of_mem_membersText {ms : List (Str × Int)} (hkeys : ∀ m ∈ ms, ∀ c ∈ m.1, Lexer.IsPlain c)
    : ∀ c ∈ membersText ms, c.toNat ≤ 127 := by
  induction ms with
  | nil => decide
  | cons m ms ih =>
    rw [List.forall_mem_cons] at hkeys
    simp only [membersText, List.forall_mem_cons, List.forall_mem_append]
    exact ⟨by decide, by decide, ascii_of_mem_memberText hkeys.1, ih hkeys.2⟩

theorem parse_encode_objectText (fl : FloatOps D) (m : Str × Int) (ms : List (Str × Int))
    (hms : ∀ m' ∈ m :: ms, (∀ c ∈ m'.1, Lexer.IsPlain c) ∧ Lexer.IsStored m'.2)
    : parse fl (encode (objectText m ms))
        =
      .ok (.object (OrdMap.ofList ((m :: ms).map (fun m => (m.1, intValue m.2))))) := by
  rw [parse_encode, parseChars_objectText fl m ms hms]
  simp only [objectText, List.forall_mem_cons, List.forall_mem_append]
  refine ⟨by decide, ?_, ?_⟩
  . exact ascii_of_mem_memberText (hms m List.mem_cons_self).1
  . apply ascii_of_mem_membersText
    intro m' hm'
    exact (hms m' (List.mem_cons_of_mem _ hm')).1

theorem parseChars_missing_value (fl : FloatOps D) {key : Str} (hkey : ∀ c ∈ key, Lexer.IsPlain c) (s : Str)
    : ∃ e, parseChars fl ('{' :: '"' :: (key ++ '"' :: ':' :: ' ' :: ',' :: s)) = .error e := by
  unfold parseChars
  rw [Lexer.scan_brace]
  simp only [List.length_cons, parseInternal, Lexer.scan_key fl hkey, parseMembers]
  rw [Lexer.scan_colon]
  dsimp only
  -- the comma is no beginning of a value
  rw [Lexer.scan_space, Lexer.scan_comma]
  exact ⟨_, rfl⟩

/--
The members of the message, in the order in which the page writes them: the numbers in the fields labelled
VERTEX NAME LENGTH, NODES COUNT and EDGES WEIGHT COUNT
-/
def fieldMembers (a b c : Int) : List (Str × Int) :=
  [("matrix_dim".toList, a), ("characters_length".toList, b), ("metrics".toList, c)]

theorem payload_eq (fields : Fields)
    : payload fields
        =
      '{' :: '"' :: ("matrix_dim".toList ++ '"' :: ':' :: ' ' :: (fields.matrixDim
        ++ ',' :: ' ' :: '"' :: ("characters_length".toList ++ '"' :: ':' :: ' ' :: (fields.nodesDim
        ++ ',' :: ' ' :: '"' :: ("metrics".toList ++ '"' :: ':' :: ' ' :: (fields.metricsDim ++ ['}'])))))) := by
  have hfirst : "\x7b\"matrix_dim\": ".toList = '{' :: '"' :: ("matrix_dim".toList ++ ['"', ':', ' ']) := by
    decide +kernel
  have hsecond : ", \"characters_length\": ".toList
      = ',' :: ' ' :: '"' :: ("characters_length".toList ++ ['"', ':', ' ']) := by
    decide +kernel
  have hthird : ", \"metrics\": ".toList = ',' :: ' ' :: '"' :: ("metrics".toList ++ ['"', ':', ' ']) := by
    decide +kernel
  have hend : "\x7d".toList = ['}'] := by decide +kernel
  unfold payload
  dsimp only
  rw [hfirst, hsecond, hthird, hend]
  generalize "matrix_dim".toList = matrixDim, "characters_length".toList = charactersLength,
    "metrics".toList = metrics
  simp

theorem payload_intText (a b c : Int)
    : payload ⟨intText a, intText b, intText c⟩
        =
      objectText ("matrix_dim".toList, a) [("characters_length".toList, b), ("metrics".toList, c)] := by
  rw [payload_eq]
  generalize "matrix_dim".toList = matrixDim, "characters_length".toList = charactersLength,
    "metrics".toList = metrics
  simp [objectText, memberText, membersText]

theorem plain_of_mem_fieldMembers {a b c : Int} (ha : IsInt a) (hb : IsInt b) (hc : IsInt c)
    : ∀ m ∈ fieldMembers a b c, (∀ c ∈ m.1, Lexer.IsPlain c) ∧ Lexer.IsStored m.2 := by
  simp only [fieldMembers, List.forall_mem_cons]
  exact ⟨⟨by decide +kernel, Lexer.isStored_of_isInt ha⟩, ⟨by decide +kernel, Lexer.isStored_of_isInt hb⟩,
    ⟨by decide +kernel, Lexer.isStored_of_isInt hc⟩, by simp⟩

theorem ofList_fieldMembers {a b c : Int} {ms : List (Str × Int)} (hperm : ms.Perm (fieldMembers a b c))
    : OrdMap.ofList (ms.map (fun m => (m.1, intValue (D := D) m.2)))
        =
      [
        ("characters_length".toList, intValue b),
        ("matrix_dim".toList, intValue a),
        ("metrics".toList, intValue c)
      ] := by
  have hsorted : OrdMap.Sorted [
      ("characters_length".toList, intValue (D := D) b),
      ("matrix_dim".toList, intValue a),
      ("metrics".toList, intValue c)
    ] := by
    have h₁ : "characters_length".toList < "matrix_dim".toList := by decide +kernel
    have h₂ : "characters_length".toList < "metrics".toList := by decide +kernel
    have h₃ : "matrix_dim".toList < "metrics".toList := by decide +kernel
    unfold OrdMap.Sorted
    simp only [List.pairwise_cons, List.forall_mem_cons]
    exact ⟨⟨h₁, h₂, by simp⟩, ⟨h₃, by simp⟩, by simp, List.Pairwise.nil⟩
  have hvalues := (hperm.trans (List.Perm.swap _ _ _)).map (fun m => (m.1, intValue (D := D) m.2))
  apply (OrdMap.sorted_ofList _).eq_of_perm hsorted
  refine (OrdMap.ofList_perm ?_).trans hvalues
  rw [(hvalues.map Prod.fst).nodup_iff]
  exact hsorted.nodup_keys

end Client
