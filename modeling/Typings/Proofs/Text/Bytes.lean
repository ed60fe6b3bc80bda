import Mathlib.Algebra.Group.Nat.Defs
import Mathlib.Tactic.ByContra
import Mathlib.Tactic.Lemma

/-!
# The order of bytes

Texts are compared character by character. In UTF-8 their bytes are in the same order: of two
characters the one with the lesser number has the lesser bytes, whatever comes behind them.
-/

namespace Typings.Text

/-- The bytes of a text in UTF-8. -/
def bytes (s : String) : List UInt8 :=
  s.toUTF8.data.toList

/-- The bytes of a text are those of its characters, one after the other. -/
lemma bytes_eq (s : String) : bytes s = s.toList.flatMap String.utf8EncodeChar := by
  rw [bytes, String.toUTF8_eq_toByteArray, ← String.utf8Encode_toList, List.utf8Encode,
    List.data_toByteArray]

/-- The first byte of the character with a number, and how many bytes come behind it. -/
inductive Lead (v : Nat) : Nat → Nat → Prop where
  | one : v < 0x80 → Lead v v 0
  | two : 0x80 ≤ v → v < 0x800 → Lead v (v / 64 + 0xc0) 1
  | three : 0x800 ≤ v → v < 0x10000 → Lead v (v / 64 ^ 2 + 0xe0) 2
  | four : 0x10000 ≤ v → v < 0x110000 → Lead v (v / 64 ^ 3 + 0xf0) 3

/-- The bytes behind the first one, which take six bits each. -/
def tailBytes : Nat → Nat → List UInt8
  | 0, _ => []
  | k + 1, v => tailBytes k (v / 64) ++ [UInt8.ofNat (v % 64 + 0x80)]

lemma val_lt (c : Char) : c.val.toNat < 0x110000 := by
  rcases c.valid with h | ⟨-, h⟩
  · exact Nat.lt_trans h (by decide)
  · exact h

/-- A character is a first byte with the bytes behind it. -/
lemma exists_lead (c : Char) :
    ∃ b k, Lead c.val.toNat b k ∧
      String.utf8EncodeChar c = UInt8.ofNat b :: tailBytes k c.val.toNat := by
  have hc := val_lt c
  rw [String.utf8EncodeChar]
  -- What is left for the first byte is small, so the remainder taken of it changes nothing.
  generalize c.val.toNat = v at *
  split
  case isTrue h1 => exact ⟨_, _, .one (by omega), rfl⟩
  case isFalse h1 =>
    split
    case isTrue h2 =>
      have hv : v / 64 % 0x20 = v / 64 := by omega
      rw [hv]
      exact ⟨_, _, .two (by omega) (by omega), rfl⟩
    case isFalse h2 =>
      split
      case isTrue h3 =>
        have hv : v / 4096 % 0x10 = v / 64 ^ 2 := by omega
        rw [hv]
        exact ⟨_, _, .three (by omega) (by omega), rfl⟩
      case isFalse h3 =>
        have hv : v / 262144 % 0x08 = v / 64 ^ 3 := by omega
        have hv' : v / 4096 = v / 64 / 64 := by omega
        rw [hv, hv']
        exact ⟨_, _, .four (by omega) (by omega), rfl⟩

lemma Lead.lt_size {v b k : Nat} (h : Lead v b k) : b < 2 ^ 8 := by
  cases h <;> omega

/-- A lesser number has a lesser first byte, or the same one with as many bytes behind it. -/
lemma Lead.lt_or_eq {v w b b' k k' : Nat} (hv : Lead v b k) (hw : Lead w b' k') (h : v < w) :
    b < b' ∨ b = b' ∧ k = k' ∧ v / 64 ^ k = w / 64 ^ k := by
  cases hv <;> cases hw <;> omega

/-- Numbers that have the same first byte are in the order of the bytes behind it. -/
lemma tailBytes_append_lt {k v w : Nat} (h : v < w) (hdiv : v / 64 ^ k = w / 64 ^ k)
    (r r' : List UInt8) : tailBytes k v ++ r < tailBytes k w ++ r' := by
  induction k generalizing v w r r' with
  | zero =>
    rw [Nat.pow_zero, Nat.div_one, Nat.div_one] at hdiv
    exact absurd hdiv (Nat.ne_of_lt h)
  | succ k ih =>
    rw [tailBytes, tailBytes, List.append_assoc, List.append_assoc]
    -- The numbers differ before the last six bits already, or in these only.
    rcases Nat.lt_or_eq_of_le (Nat.div_le_div_right (Nat.le_of_lt h) : v / 64 ≤ w / 64) with
      hlt | heq
    · apply ih hlt
      rw [Nat.div_div_eq_div_mul, Nat.div_div_eq_div_mul, ← Nat.pow_succ', hdiv]
    · rw [heq]
      apply List.append_left_lt
      apply List.Lex.rel
      rw [UInt8.lt_iff_toNat_lt, UInt8.toNat_ofNat', UInt8.toNat_ofNat']
      omega

/-- A lesser character has lesser bytes, whatever comes behind them. -/
lemma utf8EncodeChar_append_lt {a b : Char} (h : a < b) (r r' : List UInt8) :
    String.utf8EncodeChar a ++ r < String.utf8EncodeChar b ++ r' := by
  obtain ⟨x, k, hx, ha⟩ := exists_lead a
  obtain ⟨y, k', hy, hb⟩ := exists_lead b
  rw [ha, hb, List.cons_append, List.cons_append]
  rcases hx.lt_or_eq hy h with hlt | ⟨rfl, rfl, hdiv⟩
  · apply List.Lex.rel
    rwa [UInt8.lt_iff_toNat_lt, UInt8.toNat_ofNat_of_lt' hx.lt_size,
      UInt8.toNat_ofNat_of_lt' hy.lt_size]
  · exact List.Lex.cons (tailBytes_append_lt h hdiv r r')

/-- Lesser characters have lesser bytes. -/
lemma flatMap_utf8EncodeChar_lt {s t : List Char} (h : s < t) :
    s.flatMap String.utf8EncodeChar < t.flatMap String.utf8EncodeChar := by
  induction h with
  | @nil a as =>
    obtain ⟨x, k, -, ha⟩ := exists_lead a
    rw [List.flatMap_cons, ha]
    exact List.Lex.nil
  | @rel a b as bs hab => exact utf8EncodeChar_append_lt hab _ _
  | @cons a as bs _ ih => exact List.append_left_lt ih

lemma bytes_lt {s t : String} (h : s < t) : bytes s < bytes t := by
  rw [bytes_eq, bytes_eq]
  exact flatMap_utf8EncodeChar_lt h

/-- Texts are in the order of their bytes. -/
lemma bytes_le_iff {s t : String} : bytes s ≤ bytes t ↔ s ≤ t := by
  constructor
  · intro h
    by_contra hnot
    exact h (bytes_lt (String.not_le.1 hnot))
  · intro h
    by_cases hts : t ≤ s
    · rw [String.le_antisymm h hts]
      exact List.le_refl (bytes t)
    · exact List.le_of_lt (bytes_lt (String.not_le.1 hts))

end Typings.Text
