import Mathlib.Data.List.Lex
import Mathlib.Tactic.Common
/-!
# The order of texts and of their bytes

Texts are compared character by character, and a file system compares names byte by byte.  In UTF-8
the two orders are the same (`lt_iff_lex_bytes`).  An encoded character is a number written with a
first byte and then six bits to a byte (`spread`).  The first byte also tells how many follow, so of
two characters the encoding of the smaller one comes before that of the other one, whatever follows
them (`Ahead`, `ahead_utf8EncodeChar`).
-/

namespace SuiteGate.Text

/-! ### Numbers as bytes -/

/-- Some bytes come before others, whatever follows them. -/
def Ahead (p q : List UInt8) : Prop :=
  ∀ s t, List.Lex (· < ·) (p ++ s) (q ++ t)

/-- A number as a marked first byte and some bytes with six bits each. -/
def spread (mark : ℕ) : ℕ → ℕ → List UInt8
  | 0, n => [UInt8.ofNat (n + mark)]
  | k + 1, n => spread mark k (n / 64) ++ [UInt8.ofNat (n % 64 + 128)]

/-- What is left of a number for the first byte. -/
def leading : ℕ → ℕ → ℕ
  | 0, n => n
  | k + 1, n => leading k (n / 64)

section

variable {m n : ℕ} {p q : List UInt8}

/-- A smaller first byte decides. -/
theorem ahead_of_lt (h : m < n) (hn : n < 256) : Ahead (UInt8.ofNat m :: p) (UInt8.ofNat n :: q) :=
  fun _ _ => .rel ((UInt8.ofNat_lt_iff_lt (h.trans hn) hn).mpr h)

/-- **Numbers with equally many bytes** are in the order of their bytes. -/
theorem ahead_spread {mark k : ℕ} (h : m < n) (hn : leading k n + mark < 256) :
    Ahead (spread mark k m) (spread mark k n) := by
  induction k generalizing m n with
  | zero => exact ahead_of_lt (Nat.add_lt_add_right h mark) hn
  | succ k ih =>
    intro s t
    rw [spread, spread, List.append_assoc, List.append_assoc]
    -- the last byte only counts if those before it are the same
    rcases Nat.lt_or_ge (m / 64) (n / 64) with hlt | hge
    · exact ih hlt hn _ _
    · rw [Nat.le_antisymm (Nat.div_le_div_right h.le) hge]
      exact .append_left _ (ahead_of_lt (by omega) (by omega) s t) _

/-- The first byte of a number. -/
theorem exists_spread_eq_cons (mark k n : ℕ) :
    ∃ l, spread mark k n = UInt8.ofNat (leading k n + mark) :: l := by
  induction k generalizing n with
  | zero => exact ⟨[], rfl⟩
  | succ k ih =>
    obtain ⟨l, hl⟩ := ih (n / 64)
    exact ⟨l ++ [UInt8.ofNat (n % 64 + 128)], by rw [spread, hl, List.cons_append, leading]⟩

end

/-! ### Encodings of characters -/

/-- How many bytes of an encoded character follow the first one. -/
def following (n : ℕ) : ℕ :=
  if n ≤ 0x7f then 0 else if n ≤ 0x7ff then 1 else if n ≤ 0xffff then 2 else 3

/-- What marks the first byte of an encoded character when so many bytes follow it. -/
def firstMark : ℕ → ℕ
  | 0 => 0
  | 1 => 0xc0
  | 2 => 0xe0
  | 3 => 0xf0
  | _ => 0xf8

theorem toNat_lt (c : Char) : c.val.toNat < 0x110000 := by
  have hvalid : c.val.toNat < 0xd800 ∨ 0xdfff < c.val.toNat ∧ c.val.toNat < 0x110000 := c.valid
  omega

theorem utf8EncodeChar_eq (c : Char) : String.utf8EncodeChar c =
    spread (firstMark (following c.val.toNat)) (following c.val.toNat) c.val.toNat := by
  have hc := toNat_lt c
  simp only [String.utf8EncodeChar, following]
  generalize c.val.toNat = n at hc
  split
  · rfl
  · split
    · rw [Nat.mod_eq_of_lt (show n / 64 < 32 by omega)]
      rfl
    · split
      · rw [Nat.mod_eq_of_lt (show n / 4096 < 16 by omega)]
        simp [spread, firstMark, Nat.div_div_eq_div_mul]
      · rw [Nat.mod_eq_of_lt (show n / 262144 < 8 by omega)]
        simp [spread, firstMark, Nat.div_div_eq_div_mul]

/-- The first byte of an encoded character tells how many follow. -/
theorem first_lt {n : ℕ} (hn : n < 0x110000) :
    leading (following n) n + firstMark (following n) < firstMark (following n + 1) := by
  unfold following
  split_ifs <;> simp only [leading, firstMark] <;> omega

theorem following_lt (n : ℕ) : following n < 4 := by
  unfold following
  split_ifs <;> omega

theorem following_mono {m n : ℕ} (h : m < n) : following m ≤ following n := by
  unfold following
  split_ifs <;> omega

theorem firstMark_le {j k : ℕ} (h : j < k) (hk : k ≤ 4) : firstMark (j + 1) ≤ firstMark k := by
  have hall : ∀ k ≤ 4, ∀ j < k, firstMark (j + 1) ≤ firstMark k := by decide
  exact hall k hk j h

/-- **Encoded characters are in the order of the characters.** -/
theorem ahead_utf8EncodeChar {a b : Char} (h : a < b) :
    Ahead (String.utf8EncodeChar a) (String.utf8EncodeChar b) := by
  have hab : a.val.toNat < b.val.toNat := UInt32.lt_iff_toNat_lt.mp h
  rw [utf8EncodeChar_eq, utf8EncodeChar_eq]
  have ha := first_lt (toNat_lt a)
  have hb := first_lt (toNat_lt b)
  generalize a.val.toNat = m at hab ha
  generalize b.val.toNat = n at hab hb
  have hbyte : firstMark (following n + 1) ≤ 0xf8 := firstMark_le (following_lt n) le_rfl
  have hb : leading (following n) n + firstMark (following n) < 256 :=
    (hb.trans_le hbyte).trans (by decide)
  rcases (following_mono hab).lt_or_eq with hfewer | hsame
  · obtain ⟨l, hl⟩ := exists_spread_eq_cons (firstMark (following m)) (following m) m
    obtain ⟨l', hl'⟩ := exists_spread_eq_cons (firstMark (following n)) (following n) n
    rw [hl, hl']
    have hmarks : firstMark (following m + 1) ≤ firstMark (following n) :=
      firstMark_le hfewer (following_lt n).le
    exact ahead_of_lt ((ha.trans_le hmarks).trans_le (Nat.le_add_left _ _)) hb
  · rw [hsame]
    exact ahead_spread hab hb

/-! ### Texts -/

theorem exists_utf8EncodeChar_eq_cons (c : Char) : ∃ x l, String.utf8EncodeChar c = x :: l := by
  obtain ⟨l, hl⟩ := exists_spread_eq_cons (firstMark (following c.val.toNat))
    (following c.val.toNat) c.val.toNat
  exact ⟨_, l, (utf8EncodeChar_eq c).trans hl⟩

theorem lex_flatMap_of_lex {l l' : List Char} (h : List.Lex (· < ·) l l') :
    List.Lex (· < ·) (l.flatMap String.utf8EncodeChar) (l'.flatMap String.utf8EncodeChar) := by
  induction h with
  | @nil c l =>
    obtain ⟨x, t, hc⟩ := exists_utf8EncodeChar_eq_cons c
    rw [List.flatMap_nil, List.flatMap_cons, hc, List.cons_append]
    exact .nil
  | rel hlt => exact ahead_utf8EncodeChar hlt _ _
  | cons _ ih => exact ih.append_left _ _

theorem bytes_eq_flatMap (s : String) :
    s.toUTF8.data.toList = s.toList.flatMap String.utf8EncodeChar := by
  rw [String.toUTF8, ← String.utf8Encode_toList, List.utf8Encode, List.data_toByteArray,
    List.toList_toArray]

theorem lex_bytes_of_lt {s t : String} (h : s < t) :
    List.Lex (· < ·) s.toUTF8.data.toList t.toUTF8.data.toList := by
  rw [bytes_eq_flatMap, bytes_eq_flatMap]
  exact lex_flatMap_of_lex (String.lt_iff.mp h)

/-- **Texts are in the order of their bytes.** -/
theorem lt_iff_lex_bytes {s t : String} :
    s < t ↔ List.Lex (· < ·) s.toUTF8.data.toList t.toUTF8.data.toList := by
  refine ⟨lex_bytes_of_lt, fun h => Decidable.byContradiction fun hlt => ?_⟩
  have hle : t ≤ s := String.not_lt.mp hlt
  by_cases hge : s ≤ t
  · obtain rfl := String.le_antisymm hge hle
    exact irrefl _ h
  · exact asymm h (lex_bytes_of_lt (String.not_le.mp hge))

end SuiteGate.Text
