/-!
# Bytes as text

Reading bytes as UTF-8.  `decode?` accepts exactly the byte sequences that encode a text;
`decodeLossy` never fails: each maximal piece that is the start of an encoded character but not
one becomes U+FFFD, and so does each byte that starts no character.  Headline: decoding what a
text encodes gives the text back (`decode?_toUTF8`).
-/

namespace SuiteGate.Text

/-- The text that the bytes encode, if they are well-formed UTF-8. -/
def decode? (bytes : ByteArray) : Option String :=
  String.fromUTF8? bytes

theorem decode?_toUTF8 (s : String) : decode? s.toUTF8 = some s := by
  have h : s.toUTF8.IsValidUTF8 := s.isValidUTF8
  simp only [decode?, String.fromUTF8?]
  rw [dif_pos (by simpa using h)]
  rfl

/-- The second byte of an encoded character lies in a range that its first byte fixes; the first
byte fixes the number of bytes that follow it, too. -/
def leadByte (b : Nat) : Option (Nat × Nat × Nat) :=
  if 0xC2 ≤ b && b ≤ 0xDF then some (1, 0x80, 0xBF)
  else if b = 0xE0 then some (2, 0xA0, 0xBF)
  else if b = 0xED then some (2, 0x80, 0x9F)
  else if 0xE1 ≤ b && b ≤ 0xEF then some (2, 0x80, 0xBF)
  else if b = 0xF0 then some (3, 0x90, 0xBF)
  else if 0xF1 ≤ b && b ≤ 0xF3 then some (3, 0x80, 0xBF)
  else if b = 0xF4 then some (3, 0x80, 0x8F)
  else none

/-- The number of bytes, at most the given one, that continue a character; the bounds are those of
the first of them. -/
def continuation : Nat → Nat → Nat → List Nat → Nat
  | 0, _, _, _ => 0
  | _, _, _, [] => 0
  | n + 1, lo, hi, b :: bs =>
    if lo ≤ b && b ≤ hi then continuation n 0x80 0xBF bs + 1 else 0

/-- The code point of a lead byte that is followed by the given continuation bytes. -/
def codePoint (lead : Nat) (rest : List Nat) : Nat :=
  let start :=
    match rest.length with
    | 1 => lead % 0x20
    | 2 => lead % 0x10
    | _ => lead % 0x08
  rest.foldl (fun acc b => acc * 64 + b % 64) start

/-- The replacement character. -/
def replacement : Char := '\uFFFD'

/-- The characters that the bytes encode, each maximal malformed piece replaced.  The number
bounds the steps; there is at least one byte to a step. -/
def decodeLossyFrom : Nat → List Nat → List Char
  | 0, _ => []
  | _, [] => []
  | n + 1, b :: bs =>
    if b < 0x80 then Char.ofNat b :: decodeLossyFrom n bs
    else
      match leadByte b with
      | none => replacement :: decodeLossyFrom n bs
      | some (need, lo, hi) =>
        let held := continuation need lo hi bs
        if held = need then
          Char.ofNat (codePoint b (bs.take need)) :: decodeLossyFrom n (bs.drop need)
        else replacement :: decodeLossyFrom n (bs.drop held)

/-- The text of the bytes, malformed pieces replaced by U+FFFD. -/
def decodeLossy (bytes : ByteArray) : String :=
  match decode? bytes with
  | some s => s
  | none => String.ofList (decodeLossyFrom bytes.size (bytes.toList.map UInt8.toNat))

theorem decodeLossy_toUTF8 (s : String) : decodeLossy s.toUTF8 = s := by
  rw [decodeLossy, decode?_toUTF8]

end SuiteGate.Text
