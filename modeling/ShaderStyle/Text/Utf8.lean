import ShaderStyle.Text.Basic

/-!
# UTF-8

Files are lists of bytes. `encode` writes a text in UTF-8, `decode` reads one back and refuses
overlong forms, surrogates and code points above the last one. A fault names the first bytes that do
not fit:

* a byte that cannot begin a character;
* a sequence cut short by a byte that does not continue it, counted up to that byte;
* a sequence cut short by the end of the data, counted up to the end.
-/

namespace ShaderStyle.Text.Utf8

/-- The bytes of one character. -/
def encodeChar (c : Char) : List UInt8 :=
  let n := c.toNat
  if n < 0x80 then [n.toUInt8]
  else if n < 0x800 then [(0xc0 + n / 0x40).toUInt8, (0x80 + n % 0x40).toUInt8]
  else if n < 0x10000 then
    [(0xe0 + n / 0x1000).toUInt8, (0x80 + n / 0x40 % 0x40).toUInt8, (0x80 + n % 0x40).toUInt8]
  else
    [(0xf0 + n / 0x40000).toUInt8, (0x80 + n / 0x1000 % 0x40).toUInt8,
      (0x80 + n / 0x40 % 0x40).toUInt8, (0x80 + n % 0x40).toUInt8]

/-- The bytes of a text. -/
def encode (t : Text) : List UInt8 :=
  t.flatMap encodeChar

/-- Why some bytes are not a character. -/
inductive Reason where
  | invalidStart
  | invalidContinuation
  | unexpectedEnd
  deriving DecidableEq, Repr

/-- The first bytes that are not UTF-8: where they start, how many they are and the first of them. -/
structure Fault where
  offset : Nat
  count : Nat
  first : UInt8
  reason : Reason
  deriving DecidableEq, Repr

/-- The wording of a reason. -/
def Reason.message : Reason → String
  | .invalidStart => "invalid start byte"
  | .invalidContinuation => "invalid continuation byte"
  | .unexpectedEnd => "unexpected end of data"

namespace Fault

/-- The message that names the bytes at fault. -/
def message (f : Fault) : String :=
  let bytes :=
    if f.count = 1 then
      "byte 0x" ++ String.ofList (hexDigits 2 f.first.toNat) ++ " in position " ++ toString f.offset
    else "bytes in position " ++ toString f.offset ++ "-" ++ toString (f.offset + f.count - 1)
  "'utf-8' codec can't decode " ++ bytes ++ ": " ++ f.reason.message

end Fault

/-- What a leading byte above ASCII announces: how many bytes follow it, the bounds of the second
byte, and the bits of the character that it carries itself. -/
structure Lead where
  following : Nat
  low : Nat
  high : Nat
  bits : Nat

/-- The announcement of a leading byte, if it is one. -/
def lead? (b : UInt8) : Option Lead :=
  let n := b.toNat
  if n < 0xc2 then none
  else if n < 0xe0 then some ⟨1, 0x80, 0xbf, n - 0xc0⟩
  else if n = 0xe0 then some ⟨2, 0xa0, 0xbf, 0⟩
  else if n = 0xed then some ⟨2, 0x80, 0x9f, 13⟩
  else if n < 0xf0 then some ⟨2, 0x80, 0xbf, n - 0xe0⟩
  else if n = 0xf0 then some ⟨3, 0x90, 0xbf, 0⟩
  else if n < 0xf4 then some ⟨3, 0x80, 0xbf, n - 0xf0⟩
  else if n = 0xf4 then some ⟨3, 0x80, 0x8f, 4⟩
  else none

/-- Reads `following` continuation bytes, the first of them within `low` and `high`. The value read
so far is `bits`; a failure counts the bytes of the sequence that fit, `used` of them before. -/
def readTail (low high bits used : Nat) : Nat → List UInt8 → Except (Reason × Nat) Nat
  | 0, _ => .ok bits
  | _ + 1, [] => .error (.unexpectedEnd, used)
  | following + 1, b :: rest =>
    if low ≤ b.toNat && b.toNat ≤ high then
      readTail 0x80 0xbf (bits * 0x40 + (b.toNat - 0x80)) (used + 1) following rest
    else
      .error (.invalidContinuation, used)

/-- Reads the characters of `bytes`, which start at `offset` of the data. -/
def decodeAt (offset : Nat) (bytes : List UInt8) : Except Fault Text :=
  match bytes with
  | [] => .ok []
  | b :: rest =>
    if b.toNat < 0x80 then
      (decodeAt (offset + 1) rest).map (Char.ofNat b.toNat :: ·)
    else match lead? b with
      | none => .error ⟨offset, 1, b, .invalidStart⟩
      | some l =>
        match readTail l.low l.high l.bits 1 l.following rest with
        | .error (reason, count) => .error ⟨offset, count, b, reason⟩
        | .ok n =>
          (decodeAt (offset + 1 + l.following) (rest.drop l.following)).map (Char.ofNat n :: ·)
termination_by bytes.length
decreasing_by all_goals (simp only [List.length_drop, List.length_cons]; omega)

/-- The text that the bytes encode, or the first bytes that encode none. -/
def decode (bytes : List UInt8) : Except Fault Text :=
  decodeAt 0 bytes

end ShaderStyle.Text.Utf8
