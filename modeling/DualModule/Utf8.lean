/-!
# Bytes and text

What is stored is bytes and what is edited is characters; this module is the bridge.

**Three readings of a byte string.**  `Utf8.scalars` reads bytes from left to right as UTF-8 and
yields one item per character, or `none` for each maximal ill-formed stretch, as the Unicode
standard recommends for replacement.  The two readings that the rest of the library uses are
derived from it: `Utf8.decode?` answers only when nothing was ill-formed, `Utf8.lossy` always
answers and shows each ill-formed stretch as U+FFFD.

**One writing.**  `Utf8.encode` writes text as the shortest sequence of each character.

## Main Definitions

* `Bytes`, `Text`
* `Utf8.encode`, `Utf8.scalars`, `Utf8.decode?`, `Utf8.lossy`
-/

namespace DualModule

/-- A byte string: the content of a file, or the text of a path. -/
abbrev Bytes := List UInt8

/-- Text is a list of characters. -/
abbrev Text := List Char

namespace Utf8

/-- The bytes of one character: one to four, by the size of its code point. -/
def encodeChar (c : Char) : Bytes :=
  let n := c.toNat
  if n < 0x80 then [.ofNat n]
  else if n < 0x800 then [.ofNat (0xC0 + n / 64), .ofNat (0x80 + n % 64)]
  else if n < 0x10000 then
    [.ofNat (0xE0 + n / 4096), .ofNat (0x80 + n / 64 % 64), .ofNat (0x80 + n % 64)]
  else
    [.ofNat (0xF0 + n / 262144), .ofNat (0x80 + n / 4096 % 64), .ofNat (0x80 + n / 64 % 64),
      .ofNat (0x80 + n % 64)]

/-- Text is written character by character. -/
def encode (text : Text) : Bytes := text.flatMap encodeChar

@[simp] theorem encode_nil : encode [] = [] := rfl

@[simp] theorem encode_cons (c : Char) (text : Text) :
    encode (c :: text) = encodeChar c ++ encode text := rfl

@[simp] theorem encode_append (a b : Text) : encode (a ++ b) = encode a ++ encode b := by
  simp [encode]

/-- How many bytes a character takes that begins with the byte `lead`; 0 if none does. -/
def width (lead : UInt8) : Nat :=
  if lead < 0x80 then 1
  else if lead < 0xC2 then 0
  else if lead < 0xE0 then 2
  else if lead < 0xF0 then 3
  else if lead < 0xF5 then 4
  else 0

/-- A continuation byte is one of `80` to `BF`. -/
def isContinuation (b : UInt8) : Bool := 0x80 ≤ b && b < 0xC0

/-- Whether `second` may follow `lead`.  Four leads narrow the range, which keeps out overlong
forms, surrogates and code points past U+10FFFF. -/
def secondFits (lead second : UInt8) : Bool :=
  isContinuation second &&
    (lead != 0xE0 || 0xA0 ≤ second) && (lead != 0xED || second < 0xA0) &&
    (lead != 0xF0 || 0x90 ≤ second) && (lead != 0xF4 || second < 0x90)

/-- The six payload bits of a continuation byte. -/
def payload (b : UInt8) : Nat := b.toNat % 64

/-- Reads bytes as UTF-8: `some` for a character, `none` for a maximal ill-formed stretch, which
is a lead byte together with the bytes that fitted it before one did not. -/
def scalars : Bytes → List (Option Char)
  | [] => []
  | a :: r =>
    match width a, r with
    | 0, r => none :: scalars r
    | 1, r => some (Char.ofNat a.toNat) :: scalars r
    | _, [] => [none]
    | w, b :: r₁ =>
      if secondFits a b then
        if w = 2 then some (Char.ofNat (a.toNat % 32 * 64 + payload b)) :: scalars r₁
        else match r₁ with
          | [] => [none]
          | c :: r₂ =>
            if isContinuation c then
              if w = 3 then
                some (Char.ofNat (a.toNat % 16 * 4096 + payload b * 64 + payload c)) :: scalars r₂
              else match r₂ with
                | [] => [none]
                | d :: r₃ =>
                  if isContinuation d then
                    some (Char.ofNat (a.toNat % 8 * 262144 + payload b * 4096 + payload c * 64
                      + payload d)) :: scalars r₃
                  else none :: scalars (d :: r₃)
            else none :: scalars (c :: r₂)
      else none :: scalars (b :: r₁)

/-- The text that the bytes spell, if they are well-formed throughout. -/
def decode? (bytes : Bytes) : Option Text := (scalars bytes).mapM id

/-- The text that the bytes spell, with U+FFFD for each ill-formed stretch. -/
def lossy (bytes : Bytes) : Text := (scalars bytes).map (·.getD '\uFFFD')

end Utf8

end DualModule
