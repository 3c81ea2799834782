/-!
Texts as bytes in UTF-8. Bytes that are no text are refused with the place of the first character
that cannot be read.
-/

namespace DocCompiler.Text

/-- Why bytes are no text. -/
inductive Utf8Reason
  | badStart
  | badContinuation
  | cutShort
  deriving DecidableEq, Repr

/-- The wording of the reason. -/
def Utf8Reason.message : Utf8Reason → String
  | .badStart => "invalid start byte"
  | .badContinuation => "invalid continuation byte"
  | .cutShort => "unexpected end of data"

/-- The reason that bytes are no text, and the offset of the character that cannot be read. -/
structure Utf8Error where
  offset : Nat
  reason : Utf8Reason
  deriving DecidableEq, Repr

/-- The number of bytes of a character with this first byte. -/
def sequenceLength? (first : UInt8) : Option Nat :=
  if first < 0x80 then some 1
  else if 0xC2 ≤ first && first < 0xE0 then some 2
  else if 0xE0 ≤ first && first < 0xF0 then some 3
  else if 0xF0 ≤ first && first < 0xF5 then some 4
  else none

/-- Whether a byte continues a character. -/
def isContinuation (byte : UInt8) : Bool :=
  0x80 ≤ byte && byte < 0xC0

/-- Whether a byte may be the second one of a character. Longer forms than needed, surrogates and
numbers beyond the last character are ruled out here. -/
def isSecond (first second : UInt8) : Bool :=
  isContinuation second &&
    (if first = 0xE0 then 0xA0 ≤ second
    else if first = 0xED then second < 0xA0
    else if first = 0xF0 then 0x90 ≤ second
    else if first = 0xF4 then second < 0x90
    else true)

/-- The low bits of a byte that continues a character. -/
def lowBits (byte : UInt8) : Nat :=
  byte.toNat % 64

/-- The characters of bytes; `done` holds those before the offset, the last one first. -/
def decodeFrom (offset : Nat) (done : List Char) : List UInt8 → Except Utf8Error (List Char)
  | [] => .ok done.reverse
  | a :: rest =>
      match sequenceLength? a with
      | none => .error ⟨offset, .badStart⟩
      | some 1 => decodeFrom (offset + 1) (Char.ofNat a.toNat :: done) rest
      | some length =>
          match rest with
          | [] => .error ⟨offset, .cutShort⟩
          | b :: rest =>
              if !isSecond a b then .error ⟨offset, .badContinuation⟩
              else if length = 2 then
                decodeFrom (offset + 2) (Char.ofNat (a.toNat % 32 * 64 + lowBits b) :: done) rest
              else
                match rest with
                | [] => .error ⟨offset, .cutShort⟩
                | c :: rest =>
                    if !isContinuation c then .error ⟨offset, .badContinuation⟩
                    else if length = 3 then
                      let code := (a.toNat % 16 * 64 + lowBits b) * 64 + lowBits c
                      decodeFrom (offset + 3) (Char.ofNat code :: done) rest
                    else
                      match rest with
                      | [] => .error ⟨offset, .cutShort⟩
                      | d :: rest =>
                          if !isContinuation d then .error ⟨offset, .badContinuation⟩
                          else
                            let code :=
                              ((a.toNat % 8 * 64 + lowBits b) * 64 + lowBits c) * 64 + lowBits d
                            decodeFrom (offset + 4) (Char.ofNat code :: done) rest

/-- The characters of bytes. -/
def decode (bytes : List UInt8) : Except Utf8Error (List Char) :=
  decodeFrom 0 [] bytes

/-- The bytes of a text. -/
def encode (text : String) : List UInt8 :=
  text.toUTF8.toList

end DocCompiler.Text
