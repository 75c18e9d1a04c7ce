/-!
# Decoding UTF-8 that may be broken

`decodeLossy` reads bytes one at a time. Where a sequence cannot go on, what was read of it becomes
one replacement character and the byte that broke it starts afresh.
-/

namespace HostScript.Text.Utf8

/-- A sequence of several bytes of which some are read: the code point so far, how many bytes are
still to come, and the range in which the next one must be. -/
structure Partial where
  code : Nat
  remaining : Nat
  low : Nat
  high : Nat

/-- What stands for bytes that are no character. -/
def replacement : Char := '\uFFFD'

/-- The sequence that a leading byte opens. The range of the second byte is narrower after some
leading bytes, so that no code point has two encodings, none is a surrogate and none is beyond the
last. -/
def Partial.ofLead? (b : Nat) : Option Partial :=
  if 0xC2 ≤ b ∧ b ≤ 0xDF then some ⟨b - 0xC0, 1, 0x80, 0xBF⟩
  else if b = 0xE0 then some ⟨0, 2, 0xA0, 0xBF⟩
  else if b = 0xED then some ⟨0xD, 2, 0x80, 0x9F⟩
  else if 0xE1 ≤ b ∧ b ≤ 0xEF then some ⟨b - 0xE0, 2, 0x80, 0xBF⟩
  else if b = 0xF0 then some ⟨0, 3, 0x90, 0xBF⟩
  else if 0xF1 ≤ b ∧ b ≤ 0xF3 then some ⟨b - 0xF0, 3, 0x80, 0xBF⟩
  else if b = 0xF4 then some ⟨4, 3, 0x80, 0x8F⟩
  else none

/-- Reads a byte where no sequence is open. -/
def start (b : Nat) : List Char × Option Partial :=
  if b < 0x80 then ([Char.ofNat b], none)
  else match Partial.ofLead? b with
    | some opened => ([], some opened)
    | none => ([replacement], none)

/-- Reads a byte; the characters that it completes come out. -/
def step : Option Partial → Nat → List Char × Option Partial
  | none, b => start b
  | some p, b =>
    if p.low ≤ b ∧ b ≤ p.high then
      let code := p.code * 64 + (b - 0x80)
      if p.remaining = 1 then ([Char.ofNat code], none)
      else ([], some ⟨code, p.remaining - 1, 0x80, 0xBF⟩)
    else
      let (out, next) := start b
      (replacement :: out, next)

/-- Decodes the bytes that follow an open sequence. -/
def decodeFrom (state : Option Partial) : List UInt8 → List Char
  | [] => if state.isSome then [replacement] else []
  | b :: rest =>
    let (out, next) := step state b.toNat
    out ++ decodeFrom next rest

/-- The text of the bytes, with a replacement character for each stretch that is no character. -/
def decodeLossy (bytes : List UInt8) : String := String.ofList (decodeFrom none bytes)

/-- The text of the bytes, if all of them are characters. -/
def decode? (bytes : List UInt8) : Option String := String.fromUTF8? ⟨bytes.toArray⟩

/-- The bytes of a text. -/
def encode (text : String) : List UInt8 := text.toUTF8.toList

end HostScript.Text.Utf8
