namespace Concord

namespace Utf8

/-- The bytes that encode a code point. They are one to four, more of them for greater code points. -/
def encode (point : Nat) : List Nat :=
  if point < 0x80 then [point]
  else if point < 0x800 then [0xC0 + point / 0x40, 0x80 + point % 0x40]
  else if point < 0x10000 then
    [0xE0 + point / 0x1000, 0x80 + point / 0x40 % 0x40, 0x80 + point % 0x40]
  else
    [0xF0 + point / 0x40000, 0x80 + point / 0x1000 % 0x40, 0x80 + point / 0x40 % 0x40,
      0x80 + point % 0x40]

/-- The bytes that encode a text. -/
def bytes (text : List Char) : List Nat :=
  text.flatMap fun c => encode c.toNat

/-- The ranges of the code points whose encodings have one, two, three and four bytes. Surrogates
have none. -/
def lengthRanges : List (Nat × Nat) :=
  [(0x00, 0x7F), (0x80, 0x7FF), (0x800, 0xD7FF), (0xE000, 0xFFFF), (0x10000, 0x10FFFF)]

/-- The parts of a range whose encodings have one length each. -/
def splitLengths (range : Nat × Nat) : List (Nat × Nat) :=
  lengthRanges.filterMap fun (first, last) =>
    let part := (max range.1 first, min range.2 last)
    if part.1 ≤ part.2 then some part else none

/-- The parts of a range that lie within one block of `size` code points or fill whole blocks. -/
def splitBlocks (size : Nat) (range : Nat × Nat) : List (Nat × Nat) :=
  let (low, high) := range
  if low / size = high / size then [(low, high)]
  else
    let isOpen := low % size != 0
    let start := if isOpen then (low / size + 1) * size else low
    let head := if isOpen then [(low, start - 1)] else []
    let stop := high / size * size
    if start = stop ∨ high % size = size - 1 then head ++ [(start, high)]
    else head ++ [(start, stop - 1), (stop, high)]

/-- The byte ranges that the ends of a range give. They stand for its encodings if the range is one
that `splitLengths` and `splitBlocks` leave whole. -/
def byteRanges (range : Nat × Nat) : List (Nat × Nat) :=
  (encode range.1).zip (encode range.2)

/-- The sequences of byte ranges that stand for the encodings of a range of code points. -/
def sequences (range : Nat × Nat) : List (List (Nat × Nat)) :=
  (splitLengths range).flatMap fun part =>
    if part.2 < 0x80 then [[part]]
    else
      let parts := [0x40, 0x1000, 0x40000].foldl (fun parts size => parts.flatMap (splitBlocks size))
        [part]
      parts.map byteRanges

end Utf8

end Concord
