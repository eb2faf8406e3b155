import DigestFilter.Filter.Basic
import DigestFilter.Frame

/-!
# Filters in bytes

A filter is written as a frame with an eight-byte length field, the plain form, or as that frame
behind two magic bytes, the headed form. A stream holds plain forms only. Bytes in memory may be
of either form: they are taken as headed when they start with the magic bytes and the length field
behind those is exactly right.
-/

namespace DigestFilter.Filter

def magic : List UInt8 := LittleEndian.bytes 2 0xBC01

def encode (f : Filter) (withHeader : Bool) : List UInt8 :=
  (if withHeader then magic else []) ++ Frame.encode 8 f.bitmap

def pieces (f : Filter) (withHeader : Bool) : List (List UInt8) :=
  (if withHeader then [magic] else []) ++ [Frame.header 8 f.bitmap, f.bitmap]

theorem flatten_pieces (f : Filter) (withHeader : Bool) :
    (f.pieces withHeader).flatten = f.encode withHeader := by
  cases withHeader <;> simp [pieces, encode, Frame.encode]

def write (f : Filter) (withHeader : Bool) (sink : Sink) : Except Error Unit × Sink :=
  sink.putAll (f.pieces withHeader)

def read {σ : Type} [Source σ] : Decoder σ Filter := do
  ofBytes (← Frame.read 8)

def isHeaded (bs : List UInt8) : Bool :=
  decide (10 ≤ bs.length) && bs.take 2 == magic &&
    LittleEndian.value ((bs.drop 2).take 8) == bs.length - 10

/-- Reads either form. What follows a plain form is left alone. -/
def decode (bs : List UInt8) : Except Error Filter :=
  let plain := if isHeaded bs then bs.drop 2 else bs
  (read.runOn plain).1

end DigestFilter.Filter
