import DigestFilter.Bytes.LittleEndian
import DigestFilter.Stream.Sink
import DigestFilter.Stream.Source

/-!
# Length-prefixed frames

A frame is a little-endian length field of fixed width followed by that many bytes. `encode`
writes one and `read` takes one from the front of any source. A source that ends inside the field
or inside the payload is reported with the number of bytes that were wanted and found.
-/

namespace DigestFilter

/-- A decoder changes its source whether it succeeds or not. -/
abbrev Decoder (σ α : Type) := ExceptT Error (StateM σ) α

def Decoder.runOn {σ α : Type} (d : Decoder σ α) (s : σ) : Except Error α × σ := d.run.run s

namespace Frame

variable {σ : Type} [Source σ]

def readExactly (n : Nat) : Decoder σ (List UInt8) := fun s =>
  match Source.take n s with
  | (.error fault, s') => (.error (.device fault), s')
  | (.ok bs, s') => if bs.length < n then (.error (.truncated n bs.length), s') else (.ok bs, s')

def readLength (width : Nat) : Decoder σ Nat := do
  return LittleEndian.value (← readExactly width)

/-- The payload of the next frame, whose length field has `width` bytes. -/
def read (width : Nat) : Decoder σ (List UInt8) := do
  readExactly (← readLength width)

def header (width : Nat) (payload : List UInt8) : List UInt8 :=
  LittleEndian.bytes width payload.length

def encode (width : Nat) (payload : List UInt8) : List UInt8 :=
  header width payload ++ payload

end Frame

end DigestFilter
