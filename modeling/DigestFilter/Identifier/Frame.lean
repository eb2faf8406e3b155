import DigestFilter.Frame
import DigestFilter.Identifier.Basic

/-!
# Identifiers in byte streams

An identifier is written as a frame with a two-byte length field, so its digest may have at most
65535 bytes.
-/

namespace DigestFilter.Identifier

def pieces (x : Identifier) : Except Error (List (List UInt8)) :=
  if LittleEndian.limit 2 ≤ x.size then .error (.argument (.longDigest x.size))
  else .ok [Frame.header 2 x.digest, x.digest]

def write (x : Identifier) (sink : Sink) : Except Error Unit × Sink :=
  match x.pieces with
  | .error e => (.error e, sink)
  | .ok pieces => sink.putAll pieces

def read {σ : Type} [Source σ] : Decoder σ Identifier := do
  ofBytes (← Frame.read 2)

end DigestFilter.Identifier
