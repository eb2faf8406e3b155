import DigestFilter.Error

/-!
# Where bytes are written to

A sink keeps what is written, in order. It may have room for a limited number of bytes: then it
takes what fits and refuses the rest.
-/

namespace DigestFilter

structure Sink where
  written : List UInt8 := []
  room : Option Nat := none

namespace Sink

def put (bs : List UInt8) (s : Sink) : Except Error Unit × Sink :=
  match s.room with
  | none => (.ok (), { s with written := s.written ++ bs })
  | some k =>
    let after : Sink := ⟨s.written ++ bs.take k, some (k - bs.length)⟩
    if bs.length ≤ k then (.ok (), after) else (.error (.device .full), after)

def putAll : List (List UInt8) → Sink → Except Error Unit × Sink
  | [], s => (.ok (), s)
  | bs :: rest, s =>
    match s.put bs with
    | (.ok (), s') => putAll rest s'
    | (.error e, s') => (.error e, s')

theorem put_unlimited (bs : List UInt8) (written : List UInt8) :
    (Sink.mk written none).put bs = (.ok (), ⟨written ++ bs, none⟩) := rfl

theorem putAll_unlimited (pieces : List (List UInt8)) (written : List UInt8) :
    (Sink.mk written none).putAll pieces = (.ok (), ⟨written ++ pieces.flatten, none⟩) := by
  induction pieces generalizing written with
  | nil => simp [putAll]
  | cons bs rest ih => simp [putAll, put_unlimited, ih]

end Sink

end DigestFilter
