import DigestFilter.Stream.Reader

/-!
# Channels

A channel is a reader of bytes that arrive at their own pace. It goes through its turns one by one,
and it can be made to fail at any byte.
-/

namespace DigestFilter

/-- One turn: so many interrupted calls, then one that hands over at most `surplus + 1` bytes. -/
structure Turn where
  interruptions : Nat := 0
  surplus : Nat

structure Channel where
  rest : List UInt8
  pace : Nat → Turn
  /-- How many bytes can still be handed over before the device fails, if it ever does. -/
  allowance : Option Nat := none
  turn : Nat := 0
  /-- Interruptions already reported in the current turn. -/
  interrupted : Nat := 0

namespace Channel

def pending (c : Channel) : Nat := (c.pace c.turn).interruptions - c.interrupted

def limit (want : Nat) (c : Channel) : Nat :=
  let atMost := min want ((c.pace c.turn).surplus + 1)
  match c.allowance with
  | none => atMost
  | some k => min atMost k

def advance (n : Nat) (c : Channel) : Channel :=
  { c with
    rest := c.rest.drop n
    allowance := c.allowance.map (· - n)
    turn := c.turn + 1
    interrupted := 0 }

def call (want : Nat) (c : Channel) : Delivery × Channel :=
  if 0 < c.pending then (.interrupted, { c with interrupted := c.interrupted + 1 })
  else if c.allowance = some 0 then (.failed .connectionReset, c)
  else
    let bs := c.rest.take (c.limit want)
    (.bytes bs, c.advance bs.length)

theorem pending_of_call_interrupted {want : Nat} {c c' : Channel}
    (h : c.call want = (.interrupted, c')) : c'.pending < c.pending := by
  unfold call at h
  split at h
  · next hp =>
    obtain ⟨-, rfl⟩ := Prod.mk.inj h
    simp only [pending] at hp ⊢
    omega
  · split at h <;> simp at h

instance : Reader Channel where
  call := call
  patience _ := pending
  patience_lt := pending_of_call_interrupted

end Channel

end DigestFilter
