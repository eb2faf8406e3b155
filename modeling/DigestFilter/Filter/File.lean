import DigestFilter.Files.Program
import DigestFilter.Filter.Frame

/-!
# Filters in files

A filter file holds one filter, in the headed or in the plain form.
-/

namespace DigestFilter.Filter

def load (path : String) : Attempt Error Filter := do
  Attempt.ofExcept (decode (← Attempt.load .device path))

def save (f : Filter) (path : String) (withHeader : Bool) : Attempt Error Unit := do
  Attempt.store .device path (f.encode withHeader)
  Attempt.sync .device path

end DigestFilter.Filter
