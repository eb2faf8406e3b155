import DigestFilter.Filter.Basic

/-!
# Merging filters

Two filters of one size are combined byte by byte with a bitwise operation. `combine` takes a raw
bitmap, `absorb` another filter; both change their filter and so need it thawed. `merge` leaves
both of its filters alone and gives a new one.
-/

namespace DigestFilter

inductive MergeOp where
  | or
  | and
  | xor
  deriving DecidableEq, Repr

namespace MergeOp

instance : Inhabited MergeOp := ⟨.or⟩

def apply : MergeOp → UInt8 → UInt8 → UInt8
  | .or, a, b => a ||| b
  | .and, a, b => a &&& b
  | .xor, a, b => a ^^^ b

def name : MergeOp → String
  | .or => "or"
  | .and => "and"
  | .xor => "xor"

/-- Reads a name, a symbol or a set-theoretic word, in any case. -/
def ofName (text : String) : Except Error MergeOp :=
  match text.map Char.toLower with
  | "or" | "|" | "union" => .ok .or
  | "and" | "&" | "intersection" => .ok .and
  | "xor" | "^" => .ok .xor
  | _ => .error (.argument (.unknownMerge text))

end MergeOp

namespace Filter

variable (f g : Filter)

/-! ## In place -/

def combine (bs : List UInt8) (op : MergeOp) : Except Error Filter :=
  if f.frozen then .error (.frozen .filter)
  else if h : bs.length = f.size then
    .ok { f with
      bitmap := List.zipWith op.apply f.bitmap bs
      bitmap_ne_nil := ne_nil_of_length_eq (by simp [h, size]) f.bitmap_ne_nil }
  else .error (.sizeMismatch f.size bs.length)

def absorb (op : MergeOp) : Except Error Filter := f.combine g.bitmap op

def absorbOr : Except Error Filter := f.absorb g .or

def absorbAnd : Except Error Filter := f.absorb g .and

def absorbXor : Except Error Filter := f.absorb g .xor

/-! ## Into a new filter -/

def merge (op : MergeOp) : Except Error Filter := f.thawed.absorb g op

def or : Except Error Filter := f.merge g .or

/-- Holds whatever both filters hold, and perhaps more than a filter of the common elements. -/
def and : Except Error Filter := f.merge g .and

def xor : Except Error Filter := f.merge g .xor

instance : HOr Filter Filter (Except Error Filter) := ⟨or⟩

instance : HAnd Filter Filter (Except Error Filter) := ⟨and⟩

instance : HXor Filter Filter (Except Error Filter) := ⟨xor⟩

end Filter

end DigestFilter
