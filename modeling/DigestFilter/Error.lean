import DigestFilter.Bytes.Hex
import DigestFilter.Numeral
import DigestFilter.Text.Quoted
import DigestFilter.Text.Utf8

/-!
# What can go wrong

Every failing operation gives one `Error`. Its constructors and their causes say what happened;
`Error.message` is the one place that words it.
-/

namespace DigestFilter

inductive DeviceFault where
  | notFound
  | isDirectory
  | notDirectory
  | connectionReset
  | full
  | other (description : String)
  deriving DecidableEq, Repr

inductive FormatFault where
  | emptyIdentifier
  | oddIdentifier (text : String)
  | notHex (fault : Hex.Fault) (text : String)
  | shortIdentifier (size : Nat) (text : String)
  | emptyNumeral (alphabet : String)
  | foreignDigit (alphabet : String) (digit : UInt8) (text : String)
  | badNumeral (alphabet text : String)
  | wideNumeral (alphabet : String) (needed size : Nat)
  deriving DecidableEq, Repr

inductive ArgumentFault where
  | emptyDigest
  | emptyBitmap
  | longDigest (size : Nat)
  | unknownRadix (base : Nat)
  | unknownAlphabet (base : Nat)
  | unknownMerge (name : String)
  deriving DecidableEq, Repr

inductive ConfigFault where
  | unreadable
  | malformed
  | zeroCapacity
  | noDirectory
  deriving DecidableEq, Repr

inductive Freezable where
  | identifier
  | filter
  deriving DecidableEq, Repr

inductive Error where
  | format (fault : FormatFault)
  | frozen (kind : Freezable)
  | outOfBounds (index size : Nat)
  | argument (fault : ArgumentFault)
  | sizeMismatch (expected found : Nat)
  | truncated (expected found : Nat)
  | config (fault : ConfigFault)
  | device (fault : DeviceFault)
  deriving DecidableEq, Repr

/-- The length below which a parsed identifier is refused: one hash code. -/
def minParsedSize : Nat := 4

def Hex.Fault.message : Hex.Fault → String
  | .oddLength => "Odd number of digits"
  | .foreign byte position =>
    "Invalid character " ++ Quoted.byte byte ++ s!" at position {position}"

def FormatFault.message : FormatFault → String
  | .emptyIdentifier => "empty identifier string"
  | .oddIdentifier text =>
    s!"odd-length identifier string ({text.utf8ByteSize} chars): {text}"
  | .notHex fault text => fault.message ++ ": " ++ text
  | .shortIdentifier size text =>
    s!"identifier must be at least {minParsedSize} bytes, got {size}: {text}"
  | .emptyNumeral alphabet => s!"empty {alphabet} string"
  | .foreignDigit alphabet digit text =>
    s!"invalid {alphabet} digit " ++ Quoted.byte digit ++ s!" in {text}"
  | .badNumeral alphabet text => s!"invalid {alphabet} string: {text}"
  | .wideNumeral alphabet needed size =>
    s!"{alphabet} value needs {needed} bytes, more than {size}"

def ArgumentFault.message : ArgumentFault → String
  | .emptyDigest => "identifier digest must not be empty"
  | .emptyBitmap => "filter bitmap must not be empty"
  | .longDigest size => s!"digest of {size} bytes does not fit a 2-byte length header"
  | .unknownRadix base => s!"invalid radix {base}"
  | .unknownAlphabet base => s!"no encoder for base {base}"
  | .unknownMerge name => s!"unknown merge op: {name}"

def ConfigFault.message : ConfigFault → String
  | .unreadable => "Failed to read config"
  | .malformed => "Failed to parse config"
  | .zeroCapacity => "default_capacity must be positive"
  | .noDirectory => "Failed to create config dir"

def DeviceFault.message : DeviceFault → String
  | .notFound => "no such file or directory"
  | .isDirectory => "is a directory"
  | .notDirectory => "not a directory"
  | .connectionReset => "connection reset"
  | .full => "no room left"
  | .other description => description

def Freezable.name : Freezable → String
  | .identifier => "identifier"
  | .filter => "filter"

def Error.message : Error → String
  | .format fault => "Invalid format: " ++ fault.message
  | .frozen kind => "Can't modify frozen " ++ kind.name
  | .outOfBounds index size => s!"Index {index} is out of bounds (size {size})"
  | .argument fault => "Invalid argument: " ++ fault.message
  | .sizeMismatch expected found =>
    s!"Incompatible filter sizes: expected {expected} bytes, found {found}"
  | .truncated expected found => s!"Truncated input: expected {expected} bytes, found {found}"
  | .config fault => "Config error: " ++ fault.message
  | .device fault => "IO error: " ++ fault.message

instance {α : Type} [DecidableEq α] : DecidableEq (Except Error α)
  | .ok a, .ok b =>
    if h : a = b then isTrue (h ▸ rfl) else isFalse fun he => h (by injection he)
  | .error e, .error f =>
    if h : e = f then isTrue (h ▸ rfl) else isFalse fun he => h (by injection he)
  | .ok _, .error _ => isFalse fun he => by injection he
  | .error _, .ok _ => isFalse fun he => by injection he

end DigestFilter
