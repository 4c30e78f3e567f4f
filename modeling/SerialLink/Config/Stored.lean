import SerialLink.Config.Basic
import SerialLink.OutBuffer
import SerialLink.Varint

/-!
# Stored settings

The binary form in which settings are kept: the fields in order, a small number or a flag as one
byte, a time as a variable-length word (`Varint.encode`). Loading ignores whatever follows, and
accepts only settings of the current version that can be used.

Reading goes in two steps. `parse?` knows the layout and nothing of what the fields mean; `load`
then looks at the version and asks `Config.validate`, in this order, so that settings of another
version are reported as such whatever else is wrong with them. `Proofs.Config.Stored` shows that
`load` undoes `store?` and characterises its three errors.
-/

namespace SerialLink

/-- Why stored settings cannot be loaded. -/
inductive LoadError where
  /-- The bytes are no stored form: `Config.parse?` gives up. -/
  | malformed
  /-- The settings are of another version. -/
  | version
  /-- The settings cannot be used, for the reason that `Config.validate` gives. -/
  | invalid (error : ConfigError)
  deriving DecidableEq

namespace Config

/-- A size that every `stored` form fits. -/
def maxStoredLength : Nat := 32

/-! ## Writing -/

def flagByte (flag : Bool) : UInt8 := if flag then 1 else 0

def stored (c : Config) : List UInt8 :=
  c.version :: flagByte c.transport :: c.window :: (Varint.encode c.retransmitTimeout ++
    c.maxRetransmits :: (Varint.encode c.ackInterval ++ Varint.encode c.idleTimeout))

/-- Writes the `stored` form into a buffer of `size` bytes; there is none if it does not fit. -/
def store? (c : Config) (size : Nat) : Option (List UInt8) :=
  let out := (OutBuffer.zeroed size).putAll c.stored
  if out.overflowed then none else some out.written

/-! ## Reading -/

def readByte : List UInt8 → Option (UInt8 × List UInt8)
  | [] => none
  | b :: rest => some (b, rest)

/-- Reads a flag, which is zero or one. -/
def readFlag : List UInt8 → Option (Bool × List UInt8)
  | [] => none
  | b :: rest => if b = 0 then some (false, rest) else if b = 1 then some (true, rest) else none

/-- Reads the fields, whatever their values, and ignores the bytes behind them. -/
def parse? (bytes : List UInt8) : Option Config := do
  let (version, bytes) ← readByte bytes
  let (transport, bytes) ← readFlag bytes
  let (window, bytes) ← readByte bytes
  let (retransmitTimeout, bytes) ← Varint.decode? bytes
  let (maxRetransmits, bytes) ← readByte bytes
  let (ackInterval, bytes) ← Varint.decode? bytes
  let (idleTimeout, _) ← Varint.decode? bytes
  return ⟨version, transport, window, retransmitTimeout, maxRetransmits, ackInterval, idleTimeout⟩

/-- Loads stored settings. The version is looked at before `validate` is asked. -/
def load (bytes : List UInt8) : Except LoadError Config :=
  match parse? bytes with
  | none => .error .malformed
  | some c =>
    if c.version ≠ currentVersion then .error .version
    else
      match c.validate with
      | .error e => .error (.invalid e)
      | .ok () => .ok c

end Config

end SerialLink
