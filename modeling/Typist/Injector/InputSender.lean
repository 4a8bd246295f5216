import Typist.Layout.WindowsUs
import Typist.Script

/-!
# Sent input records

A sender turns each native call into input records that are handed over together. The system may
accept fewer records than it was given, which makes the call fail.
-/

namespace Typist

/-- One keyboard input record. -/
structure InputRecord where
  virtualKey : UInt16
  scan : UInt16
  extended : Bool := false
  up : Bool := false
  unicode : Bool := false
  deriving DecidableEq, Repr

namespace InputRecord

/-- The flags of a record: 1 extended, 2 up, 4 Unicode. -/
def flags (r : InputRecord) : Nat := r.extended.toNat + 2 * r.up.toNat + 4 * r.unicode.toNat

end InputRecord

namespace InputSender

/-- The layout whose codes are sent. -/
def layout : Layout := .windowsUs

/-- The UTF-16 units of a character. -/
def units (c : Char) : List UInt16 :=
  let n := c.toNat
  if n < 0x10000 then [n.toUInt16]
  else
    let m := n - 0x10000
    [(0xD800 + m / 0x400).toUInt16, (0xDC00 + m % 0x400).toUInt16]

/-- The records of a native call: one for half a key press, and for a character without a key a
down and an up for each of its units. -/
def records : NativeCall → List InputRecord
  | .key code down => [⟨code, 0, Layout.extendedCodes.contains code, !down, false⟩]
  | .unicode c => (units c).flatMap fun u ↦ [⟨0, u, false, false, true⟩, ⟨0, u, false, true, true⟩]

/-- The answer to records of which the system accepted some. -/
def reply (accepted total : Nat) : NativeReply :=
  if accepted = total then .ok ()
  else .error ("SendInput accepted " ++ toString accepted ++ " of " ++ toString total ++ " events")

end InputSender

end Typist
