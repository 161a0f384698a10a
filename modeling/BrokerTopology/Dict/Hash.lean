/-!
# The identifier hash

Every dictionary picks the chain of a key by the sdbm hash of its UTF-8 bytes. The hash is a
recurrence over 64-bit words and wraps; it is cheap, depends on the order of the bytes, and does
not resist collisions, so a dictionary compares whole keys as well.
-/

namespace BrokerTopology

/-! ## The recurrence -/

/-- One step of the sdbm recurrence, `byte + 2⁶ h + 2¹⁶ h - h` on 64-bit words. -/
def sdbmStep (h : UInt64) (byte : UInt8) : UInt64 :=
  byte.toUInt64 + (h <<< 6) + (h <<< 16) - h

/-- The sdbm hash of a byte sequence, started from the word with all bits set. -/
def sdbmBytes (bytes : List UInt8) : UInt64 :=
  bytes.foldl sdbmStep 0xFFFFFFFFFFFFFFFF

/-- The sdbm hash of a string. The empty string has hash `0`, not the starting word. -/
def sdbm (s : String) : UInt64 :=
  if s.isEmpty then 0 else sdbmBytes s.toUTF8.toList

/-- The empty string has hash `0`. -/
theorem sdbm_empty : sdbm "" = 0 := by
  simp [sdbm]

/-- Reading one more byte at the end is one more step of the recurrence. -/
theorem sdbmBytes_append_singleton (bytes : List UInt8) (b : UInt8) :
    sdbmBytes (bytes ++ [b]) = sdbmStep (sdbmBytes bytes) b := by
  simp [sdbmBytes]

end BrokerTopology
