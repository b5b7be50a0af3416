/-!
This module contains the cyclic redundancy check of gzip members.
-/

namespace Depot.Checksum.Crc32

/-- One bit of the division by the reversed polynomial. -/
def bitStep (crc : UInt32) : UInt32 :=
  if crc &&& 1 = 1 then (crc >>> 1) ^^^ 0xedb88320 else crc >>> 1

def table : Array UInt32 :=
  (Array.range 256).map fun i => Nat.repeat bitStep 8 i.toUInt32

def run (bytes : ByteArray) : (left pos : Nat) → UInt32 → UInt32
  | 0, _, crc => crc
  | left + 1, pos, crc =>
    let index := (crc ^^^ (bytes.get! pos).toUInt32) &&& 0xff
    run bytes left (pos + 1) ((crc >>> 8) ^^^ table[index.toNat]!)

def compute (bytes : ByteArray) : UInt32 :=
  ~~~ run bytes bytes.size 0 0xffffffff

end Depot.Checksum.Crc32
