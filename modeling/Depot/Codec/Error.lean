import Depot.Text.Hex
import Depot.Text.Quoted

/-!
This module contains what can be wrong with a compressed body.
-/

namespace Depot.Codec

inductive InflateFault where
  | blockType
  | storedLengths
  | symbolCounts
  | codeLengthsSet
  | lengthRepeat
  | noEndOfBlock
  | literalSet
  | distanceSet
  | literalCode
  | distanceCode
  | distanceTooFar
deriving DecidableEq, Repr

def InflateFault.message : InflateFault → String
  | blockType => "invalid block type"
  | storedLengths => "invalid stored block lengths"
  | symbolCounts => "too many length or distance symbols"
  | codeLengthsSet => "invalid code lengths set"
  | lengthRepeat => "invalid bit length repeat"
  | noEndOfBlock => "invalid code -- missing end-of-block"
  | literalSet => "invalid literal/lengths set"
  | distanceSet => "invalid distances set"
  | literalCode => "invalid literal/length code"
  | distanceCode => "invalid distance code"
  | distanceTooFar => "invalid distance too far back"

inductive ZstdFault where
  | unknownFrame
  | unsupportedFrame
  | windowTooLarge
  | dictionary
  | corrupt
  | literalsHeader
  | missingTable
  | sectionSize
  | checksum
deriving DecidableEq, Repr

def ZstdFault.message : ZstdFault → String
  | unknownFrame => "Unknown frame descriptor"
  | unsupportedFrame => "Unsupported frame parameter"
  | windowTooLarge => "Frame requires too much memory for decoding"
  | dictionary => "Dictionary mismatch"
  | corrupt => "Data corruption detected"
  | literalsHeader => "Header of Literals' block doesn't respect format specification"
  | missingTable => "Dictionary is corrupted"
  | sectionSize => "Src size is incorrect"
  | checksum => "Restored data doesn't match checksum"

inductive Fault where
  | notGzip (magic : List UInt8)
  | unknownMethod
  | crcMismatch (stored computed : UInt32)
  | lengthMismatch
  | truncated
  | inflate (fault : InflateFault)
  | zstd (fault : ZstdFault)
deriving DecidableEq, Repr

namespace Fault

def message : Fault → String
  | notGzip magic => "Not a gzipped file (" ++ Text.quotedBytes magic ++ ")"
  | unknownMethod => "Unknown compression method"
  | crcMismatch stored computed =>
    "CRC check failed 0x" ++ Text.hexNumeral stored.toNat ++ " != 0x"
      ++ Text.hexNumeral computed.toNat
  | lengthMismatch => "Incorrect length of data produced"
  | truncated => "Compressed file ended before the end-of-stream marker was reached"
  | inflate fault => "Error -3 while decompressing data: " ++ fault.message
  | zstd fault => "zstd decompress error: " ++ fault.message

def kind : Fault → String
  | notGzip _ | unknownMethod | crcMismatch _ _ | lengthMismatch => "BadGzipFile"
  | truncated => "EOFError"
  | inflate _ => "error"
  | zstd _ => "ZstdError"

end Fault

end Depot.Codec
