import BucketStore.Text.Hex

namespace BucketStore.UploadId

open Text

def bytesOf (w : UInt64) : List UInt8 :=
  [56, 48, 40, 32, 24, 16, 8, 0].map (fun (shift : UInt64) => (w >>> shift).toUInt8)

/-- Sixteen random bytes in hexadecimal, with the bits that mark a random identifier of version 4. -/
def ofRandom (high low : UInt64) : String :=
  let high := (high &&& 0xffffffffffff0fff) ||| 0x4000
  let low := (low &&& 0x3fffffffffffffff) ||| 0x8000000000000000
  String.ofList (Hex.encode (bytesOf high ++ bytesOf low))

end BucketStore.UploadId
