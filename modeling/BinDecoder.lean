import BinDecoder.Wire
import BinDecoder.Types
import BinDecoder.Decoder
import BinDecoder.Reads
import BinDecoder.Env
import BinDecoder.Reflect
import BinDecoder.Indirect
import BinDecoder.DecodeBin
import BinDecoder.Advance
import BinDecoder.Calls
import BinDecoder.Ops
import BinDecoder.Truncation
import BinDecoder.Safety
import BinDecoder.Encoding
import BinDecoder.Exact
import BinDecoder.RoundTrip
import BinDecoder.Locality
import BinDecoder.Prefix
import BinDecoder.Varint
import BinDecoder.Wide
import BinDecoder.Extension
import BinDecoder.Heap
import BinDecoder.Recursion
import BinDecoder.Termination
import BinDecoder.Reuse
import BinDecoder.Panics
import BinDecoder.Utf8
import BinDecoder.Layout
import BinDecoder.Typing
