import Trawl.Content.Http.Scan

/-!
# Unusable content

The reasons why bytes cannot be split into pieces of content.
-/

namespace Trawl.Content

/-- The encodings that content can be compressed with. -/
inductive Compressed where
  | gzip
  | deflate
  deriving DecidableEq, Repr

/-- The name of an encoding. -/
def Compressed.name : Compressed → String
  | .gzip => "gzip"
  | .deflate => "deflate"

/-- What is wrong with a head, in words. -/
def Http.HeadFault.message : Http.HeadFault → String
  | .headerName => "invalid header name"
  | .headerValue => "invalid header value"
  | .newLine => "invalid new line"
  | .status => "invalid response status"
  | .token => "invalid token"
  | .tooManyHeaders => "too many headers"
  | .version => "invalid HTTP version"

/-- Why content cannot be split. -/
inductive Fault where
  | decompression (encoding : Compressed)
  | tooLarge (limit : Nat)
  | head (fault : Http.HeadFault)
  | incompleteHead
  | invalidLength
  | truncatedBody (expected available : Nat)
  | malformedChunks
  deriving DecidableEq, Repr

/-- The wording of a fault. -/
def Fault.message : Fault → String
  | .decompression encoding => encoding.name ++ " decompression failed"
  | .tooLarge limit => "decompressed output exceeds " ++ toString limit ++ " bytes"
  | .head fault => "http parse error: " ++ fault.message
  | .incompleteHead => "http header block is incomplete"
  | .invalidLength => "invalid content-length header"
  | .truncatedBody expected available =>
    "http body truncated: expected " ++ toString expected ++ " bytes, found " ++ toString available
  | .malformedChunks => "malformed chunked body"

end Trawl.Content
