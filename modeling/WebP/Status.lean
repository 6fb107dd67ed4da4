/-!
# Status codes

A status says in one stable number how reading a file or decoding a frame went.
-/

namespace WebP

/-- The outcome of reading a file or of one step of playback. -/
inductive Status where
  | ok
  /-- No input is attached. -/
  | openError
  /-- The order or the kinds of the chunks are not allowed. -/
  | parseError
  /-- The value of a field is out of its range. -/
  | invalidParam
  /-- The input ends inside a structure it has declared. -/
  | truncatedData
  /-- The bitstream of an image is not valid. -/
  | bitstreamError
  /-- A chunk or a frame that must be there never came. -/
  | missingData
  /-- The input is too short to begin. -/
  | needMoreData
deriving DecidableEq, Repr, Inhabited

namespace Status

/-- All statuses, each at the place of its code. -/
def all : List Status :=
  [.ok, .openError, .parseError, .invalidParam, .truncatedData, .bitstreamError, .missingData,
    .needMoreData]

/-- The stable number of a status. -/
def code : Status → Nat
  | .ok => 0
  | .openError => 1
  | .parseError => 2
  | .invalidParam => 3
  | .truncatedData => 4
  | .bitstreamError => 5
  | .missingData => 6
  | .needMoreData => 7

def text : Status → String
  | .ok => "ok"
  | .openError => "open error"
  | .parseError => "parse error"
  | .invalidParam => "invalid parameter"
  | .truncatedData => "truncated data"
  | .bitstreamError => "bitstream error"
  | .missingData => "missing data"
  | .needMoreData => "need more data"

def isOk (status : Status) : Bool := status == .ok

/-- Whether a longer input may be read where this one was not. -/
def isRecoverable : Status → Bool
  | .truncatedData | .needMoreData => true
  | _ => false

/-- The code of a status is its place among all of them. -/
theorem all_getElem?_code (status : Status) : all[status.code]? = some status := by
  cases status <;> rfl

end Status

end WebP
