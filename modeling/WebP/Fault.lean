import WebP.Note
import WebP.Status

/-!
# Faults

Reading a file fails for one of a few causes. A fault is a cause with the notes that were made
on it, from the place where it arose outwards. What a report shows besides the notes is left out, as
`WebP.Note` says.

## Main definitions

* `WebP.Cause`, with its wording `Cause.message` and its status `Cause.status`.
* `WebP.Fault`: a cause with notes.
-/

namespace WebP

/-- Why an input was not read or a frame was not decoded. -/
inductive Cause where
  /-- The chunks come in an order, or in a combination, that the format does not allow. -/
  | invalidChunkLayout
  /-- The input is not a WebP file. -/
  | invalidInput
  /-- A frame was asked for before one was selected. -/
  | noFrameSelected
  /-- The value of a field is out of its range. -/
  | invalidParam
  /-- The input ends inside a chunk or a field. -/
  | truncatedChunk
  /-- The bitstream of an image is not valid. -/
  | invalidBitstream
  /-- A lossless bitstream has a version other than zero. -/
  | unsupportedVersion (version : Nat)
  /-- A chunk that the file must have is not there. -/
  | missingRequiredChunk (name : FourCC)
  /-- The input is too short for the header of a file and of one chunk. -/
  | needMoreData
  /-- A frame was asked for while no input was attached. -/
  | noInputAttached
deriving DecidableEq, Repr, Inhabited

namespace Cause

def message : Cause → String
  | invalidChunkLayout => "Invalid chunk layout"
  | invalidInput => "Invalid input"
  | noFrameSelected => "No frame selected"
  | invalidParam => "Invalid parameter"
  | truncatedChunk => "Truncated chunk"
  | invalidBitstream => "Invalid bitstream"
  | unsupportedVersion version => s!"Unsupported VP8L version `{version}`"
  | missingRequiredChunk name => s!"Missing required `{name.text}` chunk"
  | needMoreData => "Need more data"
  | noInputAttached => "No input attached"

def status : Cause → Status
  | invalidChunkLayout | invalidInput | noFrameSelected => .parseError
  | invalidParam => .invalidParam
  | truncatedChunk => .truncatedData
  | invalidBitstream | unsupportedVersion _ => .bitstreamError
  | missingRequiredChunk _ => .missingData
  | needMoreData => .needMoreData
  | noInputAttached => .openError

end Cause

/-- A cause with the notes made on it, the first one made where it arose. -/
structure Fault where
  cause : Cause
  notes : List Note := []
deriving DecidableEq, Repr, Inhabited

namespace Fault

/-- The fault with one more note. -/
def noting (fault : Fault) (note : Note) : Fault :=
  { fault with notes := fault.notes ++ [note] }

def status (fault : Fault) : Status := fault.cause.status

/-- The wordings of the notes. -/
def trace (fault : Fault) : List String := fault.notes.map Note.text

/-- The message and all notes on one line. -/
def summary (fault : Fault) : String :=
  " | ".intercalate (fault.cause.message :: fault.trace)

@[simp] theorem cause_noting (fault : Fault) (note : Note) :
    (fault.noting note).cause = fault.cause := rfl

end Fault

end WebP
