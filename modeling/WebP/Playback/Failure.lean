import WebP.Fault

/-!
# Failures of playback

Playback fails because of a fault in the use of the decoder or in a file, or because the codec
failed, with an error of its own.
-/

namespace WebP

/-- A fault, or an error of a codec. -/
inductive Failure (ε : Type) where
  | fault (fault : Fault)
  | codec (error : ε)
deriving DecidableEq, Repr

namespace Failure

variable {ε : Type}

def status : Failure ε → Status
  | .fault f => f.status
  | .codec _ => .bitstreamError

/-- The failure with a remark on it. An error of a codec takes no remarks. -/
def noting (failure : Failure ε) (note : Note) : Failure ε :=
  match failure with
  | .fault f => .fault (f.noting note)
  | .codec e => .codec e

variable [ToString ε]

def message : Failure ε → String
  | .fault f => s!"Parse error: {f.cause.message}"
  | .codec e => s!"Pixel codec error: {e}"

/-- What the failure comes from, the nearest source first. A fault comes from a report, and that
from a cause, which reads the same. -/
def sources : Failure ε → List String
  | .fault f => [f.cause.message, f.cause.message]
  | .codec e => [toString e]

end Failure

end WebP
