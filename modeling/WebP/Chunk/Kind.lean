import WebP.FourCC

/-!
# Kinds of chunks

A WebP file gives a meaning to nine chunk codes. Chunks with any other code are skipped, and a set
of kinds does not tell whether they are there.

## Main definitions

* `WebP.ChunkKind`: what a chunk holds.
* `WebP.KindSet`: a set of kinds that have a meaning.
-/

namespace WebP

/-- What a chunk holds. -/
inductive ChunkKind where
  | alpha
  | animation
  | frame
  | exif
  | iccp
  | lossy
  | lossless
  | canvas
  | xmp
  | unknown (name : FourCC)
deriving DecidableEq, Repr, Inhabited

namespace ChunkKind

/-- The kind that a code stands for. -/
def ofFourCC (name : FourCC) : ChunkKind :=
  if name = .alph then alpha
  else if name = .anim then animation
  else if name = .anmf then frame
  else if name = .exif then exif
  else if name = .iccp then iccp
  else if name = .vp8 then lossy
  else if name = .vp8l then lossless
  else if name = .vp8x then canvas
  else if name = .xmp then xmp
  else unknown name

/-- The code of a kind. -/
def name : ChunkKind → FourCC
  | alpha => .alph
  | animation => .anim
  | frame => .anmf
  | exif => .exif
  | iccp => .iccp
  | lossy => .vp8
  | lossless => .vp8l
  | canvas => .vp8x
  | xmp => .xmp
  | unknown name => name

def isKnown : ChunkKind → Bool
  | unknown _ => false
  | _ => true

/-- Whether the chunk holds the bitstream of an image. -/
def isImage : ChunkKind → Bool
  | lossy | lossless => true
  | _ => false

/-- The code of the kind of a code is that code. -/
@[simp] theorem name_ofFourCC (code : FourCC) : (ofFourCC code).name = code := by
  unfold ofFourCC
  repeat' split
  all_goals simp_all [name]

end ChunkKind

/-- A set of kinds of chunks. Those without a meaning are not in any. -/
structure KindSet where
  alpha : Bool := false
  animation : Bool := false
  frame : Bool := false
  exif : Bool := false
  iccp : Bool := false
  lossy : Bool := false
  lossless : Bool := false
  canvas : Bool := false
  xmp : Bool := false
deriving DecidableEq, Repr, Inhabited

namespace KindSet

/-- Whether a kind is in the set. -/
def has (kinds : KindSet) : ChunkKind → Bool
  | .alpha => kinds.alpha
  | .animation => kinds.animation
  | .frame => kinds.frame
  | .exif => kinds.exif
  | .iccp => kinds.iccp
  | .lossy => kinds.lossy
  | .lossless => kinds.lossless
  | .canvas => kinds.canvas
  | .xmp => kinds.xmp
  | .unknown _ => false

/-- The set with one more kind. -/
def insert (kinds : KindSet) : ChunkKind → KindSet
  | .alpha => { kinds with alpha := true }
  | .animation => { kinds with animation := true }
  | .frame => { kinds with frame := true }
  | .exif => { kinds with exif := true }
  | .iccp => { kinds with iccp := true }
  | .lossy => { kinds with lossy := true }
  | .lossless => { kinds with lossless := true }
  | .canvas => { kinds with canvas := true }
  | .xmp => { kinds with xmp := true }
  | .unknown _ => kinds

/-- A kind is in the set that another one was put into if it was before or is that one. -/
theorem has_insert_iff (kinds : KindSet) (new kind : ChunkKind) :
    (kinds.insert new).has kind ↔ kinds.has kind ∨ kind.isKnown ∧ kind = new := by
  cases new <;> cases kind <;> simp [has, insert, ChunkKind.isKnown]

end KindSet

end WebP
