import Mathlib.Data.List.Forall2
import WebP.Container.Header
import WebP.Proofs.Chunk.Written
import WebP.Proofs.Image.Acceptance

/-!
# Writing a file

A file is told by what it shows: a picture, or an extended header with a picture or an animation
behind it and optional metadata around. This file says how such a description is written, and
what a reader should find in the bytes.

## Main definitions

* `WebP.Picture`: an image, with an alpha plane in front of a lossy one.
* `WebP.FrameSpec`, `WebP.ExtendedSpec`, `WebP.FileSpec`: a frame of an animation, a file with
  an extended header, and any file.
* `WebP.FileSpec.bytes`: the file, written.
* `WebP.FileSpec.IsReadAs`: the description of the file that a reader should give.
-/

namespace WebP

/-! ### Pictures -/

/-- An image as a file holds it. Only a lossy one has an alpha plane beside it. -/
inductive Picture where
  | lossless (payload : Bytes)
  | lossy (alpha : Option Bytes) (payload : Bytes)

/-- An image without an alpha plane. -/
def Picture.plain : ImageFormat → Bytes → Picture
  | .lossy, payload => .lossy none payload
  | .lossless, payload => .lossless payload

namespace Picture

def format : Picture → ImageFormat
  | lossless _ => .lossless
  | lossy _ _ => .lossy

/-- The bitstream. -/
def payload : Picture → Bytes
  | lossless payload => payload
  | lossy _ payload => payload

/-- The alpha plane. -/
def alpha? : Picture → Option Bytes
  | lossless _ => none
  | lossy alpha _ => alpha

/-- The alpha plane is written in front of the bitstream. -/
def pieces (picture : Picture) : List Piece :=
  Piece.optional .alph picture.alpha? ++ [⟨picture.format.chunkName, picture.payload⟩]

/-- Where the alpha plane lies if the picture is written from an offset on. -/
def alphaSpan (picture : Picture) (offset : Nat) : Option Span :=
  picture.alpha?.map fun plane => ⟨offset + 8, offset + 8 + plane.length⟩

/-- Where the bitstream lies if the picture is written from an offset on. -/
def payloadSpan (picture : Picture) (offset : Nat) : Span :=
  let start := offset + (Piece.write (Piece.optional .alph picture.alpha?)).length + 8
  ⟨start, start + picture.payload.length⟩

/-- The headers of the image and of its alpha plane are accepted, and the image has the size. -/
structure IsValid (size : Size) (picture : Picture) : Prop where
  image : picture.format.Accepts picture.payload size
  alpha : ∀ plane, picture.alpha? = some plane → AlphaInfo.Accepts plane

end Picture

/-- A picture with where and how it is shown, and the offset from which on it is written. -/
structure Shot where
  place : Placement
  duration : Nat
  picture : Picture
  offset : Nat

/-- The picture is written in the bytes at the offset. -/
def Shot.StandsIn (data : Bytes) (shot : Shot) : Prop :=
  ∃ front back, data = front ++ (Piece.write shot.picture.pieces ++ back) ∧
    front.length = shot.offset

/-- The frame says of the bytes of a file what is shown there. -/
structure Shot.IsReadAs (config : Config) (data : Bytes) (shot : Shot) (frame : Frame) :
    Prop where
  place_eq : frame.toPlacement = shot.place
  duration_eq : frame.duration = shot.duration
  payload_eq : frame.payload = shot.picture.payloadSpan shot.offset
  alphaPayload_eq : frame.alphaPayload = shot.picture.alphaSpan shot.offset
  slice_payload : data.slice frame.payload = shot.picture.payload
  slice_alphaPayload : frame.alphaPayload.map data.slice = shot.picture.alpha?
  image : (ImageInfo.inspect config shot.picture.format shot.picture.payload).result =
    .ok frame.image
  alpha : Option.Rel (fun plane info => (AlphaInfo.inspect plane).result = .ok info)
    shot.picture.alpha? frame.alpha

namespace Shot

variable {shot : Shot} {data : Bytes}

/-- The bitstream is found in its span. -/
theorem StandsIn.slice_payload (h : shot.StandsIn data) :
    data.slice (shot.picture.payloadSpan shot.offset) = shot.picture.payload := by
  obtain ⟨front, back, rfl, hoffset⟩ := h
  rw [Picture.pieces, Piece.write_append, Piece.write_cons, Piece.write_nil, List.append_nil,
    Piece.bytes]
  dsimp only
  have hcut := Bytes.slice_of_append
    (front ++ (Piece.write (Piece.optional .alph shot.picture.alpha?) ++
      (ChunkHeader.mk shot.picture.format.chunkName shot.picture.payload.length).encode))
    shot.picture.payload (List.replicate (shot.picture.payload.length % 2) 0 ++ back)
  rw [List.length_append, List.length_append, ChunkHeader.length_encode, hoffset,
    ← Nat.add_assoc] at hcut
  simpa only [Picture.payloadSpan, List.append_assoc] using hcut

/-- The alpha plane is found in its span. -/
theorem StandsIn.slice_alpha (h : shot.StandsIn data) :
    (shot.picture.alphaSpan shot.offset).map data.slice = shot.picture.alpha? := by
  obtain ⟨front, back, rfl, hoffset⟩ := h
  rw [Picture.alphaSpan, Picture.pieces]
  cases shot.picture.alpha? with
  | none => rfl
  | some plane =>
    have hcut := Bytes.slice_of_append
      (front ++ (ChunkHeader.mk .alph plane.length).encode) plane
      (List.replicate (plane.length % 2) 0 ++
        (Piece.write [⟨shot.picture.format.chunkName, shot.picture.payload⟩] ++ back))
    rw [List.length_append, ChunkHeader.length_encode, hoffset] at hcut
    simpa only [Piece.optional, Option.map_some, Option.toList_some, List.cons_append,
      List.nil_append, Piece.write_cons, Piece.bytes, List.append_assoc, Option.some.injEq]
      using hcut

end Shot

/-! ### Frames -/

/-- A frame of an animation. -/
structure FrameSpec where
  rect : Rect
  /-- How long the frame is shown, in milliseconds. -/
  duration : Nat
  dispose : Disposal
  blend : BlendMode
  picture : Picture

namespace FrameSpec

/-- The header of the frame. -/
def header (frame : FrameSpec) : FrameHeader where
  rect := frame.rect
  duration := frame.duration
  flags :=
    { noBlending := frame.blend = .replace
      disposeBackground := frame.dispose = .background }

/-- The chunk of the frame. -/
def piece (frame : FrameSpec) : Piece :=
  ⟨.anmf, frame.header.encode ++ Piece.write frame.picture.pieces⟩

/-- The frame lies on the canvas, at even offsets, its duration can be stored, and its picture
is accepted and has its size. -/
structure IsValid (canvas : Size) (frame : FrameSpec) : Prop where
  x_even : frame.rect.x % 2 = 0
  y_even : frame.rect.y % 2 = 0
  within_canvas : frame.rect.FitsWithin canvas
  duration_lt : frame.duration < 2 ^ 24
  picture : frame.picture.IsValid frame.rect.size

/-- How a frame is shown whose chunk is written at an offset. A frame that is shown very shortly
gets the default duration. -/
def shot (config : Config) (index offset : Nat) (frame : FrameSpec) : Shot where
  place := ⟨index, frame.rect, frame.dispose, frame.blend⟩
  duration := if frame.duration < config.minFrameDelay then config.defaultFrameDelay
    else frame.duration
  picture := frame.picture
  offset := offset + 24

/-- How frames are shown whose chunks are written from an offset on. -/
def shots (config : Config) : (index offset : Nat) → List FrameSpec → List Shot
  | _, _, [] => []
  | index, offset, frame :: frames =>
    frame.shot config index offset ::
      shots config (index + 1) (offset + frame.piece.bytes.length) frames

end FrameSpec

/-! ### Files -/

/-- What stands behind an extended header. -/
inductive FileContent where
  | still (picture : Picture)
  | animation (header : AnimationHeader) (frames : List FrameSpec)

namespace FileContent

def isAnimation : FileContent → Bool
  | still _ => false
  | animation _ _ => true

/-- The header of the animation. -/
def animation? : FileContent → Option AnimationHeader
  | still _ => none
  | animation header _ => some header

/-- A picture is accepted and covers the canvas; an animation has frames on the canvas, and its
loop count can be stored. -/
def IsValid (canvas : Size) : FileContent → Prop
  | still picture => picture.IsValid canvas
  | animation header frames =>
    header.loopCount < 2 ^ 16 ∧ frames ≠ [] ∧ ∀ frame ∈ frames, frame.IsValid canvas

def pieces : FileContent → List Piece
  | still picture => picture.pieces
  | animation header frames => ⟨.anim, header.encode⟩ :: frames.map FrameSpec.piece

end FileContent

/-- A picture covers its canvas for as long as the file is shown. -/
def Picture.stillShot (canvas : Size) (picture : Picture) (offset : Nat) : Shot where
  place := ⟨0, .ofSize canvas, .keep, .replace⟩
  duration := 0
  picture := picture
  offset := offset

/-- A file with an extended header. -/
structure ExtendedSpec where
  canvas : Size
  /-- Whether alpha is announced, which nobody checks. -/
  alpha : Bool
  profile : Option Bytes
  content : FileContent
  exif : Option Bytes
  xmp : Option Bytes

namespace ExtendedSpec

/-- The extended header announces what is written. -/
def header (file : ExtendedSpec) : CanvasHeader where
  flags :=
    { iccp := file.profile.isSome
      alpha := file.alpha
      exif := file.exif.isSome
      xmp := file.xmp.isSome
      animated := file.content.isAnimation }
  canvas := file.canvas

/-- The chunks in front of the content. -/
def leading (file : ExtendedSpec) : List Piece :=
  ⟨.vp8x, file.header.encode⟩ :: Piece.optional .iccp file.profile

/-- The chunks behind the content. -/
def trailing (file : ExtendedSpec) : List Piece :=
  Piece.optional .exif file.exif ++ Piece.optional .xmp file.xmp

end ExtendedSpec

/-- A file: an image alone, whose size is that of the canvas, or an extended header and what it
announces. -/
inductive FileSpec where
  | image (canvas : Size) (format : ImageFormat) (payload : Bytes)
  | extended (file : ExtendedSpec)

namespace FileSpec

def canvas : FileSpec → Size
  | image canvas _ _ => canvas
  | extended file => file.canvas

/-- The chunks of the file. -/
def pieces : FileSpec → List Piece
  | image _ format payload => (Picture.plain format payload).pieces
  | extended file => file.leading ++ (file.content.pieces ++ file.trailing)

theorem exists_pieces_eq_cons (file : FileSpec) :
    ∃ piece pieces, file.pieces = piece :: pieces := by
  rw [← List.ne_nil_iff_exists_cons]
  cases file with
  | image canvas format payload => exact List.append_ne_nil_of_right_ne_nil _ (List.cons_ne_nil _ _)
  | extended file => exact List.cons_ne_nil _ _

/-- The file, written. -/
def bytes (file : FileSpec) : Bytes :=
  (ChunkHeader.mk .riff (4 + (Piece.write file.pieces).length)).encode ++
    (FourCC.webp.bytes ++ Piece.write file.pieces)

/-- The still picture of the file, or its animation. -/
def content : FileSpec → FileContent
  | image _ format payload => .still (.plain format payload)
  | extended file => file.content

/-- The canvas can be stored, the content is accepted and fits it, and the file is not too
long. -/
structure IsValid (file : FileSpec) : Prop where
  canvas : file.canvas.IsStorable
  content : file.content.IsValid file.canvas
  length_le : 4 + (Piece.write file.pieces).length ≤ 2 ^ 32 - 9

/-- Where the chunks of the content begin. -/
def contentOffset : FileSpec → Nat
  | image _ _ _ => 12
  | extended file => 12 + (Piece.write file.leading).length

/-- What the file shows, frame by frame. -/
def shots (config : Config) (file : FileSpec) : List Shot :=
  match file.content with
  | .still picture => [picture.stillShot file.canvas file.contentOffset]
  | .animation _ frames => FrameSpec.shots config 0 (file.contentOffset + 14) frames

/-- What the file contains, if `alpha` says whether one of its frames has alpha. -/
def features (alpha : Bool) : FileSpec → Features
  | image _ _ _ => { alpha }
  | extended file =>
    { animation := file.content.isAnimation
      alpha := alpha || file.alpha
      exif := file.exif.isSome
      iccp := file.profile.isSome
      xmp := file.xmp.isSome }

/-- The header says of the bytes of the file what was written. -/
structure IsReadAs (config : Config) (file : FileSpec) (header : FileHeader) : Prop where
  canvas_eq : header.canvas = file.canvas
  frames : List.Forall₂ (Shot.IsReadAs config file.bytes) (file.shots config) header.frames
  features_eq : header.features = file.features (header.frames.any Frame.hasAlpha)
  loopCount_eq : header.loopCount = match file.content.animation? with
    | none => .notSpecified
    | some animation => .ofHeader animation.loopCount
  background_eq : header.background = file.content.animation?.map AnimationHeader.background
  chunks_eq : header.chunks = (Piece.chunks 12 file.pieces).map Chunk.entry
  fileLength_eq : header.fileLength = file.bytes.length

/-! ### Where things are written -/

/-- The content is written at its offset. -/
theorem exists_bytes_eq (file : FileSpec) :
    ∃ front back, file.bytes = front ++ (Piece.write file.content.pieces ++ back) ∧
      front.length = file.contentOffset := by
  obtain ⟨riff, hriff, hfile⟩ : ∃ riff : Bytes, riff.length = 12 ∧
      file.bytes = riff ++ Piece.write file.pieces := by
    refine ⟨_, ?_, (List.append_assoc _ _ _).symm⟩
    rw [List.length_append, ChunkHeader.length_encode, FourCC.length_bytes]
  cases file with
  | image canvas format payload =>
    refine ⟨riff, [], ?_, hriff⟩
    rw [hfile, List.append_nil]
    rfl
  | extended file =>
    refine ⟨riff ++ Piece.write file.leading, Piece.write file.trailing, ?_, ?_⟩
    · rw [hfile, pieces, Piece.write_append, Piece.write_append, content, List.append_assoc]
    · rw [List.length_append, hriff, contentOffset]

end FileSpec

theorem FrameSpec.standsIn_of_mem_shots {config : Config} {data front back : Bytes}
    {frames : List FrameSpec} {index offset : Nat} {shot : Shot}
    (hdata : data = front ++ (Piece.write (frames.map piece) ++ back))
    (hoffset : front.length = offset) (h : shot ∈ shots config index offset frames) :
    shot.StandsIn data := by
  induction frames generalizing index offset front with
  | nil => exact absurd h List.not_mem_nil
  | cons frame frames ih =>
    rw [List.map_cons, Piece.write_cons] at hdata
    rcases List.mem_cons.mp h with rfl | h
    · -- the picture stands behind the two headers of the frame
      refine ⟨front ++ ((ChunkHeader.mk .anmf frame.piece.payload.length).encode ++
        frame.header.encode), List.replicate (frame.piece.payload.length % 2) 0 ++
          (Piece.write (frames.map piece) ++ back), ?_, ?_⟩
      · rw [hdata, Piece.bytes]
        simp only [piece, shot, List.append_assoc]
      · rw [List.length_append, List.length_append, ChunkHeader.length_encode,
          FrameHeader.length_encode, hoffset]
        rfl
    · have hrest : data = (front ++ frame.piece.bytes) ++
          (Piece.write (frames.map piece) ++ back) := by
        rw [hdata, List.append_assoc, List.append_assoc]
      refine ih hrest ?_ h
      rw [List.length_append, hoffset]

/-- Each picture is written at its offset. -/
theorem FileSpec.standsIn_of_mem_shots {config : Config} {file : FileSpec} {shot : Shot}
    (h : shot ∈ file.shots config) : shot.StandsIn file.bytes := by
  obtain ⟨front, back, hbytes, hoffset⟩ := file.exists_bytes_eq
  rw [shots] at h
  cases hcontent : file.content with
  | still picture =>
    rw [hcontent] at h hbytes
    obtain rfl := List.mem_singleton.mp h
    exact ⟨front, back, hbytes, hoffset⟩
  | animation header frames =>
    rw [hcontent] at h hbytes
    have hcut : file.bytes = (front ++ (Piece.mk .anim header.encode).bytes) ++
        (Piece.write (frames.map FrameSpec.piece) ++ back) := by
      rw [hbytes, FileContent.pieces, Piece.write_cons]
      simp only [List.append_assoc]
    refine FrameSpec.standsIn_of_mem_shots hcut ?_ h
    rw [List.length_append, Piece.length_bytes, AnimationHeader.length_encode, hoffset]
    rfl

end WebP
