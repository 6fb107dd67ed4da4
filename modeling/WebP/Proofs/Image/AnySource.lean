import WebP.Image
import WebP.Proofs.BitStream.HeaderReaders

/-!
# Images from any source of bits

What is known of an image is read from its headers, and these are read from bits. The bits may come
from any source that is lawful: the headers of an image and of an alpha plane have the same outcome
as on a bit stream, with the same log. Nothing else in a file is read from bits, so no file is
parsed in another way with another source.

## Main definitions

* `WebP.BitSource.losslessHeader`, `WebP.BitSource.lossyDetail`: headers from a source of bits.
* `WebP.BitSource.inspect`, `WebP.BitSource.inspectAlpha`: the headers of an image and of an alpha
  plane from a source of bits.

## Main results

* `WebP.BitSource.IsLawful.inspect_eq`, `WebP.BitSource.IsLawful.inspectAlpha_eq`: the source makes
  no difference.
-/

namespace WebP

open Outcome (emit)

/-! ### Headers from a source -/

namespace BitSource

variable {σ : Type} (source : BitSource σ)

/-- A reader of the bits from the cursor on, with the state that it starts in; the cursor stays. -/
def bits (order : BitOrder) : Cursor.Read (BitReader σ × σ) := fun cursor =>
  (pure (source.reader cursor.rest.length, source.ofBytes order cursor.rest), cursor)

/-- Reads the header of a lossless image and moves past the bytes that its bits touch. -/
def losslessHeader : Cursor.Read LosslessHeader := do
  let available ← .remaining
  .ensure (LosslessHeader.encodedLength ≤ available) .truncatedChunk [.readingChunk .vp8l]
  let first ← .nat 1
  .ensure (first = LosslessHeader.signature) .invalidParam
    [.invalidSignature first, .readingChunk .vp8l]
  let (reader, s) ← source.bits .leastSignificantFirst
  let ((size, alphaIsUsed, version), s) ← .lift (.ofExcept (reader.losslessFields s))
  .ensure (version = 0) (.unsupportedVersion version) []
  let (transforms, s) ← .lift ((reader.chain s).outcome.noting (.readingChunk .vp8l))
  let (count, _) ← .lift (.ofExcept (reader.bytesConsumed s))
  let _ ← .bytes count
  return { size, alphaIsUsed, transforms }

/-- Reads the transforms behind the first byte of an alpha plane. -/
def alphaTransforms (compression : AlphaCompression) : Cursor.Read (List Transform) := do
  match compression with
  | .uncompressed => return []
  | .lossless =>
    let (reader, s) ← source.bits .leastSignificantFirst
    let (transforms, _) ← .lift ((reader.chain s).outcome.noting (.readingChunk .alph))
    return transforms

/-- The detail in a payload whose header has been read. -/
def lossyDetail (payload : Bytes) (header : KeyFrameHeader) : Except Fault LossyDetail :=
  let data := payload.drop KeyFrameHeader.encodedLength
  ((source.reader data.length).lossyDetail data header.partitionLength).run'
    (source.ofBytes .mostSignificantFirst data)

/-- The detail of a lossy image. A detail that cannot be read is left out. -/
def lossyDetail? (payload : Bytes) (header : KeyFrameHeader) : Parsed (Option LossyDetail) :=
  match source.lossyDetail payload header with
  | .ok detail => pure (some detail)
  | .error fault => do
    emit (.lossyDetailOmitted fault)
    return none

/-- The headers of a lossy image. -/
def inspectLossy (config : Config) (payload : Bytes) : Parsed ImageInfo := do
  let header ← KeyFrameHeader.read.ofStart payload
  emit (.lossyImage header.size header.profile header.partitionLength)
  let lossy ← if config.inspectLossyDetail then source.lossyDetail? payload header else pure none
  return ⟨header.size, false, .lossy, lossy, []⟩

/-- The headers of a lossless image. -/
def inspectLossless (payload : Bytes) : Parsed ImageInfo := do
  let header ← source.losslessHeader.ofStart payload
  emit (.losslessImage header.size header.alphaIsUsed header.transforms.length)
  return ⟨header.size, header.alphaIsUsed, .lossless, none, header.transforms⟩

/-- The headers of an image of a format. -/
def inspect (config : Config) (format : ImageFormat) (payload : Bytes) : Parsed ImageInfo :=
  let info := match format with
    | .lossy => source.inspectLossy config payload
    | .lossless => source.inspectLossless payload
  info.noting (.readingChunk format.chunkName)

/-- Reads the headers of an alpha plane. -/
def alphaInfo : Cursor.Read AlphaInfo := do
  let header ← AlphaHeader.read
  let transforms ← source.alphaTransforms header.compression
  .lift (emit (.alphaPlane header))
  return { header with transforms }

/-- The headers of an alpha plane. -/
def inspectAlpha (payload : Bytes) : Parsed AlphaInfo := source.alphaInfo.ofStart payload

end BitSource

/-! ### Related values behind the same cursor -/

namespace Cursor.Read

variable {α α' β : Type} {Q : α → α' → Prop}

/-- Outcomes that are the same up to a relation are the same if what follows does not tell related
values apart. -/
theorem lift_bind_eq {left : Parsed α} {right : Parsed α'} {next : α → Read β}
    {next' : α' → Read β} (hlog : left.log = right.log)
    (hresult : SameUpTo Q left.result right.result) (hnext : ∀ a b, Q a b → next a = next' b) :
    (lift left >>= next) = (lift right >>= next') := by
  obtain ⟨result, log⟩ := left
  obtain ⟨result', log'⟩ := right
  obtain rfl : log = log' := hlog
  funext cursor
  change run (lift ⟨result, log⟩ >>= next) cursor = run (lift ⟨result', log⟩ >>= next') cursor
  rw [run_bind, run_bind]
  cases hresult with
  | error fault => rfl
  | ok h =>
    dsimp only [run, lift]
    rw [hnext _ _ h]

end Cursor.Read

/-- A run of transforms and a chain that is like it are the same if what follows does not tell the
states apart. -/
theorem BitReader.TransformRun.IsLike.lift_bind_eq {σ β : Type} {R : σ → BitStream → Prop}
    {run : BitReader.TransformRun σ} {chain : Chain} (h : run.IsLike R chain) (note : Note)
    {next : List Transform × σ → Cursor.Read β} {next' : List Transform × BitStream → Cursor.Read β}
    (hnext : ∀ transforms s t, R s t → next (transforms, s) = next' (transforms, t)) :
    (Cursor.Read.lift (run.outcome.noting note) >>= next) =
      (Cursor.Read.lift (chain.outcome.noting note) >>= next') := by
  obtain ⟨hlog, hresult⟩ := h.outcome
  refine Cursor.Read.lift_bind_eq hlog (hresult.noting note) ?_
  rintro ⟨transforms, s⟩ ⟨_, t⟩ ⟨rfl, hst⟩
  exact hnext transforms s t hst

/-! ### The source makes no difference -/

namespace BitSource

variable {σ β : Type} {source : BitSource σ} {shows : BitOrder → Nat → List Bool → σ → Prop}

/-- What does not tell a source from the bit stream that it shows is the same behind both. -/
theorem HandsOut.bits_bind_eq (h : source.HandsOut shows) (order : BitOrder)
    {next : BitReader σ × σ → Cursor.Read β} {next' : BitStream → Cursor.Read β}
    (hnext : ∀ byteLength s stream, ShowsStream shows byteLength s stream →
      next (source.reader byteLength, s) = next' stream) :
    (source.bits order >>= next) = (Cursor.Read.bits order >>= next') := by
  funext cursor
  have hsame := hnext _ _ _ (h.showsStream_ofBytes order cursor.rest)
  change (source.bits order >>= next).run cursor = (Cursor.Read.bits order >>= next').run cursor
  rw [Cursor.Read.run_bind, Cursor.Read.run_bind]
  dsimp only [Cursor.Read.run, bits, Cursor.Read.bits, Outcome.result_pure, Outcome.log_pure]
  rw [hsame]
  rfl

theorem HandsOut.losslessHeader_eq (h : source.HandsOut shows) :
    source.losslessHeader = LosslessHeader.read := by
  refine bind_congr fun available => bind_congr fun _ => ?_
  refine bind_congr fun first => bind_congr fun _ => ?_
  refine h.bits_bind_eq .leastSignificantFirst fun byteLength s stream hshows => ?_
  have hmatches := h.matches_reader byteLength
  refine Cursor.Read.lift_bind_eq rfl (hmatches.losslessFields.sameUpTo hshows) ?_
  rintro ⟨⟨size, alphaIsUsed, version⟩, s⟩ ⟨_, stream⟩ ⟨rfl, hshows⟩
  refine bind_congr fun _ => (hmatches.chain hshows).lift_bind_eq _ ?_
  intro transforms s stream hshows
  -- of a bit stream the number of bytes is not asked; it is computed from the state
  change _ = Cursor.Read.lift (.ofExcept (BitStream.reader.bytesConsumed stream)) >>= fun count =>
    Cursor.Read.bytes count.1 >>= fun _ => pure _
  refine Cursor.Read.lift_bind_eq rfl (hmatches.bytesConsumed.sameUpTo hshows) ?_
  rintro ⟨count, _⟩ ⟨_, _⟩ ⟨rfl, _⟩
  rfl

theorem HandsOut.alphaTransforms_eq (h : source.HandsOut shows) :
    source.alphaTransforms = AlphaInfo.readTransforms := by
  funext compression
  cases compression with
  | uncompressed => rfl
  | lossless =>
    refine h.bits_bind_eq .leastSignificantFirst fun byteLength s stream hshows => ?_
    exact ((h.matches_reader byteLength).chain hshows).lift_bind_eq _ fun _ _ _ _ => rfl

theorem HandsOut.lossyDetail_eq (h : source.HandsOut shows) :
    source.lossyDetail = LossyDetail.read := by
  funext payload header
  have hmatches := h.matches_reader (payload.drop KeyFrameHeader.encodedLength).length
  exact (hmatches.lossyDetail _ header.partitionLength).run'_eq
    (h.showsStream_ofBytes .mostSignificantFirst _)

/-- **Images.** The headers of an image have the same outcome from any lawful source. -/
theorem IsLawful.inspect_eq (h : source.IsLawful) : source.inspect = ImageInfo.inspect := by
  obtain ⟨shows, h⟩ := h
  funext config format payload
  cases format with
  | lossy =>
    have hdetail : source.lossyDetail? = ImageInfo.lossyDetail := by
      funext payload header
      rw [lossyDetail?, h.lossyDetail_eq]
      rfl
    have hlossy : source.inspectLossy = ImageInfo.inspectLossy := by
      funext config payload
      rw [inspectLossy, hdetail, ImageInfo.inspectLossy]
    rw [inspect, hlossy, ImageInfo.inspect]
  | lossless =>
    have hlossless : source.inspectLossless = ImageInfo.inspectLossless := by
      funext payload
      rw [inspectLossless, h.losslessHeader_eq, ImageInfo.inspectLossless]
    rw [inspect, hlossless, ImageInfo.inspect]

/-- **Alpha planes.** The headers of an alpha plane have the same outcome from any lawful source. -/
theorem IsLawful.inspectAlpha_eq (h : source.IsLawful) :
    source.inspectAlpha = AlphaInfo.inspect := by
  obtain ⟨shows, h⟩ := h
  have hinfo : source.alphaInfo = AlphaInfo.read := by
    rw [alphaInfo, h.alphaTransforms_eq, AlphaInfo.read]
  funext payload
  rw [inspectAlpha, hinfo, AlphaInfo.inspect]

end BitSource

end WebP
