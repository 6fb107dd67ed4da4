import WebP.Alpha.Basic
import WebP.Alpha.Header
import WebP.BitStream
import WebP.Bytes
import WebP.Chunk.Calls
import WebP.Chunk.FixedSize
import WebP.Chunk.Header
import WebP.Chunk.Kind
import WebP.Chunk.Walker
import WebP.Config
import WebP.Container.Assembly
import WebP.Container.File
import WebP.Container.FrameContent
import WebP.Container.Header
import WebP.Cursor
import WebP.Cursor.Read
import WebP.Event
import WebP.Fault
import WebP.Flags
import WebP.FourCC
import WebP.Frame.Placement
import WebP.Geometry
import WebP.Image
import WebP.Lossless.Chain
import WebP.Lossless.Header
import WebP.Lossless.Transform
import WebP.Lossy.Detail
import WebP.Lossy.KeyFrame
import WebP.Note
import WebP.Outcome
import WebP.Parser
import WebP.Parser.Pool
import WebP.Pixel.Basic
import WebP.Pixel.Buffer
import WebP.Pixel.Downsample
import WebP.Pixel.Layout
import WebP.Pixel.Pool
import WebP.Playback.Canvas
import WebP.Playback.Codec
import WebP.Playback.Compositor
import WebP.Playback.Decoder
import WebP.Playback.Failure
import WebP.Status
import WebP.Text.Numeral
import WebP.Proofs.BitStream.HeaderReaders
import WebP.Proofs.BitStream.Source
import WebP.Proofs.BitStream.Takes
import WebP.Proofs.BitStream.Value
import WebP.Proofs.Bytes.LittleEndian
import WebP.Proofs.Bytes.Slices
import WebP.Proofs.Chunk.Calls
import WebP.Proofs.Chunk.FixedSize
import WebP.Proofs.Chunk.Range
import WebP.Proofs.Chunk.Tiling
import WebP.Proofs.Chunk.Written
import WebP.Proofs.Container.Acceptance
import WebP.Proofs.Container.Description
import WebP.Proofs.Container.Extension
import WebP.Proofs.Container.Extent
import WebP.Proofs.Container.FileSpec
import WebP.Proofs.Container.FirstFault
import WebP.Proofs.Container.Frames
import WebP.Proofs.Container.Incomplete
import WebP.Proofs.Container.RoundTrip
import WebP.Proofs.Container.Settings
import WebP.Proofs.Container.Transparency
import WebP.Proofs.Container.Usage
import WebP.Proofs.Cursor.History
import WebP.Proofs.Image.AnySource
import WebP.Proofs.Lossless.Header
import WebP.Proofs.Lossy.DetailRoundTrip
import WebP.Proofs.Lossy.KeyFrame
import WebP.Proofs.Lossy.Partitions
import WebP.Proofs.Parser.Latch
import WebP.Proofs.Parser.Pool
import WebP.Proofs.Pixel.Blending
import WebP.Proofs.Pixel.Checked
import WebP.Proofs.Pixel.Coordinates
import WebP.Proofs.Pixel.Pool
import WebP.Proofs.Pixel.SampleSize
import WebP.Proofs.Pixel.Shape
import WebP.Proofs.Playback.Agreement
import WebP.Proofs.Playback.Cells
import WebP.Proofs.Playback.CheckedDrawing
import WebP.Proofs.Playback.Compositing
import WebP.Proofs.Playback.Downsampled
import WebP.Proofs.Playback.DrawingRange
import WebP.Proofs.Playback.FrameLayout
import WebP.Proofs.Playback.FullFrame
import WebP.Proofs.Playback.History
import WebP.Proofs.Playback.LoneFrame
import WebP.Proofs.Playback.Sampling
import WebP.Proofs.Playback.Operations
import WebP.Proofs.Playback.Transcript
import WebP.Proofs.Playback.PoolIndependence
import WebP.Proofs.Playback.FailedRequests
import WebP.Proofs.Playback.Protocol
import WebP.Proofs.Playback.PoolBalance
