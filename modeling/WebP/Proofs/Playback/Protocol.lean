import WebP.Proofs.Container.Acceptance
import WebP.Proofs.Playback.FailedRequests

/-!
# The protocol of a decoder

A decoder is attached to a file, moves from frame to frame and is asked for the selected one, in
any order and as often as one likes. Its transcript alone says which file is attached and how
often the next frame was selected since then, and that settles which frame is selected, whether
a request for it fails, and why.

## Main definitions

* `WebP.Course.index`: the frame that a transcript says is selected.
* `WebP.Decoder.IsOn`: a decoder has the file and the frame that its transcript says.
* `WebP.Decoder.FollowsProtocol`: what such a decoder does next.

## Main results

* `WebP.Decoder.IsOn.apply`: what an operation preserves.
* `WebP.Decoder.followsProtocol_run`: every decoder follows the protocol after any operations.
-/

namespace WebP

/-- The files that are attached have been parsed, not necessarily from the bytes beside them. -/
def Operation.AttachesParsed : Operation → Prop
  | .attach header _ => ∃ parsing input, (parse parsing input).result = .ok header
  | _ => True

/-- There is a frame in every accepted file. -/
theorem frameCount_ne_zero_of_parse {parsing : Config} {input : Bytes} {header : FileHeader}
    (accepted : (parse parsing input).result = .ok header) : header.frameCount ≠ 0 := by
  obtain ⟨-, chunks, file, -, hgrammar, hdescribes, rfl⟩ := describes_of_parse accepted
  exact mt List.length_eq_zero_iff.mp (hdescribes.frames_ne_nil_iff.mpr hgrammar.framed)

namespace Source.BelongsTo

variable {config : DecoderConfig} {source : Source}

theorem size_eq (h : source.BelongsTo config) {compositor : Compositor}
    (animated : source.compositor = some compositor) :
    compositor.size = downsampledSize source.header.canvas config.sampleSize := by
  have hemptied := h.emptied_eq
  rw [animated, Option.map_some, Decoder.compositorFor] at hemptied
  split at hemptied
  · exact congrArg Compositor.size (Option.some.inj hemptied)
  · cases hemptied

/-- What is shown of a file has the size of its canvas, made smaller. -/
theorem hasShape_view (h : source.BelongsTo config) (image : PixelBuffer) {output : PixelBuffer}
    {layout : ColorLayout}
    (shape : output.HasShape (downsampledSize source.header.canvas config.sampleSize).width
      (downsampledSize source.header.canvas config.sampleSize).height layout) :
    (source.view config.sampleSize image output).HasShape
      (downsampledSize source.header.canvas config.sampleSize).width
      (downsampledSize source.header.canvas config.sampleSize).height layout := by
  unfold Source.view
  cases hcompositor : source.compositor with
  | none => exact shape.downsampleInto image config.sampleSize
  | some compositor =>
    have hcanvas := (h.wellShaped compositor hcompositor).currentCanvas
    rw [← h.size_eq hcompositor, ← shape.layout_eq]
    exact hcanvas.copyInto output

end Source.BelongsTo

namespace Course

/-- The selected frame: the frames are counted round and round, from the first one on. -/
def index (course : Course) : Option Nat :=
  course.file.bind fun (header, _) =>
    if course.advances = 0 then none else some ((course.advances - 1) % header.frameCount)

theorem index_eq_none_of_advances {course : Course} (start : course.advances = 0) :
    course.index = none := by
  simp only [index, start, if_true, Option.bind_fun_none]

/-- The frame of the file is the selected one. -/
def Selects (course : Course) (header : FileHeader) (data : Bytes) (frame : Frame) : Prop :=
  course.file = some (header, data) ∧ course.index.bind header.frame? = some frame

end Course

namespace Decoder

variable {σ π ε : Type}

/-- The file is attached and the frame is selected that the course says. -/
structure IsOn (course : Course) (decoder : Decoder σ π) : Prop where
  file_eq : decoder.source.map (fun source => (source.header, source.data)) = course.file
  index_eq : decoder.index = course.index
  frameCount_ne_zero : ∀ file ∈ course.file, file.1.frameCount ≠ 0

/-- What a decoder does that has come to the end of a course. -/
structure FollowsProtocol [BufferPool π] [ToString ε] (codec : Codec σ ε) (course : Course)
    (decoder : Decoder σ π) : Prop where
  file_eq : decoder.source.map (fun source => (source.header, source.data)) = course.file
  index_eq : decoder.index = course.index
  /-- A selected frame is one of the attached file. -/
  exists_of_index : ∀ i, decoder.index = some i →
    ∃ header data, course.file = some (header, data) ∧ i < header.frameCount
  /-- A file is attached unless bytes of it are missing. -/
  attach_error_iff : ∀ header data,
    (∃ fault, (decoder.attach header data).1.result = .error fault) ↔
      data.length < header.fileLength
  /-- If bytes are missing no file is attached any more. -/
  detached_of_short : ∀ header data, data.length < header.fileLength →
    (decoder.attach header data).2.source = none ∧ (decoder.attach header data).2.index = none
  /-- A request fails for want of a file. -/
  detached_iff :
    (∃ notes, (decoder.nextFrame codec).1.result = .error (.fault ⟨.noInputAttached, notes⟩)) ↔
      course.file = none
  /-- A request fails for want of a frame. -/
  unselected_iff :
    (∃ notes, (decoder.nextFrame codec).1.result = .error (.fault ⟨.noFrameSelected, notes⟩)) ↔
      course.file.isSome ∧ course.advances = 0
  /-- A request fails because the codec does. -/
  undecoded_iff : ∀ e, (decoder.nextFrame codec).1.result = .error (.codec e) ↔
    ∃ header data frame, course.Selects header data frame ∧
      (decoder.decoded codec data frame).1 = .error e
  /-- A frame is returned. -/
  shown_iff : (∃ output, (decoder.nextFrame codec).1.result = .ok output) ↔
    ∃ header data frame, course.Selects header data frame ∧
      (decoder.decoded codec data frame).1 = .ok ()
  /-- It has the size of the canvas, made smaller, and the layout that the decoder shows. -/
  hasShape : ∀ output, (decoder.nextFrame codec).1.result = .ok output →
    ∃ header data, course.file = some (header, data) ∧
      output.HasShape (downsampledSize header.canvas decoder.config.sampleSize).width
        (downsampledSize header.canvas decoder.config.sampleSize).height decoder.layout

namespace IsOn

variable {course : Course} {decoder : Decoder σ π}

/-- A course begins, and begins anew, without a file. -/
theorem of_detached (attached : decoder.source = none) (selected : decoder.index = none) :
    decoder.IsOn {} := by
  refine ⟨?_, selected, ?_⟩
  · rw [attached, Option.map_none]
  · rintro _ ⟨⟩

/-- Selecting the next frame is selecting one more. -/
theorem advance (h : decoder.IsOn course) :
    decoder.advance.IsOn { course with advances := course.advances + 1 } := by
  refine ⟨by rw [source_advance, h.file_eq], ?_, h.frameCount_ne_zero⟩
  have hheader : decoder.header? = course.file.map (·.1) := by
    rw [← h.file_eq, Option.map_map]
    rfl
  rw [advance_eq, hheader, h.index_eq]
  cases hfile : course.file with
  | none => simp only [Course.index, hfile, Option.map_none, Option.elim_none, Option.bind_none]
  | some file =>
    have hcount := h.frameCount_ne_zero file hfile
    simp only [Course.index, hfile, Option.map_some, Option.elim_some, Option.bind_some,
      if_neg hcount, Nat.add_one_ne_zero, if_false, Nat.add_sub_cancel, Option.some.injEq]
    cases course.advances with
    | zero => rw [if_pos rfl, Option.elim_none, Nat.zero_mod]
    | succ count =>
      rw [if_neg (Nat.add_one_ne_zero count), Option.elim_some, Nat.add_sub_cancel,
        Nat.mod_add_mod]

variable [BufferPool π] [ToString ε] {codec : Codec σ ε}

/-- **What an operation preserves.** -/
theorem apply (h : decoder.IsOn course) {operation : Operation}
    (parsed : operation.AttachesParsed) :
    (decoder.apply codec operation).IsOn (course.after (decoder.exchange codec operation)) := by
  have hfile := file_eq_apply codec h.file_eq operation
  cases operation with
  | advance => exact h.advance
  | nextFrame =>
    have hindex := (decoder.responds_nextFrame codec).index_eq.trans h.index_eq
    revert hfile
    simp only [Course.after, exchange, answer]
    split
    · exact fun hfile => ⟨hfile, hindex, h.frameCount_ne_zero⟩
    · exact fun hfile => ⟨hfile, hindex, h.frameCount_ne_zero⟩
  | resetIndex => exact ⟨hfile, (Course.index_eq_none_of_advances rfl).symm, h.frameCount_ne_zero⟩
  | releaseFrame frame => exact ⟨hfile, h.index_eq, h.frameCount_ne_zero⟩
  | clear => exact .of_detached rfl rfl
  | attach header data =>
    obtain ⟨parsing, input, accepted⟩ := parsed
    simp only [Decoder.apply, exchange, answer]
    rcases Nat.lt_or_ge data.length header.fileLength with short | complete
    · rw [decoder.attach_of_short short]
      exact .of_detached rfl rfl
    · rw [decoder.attach_of_complete complete]
      refine ⟨rfl, rfl, ?_⟩
      rintro _ ⟨⟩
      exact frameCount_ne_zero_of_parse accepted
  | setLayout layout => exact ⟨hfile, h.index_eq, h.frameCount_ne_zero⟩

/-! ### Requests -/

omit [BufferPool π] [ToString ε] in
theorem file_of_source (h : decoder.IsOn course) {source : Source}
    (attached : decoder.source = some source) :
    course.file = some (source.header, source.data) := by
  rw [← h.file_eq, attached, Option.map_some]

omit [BufferPool π] [ToString ε] in
/-- No frame is selected until the decoder is advanced. -/
theorem frame?_eq_none_iff (h : decoder.IsOn course) {header : FileHeader} {data : Bytes}
    (file : course.file = some (header, data)) :
    decoder.index.bind header.frame? = none ↔ course.advances = 0 := by
  have hcount := h.frameCount_ne_zero _ file
  rw [h.index_eq]
  constructor
  · intro hnone
    by_contra hadvanced
    simp only [Course.index, file, Option.bind_some, if_neg hadvanced] at hnone
    exact absurd (Nat.mod_lt _ (Nat.pos_of_ne_zero hcount))
      (Nat.not_lt.mpr (List.getElem?_eq_none_iff.mp hnone))
  · intro hstart
    rw [Course.index_eq_none_of_advances hstart, Option.bind_none]

omit [BufferPool π] [ToString ε] in
theorem exists_selects_iff (h : decoder.IsOn course) {source : Source}
    (attached : decoder.source = some source) {P : Bytes → Frame → Prop} :
    (∃ header data frame, course.Selects header data frame ∧ P data frame) ↔
      ∃ frame, decoder.index.bind source.header.frame? = some frame ∧ P source.data frame := by
  have hfile := h.file_of_source attached
  rw [h.index_eq]
  constructor
  · rintro ⟨header, data, frame, ⟨hsame, hselected⟩, hframe⟩
    rw [hfile] at hsame
    cases hsame
    exact ⟨frame, hselected, hframe⟩
  · rintro ⟨frame, hselected, hframe⟩
    exact ⟨source.header, source.data, frame, ⟨hfile, hselected⟩, hframe⟩

omit [BufferPool π] [ToString ε] in
theorem not_exists_selects (h : decoder.IsOn course) (attached : decoder.source = none)
    {P : Bytes → Frame → Prop} :
    ¬ ∃ header data frame, course.Selects header data frame ∧ P data frame := by
  rintro ⟨header, data, frame, ⟨hfile, -⟩, -⟩
  rw [← h.file_eq, attached] at hfile
  cases hfile

variable {outcome : Outcome (Failure ε) PixelBuffer} {next : Decoder σ π}

theorem detached_iff (h : decoder.IsOn course) (responds : decoder.Responds codec outcome next) :
    (∃ notes, outcome.result = .error (.fault ⟨.noInputAttached, notes⟩)) ↔
      course.file = none := by
  cases responds with
  | detached attached =>
    have hfile : course.file = none := by rw [← h.file_eq, attached, Option.map_none]
    exact ⟨fun _ => hfile, fun _ => ⟨[], rfl⟩⟩
  | unselected source attached =>
    rw [h.file_of_source attached]
    exact iff_of_false (fun ⟨_, hresult⟩ => nomatch hresult) (fun hfile => nomatch hfile)
  | undecoded source _ _ _ _ attached =>
    rw [h.file_of_source attached]
    exact iff_of_false (fun ⟨_, hresult⟩ => nomatch hresult) (fun hfile => nomatch hfile)
  | shown source _ _ _ attached =>
    rw [h.file_of_source attached]
    exact iff_of_false (fun ⟨_, hresult⟩ => nomatch hresult) (fun hfile => nomatch hfile)

theorem unselected_iff (h : decoder.IsOn course) (responds : decoder.Responds codec outcome next) :
    (∃ notes, outcome.result = .error (.fault ⟨.noFrameSelected, notes⟩)) ↔
      course.file.isSome ∧ course.advances = 0 := by
  cases responds with
  | detached attached =>
    rw [← h.file_eq, attached]
    exact iff_of_false (fun ⟨_, hresult⟩ => nomatch hresult) (fun hfile => nomatch hfile.1)
  | unselected source attached selected =>
    have hfile := h.file_of_source attached
    rw [hfile]
    exact ⟨fun _ => ⟨rfl, (h.frame?_eq_none_iff hfile).mp selected⟩, fun _ => ⟨_, rfl⟩⟩
  | undecoded source _ _ _ _ attached selected =>
    have hstart := h.frame?_eq_none_iff (h.file_of_source attached)
    rw [selected] at hstart
    exact iff_of_false (fun ⟨_, hresult⟩ => nomatch hresult)
      (fun hfile => nomatch hstart.mpr hfile.2)
  | shown source _ _ _ attached selected =>
    have hstart := h.frame?_eq_none_iff (h.file_of_source attached)
    rw [selected] at hstart
    exact iff_of_false (fun ⟨_, hresult⟩ => nomatch hresult)
      (fun hfile => nomatch hstart.mpr hfile.2)

/-- Once a frame is selected, the codec decides. -/
theorem decoded_iff (h : decoder.IsOn course) (responds : decoder.Responds codec outcome next) :
    (∀ e, outcome.result = .error (.codec e) ↔
      ∃ header data frame, course.Selects header data frame ∧
        (decoder.decoded codec data frame).1 = .error e) ∧
    ((∃ output, outcome.result = .ok output) ↔
      ∃ header data frame, course.Selects header data frame ∧
        (decoder.decoded codec data frame).1 = .ok ()) := by
  cases responds with
  | detached attached =>
    exact ⟨fun _ => iff_of_false (fun hresult => nomatch hresult) (h.not_exists_selects attached),
      iff_of_false (fun ⟨_, hresult⟩ => nomatch hresult) (h.not_exists_selects attached)⟩
  | unselected source attached selected =>
    simp only [h.exists_selects_iff attached, selected]
    exact ⟨fun _ => iff_of_false (fun hresult => nomatch hresult)
        (fun ⟨_, hframe, _⟩ => nomatch hframe),
      iff_of_false (fun ⟨_, hresult⟩ => nomatch hresult) (fun ⟨_, hframe, _⟩ => nomatch hframe)⟩
  | undecoded source frame e image state attached selected failed =>
    simp only [h.exists_selects_iff attached, selected, Option.some.injEq, exists_eq_left', failed]
    simp
  | shown source frame image state attached selected succeeded =>
    simp only [h.exists_selects_iff attached, selected, Option.some.injEq, exists_eq_left',
      succeeded]
    simp

/-- A frame that is returned has the shape of the canvas, made smaller. -/
theorem hasShape [LawfulBufferPool π] (h : decoder.IsOn course) {config : DecoderConfig}
    (keeps : decoder.KeepsTo config) (responds : decoder.Responds codec outcome next)
    {output : PixelBuffer} (returned : outcome.result = .ok output) :
    ∃ header data, course.file = some (header, data) ∧
      output.HasShape (downsampledSize header.canvas decoder.config.sampleSize).width
        (downsampledSize header.canvas decoder.config.sampleSize).height decoder.layout := by
  cases responds with
  | detached => cases returned
  | unselected => cases returned
  | undecoded => cases returned
  | shown source frame image _ attached =>
    cases returned
    obtain ⟨_, hconfig⟩ := keeps.config_eq
    have hsize : decoder.config.sampleSize = config.sampleSize := by rw [hconfig]
    have hdrawn := (keeps.source source attached).draw frame.toPlacement image
    have houtput := decoder.hasShape_outputFor source frame
    rw [hsize] at houtput ⊢
    exact ⟨source.header, source.data, h.file_of_source attached,
      hdrawn.hasShape_view image houtput⟩

end IsOn

section Runs

variable [BufferPool π] [LawfulBufferPool π] [ToString ε] {codec : Codec σ ε}

/-- A decoder that has come to the end of a course follows the protocol. -/
theorem IsOn.followsProtocol {course : Course} {decoder : Decoder σ π} {config : DecoderConfig}
    (h : decoder.IsOn course) (keeps : decoder.KeepsTo config) :
    decoder.FollowsProtocol codec course where
  file_eq := h.file_eq
  index_eq := h.index_eq
  exists_of_index := by
    intro i hi
    rw [h.index_eq, Course.index, Option.bind_eq_some_iff] at hi
    obtain ⟨⟨header, data⟩, hfile, hindex⟩ := hi
    have hcount := Nat.pos_of_ne_zero (h.frameCount_ne_zero _ hfile)
    refine ⟨header, data, hfile, ?_⟩
    dsimp only at hindex
    split at hindex
    · cases hindex
    · cases hindex
      exact Nat.mod_lt _ hcount
  attach_error_iff := by
    intro header data
    rcases Nat.lt_or_ge data.length header.fileLength with short | complete
    · rw [decoder.attach_of_short short]
      exact iff_of_true ⟨_, rfl⟩ short
    · rw [decoder.attach_of_complete complete]
      exact iff_of_false (fun ⟨_, hresult⟩ => nomatch hresult) (Nat.not_lt.mpr complete)
  detached_of_short := by
    intro header data short
    rw [decoder.attach_of_short short]
    exact ⟨rfl, rfl⟩
  detached_iff := h.detached_iff (decoder.responds_nextFrame codec)
  unselected_iff := h.unselected_iff (decoder.responds_nextFrame codec)
  undecoded_iff := (h.decoded_iff (decoder.responds_nextFrame codec)).1
  shown_iff := (h.decoded_iff (decoder.responds_nextFrame codec)).2
  hasShape _ := h.hasShape keeps (decoder.responds_nextFrame codec)

/-- **The protocol.** Make a decoder and ask it for anything, with files that were parsed. Then
its transcript says which file is attached, and the frame that is selected: after the file was
attached, or the decoder went back to before the first frame, the first, the second and so on,
round and round. It says whether a request for the frame fails and why, and what the returned
frame is like. The status is the one that goes with the last answer that has one. -/
theorem followsProtocol_run {config : DecoderConfig} {state : σ} {pool : π}
    {start : Decoder σ π} (new : new? state pool config = .ok start)
    {operations : List Operation}
    (parsed : ∀ operation ∈ operations, operation.AttachesParsed) :
    let decoder := start.run codec operations
    let transcript := start.transcript codec operations
    decoder.FollowsProtocol codec (transcript.foldl Course.after {}) ∧
      decoder.config.sampleSize = floorPowerOfTwo config.sampleSize ∧
      decoder.status = transcript.foldl Exchange.statusAfter .ok := by
  intro decoder transcript
  have hreachable : decoder.Reachable codec config := ⟨state, pool, start, operations, new, rfl⟩
  have hkeeps := hreachable.keepsTo
  obtain ⟨_, hconfig⟩ := hkeeps.config_eq
  have hon : decoder.IsOn (transcript.foldl Course.after {}) := by
    refine run_induction (R := fun decoder course => decoder.IsOn course) operations ?_ ?_
    · intro operation hoperation _ _ h
      exact h.apply (parsed operation hoperation)
    · rw [eq_of_new new]
      exact .of_detached rfl rfl
  have hok : start.status = .ok := by rw [eq_of_new new]
  refine ⟨hon.followsProtocol hkeeps, by rw [hconfig]; rfl, ?_⟩
  rw [status_run, hok]

end Runs

end Decoder

/-! ### A winding course -/

/-- Too few bytes of a file are offered, then all of them. The decoder is advanced beyond the last
frame, and asked for another layout. -/
def windingOperations : List Operation :=
  [.advance, .attach blinkingHeader (blinking.take 119), .attach blinkingHeader blinking, .advance,
    .nextFrame, .advance, .advance, .setLayout .rgb565]

/-- After three steps through two frames the first one is selected. -/
theorem followsProtocol_run_blinking :
    let decoder := halvingDecoder.run countingCodec windingOperations
    let course := (halvingDecoder.transcript countingCodec windingOperations).foldl Course.after {}
    Decoder.new? 0 usedPool { sampleSize := 3 } = .ok halvingDecoder ∧
      (∀ operation ∈ windingOperations, operation.AttachesParsed) ∧
      course.file.isSome ∧ course.advances = 3 ∧ course.index = some 0 ∧
      decoder.FollowsProtocol countingCodec course ∧
      decoder.config.sampleSize = 2 ∧ decoder.status = .ok := by
  intro decoder course
  have hnew : Decoder.new? 0 usedPool { sampleSize := 3 } = .ok halvingDecoder := rfl
  have hparsed : ∀ operation ∈ windingOperations, operation.AttachesParsed := by
    simp only [windingOperations, List.forall_mem_cons]
    exact ⟨trivial, ⟨{}, blinking, parse_blinking⟩, ⟨{}, blinking, parse_blinking⟩, trivial,
      trivial, trivial, trivial, trivial, List.forall_mem_nil _⟩
  have hfollows : decoder.FollowsProtocol countingCodec course ∧
      decoder.config.sampleSize = 2 ∧ _ := Decoder.followsProtocol_run hnew hparsed
  exact ⟨hnew, hparsed, by decide +kernel, by decide +kernel, by decide +kernel, hfollows.1,
    hfollows.2.1, by decide +kernel⟩

end WebP
