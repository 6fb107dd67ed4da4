import WebP.Proofs.Playback.FailedRequests

/-!
# Every buffer is given back once

A decoder takes a pixel buffer from its pool for each image that is decoded and one for each frame
that is shown, and a scratch array for a canvas. It gives them back on many paths: when an image
was drawn, when the codec failed, when the file is detached and when another file is attached.
Here the calls on the pool are counted. What the decoder has not given back by itself are the
frames it returned and the canvas of the attached file.

## Main definitions

* `WebP.Counted`: a pool that counts the calls on it.
* `WebP.Decoder.ownReleases`: the buffers that the decoder gives back by itself.
* `WebP.Decoder.Accounts`: what lies between two counts.
* `WebP.Course.HoldsCanvas`: a frame was drawn on a canvas of the attached file.

## Main results

* `WebP.Decoder.accounts_apply`: what one operation adds to the counts.
* `WebP.Decoder.accounts_run`: what some operations add to them.
* `WebP.Decoder.balance_run`: of a new decoder, no buffer is lost and none is given back twice.
-/

namespace WebP

open BufferPool (obtain release obtainScratch releaseScratch)

/-! ### Counting the calls -/

/-- How many calls of each kind there were. -/
structure Tally where
  obtained : Nat := 0
  released : Nat := 0
  scratchObtained : Nat := 0
  scratchReleased : Nat := 0
deriving DecidableEq, Repr

/-- A pool and how often it was called. -/
structure Counted (π : Type) where
  pool : π
  tally : Tally := {}
deriving DecidableEq, Repr

instance {π : Type} [BufferPool π] : BufferPool (Counted π) where
  obtain counted width height layout :=
    let (buffer, pool) := obtain counted.pool width height layout
    (buffer, ⟨pool, { counted.tally with obtained := counted.tally.obtained + 1 }⟩)
  release counted buffer :=
    ⟨release counted.pool buffer,
      { counted.tally with released := counted.tally.released + 1 }⟩
  obtainScratch counted length :=
    let (scratch, pool) := obtainScratch counted.pool length
    (scratch, ⟨pool, { counted.tally with scratchObtained := counted.tally.scratchObtained + 1 }⟩)
  releaseScratch counted scratch :=
    ⟨releaseScratch counted.pool scratch,
      { counted.tally with scratchReleased := counted.tally.scratchReleased + 1 }⟩

@[simp] theorem Counted.tally_obtain {π : Type} [BufferPool π] (counted : Counted π)
    (width height : Nat) (layout : ColorLayout) :
    (obtain counted width height layout).2.tally =
      { counted.tally with obtained := counted.tally.obtained + 1 } := rfl

@[simp] theorem Counted.tally_release {π : Type} [BufferPool π] (counted : Counted π)
    (buffer : PixelBuffer) :
    (release counted buffer).tally =
      { counted.tally with released := counted.tally.released + 1 } := rfl

namespace Source

/-- The number of scratch arrays in which there is a canvas of the file. -/
def scratchInUse (source : Source) : Nat :=
  source.compositor.elim 0 fun compositor => compositor.canvas.elim 0 fun _ => 1

/-- The number of scratch arrays that a frame of the file needs besides. -/
def scratchNeeded (source : Source) : Nat :=
  source.compositor.elim 0 fun compositor => compositor.canvas.elim 1 fun _ => 0

/-- Drawing a frame is using what it needs. -/
theorem scratchInUse_draw (source : Source) (place : Placement) (image : PixelBuffer) :
    (source.draw place image).scratchInUse = source.scratchInUse + source.scratchNeeded := by
  obtain ⟨header, data, _ | ⟨size, sampleSize, background, _ | canvas⟩⟩ := source
  · rfl
  · rfl
  · rfl

variable {π : Type} [BufferPool π]

theorem tally_takeCanvas (source : Source) (pool : Counted π) :
    (source.takeCanvas pool).tally =
      { pool.tally with
        scratchObtained := pool.tally.scratchObtained + source.scratchNeeded } := by
  obtain ⟨header, data, _ | ⟨size, sampleSize, background, _ | canvas⟩⟩ := source
  · rfl
  · rfl
  · rfl

theorem tally_releaseCanvas (source : Source) (pool : Counted π) :
    (source.releaseCanvas pool).tally =
      { pool.tally with
        scratchReleased := pool.tally.scratchReleased + source.scratchInUse } := by
  obtain ⟨header, data, _ | ⟨size, sampleSize, background, _ | canvas⟩⟩ := source
  · rfl
  · rfl
  · rfl

end Source

/-- The operation hands a frame back. -/
def Operation.isReleaseFrame : Operation → Bool
  | .releaseFrame _ => true
  | _ => false

namespace Decoder

section Counts

variable {σ π ε : Type}

/-- The number of scratch arrays in which there is a canvas of the attached file. -/
def scratchInUse (decoder : Decoder σ π) : Nat := decoder.source.elim 0 Source.scratchInUse

/-- From one decoder to the other it gave back `own` pixel buffers by itself, returned `shown`
frames and was given back `returned`; the scratch arrays it took and did not give back are those
it came to use. -/
structure Accounts (before after : Decoder σ (Counted π)) (own shown returned : Nat) : Prop where
  obtained_eq : after.pool.tally.obtained = before.pool.tally.obtained + own + shown
  released_eq : after.pool.tally.released = before.pool.tally.released + own + returned
  scratch_eq :
    after.pool.tally.scratchObtained + before.pool.tally.scratchReleased + before.scratchInUse =
      before.pool.tally.scratchObtained + after.pool.tally.scratchReleased + after.scratchInUse

namespace Accounts

variable {first second third : Decoder σ (Counted π)} {own shown returned : Nat}

/-- A decoder with the same pool and the same canvas has the same accounts. -/
theorem of_eq (pool : second.pool = first.pool) (source : second.source = first.source) :
    first.Accounts second 0 0 0 where
  obtained_eq := congrArg (·.tally.obtained) pool
  released_eq := congrArg (·.tally.released) pool
  scratch_eq := by rw [pool, scratchInUse, scratchInUse, source]

/-- One account after the other. -/
theorem trans {own' shown' returned' : Nat} (h₁ : first.Accounts second own shown returned)
    (h₂ : second.Accounts third own' shown' returned') :
    first.Accounts third (own + own') (shown + shown') (returned + returned') := by
  obtain ⟨hobtained₁, hreleased₁, hscratch₁⟩ := h₁
  obtain ⟨hobtained₂, hreleased₂, hscratch₂⟩ := h₂
  exact ⟨by omega, by omega, by omega⟩

/-- Where no frame is handed back, every buffer that is given back is the decoder's own. -/
theorem sub_released (h : first.Accounts second own shown 0) :
    first.Accounts second (second.pool.tally.released - first.pool.tally.released) shown 0 := by
  have hreleased := h.released_eq
  rwa [show second.pool.tally.released - first.pool.tally.released = own by omega]

/-- If at first no more scratch arrays were kept than were in use, so it is later. -/
theorem scratch_balanced (h : first.Accounts second own shown returned)
    (balanced : first.pool.tally.scratchObtained =
      first.pool.tally.scratchReleased + first.scratchInUse) :
    second.pool.tally.scratchObtained =
      second.pool.tally.scratchReleased + second.scratchInUse := by
  have hscratch := h.scratch_eq
  omega

end Accounts

variable [BufferPool π]

/-- Detaching a file gives its canvas back, and nothing else. -/
theorem tally_clear (decoder : Decoder σ (Counted π)) :
    decoder.clear.pool.tally =
      { decoder.pool.tally with
        scratchReleased := decoder.pool.tally.scratchReleased + decoder.scratchInUse } := by
  obtain ⟨_, pool, _, source, _, _, _⟩ := decoder
  cases source with
  | none => rfl
  | some source => exact source.tally_releaseCanvas pool

theorem accounts_clear (decoder : Decoder σ (Counted π)) :
    decoder.Accounts decoder.clear 0 0 0 := by
  have htally := decoder.tally_clear
  have hcanvas : decoder.clear.scratchInUse = 0 := rfl
  refine ⟨?_, ?_, ?_⟩
  · rw [htally]
    rfl
  · rw [htally]
    rfl
  · simp only [htally, hcanvas]
    omega

/-- A file that is newly attached has no canvas yet. -/
theorem scratchInUse_attach (decoder : Decoder σ (Counted π)) (header : FileHeader)
    (data : Bytes) : (decoder.attach header data).2.scratchInUse = 0 := by
  rcases Nat.lt_or_ge data.length header.fileLength with short | complete
  · rw [decoder.attach_of_short short]
    rfl
  · rw [decoder.attach_of_complete complete]
    simp only [scratchInUse, Option.elim_some, Source.scratchInUse, compositorFor]
    split
    · rfl
    · rfl

theorem accounts_attach (decoder : Decoder σ (Counted π)) (header : FileHeader) (data : Bytes) :
    decoder.Accounts (decoder.attach header data).2 0 0 0 := by
  obtain ⟨hobtained, hreleased, hscratch⟩ := decoder.accounts_clear
  refine ⟨?_, ?_, ?_⟩
  · rw [pool_attach, hobtained]
  · rw [pool_attach, hreleased]
  · rw [pool_attach, hscratch, scratchInUse_attach]
    rfl

/-- For a frame that is shown two buffers are taken, and one is given back. -/
theorem tally_shown (decoder : Decoder σ (Counted π)) (source : Source) (frame : Frame)
    (image : PixelBuffer) :
    (release (source.takeCanvas (decoder.outputFor source frame).2) image).tally =
      { decoder.pool.tally with
        obtained := decoder.pool.tally.obtained + 2
        released := decoder.pool.tally.released + 1
        scratchObtained := decoder.pool.tally.scratchObtained + source.scratchNeeded } := by
  simp only [Counted.tally_release, Source.tally_takeCanvas, outputFor, blankFor,
    Counted.tally_obtain]

variable [ToString ε]

/-- The buffers of a request are given back, but for the frame that it returns. -/
theorem Responds.accounts {codec : Codec σ ε} {decoder next : Decoder σ (Counted π)}
    {outcome : Outcome (Failure ε) PixelBuffer} (h : decoder.Responds codec outcome next) :
    ∃ own, decoder.Accounts next own (if outcome.result.isOk then 1 else 0) 0 := by
  cases h with
  | detached => exact ⟨0, .of_eq rfl rfl⟩
  | unselected => exact ⟨0, .of_eq rfl rfl⟩
  | undecoded => exact ⟨1, rfl, rfl, rfl⟩
  | shown source frame image state attached =>
    have htally := decoder.tally_shown source frame image
    refine ⟨1, ?_, ?_, ?_⟩
    · simp only [htally, Except.isOk, Except.toBool, if_true]
    · simp only [htally, Nat.add_zero]
    · simp only [htally, scratchInUse, attached, Option.elim_some, Source.scratchInUse_draw]
      omega

/-! ### The accounts of an operation -/

/-- How many pixel buffers the decoder gives back by itself while it does an operation. A frame that
it is handed back is not one of them. -/
def ownReleased (codec : Codec σ ε) (decoder : Decoder σ (Counted π)) : Operation → Nat
  | .releaseFrame _ => 0
  | operation =>
    (decoder.apply codec operation).pool.tally.released - decoder.pool.tally.released

/-- How many pixel buffers the decoder gives back by itself while it does some operations. -/
def ownReleases (codec : Codec σ ε) : Decoder σ (Counted π) → List Operation → Nat
  | _, [] => 0
  | decoder, operation :: operations =>
    decoder.ownReleased codec operation +
      ownReleases codec (decoder.apply codec operation) operations

/-- **The accounts of an operation.** Every operation but a request gives back by itself as many
pixel buffers as it takes, and a request returns the one that is missing. -/
theorem accounts_apply (codec : Codec σ ε) (decoder : Decoder σ (Counted π))
    (operation : Operation) :
    decoder.Accounts (decoder.apply codec operation) (decoder.ownReleased codec operation)
      (if (decoder.answer codec operation).isFrame then 1 else 0)
      (if operation.isReleaseFrame then 1 else 0) := by
  cases operation with
  | advance =>
    have haccounts : decoder.Accounts decoder.advance 0 0 0 :=
      .of_eq decoder.pool_advance decoder.source_advance
    exact haccounts.sub_released
  | nextFrame =>
    obtain ⟨own, haccounts⟩ := (decoder.responds_nextFrame codec).accounts
    exact haccounts.sub_released
  | resetIndex =>
    have haccounts : decoder.Accounts decoder.resetIndex 0 0 0 := .of_eq rfl rfl
    exact haccounts.sub_released
  | releaseFrame frame => exact ⟨rfl, rfl, rfl⟩
  | clear => exact decoder.accounts_clear.sub_released
  | attach header data => exact (decoder.accounts_attach header data).sub_released
  | setLayout layout =>
    have haccounts : decoder.Accounts (decoder.setLayout layout) 0 0 0 := .of_eq rfl rfl
    exact haccounts.sub_released

/-- **The accounts of a run.** -/
theorem accounts_run (codec : Codec σ ε) (decoder : Decoder σ (Counted π))
    (operations : List Operation) :
    decoder.Accounts (decoder.run codec operations) (decoder.ownReleases codec operations)
      ((decoder.transcript codec operations).countP (·.answer.isFrame))
      (operations.countP (·.isReleaseFrame)) := by
  induction operations generalizing decoder with
  | nil => exact .of_eq rfl rfl
  | cons operation operations ih =>
    have hrest := ih (decoder.apply codec operation)
    have haccounts := (decoder.accounts_apply codec operation).trans hrest
    simp only [transcript, List.countP_cons]
    rwa [Nat.add_comm (List.countP _ _), Nat.add_comm (List.countP _ _)]

end Counts

end Decoder

/-! ### The canvas of the attached file -/

/-- The attached file is an animation, and one of its frames has been returned. -/
def Course.holdsCanvas (course : Course) : Bool :=
  course.file.any (·.1.isAnimated) && decide (0 < course.frames)

namespace Decoder

variable {σ π ε : Type}

/-- There is a compositor for the attached file if it is an animation, and a canvas if some frames
of it have been returned. -/
structure HasDrawn (frames : Nat) (decoder : Decoder σ π) : Prop where
  animated_eq : ∀ source ∈ decoder.source, source.header.isAnimated = source.compositor.isSome
  canvas_eq : ∀ source ∈ decoder.source, ∀ compositor ∈ source.compositor,
    compositor.canvas.isSome = decide (0 < frames)

theorem isSome_compositorFor (config : DecoderConfig) (header : FileHeader) :
    (compositorFor config header).isSome = header.isAnimated := by
  unfold compositorFor
  split
  · rename_i animated
    exact animated.symm
  · rename_i still
    exact (Bool.eq_false_iff.mpr still).symm

theorem canvas_eq_none_of_compositorFor {config : DecoderConfig} {header : FileHeader}
    {compositor : Compositor} (new : compositorFor config header = some compositor) :
    compositor.canvas = none := by
  unfold compositorFor at new
  split at new
  · cases new
    rfl
  · cases new

namespace HasDrawn

variable {frames : Nat} {decoder : Decoder σ π}

/-- Nothing has been drawn if no file is attached. -/
theorem of_detached (attached : decoder.source = none) : decoder.HasDrawn 0 := by
  refine ⟨?_, ?_⟩
  · rw [attached]
    exact fun _ hsource => nomatch hsource
  · rw [attached]
    exact fun _ hsource => nomatch hsource

/-- A course says how many scratch arrays are in use. -/
theorem scratchInUse_eq {course : Course} (h : decoder.HasDrawn course.frames)
    (file : decoder.source.map (fun source => (source.header, source.data)) = course.file) :
    decoder.scratchInUse = if course.holdsCanvas then 1 else 0 := by
  have hanimated := h.animated_eq
  have hcanvas := h.canvas_eq
  rw [scratchInUse, Course.holdsCanvas, ← file]
  cases hsource : decoder.source with
  | none => rfl
  | some source =>
    rw [Option.elim_some, Source.scratchInUse, Option.map_some, Option.any_some,
      hanimated source hsource]
    cases hcompositor : source.compositor with
    | none => rfl
    | some compositor =>
      rw [Option.elim_some, Option.isSome_some, Bool.true_and,
        ← hcanvas source hsource compositor hcompositor]
      cases compositor.canvas with
      | none => rfl
      | some canvas => rfl

variable [BufferPool π] [ToString ε] {codec : Codec σ ε}

/-- A request that fails draws nothing; one that does not leaves a canvas. -/
theorem of_responds {next : Decoder σ π} {outcome : Outcome (Failure ε) PixelBuffer}
    (h : decoder.HasDrawn frames) (responds : decoder.Responds codec outcome next) :
    next.HasDrawn (if outcome.result.isOk then frames + 1 else frames) := by
  cases responds with
  | detached => exact ⟨h.animated_eq, h.canvas_eq⟩
  | unselected => exact ⟨h.animated_eq, h.canvas_eq⟩
  | undecoded => exact ⟨h.animated_eq, h.canvas_eq⟩
  | shown source frame image state attached =>
    refine ⟨?_, ?_⟩
    · rintro _ ⟨⟩
      rw [Source.header_draw, Source.draw, Option.isSome_map]
      exact h.animated_eq source attached
    · rintro _ ⟨⟩ drawn hdrawn
      obtain ⟨compositor, -, rfl⟩ := Option.map_eq_some_iff.mp hdrawn
      exact (decide_eq_true (Nat.succ_pos frames)).symm

/-- **What an operation preserves.** -/
theorem apply {course : Course} (h : decoder.HasDrawn course.frames) (operation : Operation) :
    (decoder.apply codec operation).HasDrawn
      (course.after (decoder.exchange codec operation)).frames := by
  cases operation with
  | advance =>
    refine ⟨?_, ?_⟩
    · exact decoder.source_advance ▸ h.animated_eq
    · exact decoder.source_advance ▸ h.canvas_eq
  | nextFrame =>
    have hframes : (course.after (decoder.exchange codec .nextFrame)).frames =
        if (decoder.nextFrame codec).1.result.isOk then course.frames + 1 else course.frames :=
      apply_ite Course.frames _ _ _
    rw [hframes]
    exact h.of_responds (decoder.responds_nextFrame codec)
  | resetIndex => exact ⟨h.animated_eq, h.canvas_eq⟩
  | releaseFrame frame => exact ⟨h.animated_eq, h.canvas_eq⟩
  | clear => exact .of_detached rfl
  | attach header data =>
    simp only [Decoder.apply, exchange, answer]
    rcases Nat.lt_or_ge data.length header.fileLength with short | complete
    · rw [decoder.attach_of_short short]
      exact .of_detached rfl
    · rw [decoder.attach_of_complete complete]
      refine ⟨?_, ?_⟩
      · rintro _ ⟨⟩
        exact (isSome_compositorFor _ _).symm
      · rintro _ ⟨⟩ compositor hnew
        rw [canvas_eq_none_of_compositorFor hnew]
        rfl
  | setLayout layout => exact ⟨h.animated_eq, h.canvas_eq⟩

end HasDrawn

section Runs

variable [BufferPool π] [ToString ε]

/-- **No buffer is lost, and none is given back twice.** Make a decoder with a pool whose calls are
counted, and ask it for anything, with a codec that fails wherever it likes. The pixel buffers it
took and did not give back by itself are the frames it returned; each frame that it is handed back
is one more release. The only scratch array it keeps is that of the canvas, from the first frame
of an animation that it returns until the file is detached or another is to be attached, whether
that succeeds or not. -/
theorem balance_run (codec : Codec σ ε) {config : DecoderConfig} {state : σ} {pool : π}
    {start : Decoder σ (Counted π)} (new : new? state ⟨pool, {}⟩ config = .ok start)
    (operations : List Operation) :
    let decoder := start.run codec operations
    let transcript := start.transcript codec operations
    let own := start.ownReleases codec operations
    decoder.pool.tally.obtained = own + transcript.countP (·.answer.isFrame) ∧
      decoder.pool.tally.released = own + operations.countP (·.isReleaseFrame) ∧
      decoder.pool.tally.scratchObtained = decoder.pool.tally.scratchReleased +
        (if (transcript.foldl Course.after {}).holdsCanvas then 1 else 0) ∧
      decoder.clear.pool.tally.scratchObtained = decoder.clear.pool.tally.scratchReleased ∧
      ∀ header data, (decoder.attach header data).2.pool.tally.scratchObtained =
        (decoder.attach header data).2.pool.tally.scratchReleased := by
  intro decoder transcript own
  have htally : start.pool.tally = {} := by rw [eq_of_new new]
  have hsource : start.source = none := by rw [eq_of_new new]
  have hdrawn : decoder.source.map (fun source => (source.header, source.data)) =
        (transcript.foldl Course.after {}).file ∧
      decoder.HasDrawn (transcript.foldl Course.after {}).frames := by
    refine run_induction (R := fun decoder (course : Course) =>
      decoder.source.map (fun source => (source.header, source.data)) = course.file ∧
        decoder.HasDrawn course.frames) operations ?_ ?_
    · rintro operation - decoder course ⟨hfile, hdrawn⟩
      exact ⟨file_eq_apply codec hfile operation, hdrawn.apply operation⟩
    · exact ⟨by rw [hsource]; rfl, .of_detached hsource⟩
  have haccounts := start.accounts_run codec operations
  have hobtained := haccounts.obtained_eq
  have hreleased := haccounts.released_eq
  have hbalanced := haccounts.scratch_balanced (by rw [htally, scratchInUse, hsource]; rfl)
  refine ⟨?_, ?_, ?_, ?_, ?_⟩
  · rw [hobtained, htally, Nat.zero_add]
  · rw [hreleased, htally, Nat.zero_add]
  · rw [hbalanced, hdrawn.2.scratchInUse_eq hdrawn.1]
  · exact decoder.accounts_clear.scratch_balanced hbalanced
  · intro header data
    rw [(decoder.accounts_attach header data).scratch_balanced hbalanced, scratchInUse_attach,
      Nat.add_zero]

end Runs

end Decoder

/-! ### A wasteful playback -/

/-- A new decoder with a pool whose calls are counted. -/
def countedDecoder : Decoder Nat (Counted HeapPool) where
  codec := 0
  pool := { pool := usedPool }
  config := {}
  layout := .argb8888

/-- An animation whose first frame is never decoded is played until the first frame comes again.
Then too few bytes of it are offered, and all bytes of another animation. -/
def wastefulOperations : List Operation :=
  [.attach blinkingHeader blinking, .advance, .nextFrame, .advance, .nextFrame, .releaseFrame {},
    .advance, .nextFrame, .attach blinkingHeader (blinking.take 119),
    .attach corneredHeader cornered, .advance, .advance, .nextFrame]

/-- Two of four requests fail, and the canvas of the second animation is still in use. Of the six
buffers that were taken the decoder gave back four, and it returned two. -/
theorem balance_run_wasteful :
    let decoder := countedDecoder.run skippingCodec wastefulOperations
    let transcript := countedDecoder.transcript skippingCodec wastefulOperations
    let own := countedDecoder.ownReleases skippingCodec wastefulOperations
    Decoder.new? 0 { pool := usedPool } {} = .ok countedDecoder ∧
      decoder.pool.tally = ⟨6, 5, 2, 1⟩ ∧ own = 4 ∧
      transcript.countP (·.answer.isFailure) = 2 ∧
      decoder.pool.tally.obtained = own + transcript.countP (·.answer.isFrame) ∧
      decoder.pool.tally.released = own + wastefulOperations.countP (·.isReleaseFrame) ∧
      (transcript.foldl Course.after {}).holdsCanvas ∧
      decoder.clear.pool.tally.scratchObtained = decoder.clear.pool.tally.scratchReleased := by
  have hnew : Decoder.new? 0 { pool := usedPool } {} = .ok countedDecoder := rfl
  obtain ⟨hobtained, hreleased, -, hclear, -⟩ :=
    Decoder.balance_run skippingCodec hnew wastefulOperations
  exact ⟨hnew, by decide +kernel, by decide +kernel, by decide +kernel, hobtained, hreleased,
    by decide +kernel, hclear⟩

end WebP
