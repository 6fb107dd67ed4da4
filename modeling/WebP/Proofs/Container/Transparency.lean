import WebP.Proofs.Container.Insertion
import WebP.Proofs.Container.Placement

/-!
# Unknown chunks are transparent

A chunk of a kind that is not known is skipped, wherever it stands. So a file tells the same with
such a chunk put into it, but for what depends on where the bytes are. What is behind the new chunk
is found further back, the file is longer, and the directory of chunks has an entry more, or a
longer one for the frame that the chunk is put into. If the file is refused, it is refused for the
same cause.

A description is moved by a map, part by part. Each step of reading commutes with the map, for a
chunk that stands behind the new one. In front of the new chunk nothing moves, so there the map is
the identity, and where the new chunk is taken the map comes in.

## Main definitions

* `WebP.Insertion.moveSpan`, `moveFrame`, `moveEntries`, `moveHeader`: what is told of a file, with
  the chunk in its place.

## Main results

* `WebP.Insertion.verdict_read_moved`, `EditsFrame.verdict_read`: a frame behind the new chunk, and
  the one around it.
* `WebP.Insertion.verdict_add_moved`, `EditsFrame.verdict_add`: one more chunk of the file.
* `WebP.Insertion.verdict_parse_apply`: a file with an unknown chunk in it.
-/

namespace WebP

open Outcome

/-! ### What moves -/

namespace Insertion

variable (insertion : Insertion)

/-- A range of the file. It moves if it does not end in front of the new chunk. -/
def moveSpan (span : Span) : Span :=
  if span.stop ≤ insertion.offset then span
  else ⟨span.start + insertion.size, span.stop + insertion.size⟩

/-- A frame. Its image and its alpha plane may move. -/
def moveFrame (frame : Frame) : Frame :=
  { frame with
    payload := insertion.moveSpan frame.payload
    alphaPayload := frame.alphaPayload.map insertion.moveSpan }

/-- The entry of a chunk. It moves if it does not stand in front of the new chunk. The entry of the
frame that the new chunk is put into is longer. -/
def moveEntry (entry : ChunkEntry) : ChunkEntry :=
  if insertion.offset ≤ entry.offset then
    { entry with offset := entry.offset + insertion.size }
  else if insertion.frame? = some entry.offset then
    { entry with length := entry.length + insertion.size }
  else
    entry

/-- The entry of the new chunk, unless it is put into a frame. -/
def added : List ChunkEntry :=
  match insertion.frame? with
  | none => [(insertion.unknown.chunkAt insertion.offset).entry]
  | some _ => []

/-- The directory of chunks. The entry of the new chunk stands behind those of the chunks in front
of it. -/
def moveEntries (entries : List ChunkEntry) : List ChunkEntry :=
  (entries.filter (·.offset < insertion.offset)).map insertion.moveEntry ++
    (insertion.added ++ (entries.filter (insertion.offset ≤ ·.offset)).map insertion.moveEntry)

/-- The description of a file. Only places and lengths change, and the directory of chunks. -/
def moveHeader (header : FileHeader) : FileHeader :=
  { header with
    frames := header.frames.map insertion.moveFrame
    chunks := insertion.moveEntries header.chunks
    fileLength := header.fileLength + insertion.size }

/-- What has been found inside a frame. -/
def moveContent (content : FrameContent) : FrameContent where
  alpha := content.alpha.map (Prod.map id insertion.moveSpan)
  image := content.image.map (Prod.map id insertion.moveSpan)

/-- What the chunks of a file have told so far. -/
def moveAssembly (file : Assembly) : Assembly :=
  { file with
    pendingAlpha := file.pendingAlpha.map (Prod.map id insertion.moveSpan)
    frames := file.frames.map insertion.moveFrame
    chunks := insertion.moveEntries file.chunks }

variable {insertion}

theorem moveSpan_of_le {span : Span} (h : span.stop ≤ insertion.offset) :
    insertion.moveSpan span = span := if_pos h

/-- The payload of a chunk behind the new one stands further back with the chunk. -/
theorem payloadSpan_moved {chunk : Chunk} (h : insertion.offset ≤ chunk.offset) :
    (chunk.moved insertion.size).payloadSpan = insertion.moveSpan chunk.payloadSpan := by
  have hbehind : ¬ chunk.payloadSpan.stop ≤ insertion.offset := by
    change ¬ chunk.offset + 8 + chunk.payload.length ≤ insertion.offset
    omega
  rw [moveSpan, if_neg hbehind]
  simp only [Chunk.payloadSpan, Chunk.entry, ChunkEntry.payloadSpan, Chunk.moved, Span.mk.injEq]
  omega

/-- What was found in front of the new chunk stays where it is. -/
theorem map_moveSpan {α : Type} {found : Option (α × Span)}
    (h : ∀ a span, found = some (a, span) → span.stop ≤ insertion.offset) :
    found.map (Prod.map id insertion.moveSpan) = found := by
  cases found with
  | none => rfl
  | some found =>
    have hspan := moveSpan_of_le (h found.1 found.2 rfl)
    exact congrArg some (Prod.ext rfl hspan)

theorem moveFrame_of_le {frame : Frame}
    (h : ∀ span ∈ frame.spans, span.stop ≤ insertion.offset) :
    insertion.moveFrame frame = frame := by
  have hpayload := moveSpan_of_le (h frame.payload (List.mem_cons_self ..))
  have hplane : frame.alphaPayload.map insertion.moveSpan = frame.alphaPayload := by
    cases halpha : frame.alphaPayload with
    | none => rfl
    | some span =>
      refine congrArg some (moveSpan_of_le (h span (List.mem_cons_of_mem _ ?_)))
      rw [halpha]
      exact List.mem_singleton_self span
  rw [moveFrame, hpayload, hplane]

/-- The entry of a chunk in front of the new one, and of the frame around that, stays as it is. -/
theorem moveEntry_of_lt {entry : ChunkEntry} (h : entry.offset < insertion.offset)
    (hframe : ∀ frame, insertion.frame? = some frame → entry.offset < frame) :
    insertion.moveEntry entry = entry := by
  have hother : insertion.frame? ≠ some entry.offset := fun heq =>
    absurd (hframe _ heq) (Nat.lt_irrefl _)
  rw [moveEntry, if_neg (Nat.not_le.mpr h), if_neg hother]

/-- An entry behind the new chunk is added at the end of the directory, further back. -/
theorem moveEntries_concat {entries : List ChunkEntry} {entry : ChunkEntry}
    (h : insertion.offset ≤ entry.offset) :
    insertion.moveEntries (entries ++ [entry]) =
      insertion.moveEntries entries ++
        [{ entry with offset := entry.offset + insertion.size }] := by
  have hfront : decide (entry.offset < insertion.offset) = false :=
    decide_eq_false (Nat.not_lt.mpr h)
  have hback : decide (insertion.offset ≤ entry.offset) = true := decide_eq_true h
  have hmove : insertion.moveEntry entry = { entry with offset := entry.offset + insertion.size } :=
    if_pos h
  simp only [moveEntries, List.filter_append, List.filter_singleton, hfront, hback, cond_false,
    cond_true, List.append_nil, List.map_append, List.map_singleton, hmove, List.append_assoc]

/-- In front of the new chunk the directory stays as it is. -/
theorem moveEntries_of_lt {entries : List ChunkEntry}
    (h : ∀ entry ∈ entries, entry.offset < insertion.offset) :
    insertion.moveEntries entries = entries.map insertion.moveEntry ++ insertion.added := by
  have hfront : entries.filter (·.offset < insertion.offset) = entries :=
    List.filter_eq_self.mpr fun entry hentry => decide_eq_true (h entry hentry)
  have hback : entries.filter (insertion.offset ≤ ·.offset) = [] :=
    List.filter_eq_nil_iff.mpr fun entry hentry hle =>
      absurd (of_decide_eq_true hle) (Nat.not_le.mpr (h entry hentry))
  rw [moveEntries, hfront, hback, List.map_nil, List.append_nil]

/-- The frame that the new chunk is put into has a longer entry. -/
theorem moveEntries_concat_frame {entries : List ChunkEntry} {entry : ChunkEntry}
    (hframe? : insertion.frame? = some entry.offset) (hlt : entry.offset < insertion.offset)
    (h : ∀ earlier ∈ entries, earlier.offset < insertion.offset) :
    insertion.moveEntries (entries ++ [entry]) =
      insertion.moveEntries entries ++
        [{ entry with length := entry.length + insertion.size }] := by
  have hadded : insertion.added = [] := by rw [added, hframe?]
  have hmove : insertion.moveEntry entry =
      { entry with length := entry.length + insertion.size } := by
    rw [moveEntry, if_neg (Nat.not_le.mpr hlt), if_pos hframe?]
  have hall : ∀ earlier ∈ entries ++ [entry], earlier.offset < insertion.offset :=
    List.forall_mem_append.mpr ⟨h, List.forall_mem_singleton.mpr hlt⟩
  rw [moveEntries_of_lt hall, moveEntries_of_lt h, hadded, List.append_nil, List.append_nil,
    List.map_append, List.map_singleton, hmove]

/-! ### Inside a frame -/

section InsideFrame

variable {config : Config} {size : Size} {content : FrameContent} {part : Chunk}

theorem verdict_addAlpha_content (h : insertion.offset ≤ part.offset) :
    ((insertion.moveContent content).addAlpha (part.moved insertion.size)).verdict =
      (content.addAlpha part).verdict.map insertion.moveContent := by
  refine verdict_ensure_bind Option.map_eq_none_iff fun _ =>
    verdict_ensure_bind Option.map_eq_none_iff fun _ => verdict_bind_of_eq rfl fun info _ => ?_
  rw [payloadSpan_moved h]
  rfl

theorem verdict_addImage_content (h : insertion.offset ≤ part.offset) (format : ImageFormat) :
    ((insertion.moveContent content).addImage config size format
        (part.moved insertion.size)).verdict =
      (content.addImage config size format part).verdict.map insertion.moveContent := by
  refine verdict_ensure_bind Option.map_eq_none_iff fun _ =>
    verdict_ensure_bind (imp_congr_right fun _ => Option.map_eq_none_iff) fun _ =>
      verdict_bind_of_eq rfl fun info _ => verdict_bind_of_eq rfl fun _ _ => ?_
  rw [payloadSpan_moved h]
  rfl

/-- A chunk inside a frame, behind the new one. -/
theorem verdict_add_content (h : insertion.offset ≤ part.offset) :
    ((insertion.moveContent content).add config size (part.moved insertion.size)).verdict =
      (content.add config size part).verdict.map insertion.moveContent := by
  refine verdict_bind_of_eq rfl fun _ _ => ?_
  obtain ⟨kind, offset, payload⟩ := part
  cases kind with
  | alpha => exact verdict_addAlpha_content h
  | lossy => exact verdict_addImage_content h .lossy
  | lossless => exact verdict_addImage_content h .lossless
  | unknown name => rfl
  | animation | frame | exif | iccp | canvas | xmp => rfl

variable {place : Placement} {duration : Nat}

theorem frame?_moveContent (content : FrameContent) :
    (insertion.moveContent content).frame? place duration =
      (content.frame? place duration).map insertion.moveFrame := by
  obtain ⟨alpha, image⟩ := content
  cases image with
  | none => rfl
  | some image => cases alpha <;> rfl

/-- The content of a frame makes a frame, or lacks an image, as it did before. -/
theorem verdict_read_of_fold {walker walker' : Walker}
    (h : (walker'.walk.fold (FrameContent.add config place.rect.size) {}).verdict =
      (walker.walk.fold (FrameContent.add config place.rect.size) {}).verdict.map
        insertion.moveContent) :
    (FrameContent.read config place duration walker').verdict =
      (FrameContent.read config place duration walker).verdict.map insertion.moveFrame := by
  refine verdict_bind_map h fun content _ => ?_
  rw [frame?_moveContent]
  cases content.frame? place duration <;> rfl

/-- **A frame behind the new chunk** is read as it was, further back. -/
theorem verdict_read_moved {walker : Walker} (h : insertion.offset ≤ walker.offset) :
    (FrameContent.read config place duration (walker.moved insertion.size)).verdict =
      (FrameContent.read config place duration walker).verdict.map insertion.moveFrame :=
  verdict_read_of_fold ((walker.isMoved_walk insertion.size).verdict_fold
    (fun _ _ hpart =>
      verdict_add_content (Nat.le_trans h (Walker.offset_le_of_mem_walk hpart))) {})

/-- What has been found among chunks in front of the new one stays where it is. -/
theorem moveContent_of_foldlM {parts : List Chunk} {offset : Nat} {inner : Bytes}
    (htiles : Tiles offset inner parts) (hle : offset + inner.length ≤ insertion.offset)
    (h : (parts.foldlM (FrameContent.add config size) {}).result = .ok content) :
    insertion.moveContent content = content := by
  have hd := (FrameContent.foldlM_add config size parts).2 content h
  have hstop : ∀ found ∈ parts, found.payloadSpan.stop ≤ insertion.offset := fun found hfound =>
    Nat.le_trans (htiles.payloadSpan_within hfound).2 hle
  have halpha : content.alpha.map (Prod.map id insertion.moveSpan) = content.alpha := by
    refine map_moveSpan fun info span hfound => ?_
    obtain ⟨found, hmem, -, -, rfl⟩ := hd.alpha_eq_some info span hfound
    exact hstop found hmem
  have himage : content.image.map (Prod.map id insertion.moveSpan) = content.image := by
    refine map_moveSpan fun info span hfound => ?_
    obtain ⟨found, hmem, -, -, rfl⟩ := hd.image_eq_some info span hfound
    exact hstop found hmem
  rw [moveContent, halpha, himage]

/-- **The frame that the new chunk is put into** is read as it was, up to the new chunk and further
back behind it. -/
theorem EditsFrame.verdict_read {frame : Nat} {payload edited : Bytes}
    (h : insertion.EditsFrame frame payload edited) (hlt : edited.length < 2 ^ 32) :
    (FrameContent.read config place duration
        ⟨frame + 24, edited.drop FrameHeader.encodedLength⟩).verdict =
      (FrameContent.read config place duration
        ⟨frame + 24, payload.drop FrameHeader.encodedLength⟩).verdict.map insertion.moveFrame := by
  cases h with
  | @insert head inner rest parts _ length_head tiles padded offset_eq =>
    rw [List.drop_left' length_head, List.drop_left' length_head]
    have hinner : (inner ++ (insertion.unknown.bytes ++ rest)).length < 2 ^ 32 := by
      rw [List.length_append] at hlt
      omega
    refine verdict_read_of_fold (Walker.verdict_fold_insert insertion.unknown tiles padded hinner
      (fun content hcontent => ?_) fun content part hpart => ?_)
    · rw [moveContent_of_foldlM tiles (Nat.le_of_eq offset_eq.symm) hcontent]
      rfl
    · exact verdict_add_content (by omega)

end InsideFrame

/-! ### Among the chunks of a file -/

section AmongChunks

variable {config : Config} {file : Assembly} {chunk : Chunk}

theorem verdict_addCanvas :
    ((insertion.moveAssembly file).addCanvas config (chunk.moved insertion.size)).verdict =
      (file.addCanvas config chunk).verdict.map insertion.moveAssembly :=
  verdict_ensure_bind Iff.rfl fun _ =>
    verdict_ensure_bind Iff.rfl fun _ =>
      verdict_bind_of_eq rfl fun _ _ => verdict_bind_of_eq rfl fun _ _ =>
        verdict_bind_of_eq rfl fun _ _ => verdict_bind_of_eq rfl fun _ _ => rfl

theorem verdict_addAnimation :
    ((insertion.moveAssembly file).addAnimation (chunk.moved insertion.size)).verdict =
      (file.addAnimation chunk).verdict.map insertion.moveAssembly :=
  verdict_ensure_bind Iff.rfl fun _ =>
    verdict_ensure_bind Iff.rfl fun _ =>
      verdict_bind_of_eq rfl fun _ _ => verdict_bind_of_eq rfl fun _ _ =>
        verdict_bind_of_eq rfl fun _ _ => rfl

/-- A frame chunk in place of another, with the same header, that is read as the other is. -/
theorem verdict_addFrame_of_read {chunk' : Chunk}
    (hparity : chunk'.payload.length % 2 = chunk.payload.length % 2)
    (hlong : FrameHeader.encodedLength ≤ chunk'.payload.length ↔
      FrameHeader.encodedLength ≤ chunk.payload.length)
    (hheader : FrameHeader.encodedLength ≤ chunk.payload.length →
      FrameHeader.decode chunk'.payload = FrameHeader.decode chunk.payload)
    (hread : ∀ place duration, FrameHeader.encodedLength ≤ chunk.payload.length →
      (FrameContent.read config place duration
          (chunk'.children FrameHeader.encodedLength)).verdict =
        (FrameContent.read config place duration
          (chunk.children FrameHeader.encodedLength)).verdict.map insertion.moveFrame) :
    ((insertion.moveAssembly file).addFrame config chunk').verdict =
      (file.addFrame config chunk).verdict.map insertion.moveAssembly := by
  refine verdict_ensure_bind Iff.rfl fun _ =>
    verdict_ensure_bind (by rw [hparity]) fun _ =>
      verdict_ensure_bind hlong fun hle => verdict_bind_of_eq ?_ fun header _ =>
        verdict_bind_of_eq rfl fun _ _ => verdict_bind_of_eq rfl fun _ _ => ?_
  · rw [Chunk.read, Chunk.read, verdict_noting, verdict_noting, verdict, verdict,
      FrameHeader.result_read hle, FrameHeader.result_read (hlong.mpr hle), hheader hle]
  · obtain ⟨seen, extended, animation, canvas, pendingAlpha, frames, chunks⟩ := file
    cases canvas with
    | none => rfl
    | some canvas =>
      refine verdict_bind_of_eq rfl fun _ _ => ?_
      have hframe : ((FrameContent.read config
            (Assembly.placement (frames.map insertion.moveFrame).length header)
            (Assembly.frameDuration config header.duration)
            (chunk'.children FrameHeader.encodedLength)).noting (.readingChunk .anmf)).verdict =
          ((FrameContent.read config (Assembly.placement frames.length header)
            (Assembly.frameDuration config header.duration)
            (chunk.children FrameHeader.encodedLength)).noting (.readingChunk .anmf)).verdict.map
              insertion.moveFrame := by
        rw [List.length_map, verdict_noting, verdict_noting]
        exact hread _ _ hle
      refine verdict_bind_map hframe fun frame _ => congrArg Except.ok ?_
      simp only [moveAssembly, List.map_append, List.map_singleton]

/-- A frame behind the new chunk. -/
theorem verdict_addFrame (h : insertion.offset ≤ chunk.offset) :
    ((insertion.moveAssembly file).addFrame config (chunk.moved insertion.size)).verdict =
      (file.addFrame config chunk).verdict.map insertion.moveAssembly := by
  refine verdict_addFrame_of_read rfl Iff.rfl (fun _ => rfl) fun place duration hlong => ?_
  have hbehind : insertion.offset ≤ (chunk.children FrameHeader.encodedLength).offset := by
    rw [Chunk.children_frameHeader hlong]
    exact Nat.le_add_right_of_le h
  rw [Walker.children_moved]
  exact verdict_read_moved hbehind

theorem verdict_stillCanvas (format : ImageFormat) (image : Size) :
    ((insertion.moveAssembly file).stillCanvas config format image).verdict =
      (file.stillCanvas config format image).verdict.map insertion.moveAssembly := by
  obtain ⟨seen, extended, animation, canvas, pendingAlpha, frames, chunks⟩ := file
  cases extended with
  | none => exact verdict_bind_of_eq rfl fun _ _ => rfl
  | some header => exact verdict_bind_of_eq rfl fun _ _ => rfl

theorem verdict_addImage (h : insertion.offset ≤ chunk.offset) (format : ImageFormat) :
    ((insertion.moveAssembly file).addImage config format (chunk.moved insertion.size)).verdict =
      (file.addImage config format chunk).verdict.map insertion.moveAssembly := by
  refine verdict_ensure_bind Iff.rfl fun _ =>
    verdict_ensure_bind Iff.rfl fun _ =>
      verdict_ensure_bind Iff.rfl fun _ =>
        verdict_bind_of_eq rfl fun info _ =>
          verdict_bind_map (verdict_stillCanvas format info.size) fun told _ => ?_
  refine congrArg Except.ok ?_
  rw [payloadSpan_moved h]
  simp only [moveAssembly, moveFrame, List.map_append, List.map_singleton, List.length_map,
    Option.map_map, Option.map_none]
  rfl

theorem verdict_addAlpha (h : insertion.offset ≤ chunk.offset) :
    ((insertion.moveAssembly file).addAlpha (chunk.moved insertion.size)).verdict =
      (file.addAlpha chunk).verdict.map insertion.moveAssembly := by
  refine verdict_ensure_bind Iff.rfl fun _ =>
    verdict_ensure_bind Iff.rfl fun _ =>
      verdict_ensure_bind Iff.rfl fun _ =>
        verdict_ensure_bind Iff.rfl fun _ =>
          verdict_bind_of_eq rfl fun info _ => ?_
  rw [payloadSpan_moved h]
  rfl

theorem verdict_addProfile :
    (insertion.moveAssembly file).addProfile.verdict =
      file.addProfile.verdict.map insertion.moveAssembly :=
  verdict_ensure_bind Iff.rfl fun _ =>
    verdict_ensure_bind Iff.rfl fun _ => verdict_ensure_bind Iff.rfl fun _ => rfl

theorem verdict_interpret (h : insertion.offset ≤ chunk.offset) :
    ((insertion.moveAssembly file).interpret config (chunk.moved insertion.size)).verdict =
      (file.interpret config chunk).verdict.map insertion.moveAssembly := by
  obtain ⟨kind, offset, payload⟩ := chunk
  cases kind with
  | canvas => exact verdict_addCanvas
  | animation => exact verdict_addAnimation
  | frame => exact verdict_addFrame h
  | lossy => exact verdict_addImage h .lossy
  | lossless => exact verdict_addImage h .lossless
  | alpha => exact verdict_addAlpha h
  | iccp => exact verdict_addProfile
  | exif | xmp | unknown _ => rfl

/-- **A chunk behind the new one** tells what it told before, up to the places. -/
theorem verdict_add_moved (h : insertion.offset ≤ chunk.offset) :
    ((insertion.moveAssembly file).add config (chunk.moved insertion.size)).verdict =
      (file.add config chunk).verdict.map insertion.moveAssembly := by
  refine verdict_bind_of_eq rfl fun _ _ =>
    verdict_bind_map (verdict_interpret h) fun told _ => congrArg Except.ok ?_
  rw [moveAssembly, moveAssembly, moveEntries_concat h]
  rfl

theorem hasAlpha_moveAssembly : (insertion.moveAssembly file).hasAlpha = file.hasAlpha :=
  List.any_map

/-- What must hold at the end does not depend on places. -/
theorem verdict_check : (insertion.moveAssembly file).check.verdict = file.check.verdict := by
  have hnil : (insertion.moveAssembly file).frames ≠ [] ↔ file.frames ≠ [] :=
    not_congr List.map_eq_nil_iff
  have hcount : (insertion.moveAssembly file).frames.length = file.frames.length :=
    List.length_map _
  have hlogged {event event' : Event} {p q : Prop} [Decidable p] [Decidable q] :
      (emitIf p event : Parsed Unit).verdict = (emitIf q event' : Parsed Unit).verdict :=
    verdict_of_result_eq ((result_emitIf _ _).trans (result_emitIf _ _).symm)
  have hflags (header : CanvasHeader) : ((insertion.moveAssembly file).checkFlags header).verdict =
      (file.checkFlags header).verdict :=
    verdict_bind_congr hlogged fun _ => verdict_bind_congr hlogged fun _ =>
      verdict_bind_congr rfl fun _ => verdict_bind_congr rfl fun _ =>
        verdict_bind_congr rfl fun _ => verdict_ensure_congr (by rw [hcount])
  have hextended : (insertion.moveAssembly file).extended = file.extended := rfl
  rw [Assembly.check, Assembly.check, hextended]
  cases file.extended with
  | none => exact verdict_bind_congr rfl fun _ =>
      verdict_bind_congr (verdict_ensure_congr hnil) fun _ => rfl
  | some header => exact verdict_bind_congr rfl fun _ =>
      verdict_bind_congr (verdict_ensure_congr hnil) fun _ => hflags header

theorem toHeader_moveAssembly (length : Nat) :
    (insertion.moveAssembly file).toHeader (length + insertion.size) =
      insertion.moveHeader (file.toHeader length) := by
  rw [Assembly.toHeader, hasAlpha_moveAssembly]
  rfl

/-- **In front of the new chunk** nothing moves. -/
theorem moveAssembly_of_foldlM {front : List Chunk} {run : Bytes} (htiles : Tiles 12 run front)
    (hle : 12 + run.length ≤ insertion.offset)
    (h : (front.foldlM (Assembly.add config) {}).result = .ok file) :
    insertion.moveAssembly file = { file with chunks := insertion.moveEntries file.chunks } := by
  have ht := Assembly.traces_of_foldlM (fun _ => htiles.length_lt) h
  have hpending : file.pendingAlpha.map (Prod.map id insertion.moveSpan) = file.pendingAlpha := by
    refine map_moveSpan fun info span hfound => ?_
    obtain ⟨chunk, hmem, -, -, rfl⟩ := ht.pending info span hfound
    exact Nat.le_trans (htiles.payloadSpan_within hmem).2 hle
  have hframes : file.frames.map insertion.moveFrame = file.frames := by
    refine (List.map_congr_left fun frame hframe => ?_).trans (List.map_id _)
    obtain ⟨i, hi⟩ := List.mem_iff_getElem?.mp hframe
    obtain ⟨chunk, hchunk, hbrought⟩ := exists_getElem?_of_forall₂ ht.frames hi
    have hspans := hbrought.spans_within htiles (mem_of_filter_getElem? hchunk).1
    exact moveFrame_of_le fun span hspan => Nat.le_trans (hspans span hspan).2 hle
  rw [moveAssembly, hpending, hframes]

/-- The chunks of a run stand in front of its end. -/
theorem offset_lt_of_foldlM {front : List Chunk} {run : Bytes} (htiles : Tiles 12 run front)
    (h : (front.foldlM (Assembly.add config) {}).result = .ok file) :
    ∀ entry ∈ file.chunks, entry.offset < 12 + run.length := by
  have hd := (Assembly.foldlM_add config front fun _ => htiles.length_lt).2 file h
  rw [hd.chunks_eq, List.forall_mem_map]
  intro chunk hmem
  have hstop := (htiles.payloadSpan_within hmem).2
  change chunk.offset + 8 + chunk.payload.length ≤ _ at hstop
  change chunk.offset < _
  omega

theorem map_moveEntry_of_lt {entries : List ChunkEntry} {stop : Nat}
    (h : ∀ entry ∈ entries, entry.offset < stop) (hle : stop ≤ insertion.offset)
    (hframe : ∀ frame, insertion.frame? = some frame → stop ≤ frame) :
    entries.map insertion.moveEntry = entries :=
  (List.map_congr_left fun entry hentry =>
    moveEntry_of_lt (Nat.lt_of_lt_of_le (h entry hentry) hle) fun frame heq =>
      Nat.lt_of_lt_of_le (h entry hentry) (hframe frame heq)).trans (List.map_id _)

/-- The new chunk itself is only entered in the directory. -/
theorem result_add_unknown {front : List Chunk} {run : Bytes} (hframe? : insertion.frame? = none)
    (htiles : Tiles 12 run front) (hoffset : insertion.offset = 12 + run.length)
    (h : (front.foldlM (Assembly.add config) {}).result = .ok file) :
    (file.add config (insertion.unknown.chunkAt (12 + run.length))).result =
      .ok (insertion.moveAssembly file) := by
  have hlt := offset_lt_of_foldlM htiles h
  have hkept : file.chunks.map insertion.moveEntry = file.chunks :=
    map_moveEntry_of_lt hlt (Nat.le_of_eq hoffset.symm) fun _ heq => nomatch hframe?.symm.trans heq
  have hentries : insertion.moveEntries file.chunks =
      file.chunks ++ [(insertion.unknown.chunkAt (12 + run.length)).entry] := by
    rw [← hoffset] at hlt
    rw [moveEntries_of_lt hlt, hkept, added, hframe?, hoffset]
  rw [moveAssembly_of_foldlM htiles (Nat.le_of_eq hoffset.symm) h, hentries]
  rfl

/-- In front of the frame that the new chunk is put into nothing moves. -/
theorem moveAssembly_of_frame {front : List Chunk} {run : Bytes}
    (hframe? : insertion.frame? = some (12 + run.length)) (htiles : Tiles 12 run front)
    (hle : 12 + run.length ≤ insertion.offset)
    (h : (front.foldlM (Assembly.add config) {}).result = .ok file) :
    insertion.moveAssembly file = file := by
  have hlt := offset_lt_of_foldlM htiles h
  have hkept := map_moveEntry_of_lt hlt hle fun frame heq =>
    Nat.le_of_eq (Option.some.inj (hframe?.symm.trans heq))
  rw [moveAssembly_of_foldlM htiles hle h,
    moveEntries_of_lt fun entry hentry => Nat.lt_of_lt_of_le (hlt entry hentry) hle, hkept, added,
    hframe?, List.append_nil]

theorem EditsFrame.verdict_addFrame {frame : Nat} {payload edited : Bytes}
    (h : insertion.EditsFrame frame payload edited) (hlt : edited.length < 2 ^ 32) :
    ((insertion.moveAssembly file).addFrame config ⟨.frame, frame, edited⟩).verdict =
      (file.addFrame config ⟨.frame, frame, payload⟩).verdict.map insertion.moveAssembly := by
  have hlength := h.length_eq
  have hlong := h.encodedLength_le
  have hlonger : FrameHeader.encodedLength ≤ edited.length := by omega
  have heven : insertion.size % 2 = 0 := insertion.unknown.size_even
  refine verdict_addFrame_of_read ?_ (iff_of_true hlonger hlong) (fun _ => h.decode_eq)
    fun place duration _ => ?_
  · dsimp only
    omega
  · rw [Chunk.children_frameHeader hlonger, Chunk.children_frameHeader hlong]
    exact h.verdict_read hlt

/-- **The frame that the new chunk is put into** tells what it told before, up to the places, and
its entry in the directory is longer. -/
theorem EditsFrame.verdict_add {front : List Chunk} {run payload edited : Bytes}
    (h : insertion.EditsFrame (12 + run.length) payload edited) (hlt : edited.length < 2 ^ 32)
    (htiles : Tiles 12 run front)
    (hfile : (front.foldlM (Assembly.add config) {}).result = .ok file) :
    (file.add config ⟨.frame, 12 + run.length, edited⟩).verdict =
      (file.add config ⟨.frame, 12 + run.length, payload⟩).verdict.map insertion.moveAssembly := by
  have hsame := moveAssembly_of_frame h.frame?_eq htiles (Nat.le_of_lt h.offset_mem.1) hfile
  have hframe : (file.addFrame config ⟨.frame, 12 + run.length, edited⟩).verdict =
      (file.addFrame config ⟨.frame, 12 + run.length, payload⟩).verdict.map
        insertion.moveAssembly := by
    rw [← h.verdict_addFrame hlt, hsame]
  refine verdict_bind_of_eq rfl fun _ _ =>
    verdict_bind_map hframe fun told htold => congrArg Except.ok ?_
  obtain ⟨-, -, -, -, -, -, -, -, frame, -, rfl⟩ := Assembly.addFrame_eq_ok_iff.mp htold
  have hfront : ∀ entry ∈ file.chunks, entry.offset < insertion.offset := fun entry hentry =>
    Nat.lt_trans (offset_lt_of_foldlM htiles hfile entry hentry) h.offset_mem.1
  have hentries : insertion.moveEntries
      (file.chunks ++ [⟨.frame, 12 + run.length, payload.length⟩]) = _ :=
    moveEntries_concat_frame h.frame?_eq h.offset_mem.1 hfront
  simp only [moveAssembly, Chunk.entry, hentries, h.length_eq]

end AmongChunks

/-- **The chunks of a file, with the new one in its place,** are taken as they were, up to the
places. -/
theorem Edits.verdict_fold (config : Config) {chunks edited : Bytes}
    (h : insertion.Edits chunks edited) (hlt : edited.length < 2 ^ 32) :
    ((Walker.mk 12 edited).walk.fold (Assembly.add config) {}).verdict =
      ((Walker.mk 12 chunks).walk.fold (Assembly.add config) {}).verdict.map
        insertion.moveAssembly := by
  cases h with
  | amongChunks frame?_eq tiles padded offset_eq =>
    exact Walker.verdict_fold_insert insertion.unknown tiles padded hlt
      (fun file hfile => result_add_unknown frame?_eq tiles offset_eq hfile)
      fun file chunk hchunk => verdict_add_moved (by omega)
  | insideFrame tiles padded frame =>
    have hshort := hlt
    simp only [List.length_append, ChunkHeader.length_encode] at hshort
    exact Walker.verdict_fold_replace tiles padded insertion.unknown.size_even frame.length_eq hlt
      (fun file hfile => frame.verdict_add (by omega) tiles hfile)
      fun file chunk hchunk => verdict_add_moved (Nat.le_trans frame.offset_mem.2 hchunk)

/-- **Unknown chunks are transparent.** An unknown chunk is put into a file, at any place where a
walk over its chunks stands, or the walk over the chunks inside a frame. The file is refused for the
same cause as before, or it is accepted and described as before, but for the places and lengths of
what is behind the new chunk or around it, and for the entry of the new chunk. -/
theorem verdict_parse_apply (insertion : Insertion) (config : Config) {data : Bytes}
    (framed : IsFramed data) (stands : data.Stands insertion.frame? insertion.offset)
    (room : data.declaredLength + insertion.size ≤ 2 ^ 32 - 9) :
    (parse config (insertion.apply data)).verdict =
      (parse config data).verdict.map insertion.moveHeader := by
  obtain ⟨hframed, hdeclared, hedits⟩ := edits_apply framed stands room
  have hlength : data.declaredLength + insertion.size + 8 =
      data.declaredLength + 8 + insertion.size := by omega
  rw [verdict_of_result_eq (result_parse_of_isFramed hframed),
    verdict_of_result_eq (result_parse_of_isFramed framed)]
  refine verdict_bind_map (hedits.verdict_fold config hframed.length_chunks_lt) fun file _ =>
    verdict_bind_of_eq verdict_check fun _ _ => congrArg Except.ok ?_
  rw [hdeclared, hlength, toHeader_moveAssembly]

/-- A chunk of three bytes and one of padding. -/
def testChunk : UnknownChunk where
  name := ⟨0x54, 0x45, 0x53, 0x54⟩
  payload := [1, 2, 3]
  pad := [0]
  isKnown_eq := by decide
  length_pad := rfl

/-- The ranges of the frames, and the offsets and lengths of the chunks. -/
def places (header : FileHeader) : List (List Span) × List (Nat × Nat) :=
  (header.frames.map Frame.spans, header.chunks.map fun entry => (entry.offset, entry.length))

/-- The chunk is put in front of the first frame of the animation, and inside that frame between the
alpha plane and the image. In the first place everything of both frames moves by twelve bytes, in
the second place the alpha plane stays and the entry of the frame is longer. -/
theorem verdict_parse_apply_alphaAnimation :
    let among : Insertion := ⟨testChunk, 44, none⟩
    let inside : Insertion := ⟨testChunk, 78, some 44⟩
    ∃ header, (parse {} alphaAnimation).result = .ok header ∧
      (parse {} (among.apply alphaAnimation)).result = .ok (among.moveHeader header) ∧
      places (among.moveHeader header) = ([[⟨98, 110⟩, ⟨88, 90⟩], [⟨142, 148⟩]],
        [(12, 10), (30, 6), (44, 3), (56, 46), (110, 30)]) ∧
      (parse {} (inside.apply alphaAnimation)).result = .ok (inside.moveHeader header) ∧
      places (inside.moveHeader header) = ([[⟨98, 110⟩, ⟨76, 78⟩], [⟨142, 148⟩]],
        [(12, 10), (30, 6), (44, 58), (110, 30)]) := by
  intro among inside
  have hread : (parse {} alphaAnimation).result.toOption.isSome := by decide +kernel
  obtain ⟨header, hheader⟩ := Option.isSome_iff_exists.mp hread
  rw [toOption_result_eq_some_iff] at hheader
  have hplaces {insertion : Insertion} {found : List (List Span) × List (Nat × Nat)}
      (h : ((parse {} alphaAnimation).result.toOption.map fun header =>
        places (insertion.moveHeader header)) = some found) :
      places (insertion.moveHeader header) = found := by
    rw [hheader] at h
    exact Option.some.inj h
  have hframed := (traces_of_parse hheader).1
  have hbefore : alphaAnimation.WholeChunks 12 44 :=
    Bytes.wholeChunks_of_walk (by decide) (by decide) (by decide +kernel)
  have hbehind : alphaAnimation.WholeChunks 68 78 :=
    Bytes.wholeChunks_of_walk (by decide) (by decide) (by decide +kernel)
  have hamong := verdict_parse_apply among {} hframed (.amongChunks hbefore (by decide)) (by decide)
  have hinside := verdict_parse_apply inside {} hframed
    (.insideFrame hbefore (by decide) (by decide) hbehind (by decide)) (by decide)
  rw [verdict_eq_ok_iff.mpr hheader] at hamong hinside
  exact ⟨header, hheader, verdict_eq_ok_iff.mp hamong, hplaces (by decide +kernel),
    verdict_eq_ok_iff.mp hinside, hplaces (by decide +kernel)⟩

end Insertion

end WebP
