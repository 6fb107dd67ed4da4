import WebP.Proofs.Container.Steps

/-!
# Which kinds have been seen

Whether a chunk may come is decided by the set of kinds that have been seen. Beside this set, a
reader keeps the directory of all chunks. Every chunk that is taken adds its own kind to the set
when it is interpreted, and is entered in the directory, so that at any time the set holds the kinds
of the chunks in the directory.

## Main definitions

* `WebP.KindSet.insertAll`: a set with more kinds.
* `WebP.Assembly.SeesDirectory`: the set holds the kinds in the directory.
* `WebP.Assembly.entering`: what is known of a file, with chunks added to the set and entered in the
  directory.

## Main results

* `WebP.Assembly.seen_of_interpret`: every chunk adds its own kind.
* `WebP.Assembly.SeesDirectory.foldlM_add`: the set holds the kinds in the directory at any time.
-/

namespace WebP

open Outcome

namespace KindSet

variable {kinds : KindSet} {kind : ChunkKind}

/-- The set with more kinds. -/
def insertAll (kinds : KindSet) (new : List ChunkKind) : KindSet := new.foldl insert kinds

theorem insertAll_concat (new : List ChunkKind) (kind : ChunkKind) :
    kinds.insertAll (new ++ [kind]) = (kinds.insertAll new).insert kind :=
  List.foldl_append

theorem has_insertAll_iff {new : List ChunkKind} :
    (kinds.insertAll new).has kind ↔ kinds.has kind ∨ kind.isKnown ∧ kind ∈ new := by
  induction new using List.reverseRecOn with
  | nil => exact (or_iff_left fun h => List.not_mem_nil h.2).symm
  | append_singleton new last ih =>
    rw [insertAll_concat, has_insert_iff, ih, List.mem_append, List.mem_singleton, and_or_left,
      or_assoc]

end KindSet

namespace Assembly

variable {config : Config} {file next told : Assembly} {chunk : Chunk} {kind : ChunkKind}

/-! ### What a chunk adds -/

/-- **Every chunk adds its own kind** to those that have been seen, and leaves the directory to be
kept by the reader. -/
theorem seen_of_interpret (h : (file.interpret config chunk).result = .ok told) :
    told.seen = file.seen.insert chunk.kind ∧ told.chunks = file.chunks := by
  have himage (format : ImageFormat) (hkind : chunk.kind = format.kind) :
      told.seen = file.seen.insert chunk.kind ∧ told.chunks = file.chunks := by
    rw [interpret_of_image hkind] at h
    obtain ⟨-, -, -, info, -, -, rfl⟩ := addImage_eq_ok_iff.mp h
    rw [hkind]
    exact ⟨rfl, rfl⟩
  cases hkind : chunk.kind with
  | lossy => exact hkind ▸ himage .lossy hkind
  | lossless => exact hkind ▸ himage .lossless hkind
  | canvas =>
    rw [interpret, hkind] at h
    obtain ⟨-, -, -, rfl⟩ := addCanvas_eq_ok_iff.mp h
    exact ⟨rfl, rfl⟩
  | animation =>
    rw [interpret, hkind] at h
    obtain ⟨-, -, -, rfl⟩ := addAnimation_eq_ok_iff.mp h
    exact ⟨rfl, rfl⟩
  | frame =>
    rw [interpret, hkind] at h
    obtain ⟨-, -, -, -, -, _, -, -, frame, -, rfl⟩ := addFrame_eq_ok_iff.mp h
    exact ⟨rfl, rfl⟩
  | alpha =>
    rw [interpret, hkind] at h
    obtain ⟨-, -, -, -, info, -, rfl⟩ := addAlpha_eq_ok_iff.mp h
    exact ⟨rfl, rfl⟩
  | iccp =>
    rw [interpret, hkind] at h
    obtain ⟨-, -, -, rfl⟩ := addProfile_eq_ok_iff.mp h
    exact ⟨rfl, rfl⟩
  | exif | xmp | unknown _ =>
    rw [interpret, hkind] at h
    cases h
    exact ⟨rfl, rfl⟩

/-! ### The set and the directory -/

/-- The kinds that have been seen are those of the chunks in the directory. -/
def SeesDirectory (file : Assembly) : Prop :=
  file.seen = KindSet.insertAll {} (file.chunks.map ChunkEntry.kind)

namespace SeesDirectory

/-- A kind with a meaning has been seen exactly if a chunk of that kind is in the directory. -/
theorem has_iff (h : file.SeesDirectory) (hknown : kind.isKnown) :
    file.Has kind ↔ ∃ entry ∈ file.chunks, entry.kind = kind := by
  have hempty : ¬ KindSet.has {} kind := by
    cases kind <;> exact Bool.false_ne_true
  rw [Has, h, KindSet.has_insertAll_iff, or_iff_right hempty, and_iff_right hknown, List.mem_map]

/-- **One more chunk.** -/
theorem add (h : file.SeesDirectory) (hadd : (file.add config chunk).result = .ok next) :
    next.SeesDirectory := by
  obtain ⟨told, htold, rfl⟩ := add_eq_ok_iff.mp hadd
  obtain ⟨hseen, hchunks⟩ := seen_of_interpret htold
  rw [SeesDirectory, hseen, hchunks, h, List.map_append, List.map_singleton,
    KindSet.insertAll_concat]
  rfl

/-- **Chunk after chunk.** -/
theorem foldlM_add (h : file.SeesDirectory) {chunks : List Chunk}
    (hfold : (chunks.foldlM (Assembly.add config) file).result = .ok next) :
    next.SeesDirectory :=
  foldlM_preserves SeesDirectory (fun _ _ _ _ h => h.add) h hfold

end SeesDirectory

/-- At the start nothing has been seen, and the directory is empty. -/
theorem seesDirectory_nil : SeesDirectory {} := rfl

/-! ### Chunks that are entered -/

/-- What is known of a file, with the kinds of chunks added to those that have been seen and the
chunks entered in the directory. -/
def entering (file : Assembly) (chunks : List Chunk) : Assembly :=
  { file with
    seen := file.seen.insertAll (chunks.map Chunk.kind)
    chunks := file.chunks ++ chunks.map Chunk.entry }

@[simp] theorem entering_nil : file.entering [] = file := by
  rw [entering, List.map_nil, List.map_nil, List.append_nil]
  rfl

/-- Chunks are entered one after another. -/
theorem entering_append (front back : List Chunk) :
    file.entering (front ++ back) = (file.entering front).entering back := by
  simp only [entering, List.map_append, List.append_assoc, KindSet.insertAll, List.foldl_append]

theorem has_entering_iff {chunks : List Chunk} :
    (file.entering chunks).Has kind ↔
      file.Has kind ∨ kind.isKnown ∧ kind ∈ chunks.map Chunk.kind :=
  KindSet.has_insertAll_iff

end Assembly

end WebP
