import Mathlib.Tactic.SplitIfs
import WebP.Container.File
import WebP.Proofs.Chunk.Encoding

/-!
# The outer frame of a file

A file begins with the code `RIFF`, the number of bytes behind the first eight, and the code
`WEBP`. The chunks lie between these twelve bytes and the declared end, whatever follows.

## Main definitions

* `WebP.Bytes.declaredLength`: the number in the header of a file.
* `WebP.IsFramed`: the input begins with the header of a file of which no byte is missing.

## Main results

* `WebP.chunkSpan_eq_ok_iff`: the chunks of an input are looked for exactly if it is framed.
* `WebP.isFramed_encode`, `WebP.IsFramed.eq_append`: a written file is framed, and a framed input is
  a written file with other bytes behind it.
-/

namespace WebP

open Cursor Cursor.Read Outcome

/-- The number of bytes that a file declares behind the first eight. -/
def Bytes.declaredLength (data : Bytes) : Nat := (data.slice ⟨4, 8⟩).natLE

/-- The declared length is a number of four bytes. -/
theorem Bytes.declaredLength_lt (data : Bytes) : data.declaredLength < 2 ^ 32 :=
  natLE_slice_lt (rfl : 4 + 4 = 8)

/-- The input begins with the header of a file, and no byte of the file is missing. -/
structure IsFramed (data : Bytes) : Prop where
  length_ge : 20 ≤ data.length
  riff : data.slice ⟨0, 4⟩ = FourCC.riff.bytes
  webp : data.slice ⟨8, 12⟩ = FourCC.webp.bytes
  declared_ge : 8 ≤ data.declaredLength
  declared_le : data.declaredLength ≤ 2 ^ 32 - 9
  complete : data.declaredLength + 8 ≤ data.length

theorem IsFramed.length_chunks_lt {data : Bytes} (h : IsFramed data) :
    (data.slice ⟨12, data.declaredLength + 8⟩).length < 2 ^ 32 := by
  have hle := h.declared_le
  rw [Bytes.length_slice]
  dsimp only
  omega

theorem FourCC.bytes_inj {a b : FourCC} : a.bytes = b.bytes ↔ a = b := by
  obtain ⟨a₀, a₁, a₂, a₃⟩ := a
  obtain ⟨b₀, b₁, b₂, b₃⟩ := b
  simp only [bytes, List.cons.injEq, and_true, mk.injEq]

namespace Cursor.Read

variable {α β : Type}

/-- Behind a read that succeeds, the outcome of a sequence is that of its rest. -/
theorem Takes.result_bind {read : Read α} {next : α → Read β} {front tail : Bytes} {a : α}
    {cursor : Cursor} (h : Takes read front a) (hc : cursor.rest = front ++ tail) :
    ((read >>= next).run cursor).1.result =
      ((next a).run { cursor with position := cursor.position + front.length }).1.result := by
  obtain ⟨hr, hn⟩ := h cursor tail hc
  rw [run_bind, hr]
  simp only [hn]

/-- A condition lets the rest of a sequence run, or is the fault. -/
theorem result_ensure_bind (p : Prop) [Decidable p] (cause : Cause) (notes : List Note)
    (next : Unit → Read β) (cursor : Cursor) :
    ((Read.ensure p cause notes >>= next).run cursor).1.result =
      if p then ((next ()).run cursor).1.result else .error ⟨cause, notes⟩ := by
  by_cases hp : p
  · have hpass : Read.ensure p cause notes = pure () := if_pos hp
    rw [hpass, if_pos hp]
    rfl
  · have hstop : Read.ensure p cause notes = Read.fail cause notes := if_neg hp
    rw [hstop, if_neg hp]
    rfl

end Cursor.Read

/-- Twelve bytes are the header of a file if the codes are those of a file. -/
theorem RiffHeader.result_read (header : ChunkHeader) (form : FourCC) (back : Bytes)
    (h : header.length < 2 ^ 32) :
    (read.ofStart (header.encode ++ (form.bytes ++ back))).result =
      if header.name = .riff then
        if form = .webp then .ok ⟨header.length⟩ else .error ⟨.invalidInput, [.notWebP]⟩
      else .error ⟨.invalidInput, [.notRiff]⟩ := by
  rw [ofStart, read, (ChunkHeader.takes_read h).result_bind rfl, result_ensure_bind]
  refine ite_congr rfl (fun _ => ?_) fun _ => rfl
  rw [(takes_fourCC form).result_bind (rest_advanced rfl), result_ensure_bind]
  rfl

/-- The first twelve bytes of an input, cut into their three parts. -/
theorem Bytes.eq_riff_append {data : Bytes} (h : 12 ≤ data.length) :
    ∃ name form : FourCC, data.slice ⟨0, 4⟩ = name.bytes ∧ data.slice ⟨8, 12⟩ = form.bytes ∧
      data = (ChunkHeader.mk name data.declaredLength).encode ++ (form.bytes ++ data.drop 12) := by
  obtain ⟨a, b, c, d, l₀, l₁, l₂, l₃, e, f, g, i, back, rfl⟩ :
      ∃ a b c d l₀ l₁ l₂ l₃ e f g i back,
        data = a :: b :: c :: d :: l₀ :: l₁ :: l₂ :: l₃ :: e :: f :: g :: i :: back := by
    match data, h with
    | a :: b :: c :: d :: l₀ :: l₁ :: l₂ :: l₃ :: e :: f :: g :: i :: back, _ =>
      exact ⟨a, b, c, d, l₀, l₁, l₂, l₃, e, f, g, i, back, rfl⟩
  refine ⟨⟨a, b, c, d⟩, ⟨e, f, g, i⟩, rfl, rfl, ?_⟩
  have hl : Bytes.ofNatLE 4 (Bytes.natLE [l₀, l₁, l₂, l₃]) = [l₀, l₁, l₂, l₃] :=
    ofNatLE_natLE [l₀, l₁, l₂, l₃]
  change _ = ([a, b, c, d] ++ Bytes.ofNatLE 4 (Bytes.natLE [l₀, l₁, l₂, l₃])) ++ _
  rw [hl]
  rfl

/-- **Framing.** The chunks of an input are looked for exactly if it begins with the header of a
file of which no byte is missing; they lie between that header and the declared end. -/
theorem chunkSpan_eq_ok_iff {data : Bytes} {span : Span} :
    (chunkSpan data).result = .ok span ↔
      IsFramed data ∧ span = ⟨12, data.declaredLength + 8⟩ := by
  by_cases h20 : 20 ≤ data.length
  · obtain ⟨name, form, hname, hform, hdata⟩ := Bytes.eq_riff_append (by omega : 12 ≤ data.length)
    have hread := RiffHeader.result_read ⟨name, data.declaredLength⟩ form (data.drop 12)
      data.declaredLength_lt
    rw [← hdata] at hread
    dsimp only at hread
    have hriff : name = .riff ↔ data.slice ⟨0, 4⟩ = FourCC.riff.bytes := by
      rw [hname, FourCC.bytes_inj]
    have hwebp : form = .webp ↔ data.slice ⟨8, 12⟩ = FourCC.webp.bytes := by
      rw [hform, FourCC.bytes_inj]
    have hcodes (riff : RiffHeader) : (RiffHeader.read.ofStart data).result = .ok riff ↔
        name = .riff ∧ form = .webp ∧ ⟨data.declaredLength⟩ = riff := by
      rw [hread]
      split_ifs with hr hw
      · simp only [hr, hw, Except.ok.injEq, true_and]
      · simp only [hw, false_and, and_false]
      · simp only [hr, false_and]
    simp only [chunkSpan, result_bind_eq_ok, result_ensure_eq_ok, result_noting_eq_ok, result_emit,
      result_emitIf, result_pure, Except.ok.injEq, exists_const, true_and, hcodes, hriff, hwebp]
    constructor
    · rintro ⟨-, riff, ⟨hr, hw, rfl⟩, hge, hle, hall, rfl⟩
      exact ⟨⟨h20, hr, hw, hge, hle, hall⟩, rfl⟩
    · rintro ⟨h, rfl⟩
      exact ⟨h20, _, ⟨h.riff, h.webp, rfl⟩, h.declared_ge, h.declared_le, h.complete, rfl⟩
  · constructor
    · intro h
      obtain ⟨_, h, -⟩ := result_bind_eq_ok.mp h
      exact absurd (result_ensure_eq_ok.mp h) h20
    · exact fun h => absurd h.1.length_ge h20

section Encode

variable {body : Bytes}

/-- The header of a file and what is behind it, written. -/
private theorem slice_encode (length : Nat) (body : Bytes) :
    let data := (ChunkHeader.mk .riff length).encode ++ (FourCC.webp.bytes ++ body)
    data.slice ⟨0, 4⟩ = FourCC.riff.bytes ∧ data.slice ⟨4, 8⟩ = .ofNatLE 4 length ∧
      data.slice ⟨8, 12⟩ = FourCC.webp.bytes ∧ data.drop 12 = body :=
  ⟨rfl, rfl, rfl, rfl⟩

/-- A file that is written with other bytes behind it is framed, and its chunks are looked for where
they were written. -/
theorem isFramed_encode_append {length : Nat} (hlength : 4 + body.length = length)
    (hge : 8 ≤ length) (hle : length ≤ 2 ^ 32 - 9) {back : Bytes}
    (hlong : 8 ≤ (body ++ back).length) :
    let data := (ChunkHeader.mk .riff length).encode ++ (FourCC.webp.bytes ++ (body ++ back))
    IsFramed data ∧ data.declaredLength = length ∧
      data.slice ⟨12, data.declaredLength + 8⟩ = body := by
  intro data
  obtain ⟨hriff, hwritten, hwebp, hbody⟩ := slice_encode length (body ++ back)
  have hdeclared : data.declaredLength = length := by
    rw [Bytes.declaredLength, hwritten, Bytes.natLE_ofNatLE (by omega)]
  have hdata : data.length = 12 + (body ++ back).length := by
    simp only [data, List.length_append, ChunkHeader.length_encode, FourCC.length_bytes]
    omega
  have hbehind : (body ++ back).length = body.length + back.length := List.length_append
  refine ⟨⟨by omega, hriff, hwebp, by omega, by omega, by omega⟩, hdeclared, ?_⟩
  have hcount : length + 8 - 12 = body.length := by omega
  rw [Bytes.slice, hdeclared]
  dsimp only
  rw [hbody, hcount, List.take_left]

/-- **A written file is framed.** Its declared length is that of what is written behind the first
eight bytes, and its chunks are looked for where they were written. -/
theorem isFramed_encode (hge : 8 ≤ body.length) (hle : 4 + body.length ≤ 2 ^ 32 - 9) :
    let data := (ChunkHeader.mk .riff (4 + body.length)).encode ++ (FourCC.webp.bytes ++ body)
    IsFramed data ∧ data.declaredLength + 8 = data.length ∧
      data.slice ⟨12, data.declaredLength + 8⟩ = body := by
  intro data
  have hbody : 8 ≤ (body ++ []).length := by
    rw [List.append_nil]
    exact hge
  obtain ⟨hframed, hdeclared, hslice⟩ := isFramed_encode_append rfl (by omega) hle hbody
  rw [List.append_nil] at hframed hdeclared hslice
  refine ⟨hframed, ?_, hslice⟩
  change data.declaredLength = _ at hdeclared
  rw [hdeclared]
  simp only [data, List.length_append, ChunkHeader.length_encode, FourCC.length_bytes]
  omega

/-- A framed input is a written file with other bytes behind it. -/
theorem IsFramed.eq_append {data : Bytes} (h : IsFramed data) :
    data = (ChunkHeader.mk .riff data.declaredLength).encode ++ (FourCC.webp.bytes ++
      (data.slice ⟨12, data.declaredLength + 8⟩ ++ data.drop (data.declaredLength + 8))) := by
  have hge := h.length_ge
  have hdeclared := h.declared_ge
  obtain ⟨name, form, hname, hform, hdata⟩ := Bytes.eq_riff_append (by omega : 12 ≤ data.length)
  obtain rfl := FourCC.bytes_inj.mp (hname.symm.trans h.riff)
  obtain rfl := FourCC.bytes_inj.mp (hform.symm.trans h.webp)
  have hrest : data.slice ⟨12, data.declaredLength + 8⟩ ++ data.drop (data.declaredLength + 8) =
      data.drop 12 := by
    have hend : data.drop (data.declaredLength + 8) =
        (data.drop 12).drop (data.declaredLength + 8 - 12) := by
      rw [List.drop_drop]
      congr 1
      omega
    rw [hend]
    exact List.take_append_drop _ _
  rw [hrest]
  exact hdata

end Encode

end WebP
