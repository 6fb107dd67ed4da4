import WebP.Text.Numeral

/-!
# Flags of the extended header and of a frame

The extended header announces which optional chunks a file has, and a frame says how it is drawn
and disposed of. Both are stored as bits of an integer; bits without a meaning are dropped.

## Main definitions

* `WebP.CanvasFlags`: the flags of the extended header, a set of `WebP.CanvasFlag`.
* `WebP.FrameFlags`: the flags of a frame, a set of `WebP.FrameFlag`.
-/

namespace WebP

/-- The text of a set of flags: its members' names, or `0x0` for the empty set. -/
def flagSetText (name : String) (members : List String) : String :=
  let inner := if members.isEmpty then "0x0" else " | ".intercalate members
  s!"{name}({inner})"

/-- What the extended header can announce. -/
inductive CanvasFlag where
  | iccp
  | alpha
  | exif
  | xmp
  | animated
deriving DecidableEq, Repr

namespace CanvasFlag

/-- All flags, in the order in which they are written. -/
def all : List CanvasFlag := [.iccp, .alpha, .exif, .xmp, .animated]

/-- The bit that stores the flag. -/
def bit : CanvasFlag → Nat
  | .iccp => 5
  | .alpha => 4
  | .exif => 3
  | .xmp => 2
  | .animated => 1

def name : CanvasFlag → String
  | .iccp => "HAS_ICCP_CHUNK"
  | .alpha => "HAS_ALPH_CHUNK"
  | .exif => "HAS_EXIF_CHUNK"
  | .xmp => "HAS_XMP_CHUNK"
  | .animated => "IS_ANIMATED"

end CanvasFlag

/-- The flags of the extended header. -/
structure CanvasFlags where
  iccp : Bool := false
  alpha : Bool := false
  exif : Bool := false
  xmp : Bool := false
  animated : Bool := false
deriving DecidableEq, Repr, Inhabited

namespace CanvasFlags

/-- Whether a flag is set. -/
def has (flags : CanvasFlags) : CanvasFlag → Bool
  | .iccp => flags.iccp
  | .alpha => flags.alpha
  | .exif => flags.exif
  | .xmp => flags.xmp
  | .animated => flags.animated

/-- The flags stored in an integer. -/
def ofBits (n : Nat) : CanvasFlags where
  iccp := n.testBit 5
  alpha := n.testBit 4
  exif := n.testBit 3
  xmp := n.testBit 2
  animated := n.testBit 1

/-- The set with one flag. -/
def only (flag : CanvasFlag) : CanvasFlags := ofBits (1 <<< flag.bit)

/-- The flags that are set, in their written order. -/
def members (flags : CanvasFlags) : List CanvasFlag := CanvasFlag.all.filter flags.has

/-- The integer that stores the flags, all other bits being zero. -/
def bits (flags : CanvasFlags) : Nat := flags.members.foldr (fun f n => 1 <<< f.bit + n) 0

def text (flags : CanvasFlags) : String :=
  flagSetText "Vp8xFlags" (flags.members.map CanvasFlag.name)

/-- Each flag is stored in its own bit. -/
theorem has_ofBits (n : Nat) (flag : CanvasFlag) : (ofBits n).has flag = n.testBit flag.bit := by
  cases flag <;> rfl

/-- Storing flags and reading them back changes nothing. -/
theorem ofBits_bits (flags : CanvasFlags) : ofBits flags.bits = flags := by
  obtain ⟨a, b, c, d, e⟩ := flags
  cases a <;> cases b <;> cases c <;> cases d <;> cases e <;> rfl

end CanvasFlags

/-- What a frame can ask for. -/
inductive FrameFlag where
  | noBlending
  | disposeBackground
deriving DecidableEq, Repr

namespace FrameFlag

/-- All flags, in the order in which they are written. -/
def all : List FrameFlag := [.noBlending, .disposeBackground]

/-- The bit that stores the flag. -/
def bit : FrameFlag → Nat
  | .noBlending => 1
  | .disposeBackground => 0

def name : FrameFlag → String
  | .noBlending => "NO_BLENDING"
  | .disposeBackground => "DISPOSE_BACKGROUND"

end FrameFlag

/-- The flags of a frame. -/
structure FrameFlags where
  noBlending : Bool := false
  disposeBackground : Bool := false
deriving DecidableEq, Repr, Inhabited

namespace FrameFlags

/-- Whether a flag is set. -/
def has (flags : FrameFlags) : FrameFlag → Bool
  | .noBlending => flags.noBlending
  | .disposeBackground => flags.disposeBackground

/-- The flags stored in an integer. -/
def ofBits (n : Nat) : FrameFlags where
  noBlending := n.testBit 1
  disposeBackground := n.testBit 0

/-- The flags that are set, in their written order. -/
def members (flags : FrameFlags) : List FrameFlag := FrameFlag.all.filter flags.has

/-- The integer that stores the flags, all other bits being zero. -/
def bits (flags : FrameFlags) : Nat := flags.members.foldr (fun f n => 1 <<< f.bit + n) 0

def text (flags : FrameFlags) : String :=
  flagSetText "AnmfFlags" (flags.members.map FrameFlag.name)

/-- Each flag is stored in its own bit. -/
theorem has_ofBits (n : Nat) (flag : FrameFlag) : (ofBits n).has flag = n.testBit flag.bit := by
  cases flag <;> rfl

/-- Storing flags and reading them back changes nothing. -/
theorem ofBits_bits (flags : FrameFlags) : ofBits flags.bits = flags := by
  obtain ⟨a, b⟩ := flags
  cases a <;> cases b <;> rfl

end FrameFlags

end WebP
