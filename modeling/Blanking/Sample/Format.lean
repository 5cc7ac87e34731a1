/-! # Sample formats

The signal of a scan line is the luma or green component of its samples. A format says where
that component is stored, and how finely a slicer has to treat it. -/

namespace Blanking

/-- Where a sample keeps its signal component. -/
inductive Storage where
  /-- Byte number `skip` of every `stride` bytes; the other ones are `neutral` in a drawn sample. -/
  | byte (stride skip : Nat) (neutral : UInt8)
  /-- A bit field of a word of two bytes, low byte first. -/
  | littleWord
  /-- A bit field of a word of two bytes, high byte first. -/
  | bigWord
  /-- A bit field of a single byte. -/
  | packed
deriving DecidableEq, Repr

/-- Bytes from one sample to the next. -/
def Storage.stride : Storage → Nat
  | .byte stride _ _ => stride
  | .littleWord | .bigWord => 2
  | .packed => 1

/-- What slicing and drawing need to know of a sample format. -/
structure Layout where
  storage : Storage
  /-- Position of the lowest bit of the signal component in its byte or word. -/
  lsb : Nat
  /-- Bits of the signal component. -/
  width : Nat
  /-- Fraction bits of the slicing threshold. -/
  fraction : Nat
  /-- Steps per sample in the search for a clock run-in. -/
  oversampling : Nat
deriving DecidableEq, Repr

namespace Layout

/-- The bits of the signal component, which are also its largest level. -/
def mask (layout : Layout) : Nat := ((1 <<< layout.width) - 1) <<< layout.lsb

/-- The level at which a full scale of 256 steps is cut before the signal is known. -/
def neutralLevel : Nat := 105

/-- The threshold that a slicer starts with, as a fixed point number. -/
def seed (layout : Layout) : Int :=
  (neutralLevel <<< (layout.lsb + layout.width + layout.fraction - 8) : Nat)

/-- A component that takes a whole byte. -/
def ofByte (stride skip : Nat) (neutral : UInt8) : Layout :=
  ⟨.byte stride skip neutral, 0, 8, 9, 4⟩

/-- A component that is a bit field of a word. -/
def ofWord (storage : Storage) (lsb width fraction : Nat) : Layout :=
  ⟨storage, lsb, width, fraction, 4⟩

/-- A component that is a bit field of a byte. It has few levels, so its clock run-in is
searched twice as finely. -/
def ofPacked (lsb width : Nat) : Layout :=
  ⟨.packed, lsb, width, 7, 8⟩

end Layout

/-- Memory format of raw samples. The names of packed words list the components from the lowest
bit up, and end in the byte order. -/
inductive PixelFormat where
  | yuv420
  | yuyv
  | yvyu
  | uyvy
  | vyuy
  | rgba32le
  | rgba32be
  | bgra32le
  | bgra32be
  | rgb24
  | bgr24
  | rgb16le
  | rgb16be
  | bgr16le
  | bgr16be
  | rgba15le
  | rgba15be
  | bgra15le
  | bgra15be
  | argb15le
  | argb15be
  | abgr15le
  | abgr15be
  | rgba12le
  | rgba12be
  | argb12le
  | argb12be
  | rgb8
  | bgr8
deriving DecidableEq, Repr

namespace PixelFormat

/-- Every format, in the order in which they are numbered. -/
def all : List PixelFormat :=
  [.yuv420, .yuyv, .yvyu, .uyvy, .vyuy,
   .rgba32le, .rgba32be, .bgra32le, .bgra32be, .rgb24, .bgr24,
   .rgb16le, .rgb16be, .bgr16le, .bgr16be,
   .rgba15le, .rgba15be, .bgra15le, .bgra15be,
   .argb15le, .argb15be, .abgr15le, .abgr15be,
   .rgba12le, .rgba12be, .argb12le, .argb12be, .rgb8, .bgr8]

def name : PixelFormat → String
  | .yuv420 => "yuv420"
  | .yuyv => "yuyv"
  | .yvyu => "yvyu"
  | .uyvy => "uyvy"
  | .vyuy => "vyuy"
  | .rgba32le => "rgba32le"
  | .rgba32be => "rgba32be"
  | .bgra32le => "bgra32le"
  | .bgra32be => "bgra32be"
  | .rgb24 => "rgb24"
  | .bgr24 => "bgr24"
  | .rgb16le => "rgb16le"
  | .rgb16be => "rgb16be"
  | .bgr16le => "bgr16le"
  | .bgr16be => "bgr16be"
  | .rgba15le => "rgba15le"
  | .rgba15be => "rgba15be"
  | .bgra15le => "bgra15le"
  | .bgra15be => "bgra15be"
  | .argb15le => "argb15le"
  | .argb15be => "argb15be"
  | .abgr15le => "abgr15le"
  | .abgr15be => "abgr15be"
  | .rgba12le => "rgba12le"
  | .rgba12be => "rgba12be"
  | .argb12le => "argb12le"
  | .argb12be => "argb12be"
  | .rgb8 => "rgb8"
  | .bgr8 => "bgr8"

/-- Luma of YUV formats and green of RGB formats. -/
def layout : PixelFormat → Layout
  | .yuv420 => .ofByte 1 0 0x80
  | .yuyv | .yvyu => .ofByte 2 0 0x80
  | .uyvy | .vyuy => .ofByte 2 1 0x80
  | .rgba32le | .bgra32le => .ofByte 4 1 0
  | .rgba32be | .bgra32be => .ofByte 4 2 0
  | .rgb24 | .bgr24 => .ofByte 3 1 0
  | .rgb16le | .bgr16le => .ofWord .littleWord 5 6 12
  | .rgb16be | .bgr16be => .ofWord .bigWord 5 6 12
  | .rgba15le | .bgra15le => .ofWord .littleWord 5 5 12
  | .rgba15be | .bgra15be => .ofWord .bigWord 5 5 12
  | .argb15le | .abgr15le => .ofWord .littleWord 6 5 12
  | .argb15be | .abgr15be => .ofWord .bigWord 6 5 12
  | .rgba12le => .ofWord .littleWord 4 4 9
  | .rgba12be => .ofWord .bigWord 4 4 9
  | .argb12le => .ofWord .littleWord 8 4 13
  | .argb12be => .ofWord .bigWord 8 4 13
  | .rgb8 => .ofPacked 3 3
  | .bgr8 => .ofPacked 2 3

/-- Bytes from one sample to the next. -/
def bytesPerSample (format : PixelFormat) : Nat := format.layout.storage.stride

/-- The format of this name, in any case of its letters. -/
def parse? (text : String) : Option PixelFormat :=
  let lower := text.map Char.toLower
  all.find? (·.name = lower)

/-- Position among all formats. -/
def index (format : PixelFormat) : Nat := all.idxOf format

theorem mem_all (format : PixelFormat) : format ∈ all := by
  cases format <;> decide

theorem bytesPerSample_pos (format : PixelFormat) : 0 < format.bytesPerSample := by
  cases format <;> decide

end PixelFormat

end Blanking
