import Blanking.Sampling.Checked
import Blanking.Waveform

/-! # Drawing field pairs of a size in machine words

A field pair is drawn into a buffer that has room for it, if its size is a word at all. -/

namespace Blanking.Sampling

/-- Draws records into a buffer, whose first bytes become a field pair with these records. -/
def render? (s : Sampling) (raw : ByteArray) (blank white : UInt8) (records : List Record) :
    Checked RenderError ByteArray := do
  s.validate?.adapt .sampling
  let size ← s.frameSize?
  if raw.size < size then throw (.rawTooShort size raw.size)
  else s.render raw blank white records

end Blanking.Sampling
