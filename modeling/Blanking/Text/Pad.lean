/-! # Columns of text

Text is filled up with spaces to the width of its column; longer text is left as it is. -/

namespace Blanking.Text

def spaces (count : Nat) : String := String.ofList (List.replicate count ' ')

/-- Text at the left end of its column. -/
def left (width : Nat) (text : String) : String := text ++ spaces (width - text.length)

/-- Text at the right end of its column. -/
def right (width : Nat) (text : String) : String := spaces (width - text.length) ++ text

end Blanking.Text
