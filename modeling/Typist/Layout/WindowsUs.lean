import Typist.Layout

/-!
# The US layout of Windows keyboards

Virtual-key codes of letters and digits are their ASCII capitals; punctuation has vendor codes.
Some keys are marked as extended when they are sent.
-/

namespace Typist.Layout

private def windowsUsKeys : List (Key × KeyCode) :=
  [(.tab, 0x09), (.enter, 0x0D), (.space, 0x20), (.backspace, 0x08), (.delete, 0x2E),
   (.insert, 0x2D), (.home, 0x24), (.«end», 0x23), (.pageUp, 0x21), (.pageDown, 0x22),
   (.left, 0x25), (.up, 0x26), (.right, 0x27), (.down, 0x28), (.escape, 0x1B), (.f1, 0x70),
   (.f2, 0x71), (.f3, 0x72), (.f4, 0x73), (.f5, 0x74), (.f6, 0x75), (.f7, 0x76), (.f8, 0x77),
   (.f9, 0x78), (.f10, 0x79), (.f11, 0x7A), (.f12, 0x7B), (.shift, 0x10), (.control, 0x11),
   (.alt, 0x12), (.command, 0x5B)]

private def windowsUsChars : List CharKey :=
  [⟨' ', ' ', 0x20⟩, ⟨'0', ')', 0x30⟩, ⟨'1', '!', 0x31⟩, ⟨'2', '@', 0x32⟩, ⟨'3', '#', 0x33⟩,
   ⟨'4', '$', 0x34⟩, ⟨'5', '%', 0x35⟩, ⟨'6', '^', 0x36⟩, ⟨'7', '&', 0x37⟩, ⟨'8', '*', 0x38⟩,
   ⟨'9', '(', 0x39⟩, ⟨'a', 'A', 0x41⟩, ⟨'b', 'B', 0x42⟩, ⟨'c', 'C', 0x43⟩, ⟨'d', 'D', 0x44⟩,
   ⟨'e', 'E', 0x45⟩, ⟨'f', 'F', 0x46⟩, ⟨'g', 'G', 0x47⟩, ⟨'h', 'H', 0x48⟩, ⟨'i', 'I', 0x49⟩,
   ⟨'j', 'J', 0x4A⟩, ⟨'k', 'K', 0x4B⟩, ⟨'l', 'L', 0x4C⟩, ⟨'m', 'M', 0x4D⟩, ⟨'n', 'N', 0x4E⟩,
   ⟨'o', 'O', 0x4F⟩, ⟨'p', 'P', 0x50⟩, ⟨'q', 'Q', 0x51⟩, ⟨'r', 'R', 0x52⟩, ⟨'s', 'S', 0x53⟩,
   ⟨'t', 'T', 0x54⟩, ⟨'u', 'U', 0x55⟩, ⟨'v', 'V', 0x56⟩, ⟨'w', 'W', 0x57⟩, ⟨'x', 'X', 0x58⟩,
   ⟨'y', 'Y', 0x59⟩, ⟨'z', 'Z', 0x5A⟩, ⟨';', ':', 0xBA⟩, ⟨'=', '+', 0xBB⟩, ⟨',', '<', 0xBC⟩,
   ⟨'-', '_', 0xBD⟩, ⟨'.', '>', 0xBE⟩, ⟨'/', '?', 0xBF⟩, ⟨'\x60', '~', 0xC0⟩, ⟨'[', '{', 0xDB⟩,
   ⟨'\\', '|', 0xDC⟩, ⟨']', '}', 0xDD⟩, ⟨'\x27', '"', 0xDE⟩]

/-- The US layout of Windows keyboards. -/
def windowsUs : Layout := ⟨"windows-us", windowsUsKeys, windowsUsChars⟩

/-- The codes that are sent as extended keys: the keys between the letters and the number pad, and
the system key. -/
def extendedCodes : List KeyCode :=
  [0x21, 0x22, 0x23, 0x24, 0x25, 0x26, 0x27, 0x28, 0x2D, 0x2E, 0x5B]

end Typist.Layout
