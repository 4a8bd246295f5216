import Typist.Layout

/-!
# The US layout of Mac keyboards

Virtual key codes number the places of the keys on an ANSI keyboard, not their characters. The
Help key sits where other keyboards have Insert.
-/

namespace Typist.Layout

private def macAnsiKeys : List (Key × KeyCode) :=
  [(.tab, 0x30), (.enter, 0x24), (.space, 0x31), (.backspace, 0x33), (.delete, 0x75),
   (.insert, 0x72), (.home, 0x73), (.«end», 0x77), (.pageUp, 0x74), (.pageDown, 0x79),
   (.left, 0x7B), (.right, 0x7C), (.down, 0x7D), (.up, 0x7E), (.escape, 0x35), (.f1, 0x7A),
   (.f2, 0x78), (.f3, 0x63), (.f4, 0x76), (.f5, 0x60), (.f6, 0x61), (.f7, 0x62), (.f8, 0x64),
   (.f9, 0x65), (.f10, 0x6D), (.f11, 0x67), (.f12, 0x6F), (.shift, 0x38), (.control, 0x3B),
   (.alt, 0x3A), (.command, 0x37)]

private def macAnsiChars : List CharKey :=
  [⟨'a', 'A', 0x00⟩, ⟨'s', 'S', 0x01⟩, ⟨'d', 'D', 0x02⟩, ⟨'f', 'F', 0x03⟩, ⟨'h', 'H', 0x04⟩,
   ⟨'g', 'G', 0x05⟩, ⟨'z', 'Z', 0x06⟩, ⟨'x', 'X', 0x07⟩, ⟨'c', 'C', 0x08⟩, ⟨'v', 'V', 0x09⟩,
   ⟨'b', 'B', 0x0B⟩, ⟨'q', 'Q', 0x0C⟩, ⟨'w', 'W', 0x0D⟩, ⟨'e', 'E', 0x0E⟩, ⟨'r', 'R', 0x0F⟩,
   ⟨'y', 'Y', 0x10⟩, ⟨'t', 'T', 0x11⟩, ⟨'1', '!', 0x12⟩, ⟨'2', '@', 0x13⟩, ⟨'3', '#', 0x14⟩,
   ⟨'4', '$', 0x15⟩, ⟨'6', '^', 0x16⟩, ⟨'5', '%', 0x17⟩, ⟨'=', '+', 0x18⟩, ⟨'9', '(', 0x19⟩,
   ⟨'7', '&', 0x1A⟩, ⟨'-', '_', 0x1B⟩, ⟨'8', '*', 0x1C⟩, ⟨'0', ')', 0x1D⟩, ⟨']', '}', 0x1E⟩,
   ⟨'o', 'O', 0x1F⟩, ⟨'u', 'U', 0x20⟩, ⟨'[', '{', 0x21⟩, ⟨'i', 'I', 0x22⟩, ⟨'p', 'P', 0x23⟩,
   ⟨'l', 'L', 0x25⟩, ⟨'j', 'J', 0x26⟩, ⟨'\x27', '"', 0x27⟩, ⟨'k', 'K', 0x28⟩, ⟨';', ':', 0x29⟩,
   ⟨'\\', '|', 0x2A⟩, ⟨',', '<', 0x2B⟩, ⟨'/', '?', 0x2C⟩, ⟨'n', 'N', 0x2D⟩, ⟨'m', 'M', 0x2E⟩,
   ⟨'.', '>', 0x2F⟩, ⟨' ', ' ', 0x31⟩, ⟨'\x60', '~', 0x32⟩]

/-- The US layout of Mac keyboards. -/
def macAnsi : Layout := ⟨"macos-ansi", macAnsiKeys, macAnsiChars⟩

end Typist.Layout
