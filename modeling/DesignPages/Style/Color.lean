import DesignPages.Text.Hex

/-!
# Colors

This module holds colors with four channels between zero and one, their opacity, and their
hexadecimal form.
-/

namespace DesignPages

/-- A color: red, green, blue and alpha. -/
structure Color where
  r : Float32
  g : Float32
  b : Float32
  a : Float32
  deriving DecidableEq, Repr

namespace Color

/-- Opaque black. -/
def black : Color := ⟨0, 0, 0, 1⟩

/-- The opaque color with the given bytes. -/
def ofBytes (r g b : UInt8) : Color :=
  ⟨r.toFloat32 / 255, g.toFloat32 / 255, b.toFloat32 / 255, 1⟩

/-- The nearest number between zero and one.  NaN stays what it is. -/
def clampUnit (x : Float32) : Float32 :=
  if x < 0 then 0 else if 1 < x then 1 else x

/-- The color with its alpha multiplied by an opacity. -/
def withOpacity (c : Color) (opacity : Float32) : Color :=
  { c with a := clampUnit (c.a * opacity) }

/-- A number between zero and 255 rounded to a byte, a half upwards.  NaN becomes zero. -/
def roundByte (x : Float32) : UInt8 :=
  let whole := x.toUInt8
  if 0.5 ≤ x - whole.toFloat32 then whole + 1 else whole

/-- A channel as a byte. -/
def channelByte (x : Float32) : UInt8 :=
  roundByte (clampUnit x * 255)

/-- The channels as bytes, in the order red, green, blue, alpha. -/
def toBytes (c : Color) : UInt8 × UInt8 × UInt8 × UInt8 :=
  (channelByte c.r, channelByte c.g, channelByte c.b, channelByte c.a)

/-- The characters of the hexadecimal form.  The alpha byte is left out if it is 255. -/
def hexChars (c : Color) : List Char :=
  let (r, g, b, a) := c.toBytes
  '#' :: Text.hexByteUpper r ++ Text.hexByteUpper g ++ Text.hexByteUpper b ++
    (if a = 255 then [] else Text.hexByteUpper a)

/-- The hexadecimal form. -/
def toHex (c : Color) : String :=
  String.ofList c.hexChars

end Color
end DesignPages
