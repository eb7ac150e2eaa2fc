/-
# Texts as byte strings

Texts enter the formats of this library as their UTF-8 bytes.  Reading is strict: overlong
forms, surrogates and numbers above U+10FFFF are no text.  Hence a byte string is the
encoding of at most one text, and of exactly the text that reading returns.
-/

namespace SignedFeeds
namespace Text

/-- The UTF-8 bytes of a text. -/
def toBytes (text : String) : List UInt8 := text.toUTF8.data.toList

/-- The text that a byte string encodes, if it is well-formed UTF-8. -/
def ofBytes? (bs : List UInt8) : Option String := String.fromUTF8? bs.toByteArray

theorem toByteArray_toBytes (text : String) : (toBytes text).toByteArray = text.toByteArray := by
  apply ByteArray.ext
  simp [toBytes]

@[simp] theorem ofBytes?_toBytes (text : String) : ofBytes? (toBytes text) = some text := by
  rw [ofBytes?, toByteArray_toBytes, String.fromUTF8?, dif_pos text.isValidUTF8]
  rfl

theorem ofBytes?_eq_some_iff {bs : List UInt8} {text : String} :
    ofBytes? bs = some text ↔ bs = toBytes text := by
  refine ⟨fun h => ?_, fun h => h ▸ ofBytes?_toBytes text⟩
  unfold ofBytes? String.fromUTF8? at h
  split at h
  · obtain rfl := Option.some.inj h
    simp [toBytes, String.fromUTF8]
  · cases h

theorem toBytes_inj {s t : String} : toBytes s = toBytes t ↔ s = t := by
  refine ⟨fun h => ?_, fun h => h ▸ rfl⟩
  have := congrArg ofBytes? h
  simpa using this

/-- Whether a character is a control character: U+0000 to U+001F or U+007F to U+009F. -/
def isControl (c : Char) : Bool := c.val < 0x20 || (0x7f ≤ c.val && c.val ≤ 0x9f)

end Text
end SignedFeeds
