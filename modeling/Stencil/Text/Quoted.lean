import Stencil.Bytes.Hex
import Stencil.Text.Invisible

/-! Quoted text: characters that could not be seen or would end the text are spelled out. -/

namespace Stencil.Quoted

/-- The spelling of a character between quotes of the kind `quote`. -/
def spell (quote c : Char) : String :=
  if c = '\x00' then "\\0"
  else if c = '\t' then "\\t"
  else if c = '\r' then "\\r"
  else if c = '\n' then "\\n"
  else if c = '\\' then "\\\\"
  else if c = quote then String.ofList ['\\', quote]
  else if Invisible.contains c then "\\u\x7b" ++ Hex.ofNat c.toNat ++ "\x7d"
  else String.singleton c

def string (s : String) : String := "\"" ++ String.join (s.toList.map (spell '"')) ++ "\""

def char (c : Char) : String := "'" ++ spell '\'' c ++ "'"

end Stencil.Quoted
