import WebAssembly.Text.Hex
import WebAssembly.Text.Unprintable

/-!
# Quoted text

A string in double quotes, in which quotes, backslashes and characters that cannot stand for
themselves are escaped.
-/

namespace WebAssembly.Text

/-- One character inside quotes. -/
def escapeChar (c : Char) : String :=
  if c = '"' then "\\\""
  else if c = '\\' then "\\\\"
  else if c = '\n' then "\\n"
  else if c = '\r' then "\\r"
  else if c = '\t' then "\\t"
  else if c.toNat = 0 then "\\0"
  else if isUnprintable c then "\\u\x7b" ++ hex c.toNat ++ "\x7d"
  else c.toString

/-- The string in double quotes. -/
def quoted (s : String) : String :=
  "\"" ++ String.join (s.toList.map escapeChar) ++ "\""

end WebAssembly.Text
