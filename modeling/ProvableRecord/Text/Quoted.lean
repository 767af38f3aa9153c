import ProvableRecord.Text.Quoted.Hidden

/-!
# Quoted text

Text between double quotes, so that every character shows.  A quote, a backslash, a tab and the line
breaks have short escapes, a hidden character is written by its number in hexadecimal, and all else
stands for itself.
-/

namespace ProvableRecord.Text.Quoted

/-- The lowercase hexadecimal digit of a number below sixteen. -/
def hexDigit (d : Nat) : Char := if d < 10 then Char.ofNat (48 + d) else Char.ofNat (87 + d)

/-- The low `count + 1` hexadecimal digits of a number, without leading zeros. -/
def hexDigitsUpTo : (count n : Nat) → List Char
  | 0, n => [hexDigit n]
  | count + 1, n =>
    if n < 16 then [hexDigit n] else hexDigitsUpTo count (n / 16) ++ [hexDigit (n % 16)]

/-- The hexadecimal digits of a code point, of which there are at most six. -/
def hexDigits (n : Nat) : List Char := hexDigitsUpTo 5 n

/-- The written form of one character. -/
def encodeChar (c : Char) : List Char :=
  if c = '"' then ['\\', '"']
  else if c = '\\' then ['\\', '\\']
  else if c = '\n' then ['\\', 'n']
  else if c = '\r' then ['\\', 'r']
  else if c = '\t' then ['\\', 't']
  else if c = '\x00' then ['\\', '0']
  else if isHidden c then ['\\', 'u', '\x7b'] ++ hexDigits c.toNat ++ ['\x7d']
  else [c]

/-- The text in quotes. -/
def encode (s : String) : String :=
  String.ofList ('"' :: s.toList.flatMap encodeChar ++ ['"'])

end ProvableRecord.Text.Quoted

namespace ProvableRecord

/-- The text in quotes, with every hidden character made visible. -/
def quoted (s : String) : String := Text.Quoted.encode s

end ProvableRecord
