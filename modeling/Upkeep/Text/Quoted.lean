/-
Characters and texts in quotes.

Inside the quotes the quote itself and the backslash stand behind a backslash, four
controls are written as letters, and any other character that does not show is written as
its code point in hexadecimal digits.
-/
import Upkeep.Text.Hidden

namespace Upkeep.Text

/-- The letter for a control. -/
def controlLetter? (c : Char) : Option Char :=
  if c = '\n' then some 'n'
  else if c = '\r' then some 'r'
  else if c = '\t' then some 't'
  else if c = '\x00' then some '0'
  else none

/-- A character as it stands between quotes. -/
def escape (quote c : Char) : List Char :=
  if c = quote ∨ c = '\\' then ['\\', c]
  else match controlLetter? c with
    | some letter => ['\\', letter]
    | none =>
      if isHidden c then ['\\', 'u', '\x7b'] ++ Nat.toDigits 16 c.toNat ++ ['\x7d'] else [c]

/-- A character between single quotes. -/
def quoteChar (c : Char) : String := String.ofList ('\'' :: (escape '\'' c ++ ['\'']))

/-- A text between double quotes. -/
def quoteText (s : String) : String :=
  String.ofList ('"' :: (s.toList.flatMap (escape '"') ++ ['"']))

example : quoteChar '\'' = "'\\''" ∧ quoteChar '"' = "'\"'" := by decide +kernel
example : quoteText "a\u200b'\n" = "\"a\\u\x7b200b\x7d'\\n\"" := by decide +kernel

end Upkeep.Text
