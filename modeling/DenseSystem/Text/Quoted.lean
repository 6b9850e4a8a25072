import DenseSystem.Text.Unprintable
import DenseSystem.Text.Extending

/-! # Quoted text

Messages show foreign text between double quotes. What would break the line, end the quotation or
leave no mark of its own is written as an escape; an apostrophe stands for itself.
-/
namespace DenseSystem.Text

/-- The shortest lower-case hexadecimal form of a number. -/
def hexadecimal (n : Nat) : List Char := Nat.toDigits 16 n

def escape (c : Char) : List Char :=
  if c = '"' then ['\\', '"']
  else if c = '\\' then ['\\', '\\']
  else if c = '\n' then ['\\', 'n']
  else if c = '\r' then ['\\', 'r']
  else if c = '\t' then ['\\', 't']
  else if c = '\x00' then ['\\', '0']
  else if isExtending c || !isPrintable c then
    ['\\', 'u', '\x7b'] ++ hexadecimal c.toNat ++ ['\x7d']
  else [c]

def quote (s : String) : String :=
  String.ofList (['"'] ++ s.toList.flatMap escape ++ ['"'])

end DenseSystem.Text
