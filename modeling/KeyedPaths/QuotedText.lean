import KeyedPaths.CombiningMark
import KeyedPaths.UnassignedCharacter
import KeyedPaths.WhiteSpace

/-!
# Quoted texts

Messages show a text between quotes.  A reader should be able to tell from the
sight of it which characters the text consists of, so that a character which
cannot be seen, or not by itself, is written by its code point in braces, with
as few hexadecimal digits as it takes.
-/

namespace KeyedPaths

/-- The characters with the general category `Cc`. -/
def controlCharacters : CharacterClass where
  ranges := [(0x0000, 0x001F), (0x007F, 0x009F)]

/-- The characters with the general category `Cf`, which direct how the text
around them is laid out. -/
def formatCharacters : CharacterClass where
  ranges := [(0x00AD, 0x00AD), (0x0600, 0x0605), (0x061C, 0x061C),
    (0x06DD, 0x06DD), (0x070F, 0x070F), (0x0890, 0x0891), (0x08E2, 0x08E2),
    (0x180E, 0x180E), (0x200B, 0x200F), (0x202A, 0x202E), (0x2060, 0x2064),
    (0x2066, 0x206F), (0xFEFF, 0xFEFF), (0xFFF9, 0xFFFB), (0x110BD, 0x110BD),
    (0x110CD, 0x110CD), (0x13430, 0x1343F), (0x1BCA0, 0x1BCA3),
    (0x1D173, 0x1D17A), (0xE0001, 0xE0001), (0xE0020, 0xE007F)]

/-- The characters with the general category `Co`, on whose meaning no standard
decides. -/
def privateCharacters : CharacterClass where
  ranges := [(0xE000, 0xF8FF), (0xF0000, 0xFFFFD), (0x100000, 0x10FFFD)]

/-- The letters with the property `Default_Ignorable_Code_Point`: the fillers,
which stand for a missing part of a syllable and leave no trace. -/
def fillers : CharacterClass where
  ranges := [(0x115F, 0x1160), (0x3164, 0x3164), (0xFFA0, 0xFFA0)]

/-- The classes of characters that a quoted text does not show, the space
apart. -/
def hiddenClasses : List CharacterClass :=
  [controlCharacters, whiteSpace, formatCharacters, combiningMarks, fillers,
    privateCharacters, unassignedCharacters]

/-- Whether a quoted text shows a character as it is, unless it has a short
escape. -/
def isShown (char : Char) : Bool :=
  char == ' ' || !hiddenClasses.any fun hidden => hidden.contains char

/-- A space is shown, a space that does not break the line is not. -/
example : isShown ' ' = true ∧ isShown '\u00a0' = false := by decide +kernel

/-- The sound mark of half width is a letter that stands by itself, unlike the
mark of full width. -/
example : isShown '\uff9e' = true ∧ isShown '\u3099' = false := by
  decide +kernel

def codePointEscape (char : Char) : List Char :=
  ['\\', 'u', '\x7b'] ++ Nat.toDigits 16 char.toNat ++ ['\x7d']

def quotedChar (char : Char) : List Char :=
  match char with
  | '"' => ['\\', '"']
  | '\\' => ['\\', '\\']
  | '\x00' => ['\\', '0']
  | '\t' => ['\\', 't']
  | '\n' => ['\\', 'n']
  | '\r' => ['\\', 'r']
  | char => if isShown char then [char] else codePointEscape char

def quotedText (text : String) : String :=
  String.ofList ('"' :: text.toList.flatMap quotedChar ++ ['"'])

end KeyedPaths
