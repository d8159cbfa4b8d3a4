import KeyedPaths.CharacterClass

/-!
# White space and words

A key specification lists key names with white space between them.  This file
fixes which characters are white space, namely those with the Unicode property
`White_Space`, and cuts a text into its words: the maximal runs of characters
that are not white space.
-/

namespace KeyedPaths

/-- The characters with the property `White_Space`. -/
def whiteSpace : CharacterClass where
  ranges := [(0x0009, 0x000D), (0x0020, 0x0020), (0x0085, 0x0085),
    (0x00A0, 0x00A0), (0x1680, 0x1680), (0x2000, 0x200A), (0x2028, 0x2029),
    (0x202F, 0x202F), (0x205F, 0x205F), (0x3000, 0x3000)]

def isWhiteSpace (char : Char) : Bool :=
  whiteSpace.contains char

example : whiteSpace.size = 25 := by decide +kernel

/-- Put the word collected so far, its last character first, before the later
words; no characters make no word. -/
def closeWord (collected : List Char) (laterWords : List String) :
    List String :=
  if collected.isEmpty then laterWords
  else String.ofList collected.reverse :: laterWords

/-- The words of a text that continues a word already begun, whose characters
are given in reverse. -/
def wordsAfter (collected : List Char) : List Char → List String
  | [] => closeWord collected []
  | char :: rest =>
      if isWhiteSpace char then closeWord collected (wordsAfter [] rest)
      else wordsAfter (char :: collected) rest

def words (text : String) : List String :=
  wordsAfter [] text.toList

example : words "  k1\tk2 \n k3 " = ["k1", "k2", "k3"] := by decide +kernel

end KeyedPaths
