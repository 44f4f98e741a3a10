import StoryGraph.Text.Extending
import StoryGraph.Text.Unprintable

/-!
# Quoted text

Values shown to people who look for faults quote the texts in them, so that a blank or a control
character can be told from its neighbours. A character that would not show, or not as itself, is
given by its number.
-/

namespace StoryGraph.Text

/-- Characters that are drawn as nothing at all: the property Default_Ignorable_Code_Point of
Unicode 17. Most of them extend the one before or have no picture; the fillers of Hangul are letters
all the same. -/
def ignorable : CharRanges where
  ranges :=
    [(0xAD, 0xAD), (0x34F, 0x34F), (0x61C, 0x61C), (0x115F, 0x1160), (0x17B4, 0x17B5),
      (0x180B, 0x180F), (0x200B, 0x200F), (0x202A, 0x202E), (0x2060, 0x206F), (0x3164, 0x3164),
      (0xFE00, 0xFE0F), (0xFEFF, 0xFEFF), (0xFFA0, 0xFFA0), (0xFFF0, 0xFFF8), (0x1BCA0, 0x1BCA3),
      (0x1D173, 0x1D17A), (0xE0000, 0xE0FFF)]
  ascending := by decide +kernel

/-- Whether a character does not show, or not on its own. -/
def isHidden (c : Char) : Bool :=
  extending.contains c || unprintable.contains c || ignorable.contains c

def quotedChar (c : Char) : List Char :=
  match c with
  | '"' => ['\\', '"']
  | '\\' => ['\\', '\\']
  | '\n' => ['\\', 'n']
  | '\r' => ['\\', 'r']
  | '\t' => ['\\', 't']
  | '\x00' => ['\\', '0']
  | c =>
    if isHidden c then '\\' :: 'u' :: '\x7b' :: (Nat.toDigits 16 c.toNat ++ ['\x7d'])
    else [c]

def quoted (s : String) : String :=
  String.ofList ('"' :: (s.toList.flatMap quotedChar ++ ['"']))

def commas (parts : List String) : String := ", ".intercalate parts

end StoryGraph.Text
