/-! What may stand between the words of a configuration file: blanks, line breaks and comments. -/

namespace Haptics.Toml

def isBlank (c : Char) : Bool := c = ' ' || c = '\t'

/-- Any character but a control character. -/
def isVisible (c : Char) : Bool := ' ' ≤ c && c ≠ '\x7f'

/-- What may stand in a line of text: the tab is the one control character. -/
def isPlain (c : Char) : Bool := c = '\t' || isVisible c

def skipBlanks (cs : List Char) : List Char := cs.dropWhile isBlank

/-- Skips a comment if there is one; it goes to the end of the line. -/
def skipComment : List Char → List Char
  | '#' :: cs => cs.dropWhile isPlain
  | cs => cs

/-- A line break; the text may also end here. -/
def lineBreak? : List Char → Option (List Char)
  | [] => some []
  | '\n' :: cs => some cs
  | '\r' :: '\n' :: cs => some cs
  | _ => none

/-- What follows when a line has nothing more to say. -/
def lineEnd? (cs : List Char) : Option (List Char) := lineBreak? (skipComment (skipBlanks cs))

/-- Skips blanks, line breaks and comments; `comment` says whether one is in a comment. -/
def skipGap (comment : Bool) : List Char → List Char
  | '\n' :: cs => skipGap false cs
  | '\r' :: '\n' :: cs => skipGap false cs
  | c :: cs =>
    if comment then if isPlain c then skipGap true cs else c :: cs
    else if isBlank c then skipGap false cs
    else if c = '#' then skipGap true cs
    else c :: cs
  | [] => []

end Haptics.Toml
