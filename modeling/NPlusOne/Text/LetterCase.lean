namespace NPlusOne

namespace Text

/-- The small letter that `c` stands for where upper and lower case count as equal. Four characters
outside the basic alphabet fold to a basic letter: both dotted and dotless forms of I, the long s
and the Kelvin sign. -/
def fold (c : Char) : Char :=
  if c = '\u0130' || c = '\u0131' then 'i'
  else if c = '\u017f' then 's'
  else if c = '\u212a' then 'k'
  else c.toLower

/-- The capital form of a character, as far as it holds a letter of the basic alphabet; every other
character stands for itself. -/
def capitals (c : Char) : List Char :=
  match c.toNat with
  | 0xDF => ['S', 'S']
  | 0x131 => ['I']
  | 0x149 => ['\u02bc', 'N']
  | 0x17F => ['S']
  | 0x1F0 => ['J', '\u030c']
  | 0x1E96 => ['H', '\u0331']
  | 0x1E97 => ['T', '\u0308']
  | 0x1E98 => ['W', '\u030a']
  | 0x1E99 => ['Y', '\u030a']
  | 0x1E9A => ['A', '\u02be']
  | 0xFB00 => ['F', 'F']
  | 0xFB01 => ['F', 'I']
  | 0xFB02 => ['F', 'L']
  | 0xFB03 => ['F', 'F', 'I']
  | 0xFB04 => ['F', 'F', 'L']
  | 0xFB05 => ['S', 'T']
  | 0xFB06 => ['S', 'T']
  | _ => [c.toUpper]

def upper (text : String) : String :=
  String.ofList (text.toList.flatMap capitals)

end Text

end NPlusOne
