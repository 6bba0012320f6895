import Modulize.Text.Quoted

/-!
# Words in complaints

Programs quote the words that they complain about in the way in which a command line would have to
write them: always (`Word.quoted`), or only where that is needed (`Word.shown`).
-/

namespace Modulize.Check.Word

/-- Characters that mean something in a command line, or at least in its quotes. -/
def marks : Text := " !\"$&()*;<=>[^|'?\\".toList ++ [Char.ofNat 0x60]

/-- Characters that stand for themselves between double quotes. -/
def isPlain (c : Char) : Bool := isAlnum c || c ∈ " '%+,-./:@_]\x7b\x7d".toList

/-- The letter that names a control character, or its code in octal. -/
def controlName (c : Char) : Text :=
  match lookup? c.toNat
    [(7, 'a'), (8, 'b'), (9, 't'), (10, 'n'), (11, 'v'), (12, 'f'), (13, 'r')] with
  | some letter => [letter]
  | none =>
    let ds := Nat.toDigits 8 c.toNat
    List.replicate (3 - ds.length) '0' ++ ds

/-- The rest of a word between single quotes. Control characters stand in quotes of another kind;
`isCoded` says that these are open. -/
def singleQuoted (isCoded : Bool) : Text → Text
  | [] => ['\'']
  | c :: r =>
    if c = '\'' then "'\\''" ++ singleQuoted false r
    else if c.toNat < 0x20 || c.toNat = 0x7f then
      let opening : Text := if isCoded then [] else "'$'"
      opening ++ ['\\'] ++ controlName c ++ singleQuoted true r
    else
      let closing : Text := if isCoded then "''" else []
      closing ++ [c] ++ singleQuoted false r

/-- A word can stand between double quotes as it is. -/
def isDoubleQuotable (word : Text) : Bool :=
  match word with
  | '#' :: r | '~' :: r => r.all isPlain
  | r => r.all isPlain

/-- A word within quotes: single ones, or double ones when there is a single quote and nothing in
the word means anything between double ones. -/
def quoted (word : Text) : Text :=
  if '\'' ∈ word ∧ isDoubleQuotable word = true then ['"'] ++ word ++ ['"']
  else '\'' :: singleQuoted false word

/-- A word of a command line needs quotes. -/
def needsQuotes (word : Text) : Bool :=
  word.isEmpty || word = ['\x7b'] || word = ['\x7d'] || word.head?.any (· ∈ ['#', '~']) ||
    word.any fun c => c.toNat < 0x20 || c.toNat = 0x7f || c ∈ marks

/-- A word as it stands, or within quotes where it needs them. -/
def shown (word : Text) : Text := if needsQuotes word then quoted word else word

end Modulize.Check.Word
