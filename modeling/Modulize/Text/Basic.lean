/-!
# Texts

A text is a list of code points; every offset in this library counts code points. The module
holds the operations on texts that the rest of the library is written in: searching for a
fragment (`contains`, `cut?`, `replaceAll`), splitting (`splitOn`, `joinWith`; `splitLines` at every
kind of line break that Unicode knows, of which one at the end begins no further line), and the
order by code point (`precedes`) with the stable sort that uses it (`sortBy`).
-/

namespace Modulize

/-- A text is the list of its code points. -/
abbrev Text := List Char

/-- A quoted literal stands for the text of its code points. -/
instance : Coe String Text := ⟨String.toList⟩

/-- Texts are compared by their code points. -/
instance : LawfulBEq Text := inferInstance

namespace Text

/-- The string with the same code points. -/
def toString (t : Text) : String := String.ofList t

/-- `t` begins with `fragment`. -/
def startsWith (fragment t : Text) : Bool := fragment.isPrefixOf t

/-- `t` ends with `fragment`. -/
def endsWith (fragment t : Text) : Bool := fragment.isSuffixOf t

/-- `fragment` occurs somewhere in `t`. -/
def contains (fragment : Text) : Text → Bool
  | [] => fragment.isEmpty
  | c :: r => startsWith fragment (c :: r) || contains fragment r

/-- The parts of `t` before and after the first occurrence of `fragment`. -/
def cut? (fragment : Text) : Text → Option (Text × Text)
  | [] => if fragment.isEmpty then some ([], []) else none
  | c :: r =>
    if startsWith fragment (c :: r) then some ([], (c :: r).drop fragment.length)
    else (cut? fragment r).map fun (a, b) => (c :: a, b)

/-- Replace the occurrences of a fragment from left to right; `skip` characters of an occurrence
just replaced are still to be passed over. -/
def replaceFrom (fragment new : Text) : Nat → Text → Text
  | _, [] => []
  | skip + 1, _ :: r => replaceFrom fragment new skip r
  | 0, c :: r =>
    if startsWith fragment (c :: r) then new ++ replaceFrom fragment new (fragment.length - 1) r
    else c :: replaceFrom fragment new 0 r

/-- Replace every occurrence of `fragment`, from left to right and without overlaps. The empty
fragment occurs before every character and at the end. -/
def replaceAll (fragment new t : Text) : Text :=
  if fragment.isEmpty then t.foldr (fun c r => new ++ c :: r) new
  else replaceFrom fragment new 0 t

/-- The pieces of a text between the occurrences of `mark`; never empty. -/
def splitOn (mark : Char) : Text → List Text
  | [] => [[]]
  | c :: r =>
    match splitOn mark r with
    | [] => [[c]]
    | piece :: pieces => if c = mark then [] :: piece :: pieces else (c :: piece) :: pieces

/-- The pieces one after another with `glue` between neighbours. -/
def joinWith (glue : Text) : List Text → Text
  | [] => []
  | [piece] => piece
  | piece :: pieces => piece ++ glue ++ joinWith glue pieces

/-- Drop the characters of a class at the end of a text. -/
def dropEndWhile (p : Char → Bool) (t : Text) : Text := (t.reverse.dropWhile p).reverse

/-- The characters of `t` from offset `start` up to offset `stop`. -/
def slice (t : Text) (start stop : Nat) : Text := (t.drop start).take (stop - start)

/-- The decimal digits of a number. -/
def ofNat (n : Nat) : Text := Nat.toDigits 10 n

/-- The decimal digits of a number, after a minus sign for a negative one. -/
def ofInt : Int → Text
  | .ofNat n => ofNat n
  | .negSucc n => '-' :: ofNat (n + 1)

/-- The order of texts by their code points; a proper beginning comes first. -/
def precedes : Text → Text → Bool
  | [], _ => true
  | _ :: _, [] => false
  | a :: r, b :: s => a.toNat < b.toNat || (a == b && precedes r s)

/-- The order of lists of texts, member by member. -/
def precedesAll : List Text → List Text → Bool
  | [], _ => true
  | _ :: _, [] => false
  | a :: r, b :: s => if a = b then precedesAll r s else precedes a b

/-- The characters that end a line. A carriage return and the newline behind it are one break. -/
def isLineBreak (c : Char) : Bool :=
  (0x0a ≤ c.toNat && c.toNat ≤ 0x0d) || (0x1c ≤ c.toNat && c.toNat ≤ 0x1e) || c.toNat == 0x85 ||
    c.toNat == 0x2028 || c.toNat == 0x2029

/-- The lines of a text without their breaks. -/
def splitLines : Text → List Text
  | [] => []
  | '\r' :: '\n' :: r => [] :: splitLines r
  | c :: r =>
    if isLineBreak c then [] :: splitLines r
    else
      match splitLines r with
      | [] => [[c]]
      | l :: ls => (c :: l) :: ls

end Text

/-! ## Sorting and deduplication -/

/-- Insert `a` before the first member that it precedes strictly. -/
def insertBy {α : Type} (le : α → α → Bool) (a : α) : List α → List α
  | [] => [a]
  | b :: r => if le a b then a :: b :: r else b :: insertBy le a r

/-- Stable sort: of two members that precede each other, the earlier stays first. -/
def sortBy {α : Type} (le : α → α → Bool) : List α → List α
  | [] => []
  | a :: r => insertBy le a (sortBy le r)

/-- The texts in the order of their code points. -/
def sortTexts (ts : List Text) : List Text := sortBy Text.precedes ts

/-- Keep the first occurrence of each member. -/
def dedup {α : Type} [DecidableEq α] : List α → List α
  | [] => []
  | a :: r => a :: (dedup r).filter (· ≠ a)

/-- The value stored under a key in a list of pairs; the first pair counts. -/
def lookup? {κ ν : Type} [DecidableEq κ] (k : κ) : List (κ × ν) → Option ν
  | [] => none
  | (k', v) :: r => if k' = k then some v else lookup? k r

/-- Put a value under a key: in place of the one there, else at the end. -/
def assign {κ ν : Type} [DecidableEq κ] (k : κ) (v : ν) : List (κ × ν) → List (κ × ν)
  | [] => [(k, v)]
  | (k', v') :: r => if k' = k then (k, v) :: r else (k', v') :: assign k v r

end Modulize
