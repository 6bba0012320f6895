import Modulize.Text.CharClass

/-!
# Patterns

A pattern describes pieces of a text. `Pattern.ends` lists all the ways to read a pattern at a
cursor, the preferred one first: the left branch of a choice before the right one, a greedy run
from its longest reading down, a lazy one from its shortest up. `Pattern.attempt` computes the
first of these readings that a continuation accepts and looks at no more of them than it needs.

On top of this, `Pattern.allMatches` lists the matches in a text from left to right and
`Pattern.replace` substitutes for them. After an empty match the next match at the same place has
to be longer, so every place of a text is tried at most twice.
-/

namespace Modulize

/-- What a group has read: where it began, where it stopped, and its text. -/
structure Capture where
  start : Nat
  stop : Nat
  text : Text
  deriving DecidableEq, Repr

/-- A place in a text while a pattern is read: the text before it, its last character first, the
offset, the text that follows, and what the groups have read so far, the latest first. -/
structure Cursor where
  past : Text
  offset : Nat
  rest : Text
  groups : List (Nat × Capture)
  deriving DecidableEq, Repr

namespace Cursor

/-- The character before a place. -/
def before (c : Cursor) : Option Char := c.past.head?

/-- The place before a text. -/
def start (t : Text) : Cursor := ⟨[], 0, t, []⟩

/-- The place at offset `n` of a text, or its end when it is shorter. -/
def ofText (t : Text) (n : Nat) : Cursor :=
  let n := min n t.length
  ⟨(t.take n).reverse, n, t.drop n, []⟩

/-- The place `n` characters earlier, unless the text begins in between. -/
def back? (c : Cursor) (n : Nat) : Option Cursor :=
  if c.past.length < n then none
  else some ⟨c.past.drop n, c.offset - n, (c.past.take n).reverse ++ c.rest, c.groups⟩

/-- The text between a place and a later one. -/
def textTo (c d : Cursor) : Text := c.rest.take (d.offset - c.offset)

/-- The places after none, one, two, … characters that pass `p`, which also sees what follows
the character. -/
def stops (p : Char → Text → Bool) (groups : List (Nat × Capture)) :
    Text → Nat → Text → List Cursor
  | past, offset, [] => [⟨past, offset, [], groups⟩]
  | past, offset, a :: r =>
    ⟨past, offset, a :: r, groups⟩ ::
      if p a r then stops p groups (a :: past) (offset + 1) r else []

/-- Record what group `i` has read on the way from `c` to `d`. -/
def close (i : Nat) (c d : Cursor) : Cursor :=
  { d with groups := (i, ⟨c.offset, d.offset, c.textTo d⟩) :: d.groups }

end Cursor

/-- The ways to describe a piece of text. -/
inductive Pattern
  /-- Nothing. -/
  | nothing
  /-- A place with a property, told from the character before it and the text after it. -/
  | place (p : Option Char → Text → Bool)
  /-- One character of a class. -/
  | one (p : Char → Bool)
  /-- Any number of characters that pass a test, which also sees what follows the character. -/
  | span (p : Char → Text → Bool) (greedy : Bool)
  /-- One pattern and then another. -/
  | seq (a b : Pattern)
  /-- One pattern or else another. -/
  | alt (a b : Pattern)
  /-- A pattern any number of times, or at most `most` times. -/
  | many (body : Pattern) (most : Option Nat) (greedy : Bool)
  /-- A pattern whose text is remembered under a number. -/
  | group (i : Nat) (body : Pattern)
  /-- The text that is remembered under a number once more. -/
  | again (i : Nat)
  /-- The preferred reading of a pattern and no other. -/
  | once (body : Pattern)
  /-- A place where a pattern can be read (or, when `wanted` is false, cannot). -/
  | ahead (body : Pattern) (wanted : Bool)
  /-- A place before which a pattern of `width` characters can be read (or cannot). -/
  | behind (width : Nat) (body : Pattern) (wanted : Bool)

namespace Pattern

instance : Append Pattern := ⟨seq⟩
instance : OrElse Pattern := ⟨fun a b => alt a (b ())⟩

/-! ## Reading -/

/-- What is found by going on from a place and by stopping there, in the order of preference. -/
def preferring {α : Type} (greedy : Bool) (longer stopping : List α) : List α :=
  if greedy then longer ++ stopping else stopping ++ longer

/-- Read `body` again and again, at most `most` times. A reading that stays in place ends the
repetition, so the characters of `fuel` (what is left of the text) bound the number of readings. -/
def repeatEnds (body : Cursor → List Cursor) (greedy : Bool) :
    Text → Option Nat → Cursor → List Cursor
  | _, some 0, c => [c]
  | [], _, c => preferring greedy (body c) [c]
  | _ :: fuel, most, c =>
    let longer := (body c).flatMap fun d =>
      if d.offset = c.offset then [d]
      else repeatEnds body greedy fuel (most.map (· - 1)) d
    preferring greedy longer [c]

/-- The place behind the text that is remembered under a number, if it follows. -/
def readAgain? (i : Nat) (c : Cursor) : Option Cursor :=
  match lookup? i c.groups with
  | some capture =>
    if capture.text.isPrefixOf c.rest then
      let n := capture.text.length
      some ⟨capture.text.reverse ++ c.past, c.offset + n, c.rest.drop n, c.groups⟩
    else none
  | none => none

/-- All the places where a reading of the pattern at `c` may end, the preferred one first. -/
def ends : Pattern → Cursor → List Cursor
  | nothing, c => [c]
  | place p, c => if p c.before c.rest then [c] else []
  | one p, c =>
    match c.rest with
    | [] => []
    | a :: r => if p a then [⟨a :: c.past, c.offset + 1, r, c.groups⟩] else []
  | span p greedy, c =>
    let all := Cursor.stops p c.groups c.past c.offset c.rest
    if greedy then all.reverse else all
  | seq a b, c => (ends a c).flatMap (ends b)
  | alt a b, c => ends a c ++ ends b c
  | many body most greedy, c => repeatEnds (ends body) greedy c.rest most c
  | group i body, c => (ends body c).map (c.close i)
  | again i, c => (readAgain? i c).toList
  | once body, c => (ends body c).take 1
  | ahead body wanted, c =>
    match ends body c, wanted with
    | [], true => []
    | [], false => [c]
    | d :: _, true => [{ c with groups := d.groups }]
    | _ :: _, false => []
  | behind width body wanted, c =>
    match (c.back? width).map (ends body), wanted with
    | some (d :: _), true => [{ c with groups := d.groups }]
    | some (_ :: _), false => []
    | _, true => []
    | _, false => [c]

/-- The result of going on or else of stopping, in the order of preference. -/
def tryPreferring {α : Type} (greedy : Bool) (longer stopping : Unit → Option α) : Option α :=
  if greedy then
    match longer () with
    | some x => some x
    | none => stopping ()
  else
    match stopping () with
    | some x => some x
    | none => longer ()

/-- The first result that `k` gives at the end of a repetition of `body`; see `repeatEnds`. -/
def repeatAttempt {α : Type} (body : Cursor → (Cursor → Option α) → Option α) (greedy : Bool)
    (k : Cursor → Option α) : Text → Option Nat → Cursor → Option α
  | _, some 0, c => k c
  | [], _, c => tryPreferring greedy (fun _ => body c k) fun _ => k c
  | _ :: fuel, most, c =>
    let next (d : Cursor) : Option α :=
      if d.offset = c.offset then k d
      else repeatAttempt body greedy k fuel (most.map (· - 1)) d
    tryPreferring greedy (fun _ => body c next) fun _ => k c

/-- The first result that `k` gives at the end of a reading of the pattern at `c`. -/
def attempt : Pattern → {α : Type} → Cursor → (Cursor → Option α) → Option α
  | nothing, _, c, k => k c
  | place p, _, c, k => if p c.before c.rest then k c else none
  | one p, _, c, k =>
    match c.rest with
    | [] => none
    | a :: r => if p a then k ⟨a :: c.past, c.offset + 1, r, c.groups⟩ else none
  | span p greedy, _, c, k =>
    let all := Cursor.stops p c.groups c.past c.offset c.rest
    (if greedy then all.reverse else all).findSome? k
  | seq a b, _, c, k => attempt a c fun d => attempt b d k
  | alt a b, _, c, k =>
    match attempt a c k with
    | some x => some x
    | none => attempt b c k
  | many body most greedy, _, c, k =>
    repeatAttempt (fun d k => attempt body d k) greedy k c.rest most c
  | group i body, _, c, k => attempt body c fun d => k (c.close i d)
  | again i, _, c, k => (readAgain? i c).bind k
  | once body, _, c, k => (attempt body c some).bind k
  | ahead body wanted, _, c, k =>
    match attempt body c some with
    | some d => if wanted then k { c with groups := d.groups } else none
    | none => if wanted then none else k c
  | behind width body wanted, _, c, k =>
    match (c.back? width).bind fun b => attempt body b some with
    | some d => if wanted then k { c with groups := d.groups } else none
    | none => if wanted then none else k c

/-! ## Matches -/

/-- A piece of a text that a pattern describes: where its reading began and where it ended. -/
structure Match where
  start : Cursor
  stop : Cursor

namespace Match

/-- The matched text. -/
def text (m : Match) : Text := m.start.textTo m.stop

/-- The offsets of the matched piece. -/
def span (m : Match) : Nat × Nat := (m.start.offset, m.stop.offset)

/-- What group `i` has read, unless it took no part in the match. -/
def group? (m : Match) (i : Nat) : Option Capture := lookup? i m.stop.groups

/-- The text that group `i` has read, empty when it took no part in the match. -/
def groupText (m : Match) (i : Nat) : Text := ((m.group? i).map Capture.text).getD []

end Match

/-- The preferred reading of the pattern at a place. -/
def matchAt? (r : Pattern) (c : Cursor) : Option Match := r.attempt c fun d => some ⟨c, d⟩

/-- The preferred reading at a place among those that are not empty. -/
def longerMatchAt? (r : Pattern) (c : Cursor) : Option Match :=
  r.attempt c fun d => if d.offset = c.offset then none else some ⟨c, d⟩

/-- The pattern can be read at a place. -/
def fits (r : Pattern) (c : Cursor) : Bool := (r.matchAt? c).isSome

/-- The first match at or after the place given by its parts. -/
def findFrom (r : Pattern) (past : Text) (offset : Nat) : Text → Option Match
  | [] => r.matchAt? ⟨past, offset, [], []⟩
  | a :: rest =>
    match r.matchAt? ⟨past, offset, a :: rest, []⟩ with
    | some m => some m
    | none => findFrom r (a :: past) (offset + 1) rest

/-- The leftmost match in a text. -/
def find? (r : Pattern) (t : Text) : Option Match := r.findFrom [] 0 t

/-- The pattern matches somewhere in a text. -/
def occursIn (r : Pattern) (t : Text) : Bool := (r.find? t).isSome

/-- The matches that begin at one place: the preferred one and, when that is empty, the preferred
longer one. -/
def matchesAt (r : Pattern) (c : Cursor) : List Match :=
  match r.matchAt? c with
  | none => []
  | some m =>
    if m.stop.offset = c.offset then m :: (r.longerMatchAt? c).toList else [m]

/-- The number of characters that the matches found at a place cover. -/
def covered (c : Cursor) (found : List Match) : Nat :=
  match found.getLast? with
  | none => 0
  | some m => m.stop.offset - c.offset

/-- The matches at or after a place, in order, without overlaps; the first `skip` characters lie
in a match already found. -/
def matchesFrom (r : Pattern) : Nat → Text → Nat → Text → List Match
  | 0, past, offset, [] => r.matchesAt ⟨past, offset, [], []⟩
  | _ + 1, _, _, [] => []
  | 0, past, offset, a :: rest =>
    let c : Cursor := ⟨past, offset, a :: rest, []⟩
    let found := r.matchesAt c
    found ++ matchesFrom r (covered c found - 1) (a :: past) (offset + 1) rest
  | skip + 1, past, offset, a :: rest => matchesFrom r skip (a :: past) (offset + 1) rest

/-- The matches in a text from left to right, without overlaps. -/
def allMatches (r : Pattern) (t : Text) : List Match := r.matchesFrom 0 [] 0 t

/-- The rest of a text at offset `at`, with each of the matches that follow replaced. -/
def rebuild (f : Match → Text) (offset : Nat) (rest : Text) : List Match → Text
  | [] => rest
  | m :: ms =>
    rest.take (m.start.offset - offset) ++ f m ++ rebuild f m.stop.offset m.stop.rest ms

/-- Replace every match in a text. -/
def replace (r : Pattern) (f : Match → Text) (t : Text) : Text := rebuild f 0 t (r.allMatches t)

/-- Replace the first match in a text. -/
def replaceFirst (r : Pattern) (f : Match → Text) (t : Text) : Text :=
  rebuild f 0 t (r.find? t).toList

/-- Delete every match in a text. -/
def erase (r : Pattern) (t : Text) : Text := r.replace (fun _ => []) t

/-! ## Common patterns -/

/-- A fixed text. -/
def literal : Text → Pattern
  | [] => nothing
  | [a] => one (· == a)
  | a :: r => seq (one (· == a)) (literal r)

/-- Any number of characters of a class, as many as possible. -/
def run (p : Char → Bool) : Pattern := span (fun a _ => p a) true

/-- One or more characters of a class, as many as possible. -/
def run1 (p : Char → Bool) : Pattern := seq (one p) (run p)

/-- Any number of blanks. -/
def blanks : Pattern := run isBlank

/-- At least one blank. -/
def blanks1 : Pattern := run1 isBlank

/-- Any number of spaces and tabs. -/
def spacesOrTabs : Pattern := run isSpaceOrTab

/-- An identifier: one or more of its characters. -/
def identifier : Pattern := run1 isIdent

/-- A pattern or nothing, preferably the pattern. -/
def optional (r : Pattern) : Pattern := alt r nothing

/-- One of several patterns, the earlier ones first. -/
def oneOf : List Pattern → Pattern
  | [] => place fun _ _ => false
  | [r] => r
  | r :: rs => alt r (oneOf rs)

/-- The beginning of a line. -/
def lineStart : Pattern :=
  place fun before _ => match before with
    | none => true
    | some b => b == '\n'

/-- The end of a line. -/
def lineEnd : Pattern :=
  place fun _ rest => match rest with
    | [] => true
    | a :: _ => a == '\n'

/-- The beginning of a text. -/
def textStart : Pattern := place fun before _ => before.isNone

/-- The end of a text, or the place before its last line break when that ends the text. -/
def textEnd : Pattern :=
  place fun _ rest => match rest with
    | [] => true
    | [a] => a == '\n'
    | _ => false

/-- A place not directly after a character of a class. -/
def notAfter (p : Char → Bool) : Pattern :=
  place fun before _ => match before with
    | none => true
    | some b => !p b

/-- A place not directly before a character of a class. -/
def notBefore (p : Char → Bool) : Pattern :=
  place fun _ rest => match rest with
    | [] => true
    | a :: _ => !p a

/-- A place between a word character and another one, or the edge of the text. -/
def wordEdge : Pattern :=
  place fun before rest =>
    (match before with | none => false | some b => isWord b) !=
      (match rest with | [] => false | a :: _ => isWord a)

end Pattern

end Modulize
