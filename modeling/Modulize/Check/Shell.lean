import Modulize.Check.Utility

/-!
# Command lines

A command line is a sequence of simple commands, each of which may depend on the success or the
failure of the one before. It is split into tokens (`Shell.tokens`), the tokens are grouped into
steps (`Shell.steps`), and the steps are run one after another (`Shell.run`). The outputs of a step
can be led to the other output, to a file, or away.
-/

namespace Modulize.Check.Shell

/-- A part of a command line: a word, a mark between commands, the end of a line, or a mark that
leads one of the outputs elsewhere. -/
inductive Token
  | word (t : Text)
  | mark (m : Text)
  | lineEnd
  | lead (output : Nat) (m : Text)
  deriving DecidableEq, Repr

/-- Between what kind of quotes a character stands. -/
inductive Quoting
  | bare
  | single
  | double
  deriving DecidableEq, Repr

/-- The word that has been read so far, its last character first, and whether a part of it was
quoted. Nothing stands for the space between words. -/
abbrev Partial := Option (Text × Bool)

/-- A word with one more character. -/
def Partial.push (w : Partial) (c : Char) (isQuoted : Bool) : Partial :=
  match w with
  | some (t, q) => some (c :: t, q || isQuoted)
  | none => some ([c], isQuoted)

/-- A word in which a quoted part begins. -/
def Partial.open (w : Partial) : Partial := some ((w.map Prod.fst).getD [], true)

/-- The token of a word, if there is one. -/
def Partial.tokens (w : Partial) : List Token := w.toList.map fun x => .word x.1.reverse

/-- The tokens of a word in front of a mark that leads an output elsewhere; the word may be the
number of the output. -/
def Partial.leading (w : Partial) (m : Text) : List Token :=
  match w with
  | some (['1'], false) => [.lead 1 m]
  | some (['2'], false) => [.lead 2 m]
  | w => w.tokens ++ [.lead 1 m]

/-- Read the tokens of a command line. -/
def tokensFrom : Quoting → Partial → Text → List Token
  | _, w, [] => w.tokens
  | .single, w, '\'' :: r => tokensFrom .bare w r
  | .single, w, c :: r => tokensFrom .single (w.push c true) r
  | .double, w, '"' :: r => tokensFrom .bare w r
  | .double, w, '\\' :: '\n' :: r => tokensFrom .double w r
  | .double, w, '\\' :: c :: r =>
    if c = '$' ∨ c = '"' ∨ c = '\\' ∨ c.toNat = 0x60 then tokensFrom .double (w.push c true) r
    else tokensFrom .double ((w.push '\\' true).push c true) r
  | .double, w, c :: r => tokensFrom .double (w.push c true) r
  | .bare, w, '\'' :: r => tokensFrom .single w.open r
  | .bare, w, '"' :: r => tokensFrom .double w.open r
  | .bare, w, '\\' :: '\n' :: r => tokensFrom .bare w r
  | .bare, w, '\\' :: c :: r => tokensFrom .bare (w.push c true) r
  | .bare, w, '&' :: '&' :: r => w.tokens ++ .mark "&&" :: tokensFrom .bare none r
  | .bare, w, '|' :: '|' :: r => w.tokens ++ .mark "||" :: tokensFrom .bare none r
  | .bare, w, '>' :: '&' :: r => w.leading ">&" ++ tokensFrom .bare none r
  | .bare, w, '>' :: '>' :: r => w.leading ">>" ++ tokensFrom .bare none r
  | .bare, w, '>' :: r => w.leading ">" ++ tokensFrom .bare none r
  | .bare, w, c :: r =>
    if c = ';' then w.tokens ++ .mark [';'] :: tokensFrom .bare none r
    else if c = '\n' then w.tokens ++ .lineEnd :: tokensFrom .bare none r
    else if c = ' ' ∨ c = '\t' then w.tokens ++ tokensFrom .bare none r
    else tokensFrom .bare (w.push c false) r

/-- The tokens of a command line. -/
def tokens (t : Text) : List Token := tokensFrom .bare none t

/-- A simple command: the number of the line on which it begins, the mark in front of it, its words,
and where its outputs are led. -/
structure Step where
  line : Nat
  mark : Text
  words : List Text
  leads : List (Nat × Text × Text)
  deriving DecidableEq, Repr

/-- Nothing has been read of the step but the mark in front of it. -/
def Step.isEmpty (s : Step) : Bool := s.words.isEmpty && s.leads.isEmpty

/-- Group tokens into steps; `s` is the step that has been read so far, and `line` the number of the
line. A line may end behind a mark. -/
def stepsFrom (line : Nat) (s : Step) : List Token → List Step
  | [] => [s]
  | .word t :: rest =>
    stepsFrom (line + t.count '\n') { s with words := s.words ++ [t] } rest
  | .mark m :: rest => s :: stepsFrom line ⟨line, m, [], []⟩ rest
  | .lineEnd :: rest =>
    if s.isEmpty then stepsFrom (line + 1) { s with line := line + 1 } rest
    else s :: stepsFrom (line + 1) ⟨line + 1, [';'], [], []⟩ rest
  | .lead n m :: .word t :: rest => stepsFrom line { s with leads := s.leads ++ [(n, m, t)] } rest
  | .lead _ _ :: rest => stepsFrom line s rest

/-- The steps of a command line. -/
def steps (t : Text) : List Step :=
  (stepsFrom 1 ⟨1, [';'], [], []⟩ (tokens t)).filter (! ·.isEmpty)

/-- Where an output goes. -/
inductive Sink
  | out
  | err
  | file (p : Path)
  deriving DecidableEq, Repr

/-- The state of a run: the files, the folder where it runs, the reply so far with the code of the
last step, and whether it has ended. -/
structure State where
  files : FileStore
  cwd : Path
  reply : Reply
  hasEnded : Bool
  deriving DecidableEq, Repr

/-- Write contents to where an output goes. -/
def State.emit (s : State) (sink : Sink) (c : Content) : State :=
  match sink with
  | .out => { s with reply := { s.reply with out := s.reply.out ++ c } }
  | .err => { s with reply := { s.reply with err := s.reply.err ++ c } }
  | .file p =>
    match s.files.append p c with
    | .ok files => { s with files }
    | .error _ => s

/-- Lead an output elsewhere. The sinks are those of the two outputs so far. -/
def State.lead (s : State) (sinks : Sink × Sink) (l : Nat × Text × Text) : State × (Sink × Sink) :=
  let set (k : Sink) : Sink × Sink := if l.1 = 2 then (sinks.1, k) else (k, sinks.2)
  if l.2.1 = ">&" then
    (s, set (if l.2.2 = ['2'] then sinks.2 else sinks.1))
  else
    let p := s.cwd.join (Path.parse l.2.2)
    let files := if l.2.1 = ">" then (s.files.write p .empty).toOption else none
    ({ s with files := files.getD s.files }, set (.file p))

/-- Lead the outputs of a step elsewhere, in order. -/
def State.leadAll (s : State) (leads : List (Nat × Text × Text)) : State × (Sink × Sink) :=
  leads.foldl (fun x l => x.1.lead x.2 l) (s, (.out, .err))

/-- The escapes that a command line understands in what is echoed. -/
def unescape : Text → Text
  | '\\' :: 'n' :: r => '\n' :: unescape r
  | '\\' :: 't' :: r => '\t' :: unescape r
  | '\\' :: '\\' :: r => '\\' :: unescape r
  | c :: r => c :: unescape r
  | [] => []

/-- The complaint of a command line about something on a line. -/
def complaint (line : Nat) (what why : Text) : Text :=
  "sh: " ++ Text.ofNat line ++ ": " ++ what ++ ": " ++ why ++ "\n"

/-- The reply when a command leads to nothing that can be run. -/
def refusal (line : Nat) (name : Text) (problem : FileProblem) : Reply :=
  match problem with
  | .missing | .notDirectory => .complaint 127 (complaint line name "not found")
  | .linkLoop => .complaint 127 (complaint line name (Utility.problemWords problem))
  | _ => .complaint 126 (complaint line name (Utility.problemWords problem))

/-- How the program for command lines answers its arguments. -/
abbrev Runner := FileStore → Path → List Text → Reply × FileStore

/-- The reply to a simple command that leaves the run going, and the files after it. A command line
within a command line is run by `inner`. -/
def replyTo (inner : Runner) (s : State) (line : Nat) (name : Text) (args : List Text) :
    Reply × FileStore :=
  if name = [':'] then (.quiet 0, s.files)
  else if name = "echo" then (Utility.echo s.files s.cwd (args.map unescape), s.files)
  else
    match Utility.target s.files s.cwd name with
    | .shell => inner s.files s.cwd args
    | .utility u => (u s.files s.cwd args, s.files)
    | .problem p => (refusal line name p, s.files)

/-- The number that a word writes. -/
def number (t : Text) : Nat := ((Text.toString t).toNat?).getD 2

/-- Run the words of a step. -/
def State.runWords (inner : Runner) (s : State) (line : Nat) (sinks : Sink × Sink) :
    List Text → State
  | [] => { s with reply := { s.reply with code := 0 } }
  | name :: args =>
    if name = "exit" then
      let code := match args with
        | [] => s.reply.code
        | a :: _ => number a % 256
      { s with reply := { s.reply with code }, hasEnded := true }
    else if name = "cd" then
      let p := s.cwd.join (Path.parse (args.headD []))
      if s.files.isFolder p then { s with cwd := p, reply := { s.reply with code := 0 } }
      else
        let s := s.emit sinks.2 (.text (complaint line "cd" ("can't cd to " ++ args.headD [])))
        { s with reply := { s.reply with code := 2 } }
    else
      let (r, files) := replyTo inner s line name args
      let s := ({ s with files }.emit sinks.1 r.out).emit sinks.2 r.err
      { s with reply := { s.reply with code := r.code } }

/-- Run a step, unless the run has ended or the mark in front of it forbids it. -/
def State.runStep (inner : Runner) (s : State) (step : Step) : State :=
  let isDue : Bool :=
    if step.mark = "&&" then s.reply.code = 0
    else if step.mark = "||" then s.reply.code ≠ 0
    else true
  if s.hasEnded || !isDue then s
  else
    let (s, sinks) := s.leadAll step.leads
    s.runWords inner step.line sinks step.words

/-- Run a command line in a folder; another one may stand within it, to the given depth. -/
def runTo : Nat → FileStore → Path → List Text → Reply × FileStore
  | 0, fs, _, _ => (.quiet 2, fs)
  | depth + 1, fs, cwd, args =>
    match args with
    | ['-', 'c'] :: line :: _ =>
      let s := (steps line).foldl (State.runStep (runTo depth)) ⟨fs, cwd, .quiet 0, false⟩
      (s.reply, s.files)
    | ['-', 'c'] :: [] => (.complaint 2 "sh: 0: -c requires an argument\n", fs)
    | _ => (.quiet 2, fs)

/-- Run the program for command lines with its arguments in a folder. A command line within another
is shorter than that. -/
def run (fs : FileStore) (cwd : Path) (args : List Text) : Reply × FileStore :=
  runTo ((args.map List.length).foldr (· + ·) 0 + 1) fs cwd args

end Modulize.Check.Shell
