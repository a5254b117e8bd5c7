import BuildChain.CommandLine.Invocation

/-! # Reading the command line

Options may stand anywhere, the directory of the build is the first argument. An option given
again replaces its value, and only exclusions add up. Options by letter may share a word.
-/

namespace BuildChain.CommandLine

/-- The options that share one word. -/
structure Cluster where
  given : List (Switch × Value)
  /-- The option at the end of the word whose value is the next word. -/
  awaiting : Option Switch
  deriving DecidableEq, Repr

namespace Cluster

/-- An option with no text attached. -/
def bare (switch : Switch) : Cluster :=
  if switch.takesValue then ⟨[], some switch⟩ else ⟨[(switch, .nothing)], none⟩

/-- An option with a text attached that is its value. -/
def valued (switch : Switch) (attached : Text) : Except Error Cluster :=
  if switch.takesValue then .ok ⟨[(switch, .ofAttached attached)], none⟩
  else .error (.ignoredValue switch attached)

def cons (switch : Switch) (cluster : Cluster) : Cluster :=
  { cluster with given := (switch, .nothing) :: cluster.given }

/-- An option by its letter, with a text attached. After an option that takes no value the text
goes on with the letter of the next one. -/
def ofAttached (switch : Switch) : (attached : Text) → Except Error Cluster
  | [] => valued switch []
  | c :: rest =>
    match switch.takesValue, Switch.ofLetter? c with
    | false, some next =>
      cons switch <$> if rest.isEmpty then .ok (bare next) else ofAttached next rest
    | _, _ => valued switch (c :: rest)

end Cluster

/-- What the words read so far ask of the next one. -/
inductive Expecting
  | anything
  /-- The last word was the directory. A mark right after it is passed over. -/
  | afterDirectory
  /-- The last word was a mark. It is passed over if the directory comes next. -/
  | afterMark
  /-- The last word ended with an option whose value comes next. Those before it in the word wait
  for it. -/
  | value (given : List (Switch × Value)) (switch : Switch)
  deriving DecidableEq, Repr

/-- What the words read so far gave. -/
structure Reading where
  directory : Option FilePath
  options : Options
  /-- The words that nothing was made of, in order. -/
  surplus : List Text
  expecting : Expecting
  deriving DecidableEq, Repr

namespace Reading

def start : Reading where
  directory := none
  options := .default
  surplus := []
  expecting := .anything

def addSurplus (r : Reading) (word : Text) : Reading :=
  { r with surplus := r.surplus ++ [word], expecting := .anything }

def argument (r : Reading) (t : Text) : Reading :=
  match r.directory with
  | none => { r with directory := some (FilePath.ofText t), expecting := .afterDirectory }
  | some _ => r.addSurplus t

/-- Reads the mark that ends the options. -/
def mark (r : Reading) : Reading :=
  if r.expecting = .afterDirectory then { r with expecting := .anything }
  else if r.directory.isNone then { r with expecting := .afterMark }
  else r.addSurplus "--"

def give (r : Reading) (given : List (Switch × Value)) : Except Stop Reading :=
  (fun options => { r with options := options, expecting := .anything }) <$>
    r.options.giveAll given

def cluster (r : Reading) : Except Error Cluster → Except Stop Reading
  | .error e => .error (.error e)
  | .ok ⟨given, none⟩ => r.give given
  | .ok ⟨given, some switch⟩ => .ok { r with expecting := .value given switch }

/-- Reads a word where no value is due. -/
def plain (r : Reading) : Word → Except Stop Reading
  | .argument t => .ok (r.argument t)
  | .endOfOptions => .ok r.mark
  | .long switch none => r.cluster (.ok (.bare switch))
  | .long switch (some value) => r.cluster (Cluster.valued switch value)
  | .short switch none => r.cluster (.ok (.bare switch))
  | .short switch (some attached) => r.cluster (Cluster.ofAttached switch attached)
  | .unknown t => .ok (r.addSurplus t)

def step (r : Reading) (word : Word) : Except Stop Reading :=
  match r.expecting, word with
  | .value given switch, .argument value => r.give (given ++ [(switch, .text value)])
  | .value _ switch, _ => .error (.error (.missingValue switch))
  | _, word => r.plain word

/-- What was read when no word is left. -/
def finish (r : Reading) : Except Stop Invocation :=
  let r := if r.expecting = .afterMark then r.addSurplus "--" else r
  match r.expecting, r.directory with
  | .value _ switch, _ => .error (.error (.missingValue switch))
  | _, none => .error (.error .missingDirectory)
  | _, some directory =>
    if r.surplus.isEmpty then .ok ⟨directory, r.options⟩
    else .error (.error (.unrecognized r.surplus))

end Reading

/-- Classifies the words in order. -/
def classify : List Text → Except Error (List Word)
  | [] => .ok []
  | word :: words =>
    if word = ("--" : Text) then .ok (.endOfOptions :: words.map .argument)
    else match Word.ofText word with
      | .error switches => .error (.ambiguous word switches)
      | .ok first => (first :: ·) <$> classify words

/-- What a command line asks for. -/
def parse (words : List Text) : Except Stop Invocation :=
  match classify words with
  | .error e => .error (.error e)
  | .ok words => words.foldlM Reading.step .start >>= Reading.finish

end BuildChain.CommandLine
