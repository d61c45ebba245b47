import InfraConfig.Regex.CharClass

/-!
# Patterns and their matches

A pattern matches at a place of a text in at most one way: of the alternatives the first that leads to a
match is taken, and a repetition takes as many turns as it can, or as few when it is lazy.
-/

namespace InfraConfig

namespace Regex

inductive Assertion where
  | textStart
  | textEnd
  | lineStart
  | lineEnd
  | wordBoundary
  | notWordBoundary
  | wordStart
  | wordEnd
  | wordStartHalf
  | wordEndHalf
  deriving DecidableEq

inductive Node where
  | empty
  | char (class' : CharClass)
  | assert (a : Assertion)
  | group (index : Nat) (body : Node)
  | seq (a b : Node)
  | alt (a b : Node)
  | repeated (body : Node) (least : Nat) (most : Option Nat) (greedy : Bool)

/-- A place in a text: how many characters are before it, the last of them, those that follow, and the
groups matched so far, newest first. -/
structure Place where
  position : Nat
  before : Option Char
  rest : List Char
  groups : List (Nat × Nat × Nat)

namespace Place

def start (text : List Char) : Place :=
  ⟨0, none, text, []⟩

/-- The place after one more character. -/
def next? (p : Place) : Option Place :=
  match p.rest with
  | c :: rest => some { p with position := p.position + 1, before := some c, rest := rest }
  | [] => none

def endGroup (p : Place) (index start : Nat) : Place :=
  { p with groups := (index, start, p.position) :: p.groups }

def wordBefore (p : Place) : Bool :=
  p.before.any isWord

def wordAfter (p : Place) : Bool :=
  p.rest.head?.any isWord

end Place

def Assertion.holds (a : Assertion) (p : Place) : Bool :=
  match a with
  | textStart => p.before.isNone
  | textEnd => p.rest.isEmpty
  | lineStart => p.before.isNone || p.before == some '\n'
  | lineEnd => p.rest.isEmpty || p.rest.head? == some '\n'
  | wordBoundary => p.wordBefore != p.wordAfter
  | notWordBoundary => p.wordBefore == p.wordAfter
  | wordStart => !p.wordBefore && p.wordAfter
  | wordEnd => p.wordBefore && !p.wordAfter
  | wordStartHalf => !p.wordBefore
  | wordEndHalf => !p.wordAfter

/-- What is tried from a place: the place where the match ends. -/
abbrev Attempt := Place → Option Place

/-- `turn` exactly `n` times, then `done`. -/
def times (turn : Attempt → Attempt) (done : Attempt) : Nat → Attempt
  | 0 => done
  | n + 1 => turn (times turn done n)

/-- The first of two attempts that succeeds. -/
def firstOf (a b : Attempt) : Attempt :=
  fun p => (a p).orElse fun _ => b p

/-- A turn that is optional: tried first when greedy, else last. -/
def optional (greedy : Bool) (turn done : Attempt) : Attempt :=
  if greedy then firstOf turn done else firstOf done turn

/-- `turn` up to `n` times, then `done`. A turn that reads nothing is the last one when `idle` holds, and
no turn at all otherwise. -/
def upTo (turn : Attempt → Attempt) (greedy idle : Bool) (done : Attempt) : Nat → Attempt
  | 0 => done
  | n + 1 =>
    optional greedy (fun p =>
      turn (fun q =>
        if q.position = p.position then if idle then done q else none
        else upTo turn greedy idle done n q) p) done

/-- `turn` once or more, then `done`. Only the first turn may read nothing, and then it is the last. -/
def onceOrMore (turn : Attempt → Attempt) (greedy : Bool) (done : Attempt) : Attempt :=
  fun p =>
    turn (fun q =>
      if q.position = p.position then done q else upTo turn greedy false done q.rest.length q) p

/-- `turn` at least `least` and at most `most` times, then `done`. -/
def turns (turn : Attempt → Attempt) (least : Nat) (most : Option Nat) (greedy : Bool)
    (done : Attempt) : Attempt :=
  match most, least with
  | some most, least => times turn (upTo turn greedy true done (most - least)) least
  | none, 0 => optional greedy (onceOrMore turn greedy done) done
  | none, least + 1 => times turn (onceOrMore turn greedy done) least

namespace Node

/-- Matches the pattern from a place and goes on with `done`. -/
def attempt : Node → Attempt → Attempt
  | empty, done, p => done p
  | char cls, done, p =>
    match p.rest, p.next? with
    | c :: _, some q => if cls.contains c then done q else none
    | _, _ => none
  | assert a, done, p => if a.holds p then done p else none
  | group index body, done, p => body.attempt (fun q => done (q.endGroup index p.position)) p
  | seq a b, done, p => a.attempt (b.attempt done) p
  | alt a b, done, p => (a.attempt done p).orElse fun _ => b.attempt done p
  | repeated body least most greedy, done, p => turns body.attempt least most greedy done p

end Node

/-- A pattern with its groups in the order of their opening; group 0 is the whole match and not listed. -/
structure Pattern where
  node : Node
  groups : List (Option String)

/-- A match: where it starts and ends, and where its groups do. -/
structure Match where
  start : Nat
  stop : Nat
  groups : List (Nat × Nat × Nat)

namespace Pattern

/-- The first match at or after a place, which is at most `n` characters before the end. -/
def findFrom (pattern : Pattern) : Nat → Place → Option Match
  | n, p =>
    match pattern.node.attempt some { p with groups := [] } with
    | some q => some ⟨p.position, q.position, q.groups⟩
    | none =>
      match n, p.next? with
      | n + 1, some q => findFrom pattern n q
      | _, _ => none

/-- The place `n` characters on. -/
def skip (p : Place) : Nat → Place
  | 0 => p
  | n + 1 =>
    match p.next? with
    | some q => skip q n
    | none => p

/-- Matches one after another from a place. A match of nothing right behind the last one does not
count. -/
def matchesFrom (pattern : Pattern) : Nat → Option Nat → Place → List Match
  | 0, _, _ => []
  | fuel + 1, last, p =>
    let found := match pattern.findFrom p.rest.length p with
      | some m =>
        if m.start = m.stop ∧ last = some m.stop then
          match (skip p (m.start - p.position)).next? with
          | some q => pattern.findFrom q.rest.length q
          | none => none
        else some m
      | none => none
    match found with
    | some m => m :: matchesFrom pattern fuel (some m.stop) (skip p (m.stop - p.position))
    | none => []

/-- All matches in a text, from left to right without overlap. -/
def findAll (pattern : Pattern) (text : List Char) : List Match :=
  pattern.matchesFrom (text.length + 2) none (.start text)

def find? (pattern : Pattern) (text : List Char) : Option Match :=
  pattern.findFrom text.length (.start text)

def isMatch (pattern : Pattern) (text : String) : Bool :=
  (pattern.find? text.toList).isSome

end Pattern

/-- The part of `text` that a group matched. -/
def Match.group? (m : Match) (text : List Char) (index : Nat) : Option String :=
  let span? := if index = 0 then some (m.start, m.stop) else m.groups.lookup index
  span?.map fun (start, stop) => .ofList ((text.drop start).take (stop - start))

/-- The part of `text` that a group with this name matched. -/
def Match.named? (pattern : Pattern) (m : Match) (text : List Char) (name : String) : Option String :=
  match pattern.groups.findIdx? (· == some name) with
  | some i => m.group? text (i + 1)
  | none => none

end Regex

end InfraConfig
