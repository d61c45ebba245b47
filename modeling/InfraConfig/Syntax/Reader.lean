import InfraConfig.Syntax.Alike
import InfraConfig.Syntax.Markup

/-!
# Reading expressions and templates

A recursive descent over the characters of the source. Inside parentheses and brackets line ends are
blanks; elsewhere an expression ends with its line, unless a bracket was closed in it. Quoted text and
heredocs hold templates. Every reader takes a bound on its recursion, which the outer functions compute from
the length of the source, and most take the number of levels that may still be opened.
-/

namespace InfraConfig

namespace Syntax

/-- How many brackets, signs, branches, interpolations and directives may be open at once. -/
def nestingLimit : Nat := 64

/-- How many operators may join the operands of one expression. -/
def operatorLimit : Nat := 128

/-- The levels that remain inside one more. -/
def inner? : Nat → Option Nat
  | 0 => none
  | n + 1 => some n

/-- Operators by their symbols; a longer symbol comes before its beginnings. -/
def operators : List (String × BinaryOp) :=
  [("==", .eq), ("!=", .ne), ("<=", .le), (">=", .ge), ("&&", .and), ("||", .or), ("<", .lt),
    (">", .gt), ("+", .add), ("-", .sub), ("*", .mul), ("/", .div), ("%", .rem)]

/-- An operator at the front. The start of a line comment is no operator. -/
def readOperator (cs : List Char) : Option (BinaryOp × List Char) :=
  match cs with
  | '/' :: '/' :: _ => none
  | _ => operators.findSome? fun (symbol, op) => (after? symbol cs).map fun rest => (op, rest)

/-- What follows the word that makes a bracket a `for`: it stands apart from the next one. -/
def afterFor? (cs : List Char) : Option (List Char) := do
  let rest ← after? "for" cs
  if rest.head?.any fun c => isSpace c || c == '\n' then some rest else none

/-- The names a `for` binds: a value, or a key and a value. -/
def readBinders (cs : List Char) : Option (Option String × String × List Char) := do
  let (first, rest) ← readName (skipAll cs)
  match skipAll rest with
  | ',' :: rest => do
    let (second, rest) ← readName (skipAll rest)
    some (some first, second, rest)
  | _ => some (none, first, rest)

/-- Key words of a name that is a value. -/
def wordValue? (name : String) : Option Expr :=
  match name with
  | "null" => some .null
  | "true" => some (.bool true)
  | "false" => some (.bool false)
  | _ => none

/-- The parts of a template when they are literal text only. -/
def plainText? : List Part → Option String
  | [] => some ""
  | [.literal s] => some s
  | _ => none

end Syntax

namespace Expr

/-- Whether an operand starts with a bracket. After it line ends are blanks, up to the end of the
expression. -/
def bracketed : Expr → Bool
  | .list _ => true
  | .object _ => true
  | .forEach .. => true
  | .call .. => true
  | .paren _ => true
  | .traversal root _ => root.bracketed
  | .unary _ e => e.bracketed
  | _ => false

/-- A term with the steps taken from it. -/
def withSteps (root : Expr) (steps : List Step) : Expr :=
  if steps.isEmpty then root else .traversal root steps

/-- Joins the operands that wait for their right side, as long as their operators bind at least as tightly
as `level`. -/
def joinPending (level : Nat) : List (Expr × BinaryOp) → Expr → List (Expr × BinaryOp) × Expr
  | [], right => ([], right)
  | (left, op) :: pending, right =>
    if level ≤ op.level then joinPending level pending (.binary op left right)
    else ((left, op) :: pending, right)

/-- Groups operands by the levels of their operators, those of one level to the left. -/
def joinOperands (pending : List (Expr × BinaryOp)) (left : Expr) : List (BinaryOp × Expr) → Expr
  | [] => (joinPending 0 pending left).2
  | (op, right) :: rest =>
    let (pending, left) := joinPending op.level pending left
    joinOperands ((left, op) :: pending) right rest

end Expr

namespace Syntax

mutual

/-- An expression; `lines` tells whether line ends are blanks. -/
def readExpr : Nat → Nat → Bool → List Char → Option (Expr × List Char)
  | 0, _, _, _ => none
  | fuel + 1, levels, lines, cs => do
    let (first, rest) ← readOperand fuel levels lines cs
    let lines := lines || first.bracketed
    let (more, rest) ← readOperands fuel levels lines operatorLimit rest
    let lines := lines || more.any (·.2.bracketed)
    let condition := Expr.joinOperands [] first more
    match skipBlanks lines rest with
    | '?' :: after => do
      let levels ← inner? levels
      let (yes, after) ← readExpr fuel levels lines (skipBlanks lines after)
      let after ← after? ":" (skipBlanks lines after)
      let (no, after) ← readExpr fuel levels lines (skipBlanks lines after)
      some (.conditional condition yes no, after)
    | _ => some (condition, rest)

/-- At most `limit` further operands, with the operators before them. -/
def readOperands : Nat → Nat → Bool → Nat → List Char → Option (List (BinaryOp × Expr) × List Char)
  | 0, _, _, _, _ => none
  | fuel + 1, levels, lines, limit, cs =>
    match readOperator (skipBlanks lines cs) with
    | some (op, rest) => do
      let limit ← inner? limit
      let (e, rest) ← readOperand fuel levels lines (skipBlanks lines rest)
      let (more, rest) ← readOperands fuel levels (lines || e.bracketed) limit rest
      some ((op, e) :: more, rest)
    | none => some ([], cs)

/-- A term with its signs and steps. A minus sign before a number belongs to it. -/
def readOperand : Nat → Nat → Bool → List Char → Option (Expr × List Char)
  | 0, _, _, _ => none
  | fuel + 1, levels, lines, cs =>
    match readNegativeLiteral cs with
    | some (n, rest) => do
      let (steps, rest) ← readSteps fuel levels lines rest
      some (.withSteps (.number n) steps, rest)
    | none =>
      match cs with
      | '-' :: rest => do
        let levels ← inner? levels
        let (e, rest) ← readOperand fuel levels lines (skipBlanks false rest)
        some (.unary .neg e, rest)
      | '!' :: rest => do
        let levels ← inner? levels
        let (e, rest) ← readOperand fuel levels lines (skipBlanks false rest)
        some (.unary .not e, rest)
      | _ => do
        let (root, rest) ← readTerm fuel levels lines cs
        let (steps, rest) ← readSteps fuel levels (lines || root.bracketed) rest
        some (.withSteps root steps, rest)

/-- The steps into a value: `.name`, `.0`, `.*`, `[index]` and `[*]`. -/
def readSteps : Nat → Nat → Bool → List Char → Option (List Step × List Char)
  | 0, _, _, _ => none
  | fuel + 1, levels, lines, cs =>
    match skipBlanks lines cs with
    | '.' :: '.' :: _ => some ([], cs)
    | '.' :: rest => do
      let (step, rest) ← match skipBlanks lines rest with
        | '*' :: rest => some (Step.attributeSplat, rest)
        | rest =>
          match readPosition rest with
          | some (n, rest) => some (Step.position n, rest)
          | none => (readName rest).map fun (name, rest) => (Step.attribute name, rest)
      let (steps, rest) ← readSteps fuel levels lines rest
      some (step :: steps, rest)
    | '[' :: rest => do
      let (step, rest) ← match skipAll rest with
        | '*' :: rest => some (Step.fullSplat, rest)
        | rest => do
          let levels ← inner? levels
          let (e, rest) ← readExpr fuel levels true rest
          some (Step.index e, rest)
      let rest ← after? "]" (skipAll rest)
      let (steps, rest) ← readSteps fuel levels lines rest
      some (step :: steps, rest)
    | _ => some ([], cs)

def readTerm : Nat → Nat → Bool → List Char → Option (Expr × List Char)
  | 0, _, _, _ => none
  | fuel + 1, levels, lines, cs =>
    match cs with
    | [] => none
    | '"' :: rest => do
      let (parts, after) ← readParts fuel levels .quoted rest
      let after ← after? "\"" after
      match plainText? parts with
      | some s => some (.text s, after)
      | none => some (.template (Markup.ofQuoted rest) (some parts), after)
    | '<' :: _ => do
      let (start, rest) ← readHeredocStart cs
      let source := Markup.ofHeredoc start rest
      match afterDelimiter? start.delimiter rest with
      | some after => some (.template source (some []), after)
      | none => do
        let (parts, after) ← readParts fuel levels (.heredoc start.delimiter) rest
        let after ← afterHeredoc? start.delimiter after
        some (.template source (some parts), after)
    | '[' :: rest => do
      let levels ← inner? levels
      match afterFor? (skipAll rest) with
      | some intro => do
        let (e, rest) ← readFor fuel levels false intro
        let rest ← after? "]" (skipAll rest)
        some (e, rest)
      | none => do
        let (items, rest) ← readItems fuel levels rest
        some (.list items, rest)
    | '\x7b' :: rest => do
      let levels ← inner? levels
      match afterFor? (skipAll rest) with
      | some intro => do
        let (e, rest) ← readFor fuel levels true intro
        let rest ← after? "\x7d" (skipAll rest)
        some (e, rest)
      | none => do
        let (entries, rest) ← readEntries fuel levels [] (skipAll rest)
        some (.object entries, rest)
    | '(' :: rest => do
      let levels ← inner? levels
      let (e, rest) ← readExpr fuel levels true (skipAll rest)
      let rest ← after? ")" (skipAll rest)
      some (.paren e, rest)
    | c :: _ =>
      if c.isDigit then (readNumberLiteral cs).map fun (n, rest) => (.number n, rest)
      else do
        let (name, rest) ← readName cs
        readNamed fuel levels lines [] name rest

/-- What a name stands for that comes after the namespaces `spaces`: a function, or alone a variable or a
value. -/
def readNamed : Nat → Nat → Bool → List String → String → List Char → Option (Expr × List Char)
  | 0, _, _, _, _, _ => none
  | fuel + 1, levels, lines, spaces, name, cs =>
    match skipBlanks lines cs with
    | '(' :: rest => do
      let levels ← inner? levels
      let (args, spread, rest) ← readArgs fuel levels (skipAll rest)
      some (.call ⟨spaces, name⟩ args spread, rest)
    | ':' :: ':' :: rest => do
      let (next, rest) ← readName (skipBlanks lines rest)
      readNamed fuel levels lines (spaces ++ [name]) next rest
    | _ => if spaces.isEmpty then some ((wordValue? name).getD (.variable name), cs) else none

/-- Arguments of a call up to its closing parenthesis, which is read. After the last one may stand a comma,
or an ellipsis that spreads it. -/
def readArgs : Nat → Nat → List Char → Option (List Expr × Bool × List Char)
  | 0, _, _ => none
  | fuel + 1, levels, cs =>
    match cs with
    | ')' :: rest => some ([], false, rest)
    | _ => do
      let (e, rest) ← readExpr fuel levels true cs
      match skipAll rest with
      | ')' :: rest => some ([e], false, rest)
      | ',' :: rest => do
        let (es, spread, rest) ← readArgs fuel levels (skipAll rest)
        some (e :: es, spread, rest)
      | rest => do
        let rest ← after? "..." rest
        let rest ← after? ")" (skipAll rest)
        some ([e], true, rest)

/-- Items of a list up to its closing bracket, which is read. -/
def readItems : Nat → Nat → List Char → Option (List Expr × List Char)
  | 0, _, _ => none
  | fuel + 1, levels, cs =>
    match skipAll cs with
    | ']' :: rest => some ([], rest)
    | rest => do
      let (e, rest) ← readExpr fuel levels true rest
      match skipAll rest with
      | ',' :: rest => do
        let (es, rest) ← readItems fuel levels rest
        some (e :: es, rest)
      | rest => do
        let rest ← after? "]" rest
        some ([e], rest)

/-- Entries of an object up to its closing brace, which is read. An entry stands on one line and ends with a
comma or with its line. No two keys are alike. -/
def readEntries : Nat → Nat → List Key → List Char → Option (List (Key × Expr) × List Char)
  | 0, _, _, _ => none
  | fuel + 1, levels, seen, cs =>
    match cs with
    | '\x7d' :: rest => some ([], rest)
    | _ => do
      let (keyExpr, rest) ← readExpr fuel levels false cs
      let key := match keyExpr with
        | .variable name => Key.name name
        | e => Key.expr e
      if seen.any key.alike then none
      else do
        let rest ← match skipBlanks false rest with
          | '=' :: rest => some rest
          | ':' :: rest => some rest
          | _ => none
        let (value, rest) ← readExpr fuel levels false (skipBlanks false rest)
        match skipBlanks false rest with
        | '\x7d' :: rest => some ([(key, value)], rest)
        | ',' :: rest => do
          let (more, rest) ← readEntries fuel levels (key :: seen) (skipAll rest)
          some ((key, value) :: more, rest)
        | rest => do
          let rest ← afterLineEnd? rest
          let (more, rest) ← readEntries fuel levels (key :: seen) (skipAll rest)
          some ((key, value) :: more, rest)

/-- A `for` expression whose first word is read, up to but without its closing bracket. -/
def readFor : Nat → Nat → Bool → List Char → Option (Expr × List Char)
  | 0, _, _, _ => none
  | fuel + 1, levels, keyed, cs => do
    let (key, value, rest) ← readBinders cs
    let rest ← after? "in" (skipAll rest)
    let (collection, rest) ← readExpr fuel levels false (skipAll rest)
    let rest ← after? ":" (skipAll rest)
    let (first, rest) ← readExpr fuel levels false (skipAll rest)
    if keyed then do
      let rest ← after? "=>" (skipAll rest)
      let (result, rest) ← readExpr fuel levels false (skipAll rest)
      let (grouping, rest) := match after? "..." (skipAll rest) with
        | some rest => (true, rest)
        | none => (false, rest)
      let (condition, rest) ← readCondition fuel levels rest
      some (.forEach key value collection (some first) result condition grouping, rest)
    else do
      let (condition, rest) ← readCondition fuel levels rest
      some (.forEach key value collection none first condition false, rest)

/-- The condition of a `for`, if one follows. -/
def readCondition : Nat → Nat → List Char → Option (Option Expr × List Char)
  | 0, _, _ => none
  | fuel + 1, levels, cs =>
    match after? "if" (skipAll cs) with
    | some rest => (readExpr fuel levels false (skipAll rest)).map fun (e, rest) => (some e, rest)
    | none => some (none, cs)

/-- The parts of a template up to its end, which is not read. -/
def readParts : Nat → Nat → TemplateForm → List Char → Option (List Part × List Char)
  | 0, _, _, _ => none
  | fuel + 1, levels, form, cs =>
    if cs.isEmpty || form.endsAt cs || closesDirective cs then some ([], cs)
    else
      match cs with
      | '$' :: '\x7b' :: rest => do
        let inside ← inner? levels
        let (before, rest) := readStrip rest
        let (e, rest) ← readExpr fuel inside true (skipAll rest)
        let (closing, rest) ← readClose rest
        let (parts, rest) ← readParts fuel levels form rest
        some (.interpolation e ⟨before, closing⟩ :: parts, rest)
      | '%' :: '\x7b' :: rest => do
        let inside ← inner? levels
        let (part, rest) ← readDirective fuel inside rest
        let (parts, rest) ← readParts fuel levels form rest
        some (part :: parts, rest)
      | _ => do
        let (text, rest) ← readLiteral form (cs.length + 1) cs
        let (parts, rest) ← readParts fuel levels form rest
        some (.literal (.ofList text) :: parts, rest)

/-- A directive whose opening mark is read, with all it encloses. -/
def readDirective : Nat → Nat → List Char → Option (Part × List Char)
  | 0, _, _ => none
  | fuel + 1, levels, cs => do
    let (before, rest) := readStrip cs
    let rest := skipAll rest
    match after? "if" rest with
    | some rest => do
      let (condition, rest) ← readExpr fuel levels true (skipAll rest)
      let (closing, rest) ← readClose rest
      let (yes, rest) ← readParts fuel levels .bare rest
      match readWordDirective "else" rest with
      | some (middle, rest) => do
        let (no, rest) ← readParts fuel levels .bare rest
        let (last, rest) ← readWordDirective "endif" rest
        some (.branch condition yes (some no) ⟨before, closing⟩ middle last, rest)
      | none => do
        let (last, rest) ← readWordDirective "endif" rest
        some (.branch condition yes none ⟨before, closing⟩ default last, rest)
    | none => do
      let rest ← after? "for" rest
      let (key, value, rest) ← readBinders rest
      let rest ← after? "in" (skipAll rest)
      let (collection, rest) ← readExpr fuel levels true (skipAll rest)
      let (closing, rest) ← readClose rest
      let (body, rest) ← readParts fuel levels .bare rest
      let (last, rest) ← readWordDirective "endfor" rest
      some (.loop key value collection body ⟨before, closing⟩ last, rest)

end

/-- A bound on the recursion of the readers on a text. -/
def recursionBound (cs : List Char) : Nat :=
  16 * cs.length + 64

/-- The parts of a whole text. -/
def readParts? (text : String) : Option (List Part) :=
  let cs := text.toList
  match readParts (recursionBound cs) nestingLimit .bare cs with
  | some (parts, []) => some parts
  | _ => none

end Syntax

end InfraConfig
