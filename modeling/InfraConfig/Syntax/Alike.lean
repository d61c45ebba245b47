import InfraConfig.Syntax.Expr

/-!
# Expressions that are written alike

Two expressions are alike when they have the same form and alike parts, whatever blanks and comments they
were written with. Of a template the parts count, not the text. Two keys of an object may not be alike.
-/

namespace InfraConfig

mutual

def Expr.alike : Expr → Expr → Bool
  | .null, .null => true
  | .bool a, .bool b => a == b
  | .number a, .number b => a == b
  | .text a, .text b => a == b
  | .list a, .list b => alikeItems a b
  | .object a, .object b => alikeEntries a b
  | .template _ (some a), .template _ (some b) => alikeParts a b
  | .template a none, .template b none => a == b
  | .variable a, .variable b => a == b
  | .traversal a steps, .traversal b steps' => a.alike b && alikeSteps steps steps'
  | .call f args spread, .call g args' spread' => f == g && alikeItems args args' && spread == spread'
  | .paren a, .paren b => a.alike b
  | .conditional c yes no, .conditional c' yes' no' => c.alike c' && yes.alike yes' && no.alike no'
  | .unary op a, .unary op' b => op == op' && a.alike b
  | .binary op a b, .binary op' a' b' => op == op' && a.alike a' && b.alike b'
  | .forEach key value collection resultKey result condition grouping,
    .forEach key' value' collection' resultKey' result' condition' grouping' =>
    key == key' && value == value' && collection.alike collection' && alikeOption resultKey resultKey'
      && result.alike result' && alikeOption condition condition' && grouping == grouping'
  | _, _ => false

def alikeItems : List Expr → List Expr → Bool
  | [], [] => true
  | a :: as, b :: bs => a.alike b && alikeItems as bs
  | _, _ => false

def alikeOption : Option Expr → Option Expr → Bool
  | none, none => true
  | some a, some b => a.alike b
  | _, _ => false

def alikeEntries : List (Key × Expr) → List (Key × Expr) → Bool
  | [], [] => true
  | (k, a) :: as, (l, b) :: bs => k.alike l && a.alike b && alikeEntries as bs
  | _, _ => false

def Key.alike : Key → Key → Bool
  | .name a, .name b => a == b
  | .expr a, .expr b => a.alike b
  | _, _ => false

def alikeSteps : List Step → List Step → Bool
  | [], [] => true
  | .attribute a :: as, .attribute b :: bs => a == b && alikeSteps as bs
  | .index a :: as, .index b :: bs => a.alike b && alikeSteps as bs
  | .position m :: as, .position n :: bs => m == n && alikeSteps as bs
  | .attributeSplat :: as, .attributeSplat :: bs => alikeSteps as bs
  | .fullSplat :: as, .fullSplat :: bs => alikeSteps as bs
  | _, _ => false

def alikeParts : List Part → List Part → Bool
  | [], [] => true
  | .literal a :: as, .literal b :: bs => a == b && alikeParts as bs
  | .interpolation a strip :: as, .interpolation b strip' :: bs =>
    a.alike b && strip == strip' && alikeParts as bs
  | .branch c yes no opening middle closing :: as, .branch c' yes' no' opening' middle' closing' :: bs =>
    c.alike c' && alikeParts yes yes' && alikeOther no no' && opening == opening' && middle == middle'
      && closing == closing' && alikeParts as bs
  | .loop key value collection body opening closing :: as,
    .loop key' value' collection' body' opening' closing' :: bs =>
    key == key' && value == value' && collection.alike collection' && alikeParts body body'
      && opening == opening' && closing == closing' && alikeParts as bs
  | _, _ => false

def alikeOther : Option (List Part) → Option (List Part) → Bool
  | none, none => true
  | some a, some b => alikeParts a b
  | _, _ => false

end

end InfraConfig
