import Mathlib.Data.List.Forall2
import InfraConfig.Proofs.FreePaths

/-!
# Evaluations side by side

Two environments in which the free paths of an expression lead to related results give it related results.
The relation may be any that sequencing respects: equality, or one that lets the second environment know
more.
-/

namespace InfraConfig

/-- A relation between results that holds of equal ones and is kept by sequencing. -/
structure Congruent (R : ∀ {α : Type}, Except EvalError α → Except EvalError α → Prop) : Prop where
  refl : ∀ {α : Type} (x : Except EvalError α), R x x
  bind : ∀ {α β : Type} {x y : Except EvalError α} {f g : α → Except EvalError β},
    R x y → (∀ a, R (f a) (g a)) → R (x >>= f) (y >>= g)

/-- A relation between results that holds of equal ones and is kept by sequencing. Where it relates different
results the first one is a failure, and then every failure is related to everything. -/
structure Compatible (R : ∀ {α : Type}, Except EvalError α → Except EvalError α → Prop) : Prop where
  refl : ∀ {α : Type} (x : Except EvalError α), R x x
  bind : ∀ {α β : Type} {x y : Except EvalError α} {f g : α → Except EvalError β},
    R x y → (∀ a, R (f a) (g a)) → R (x >>= f) (y >>= g)
  eq_or_fails : ∀ {α : Type} {x y : Except EvalError α}, R x y →
    x = y ∨ (∃ reason, x = .error reason) ∧
      ∀ {β : Type} (reason : EvalError) (z : Except EvalError β), R (.error reason) z

theorem Compatible.eq : Compatible fun {_} x y => x = y where
  refl _ := rfl
  bind h k := by rw [h, funext k]
  eq_or_fails h := .inl h

/-- Such a relation is a congruence. -/
theorem Compatible.congruent {R : ∀ {α : Type}, Except EvalError α → Except EvalError α → Prop} (hR : Compatible R) :
    Congruent R := ⟨hR.refl, hR.bind⟩

namespace Congruent

variable {R : ∀ {α : Type}, Except EvalError α → Except EvalError α → Prop} {α β : Type}

theorem andThen (hR : Congruent R) {x y : Except EvalError α} (h : R x y)
    (f : α → Except EvalError β) : R (x >>= f) (y >>= f) :=
  hR.bind h fun a => hR.refl (f a)

theorem after (hR : Congruent R) (x : Except EvalError α) {f g : α → Except EvalError β}
    (h : ∀ a, R (f a) (g a)) : R (x >>= f) (x >>= g) :=
  hR.bind (hR.refl x) h

theorem map (hR : Congruent R) {x y : Except EvalError α} (f : α → β) (h : R x y) :
    R (x.map f) (y.map f) := by
  have map_eq (z : Except EvalError α) : z.map f = z >>= fun a => .ok (f a) := by cases z <;> rfl
  rw [map_eq, map_eq]
  exact hR.andThen h _

theorem mapM (hR : Congruent R) {f g : α → Except EvalError β} {l : List α}
    (h : ∀ a ∈ l, R (f a) (g a)) : R (l.mapM f) (l.mapM g) := by
  induction l with
  | nil => exact hR.refl _
  | cons a l ih =>
    rw [List.mapM_cons, List.mapM_cons]
    apply hR.bind (h a List.mem_cons_self)
    intro b
    exact hR.andThen (ih fun c hc => h c (List.mem_cons_of_mem a hc)) _

theorem foldlM (hR : Congruent R) {f g : β → α → Except EvalError β} {l : List α}
    (h : ∀ b, ∀ a ∈ l, R (f b a) (g b a)) (b : β) : R (l.foldlM f b) (l.foldlM g b) := by
  induction l generalizing b with
  | nil => exact hR.refl _
  | cons a l ih =>
    rw [List.foldlM_cons, List.foldlM_cons]
    apply hR.bind (h b a List.mem_cons_self)
    intro c
    exact ih (fun d x hx => h d x (List.mem_cons_of_mem a hx)) c

end Congruent

/-! ## What a path leads to -/

/-- The value that names lead to. -/
def memberAt : List String → Datum → Except EvalError Datum
  | [], d => .ok d
  | name :: rest, d => attributeOf name d >>= memberAt rest

def Environment.variable (env : Environment) (name : String) : Except EvalError Datum :=
  (env.bindings.lookup name).elim (.error (.unknownVariable name)) .ok

/-- What a path leads to: the variable, and the members that are accessed directly on it. -/
def ScopePath.follow (env : Environment) (p : ScopePath) : Except EvalError Datum :=
  env.variable p.root >>= memberAt (leadingNames p.steps)

theorem Expr.eval_variable (env : Environment) (name : String) :
    (Expr.variable name).eval env = env.variable name := by
  rw [Expr.eval, Environment.variable]
  cases env.bindings.lookup name <;> rfl

theorem Expr.eval_rooted (env : Environment) (name : String) (steps : List Step) :
    (Expr.traversal (.variable name) steps).eval env
      = env.variable name >>= fun d => evalSteps env (.one d) steps := by
  rw [← Expr.eval_variable]
  rfl

theorem lookup_bindElement_of_bound (env other : Environment) {key : Option String} {value : String}
    (element : Datum × Datum) {p : ScopePath} (h : p.isBoundBy key value = true) :
    (env.bindElement key value element).bindings.lookup p.root
      = (other.bindElement key value element).bindings.lookup p.root := by
  simp only [ScopePath.isBoundBy, Bool.or_eq_true, beq_iff_eq] at h
  cases key with
  | none =>
    have hv : p.root = value := by simpa using h
    simp [Environment.bindElement, Environment.bind, hv]
  | some key =>
    by_cases hv : p.root = value
    · simp [Environment.bindElement, Environment.bind, hv]
    · have hk : p.root = key := by simpa [hv] using h
      simp [Environment.bindElement, Environment.bind, List.lookup_cons, hk]

theorem lookup_bindElement_of_free (env : Environment) {key : Option String} {value : String}
    (element : Datum × Datum) {p : ScopePath} (h : ¬ p.isBoundBy key value = true) :
    (env.bindElement key value element).bindings.lookup p.root = env.bindings.lookup p.root := by
  simp only [ScopePath.isBoundBy, Bool.or_eq_true, beq_iff_eq, not_or] at h
  have hvalue : (p.root == value) = false := beq_false_of_ne h.1
  cases key with
  | none => simp [Environment.bindElement, Environment.bind, List.lookup_cons, hvalue]
  | some key =>
    have hkey : (p.root == key) = false := beq_false_of_ne fun e => h.2 (congrArg some e)
    simp [Environment.bindElement, Environment.bind, List.lookup_cons, hvalue, hkey]

/-- Environments with the same functions, in which some paths lead to related results. -/
structure Related (R : ∀ {α : Type}, Except EvalError α → Except EvalError α → Prop)
    (env other : Environment) (ps : List ScopePath) : Prop where
  functions : env.functions = other.functions
  follow : ∀ p ∈ ps, R (p.follow env) (p.follow other)

section

variable {R : ∀ {α : Type}, Except EvalError α → Except EvalError α → Prop}
  {env other : Environment}

namespace Related

variable {ps qs : List ScopePath}

theorem left (h : Related R env other (ps ++ qs)) : Related R env other ps :=
  ⟨h.functions, fun p hp => h.follow p (List.mem_append_left qs hp)⟩

theorem right (h : Related R env other (ps ++ qs)) : Related R env other qs :=
  ⟨h.functions, fun p hp => h.follow p (List.mem_append_right ps hp)⟩

theorem tail {p : ScopePath} (h : Related R env other (p :: ps)) : Related R env other ps :=
  ⟨h.functions, fun q hq => h.follow q (List.mem_cons_of_mem p hq)⟩

theorem bindElement (hR : Congruent R) {key : Option String} {value : String}
    (h : Related R env other (ps.filter fun p => !p.isBoundBy key value)) (element : Datum × Datum) :
    Related R (env.bindElement key value element) (other.bindElement key value element) ps where
  functions := by cases key <;> exact h.functions
  follow p hp := by
    rw [ScopePath.follow, ScopePath.follow, Environment.variable, Environment.variable]
    by_cases hb : p.isBoundBy key value = true
    · rw [lookup_bindElement_of_bound env other element hb]
      exact hR.refl _
    · rw [lookup_bindElement_of_free env element hb, lookup_bindElement_of_free other element hb]
      exact h.follow p (by simpa [hp] using hb)

end Related

/-! ## One construct

The parts on both sides may be different expressions, as long as they are related. -/

theorem evalItems_related (hR : Congruent R) {items others : List Expr}
    (h : List.Forall₂ (fun e f => R (e.eval env) (f.eval other)) items others) :
    R (evalItems env items) (evalItems other others) := by
  induction h with
  | nil => exact hR.refl _
  | cons he _ ih =>
    rw [evalItems, evalItems]
    apply hR.bind he
    intro d
    exact hR.andThen ih _

theorem evalArgs_related (hR : Congruent R) {args others : List Expr} (spread : Bool)
    (h : List.Forall₂ (fun e f => R (e.eval env) (f.eval other)) args others) :
    R (evalArgs env spread args) (evalArgs other spread others) := by
  induction h with
  | nil => exact hR.refl _
  | @cons e f rest rest' he hrest ih =>
    have hlast : rest.isEmpty = rest'.isEmpty := by cases hrest <;> rfl
    rw [evalArgs, evalArgs, hlast]
    apply hR.bind he
    intro d
    split
    · exact hR.refl _
    · exact hR.andThen ih _

theorem evalEntries_related (hR : Congruent R) {entries others : List (Key × Expr)}
    (h : List.Forall₂ (fun x y => R (x.1.eval env) (y.1.eval other) ∧ R (x.2.eval env) (y.2.eval other))
      entries others) (acc : Entries Datum) :
    R (evalEntries env acc entries) (evalEntries other acc others) := by
  induction h generalizing acc with
  | nil => exact hR.refl _
  | cons hx _ ih =>
    rw [evalEntries, evalEntries]
    apply hR.bind hx.1
    intro name
    apply hR.bind hx.2
    intro d
    exact ih _

theorem evalCall_related (hR : Congruent R) (hfunctions : env.functions = other.functions)
    {args others : List Expr} (function : FunctionName) (spread : Bool)
    (h : List.Forall₂ (fun e f => R (e.eval env) (f.eval other)) args others) :
    R ((Expr.call function args spread).eval env) ((Expr.call function others spread).eval other) := by
  rw [Expr.eval, Expr.eval, hfunctions]
  split
  · exact hR.refl _
  · exact hR.andThen (evalArgs_related hR spread h) _

theorem evalConditional_related (hR : Congruent R) {c d yes yes' no no' : Expr}
    (hc : R (c.eval env) (d.eval other)) (hyes : R (yes.eval env) (yes'.eval other))
    (hno : R (no.eval env) (no'.eval other)) :
    R ((Expr.conditional c yes no).eval env) ((Expr.conditional d yes' no').eval other) := by
  rw [Expr.eval, Expr.eval]
  apply hR.bind hc
  intro d
  apply hR.after
  intro b
  split
  · exact hyes
  · exact hno

theorem evalBinary_related (hR : Congruent R) (op : BinaryOp) {a b c d : Expr}
    (hleft : R (a.eval env) (c.eval other)) (hright : R (b.eval env) (d.eval other)) :
    R ((Expr.binary op a b).eval env) ((Expr.binary op c d).eval other) := by
  rw [Expr.eval, Expr.eval]
  apply hR.bind hleft
  intro left
  exact hR.andThen hright _

theorem evalCondition_related (hR : Congruent R) {condition : Option Expr}
    (h : ∀ e, condition = some e → R (e.eval env) (e.eval other)) :
    R (evalCondition env condition) (evalCondition other condition) := by
  cases condition with
  | none => exact hR.refl _
  | some e =>
    rw [evalCondition, evalCondition]
    exact hR.andThen (h e rfl) _

/-- Only the collection may be different: the variables of a `for` are bound in the rest. -/
theorem evalForEach_related (hR : Congruent R) {key : Option String} {value : String}
    {collection collection' result : Expr} {resultKey cond : Option Expr} (grouping : Bool)
    (hcollection : R (collection.eval env) (collection'.eval other))
    (hkey : ∀ element k, resultKey = some k →
      R (k.eval (env.bindElement key value element)) (k.eval (other.bindElement key value element)))
    (hresult : ∀ element, R (result.eval (env.bindElement key value element))
      (result.eval (other.bindElement key value element)))
    (hcond : ∀ element e, cond = some e →
      R (e.eval (env.bindElement key value element)) (e.eval (other.bindElement key value element))) :
    R ((Expr.forEach key value collection resultKey result cond grouping).eval env)
      ((Expr.forEach key value collection' resultKey result cond grouping).eval other) := by
  have hcond (element) := evalCondition_related hR (hcond element)
  rw [Expr.eval, Expr.eval]
  apply hR.bind hcollection
  intro d
  apply hR.after
  intro elements
  cases resultKey with
  | none =>
    refine hR.andThen (hR.mapM fun element _ => ?_) _
    apply hR.bind (hcond element)
    intro b
    split
    · exact hR.map _ (hresult element)
    · exact hR.refl _
  | some k =>
    refine hR.andThen (hR.foldlM (fun acc element _ => ?_) _) _
    apply hR.bind (hcond element)
    intro b
    split
    · apply hR.bind (hkey element k rfl)
      intro d
      apply hR.after
      intro name
      exact hR.andThen (hresult element) _
    · exact hR.refl _

/-! ### Steps -/

/-- Steps that are the same apart from related indices. -/
inductive StepRelated (R : ∀ {α : Type}, Except EvalError α → Except EvalError α → Prop)
    (env other : Environment) : Step → Step → Prop where
  | attribute (name : String) : StepRelated R env other (.attribute name) (.attribute name)
  | position (n : Nat) : StepRelated R env other (.position n) (.position n)
  | index {i j : Expr} (h : R (i.eval env) (j.eval other)) : StepRelated R env other (.index i) (.index j)
  | attributeSplat : StepRelated R env other .attributeSplat .attributeSplat
  | fullSplat : StepRelated R env other .fullSplat .fullSplat

theorem evalSteps_related (hR : Congruent R) {steps others : List Step}
    (h : List.Forall₂ (StepRelated R env other) steps others) (focus : Focus) :
    R (evalSteps env focus steps) (evalSteps other focus others) := by
  induction h generalizing focus with
  | nil => exact hR.refl _
  | cons hstep _ ih =>
    cases hstep with
    | «attribute» name =>
      cases focus with
      | one d =>
        rw [evalSteps, evalSteps]
        exact hR.after _ fun _ => ih _
      | each results =>
        rw [evalSteps, evalSteps]
        exact ih _
    | position n =>
      rw [evalSteps, evalSteps]
      apply hR.after
      intro d
      exact hR.after _ fun _ => ih _
    | index hindex =>
      rw [evalSteps, evalSteps]
      apply hR.after
      intro d
      apply hR.bind hindex
      intro i
      exact hR.after _ fun _ => ih _
    | attributeSplat =>
      rw [evalSteps, evalSteps]
      exact hR.after _ fun _ => ih _
    | fullSplat =>
      rw [evalSteps, evalSteps]
      apply hR.after
      intro d
      exact hR.andThen (hR.mapM fun _ _ => ih _) _

theorem evalTraversal_related (hR : Congruent R) {root root' : Expr} {steps others : List Step}
    (hroot : R (root.eval env) (root'.eval other))
    (hsteps : List.Forall₂ (StepRelated R env other) steps others) :
    R ((Expr.traversal root steps).eval env) ((Expr.traversal root' others).eval other) := by
  rw [Expr.eval, Expr.eval]
  exact hR.bind hroot fun _ => evalSteps_related hR hsteps _

/-- Steps from a value read no more of it than what the names at their start lead to. -/
theorem evalSteps_related_of_members (hR : Congruent R) {steps others : List Step}
    (h : List.Forall₂ (StepRelated R env other) steps others) {x y : Except EvalError Datum}
    (hxy : R (x >>= memberAt (leadingNames steps)) (y >>= memberAt (leadingNames steps))) :
    R (x >>= fun d => evalSteps env (.one d) steps)
      (y >>= fun d => evalSteps other (.one d) others) := by
  induction h generalizing x y with
  | nil => exact hxy
  | @cons step step' rest rest' hstep hrest ih =>
    -- Only an attribute access takes a name; any other step sees the whole value.
    have whole (hnames : leadingNames (step :: rest) = []) :
        R (x >>= fun d => evalSteps env (.one d) (step :: rest))
          (y >>= fun d => evalSteps other (.one d) (step' :: rest')) := by
      have same (z : Except EvalError Datum) : z >>= memberAt [] = z := by cases z <;> rfl
      rw [hnames, same, same] at hxy
      exact hR.bind hxy fun d => evalSteps_related hR (.cons hstep hrest) _
    cases hstep with
    | «attribute» name =>
      have ih := @ih (x >>= attributeOf name) (y >>= attributeOf name)
      simp only [evalSteps, leadingNames, memberAt, bind_assoc] at ih hxy ⊢
      exact ih hxy
    | position n => exact whole rfl
    | index hindex => exact whole rfl
    | attributeSplat => exact whole rfl
    | fullSplat => exact whole rfl

theorem evalRooted_related (hR : Congruent R) {name : String} {steps others : List Step}
    (hfollow : R ((⟨name, steps⟩ : ScopePath).follow env) ((⟨name, steps⟩ : ScopePath).follow other))
    (h : List.Forall₂ (StepRelated R env other) steps others) :
    R ((Expr.traversal (.variable name) steps).eval env)
      ((Expr.traversal (.variable name) others).eval other) := by
  rw [Expr.eval_rooted, Expr.eval_rooted]
  exact evalSteps_related_of_members hR h hfollow

/-! ## Expressions -/

mutual

theorem Expr.eval_related {env other : Environment} (hR : Congruent R) :
    ∀ e : Expr, Related R env other e.freePaths → R (e.eval env) (e.eval other)
  | .null, _ => hR.refl _
  | .bool _, _ => hR.refl _
  | .number _, _ => hR.refl _
  | .text _, _ => hR.refl _
  | .list items, h => by
    rw [Expr.eval, Expr.eval]
    exact hR.andThen (evalItems_related hR (items_related hR items h)) _
  | .object entries, h => by
    rw [Expr.eval, Expr.eval]
    exact hR.andThen (evalEntries_related hR (entries_related hR entries h) []) _
  | .template _ none, _ => hR.refl _
  | .template _ (some parts), h =>
    match parts, h with
    | [.interpolation e _], h => by
      rw [Expr.eval, Expr.eval]
      exact e.eval_related hR h.left
    | [], _ => hR.refl _
    | .literal s :: rest, h => hR.andThen (evalParts_related hR (.literal s :: rest) h false false) _
    | .branch c yes no a b d :: rest, h =>
      hR.andThen (evalParts_related hR (.branch c yes no a b d :: rest) h false false) _
    | .loop key value c body a b :: rest, h =>
      hR.andThen (evalParts_related hR (.loop key value c body a b :: rest) h false false) _
    | .interpolation e strip :: next :: rest, h =>
      hR.andThen (evalParts_related hR (.interpolation e strip :: next :: rest) h false false) _
  | .variable name, h => by
    have hvariable := h.follow _ List.mem_cons_self
    have whole (env : Environment) :
        (⟨name, []⟩ : ScopePath).follow env = (Expr.variable name).eval env := by
      rw [Expr.eval_variable, ScopePath.follow]
      cases env.variable name <;> rfl
    rwa [whole, whole] at hvariable
  | .traversal root steps, h => by
    by_cases hroot : ∃ name, root = .variable name
    · obtain ⟨name, rfl⟩ := hroot
      exact evalRooted_related hR (h.follow _ List.mem_cons_self) (steps_related hR steps h.tail)
    · rw [Expr.freePaths_traversal steps fun name e => hroot ⟨name, e⟩] at h
      exact evalTraversal_related hR (root.eval_related hR h.left) (steps_related hR steps h.right)
  | .call function args spread, h =>
    evalCall_related hR h.functions function spread (items_related hR args h)
  | .paren e, h => by
    rw [Expr.eval, Expr.eval]
    exact e.eval_related hR h
  | .conditional c yes no, h =>
    evalConditional_related hR (c.eval_related hR h.left.left) (yes.eval_related hR h.left.right)
      (no.eval_related hR h.right)
  | .unary op e, h => by
    rw [Expr.eval, Expr.eval]
    exact hR.andThen (e.eval_related hR h) _
  | .binary op a b, h =>
    evalBinary_related hR op (a.eval_related hR h.left) (b.eval_related hR h.right)
  | .forEach key value collection resultKey result cond grouping, h => by
    have inner (element : Datum × Datum) := h.right.bindElement hR element
    apply evalForEach_related hR grouping (collection.eval_related hR h.left)
    · exact fun element => option_related hR resultKey (inner element).left.left
    · exact fun element => result.eval_related hR (inner element).left.right
    · exact fun element => option_related hR cond (inner element).right

theorem items_related {env other : Environment} (hR : Congruent R) :
    ∀ items : List Expr, Related R env other (itemFreePaths items) →
      List.Forall₂ (fun e f => R (e.eval env) (f.eval other)) items items
  | [], _ => .nil
  | e :: rest, h => .cons (e.eval_related hR h.left) (items_related hR rest h.right)

theorem entries_related {env other : Environment} (hR : Congruent R) :
    ∀ entries : List (Key × Expr), Related R env other (entryFreePaths entries) →
      List.Forall₂ (fun x y => R (x.1.eval env) (y.1.eval other) ∧ R (x.2.eval env) (y.2.eval other))
        entries entries
  | [], _ => .nil
  | (k, e) :: rest, h =>
    .cons ⟨k.eval_related hR h.left.left, e.eval_related hR h.left.right⟩
      (entries_related hR rest h.right)

theorem Key.eval_related {env other : Environment} (hR : Congruent R) :
    ∀ k : Key, Related R env other k.freePaths → R (k.eval env) (k.eval other)
  | .name _, _ => hR.refl _
  | .expr e, h => by
    rw [Key.eval, Key.eval]
    exact hR.andThen (e.eval_related hR h) _

theorem option_related {env other : Environment} (hR : Congruent R) :
    ∀ o : Option Expr, Related R env other (optionFreePaths o) →
      ∀ e, o = some e → R (e.eval env) (e.eval other)
  | none, _ => by simp
  | some e, h => by
    rintro _ ⟨⟩
    exact e.eval_related hR h

theorem steps_related {env other : Environment} (hR : Congruent R) :
    ∀ steps : List Step, Related R env other (stepFreePaths steps) →
      List.Forall₂ (StepRelated R env other) steps steps
  | [], _ => .nil
  | .index e :: rest, h => .cons (.index (e.eval_related hR h.left)) (steps_related hR rest h.right)
  | .attribute name :: rest, h => .cons (.attribute name) (steps_related hR rest h)
  | .position n :: rest, h => .cons (.position n) (steps_related hR rest h)
  | .attributeSplat :: rest, h => .cons .attributeSplat (steps_related hR rest h)
  | .fullSplat :: rest, h => .cons .fullSplat (steps_related hR rest h)

theorem evalParts_related {env other : Environment} (hR : Congruent R) :
    ∀ parts : List Part, Related R env other (partFreePaths parts) →
      ∀ before last, R (evalParts env before last parts) (evalParts other before last parts)
  | [], _, _, _ => hR.refl _
  | .literal s :: rest, h, before, last => by
    rw [evalParts, evalParts]
    exact hR.andThen (evalParts_related hR rest h _ _) _
  | .interpolation e strip :: rest, h, before, last => by
    rw [evalParts, evalParts]
    apply hR.bind (e.eval_related hR h.left)
    intro d
    exact hR.andThen (evalParts_related hR rest h.right _ _) _
  | .branch c yes no opening middle closing :: rest, h, before, last => by
    have hrest (text : String) := hR.andThen (evalParts_related hR rest h.right closing.after last)
      fun more => pure (text ++ more)
    rw [evalParts, evalParts]
    apply hR.bind (c.eval_related hR h.left.left.left)
    intro d
    apply hR.after
    intro b
    split
    · exact hR.bind (evalParts_related hR yes h.left.left.right _ _) hrest
    · exact hR.bind (evalOther_related hR no h.left.right _ _) hrest
  | .loop key value collection body opening closing :: rest, h, before, last => by
    rw [evalParts, evalParts]
    apply hR.bind (collection.eval_related hR h.left.left)
    intro d
    apply hR.after
    intro elements
    apply hR.bind
    · apply hR.mapM
      intro element _
      exact evalParts_related hR body (h.left.right.bindElement hR element) _ _
    · intro texts
      exact hR.andThen (evalParts_related hR rest h.right _ _) _

theorem evalOther_related {env other : Environment} (hR : Congruent R) :
    ∀ parts : Option (List Part), Related R env other (otherFreePaths parts) →
      ∀ before last, R (evalOther env before last parts) (evalOther other before last parts)
  | none, _, _, _ => hR.refl _
  | some parts, h, _, _ => evalParts_related hR parts h _ _

end

end

end InfraConfig
