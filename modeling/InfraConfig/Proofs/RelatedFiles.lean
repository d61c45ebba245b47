import InfraConfig.Files.Calls
import InfraConfig.Proofs.RelatedEvaluations

/-!
# Evaluations that read files

The results that stand for calls of file functions are found by evaluation, so related environments give
related values here too. A template that has such a call in it is the exception: it is rendered in its own
way when all its parts have values, and otherwise in the usual one.
-/

namespace InfraConfig

mutual

/-- Whether an expression has a template with a call of a file function in its text. -/
def Expr.hasFileText : Expr → Bool
  | .template source _ => FileFunction.inTemplate source
  | .call _ args _ => itemsHaveFileText args
  | .list items => itemsHaveFileText items
  | .object entries => entriesHaveFileText entries
  | .paren e => e.hasFileText
  | .conditional c yes no => c.hasFileText || yes.hasFileText || no.hasFileText
  | .unary _ e => e.hasFileText
  | .binary _ a b => a.hasFileText || b.hasFileText
  | .traversal root steps => root.hasFileText || stepsHaveFileText steps
  | .forEach _ _ collection _ _ _ _ => collection.hasFileText
  | .null => false
  | .bool _ => false
  | .number _ => false
  | .text _ => false
  | .variable _ => false

def itemsHaveFileText : List Expr → Bool
  | [] => false
  | e :: rest => e.hasFileText || itemsHaveFileText rest

def entriesHaveFileText : List (Key × Expr) → Bool
  | [] => false
  | (_, e) :: rest => e.hasFileText || entriesHaveFileText rest

def stepsHaveFileText : List Step → Bool
  | [] => false
  | .index e :: rest => e.hasFileText || stepsHaveFileText rest
  | .attribute _ :: rest => stepsHaveFileText rest
  | .position _ :: rest => stepsHaveFileText rest
  | .attributeSplat :: rest => stepsHaveFileText rest
  | .fullSplat :: rest => stepsHaveFileText rest

end

/-! ## Results of calls -/

/-- The result of a call is a literal. -/
theorem FileFunction.eval_of_run {t : FileTable} {f : FileFunction} {args : List Datum} {e : Expr}
    (h : (f.run t args).1 = some e) (env other : Environment) : e.eval env = e.eval other := by
  rw [run] at h
  split at h
  · split at h
    · cases h
    · rw [result?.eq_def] at h
      split at h
      · split at h <;> cases h
        rfl
      · split at h <;> cases h
        · rfl
        · rfl
      · split at h <;> cases h
        rfl
      · split at h
        · obtain ⟨s, -, rfl⟩ := Option.map_eq_some_iff.mp h
          rfl
        · cases h
  · cases h

theorem error_bind {α β : Type} (reason : EvalError) (f : α → Except EvalError β) :
    (.error reason : Except EvalError α) >>= f = .error reason := rfl

/-- Arguments that do not all have a value are none for a call. -/
theorem evalArgs_error {env : Environment} {args : List Expr} {reason : EvalError} (spread : Bool)
    (h : evalItems env args = .error reason) : ∃ other, evalArgs env spread args = .error other := by
  induction args generalizing reason with
  | nil => cases h
  | cons e rest ih =>
    rw [evalItems] at h
    rw [evalArgs]
    cases he : e.eval env with
    | error other => exact ⟨other, rfl⟩
    | ok d =>
      cases hrest : evalItems env rest with
      | ok ds => simp [he, hrest, bind, Except.bind, pure, Except.pure] at h
      | error other =>
        have hsome : rest.isEmpty = false := by
          cases rest with
          | nil => cases hrest
          | cons _ _ => rfl
        obtain ⟨last, hlast⟩ := ih hrest
        exact ⟨last, by simp [hsome, hlast, bind, Except.bind]⟩

theorem evalCall_error {env : Environment} {args : List Expr} {reason : EvalError}
    (function : FunctionName) (spread : Bool) (h : evalItems env args = .error reason) :
    ∃ other, (Expr.call function args spread).eval env = .error other := by
  obtain ⟨other, hargs⟩ := evalArgs_error spread h
  rw [Expr.eval]
  split
  · exact ⟨_, rfl⟩
  · exact ⟨other, by rw [hargs, error_bind]⟩

theorem leadingNames_inlineSteps (env : Environment) (t : FileTable) (steps : List Step) :
    leadingNames (inlineSteps env t steps).1 = leadingNames steps := by
  match steps with
  | [] => rfl
  | .attribute name :: rest =>
    simp only [inlineSteps, leadingNames, leadingNames_inlineSteps env t rest]
  | .index e :: rest => rfl
  | .position n :: rest => rfl
  | .attributeSplat :: rest => rfl
  | .fullSplat :: rest => rfl

/-- The expression that a call with inlined arguments becomes. -/
def fileCall (env : Environment) (t : FileTable) (name : FunctionName) (function : FileFunction)
    (spread : Bool) (args : List Expr) : Expr :=
  match (evalItems env args).toOption with
  | none => .call name args spread
  | some values => (function.run t values).1.getD (.call name args spread)

theorem Expr.inlineFiles_fileCall (env : Environment) (t : FileTable) (args : List Expr) (spread : Bool)
    {name : FunctionName} {function : FileFunction} (h : FileFunction.ofName? name = some function) :
    ((Expr.call name args spread).inlineFiles env t).1
      = fileCall env t name function spread (inlineAll env t args).1 := by
  simp only [Expr.inlineFiles, h, fileCall]
  cases (evalItems env (inlineAll env t args).1).toOption <;> rfl

variable {R : ∀ {α : Type}, Except EvalError α → Except EvalError α → Prop}
  {env other : Environment}

/-- A call of a file function is related to itself, whether its result is known or not. -/
theorem fileCall_related (hR : Compatible R) (hfunctions : env.functions = other.functions)
    (t : FileTable) (name : FunctionName) (function : FileFunction) (spread : Bool)
    {args others : List Expr}
    (h : List.Forall₂ (fun e f => R (e.eval env) (f.eval other)) args others) :
    R ((fileCall env t name function spread args).eval env)
      ((fileCall other t name function spread others).eval other) := by
  have hcall := evalCall_related hR.congruent hfunctions name spread h
  rw [fileCall, fileCall]
  rcases hR.eq_or_fails (evalItems_related hR.congruent h) with hsame | ⟨⟨reason, hfailed⟩, hany⟩
  · rw [hsame]
    split
    · exact hcall
    · rename_i values _
      cases hrun : (function.run t values).1 with
      | none => exact hcall
      | some e =>
        rw [Option.getD_some, Option.getD_some, FileFunction.eval_of_run hrun env other]
        exact hR.refl _
  · obtain ⟨last, hlast⟩ := evalCall_error name spread hfailed
    simp only [hfailed, Except.toOption]
    rw [hlast]
    exact hany last _

/-! ## Expressions -/

theorem orFalse_left {P : Prop} {a b : Bool} (h : P ∨ (a || b) = false) : P ∨ a = false :=
  h.imp_right fun h => (Bool.or_eq_false_iff.mp h).1

theorem orFalse_right {P : Prop} {a b : Bool} (h : P ∨ (a || b) = false) : P ∨ b = false :=
  h.imp_right fun h => (Bool.or_eq_false_iff.mp h).2

/-- A relation between equal results only. -/
def Strict (R : ∀ {α : Type}, Except EvalError α → Except EvalError α → Prop) : Prop :=
  ∀ {α : Type} {x y : Except EvalError α}, R x y → x = y

mutual

theorem Expr.inlineFiles_related (hR : Compatible R) (t : FileTable) :
    ∀ e : Expr, Strict R ∨ e.hasFileText = false → Related R env other e.freePaths →
      R ((e.inlineFiles env t).1.eval env) ((e.inlineFiles other t).1.eval other)
  | .null, _, _ => hR.refl _
  | .bool _, _, _ => hR.refl _
  | .number _, _, _ => hR.refl _
  | .text _, _, _ => hR.refl _
  | .variable name, _, h => (Expr.variable name).eval_related hR.congruent h
  | .list items, ht, h => by
    change R ((Expr.list (inlineAll env t items).1).eval env)
      ((Expr.list (inlineAll other t items).1).eval other)
    rw [Expr.eval, Expr.eval]
    exact hR.congruent.andThen (evalItems_related hR.congruent (inlineAll_related hR t items ht h)) _
  | .object entries, ht, h => by
    change R ((Expr.object (inlineEntries env t entries).1).eval env)
      ((Expr.object (inlineEntries other t entries).1).eval other)
    rw [Expr.eval, Expr.eval]
    exact hR.congruent.andThen (evalEntries_related hR.congruent (inlineEntries_related hR t entries ht h) []) _
  | .template source parts, ht, h => by
    by_cases hsource : FileFunction.inTemplate source = true
    · have hstrict : Strict R := ht.resolve_right (by simp [Expr.hasFileText, hsource])
      have htext : (renderTemplate env t parts).1 = (renderTemplate other t parts).1 := by
        cases parts with
        | none => rfl
        | some parts => exact renderParts_strict hR hstrict t parts h
      simp only [Expr.inlineFiles, hsource, if_true, htext]
      split
      · exact hR.refl _
      · exact (Expr.template source parts).eval_related hR.congruent h
    · simp only [Expr.inlineFiles, hsource]
      exact (Expr.template source parts).eval_related hR.congruent h
  | .call name args spread, ht, h => by
    have hargs := inlineAll_related hR t args ht h
    cases hname : FileFunction.ofName? name with
    | none =>
      simp only [Expr.inlineFiles, hname]
      exact evalCall_related hR.congruent h.functions name spread hargs
    | some function =>
      rw [Expr.inlineFiles_fileCall env t args spread hname,
        Expr.inlineFiles_fileCall other t args spread hname]
      exact fileCall_related hR h.functions t name function spread hargs
  | .paren e, ht, h => by
    change R ((Expr.paren (e.inlineFiles env t).1).eval env)
      ((Expr.paren (e.inlineFiles other t).1).eval other)
    rw [Expr.eval, Expr.eval]
    exact e.inlineFiles_related hR t ht h
  | .conditional c yes no, ht, h =>
    evalConditional_related hR.congruent (c.inlineFiles_related hR t (orFalse_left (orFalse_left ht)) h.left.left)
      (yes.inlineFiles_related hR t (orFalse_right (orFalse_left ht)) h.left.right)
      (no.inlineFiles_related hR t (orFalse_right ht) h.right)
  | .unary op e, ht, h => by
    change R ((Expr.unary op (e.inlineFiles env t).1).eval env)
      ((Expr.unary op (e.inlineFiles other t).1).eval other)
    rw [Expr.eval, Expr.eval]
    exact hR.congruent.andThen (e.inlineFiles_related hR t ht h) _
  | .binary op a b, ht, h =>
    evalBinary_related hR.congruent op (a.inlineFiles_related hR t (orFalse_left ht) h.left)
      (b.inlineFiles_related hR t (orFalse_right ht) h.right)
  | .traversal root steps, ht, h => by
    by_cases hroot : ∃ name, root = .variable name
    · obtain ⟨name, rfl⟩ := hroot
      have hfollow := h.follow _ List.mem_cons_self
      rw [ScopePath.follow, ScopePath.follow, ← leadingNames_inlineSteps env t steps] at hfollow
      exact evalRooted_related hR.congruent hfollow (inlineSteps_related hR t steps (orFalse_right ht) h.tail)
    · rw [Expr.freePaths_traversal steps fun name e => hroot ⟨name, e⟩] at h
      exact evalTraversal_related hR.congruent (root.inlineFiles_related hR t (orFalse_left ht) h.left)
        (inlineSteps_related hR t steps (orFalse_right ht) h.right)
  | .forEach key value collection resultKey result cond grouping, ht, h => by
    have inner (element : Datum × Datum) := h.right.bindElement hR.congruent element
    apply evalForEach_related hR.congruent grouping (collection.inlineFiles_related hR t ht h.left)
    · exact fun element => option_related hR.congruent resultKey (inner element).left.left
    · exact fun element => result.eval_related hR.congruent (inner element).left.right
    · exact fun element => option_related hR.congruent cond (inner element).right

theorem inlineAll_related (hR : Compatible R) (t : FileTable) :
    ∀ items : List Expr, Strict R ∨ itemsHaveFileText items = false →
      Related R env other (itemFreePaths items) →
        List.Forall₂ (fun e f => R (e.eval env) (f.eval other))
          (inlineAll env t items).1 (inlineAll other t items).1
  | [], _, _ => .nil
  | e :: rest, ht, h =>
    .cons (e.inlineFiles_related hR t (orFalse_left ht) h.left)
      (inlineAll_related hR t rest (orFalse_right ht) h.right)

theorem inlineEntries_related (hR : Compatible R) (t : FileTable) :
    ∀ entries : List (Key × Expr), Strict R ∨ entriesHaveFileText entries = false →
      Related R env other (entryFreePaths entries) →
        List.Forall₂ (fun x y => R (x.1.eval env) (y.1.eval other) ∧ R (x.2.eval env) (y.2.eval other))
          (inlineEntries env t entries).1 (inlineEntries other t entries).1
  | [], _, _ => .nil
  | (k, e) :: rest, ht, h =>
    .cons ⟨k.eval_related hR.congruent h.left.left, e.inlineFiles_related hR t (orFalse_left ht) h.left.right⟩
      (inlineEntries_related hR t rest (orFalse_right ht) h.right)

theorem inlineSteps_related (hR : Compatible R) (t : FileTable) :
    ∀ steps : List Step, Strict R ∨ stepsHaveFileText steps = false →
      Related R env other (stepFreePaths steps) →
        List.Forall₂ (StepRelated R env other) (inlineSteps env t steps).1 (inlineSteps other t steps).1
  | [], _, _ => .nil
  | .index e :: rest, ht, h =>
    .cons (.index (e.inlineFiles_related hR t (orFalse_left ht) h.left))
      (inlineSteps_related hR t rest (orFalse_right ht) h.right)
  | .attribute name :: rest, ht, h => .cons (.attribute name) (inlineSteps_related hR t rest ht h)
  | .position n :: rest, ht, h => .cons (.position n) (inlineSteps_related hR t rest ht h)
  | .attributeSplat :: rest, ht, h => .cons .attributeSplat (inlineSteps_related hR t rest ht h)
  | .fullSplat :: rest, ht, h => .cons .fullSplat (inlineSteps_related hR t rest ht h)

theorem renderParts_strict (hR : Compatible R) (hstrict : Strict R) (t : FileTable) :
    ∀ parts : List Part, Related R env other (partFreePaths parts) →
      (renderParts env t parts).1 = (renderParts other t parts).1
  | [], _ => rfl
  | .literal s :: rest, h => by
    simp only [renderParts, renderParts_strict hR hstrict t rest h]
  | .interpolation e strip :: rest, h => by
    have he := hstrict (e.inlineFiles_related hR t (.inl hstrict) h.left)
    simp only [renderParts, he]
    split
    · simp only [renderParts_strict hR hstrict t rest h.right]
    · rfl
  | .branch .. :: _, _ => rfl
  | .loop .. :: _, _ => rfl

end

theorem Expr.evalWithFiles_related (hR : Compatible R) (t : FileTable) (e : Expr)
    (ht : Strict R ∨ e.hasFileText = false) (h : Related R env other e.freePaths) :
    R (e.evalWithFiles env t) (e.evalWithFiles other t) := by
  rw [evalWithFiles, evalWithFiles]
  split
  · exact e.inlineFiles_related hR t ht h
  · exact e.eval_related hR.congruent h

end InfraConfig
