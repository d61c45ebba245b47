import InfraConfig.Proofs.OrdinaryCalls
import InfraConfig.Proofs.SkippedInlining

/-!
# Inlined calls

An expression whose calls of file functions have been replaced by their results has the value that it has with the file
functions declared, if the replacement reaches all its calls. It does not reach into the body of a `for`, where the
variables are not bound yet, nor into a template with directives.
-/

namespace InfraConfig

/-- Whether two results are the same value or both are failures. -/
def SameValue {α : Type} (x y : Except EvalError α) : Prop :=
  x.toOption = y.toOption

namespace SameValue

variable {α : Type} {x y : Except EvalError α}

theorem congruent : Congruent fun {α} => @SameValue α where
  refl _ := rfl
  bind {_ _ x y _ _} h k := by
    cases x with
    | error _ =>
      cases y with
      | error _ => rfl
      | ok _ => cases h
    | ok a =>
      cases y with
      | error _ => cases h
      | ok b =>
        obtain rfl := Option.some.inj h
        exact k a

theorem of_eq (h : x = y) : SameValue x y :=
  congrArg Except.toOption h

theorem ok_right {a : α} (h : SameValue x y) (hx : x = .ok a) : y = .ok a :=
  eq_ok_of_toOption (h.symm.trans (by rw [hx]; rfl))

theorem error_right {reason : EvalError} (h : SameValue x y) (hx : x = .error reason) : ∃ other, y = .error other := by
  cases y with
  | error other => exact ⟨other, rfl⟩
  | ok a =>
    rw [SameValue, hx] at h
    cases h

/-- What has a value only if something without one has it fails as well. -/
theorem of_persists (h : Persists x y) (hy : y.toOption = none) : SameValue x y := by
  cases x with
  | error _ => exact hy.symm
  | ok a =>
    rw [h a rfl] at hy
    cases hy

end SameValue

/-! ## Calls within reach -/

def Part.isDirective : Part → Bool
  | .literal _ => false
  | .interpolation _ _ => false
  | .branch .. => true
  | .loop .. => true

/-- A template without calls that is not rendered for its text either. -/
def LeftAlone (env : Environment) (t : FileTable) (source : String) (parts : List Part) : Prop :=
  partsCallFiles parts = false ∧ (FileFunction.inTemplate source = true → (renderParts env t parts).1 = none)

mutual

/-- An expression in which every call of a file function stands where it is looked for. A template that is rendered for
the calls in its text has primitive values in its interpolations, a text if there is nothing else, and no blanks where
they are stripped. -/
def Expr.FilesInReach (env : Environment) (t : FileTable) : Expr → Prop
  | .call f args spread => (FileFunction.ofName? f = none ∨ spread = false) ∧ ItemsInReach env t args
  | .template _ none => True
  | .template source (some [.interpolation e strip]) => LeftAlone env t source [.interpolation e strip]
    ∨ FileFunction.inTemplate source = true ∧ e.FilesInReach env t
      ∧ ∀ d, e.eval (env.withFiles t) = .ok d → ∃ s, d = .text s
  | .template source (some parts) => LeftAlone env t source parts
    ∨ FileFunction.inTemplate source = true ∧ PartsInReach env t false parts
  | .list items => ItemsInReach env t items
  | .object entries => EntriesInReach env t entries
  | .paren e => e.FilesInReach env t
  | .conditional c yes no => c.FilesInReach env t ∧ yes.FilesInReach env t ∧ no.FilesInReach env t
  | .unary _ e => e.FilesInReach env t
  | .binary _ a b => a.FilesInReach env t ∧ b.FilesInReach env t
  | .traversal root steps => root.FilesInReach env t ∧ StepsInReach env t steps
  | .forEach _ _ collection resultKey result condition _ => collection.FilesInReach env t
    ∧ optionCallsFiles resultKey = false ∧ result.callsFiles = false ∧ optionCallsFiles condition = false
  | .null => True
  | .bool _ => True
  | .number _ => True
  | .text _ => True
  | .variable _ => True

def ItemsInReach (env : Environment) (t : FileTable) : List Expr → Prop
  | [] => True
  | e :: rest => e.FilesInReach env t ∧ ItemsInReach env t rest

def EntriesInReach (env : Environment) (t : FileTable) : List (Key × Expr) → Prop
  | [] => True
  | (k, e) :: rest => k.callsFiles = false ∧ e.FilesInReach env t ∧ EntriesInReach env t rest

def StepsInReach (env : Environment) (t : FileTable) : List Step → Prop
  | [] => True
  | .index e :: rest => e.FilesInReach env t ∧ StepsInReach env t rest
  | .attribute _ :: rest => StepsInReach env t rest
  | .position _ :: rest => StepsInReach env t rest
  | .attributeSplat :: rest => StepsInReach env t rest
  | .fullSplat :: rest => StepsInReach env t rest

def PartsInReach (env : Environment) (t : FileTable) (before : Bool) : List Part → Prop
  | [] => True
  | .literal s :: rest => stripped before (stripsNext false rest) s = s ∧ PartsInReach env t false rest
  | .interpolation e strip :: rest => e.FilesInReach env t
    ∧ (∀ d, e.eval (env.withFiles t) = .ok d → ∃ s, plainText d = .ok s) ∧ PartsInReach env t strip.after rest
  | .branch .. :: _ => False
  | .loop .. :: _ => False

end

section

variable {env : Environment} {t : FileTable}

/-! ## Calls -/

theorem evalArgs_eq_evalItems (env : Environment) (args : List Expr) : evalArgs env false args = evalItems env args := by
  induction args with
  | nil => rfl
  | cons e rest ih => rw [evalArgs, evalItems, ih]; rfl

/-- A call is replaced by what the function would give it, and fails if that is nothing. -/
theorem fileCall_withFiles (henv : env.HasLibrary) {name : FunctionName} {f : FileFunction}
    (hname : FileFunction.ofName? name = some f) {args others : List Expr}
    (h : List.Forall₂ (fun e e' => SameValue (e.eval env) (e'.eval (env.withFiles t))) args others) :
    SameValue ((fileCall env t name f false args).eval env) ((Expr.call name others false).eval (env.withFiles t)) := by
  have hargs := evalItems_related SameValue.congruent h
  obtain ⟨habsent, hcalled⟩ := Environment.called?_of_file (t := t) henv hname
  rw [fileCall]
  cases hvalues : evalItems env args with
  | error reason =>
    -- The call stays, and fails for its arguments in both environments.
    obtain ⟨other, hother⟩ := hargs.error_right hvalues
    obtain ⟨first, hfirst⟩ := evalCall_error name false hvalues
    obtain ⟨second, hsecond⟩ := evalCall_error name false hother
    dsimp only [Except.toOption]
    rw [hfirst, hsecond]
    rfl
  | ok values =>
    have hordinary : (Expr.call name others false).eval (env.withFiles t)
        = ((f.value? t values).elim (Except.error FunctionError.notFound) Except.ok).mapError (.call name.text) := by
      rw [Expr.eval_call, hcalled, evalArgs_eq_evalItems, hargs.ok_right hvalues, ← f.ordinary_call]
      rfl
    rw [hordinary]
    dsimp only [Except.toOption]
    rcases f.run_eq t values with ⟨hrun, hvalue⟩ | ⟨e, d, hrun, hvalue, heval⟩
    · rw [hrun, hvalue, Option.getD_none, Expr.eval_call, habsent]
      rfl
    · rw [hrun, hvalue, Option.getD_some, heval env]
      rfl

/-! ## Templates -/

/-- A template with a directive is not rendered. -/
theorem renderParts_of_directive {parts : List Part} (h : parts.any Part.isDirective = true) :
    (renderParts env t parts).1 = none := by
  induction parts with
  | nil => cases h
  | cons part rest ih =>
    cases part with
    | literal s =>
      simp only [renderParts, ih h]
      rfl
    | interpolation e strip =>
      simp only [renderParts]
      split
      · simp only [ih h]
        rfl
      · rfl
    | branch => rfl
    | loop => rfl

theorem leftAlone_of_directive {source : String} {parts : List Part} (hdirective : parts.any Part.isDirective = true)
    (hcalls : partsCallFiles parts = false) : LeftAlone env t source parts :=
  ⟨hcalls, fun _ => renderParts_of_directive hdirective⟩

theorem Datum.templateText_of_plain {d : Datum} {s : String} (h : plainText d = .ok s) : d.templateText = s := by
  cases d <;> cases h <;> rfl

theorem Expr.eval_template (env : Environment) (source : String) {parts : List Part}
    (h : ∀ e strip, parts ≠ [.interpolation e strip]) :
    (Expr.template source (some parts)).eval env = evalParts env false false parts >>= fun text => .ok (.text text) := by
  match parts, h with
  | [], _ => rfl
  | [.interpolation e strip], h => exact absurd rfl (h e strip)
  | .literal _ :: _, _ => rfl
  | .branch .. :: _, _ => rfl
  | .loop .. :: _, _ => rfl
  | .interpolation _ _ :: _ :: _, _ => rfl

theorem Expr.filesInReach_template {source : String} {parts : List Part}
    (h : ∀ e strip, parts ≠ [.interpolation e strip]) :
    (Expr.template source (some parts)).FilesInReach env t
      ↔ LeftAlone env t source parts ∨ FileFunction.inTemplate source = true ∧ PartsInReach env t false parts := by
  match parts, h with
  | [], _ => rfl
  | [.interpolation e strip], h => exact absurd rfl (h e strip)
  | .literal _ :: _, _ => rfl
  | .branch .. :: _, _ => rfl
  | .loop .. :: _, _ => rfl
  | .interpolation _ _ :: _ :: _, _ => rfl

theorem template_leftAlone (henv : env.HasLibrary) {source : String} {parts : List Part}
    (h : LeftAlone env t source parts) :
    SameValue (((Expr.template source (some parts)).inlineFiles env t).1.eval env)
      ((Expr.template source (some parts)).eval (env.withFiles t)) := by
  have hsame : ((Expr.template source (some parts)).inlineFiles env t).1 = .template source (some parts) := by
    simp only [Expr.inlineFiles]
    split
    · next hsource => simp only [renderTemplate, h.2 hsource]
    · rfl
  rw [hsame]
  exact .of_eq (Expr.eval_withFiles Compatible.eq.congruent t _ env henv (.inr h.1))

/-- A template whose rendered text, if there is one, is its value with the file functions. Where there is none it stays,
and has no value without them that it does not have with them. -/
theorem template_rendered (henv : env.HasLibrary) {source : String} {parts : List Part}
    (hsource : FileFunction.inTemplate source = true)
    (h : (renderParts env t parts).1.map .text
      = ((Expr.template source (some parts)).eval (env.withFiles t)).toOption) :
    SameValue (((Expr.template source (some parts)).inlineFiles env t).1.eval env)
      ((Expr.template source (some parts)).eval (env.withFiles t)) := by
  simp only [Expr.inlineFiles, hsource, if_true, renderTemplate]
  cases hrender : (renderParts env t parts).1 with
  | some text =>
    rw [hrender] at h
    exact h
  | none =>
    rw [hrender] at h
    exact .of_persists (Expr.eval_withFiles Persists.compatible.congruent t _ env henv (.inl Persists.weak)) h.symm

/-- A template in reach, apart from a lone interpolation. -/
theorem template_withFiles (henv : env.HasLibrary) {source : String} {parts : List Part}
    (hlone : ∀ e strip, parts ≠ [.interpolation e strip])
    (h : (Expr.template source (some parts)).FilesInReach env t)
    (hrender : PartsInReach env t false parts →
      (renderParts env t parts).1 = (evalParts (env.withFiles t) false false parts).toOption) :
    SameValue (((Expr.template source (some parts)).inlineFiles env t).1.eval env)
      ((Expr.template source (some parts)).eval (env.withFiles t)) := by
  rcases (Expr.filesInReach_template hlone).mp h with h | ⟨hsource, hparts⟩
  · exact template_leftAlone henv h
  · apply template_rendered henv hsource
    rw [hrender hparts, Expr.eval_template _ _ hlone]
    cases evalParts (env.withFiles t) false false parts <;> rfl

/-! ## Expressions -/

mutual

theorem Expr.inlineFiles_withFiles (henv : env.HasLibrary) : ∀ e : Expr, e.FilesInReach env t →
    SameValue ((e.inlineFiles env t).1.eval env) (e.eval (env.withFiles t))
  | .null, _ => rfl
  | .bool _, _ => rfl
  | .number _, _ => rfl
  | .text _, _ => rfl
  | .variable _, _ => rfl
  | .list items, h => by
    change SameValue ((Expr.list (inlineAll env t items).1).eval env) _
    rw [Expr.eval, Expr.eval]
    exact SameValue.congruent.andThen
      (evalItems_related SameValue.congruent (inlineAll_withFiles henv items h)) _
  | .object entries, h => by
    change SameValue ((Expr.object (inlineEntries env t entries).1).eval env) _
    rw [Expr.eval, Expr.eval]
    exact SameValue.congruent.andThen
      (evalEntries_related SameValue.congruent (inlineEntries_withFiles henv entries h) []) _
  | .template source none, _ => by
    simp only [Expr.inlineFiles, renderTemplate]
    split <;> rfl
  | .template source (some parts), h =>
    match parts, h with
    | [.interpolation e strip], h => by
      rw [Expr.FilesInReach] at h
      rcases h with h | ⟨hsource, he, htext⟩
      · exact template_leftAlone henv h
      · apply template_rendered henv hsource
        have hvalue := e.inlineFiles_withFiles henv he
        rw [SameValue] at hvalue
        simp only [renderParts, Expr.eval, hvalue]
        cases hd : e.eval (env.withFiles t) with
        | error reason => rfl
        | ok d =>
          -- Alone an interpolation keeps its value, which is the rendered one only if it is a text.
          obtain ⟨s, rfl⟩ := htext d hd
          exact congrArg (some ∘ Datum.text) String.append_empty
    | [], h => template_withFiles henv nofun h (renderParts_withFiles henv [] false)
    | .literal s :: rest, h => template_withFiles henv nofun h (renderParts_withFiles henv (.literal s :: rest) false)
    | .branch c yes no a b d :: rest, h =>
      template_withFiles henv nofun h (renderParts_withFiles henv (.branch c yes no a b d :: rest) false)
    | .loop key value c body a b :: rest, h =>
      template_withFiles henv nofun h (renderParts_withFiles henv (.loop key value c body a b :: rest) false)
    | .interpolation e strip :: next :: rest, h =>
      template_withFiles henv nofun h (renderParts_withFiles henv (.interpolation e strip :: next :: rest) false)
  | .call name args spread, ⟨hspread, hargs⟩ => by
    have hargs := inlineAll_withFiles henv args hargs
    cases hname : FileFunction.ofName? name with
    | none =>
      simp only [Expr.inlineFiles, hname]
      rw [Expr.eval_call, Expr.eval_call, Environment.called?_of_other hname]
      cases env.called? name with
      | none => rfl
      | some f => exact SameValue.congruent.andThen (evalArgs_related SameValue.congruent spread hargs) _
    | some f =>
      obtain rfl : spread = false := hspread.resolve_left (by rw [hname]; nofun)
      rw [Expr.inlineFiles_fileCall env t args false hname]
      exact fileCall_withFiles henv hname hargs
  | .paren e, h => by
    change SameValue ((Expr.paren (e.inlineFiles env t).1).eval env) _
    rw [Expr.eval, Expr.eval]
    exact e.inlineFiles_withFiles henv h
  | .conditional c yes no, ⟨hc, hyes, hno⟩ =>
    evalConditional_related SameValue.congruent (c.inlineFiles_withFiles henv hc)
      (yes.inlineFiles_withFiles henv hyes) (no.inlineFiles_withFiles henv hno)
  | .unary op e, h => by
    change SameValue ((Expr.unary op (e.inlineFiles env t).1).eval env) _
    rw [Expr.eval, Expr.eval]
    exact SameValue.congruent.andThen (e.inlineFiles_withFiles henv h) _
  | .binary op a b, ⟨ha, hb⟩ =>
    evalBinary_related SameValue.congruent op (a.inlineFiles_withFiles henv ha) (b.inlineFiles_withFiles henv hb)
  | .traversal root steps, ⟨hroot, hsteps⟩ =>
    evalTraversal_related SameValue.congruent (root.inlineFiles_withFiles henv hroot)
      (inlineSteps_withFiles henv steps hsteps)
  | .forEach key value collection resultKey result condition grouping, ⟨hcollection, hkey, hresult, hcondition⟩ => by
    -- The rest of a `for` is not looked into, and calls no file function.
    have hinner (element : Datum × Datum) := henv.bindElement key value element
    apply evalForEach_related SameValue.congruent grouping (collection.inlineFiles_withFiles henv hcollection)
    · intro element k hk
      rw [Environment.withFiles_bindElement]
      exact .of_eq (option_withFiles Compatible.eq.congruent t resultKey _ (hinner element) (.inr hkey) k hk)
    · intro element
      rw [Environment.withFiles_bindElement]
      exact .of_eq (result.eval_withFiles Compatible.eq.congruent t _ (hinner element) (.inr hresult))
    · intro element e he
      rw [Environment.withFiles_bindElement]
      exact .of_eq (option_withFiles Compatible.eq.congruent t condition _ (hinner element) (.inr hcondition) e he)

theorem inlineAll_withFiles (henv : env.HasLibrary) : ∀ items : List Expr, ItemsInReach env t items →
    List.Forall₂ (fun e e' => SameValue (e.eval env) (e'.eval (env.withFiles t))) (inlineAll env t items).1 items
  | [], _ => .nil
  | e :: rest, ⟨he, hrest⟩ => .cons (e.inlineFiles_withFiles henv he) (inlineAll_withFiles henv rest hrest)

theorem inlineEntries_withFiles (henv : env.HasLibrary) : ∀ entries : List (Key × Expr), EntriesInReach env t entries →
    List.Forall₂ (fun x y => SameValue (x.1.eval env) (y.1.eval (env.withFiles t))
      ∧ SameValue (x.2.eval env) (y.2.eval (env.withFiles t))) (inlineEntries env t entries).1 entries
  | [], _ => .nil
  | (k, e) :: rest, ⟨hk, he, hrest⟩ =>
    .cons ⟨.of_eq (k.eval_withFiles Compatible.eq.congruent t env henv (.inr hk)), e.inlineFiles_withFiles henv he⟩
      (inlineEntries_withFiles henv rest hrest)

theorem inlineSteps_withFiles (henv : env.HasLibrary) : ∀ steps : List Step, StepsInReach env t steps →
    List.Forall₂ (StepRelated SameValue env (env.withFiles t)) (inlineSteps env t steps).1 steps
  | [], _ => .nil
  | .index e :: rest, ⟨he, hrest⟩ =>
    .cons (.index (e.inlineFiles_withFiles henv he)) (inlineSteps_withFiles henv rest hrest)
  | .attribute name :: rest, h => .cons (.attribute name) (inlineSteps_withFiles henv rest h)
  | .position n :: rest, h => .cons (.position n) (inlineSteps_withFiles henv rest h)
  | .attributeSplat :: rest, h => .cons .attributeSplat (inlineSteps_withFiles henv rest h)
  | .fullSplat :: rest, h => .cons .fullSplat (inlineSteps_withFiles henv rest h)

/-- A rendered template has the text that it has as one. -/
theorem renderParts_withFiles (henv : env.HasLibrary) : ∀ (parts : List Part) (before : Bool),
    PartsInReach env t before parts →
      (renderParts env t parts).1 = (evalParts (env.withFiles t) before false parts).toOption
  | [], _, _ => rfl
  | .literal s :: rest, before, ⟨hblanks, hrest⟩ => by
    simp only [renderParts, evalParts, renderParts_withFiles henv rest false hrest, hblanks]
    cases evalParts (env.withFiles t) false false rest <;> rfl
  | .interpolation e strip :: rest, before, ⟨he, hplain, hrest⟩ => by
    have hvalue := e.inlineFiles_withFiles henv he
    rw [SameValue] at hvalue
    simp only [renderParts, evalParts, renderParts_withFiles henv rest strip.after hrest, hvalue]
    cases hd : e.eval (env.withFiles t) with
    | error reason => rfl
    | ok d =>
      obtain ⟨s, hs⟩ := hplain d hd
      simp only [Except.toOption, Option.bind_some, hs, bind, Except.bind, Datum.templateText_of_plain hs]
      cases evalParts (env.withFiles t) strip.after false rest <;> rfl

end

end

/-! ## Main result -/

/-- Inlining calls means calling: an expression whose calls are in reach has the value that it has with the file functions
declared, and no value if it has none then, whether its calls are replaced first or it is evaluated as one that may read
files. -/
theorem Expr.eval_inlineFiles_of_inReach (bindings : List (String × Datum)) (t : FileTable) (e : Expr)
    (h : e.FilesInReach (.ofVariables bindings) t) :
    ((e.inlineFiles (.ofVariables bindings) t).1.eval (.ofVariables bindings)).toOption
        = (e.eval ((Environment.ofVariables bindings).withFiles t)).toOption
      ∧ (e.evalWithFiles (.ofVariables bindings) t).toOption
        = (e.eval ((Environment.ofVariables bindings).withFiles t)).toOption := by
  have hsame := e.inlineFiles_withFiles (Environment.hasLibrary_ofVariables bindings) h
  exact ⟨hsame, e.evalWithFiles_eq _ t ▸ hsame⟩

/-- A table with one text, and a file that is not there. -/
def greetingFiles : FileTable :=
  { FileTable.empty "/p" with contents := [("/p/a", some "hi"), ("/p/gone", none)] }

/-- The text of a file after a word, if another file is not there. -/
def greeting : Expr :=
  .conditional (.call ⟨[], "fileexists"⟩ [.text "gone"] false)
    (.template "%\x7b if true \x7dstay%\x7b endif \x7d"
      (some [.branch (.bool true) [.literal "stay"] none ⟨false, false⟩ ⟨false, false⟩ ⟨false, false⟩]))
    (.template "say:$\x7bfile(name) ~\x7d"
      (some [.literal "say:", .interpolation (.call ⟨[], "file"⟩ [.variable "name"] false) ⟨false, true⟩]))

/-- The name of the file that is there. -/
def greetingName : List (String × Datum) :=
  [("name", .text "a")]

theorem Expr.eval_inlineFiles_of_inReach_greeting :
    greeting.FilesInReach (.ofVariables greetingName) greetingFiles
      ∧ (greeting.evalWithFiles (.ofVariables greetingName) greetingFiles).toOption = some (.text "say:hi") := by
  have hfile : (Expr.call ⟨[], "file"⟩ [.variable "name"] false).FilesInReach (.ofVariables greetingName) greetingFiles :=
    ⟨.inr rfl, trivial, trivial⟩
  have hplain (d : Datum) (h : (Expr.call ⟨[], "file"⟩ [.variable "name"] false).eval
      ((Environment.ofVariables greetingName).withFiles greetingFiles) = .ok d) : ∃ s, plainText d = .ok s := by
    obtain rfl := Except.ok.inj (h.symm.trans (by rfl))
    exact ⟨"hi", rfl⟩
  have hreach : greeting.FilesInReach (.ofVariables greetingName) greetingFiles := by
    refine ⟨⟨.inr rfl, trivial, trivial⟩, .inl (leftAlone_of_directive rfl rfl), .inr ⟨?_, rfl, hfile, hplain, trivial⟩⟩
    decide +kernel
  exact ⟨hreach, (eval_inlineFiles_of_inReach _ _ _ hreach).2.trans (by rfl)⟩

/-- The texts of some files. -/
def loopedCalls : Expr :=
  .forEach none "x" (.list [.text "a"]) none (.call ⟨[], "file"⟩ [.variable "x"] false) none false

/-- The text of a file on a condition. -/
def guardedCall : Expr :=
  .template "%\x7b if true \x7d$\x7bfile(name)\x7d%\x7b endif \x7d"
    (some [.branch (.bool true) [.interpolation (.call ⟨[], "file"⟩ [.variable "name"] false) ⟨false, false⟩] none
      ⟨false, false⟩ ⟨false, false⟩ ⟨false, false⟩])

/-- Calls in the body of a `for` and in a template with directives are not replaced, though their file has been read. -/
theorem Expr.eval_inlineFiles_loopedCalls :
    greetingFiles.lookup "a" = .text "hi"
      ∧ ((loopedCalls.inlineFiles (.ofVariables []) greetingFiles).1.eval (.ofVariables [])).toOption = none
      ∧ (loopedCalls.eval ((Environment.ofVariables []).withFiles greetingFiles)).toOption = some (.list [.text "hi"])
      ∧ ((guardedCall.inlineFiles (.ofVariables greetingName) greetingFiles).1.eval
        (.ofVariables greetingName)).toOption = none
      ∧ (guardedCall.eval ((Environment.ofVariables greetingName).withFiles greetingFiles)).toOption
        = some (.text "hi") :=
  ⟨by rfl, by rfl, by rfl, by rfl, by rfl⟩

end InfraConfig
