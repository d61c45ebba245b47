import InfraConfig.Proofs.FileRequests
import InfraConfig.Proofs.Persistence
import InfraConfig.Proofs.RelatedFiles

/-!
# File functions as ordinary functions

The file functions could be functions as any others, with the values that the table of files gives them. An expression
that does not call them cannot tell; one that does has no value without them that it does not have with them.
-/

namespace InfraConfig

theorem Function.checkFurther_any (position : Nat) (args : List Datum) : checkFurther .any position args = .ok () := by
  induction args generalizing position with
  | nil => rfl
  | cons arg args ih => exact ih (position + 1)

/-- A function of any arguments is its body. -/
theorem Function.call_any (body : List Datum → Except FunctionError Datum) (args : List Datum) :
    (Function.mk [] (some .any) body).call args = body args := by
  have hcheck : (Function.mk [] (some .any) body).check args = .ok () := checkFurther_any 0 args
  rw [call, hcheck]
  rfl

namespace FileFunction

/-- What a call gives for the texts in the table. -/
def value? (t : FileTable) (f : FileFunction) (args : List Datum) : Option Datum :=
  match args.head? with
  | some (.text name) =>
    match f, t.lookup name with
    | .file, .text s => some (.text s)
    | .exists, .text _ => some (.bool true)
    | .exists, .missing => some (.bool false)
    | .base64, .text s => some (.text (Functions.encodeBase64 (utf8Bytes s)))
    | .template, .text s => (render? s args[1]?).map .text
    | _, _ => none
  | _ => none

/-- A file function as an ordinary one, for any arguments. It fails where there is no value. -/
def ordinary (t : FileTable) (f : FileFunction) : Function :=
  ⟨[], some .any, fun args => (f.value? t args).elim (.error .notFound) .ok⟩

theorem ordinary_call (t : FileTable) (f : FileFunction) (args : List Datum) :
    (f.ordinary t).call args = (f.value? t args).elim (.error .notFound) .ok :=
  Function.call_any _ args

/-- A call is replaced by a literal for its value. -/
theorem run_eq (t : FileTable) (f : FileFunction) (args : List Datum) :
    ((f.run t args).1 = none ∧ f.value? t args = none)
      ∨ ∃ e d, (f.run t args).1 = some e ∧ f.value? t args = some d ∧ ∀ env, e.eval env = .ok d := by
  rw [run, value?]
  cases args.head? with
  | none => exact .inl ⟨rfl, rfl⟩
  | some first =>
    cases first with
    | text name =>
      dsimp only
      cases t.lookup name with
      | outside => cases f <;> exact .inl ⟨rfl, rfl⟩
      | unread path => cases f <;> exact .inl ⟨rfl, rfl⟩
      | missing =>
        cases f with
        | «exists» => exact .inr ⟨_, _, rfl, rfl, fun _ => rfl⟩
        | _ => exact .inl ⟨rfl, rfl⟩
      | text s =>
        cases f with
        | template =>
          dsimp only [result?]
          cases render? s args[1]? with
          | none => exact .inl ⟨rfl, rfl⟩
          | some text => exact .inr ⟨_, _, rfl, rfl, fun _ => rfl⟩
        | _ => exact .inr ⟨_, _, rfl, rfl, fun _ => rfl⟩
    | _ => exact .inl ⟨rfl, rfl⟩

/-- The library has no file functions. -/
theorem find?_of_lookup {name : String} {f : FileFunction} (h : names.lookup name = some f) :
    Functions.find? name = none := by
  have hall : names.all (fun entry => (Functions.find? entry.1).isNone) = true := by decide +kernel
  have hmem : (name, f) ∈ names := by
    obtain ⟨before, after, hsplit, -⟩ := List.lookup_eq_some_iff.mp h
    exact hsplit ▸ List.mem_append_right before List.mem_cons_self
  exact Option.isNone_iff_eq_none.mp (List.all_eq_true.mp hall _ hmem)

end FileFunction

namespace Environment

/-- The environment with the file functions declared. -/
def withFiles (t : FileTable) (env : Environment) : Environment :=
  { env with functions := fun name =>
      match FileFunction.names.lookup name with
      | some f => some (f.ordinary t)
      | none => env.functions name }

/-- An environment with the functions of the library. -/
def HasLibrary (env : Environment) : Prop :=
  env.functions = Functions.find?

variable {env : Environment} {t : FileTable} {key : Option String} {value : String} {element : Datum × Datum}
  {name : FunctionName} {f : FileFunction}

theorem hasLibrary_ofVariables (bindings : List (String × Datum)) : (ofVariables bindings).HasLibrary := rfl

theorem HasLibrary.bindElement (h : env.HasLibrary) (key : Option String) (value : String) (element : Datum × Datum) :
    (env.bindElement key value element).HasLibrary := by
  cases key <;> exact h

theorem withFiles_bindElement (env : Environment) (t : FileTable) (key : Option String) (value : String)
    (element : Datum × Datum) :
    (env.withFiles t).bindElement key value element = (env.bindElement key value element).withFiles t := by
  cases key <;> rfl

/-- The function that a call names. -/
def called? (env : Environment) (name : FunctionName) : Option Function :=
  if name.spaces.isEmpty then env.functions name.name else none

theorem called?_of_file (h : env.HasLibrary) (hname : FileFunction.ofName? name = some f) :
    env.called? name = none ∧ (env.withFiles t).called? name = some (f.ordinary t) := by
  rw [FileFunction.ofName?] at hname
  split at hname
  · next hspaces =>
    rw [called?, called?, if_pos hspaces, if_pos hspaces, h, withFiles]
    dsimp only
    rw [hname]
    exact ⟨FileFunction.find?_of_lookup hname, rfl⟩
  · cases hname

theorem called?_of_other (hname : FileFunction.ofName? name = none) : (env.withFiles t).called? name = env.called? name := by
  rw [FileFunction.ofName?] at hname
  rw [called?, called?]
  split at hname
  · next hspaces =>
    rw [if_pos hspaces, if_pos hspaces, withFiles]
    dsimp only
    rw [hname]
  · next hspaces => rw [if_neg hspaces, if_neg hspaces]

end Environment

theorem Expr.eval_call (env : Environment) (name : FunctionName) (args : List Expr) (spread : Bool) :
    (Expr.call name args spread).eval env = (env.called? name).elim (.error (.unknownFunction name.text)) fun f =>
      evalArgs env spread args >>= fun values => (f.call values).mapError (.call name.text) := by
  rw [Expr.eval, Environment.called?]
  split
  · next h => rw [h]; rfl
  · next f h => rw [h]; rfl

/-! ## Expressions -/

/-- A relation of failures to everything. -/
def Weak (R : ∀ {α : Type}, Except EvalError α → Except EvalError α → Prop) : Prop :=
  ∀ {α : Type} (reason : EvalError) (x : Except EvalError α), R (.error reason) x

theorem Persists.weak : Weak fun {α} => @Persists EvalError α :=
  fun reason x => .error reason x

variable {R : ∀ {α : Type}, Except EvalError α → Except EvalError α → Prop}

mutual

/-- The file functions make no difference where they are not called, and otherwise only where they are missing. -/
theorem Expr.eval_withFiles (hR : Congruent R) (t : FileTable) :
    ∀ (e : Expr) (env : Environment), env.HasLibrary → Weak R ∨ e.callsFiles = false →
      R (e.eval env) (e.eval (env.withFiles t))
  | .null, _, _, _ => hR.refl _
  | .bool _, _, _, _ => hR.refl _
  | .number _, _, _, _ => hR.refl _
  | .text _, _, _, _ => hR.refl _
  | .variable _, _, _, _ => hR.refl _
  | .list items, env, henv, h => by
    rw [Expr.eval, Expr.eval]
    exact hR.andThen (evalItems_related hR (items_withFiles hR t items env henv h)) _
  | .object entries, env, henv, h => by
    rw [Expr.eval, Expr.eval]
    exact hR.andThen (evalEntries_related hR (entries_withFiles hR t entries env henv h) []) _
  | .template _ none, _, _, _ => hR.refl _
  | .template _ (some parts), env, henv, h =>
    match parts, h with
    | [.interpolation e _], h => by
      rw [Expr.eval, Expr.eval]
      exact e.eval_withFiles hR t env henv (orFalse_left h)
    | [], _ => hR.refl _
    | .literal s :: rest, h => hR.andThen (evalParts_withFiles hR t (.literal s :: rest) env henv h false false) _
    | .branch c yes no a b d :: rest, h =>
      hR.andThen (evalParts_withFiles hR t (.branch c yes no a b d :: rest) env henv h false false) _
    | .loop key value c body a b :: rest, h =>
      hR.andThen (evalParts_withFiles hR t (.loop key value c body a b :: rest) env henv h false false) _
    | .interpolation e strip :: next :: rest, h =>
      hR.andThen (evalParts_withFiles hR t (.interpolation e strip :: next :: rest) env henv h false false) _
  | .traversal root steps, env, henv, h =>
    evalTraversal_related hR (root.eval_withFiles hR t env henv (orFalse_left h))
      (steps_withFiles hR t steps env henv (orFalse_right h))
  | .call name args spread, env, henv, h => by
    have hargs := evalArgs_related hR spread (items_withFiles hR t args env henv (orFalse_right h))
    rw [Expr.eval_call, Expr.eval_call]
    cases hname : FileFunction.ofName? name with
    | some f =>
      -- Without the file functions nothing of that name is there to be called.
      have hweak : Weak R := h.resolve_right (by simp [Expr.callsFiles, hname])
      rw [(Environment.called?_of_file (t := t) henv hname).1]
      exact hweak _ _
    | none =>
      rw [Environment.called?_of_other hname]
      cases env.called? name with
      | none => exact hR.refl _
      | some f => exact hR.andThen hargs _
  | .paren e, env, henv, h => by
    rw [Expr.eval, Expr.eval]
    exact e.eval_withFiles hR t env henv h
  | .conditional c yes no, env, henv, h =>
    evalConditional_related hR (c.eval_withFiles hR t env henv (orFalse_left (orFalse_left h)))
      (yes.eval_withFiles hR t env henv (orFalse_right (orFalse_left h)))
      (no.eval_withFiles hR t env henv (orFalse_right h))
  | .unary op e, env, henv, h => by
    rw [Expr.eval, Expr.eval]
    exact hR.andThen (e.eval_withFiles hR t env henv h) _
  | .binary op a b, env, henv, h =>
    evalBinary_related hR op (a.eval_withFiles hR t env henv (orFalse_left h))
      (b.eval_withFiles hR t env henv (orFalse_right h))
  | .forEach key value collection resultKey result cond grouping, env, henv, h => by
    have hinner (element : Datum × Datum) := henv.bindElement key value element
    have hcollection := collection.eval_withFiles hR t env henv (orFalse_left (orFalse_left (orFalse_left h)))
    apply evalForEach_related hR grouping hcollection
    · intro element
      rw [Environment.withFiles_bindElement]
      exact option_withFiles hR t resultKey _ (hinner element) (orFalse_right (orFalse_left (orFalse_left h)))
    · intro element
      rw [Environment.withFiles_bindElement]
      exact result.eval_withFiles hR t _ (hinner element) (orFalse_right (orFalse_left h))
    · intro element
      rw [Environment.withFiles_bindElement]
      exact option_withFiles hR t cond _ (hinner element) (orFalse_right h)

theorem items_withFiles (hR : Congruent R) (t : FileTable) :
    ∀ (items : List Expr) (env : Environment), env.HasLibrary → Weak R ∨ itemsCallFiles items = false →
      List.Forall₂ (fun e f => R (e.eval env) (f.eval (env.withFiles t))) items items
  | [], _, _, _ => .nil
  | e :: rest, env, henv, h =>
    .cons (e.eval_withFiles hR t env henv (orFalse_left h)) (items_withFiles hR t rest env henv (orFalse_right h))

theorem entries_withFiles (hR : Congruent R) (t : FileTable) :
    ∀ (entries : List (Key × Expr)) (env : Environment), env.HasLibrary → Weak R ∨ entriesCallFiles entries = false →
      List.Forall₂ (fun x y => R (x.1.eval env) (y.1.eval (env.withFiles t))
        ∧ R (x.2.eval env) (y.2.eval (env.withFiles t))) entries entries
  | [], _, _, _ => .nil
  | (k, e) :: rest, env, henv, h =>
    .cons ⟨k.eval_withFiles hR t env henv (orFalse_left (orFalse_left h)),
        e.eval_withFiles hR t env henv (orFalse_right (orFalse_left h))⟩
      (entries_withFiles hR t rest env henv (orFalse_right h))

theorem Key.eval_withFiles (hR : Congruent R) (t : FileTable) :
    ∀ (k : Key) (env : Environment), env.HasLibrary → Weak R ∨ k.callsFiles = false →
      R (k.eval env) (k.eval (env.withFiles t))
  | .name _, _, _, _ => hR.refl _
  | .expr e, env, henv, h => by
    rw [Key.eval, Key.eval]
    exact hR.andThen (e.eval_withFiles hR t env henv h) _

theorem option_withFiles (hR : Congruent R) (t : FileTable) :
    ∀ (o : Option Expr) (env : Environment), env.HasLibrary → Weak R ∨ optionCallsFiles o = false →
      ∀ e, o = some e → R (e.eval env) (e.eval (env.withFiles t))
  | none, _, _, _ => by simp
  | some e, env, henv, h => by
    rintro _ ⟨⟩
    exact e.eval_withFiles hR t env henv h

theorem steps_withFiles (hR : Congruent R) (t : FileTable) :
    ∀ (steps : List Step) (env : Environment), env.HasLibrary → Weak R ∨ stepsCallFiles steps = false →
      List.Forall₂ (StepRelated R env (env.withFiles t)) steps steps
  | [], _, _, _ => .nil
  | .index e :: rest, env, henv, h =>
    .cons (.index (e.eval_withFiles hR t env henv (orFalse_left h))) (steps_withFiles hR t rest env henv (orFalse_right h))
  | .attribute name :: rest, env, henv, h => .cons (.attribute name) (steps_withFiles hR t rest env henv h)
  | .position n :: rest, env, henv, h => .cons (.position n) (steps_withFiles hR t rest env henv h)
  | .attributeSplat :: rest, env, henv, h => .cons .attributeSplat (steps_withFiles hR t rest env henv h)
  | .fullSplat :: rest, env, henv, h => .cons .fullSplat (steps_withFiles hR t rest env henv h)

theorem evalParts_withFiles (hR : Congruent R) (t : FileTable) :
    ∀ (parts : List Part) (env : Environment), env.HasLibrary → Weak R ∨ partsCallFiles parts = false →
      ∀ before last, R (evalParts env before last parts) (evalParts (env.withFiles t) before last parts)
  | [], _, _, _, _, _ => hR.refl _
  | .literal s :: rest, env, henv, h, before, last => by
    rw [evalParts, evalParts]
    exact hR.andThen (evalParts_withFiles hR t rest env henv h _ _) _
  | .interpolation e strip :: rest, env, henv, h, before, last => by
    rw [evalParts, evalParts]
    apply hR.bind (e.eval_withFiles hR t env henv (orFalse_left h))
    intro d
    exact hR.andThen (evalParts_withFiles hR t rest env henv (orFalse_right h) _ _) _
  | .branch c yes no opening middle closing :: rest, env, henv, h, before, last => by
    have hrest (text : String) := hR.andThen (evalParts_withFiles hR t rest env henv (orFalse_right h) closing.after last)
      fun more => pure (text ++ more)
    rw [evalParts, evalParts]
    apply hR.bind (c.eval_withFiles hR t env henv (orFalse_left (orFalse_left (orFalse_left h))))
    intro d
    apply hR.after
    intro b
    split
    · exact hR.bind (evalParts_withFiles hR t yes env henv (orFalse_right (orFalse_left (orFalse_left h))) _ _) hrest
    · exact hR.bind (evalOther_withFiles hR t no env henv (orFalse_right (orFalse_left h)) _ _) hrest
  | .loop key value collection body opening closing :: rest, env, henv, h, before, last => by
    rw [evalParts, evalParts]
    apply hR.bind (collection.eval_withFiles hR t env henv (orFalse_left (orFalse_left h)))
    intro d
    apply hR.after
    intro elements
    apply hR.bind
    · apply hR.mapM
      intro element _
      rw [Environment.withFiles_bindElement]
      exact evalParts_withFiles hR t body _ (henv.bindElement key value element) (orFalse_right (orFalse_left h)) _ _
    · intro texts
      exact hR.andThen (evalParts_withFiles hR t rest env henv (orFalse_right h) _ _) _

theorem evalOther_withFiles (hR : Congruent R) (t : FileTable) :
    ∀ (parts : Option (List Part)) (env : Environment), env.HasLibrary → Weak R ∨ otherCallsFiles parts = false →
      ∀ before last, R (evalOther env before last parts) (evalOther (env.withFiles t) before last parts)
  | none, _, _, _, _, _ => hR.refl _
  | some parts, env, henv, h, _, _ => evalParts_withFiles hR t parts env henv h _ _

end

end InfraConfig
