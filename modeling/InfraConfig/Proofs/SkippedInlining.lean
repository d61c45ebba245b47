import InfraConfig.Block.Attribute

/-!
# Skipped inlining

Calls of file functions are looked for only in an expression that mentions one. This loses nothing: where none is
mentioned the search comes to no call, so that it changes nothing and asks for no file.
-/

namespace InfraConfig

/-! ## Expressions without mention of a call -/

mutual

/-- The search goes where mentions are looked for, and nowhere else. -/
theorem Expr.inlineFiles_eq_self (env : Environment) (t : FileTable) :
    ∀ e : Expr, e.mentionsFiles = false → e.inlineFiles env t = (e, [])
  | .null, _ => rfl
  | .bool _, _ => rfl
  | .number _, _ => rfl
  | .text _, _ => rfl
  | .variable _, _ => rfl
  | .list items, h => by
    rw [Expr.inlineFiles, inlineAll_eq_self env t items h]
  | .object entries, h => by
    rw [Expr.inlineFiles, inlineEntries_eq_self env t entries h]
  | .template source parts, h => by
    have hsource : FileFunction.inTemplate source = false := h
    simp only [Expr.inlineFiles, hsource]
    rfl
  | .call name args spread, h => by
    obtain ⟨hname, hargs⟩ := Bool.or_eq_false_iff.mp h
    have hnone : FileFunction.ofName? name = none := by simpa using hname
    simp only [Expr.inlineFiles, hnone, inlineAll_eq_self env t args hargs]
  | .paren e, h => by
    rw [Expr.inlineFiles, e.inlineFiles_eq_self env t h]
  | .conditional c yes no, h => by
    simp only [Expr.mentionsFiles, Bool.or_eq_false_iff] at h
    simp only [Expr.inlineFiles, c.inlineFiles_eq_self env t h.1.1, yes.inlineFiles_eq_self env t h.1.2,
      no.inlineFiles_eq_self env t h.2, List.append_nil]
  | .unary op e, h => by
    rw [Expr.inlineFiles, e.inlineFiles_eq_self env t h]
  | .binary op a b, h => by
    obtain ⟨ha, hb⟩ := Bool.or_eq_false_iff.mp h
    simp only [Expr.inlineFiles, a.inlineFiles_eq_self env t ha, b.inlineFiles_eq_self env t hb, List.append_nil]
  | .traversal root steps, h => by
    obtain ⟨hroot, hsteps⟩ := Bool.or_eq_false_iff.mp h
    simp only [Expr.inlineFiles, root.inlineFiles_eq_self env t hroot, inlineSteps_eq_self env t steps hsteps,
      List.append_nil]
  | .forEach key value collection resultKey result condition grouping, h => by
    rw [Expr.inlineFiles, collection.inlineFiles_eq_self env t h]

theorem inlineAll_eq_self (env : Environment) (t : FileTable) :
    ∀ items : List Expr, anyMentionsFiles items = false → inlineAll env t items = (items, [])
  | [], _ => rfl
  | e :: rest, h => by
    obtain ⟨he, hrest⟩ := Bool.or_eq_false_iff.mp h
    simp only [inlineAll, e.inlineFiles_eq_self env t he, inlineAll_eq_self env t rest hrest, List.append_nil]

theorem inlineEntries_eq_self (env : Environment) (t : FileTable) :
    ∀ entries : List (Key × Expr), entriesMentionFiles entries = false →
      inlineEntries env t entries = (entries, [])
  | [], _ => rfl
  | (k, e) :: rest, h => by
    obtain ⟨he, hrest⟩ := Bool.or_eq_false_iff.mp h
    simp only [inlineEntries, e.inlineFiles_eq_self env t he, inlineEntries_eq_self env t rest hrest,
      List.append_nil]

theorem inlineSteps_eq_self (env : Environment) (t : FileTable) :
    ∀ steps : List Step, stepsMentionFiles steps = false → inlineSteps env t steps = (steps, [])
  | [], _ => rfl
  | .index e :: rest, h => by
    obtain ⟨he, hrest⟩ := Bool.or_eq_false_iff.mp h
    simp only [inlineSteps, e.inlineFiles_eq_self env t he, inlineSteps_eq_self env t rest hrest, List.append_nil]
  | .attribute name :: rest, h => by
    rw [inlineSteps, inlineSteps_eq_self env t rest h]
  | .position n :: rest, h => by
    rw [inlineSteps, inlineSteps_eq_self env t rest h]
  | .attributeSplat :: rest, h => by
    rw [inlineSteps, inlineSteps_eq_self env t rest h]
  | .fullSplat :: rest, h => by
    rw [inlineSteps, inlineSteps_eq_self env t rest h]

end

theorem Expr.evalWithFiles_eq (env : Environment) (t : FileTable) (e : Expr) :
    e.evalWithFiles env t = (e.inlineFiles env t).1.eval env := by
  rw [evalWithFiles]
  split
  · rfl
  · next h => rw [e.inlineFiles_eq_self env t (Bool.not_eq_true _ ▸ h)]

theorem Expr.askedFiles_eq (env : Environment) (t : FileTable) (e : Expr) :
    e.askedFiles env t = (e.inlineFiles env t).2 := by
  rw [askedFiles]
  split
  · rfl
  · next h => rw [e.inlineFiles_eq_self env t (Bool.not_eq_true _ ▸ h)]

/-! ## Attributes -/

namespace Arena

/-- The value of an expression whose calls are looked for in any case. -/
def evaluateInlined (a : Arena) (scope : ScopeId) (e : Expr) : Except AttributeProblem Value :=
  match (e.inlineFiles (a.scopes.environment scope) a.files).1.eval (a.scopes.environment scope) with
  | .ok d => .ok (.ofDatum d)
  | .error reason =>
    if a.scopes.readsUnknown scope e then .error .unknown else .error (.expression reason)

/-- The arena in which the files are wanted that an attribute asks for when its calls are looked for in any case. -/
def notingInlined (a : Arena) (b : Block) (attr : Attribute) : Arena :=
  { a with files := a.files.want (attr.value.inlineFiles (a.scopes.environment b.scope) a.files).2 }

theorem evaluate_eq_evaluateInlined (a : Arena) (scope : ScopeId) (e : Expr) :
    a.evaluate scope e = a.evaluateInlined scope e := by
  rw [evaluate, Expr.evalWithFiles_eq]
  rfl

theorem asked_eq (a : Arena) (b : Block) (attr : Attribute) :
    a.asked b attr = (attr.value.inlineFiles (a.scopes.environment b.scope) a.files).2 := by
  rw [asked, ← Expr.askedFiles_eq]
  split
  · rfl
  · next h => rw [Expr.askedFiles, if_neg h]

theorem noting_eq_notingInlined (a : Arena) (b : Block) (attr : Attribute) :
    a.noting b [attr] = a.notingInlined b attr := by
  rw [noting, notingInlined, List.flatMap_singleton, asked_eq]

end Arena

/-! ## Main result -/

/-- Skipping the search is safe: without mention of a call it leaves an expression as it is and asks for no file, in
every environment and for every table of files. So every attribute has the same value, or the same problem, and asks
for the same files whether its calls are looked for in any case or only when one is mentioned. -/
theorem inlining_skippable {e : Expr} (h : e.mentionsFiles = false) :
    (∀ (env : Environment) (t : FileTable), e.inlineFiles env t = (e, []))
      ∧ ∀ (a : Arena) (b : Block) (attr : Attribute),
        a.evaluate b.scope attr.value = a.evaluateInlined b.scope attr.value
          ∧ a.noting b [attr] = a.notingInlined b attr :=
  ⟨fun env t => e.inlineFiles_eq_self env t h, fun a b attr =>
    ⟨a.evaluate_eq_evaluateInlined b.scope attr.value, a.noting_eq_notingInlined b attr⟩⟩

/-- Calls in a key and in the body of a `for`, where none is looked for. -/
def unseenCalls : Expr :=
  .object [(.expr (.call ⟨[], "file"⟩ [.text "a"] false),
    .forEach none "x" (.list [.text "a"]) none (.call ⟨[], "file"⟩ [.variable "x"] false) none false)]

/-- They stay, though their file could be read. -/
theorem inlining_skippable_unseenCalls :
    unseenCalls.mentionsFiles = false
      ∧ unseenCalls.inlineFiles (.ofVariables []) { FileTable.empty "/p" with contents := [("/p/a", some "hi")] }
        = (unseenCalls, []) :=
  ⟨rfl, (inlining_skippable rfl).1 _ _⟩

end InfraConfig
