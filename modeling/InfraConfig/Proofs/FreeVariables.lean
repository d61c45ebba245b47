import InfraConfig.Block.Attribute
import InfraConfig.Proofs.RelatedFiles

/-!
# Free variables

What an expression is worth is settled by the variables that its free paths start at. Where no template in it
has a directive these are the roots of its scope paths, and a literal attribute has one value in all scopes.
-/

namespace InfraConfig

theorem Related.ofRoots {env other : Environment} {ps : List ScopePath}
    (hfunctions : env.functions = other.functions)
    (h : ∀ p ∈ ps, env.bindings.lookup p.root = other.bindings.lookup p.root) :
    Related (fun {_} x y => x = y) env other ps where
  functions := hfunctions
  follow p hp := by
    rw [ScopePath.follow, ScopePath.follow, Environment.variable, Environment.variable, h p hp]

theorem Expr.eval_congr {env other : Environment} (hfunctions : env.functions = other.functions)
    (e : Expr) (h : ∀ p ∈ e.freePaths, env.bindings.lookup p.root = other.bindings.lookup p.root) :
    e.eval env = e.eval other :=
  e.eval_related Compatible.eq.congruent (.ofRoots hfunctions h)

theorem Expr.evalWithFiles_of_roots {env other : Environment}
    (hfunctions : env.functions = other.functions) (t : FileTable) (e : Expr)
    (h : ∀ p ∈ e.freePaths, env.bindings.lookup p.root = other.bindings.lookup p.root) :
    e.evalWithFiles env t = e.evalWithFiles other t :=
  e.evalWithFiles_related Compatible.eq t (.inl fun h => h) (.ofRoots hfunctions h)

theorem Arena.evaluate_of_no_paths (a : Arena) (s : Scopes) (id scope : ScopeId) {e : Expr}
    (hfree : e.freePaths = []) (hpaths : e.scopePaths = []) :
    ({ a with scopes := s } : Arena).evaluate scope e = a.evaluate id e := by
  have hvalue : e.evalWithFiles (s.environment scope) a.files
      = e.evalWithFiles (a.scopes.environment id) a.files := by
    have hfunctions : (s.environment scope).functions = (a.scopes.environment id).functions := rfl
    apply e.evalWithFiles_of_roots hfunctions
    simp [hfree]
  rw [evaluate, evaluate, hvalue, Scopes.readsUnknown, Scopes.readsUnknown, hpaths]
  rfl

/-- The roots of the free paths of an attribute settle its value. Without directives these are its scope paths,
and if it is literal it is worth the same in every scope whatsoever. -/
theorem Attribute.freePaths_determine (attr : Attribute) :
    (∀ (env other : Environment) (t : FileTable), env.functions = other.functions →
      (∀ p ∈ attr.value.freePaths, env.bindings.lookup p.root = other.bindings.lookup p.root) →
        attr.value.eval env = attr.value.eval other ∧
          attr.value.evalWithFiles env t = attr.value.evalWithFiles other t) ∧
    (attr.value.hasDirectives = false →
      attr.value.freePaths = attr.value.scopePaths ∧
      (attr.isLiteral = true → ∀ (a : Arena) (s : Scopes) (id scope : ScopeId),
        ({ a with scopes := s } : Arena).evaluate scope attr.value = a.evaluate id attr.value)) := by
  constructor
  · intro env other t hfunctions hroots
    constructor
    · exact attr.value.eval_congr hfunctions hroots
    · exact attr.value.evalWithFiles_of_roots hfunctions t hroots
  · intro hplain
    have hpaths := attr.value.freePaths_of_plain hplain
    refine ⟨hpaths, fun hliteral a s id scope => ?_⟩
    have hnone : attr.value.scopePaths = [] := List.isEmpty_iff.mp hliteral
    exact a.evaluate_of_no_paths s id scope (hpaths.trans hnone) hnone

/-- The attribute `x = "%\x7b if var.on \x7da%\x7b else \x7db%\x7b endif \x7d"`. -/
def switched : Attribute where
  name := "x"
  value := .template "%\x7b if var.on \x7da%\x7b else \x7db%\x7b endif \x7d" (some
    [.branch (.traversal (.variable "var") [.attribute "on"]) [.literal "a"] (some [.literal "b"])
      ⟨false, false⟩ ⟨false, false⟩ ⟨false, false⟩])
  range := default

/-- The attribute `sum = 1 + 2`. -/
def literalSum : Attribute where
  name := "sum"
  value := .binary .add (.number (.int 1)) (.number (.int 2))
  range := default

/-- Variables with the members of `var`, and others. -/
def environmentOf (members others : List (String × Datum)) : Environment :=
  .ofVariables (("var", .object members) :: others)

theorem freePaths_determine_switched :
    switched.value.eval (environmentOf [("on", .bool true)] [])
        = switched.value.eval (environmentOf [("on", .bool true)] [("local", .null)]) ∧
      ∀ s id scope, ({ Arena.empty "/p" with scopes := s } : Arena).evaluate scope literalSum.value
        = (Arena.empty "/p").evaluate id literalSum.value := by
  constructor
  · apply And.left
    apply switched.freePaths_determine.1 _ _ (FileTable.empty "/p") rfl
    intro p hp
    obtain rfl : p = ⟨"var", [.attribute "on"]⟩ := by
      simpa [switched, Expr.freePaths, partFreePaths, otherFreePaths, stepFreePaths] using hp
    rfl
  · exact (literalSum.freePaths_determine.2 rfl).2 rfl (Arena.empty "/p")

/-! A directive is read by the evaluation but not by the scope paths. -/

example : switched.isLiteral = true ∧
    (switched.value.eval (environmentOf [("on", .bool true)] [])).toOption.map Datum.templateText
      ≠ (switched.value.eval (environmentOf [("on", .bool false)] [])).toOption.map Datum.templateText := by
  decide

end InfraConfig
