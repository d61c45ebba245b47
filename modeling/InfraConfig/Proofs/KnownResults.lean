import InfraConfig.Proofs.SettledScopes

/-!
# Results that stay

A value that an attribute has while something is unknown is its value afterwards, if what it read was settled
or was not there. An expression that looks at a collection with something unknown in it sees that this is
missing, and its value changes.
-/

namespace InfraConfig

theorem Arena.evaluate_eq_ok_iff {a : Arena} {scope : ScopeId} {e : Expr} {v : Value} :
    a.evaluate scope e = .ok v ↔
      ∃ d, e.evalWithFiles (a.scopes.environment scope) a.files = .ok d ∧ v = .ofDatum d := by
  rw [evaluate]
  cases e.evalWithFiles (a.scopes.environment scope) a.files with
  | error reason =>
    by_cases hunknown : a.scopes.readsUnknown scope e = true <;> simp [hunknown]
  | ok d => simp [eq_comm]

/-- What an attribute is worth while something is unknown it is worth whatever takes the place of that, if each
path that it reads is clear of it or leads nowhere. Where the text of a template calls a file function all
paths have to be clear: the template is rendered in another way when one of its parts has no value. -/
theorem Attribute.value_of_settled (a : Arena) (scope : ScopeId) (attr : Attribute) {t : Scopes}
    (ht : a.scopes.Settles t)
    (hreads : ∀ p ∈ attr.value.freePaths, a.scopes.ClearAt scope p ∨
      attr.value.hasFileText = false ∧ ¬ a.scopes.Leads scope p)
    {v : Value} (hv : a.evaluate scope attr.value = .ok v) :
    ({ a with scopes := t } : Arena).evaluate scope attr.value = .ok v := by
  rw [Arena.evaluate_eq_ok_iff] at hv ⊢
  obtain ⟨d, hd, rfl⟩ := hv
  refine ⟨d, ?_, rfl⟩
  cases hfiles : attr.value.hasFileText with
  | false =>
    have hrelated : Related (fun {α} => @Persists EvalError α) (a.scopes.environment scope)
        (t.environment scope) attr.value.freePaths := by
      refine ⟨rfl, fun p hp => ?_⟩
      rcases hreads p hp with hclear | ⟨-, hnowhere⟩
      · rw [ht.follow hclear]
        exact Persists.refl _
      · intro w hw
        exact absurd ⟨w, hw⟩ hnowhere
    exact attr.value.evalWithFiles_related Persists.compatible a.files (.inr hfiles) hrelated d hd
  | true =>
    have hrelated : Related (fun {_} x y => x = y) (a.scopes.environment scope)
        (t.environment scope) attr.value.freePaths := by
      refine ⟨rfl, fun p hp => ?_⟩
      rcases hreads p hp with hclear | ⟨hnone, -⟩
      · exact ht.follow hclear
      · simp [hfiles] at hnone
    rw [← attr.value.evalWithFiles_related Compatible.eq a.files (.inl fun h => h) hrelated]
    exact hd

/-- An arena with one scope, in which `var` is an object. -/
def Arena.ofVar (members : Entries Value) : Arena :=
  { Arena.empty "/p" with scopes := ⟨#[⟨none, [("var", .object members)]⟩]⟩ }

theorem Arena.settles_ofVar {members others : Entries Value} (h : Value.SettlesEntries members others) :
    (ofVar members).scopes.Settles (ofVar others).scopes where
  parents := by rintro (_ | id) <;> rfl
  bindings := by
    rintro (_ | id)
    · exact ⟨rfl, h, trivial⟩
    · trivial

theorem Arena.clearAt_ofVar {members : Entries Value} {name : String}
    (h : ∀ e ∈ members, e.1 = name → e.2.isWhollyKnown = true) :
    (ofVar members).scopes.ClearAt 0 ⟨"var", [.attribute name]⟩ := by
  intro i hi e he _
  obtain rfl : i = 0 := List.mem_singleton.mp hi
  obtain rfl : e = ("var", .object members) := List.mem_singleton.mp he
  refine ⟨rfl, ?_⟩
  rintro _ ⟨⟩
  exact h

/-- The attribute `x = var.on ? var.n : var.u`. -/
def chosenMember : Attribute where
  name := "x"
  value := .conditional (.traversal (.variable "var") [.attribute "on"])
    (.traversal (.variable "var") [.attribute "n"]) (.traversal (.variable "var") [.attribute "u"])
  range := default

theorem value_of_settled_chosenMember :
    (Arena.ofVar [("on", .bool true), ("n", .int 7), ("u", .text "v")]).evaluate 0 chosenMember.value
      = .ok (.int 7) := by
  have hsettles : (Arena.ofVar [("on", .bool true), ("n", .int 7), ("u", .unknown)]).scopes.Settles
      (Arena.ofVar [("on", .bool true), ("n", .int 7), ("u", .text "v")]).scopes :=
    Arena.settles_ofVar ⟨rfl, rfl, rfl, rfl, rfl, trivial, trivial⟩
  refine chosenMember.value_of_settled _ 0 hsettles ?_ rfl
  intro p hp
  have hpaths : p = ⟨"var", [.attribute "on"]⟩ ∨ p = ⟨"var", [.attribute "n"]⟩ ∨
      p = ⟨"var", [.attribute "u"]⟩ := by
    simpa [chosenMember, Expr.freePaths, stepFreePaths] using hp
  rcases hpaths with rfl | rfl | rfl
  · exact .inl (Arena.clearAt_ofVar (by simp [Value.isWhollyKnown]))
  · exact .inl (Arena.clearAt_ofVar (by simp [Value.isWhollyKnown, Value.int]))
  · exact .inr ⟨rfl, nofun⟩

/-- The attribute `x = length(var)`. -/
def memberCount : Attribute where
  name := "x"
  value := .call ⟨[], "length"⟩ [.variable "var"] false
  range := default

/-- A member that is unknown is not counted. -/
theorem memberCount_changes :
    (Arena.ofVar [("u", .unknown)]).scopes.Settles (Arena.ofVar [("u", .int 1)]).scopes ∧
      (Value.int 1).isWhollyKnown = true ∧
      (Arena.ofVar [("u", .unknown)]).evaluate 0 memberCount.value = .ok (.int 0) ∧
      (Arena.ofVar [("u", .int 1)]).evaluate 0 memberCount.value = .ok (.int 1) :=
  ⟨Arena.settles_ofVar ⟨rfl, trivial, trivial⟩, rfl, rfl, rfl⟩

/-- The attribute `x = "file($\x7b"file( $\x7b~ "a" \x7d" == "file(a" ? "x" : var.u\x7d"`. -/
def renderedChoice : Attribute where
  name := "x"
  value :=
    let inner : Expr := .template "file( $\x7b~ \"a\" \x7d" (some
      [.literal "file( ", .interpolation (.text "a") ⟨true, false⟩])
    .template "file($\x7b...\x7d" (some
      [.literal "file(",
        .interpolation (.conditional (.binary .eq inner (.text "file(a")) (.text "x")
          (.traversal (.variable "var") [.attribute "u"])) ⟨false, false⟩])
  range := default

/-! The inner template keeps its blank when the outer one is rendered, and loses it when that fails. -/

example :
    (Arena.ofVar [("u", .unknown)]).evaluate 0 renderedChoice.value = .ok (.text "file(x") ∧
      (Arena.ofVar [("u", .text "v")]).evaluate 0 renderedChoice.value = .ok (.text "file(v") :=
  ⟨by cbv, by cbv⟩

end InfraConfig
