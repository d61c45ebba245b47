import InfraConfig.Proofs.RelatedEvaluations

/-!
# Persistence of values

A value that an expression has in one environment it has in every other one in which its free occurrences
still read what they read before. Where less is known there are fewer values, never other ones: nothing in
the language can tell a missing variable from any other failure.
-/

namespace InfraConfig

/-- The result of `x`, if it has one, is that of `y`. -/
def Persists {ε α : Type} (x y : Except ε α) : Prop :=
  ∀ a, x = .ok a → y = .ok a

namespace Persists

variable {ε α β : Type} {x y : Except ε α}

theorem refl (x : Except ε α) : Persists x x := fun _ h => h

theorem error (problem : ε) (y : Except ε α) : Persists (.error problem) y :=
  fun v h => by cases h

theorem bind (h : Persists x y) {f g : α → Except ε β} (hf : ∀ v, Persists (f v) (g v)) :
    Persists (x >>= f) (y >>= g) := by
  cases x with
  | error problem => exact .error problem _
  | ok v =>
    rw [h v rfl]
    exact hf v

theorem map (h : Persists x y) (f : α → β) : Persists (x.map f) (y.map f) := by
  cases x with
  | error problem => exact .error problem _
  | ok v =>
    rw [h v rfl]
    exact .refl _

theorem compatible : Compatible fun {α} => @Persists EvalError α where
  refl := refl
  bind h k := h.bind k
  eq_or_fails {α x y} h := by
    cases x with
    | error e => exact .inr ⟨⟨e, rfl⟩, fun reason z => .error reason z⟩
    | ok a => exact .inl (h a rfl).symm

end Persists

/-- Environments with the same functions, of which the second keeps what some occurrences read. -/
structure Keeps (env other : Environment) (os : List Occurrence) : Prop where
  functions : env.functions = other.functions
  reads : ∀ o ∈ os, o.KeptIn env other

theorem eq_ok_of_toOption {ε α : Type} {x : Except ε α} {a : α} (h : x.toOption = some a) : x = .ok a := by
  cases x with
  | error e => cases h
  | ok b => rw [Option.some.inj h]

/-- What a path leads to persists when its occurrence reads what it read before. -/
theorem ScopePath.follow_persists {env other : Environment} {p : ScopePath}
    (h : p.occurrence.KeptIn env other) : Persists (p.follow env) (p.follow other) := by
  obtain ⟨name, steps⟩ := p
  have whole (hroot : rootOccurrence name steps = ⟨name, none⟩) :
      Persists ((⟨name, steps⟩ : ScopePath).follow env) ((⟨name, steps⟩ : ScopePath).follow other) := by
    apply Persists.compatible.congruent.andThen
    intro d hd
    rw [ScopePath.occurrence, hroot] at h
    cases hl : env.bindings.lookup name with
    | none => simp [Environment.variable, hl] at hd
    | some w =>
      have hother : other.bindings.lookup name = some w := h w hl
      simpa [Environment.variable, hl, hother] using hd
  rcases steps with _ | ⟨member | _ | _ | _ | _, rest⟩
  · exact whole rfl
  · have first (env : Environment) : (⟨name, .attribute member :: rest⟩ : ScopePath).follow env
        = env.variable name >>= attributeOf member >>= memberAt (leadingNames rest) := by
      rw [bind_assoc]
      rfl
    rw [first, first]
    apply Persists.compatible.congruent.andThen
    intro d hd
    -- An occurrence with a member reads that member only, not the variable.
    have hread : (⟨name, some member⟩ : Occurrence).read env = some d := by
      cases hl : env.bindings.lookup name with
      | none => simp [Environment.variable, hl, bind, Except.bind] at hd
      | some w =>
        have hmember : attributeOf member w = .ok d := by
          simpa [Environment.variable, hl, bind, Except.bind] using hd
        simp [Occurrence.read, hl, hmember, Except.toOption]
    have hother : (⟨name, some member⟩ : Occurrence).read other = some d := h d hread
    obtain ⟨w, hl, hmember⟩ := Option.bind_eq_some_iff.mp hother
    have hmember := eq_ok_of_toOption hmember
    simpa [Environment.variable, hl, bind, Except.bind] using hmember
  all_goals exact whole rfl

theorem Expr.eval_persists {env other : Environment} (e : Expr)
    (h : Keeps env other e.occurrences) : Persists (e.eval env) (e.eval other) := by
  apply e.eval_related Persists.compatible.congruent
  refine ⟨h.functions, fun p hp => ScopePath.follow_persists (h.reads _ ?_)⟩
  rw [← e.map_freePaths]
  exact List.mem_map_of_mem hp

end InfraConfig
