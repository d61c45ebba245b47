import Mathlib.Data.List.Forall2
import InfraConfig.Functions.Library

/-!
# Calls of library functions

A call checks the number and the types of its arguments before the body sees them. So arguments that a function admits
are given to its body, and what the body answers is the result of the call.
-/

namespace InfraConfig

/-- Arguments that a function takes: one of the right type for each parameter, and further ones if there may be any. -/
structure Function.Admits (f : Function) (own more : List Datum) : Prop where
  own : List.Forall₂ (fun type arg => type.admits arg = true) f.params own
  more : ∀ arg ∈ more, ∃ type, f.further = some type ∧ type.admits arg = true

namespace Function

variable {f : Function} {own more : List Datum}

theorem checkParams_eq_ok {types : List ParamType}
    (h : List.Forall₂ (fun type arg => type.admits arg = true) types own) (position : Nat) :
    checkParams position types (own ++ more) = .ok () := by
  induction h generalizing position with
  | nil => rfl
  | cons hadmits _ ih => rw [List.cons_append, checkParams, if_pos hadmits, ih]

theorem checkFurther_eq_ok {type : ParamType} (h : ∀ arg ∈ more, type.admits arg = true) (position : Nat) :
    checkFurther type position more = .ok () := by
  induction more generalizing position with
  | nil => rfl
  | cons arg more ih =>
    rw [checkFurther, if_pos (h arg List.mem_cons_self), ih fun arg' h' => h arg' (List.mem_cons_of_mem _ h')]

theorem Admits.check (h : f.Admits own more) : f.check (own ++ more) = .ok () := by
  have hlength : f.params.length = own.length := h.own.length_eq
  have hparams : checkParams 0 f.params (own ++ more) = .ok () := checkParams_eq_ok h.own 0
  have hmore : f.further = none → more = [] := by
    intro hnone
    cases more with
    | nil => rfl
    | cons arg more =>
      obtain ⟨type, htype, -⟩ := h.more arg List.mem_cons_self
      rw [hnone] at htype
      cases htype
  have hcount : ¬ ((own ++ more).length < f.params.length ∨
      f.further.isNone ∧ f.params.length < (own ++ more).length) := by
    rintro (hless | ⟨hnone, hgreater⟩)
    · rw [List.length_append] at hless
      omega
    · rw [hmore (Option.isNone_iff_eq_none.mp hnone), List.append_nil] at hgreater
      omega
  rw [Function.check, if_neg hcount, hparams]
  cases hfurther : f.further with
  | none => rfl
  | some type =>
    have hadmits : ∀ arg ∈ more, type.admits arg = true := by
      intro arg harg
      obtain ⟨type', htype, hadmits⟩ := h.more arg harg
      rw [hfurther] at htype
      cases htype
      exact hadmits
    rw [hlength, List.drop_left]
    exact checkFurther_eq_ok hadmits _

/-- A body gets the arguments that its function admits. -/
theorem Admits.call (h : f.Admits own more) : f.call (own ++ more) = f.body (own ++ more) := by
  rw [Function.call, h.check]
  rfl

theorem call_own (h : List.Forall₂ (fun type arg => type.admits arg = true) f.params own) :
    f.call own = f.body own := by
  have hadmits : f.Admits own [] := ⟨h, nofun⟩
  simpa using hadmits.call

end Function

namespace Functions

/-- What the function with a name answers to arguments. -/
def Answers (name : String) (args : List Datum) (answer : Except FunctionError Datum) : Prop :=
  ∃ f, find? name = some f ∧ f.call args = answer

/-- A function has one answer to its arguments. -/
theorem Answers.unique {name : String} {args : List Datum} {answer other : Except FunctionError Datum}
    (h : Answers name args answer) (h' : Answers name args other) : answer = other := by
  obtain ⟨f, hfind, hcall⟩ := h
  obtain ⟨g, hfind', hcall'⟩ := h'
  obtain rfl := Option.some.inj (hfind.symm.trans hfind')
  exact hcall.symm.trans hcall'

theorem Answers.ofBody {name : String} {f : Function} {own more : List Datum} (hfind : find? name = some f)
    (h : f.Admits own more) : Answers name (own ++ more) (f.body (own ++ more)) :=
  ⟨f, hfind, h.call⟩

/-- A function of one argument and any number of further ones. -/
theorem Answers.ofFirst {name : String} {type further : ParamType} {body : List Datum → Except FunctionError Datum}
    (hfind : find? name = some ⟨[type], some further, body⟩) {arg : Datum} {more : List Datum}
    (harg : type.admits arg = true) (hmore : ∀ arg ∈ more, further.admits arg = true) :
    Answers name (arg :: more) (body (arg :: more)) := by
  have hadmits : Function.Admits ⟨[type], some further, body⟩ [arg] more :=
    ⟨.cons harg .nil, fun arg harg => ⟨further, rfl, hmore arg harg⟩⟩
  exact .ofBody hfind hadmits

end Functions

end InfraConfig
