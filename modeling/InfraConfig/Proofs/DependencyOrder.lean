import InfraConfig.Block.Attribute
import InfraConfig.Proofs.ScopeLaws
import Mathlib.Data.List.Sort

/-!
# Locals in dependency order

The bindings of a scope determine the values of the expressions in it. An expression whose occurrences read
the same under two bindings has the same value under both. One whose occurrences read under the first
bindings nothing that the second lack has the value of the second, or is unknown.

Locals that read one another, without a chain back to where it began, can be evaluated one by one, each after
those that it reads. What comes out is the one assignment in which every local has the value of its
expression; the order among locals that do not depend on each other makes no difference.
-/

namespace InfraConfig

/-! ## Values under bindings -/

/-- The environment that shows some bindings. -/
def Environment.ofBindings (bindings : Entries Value) : Environment :=
  .ofVariables (Value.datumEntries bindings)

/-- The value of an expression under some bindings; unknown if it has none. -/
def Expr.valueIn (bindings : Entries Value) (e : Expr) : Value :=
  ((e.eval (.ofBindings bindings)).map Value.ofDatum).toOption.getD .unknown

theorem Scopes.environment_eq_ofBindings (s : Scopes) (id : ScopeId) :
    s.environment id = .ofBindings (s.merged id) := by
  rw [environment, Environment.ofBindings, Value.datumEntries_eq_filterMap]

theorem Scopes.Under.environment {s : Scopes} (hs : s.Ordered) {root id : ScopeId}
    (h : s.Under root id) (hn : (s.bindings root).keys.Nodup) :
    s.environment id = .ofBindings (s.bindings root) := by
  rw [s.environment_eq_ofBindings, h.merged hs hn]

/-! ## Reading -/

theorem lookup_ofBindings {bindings : Entries Value} (h : bindings.keys.Nodup) (name : String) :
    (Environment.ofBindings bindings).bindings.lookup name = (bindings.get? name).bind Value.toDatum? :=
  Value.get?_datumEntries h name

theorem read_ofBindings_congr {B C : Entries Value} (hB : B.keys.Nodup) (hC : C.keys.Nodup)
    {o : Occurrence} (h : B.get? o.name = C.get? o.name) :
    o.read (.ofBindings B) = o.read (.ofBindings C) := by
  simp only [Occurrence.read, lookup_ofBindings hB, lookup_ofBindings hC, h]

theorem toOption_attributeOf (name : String) (entries : List (String × Datum)) :
    (attributeOf name (.object entries)).toOption = Entries.get? entries name := by
  rw [attributeOf]
  cases Entries.get? entries name <;> rfl

/-- A member that is accessed on an object is read from its entry. -/
theorem read_member {B : Entries Value} (hB : B.keys.Nodup) {name member : String} {es : Entries Value}
    (hes : es.keys.Nodup) (h : B.get? name = some (.object es)) :
    (⟨name, some member⟩ : Occurrence).read (.ofBindings B) = (es.get? member).bind Value.toDatum? := by
  simp only [Occurrence.read, lookup_ofBindings hB, h, Option.bind_some, Value.toDatum?,
    toOption_attributeOf, Value.get?_datumEntries hes]

theorem read_of_unbound {B : Entries Value} (hB : B.keys.Nodup) {name : String}
    (h : B.get? name = none) (member : Option String) :
    (⟨name, member⟩ : Occurrence).read (.ofBindings B) = none := by
  cases member <;> simp [Occurrence.read, lookup_ofBindings hB, h]

/-! ## Values -/

namespace Expr

variable {B C : Entries Value} {e : Expr}

theorem valueIn_eq_of_ok {d : Datum} (h : e.eval (.ofBindings B) = .ok d) : e.valueIn B = .ofDatum d := by
  rw [valueIn, h]
  rfl

/-- Less to read gives the same value or none. -/
theorem valueIn_of_kept
    (h : ∀ o ∈ e.occurrences, o.KeptIn (.ofBindings B) (.ofBindings C)) :
    e.valueIn B = .unknown ∨ e.valueIn B = e.valueIn C := by
  have hkeeps : Keeps (.ofBindings B) (.ofBindings C) e.occurrences := ⟨rfl, h⟩
  cases hB : e.eval (.ofBindings B) with
  | error reason =>
    left
    rw [valueIn, hB]
    rfl
  | ok d =>
    right
    have hC : e.eval (.ofBindings C) = .ok d := e.eval_persists hkeeps d hB
    rw [valueIn_eq_of_ok hB, valueIn_eq_of_ok hC]

theorem valueIn_congr
    (h : ∀ o ∈ e.occurrences, o.read (.ofBindings B) = o.read (.ofBindings C)) :
    e.valueIn B = e.valueIn C := by
  have hBC : ∀ o ∈ e.occurrences, o.KeptIn (.ofBindings B) (.ofBindings C) :=
    fun o ho d hd => by rwa [← h o ho]
  have hCB : ∀ o ∈ e.occurrences, o.KeptIn (.ofBindings C) (.ofBindings B) :=
    fun o ho d hd => by rwa [h o ho]
  rcases valueIn_of_kept hBC with hB | hB
  · rcases valueIn_of_kept hCB with hC | hC
    · rw [hB, hC]
    · exact hC.symm
  · exact hB

end Expr

/-- Where no file is read, an attribute has the value of its expression under what its scope sees. -/
theorem Arena.resolve_eq_valueIn {a : Arena} {b : Block} {attr : Attribute} {B : Entries Value}
    (hfiles : attr.value.mentionsFiles = false) (henv : a.scopes.environment b.scope = .ofBindings B) :
    a.resolve b attr = attr.value.valueIn B := by
  rw [resolve, evaluate, Expr.evalWithFiles, hfiles, henv, Expr.valueIn]
  cases attr.value.eval (.ofBindings B) with
  | ok d => rfl
  | error reason =>
    simp only [Bool.false_eq_true, if_false]
    split <;> rfl

/-! ## Dependencies -/

/-- The locals that an expression reads. -/
def Expr.readLocals (e : Expr) : List String :=
  e.occurrences.filterMap fun o => if o.name = "local" then o.member else none

/-- Whether the value of one local depends directly on another one. -/
def Attribute.Reads (a b : Attribute) : Prop :=
  b.name ∈ a.value.readLocals

/-- An occurrence of the workspace, the paths, or a single member of the variables or locals. -/
def Occurrence.IsPlain (o : Occurrence) : Prop :=
  o.name = "terraform" ∨ o.name = "path" ∨ (o.name = "var" ∨ o.name = "local") ∧ o.member.isSome

instance (a b : Attribute) : Decidable (a.Reads b) :=
  inferInstanceAs (Decidable (_ ∈ _))

instance (o : Occurrence) : Decidable o.IsPlain :=
  inferInstanceAs (Decidable (_ ∨ _ ∨ _))

/-- No chain of locals that each read the next one is longer than `n`. -/
def ChainsWithin (locals : List Attribute) (n : Nat) : Prop :=
  ∀ chain, chain ⊆ locals → chain.IsChain Attribute.Reads → chain.length ≤ n

/-- All locals in an order in which none reads a later one. -/
def IsDependencyOrder (locals order : List Attribute) : Prop :=
  order.Perm locals ∧ order.Pairwise fun a b => ¬ a.Reads b

namespace Locals

/-- The bindings around locals, with those evaluated so far. -/
def among (around done : Entries Value) : Entries Value :=
  around.put "local" (.object done)

/-- Evaluates one more local. -/
def evaluateNext (around done : Entries Value) (a : Attribute) : Entries Value :=
  done.put a.name (a.value.valueIn (among around done))

/-- The values of locals that are evaluated once each, one after another. -/
def evaluateInOrder (around : Entries Value) (order : List Attribute) : Entries Value :=
  order.foldl (evaluateNext around) []

/-! ## Depth -/

/-- Whether all chains that begin at a local have at most a length. -/
def DepthWithin (locals : List Attribute) : Nat → Attribute → Prop
  | 0, _ => False
  | n + 1, a => ∀ b ∈ locals, a.Reads b → DepthWithin locals n b

variable {locals : List Attribute}

theorem exists_chain_of_not_depthWithin {n : Nat} {a : Attribute} (ha : a ∈ locals)
    (h : ¬ DepthWithin locals n a) :
    ∃ rest, (a :: rest) ⊆ locals ∧ (a :: rest).IsChain Attribute.Reads ∧ rest.length = n := by
  induction n generalizing a with
  | zero => exact ⟨[], by simpa using ha, .singleton a, rfl⟩
  | succ n ih =>
    simp only [DepthWithin, not_forall] at h
    obtain ⟨b, hb, hread, hdeep⟩ := h
    obtain ⟨rest, hsub, hchain, hlen⟩ := ih hb hdeep
    refine ⟨b :: rest, List.cons_subset.mpr ⟨ha, hsub⟩, ?_, by simp [hlen]⟩
    exact List.isChain_cons_cons.mpr ⟨hread, hchain⟩

theorem depthWithin_of_chainsWithin {n : Nat} (h : ChainsWithin locals n) {a : Attribute}
    (ha : a ∈ locals) : DepthWithin locals n a := by
  by_contra hn
  obtain ⟨rest, hsub, hchain, hlen⟩ := exists_chain_of_not_depthWithin ha hn
  have := h (a :: rest) hsub hchain
  simp only [List.length_cons] at this
  omega

/-- Locals whose chains are bounded can be ranked so that each reads only lower ones. -/
theorem exists_rank {n : Nat} (h : ChainsWithin locals n) :
    ∃ rank : Attribute → Nat, ∀ a ∈ locals, ∀ b ∈ locals, a.Reads b → rank b < rank a := by
  classical
  have hdepth : ∀ a ∈ locals, ∃ m, DepthWithin locals m a :=
    fun a ha => ⟨n, depthWithin_of_chainsWithin h ha⟩
  refine ⟨fun a => if ha : ∃ m, DepthWithin locals m a then Nat.find ha else 0, ?_⟩
  intro a ha b hb hread
  have hda := hdepth a ha
  have hdb := hdepth b hb
  simp only [hda, hdb, dite_true]
  have hspec := Nat.find_spec hda
  generalize Nat.find hda = m at hspec
  cases m with
  | zero => exact hspec.elim
  | succ m => exact Nat.lt_succ_of_le (Nat.find_min' hdb (hspec b hb hread))

/-- Ranks below `n` that fall along every read bound all chains. -/
theorem chainsWithin_of_rank {n : Nat} (rank : Attribute → Nat) (hn : ∀ a ∈ locals, rank a < n)
    (h : ∀ a ∈ locals, ∀ b ∈ locals, a.Reads b → rank b < rank a) : ChainsWithin locals n := by
  suffices hs : ∀ a rest, (a :: rest) ⊆ locals → (a :: rest).IsChain Attribute.Reads →
      rest.length ≤ rank a by
    intro chain hsub hchain
    cases chain with
    | nil => exact Nat.zero_le n
    | cons a rest =>
      exact Nat.lt_of_le_of_lt (hs a rest hsub hchain) (hn a (hsub List.mem_cons_self))
  intro a rest
  induction rest generalizing a with
  | nil => exact fun _ _ => Nat.zero_le _
  | cons b rest ih =>
    intro hsub hchain
    obtain ⟨ha, hrest⟩ := List.cons_subset.mp hsub
    obtain ⟨hread, htail⟩ := List.isChain_cons_cons.mp hchain
    exact Nat.lt_of_le_of_lt (ih b hrest htail) (h a ha b (hrest List.mem_cons_self) hread)

theorem exists_dependencyOrder {n : Nat} (h : ChainsWithin locals n) :
    ∃ order, IsDependencyOrder locals order := by
  obtain ⟨rank, hrank⟩ := exists_rank h
  let r (a b : Attribute) : Prop := rank a ≤ rank b
  have : DecidableRel r := fun a b => inferInstanceAs (Decidable (rank a ≤ rank b))
  have : Std.Total r := ⟨fun a b => Nat.le_total _ _⟩
  have : IsTrans Attribute r := ⟨fun _ _ _ => Nat.le_trans⟩
  refine ⟨locals.insertionSort r, List.perm_insertionSort r locals, ?_⟩
  refine (List.pairwise_insertionSort r locals).imp_of_mem fun {a b} ha hb hab hread => ?_
  have hmem {c : Attribute} (hc : c ∈ locals.insertionSort r) : c ∈ locals :=
    (List.perm_insertionSort r locals).mem_iff.mp hc
  exact Nat.lt_irrefl _ (Nat.lt_of_le_of_lt hab (hrank a (hmem ha) b (hmem hb) hread))

theorem not_reads_self {n : Nat} (h : ChainsWithin locals n) {a : Attribute} (ha : a ∈ locals) :
    ¬ a.Reads a := by
  obtain ⟨rank, hrank⟩ := exists_rank h
  exact fun hread => Nat.lt_irrefl _ (hrank a ha a ha hread)

/-! ## Evaluation -/

variable {around : Entries Value}

theorem mem_readLocals {e : Expr} {name : String} :
    name ∈ e.readLocals ↔ (⟨"local", some name⟩ : Occurrence) ∈ e.occurrences := by
  simp only [Expr.readLocals, List.mem_filterMap]
  constructor
  · rintro ⟨⟨root, member⟩, ho, hm⟩
    by_cases hroot : root = "local"
    · simp only [hroot, if_true] at hm
      rwa [hroot, hm] at ho
    · simp [hroot] at hm
  · intro ho
    exact ⟨_, ho, by simp⟩

theorem nodup_keys_among (h : around.keys.Nodup) (done : Entries Value) :
    (among around done).keys.Nodup :=
  Entries.nodup_keys_put h _ _

/-- Plain occurrences see of the locals only those that they name. -/
theorem read_among_congr (h : around.keys.Nodup) {done more : Entries Value} (hd : done.keys.Nodup)
    (hm : more.keys.Nodup) {o : Occurrence} (ho : o.IsPlain)
    (hsame : ∀ name, o = ⟨"local", some name⟩ → done.get? name = more.get? name) :
    o.read (.ofBindings (among around done)) = o.read (.ofBindings (among around more)) := by
  by_cases hroot : o.name = "local"
  · obtain ⟨root, member⟩ := o
    obtain rfl : root = "local" := hroot
    obtain ⟨name, rfl⟩ : ∃ name, member = some name := by
      simpa [Occurrence.IsPlain, Option.isSome_iff_exists] using ho
    rw [read_member (nodup_keys_among h done) hd (by simp [among]),
      read_member (nodup_keys_among h more) hm (by simp [among]), hsame name rfl]
  · refine read_ofBindings_congr (nodup_keys_among h done) (nodup_keys_among h more) ?_
    simp [among, hroot]

theorem nodup_keys_evaluateNext {done : Entries Value} (h : done.keys.Nodup) (order : List Attribute) :
    (order.foldl (evaluateNext around) done).keys.Nodup := by
  induction order generalizing done with
  | nil => exact h
  | cons a order ih => exact ih (Entries.nodup_keys_put h _ _)

theorem nodup_keys_evaluateInOrder (order : List Attribute) :
    (evaluateInOrder around order).keys.Nodup :=
  nodup_keys_evaluateNext Entries.nodup_keys_nil order

/-- Evaluating a local leaves those of other names. -/
theorem get?_evaluateNext_of_not_mem {order : List Attribute} {name : String}
    (h : name ∉ order.map Attribute.name) (done : Entries Value) :
    (order.foldl (evaluateNext around) done).get? name = done.get? name := by
  induction order generalizing done with
  | nil => rfl
  | cons a order ih =>
    simp only [List.map_cons, List.mem_cons, not_or] at h
    rw [List.foldl_cons, ih h.2, evaluateNext, Entries.get?_put, if_neg h.1]

theorem isSome_get?_evaluateInOrder {order : List Attribute} {a : Attribute} (ha : a ∈ order) :
    ((evaluateInOrder around order).get? a.name).isSome := by
  suffices hs : ∀ done : Entries Value, a ∈ order ∨ (done.get? a.name).isSome →
      ((order.foldl (evaluateNext around) done).get? a.name).isSome from hs [] (.inl ha)
  clear ha
  induction order with
  | nil => simp
  | cons b order ih =>
    intro done h
    refine ih _ ?_
    by_cases hb : a.name = b.name
    · right
      simp [evaluateNext, hb]
    · rcases h with h | h
      · rcases List.mem_cons.mp h with rfl | h
        · exact absurd rfl hb
        · exact .inl h
      · right
        simpa [evaluateNext, hb] using h

theorem mem_keys_evaluateInOrder {order : List Attribute} {name : String}
    (h : name ∈ (evaluateInOrder around order).keys) : name ∈ order.map Attribute.name := by
  by_contra hn
  have hnone : (evaluateInOrder around order).get? name = none := get?_evaluateNext_of_not_mem hn []
  exact (Entries.get?_eq_none_iff _ name).mp hnone h

/-- In the end every local has the value of its expression among all locals. -/
theorem evaluateInOrder_consistent (hn : around.keys.Nodup) {order : List Attribute}
    (hnames : (order.map Attribute.name).Nodup) (horder : order.Pairwise fun a b => ¬ a.Reads b)
    (hself : ∀ a ∈ order, ¬ a.Reads a) (hplain : ∀ a ∈ order, ∀ o ∈ a.value.occurrences, o.IsPlain)
    {a : Attribute} (ha : a ∈ order) :
    (evaluateInOrder around order).get? a.name
      = some (a.value.valueIn (among around (evaluateInOrder around order))) := by
  obtain ⟨before, after, rfl⟩ := List.append_of_mem ha
  have hlater : a.name ∉ after.map Attribute.name := by
    have := (List.nodup_append.mp (by simpa using hnames)).2.1
    exact (List.nodup_cons.mp this).1
  let done := evaluateInOrder around before
  let final := evaluateInOrder around (before ++ a :: after)
  have hfinal : final = (a :: after).foldl (evaluateNext around) done := by
    simp [final, done, evaluateInOrder]
  have hget : final.get? a.name = some (a.value.valueIn (among around done)) := by
    rw [hfinal, List.foldl_cons, get?_evaluateNext_of_not_mem hlater, evaluateNext]
    simp
  -- What `a` reads was evaluated before it, and has not changed since.
  have hsame : a.value.valueIn (among around done) = a.value.valueIn (among around final) := by
    refine Expr.valueIn_congr fun o ho => ?_
    refine read_among_congr hn (nodup_keys_evaluateInOrder _) (nodup_keys_evaluateInOrder _)
      (hplain a ha o ho) fun name hname => ?_
    have hread : name ∈ a.value.readLocals := mem_readLocals.mpr (hname ▸ ho)
    have hout : name ∉ (a :: after).map Attribute.name := by
      intro hm
      obtain ⟨b, hb, rfl⟩ := List.mem_map.mp hm
      rcases List.mem_cons.mp hb with rfl | hb
      · exact hself b ha hread
      · have := (List.pairwise_append.mp horder).2.1
        exact (List.pairwise_cons.mp this).1 b hb hread
    change Entries.get? done name = Entries.get? final name
    rw [hfinal, get?_evaluateNext_of_not_mem hout]
  change Entries.get? final a.name = _
  rw [hget, hsame]

end Locals

end InfraConfig
