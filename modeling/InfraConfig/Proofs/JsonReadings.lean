import InfraConfig.Block.Attribute
import InfraConfig.Proofs.JsonParts
import InfraConfig.Sources.Directory
import InfraConfig.Sources.Variables

/-!
# What JSON values mean

A JSON value is read in two ways: as an expression where it stands in a configuration document, and as the value of a
variable where it stands in a variable file. Without interpolations in its texts both give the same.
-/

namespace InfraConfig

/-! ## Literal values as expressions -/

open JsonValue

/-! ### Numbers -/

theorem int64?_natural (n : UInt64) :
    (JsonNumeral.natural n).int64? = some n.toNat ∨ (JsonNumeral.natural n).int64? = none := by
  rw [JsonNumeral.int64?]
  split
  · exact .inl rfl
  · exact .inr rfl

/-- A number in an expression is the number itself, whichever of its readings applies. -/
theorem eval_ofJsonNumeral (env : Environment) (n : JsonNumeral) : (Expr.ofJsonNumeral n).eval env = .ok n.datum := by
  cases n with
  | natural n =>
    rcases int64?_natural n with h | h <;> (rw [Expr.ofJsonNumeral, h]; rfl)
  | negative n => rfl
  | fraction x =>
    cases h : Number.ofFloat? x <;>
      simp [Expr.ofJsonNumeral, JsonNumeral.int64?, JsonNumeral.nat64?, JsonNumeral.toFloat, h, Expr.eval,
        JsonNumeral.datum, Datum.ofFloat]

theorem ofJsonNumeral_eq (n : JsonNumeral) : Value.ofJsonNumeral n = .ofDatum n.datum := by
  cases n with
  | natural n =>
    rcases int64?_natural n with h | h <;> (rw [Value.ofJsonNumeral, h]; rfl)
  | negative n => rfl
  | fraction x =>
    cases h : Number.ofFloat? x <;>
      simp [Value.ofJsonNumeral, JsonNumeral.int64?, JsonNumeral.nat64?, JsonNumeral.toFloat, h, Value.ofFloat,
        JsonNumeral.datum, Datum.ofFloat, Value.ofDatum]

/-! ### Evaluation -/

mutual

/-- The expression of a value without interpolations evaluates to its plain data, whatever is in scope. -/
theorem eval_ofJson (env : Environment) :
    ∀ v : JsonValue, v.AllParts IsLiteralText List.Nodup → (Expr.ofJson v).eval env = .ok v.datum
  | .null, _ => rfl
  | .bool _, _ => rfl
  | .number n, _ => eval_ofJsonNumeral env n
  | .text s, h => by
    rw [Expr.ofJson, show containsText s "$\x7b" = false from h]
    rfl
  | .list items, h => by
    rw [Expr.ofJson, Expr.eval, evalItems_itemsOfJson env items h]
    rfl
  | .object entries, h => by
    rw [Expr.ofJson, Expr.eval, evalEntries_entriesOfJson env entries [] h.1 h.2]
    rfl

theorem evalItems_itemsOfJson (env : Environment) :
    ∀ items : List JsonValue, AllItems IsLiteralText List.Nodup items →
      evalItems env (itemsOfJson items) = .ok (itemData items)
  | [], _ => rfl
  | v :: rest, h => by
    rw [itemsOfJson, evalItems, eval_ofJson env v h.1, evalItems_itemsOfJson env rest h.2]
    rfl

/-- Entries with keys of their own are put behind those that are there. -/
theorem evalEntries_entriesOfJson (env : Environment) :
    ∀ (entries : List (String × JsonValue)) (acc : Entries Datum), (acc.keys ++ Entries.keys entries).Nodup →
      AllEntries IsLiteralText List.Nodup entries →
      evalEntries env acc (entriesOfJson entries) = .ok (acc ++ entryData entries)
  | [], acc, _, _ => by
    rw [entriesOfJson, evalEntries, entryData, List.append_nil]
  | (k, v) :: rest, acc, hkeys, h => by
    have hnew : k ∉ acc.keys := fun hk => (List.nodup_append.mp hkeys).2.2 k hk k List.mem_cons_self rfl
    have hnext : (Entries.keys (acc ++ [(k, v.datum)]) ++ Entries.keys rest).Nodup := by
      simpa [Entries.keys] using hkeys
    have hrest := evalEntries_entriesOfJson env rest (acc ++ [(k, v.datum)]) hnext h.2
    rw [entriesOfJson, evalEntries, Key.eval, Expr.eval, eval_ofJson env v h.1]
    simpa [bind, Except.bind, keyText, Entries.put_of_not_mem hnew, entryData] using hrest

end

section

variable {keys : List String → Prop}

mutual

/-- A value without interpolations calls nothing. -/
theorem mentionsFiles_ofJson : ∀ v : JsonValue, v.AllParts IsLiteralText keys → (Expr.ofJson v).mentionsFiles = false
  | .null, _ => rfl
  | .bool _, _ => rfl
  | .number n, _ => by
    simp only [Expr.ofJson, Expr.ofJsonNumeral]
    repeat' split
    all_goals rfl
  | .text s, h => by
    rw [Expr.ofJson, show containsText s "$\x7b" = false from h]
    rfl
  | .list items, h => anyMentionsFiles_itemsOfJson items h
  | .object entries, h => entriesMentionFiles_entriesOfJson entries h.2

theorem anyMentionsFiles_itemsOfJson : ∀ items : List JsonValue, AllItems IsLiteralText keys items →
    anyMentionsFiles (itemsOfJson items) = false
  | [], _ => rfl
  | v :: rest, h => Bool.or_eq_false_iff.mpr ⟨mentionsFiles_ofJson v h.1, anyMentionsFiles_itemsOfJson rest h.2⟩

theorem entriesMentionFiles_entriesOfJson : ∀ entries : List (String × JsonValue),
    AllEntries IsLiteralText keys entries → entriesMentionFiles (entriesOfJson entries) = false
  | [], _ => rfl
  | (_, v) :: rest, h =>
    Bool.or_eq_false_iff.mpr ⟨mentionsFiles_ofJson v h.1, entriesMentionFiles_entriesOfJson rest h.2⟩

end

end

mutual

/-- The value of a variable that JSON stands for is its plain data as a value. -/
theorem ofJson_eq : ∀ v : JsonValue, Value.ofJson v = .ofDatum v.datum
  | .null => rfl
  | .bool _ => rfl
  | .number n => ofJsonNumeral_eq n ▸ rfl
  | .text _ => rfl
  | .list items => congrArg Value.list (valuesOfJson_eq items)
  | .object entries => congrArg Value.object (bindingsOfJson_eq entries)

theorem valuesOfJson_eq : ∀ items : List JsonValue, valuesOfJson items = Value.ofDatumItems (itemData items)
  | [] => rfl
  | v :: rest => by rw [valuesOfJson, itemData, Value.ofDatumItems, ofJson_eq v, valuesOfJson_eq rest]

theorem bindingsOfJson_eq : ∀ entries : List (String × JsonValue),
    bindingsOfJson entries = Value.ofDatumEntries (entryData entries)
  | [] => rfl
  | (k, v) :: rest => by rw [bindingsOfJson, entryData, Value.ofDatumEntries, ofJson_eq v, bindingsOfJson_eq rest]

end

/-- Where it stands in a block, a value without interpolations is the value that a variable file gives for it. -/
theorem Arena.evaluate_ofJson (a : Arena) (scope : ScopeId) {v : JsonValue} (hkeys : v.HasDistinctKeys)
    (h : v.IsLiteral) : a.evaluate scope (.ofJson v) = .ok (.ofJson v) := by
  have hdatum : (Expr.ofJson v).eval (a.scopes.environment scope) = .ok v.datum :=
    eval_ofJson _ v (AllParts.mix h hkeys)
  rw [evaluate, Expr.evalWithFiles, mentionsFiles_ofJson v h, if_neg Bool.false_ne_true, hdatum, ofJson_eq]

/-! ## Documents and variable files -/

theorem bindingsOfJson_eq_map (entries : List (String × JsonValue)) :
    bindingsOfJson entries = entries.map fun e => (e.1, Value.ofJson e.2) := by
  induction entries with
  | nil => rfl
  | cons e rest ih => rw [bindingsOfJson, ih]; rfl

theorem keys_bindingsOfJson (entries : Entries JsonValue) : Entries.keys (bindingsOfJson entries) = entries.keys := by
  simp [bindingsOfJson_eq_map, Entries.keys]

theorem mem_bindingsOfJson {entries : List (String × JsonValue)} {k : String} {v : JsonValue} (h : (k, v) ∈ entries) :
    (k, Value.ofJson v) ∈ bindingsOfJson entries :=
  bindingsOfJson_eq_map entries ▸ List.mem_map.mpr ⟨(k, v), h, rfl⟩

/-- The text of a variable file that gives a variable a value. -/
def GivesVariable (source name : String) (v : JsonValue) : Prop :=
  ∃ inputs, Json.read? source = some (.object inputs) ∧ (name, v) ∈ inputs

/-- A variable file gives each variable the value of the JSON under its name. -/
theorem GivesVariable.loadVariables {source name : String} {v : JsonValue} (h : GivesVariable source name v)
    {l : Loader} {path : String} (hload : l.load path = .ok source) (hjson : endsWithText path ".json" = true) :
    ∃ entries, l.loadVariables path = .ok entries ∧ entries.get? name = some (.ofJson v.sortKeys) := by
  obtain ⟨inputs, hread, hmem⟩ := h
  refine ⟨bindingsOfJson (sortedEntries inputs), ?_, ?_⟩
  · rw [Loader.loadVariables, hload]
    dsimp only
    rw [if_pos hjson, hread]
    rfl
  · have hkeys : (Entries.keys (bindingsOfJson (sortedEntries inputs))).Nodup := by
      rw [keys_bindingsOfJson]
      exact (keys_sortedEntries inputs).symm.nodup (Json.hasDistinctKeys_of_read? hread).1
    exact Entries.get?_of_mem hkeys (mem_bindingsOfJson (mem_sortedEntries hmem))

namespace JsonValue

/-- A body among those of a value: the object that it is, or one of the objects in a list. -/
def HasBody (body : Entries JsonValue) : JsonValue → Prop
  | .object entries => entries = body
  | .list items => .object body ∈ items
  | _ => False

theorem HasBody.sortKeys {body : Entries JsonValue} {v : JsonValue} (h : HasBody body v) :
    HasBody (sortedEntries body) v.sortKeys := by
  cases v with
  | object entries => exact congrArg sortedEntries h
  | list items =>
    change JsonValue.object (sortedEntries body) ∈ sortKeysItems items
    rw [sortKeysItems_eq_map]
    exact List.mem_map.mpr ⟨.object body, h, rfl⟩
  | _ => cases h

theorem HasBody.nodup_keys {body : Entries JsonValue} {v : JsonValue} (h : HasBody body v)
    (hkeys : v.HasDistinctKeys) : body.keys.Nodup := by
  cases v with
  | object entries =>
    obtain rfl := h
    exact hkeys.1
  | list items => exact (allItems_iff.mp hkeys _ h).1
  | _ => cases h

end JsonValue

namespace Document

variable {range : SourceRange} {kind : String} {labels : List String}

/-- The tree of a block with a body. -/
def treeOf (range : SourceRange) (kind : String) (labels : List String) (body : Entries JsonValue) : BlockTree :=
  .node kind labels (attributes range kind body) (childTrees range kind body) range

theorem treeOf_mem_trees {body : Entries JsonValue} {v : JsonValue} (h : v.HasBody body) :
    treeOf range kind labels body ∈ trees range kind labels 0 v := by
  cases v with
  | object entries =>
    obtain rfl := h
    exact List.mem_singleton_self _
  | list items =>
    change treeOf range kind labels body ∈ bodyTrees range kind labels items
    replace h : JsonValue.object body ∈ items := h
    induction items with
    | nil => cases h
    | cons item rest ih =>
      rcases List.mem_cons.mp h with rfl | hrest
      · exact List.mem_cons_self
      · have hmem := ih hrest
        cases item with
        | object _ => exact List.mem_cons_of_mem _ hmem
        | _ => exact hmem
  | _ => cases h

theorem mem_labelTrees {depth : Nat} {entries : List (String × JsonValue)} {label : String} {v : JsonValue}
    {tree : BlockTree} (h : (label, v) ∈ entries) (htree : tree ∈ trees range kind (labels ++ [label]) depth v) :
    tree ∈ labelTrees range kind labels depth entries := by
  induction entries with
  | nil => cases h
  | cons e rest ih =>
    obtain ⟨j, w⟩ := e
    rw [labelTrees]
    rcases List.mem_cons.mp h with heq | hrest
    · obtain ⟨rfl, rfl⟩ := Prod.mk.inj heq
      exact List.mem_append_left _ htree
    · exact List.mem_append_right _ (ih hrest)

/-- The attribute of a key in a body. -/
theorem find?_attributes {body : Entries JsonValue} (hkeys : body.keys.Nodup) {key : String} {v : JsonValue}
    (h : (key, v) ∈ body) (hkey : childLabels? kind key = none) :
    (attributes range kind body).find? (·.name == key) = some ⟨key, .ofJson v, range⟩ := by
  induction body with
  | nil => cases h
  | cons e rest ih =>
    obtain ⟨j, w⟩ := e
    obtain ⟨hj, hrest⟩ := List.nodup_cons.mp hkeys
    rcases List.mem_cons.mp h with heq | hmem
    · obtain ⟨rfl, rfl⟩ := Prod.mk.inj heq
      simp [attributes, hkey]
    · have hne : j ≠ key := by
        rintro rfl
        exact hj (List.mem_map.mpr ⟨(j, v), hmem, rfl⟩)
      have hfind := ih hrest hmem
      rw [attributes] at hfind ⊢
      cases hchild : childLabels? kind j <;> simp [hchild, hne, hfind]

/-- The text of a document that gives a variable a default. -/
def HasDefault (source name : String) (v : JsonValue) : Prop :=
  ∃ top declared declaration body, Json.read? source = some (.object top)
    ∧ ("variable", .object declared) ∈ top ∧ (name, declaration) ∈ declared
    ∧ declaration.HasBody body ∧ ("default", v) ∈ body

/-- The default of a variable is an attribute of a block for it. -/
theorem HasDefault.readDocument {source name : String} {v : JsonValue} (h : HasDefault source name v) (path : String) :
    ∃ trees attrs children range, InfraConfig.readDocument path source = .ok trees
      ∧ .node "variable" [name] attrs children range ∈ trees
      ∧ attrs.find? (·.name == "default") = some ⟨"default", .ofJson v.sortKeys, range⟩ := by
  obtain ⟨top, declared, declaration, body, hread, hdeclared, hname, hbody, hdefault⟩ := h
  let range : SourceRange := ⟨path, 1, (LineIndex.ofText source).lineCount⟩
  let written := sortedEntries body
  refine ⟨_, attributes range "variable" written, childTrees range "variable" written, range,
    by rw [InfraConfig.readDocument, hread]; rfl, ?_, ?_⟩
  · have htree : treeOf range "variable" [name] written
        ∈ trees range "variable" [] 1 (.object (sortedEntries declared)) :=
      mem_labelTrees (mem_sortedEntries hname) (treeOf_mem_trees hbody.sortKeys)
    exact List.mem_flatMap.mpr ⟨_, mem_sortedEntries hdeclared, htree⟩
  · have hvalues : declaration.HasDistinctKeys := by
      have htop := allEntries_iff.mp (Json.hasDistinctKeys_of_read? hread).2 _ hdeclared
      exact allEntries_iff.mp htop.2 _ hname
    have hkeys : written.keys.Nodup := (keys_sortedEntries body).symm.nodup (hbody.nodup_keys hvalues)
    exact find?_attributes hkeys (mem_sortedEntries hdefault) rfl

end Document

/-! ## Main result -/

/-- The two readings of JSON agree. Where it stands in a configuration document, a value without interpolations has the
value that a variable file gives for it, in every scope; so a variable has the same value by its default in a document
as it is given it in a variable file. -/
theorem json_readings_agree {v : JsonValue} (hkeys : v.HasDistinctKeys) (hliteral : v.IsLiteral) :
    (∀ (a : Arena) (scope : ScopeId), a.evaluate scope (.ofJson v) = .ok (.ofJson v))
      ∧ ∀ (document values name file path : String) (l : Loader), Document.HasDefault document name v →
        GivesVariable values name v → l.load path = .ok values → endsWithText path ".json" = true →
        ∃ trees attrs children range inputs, readDocument file document = .ok trees
          ∧ .node "variable" [name] attrs children range ∈ trees ∧ l.loadVariables path = .ok inputs
          ∧ ∀ b : Block, b.labels = [name] → b.attributes = attrs →
            (∃ attr w, b.attribute? "default" = some attr ∧ inputs.get? name = some w
              ∧ ∀ a : Arena, a.evaluate b.scope attr.value = .ok w)
            ∧ ∀ r r' : ModuleRun, r.inputs.get? name = none → r'.inputs.get? name = inputs.get? name →
              r.variableValue b = r'.variableValue b := by
  refine ⟨fun a scope => a.evaluate_ofJson scope hkeys hliteral, ?_⟩
  intro document values name file path l hdefault hgives hload hjson
  obtain ⟨trees, attrs, children, range, htrees, htree, hattr⟩ := hdefault.readDocument file
  obtain ⟨inputs, hinputs, hvalue⟩ := hgives.loadVariables hload hjson
  refine ⟨trees, attrs, children, range, inputs, htrees, htree, hinputs, fun b hlabels hattrs => ?_⟩
  have hfound : b.attribute? "default" = some ⟨"default", .ofJson v.sortKeys, range⟩ := by
    rw [Block.attribute?, hattrs, hattr]
  have heval (a : Arena) : a.evaluate b.scope (.ofJson v.sortKeys) = .ok (.ofJson v.sortKeys) :=
    a.evaluate_ofJson b.scope hkeys.sortKeys hliteral.sortKeys
  refine ⟨⟨_, _, hfound, hvalue, heval⟩, fun r r' hr hr' => ?_⟩
  have hlabel : b.typeLabel = name := by rw [Block.typeLabel, hlabels, List.headD_cons]
  rw [ModuleRun.variableValue, ModuleRun.variableValue, hlabel, hr, hr', hvalue, hfound]
  dsimp only
  rw [Arena.resolve, heval]
  rfl

/-- Numbers at the ends of their ranges, with a text and a key that look like templates. -/
def lookalikes : JsonValue :=
  .object [("$\x7ba\x7d", .list [.number (.natural 18446744073709551615), .number (.negative (-5)),
    .text "%\x7b if b \x7d"])]

def lookalikesText : String :=
  "\x7b\"$\x7ba\x7d\": [18446744073709551615, -5, \"%\x7b if b \x7d\"]\x7d"

/-- A document in which they are the default of a variable. -/
def lookalikesDocument : String :=
  "\x7b\"variable\": \x7b\"x\": \x7b\"default\": " ++ lookalikesText ++ "\x7d\x7d\x7d"

/-- A variable file in which they are the value of the variable. -/
def lookalikesValues : String :=
  "\x7b\"x\": " ++ lookalikesText ++ "\x7d"

def lookalikesLoader : Loader :=
  ⟨fun _ => .ok lookalikesValues, fun _ => .ok []⟩

theorem json_readings_agree_lookalikes :
    lookalikes.HasDistinctKeys ∧ lookalikes.IsLiteral
      ∧ (∀ (a : Arena) (scope : ScopeId), a.evaluate scope (.ofJson lookalikes)
        = .ok (.object [("$\x7ba\x7d", .list [.int 18446744073709551615, .int (-5), .text "%\x7b if b \x7d"])]))
      ∧ ∃ trees attrs children range inputs w, readDocument "/p/a.tf.json" lookalikesDocument = .ok trees
        ∧ .node "variable" ["x"] attrs children range ∈ trees
        ∧ lookalikesLoader.loadVariables "/p/a.tfvars.json" = .ok inputs ∧ inputs.get? "x" = some w := by
  have hliteral : IsLiteralText "%\x7b if b \x7d" := show containsText _ _ = false by decide +kernel
  have hkeys : lookalikes.HasDistinctKeys := ⟨by decide, ⟨trivial, trivial, trivial, trivial⟩, trivial⟩
  have hdocument : Document.HasDefault lookalikesDocument "x" lookalikes :=
    ⟨[("variable", .object [("x", .object [("default", lookalikes)])])], [("x", .object [("default", lookalikes)])],
      .object [("default", lookalikes)], [("default", lookalikes)], by with_unfolding_all rfl, List.mem_singleton_self _,
      List.mem_singleton_self _, rfl, List.mem_singleton_self _⟩
  have hvalues : GivesVariable lookalikesValues "x" lookalikes :=
    ⟨[("x", lookalikes)], by with_unfolding_all rfl, List.mem_singleton_self _⟩
  have hplain : lookalikes.IsLiteral := ⟨trivial, ⟨trivial, trivial, hliteral, trivial⟩, trivial⟩
  obtain ⟨heval, hsame⟩ := json_readings_agree hkeys hplain
  obtain ⟨trees, attrs, children, range, inputs, htrees, htree, hinputs, hblock⟩ :=
    hsame lookalikesDocument lookalikesValues "x" "/p/a.tf.json" "/p/a.tfvars.json" lookalikesLoader hdocument hvalues
      rfl (by decide +kernel)
  obtain ⟨⟨attr, w, -, hw, -⟩, -⟩ := hblock { (default : Block) with labels := ["x"], attributes := attrs } rfl rfl
  have hvalue : Value.ofJson lookalikes = .object [("$\x7ba\x7d", .list [.int 18446744073709551615, .int (-5),
      .text "%\x7b if b \x7d"])] := by
    rw [ofJson_eq]
    rfl
  exact ⟨hkeys, hplain, fun a scope => hvalue ▸ heval a scope, trees, attrs, children, range, inputs, w, htrees, htree,
    hinputs, hw⟩

end InfraConfig
