import InfraConfig.Proofs.ArenaLaws

/-!
# Changes of the arena

All that evaluation does to the arena is made of few kinds of changes. Each of them concerns one module: the
scopes below the scope at its top, and the blocks that stand in them. Whatever holds of all changes holds of
every step of a run, and what a step leaves alone is said by the modules that it may concern.
-/

namespace InfraConfig

namespace Arena

/-- The scope at the top of the one that a block stands in. -/
def home (a : Arena) (id : BlockId) : ScopeId :=
  a.scopes.root (a.block id).scope

structure WellFormed (a : Arena) : Prop where
  ordered : a.scopes.Ordered
  placed : ∀ id, id < a.blocks.size → (a.block id).scope < a.scopes.size
  /-- What is inside a block is in the same module. -/
  inside : ∀ id, id < a.blocks.size → ∀ c ∈ (a.block id).children, c < a.blocks.size ∧ a.home c = a.home id

/-- One change in a module whose top satisfies `P`, or a new scope, or what is known of files. -/
inductive Change (P : ScopeId → Prop) : Arena → Arena → Prop where
  | bind {a} (scope v path) (hs : scope < a.scopes.size) (hp : P (a.scopes.root scope)) :
      Change P a (a.bind scope v path)
  | newChild {a} (parent) (hs : parent < a.scopes.size) : Change P a (a.newChild parent).2
  | newRoot {a} : Change P a a.newRoot.2
  | push {a} (b : Block) (hs : b.scope < a.scopes.size) (hp : P (a.scopes.root b.scope))
      (hc : ∀ c ∈ b.children, c < a.blocks.size ∧ a.home c = a.scopes.root b.scope) :
      Change P a (a.push b).2
  /-- A block is put into another scope of its module. -/
  | place {a} (id) (scope : ScopeId) (hid : id < a.blocks.size) (hp : P (a.home id))
      (hs : scope < a.scopes.size) (htop : a.scopes.root scope = a.home id) :
      Change P a (a.modify id fun b => { b with scope })
  /-- One more instance of a block is counted. -/
  | count {a} (id) (hid : id < a.blocks.size) (hp : P (a.home id)) :
      Change P a (a.modify id fun b => { b with clones := b.clones + 1 })
  /-- A block takes the place of a `dynamic` one. -/
  | rename {a} (id) (kind : BlockKind) (hid : id < a.blocks.size) (hp : P (a.home id)) :
      Change P a (a.modify id fun b => { b with kind, labels := [] })
  | remove {a} (id child) (hid : id < a.blocks.size) (hp : P (a.home id)) :
      Change P a (a.removeChild id child)
  | adopt {a} (id child) (hid : id < a.blocks.size) (hp : P (a.home id)) (hc : child < a.blocks.size)
      (hhome : a.home child = a.home id) :
      Change P a (a.modify id fun b => { b with children := b.children ++ [child] })
  | record {a} (sources files) (hbase : files.base = a.files.base) : Change P a { a with sources, files }

/-- Any number of changes. -/
inductive Changes (P : ScopeId → Prop) : Arena → Arena → Prop where
  | refl {a} : Changes P a a
  | tail {a b c} (hs : Changes P a b) (h : Change P b c) : Changes P a c

namespace Change

variable {P Q : ScopeId → Prop} {a b : Arena}

theorem mono (h : Change P a b) (hPQ : ∀ t, P t → Q t) : Change Q a b := by
  cases h with
  | bind scope v path hs hp => exact .bind scope v path hs (hPQ _ hp)
  | newChild parent hs => exact .newChild parent hs
  | newRoot => exact .newRoot
  | push b hs hp hc => exact .push b hs (hPQ _ hp) hc
  | place id scope hid hp hs htop => exact .place id scope hid (hPQ _ hp) hs htop
  | count id hid hp => exact .count id hid (hPQ _ hp)
  | rename id kind hid hp => exact .rename id kind hid (hPQ _ hp)
  | remove id child hid hp => exact .remove id child hid (hPQ _ hp)
  | adopt id child hid hp hc hhome => exact .adopt id child hid (hPQ _ hp) hc hhome
  | record sources files hbase => exact .record sources files hbase

/-! ## Scopes -/

theorem size_scopes_le (h : Change P a b) : a.scopes.size ≤ b.scopes.size := by
  cases h <;> simp [removeChild]

theorem parent?_eq (h : Change P a b) {id : ScopeId} (hid : id < a.scopes.size) :
    b.scopes.parent? id = a.scopes.parent? id := by
  cases h with
  | bind => exact Scopes.parent?_set _ _ _ _ id
  | newChild => rw [scopes_newChild, Scopes.parent?_push, if_neg (Nat.ne_of_lt hid)]
  | newRoot => rw [scopes_newRoot, Scopes.parent?_push, if_neg (Nat.ne_of_lt hid)]
  | _ => rfl

theorem ordered (h : Change P a b) (ha : a.scopes.Ordered) : b.scopes.Ordered := by
  cases h with
  | bind scope v path => exact ha.set scope v path
  | newChild parent hs => exact ha.push fun p hp => Option.some.inj hp ▸ hs
  | newRoot => exact ha.push fun p hp => by cases hp
  | _ => exact ha

theorem root_eq (h : Change P a b) (ha : a.scopes.Ordered) {id : ScopeId} (hid : id < a.scopes.size) :
    b.scopes.root id = a.scopes.root id :=
  Scopes.root_congr ha (h.ordered ha) fun _ hj => h.parent?_eq (Nat.lt_of_le_of_lt hj hid)

/-- Bindings of other modules stay. -/
theorem bindings_eq (h : Change P a b) {id : ScopeId} (hid : id < a.scopes.size)
    (hp : ¬ P (a.scopes.root id)) : b.scopes.bindings id = a.scopes.bindings id := by
  cases h with
  | bind scope v path hs hps =>
    refine Scopes.bindings_set_of_ne _ ?_ v path
    rintro rfl
    exact hp hps
  | newChild => rw [scopes_newChild, Scopes.bindings_push, if_neg (Nat.ne_of_lt hid)]
  | newRoot => rw [scopes_newRoot, Scopes.bindings_push, if_neg (Nat.ne_of_lt hid)]
  | _ => rfl

/-! ## Blocks -/

theorem size_blocks_le (h : Change P a b) : a.blocks.size ≤ b.blocks.size := by
  cases h <;> simp [removeChild]

/-- Blocks of other modules stay. -/
theorem block_eq (h : Change P a b) {id : BlockId} (hid : id < a.blocks.size) (hp : ¬ P (a.home id)) :
    b.block id = a.block id := by
  have hne {j : BlockId} (hj : P (a.home j)) : ¬ (id = j ∧ j < a.blocks.size) := by
    rintro ⟨rfl, -⟩
    exact hp hj
  cases h with
  | push => rw [block_push, if_neg (Nat.ne_of_lt hid)]
  | place j scope _ hj => rw [block_modify, if_neg (hne hj)]
  | count j _ hj => rw [block_modify, if_neg (hne hj)]
  | rename j kind _ hj => rw [block_modify, if_neg (hne hj)]
  | remove j child _ hj => rw [removeChild, block_modify, if_neg (hne hj)]
  | adopt j child _ hj => rw [block_modify, if_neg (hne hj)]
  | _ => rfl

/-- A block never leaves its module. -/
theorem home_eq (h : Change P a b) (ha : a.WellFormed) {id : BlockId} (hid : id < a.blocks.size) :
    b.home id = a.home id := by
  have hroot := h.root_eq ha.ordered (ha.placed id hid)
  have hsame (hscope : (b.block id).scope = (a.block id).scope) : b.home id = a.home id := by
    rw [home, home, hscope, hroot]
  cases h with
  | push => exact hsame (by rw [block_push, if_neg (Nat.ne_of_lt hid)])
  | place j scope _ _ _ htop =>
    rw [home, block_modify]
    split
    · next hj => exact hj.1 ▸ htop
    · rfl
  | count j => exact hsame (a.modify_same Block.scope j (by intro _; rfl) id)
  | rename j => exact hsame (a.modify_same Block.scope j (by intro _; rfl) id)
  | remove j => exact hsame (a.modify_same Block.scope j (by intro _; rfl) id)
  | adopt j => exact hsame (a.modify_same Block.scope j (by intro _; rfl) id)
  | _ => exact hsame rfl

/-- An existing block stays in an existing scope. -/
theorem scope_lt (h : Change P a b) (ha : a.WellFormed) {id : BlockId} (hid : id < a.blocks.size) :
    (b.block id).scope < b.scopes.size := by
  have hold := Nat.lt_of_lt_of_le (ha.placed id hid) h.size_scopes_le
  have hsame (hscope : (b.block id).scope = (a.block id).scope) : (b.block id).scope < b.scopes.size :=
    hscope ▸ hold
  cases h with
  | push => exact hsame (by rw [block_push, if_neg (Nat.ne_of_lt hid)])
  | place j scope _ _ hs _ =>
    rw [block_modify]
    split
    · exact hs
    · exact hold
  | count j => exact hsame (a.modify_same Block.scope j (by intro _; rfl) id)
  | rename j => exact hsame (a.modify_same Block.scope j (by intro _; rfl) id)
  | remove j => exact hsame (a.modify_same Block.scope j (by intro _; rfl) id)
  | adopt j => exact hsame (a.modify_same Block.scope j (by intro _; rfl) id)
  | _ => exact hold

/-- What is inside an existing block was inside before, or is adopted from the same module. -/
theorem mem_children (h : Change P a b) {id : BlockId} (hid : id < a.blocks.size) {c : BlockId}
    (hc : c ∈ (b.block id).children) :
    c ∈ (a.block id).children ∨ c < a.blocks.size ∧ a.home c = a.home id := by
  have hsame (hchildren : (b.block id).children = (a.block id).children) :
      c ∈ (a.block id).children ∨ c < a.blocks.size ∧ a.home c = a.home id := .inl (hchildren ▸ hc)
  cases h with
  | push => exact hsame (by rw [block_push, if_neg (Nat.ne_of_lt hid)])
  | place j => exact hsame (a.modify_same Block.children j (by intro _; rfl) id)
  | count j => exact hsame (a.modify_same Block.children j (by intro _; rfl) id)
  | rename j => exact hsame (a.modify_same Block.children j (by intro _; rfl) id)
  | remove j child =>
    rw [removeChild, block_modify] at hc
    split at hc
    · exact .inl (List.mem_filter.mp hc).1
    · exact .inl hc
  | adopt j child _ _ hchild hhome =>
    rw [block_modify] at hc
    split at hc
    · next hj =>
      rcases List.mem_append.mp hc with hc | hc
      · exact .inl hc
      · rw [List.mem_singleton.mp hc, hj.1]
        exact .inr ⟨hchild, hhome⟩
    · exact .inl hc
  | _ => exact .inl hc

/-- A block that was not there before has just been added. -/
theorem eq_push_of_size_le (h : Change P a b) {id : BlockId} (hid : a.blocks.size ≤ id)
    (hlt : id < b.blocks.size) : ∃ c : Block, b = (a.push c).2 ∧ id = a.blocks.size ∧
      c.scope < a.scopes.size ∧ P (a.scopes.root c.scope) ∧
      ∀ d ∈ c.children, d < a.blocks.size ∧ a.home d = a.scopes.root c.scope := by
  have hgrown : a.blocks.size < b.blocks.size := Nat.lt_of_le_of_lt hid hlt
  cases h with
  | push c hs hp hc =>
    rw [size_blocks_push] at hlt
    exact ⟨c, rfl, Nat.le_antisymm (Nat.le_of_lt_succ hlt) hid, hs, hp, hc⟩
  | _ => simp [removeChild] at hgrown

theorem wellFormed (h : Change P a b) (ha : a.WellFormed) : b.WellFormed := by
  refine ⟨h.ordered ha.ordered, fun id hid => ?_, fun id hid c hc => ?_⟩
  · by_cases hold : id < a.blocks.size
    · exact h.scope_lt ha hold
    · obtain ⟨d, rfl, rfl, hs, -, -⟩ := h.eq_push_of_size_le (Nat.le_of_not_lt hold) hid
      rw [block_push, if_pos rfl]
      exact hs
  · have hkept {c : BlockId} (hlt : c < a.blocks.size) : c < b.blocks.size :=
      Nat.lt_of_lt_of_le hlt h.size_blocks_le
    by_cases hold : id < a.blocks.size
    · have hsame : c < a.blocks.size ∧ a.home c = a.home id :=
        (h.mem_children hold hc).elim (ha.inside id hold c) fun hc => hc
      exact ⟨hkept hsame.1, by rw [h.home_eq ha hsame.1, h.home_eq ha hold, hsame.2]⟩
    · obtain ⟨d, rfl, rfl, -, -, hd⟩ := h.eq_push_of_size_le (Nat.le_of_not_lt hold) hid
      rw [block_push, if_pos rfl] at hc
      obtain ⟨hlt, hhome⟩ := hd c hc
      refine ⟨hkept hlt, ?_⟩
      rw [h.home_eq ha hlt, hhome, home, block_push, if_pos rfl, scopes_push]

theorem base_eq (h : Change P a b) : b.files.base = a.files.base := by
  cases h with
  | record sources files hbase => exact hbase
  | _ => rfl

/-- What has nothing to do with the place and the names of a block never changes. -/
theorem part_eq {β : Type} {part : Block → β} (hscope : ∀ b scope, part { b with scope } = part b)
    (hclones : ∀ b clones, part { b with clones } = part b)
    (hnames : ∀ b kind labels, part { b with kind, labels } = part b)
    (hchildren : ∀ b children, part { b with children } = part b) (h : Change P a b) {id : BlockId}
    (hid : id < a.blocks.size) : part (b.block id) = part (a.block id) := by
  cases h with
  | push => rw [block_push, if_neg (Nat.ne_of_lt hid)]
  | place j scope => exact a.modify_same part j (fun b => hscope b scope) id
  | count j => exact a.modify_same part j (fun b => hclones b (b.clones + 1)) id
  | rename j kind => exact a.modify_same part j (fun b => hnames b kind []) id
  | remove j child => exact a.modify_same part j (fun b => hchildren b (b.children.filter (· != child))) id
  | adopt j child => exact a.modify_same part j (fun b => hchildren b (b.children ++ [child])) id
  | _ => rfl

end Change

namespace Changes

variable {P Q : ScopeId → Prop} {a b c : Arena}

theorem single (h : Change P a b) : Changes P a b := .tail .refl h

theorem trans (h : Changes P a b) (k : Changes P b c) : Changes P a c := by
  induction k with
  | refl => exact h
  | tail _ h ih => exact .tail ih h

theorem mono (h : Changes P a b) (hPQ : ∀ t, P t → Q t) : Changes Q a b := by
  induction h with
  | refl => exact .refl
  | tail _ h ih => exact ih.tail (h.mono hPQ)

theorem wellFormed (h : Changes P a b) (ha : a.WellFormed) : b.WellFormed := by
  induction h with
  | refl => exact ha
  | tail _ h ih => exact h.wellFormed ih

theorem size_scopes_le (h : Changes P a b) : a.scopes.size ≤ b.scopes.size := by
  induction h with
  | refl => exact Nat.le_refl _
  | tail _ h ih => exact Nat.le_trans ih h.size_scopes_le

theorem size_blocks_le (h : Changes P a b) : a.blocks.size ≤ b.blocks.size := by
  induction h with
  | refl => exact Nat.le_refl _
  | tail _ h ih => exact Nat.le_trans ih h.size_blocks_le

theorem parent?_eq (h : Changes P a b) {id : ScopeId} (hid : id < a.scopes.size) :
    b.scopes.parent? id = a.scopes.parent? id := by
  induction h with
  | refl => rfl
  | tail hs h ih => rw [h.parent?_eq (Nat.lt_of_lt_of_le hid (size_scopes_le hs)), ih]

theorem root_eq (h : Changes P a b) (ha : a.WellFormed) {id : ScopeId} (hid : id < a.scopes.size) :
    b.scopes.root id = a.scopes.root id :=
  Scopes.root_congr ha.ordered (h.wellFormed ha).ordered fun _ hj =>
    h.parent?_eq (Nat.lt_of_le_of_lt hj hid)

theorem home_eq (h : Changes P a b) (ha : a.WellFormed) {id : BlockId} (hid : id < a.blocks.size) :
    b.home id = a.home id := by
  induction h with
  | refl => rfl
  | tail hs h ih =>
    rw [h.home_eq (wellFormed hs ha) (Nat.lt_of_lt_of_le hid (size_blocks_le hs)), ih]

theorem bindings_eq (h : Changes P a b) (ha : a.WellFormed) {id : ScopeId} (hid : id < a.scopes.size)
    (hp : ¬ P (a.scopes.root id)) : b.scopes.bindings id = a.scopes.bindings id := by
  induction h with
  | refl => rfl
  | tail hs h ih =>
    have hroot := root_eq hs ha hid
    rw [h.bindings_eq (Nat.lt_of_lt_of_le hid (size_scopes_le hs)) (hroot ▸ hp), ih]

theorem block_eq (h : Changes P a b) (ha : a.WellFormed) {id : BlockId} (hid : id < a.blocks.size)
    (hp : ¬ P (a.home id)) : b.block id = a.block id := by
  induction h with
  | refl => rfl
  | tail hs h ih =>
    have hhome := home_eq hs ha hid
    rw [h.block_eq (Nat.lt_of_lt_of_le hid (size_blocks_le hs)) (hhome ▸ hp), ih]

theorem base_eq (h : Changes P a b) : b.files.base = a.files.base := by
  induction h with
  | refl => rfl
  | tail _ h ih => rw [h.base_eq, ih]

theorem part_eq {β : Type} {part : Block → β} (hscope : ∀ b scope, part { b with scope } = part b)
    (hclones : ∀ b clones, part { b with clones } = part b)
    (hnames : ∀ b kind labels, part { b with kind, labels } = part b)
    (hchildren : ∀ b children, part { b with children } = part b) (h : Changes P a b) {id : BlockId}
    (hid : id < a.blocks.size) : part (b.block id) = part (a.block id) := by
  induction h with
  | refl => rfl
  | tail hs h ih =>
    have hlt := Nat.lt_of_lt_of_le hid (size_blocks_le hs)
    rw [h.part_eq hscope hclones hnames hchildren hlt, ih]

theorem key_eq (h : Changes P a b) {id : BlockId} (hid : id < a.blocks.size) :
    (b.block id).key = (a.block id).key :=
  h.part_eq (fun _ _ => rfl) (fun _ _ => rfl) (fun _ _ _ => rfl) (fun _ _ => rfl) hid

theorem expanded_eq (h : Changes P a b) {id : BlockId} (hid : id < a.blocks.size) :
    (b.block id).expanded = (a.block id).expanded :=
  h.part_eq (fun _ _ => rfl) (fun _ _ => rfl) (fun _ _ _ => rfl) (fun _ _ => rfl) hid

theorem attributes_eq (h : Changes P a b) {id : BlockId} (hid : id < a.blocks.size) :
    (b.block id).attributes = (a.block id).attributes :=
  h.part_eq (fun _ _ => rfl) (fun _ _ => rfl) (fun _ _ _ => rfl) (fun _ _ => rfl) hid

end Changes

end Arena

end InfraConfig
