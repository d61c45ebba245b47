import Mathlib.Logic.Function.Iterate
import InfraConfig.Proofs.GrownTrees
import InfraConfig.Proofs.ModuleTrees

/-!
# Recursions through trees

What is done in a block is left to itself for the blocks inside. On trees such a recursion comes to an end: when it
is unfolded as often as there are blocks, it never gets to what stands at the bottom, whatever that is. A tree that
waits for its turn is not made higher by what happens in others, and a copy is not higher than what it is made of.
-/

namespace InfraConfig

namespace Arena

variable {a b : Arena} {root : ScopeId} {m v xs : List BlockId} {id copy dynamic : BlockId} {n k : Nat}

/-! ## Heights of copies -/

theorem Shallow.ofBlocks (h : Shallow a n xs) (hblocks : b.blocks = a.blocks) : Shallow b n xs :=
  h.keeps (.ofBlocks hblocks)

theorem shallow_mapThrough {α β : Type} {f : Arena → α → β × Arena} {g : β → BlockId} (xs : List α)
    (hkeeps : ∀ b x, Keeps (fun _ => True) b (f b x).2)
    (hf : ∀ b, Keeps (fun _ => True) a b → ∀ x ∈ xs, Shallow (f b x).2 n [g (f b x).1]) :
    Shallow (mapThrough f a xs).2 n ((mapThrough f a xs).1.map g) := by
  have hmade := Keeps.mapThrough_all (f := f) (Q := fun b y => Shallow b n [g y]) (fun hbc hy => hy.keeps hbc)
    fun b hb x hx => ⟨hkeeps b x, hf b hb x hx⟩
  refine .of_forall fun y hy => ?_
  obtain ⟨made, hmem, rfl⟩ := List.mem_map.mp hy
  exact hmade made hmem

theorem shallow_push {d : Block} (h : Shallow a n d.children) : Shallow (a.push d).2 (n + 1) [a.blocks.size] := by
  intro x hx
  rw [List.mem_singleton.mp hx, inside, block_push, if_pos rfl]
  exact ⟨by simp, h.keeps (.ofExtends (.push a d))⟩

theorem shallow_copyUpTo (h : Shallow a n [id]) (scope : ScopeId) (depth : Nat) :
    Shallow (copyUpTo scope depth a id).2 n [(copyUpTo scope depth a id).1] := by
  induction depth generalizing a id n with
  | zero =>
    cases n with
    | zero => exact h.not_zero.elim
    | succ n => exact shallow_push (.of_forall fun _ h => absurd h List.not_mem_nil)
  | succ depth ih =>
    cases n with
    | zero => exact h.not_zero.elim
    | succ n =>
      have hinside := (h id List.mem_cons_self).2
      have hcopies := shallow_mapThrough (g := fun c => c) (a.block id).children
        (fun b c => (adds_copyUpTo scope depth b c).keeps) fun b hb c hc =>
          ih ((hinside.of_mem hc).keeps hb)
      rw [List.map_id'] at hcopies
      rw [copyUpTo]
      exact shallow_push hcopies

theorem shallow_clone (h : Shallow a n [id]) (index : Value) : Shallow (a.clone id index).2 n [(a.clone id index).1] := by
  have hplaced : Shallow (a.newChild (a.block id).scope).2 n [id] := h.ofBlocks rfl
  exact (shallow_copyUpTo hplaced _ _).keeps (keeps_clone a id index).1

theorem shallow_cloneElement (h : Shallow a n [id]) (root : ScopeId) (binding : String) (isDynamic : Bool)
    (element : Value × Value) :
    Shallow (cloneElement root id binding isDynamic a element).2 n
      [(cloneElement root id binding isDynamic a element).1] := by
  have hclone := shallow_clone h element.1
  have hblocks := blocks_cloneElement a root id binding isDynamic element
  exact hclone.ofBlocks hblocks

theorem shallow_expandElements (h : Shallow a n [id]) (root : ScopeId) :
    Shallow (expandElements root a id).2 n (expandElements root a id).1 := by
  change Shallow (Repetition.forEach.expand root a id).2 n (Repetition.forEach.expand root a id).1
  rcases (a.block id).spent_or .forEach with hspent | ⟨attr, hattr, happlies⟩
  · rw [expand_of_spent hspent]
    exact h
  · have hnoted : Shallow (a.noting (a.block id) [attr]) n [id] := h.ofBlocks rfl
    by_cases hcollection : (a.value (a.block id) attr).isIterable = true
    · have hmade := shallow_mapThrough (g := fun made => made) (a.elementsAsked id attr)
        (fun b element => (adds_cloneElement b root id (a.block id).iteratorName ((a.block id).kind == .dynamic)
          element).keeps)
        fun b hb element _ => shallow_cloneElement (hnoted.keeps hb) root _ _ element
      rw [List.map_id'] at hmade
      rw [expand_elements root hattr happlies hcollection]
      exact hmade.ofBlocks (blocks_bindAt _ _ _ _)
    · rw [expand_noCollection root hattr happlies hcollection]
      exact hnoted

/-! ## Loops -/

/-- Two ways of going on that agree on trees of a height agree in a loop over such trees. -/
theorem foldl_eq_of_shallow {f g : Arena → BlockId → Arena}
    (hstep : ∀ b x v, Walk b [x] v → Distinct b (m ++ v) → ∃ w, Regrows b (g b x) (m ++ v) w)
    (heq : ∀ b x v, Walk b [x] v → Distinct b (m ++ v) → Shallow b n [x] → f b x = g b x)
    (hwalk : Walk a xs v) (hv : Distinct a (m ++ v)) (hn : Shallow a n xs) : xs.foldl f a = xs.foldl g a := by
  induction xs generalizing a v with
  | nil => rfl
  | cons x xs ih =>
    obtain ⟨v, v', rfl, hx, hxs⟩ := hwalk.exists_cons
    rw [← List.append_assoc] at hv
    obtain ⟨w, hfirst⟩ := hstep a x v hx hv.left
    have hrest : Distinct a (m ++ v') := hv.sublist ((List.sublist_append_left m v).append_right v')
    have hone : Shallow a n [x] := hn.of_mem List.mem_cons_self
    have hothers : Shallow a n xs := hn.subset (List.subset_cons_self x xs)
    rw [List.foldl_cons, List.foldl_cons, heq a x v hx hv.left hone]
    exact ih (hfirst.walk hxs hv) (hrest.later hfirst.keeps.size) (hothers.regrows hxs hfirst hv)

/-- The same in a loop whose steps leave all blocks where they are. -/
theorem foldl_eq_of_keeps {α : Type} {f g : Arena → α → Arena} {xs : List α}
    (hkeeps : ∀ b x, Keeps (fun _ => True) b (g b x))
    (heq : ∀ b, Keeps (fun _ => True) a b → ∀ x ∈ xs, f b x = g b x) : xs.foldl f a = xs.foldl g a := by
  induction xs generalizing a with
  | nil => rfl
  | cons x xs ih =>
    rw [List.foldl_cons, List.foldl_cons, heq a .refl x List.mem_cons_self]
    exact ih fun b hb y hy => heq b ((hkeeps a x).trans hb fun _ _ _ => trivial) y (List.mem_cons_of_mem x hy)

/-! ## Rendering -/

variable {f g : Arena → BlockId → Arena}

theorem renderCopy_congr (heq : ∀ b x v, Walk b [x] v → Distinct b v → Shallow b n [x] → f b x = g b x)
    (label : String) (hwalk : Walk a [copy] v) (hv : Distinct a v) (h : Shallow a n [copy]) :
    renderCopy f id label a copy = renderCopy g id label a copy := by
  rw [renderCopy, renderCopy]
  split
  · next content hcontent =>
    have hmem : content ∈ a.inside copy := mem_of_childId? hcontent
    obtain ⟨u, hinner, hsub⟩ := hwalk.exists_of_mem (hwalk.inside_subset (hwalk.subset List.mem_cons_self) hmem)
    cases n with
    | zero => exact h.not_zero.elim
    | succ n =>
      have hbelow : Shallow a n [content] := (h copy List.mem_cons_self).2.of_mem hmem
      rw [heq a content u hinner (hv.sublist hsub) (hbelow.mono (Nat.le_succ n))]
  · rfl

theorem renderDynamic_congr (hg : ∀ b x, Grows b [x] (g b x) [x])
    (heq : ∀ b x v, Walk b [x] v → Distinct b v → Shallow b n [x] → f b x = g b x) (hwalk : Walk a [dynamic] v)
    (hv : Distinct a ([id] ++ v)) (h : Shallow a n [dynamic]) :
    renderDynamic f root id a dynamic = renderDynamic g root id a dynamic := by
  rw [renderDynamic, renderDynamic]
  split
  · rfl
  · obtain ⟨w, hmade, hdetached, -⟩ := exists_detached hwalk hv root
    have hleft : Shallow (a.removeChild id dynamic) n [dynamic] :=
      h.regrows hwalk (regrows_removeChild hv.left dynamic) hv
    have hcopies := shallow_expandElements hleft root
    rw [← expandForEach_singleton] at hcopies
    refine foldl_eq_of_shallow (fun b x u hx hu => ?_) (fun b x u hx hu hn => ?_) hmade hdetached.distinct hcopies
    · obtain ⟨ys, w', hserves, -⟩ := serves_renderCopy hg (a.block dynamic).typeLabel hx hu
      exact ⟨_, hserves.step⟩
    · exact renderCopy_congr heq _ hx hu.right hn

theorem renderInside_congr (hg : ∀ b x, Grows b [x] (g b x) [x])
    (heq : ∀ b x v, Walk b [x] v → Distinct b v → Shallow b n [x] → f b x = g b x) (hwalk : Walk a [id] v)
    (hv : Distinct a v) (h : Shallow a (n + 1) [id]) : renderInside root f a id = renderInside root g a id := by
  obtain ⟨inner, rfl, hinner⟩ := hwalk.exists_inside
  have hinside : Shallow a n (a.inside id) := (h id List.mem_cons_self).2
  rw [renderInside, renderInside, List.partition_eq_filter_filter]
  dsimp only
  let isDynamic (child : BlockId) : Bool := (a.block child).kind == .dynamic
  let plain := (a.inside id).filter (not ∘ isDynamic)
  let dynamics := (a.inside id).filter isDynamic
  obtain ⟨vp, vd, hplain, hdynamics, hperm⟩ := hinner.exists_filter isDynamic
  have hall : Distinct a ([id] ++ (vp ++ vd)) := hv.perm (hperm.append_left [id])
  have hfirst : plain.foldl f a = plain.foldl g a := by
    refine foldl_eq_of_shallow (m := []) (fun b x u hx hu => ?_) heq hplain hall.right.left
      (hinside.subset List.filter_sublist.subset)
    obtain ⟨w, -, hstep⟩ := hg b x u hx hu
    exact ⟨w, hstep⟩
  -- The dynamic children are still as high as they were when their turns come.
  obtain ⟨wp, -, hstep⟩ := Grows.foldl hg a plain vp hplain hall.right.left
  have hlater : Distinct (plain.foldl g a) ([id] ++ vd) :=
    (hall.sublist ((List.sublist_append_right vp vd).append_left [id])).later hstep.keeps.size
  have hhigh : Shallow a n dynamics := hinside.subset List.filter_sublist.subset
  have hsecond : dynamics.foldl (renderDynamic f root id) (plain.foldl g a)
      = dynamics.foldl (renderDynamic g root id) (plain.foldl g a) := by
    refine foldl_eq_of_shallow (fun b x u hx hu => ?_) (fun b x u hx hu hn => ?_) (hstep.walk hdynamics hall.right)
      hlater (hhigh.regrows hdynamics hstep hall.right)
    · obtain ⟨ys, w, hserves, -⟩ := serves_renderDynamic hg root hx hu
      exact ⟨_, hserves.step⟩
    · exact renderDynamic_congr hg heq hx hu hn
  have hboth : dynamics.foldl (renderDynamic f root id) (plain.foldl f a)
      = dynamics.foldl (renderDynamic g root id) (plain.foldl g a) := by
    rw [hfirst, hsecond]
  exact hboth

theorem iterate_renderInside (hk : n ≤ k) (stop : Arena → BlockId → Arena) (hwalk : Walk a [id] v)
    (hv : Distinct a v) (h : Shallow a n [id]) : (renderInside root)^[k] stop a id = expandDynamicUpTo root n a id := by
  induction n generalizing k a id v with
  | zero => exact h.not_zero.elim
  | succ n ih =>
    obtain ⟨k, rfl⟩ : ∃ below, k = below + 1 := ⟨k - 1, by omega⟩
    rw [Function.iterate_succ_apply', expandDynamicUpTo_succ]
    exact renderInside_congr (grows_expandDynamicUpTo root n)
      (fun b x u hx hu hn => ih (Nat.le_of_succ_le_succ hk) hx hu hn) hwalk hv h

/-! ## Scopes -/

/-- What is done to a block that is put into a scope, when all further inside is left to `inner`. -/
def rescopeInside (inner : Arena → BlockId → ScopeId → Arena) (a : Arena) (id : BlockId) (scope : ScopeId) : Arena :=
  let a := a.modify id fun b => { b with scope }
  (a.block id).children.foldl (fun a child =>
    let (below, a) := a.newChild scope
    inner a child below) a

theorem rescopeUpTo_succ (depth : Nat) : rescopeUpTo (depth + 1) = rescopeInside (rescopeUpTo depth) := by
  funext a id scope
  rw [rescopeUpTo]
  rfl

theorem iterate_rescopeInside (hk : n ≤ k) (stop : Arena → BlockId → ScopeId → Arena) (h : Shallow a n [id])
    (scope : ScopeId) : rescopeInside^[k] stop a id scope = rescopeUpTo n a id scope := by
  induction n generalizing k a id scope with
  | zero => exact h.not_zero.elim
  | succ n ih =>
    obtain ⟨k, rfl⟩ : ∃ below, k = below + 1 := ⟨k - 1, by omega⟩
    let placed := a.modify id fun b => { b with scope }
    have hplaced : Keeps (fun _ => True) a placed := .modify a id (by intro _; rfl) (by intro _; rfl)
    have hinside : Shallow placed n (placed.inside id) := (h.keeps hplaced id List.mem_cons_self).2
    have hnew (b : Arena) : Keeps (fun _ => True) b (b.newChild scope).2 := .ofBlocks rfl
    rw [Function.iterate_succ_apply', rescopeUpTo_succ, rescopeInside, rescopeInside]
    refine foldl_eq_of_keeps (fun b child => ?_) fun b hb child hchild => ?_
    · exact (hnew b).trans (keeps_rescopeUpTo n _ child _) fun _ _ _ => trivial
    · have hone : Shallow placed n [child] := hinside.of_mem hchild
      exact ih (Nat.le_of_succ_le_succ hk) ((hone.keeps hb).keeps (hnew b)) _

/-! ## Files -/

/-- The files that a block asks for, when those of all inside are told by `inner`. -/
def askedFrom (a : Arena) (inner : Block → List String) (b : Block) : List String :=
  b.attributes.flatMap (a.asked b) ++ (a.children b).flatMap inner

theorem askedInside_succ (a : Arena) (depth : Nat) : a.askedInside (depth + 1) = a.askedFrom (a.askedInside depth) := by
  funext b
  rw [askedInside]
  rfl

theorem iterate_askedFrom (hk : n ≤ k) (stop : Block → List String) (h : Shallow a n [id]) :
    a.askedFrom^[k] stop (a.block id) = a.askedInside n (a.block id) := by
  induction n generalizing k id with
  | zero => exact h.not_zero.elim
  | succ n ih =>
    obtain ⟨k, rfl⟩ : ∃ below, k = below + 1 := ⟨k - 1, by omega⟩
    have hinside : Shallow a n (a.inside id) := (h id List.mem_cons_self).2
    have hinner : (a.children (a.block id)).flatMap (a.askedFrom^[k] stop)
        = (a.children (a.block id)).flatMap (a.askedInside n) := by
      refine List.flatMap_congr fun b hb => ?_
      obtain ⟨child, hchild, rfl⟩ := List.mem_map.mp hb
      exact ih (Nat.le_of_succ_le_succ hk) (hinside.of_mem hchild)
    rw [Function.iterate_succ_apply', askedInside_succ, askedFrom, askedFrom, hinner]

/-! ## Names -/

/-- Every block is younger than the module call that loaded it. -/
def Dated (a : Arena) : Prop :=
  ∀ id : Nat, id < a.blocks.size → ∀ call : Nat, (a.block id).caller = some call → call < id

/-- The name of a block, when those of the module calls around it are told by `around`. -/
def nameFrom (a : Arena) (around : Block → String) (b : Block) : String :=
  match b.caller with
  | some call => around (a.block call) ++ "." ++ b.localName
  | none => b.localName

theorem fullNameUpTo_eq (a : Arena) (depth : Nat) : a.fullNameUpTo depth = a.nameFrom^[depth] Block.localName := by
  induction depth with
  | zero => rfl
  | succ depth ih =>
    rw [Function.iterate_succ_apply', ← ih]
    funext b
    rw [fullNameUpTo]
    rfl

theorem Dated.iterate_nameFrom (h : Dated a) {id j k : Nat} (hid : id < a.blocks.size) (hj : id < j) (hk : id < k)
    (stop other : Block → String) : a.nameFrom^[j] stop (a.block id) = a.nameFrom^[k] other (a.block id) := by
  induction id using Nat.strong_induction_on generalizing j k with
  | _ id ih =>
    obtain ⟨j, rfl⟩ : ∃ below, j = below + 1 := ⟨j - 1, by omega⟩
    obtain ⟨k, rfl⟩ : ∃ below, k = below + 1 := ⟨k - 1, by omega⟩
    rw [Function.iterate_succ_apply', Function.iterate_succ_apply', nameFrom, nameFrom]
    split
    · next call hcaller =>
      have hcall := h id hid call hcaller
      have hbelow {i : Nat} (hi : id < i + 1) : call < i := Nat.lt_of_lt_of_le hcall (Nat.le_of_lt_succ hi)
      rw [ih call hcall (Nat.lt_trans hcall hid) (hbelow hj) (hbelow hk)]
    · rfl

/-- The name of a block: the recursion through the calls around it comes to an end, and puts the name of the call in
front of that of the block. -/
structure Named (a : Arena) (id : BlockId) : Prop where
  ends : ∀ stop depth, a.blocks.size ≤ depth → a.nameFrom^[depth] stop (a.block id) = a.fullName (a.block id)
  joined : a.fullName (a.block id) = match (a.block id).caller with
    | some call => a.fullName (a.block call) ++ "." ++ (a.block id).localName
    | none => (a.block id).localName

theorem Dated.named (h : Dated a) (hid : id < a.blocks.size) : Named a id := by
  have hname (x : BlockId) : a.fullName (a.block x) = a.nameFrom^[a.blocks.size] Block.localName (a.block x) := by
    rw [fullName, fullNameUpTo_eq]
  constructor
  · intro stop depth hdepth
    rw [hname]
    exact h.iterate_nameFrom hid (Nat.lt_of_lt_of_le hid hdepth) hid stop Block.localName
  · rw [hname, h.iterate_nameFrom hid hid (Nat.lt_succ_of_lt hid) _ Block.localName, Function.iterate_succ_apply',
      nameFrom]
    split
    · next call hcaller => rw [hname]
    · rfl

/-! ## Ends -/

/-- The recursions from a block come to an end: when they are unfolded as often as there are blocks, they do not get
to what stands at the bottom. -/
structure Ends (a : Arena) (id : BlockId) : Prop where
  rendered : ∀ root stop depth, a.blocks.size ≤ depth → (renderInside root)^[depth] stop a id = a.expandDynamic root id
  rescoped : ∀ scope stop depth, a.blocks.size ≤ depth → rescopeInside^[depth] stop a id scope = a.rescope id scope
  asked : ∀ stop depth, a.blocks.size ≤ depth →
    a.askedFrom^[depth] stop (a.block id) = a.askedInside a.blocks.size (a.block id)

theorem Walk.ends (h : Walk a [id] v) (hv : Distinct a v) : Ends a id := by
  have hheight : Shallow a a.blocks.size [id] := (h.shallow hv).mono hv.length_le
  constructor
  · exact fun root stop depth hdepth => iterate_renderInside hdepth stop h hv hheight
  · exact fun scope stop depth hdepth => iterate_rescopeInside hdepth stop hheight scope
  · exact fun stop depth hdepth => iterate_askedFrom hdepth stop hheight

end Arena

end InfraConfig
