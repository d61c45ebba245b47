import Mathlib.Data.List.Forall2
import Mathlib.Data.List.Perm.Subperm
import InfraConfig.Proofs.ComparedNumbers
import InfraConfig.Proofs.EntryLaws
import InfraConfig.Proofs.DataRoundTrips

/-!
# Equality of values

Values are equal if they have the same shape and their members are equal: in a row in lists, by key in maps, and in sets
if each member of the one, which is not longer, is among those of the other. So equality is an equivalence where that of
numbers is one, and the members of sets are counted once. Plain data have no sets, and their numbers are compared as they
are: their equality is transitive, and symmetric where a key stands for one entry.
-/

namespace InfraConfig

/-! ## Items and entries side by side -/

section

variable {α : Type}

theorem forall₂_trans {r : α → α → Prop} {as bs cs : List α} (hab : List.Forall₂ r as bs)
    (hbc : List.Forall₂ r bs cs) (htrans : ∀ x ∈ as, ∀ y ∈ bs, ∀ z ∈ cs, r x y → r y z → r x z) :
    List.Forall₂ r as cs := by
  induction hab generalizing cs with
  | nil =>
    cases hbc
    exact .nil
  | cons hxy _ ih =>
    cases hbc with
    | cons hyz hbc =>
      refine .cons (htrans _ (.head _) _ (.head _) _ (.head _) hxy hyz) (ih hbc ?_)
      exact fun x hx y hy z hz => htrans x (.tail _ hx) y (.tail _ hy) z (.tail _ hz)

theorem forall₂_symm {r : α → α → Prop} {as bs : List α} (h : List.Forall₂ r as bs)
    (hsymm : ∀ x ∈ as, ∀ y ∈ bs, r x y → r y x) : List.Forall₂ r bs as := by
  induction h with
  | nil => exact .nil
  | cons hxy _ ih =>
    exact .cons (hsymm _ (.head _) _ (.head _) hxy) (ih fun x hx y hy => hsymm x (.tail _ hx) y (.tail _ hy))

/-- Each entry of the first list matches the one of the second under its key, and there are as many. -/
structure Entries.Match (r : α → α → Prop) (as bs : Entries α) : Prop where
  length_eq : as.length = bs.length
  under : ∀ e ∈ as, ∃ w, bs.get? e.1 = some w ∧ r e.2 w

namespace Entries.Match

variable {r : α → α → Prop} {as bs cs : Entries α}

theorem trans (hab : Match r as bs) (hbc : Match r bs cs)
    (htrans : ∀ x ∈ as.map (·.2), ∀ y ∈ bs.map (·.2), ∀ z ∈ cs.map (·.2), r x y → r y z → r x z) : Match r as cs where
  length_eq := hab.length_eq.trans hbc.length_eq
  under e he := by
    obtain ⟨y, hy, hxy⟩ := hab.under e he
    have hmem := mem_of_get? hy
    obtain ⟨z, hz, hyz⟩ := hbc.under _ hmem
    exact ⟨z, hz, htrans _ (List.mem_map_of_mem he) y (List.mem_map_of_mem hmem) z
      (List.mem_map_of_mem (mem_of_get? hz)) hxy hyz⟩

theorem symm (h : Match r as bs) (has : as.keys.Nodup) (hbs : bs.keys.Nodup)
    (hsymm : ∀ x ∈ as.map (·.2), ∀ y ∈ bs.map (·.2), r x y → r y x) : Match r bs as where
  length_eq := h.length_eq.symm
  under e he := by
    have hsub : as.keys ⊆ bs.keys := by
      intro k hk
      obtain ⟨e, he, rfl⟩ := List.mem_map.mp hk
      obtain ⟨w, hw, -⟩ := h.under e he
      exact mem_keys_of_get? hw
    have hperm : as.keys.Perm bs.keys :=
      (has.subperm hsub).perm_of_length_le (by simp [keys, h.length_eq])
    have hkey : e.1 ∈ as.keys := hperm.mem_iff.mpr (List.mem_map_of_mem he)
    obtain ⟨v, hv⟩ := Option.isSome_iff_exists.mp ((get?_isSome_iff as e.1).mpr hkey)
    have hmem := mem_of_get? hv
    obtain ⟨w, hw, hvw⟩ := h.under _ hmem
    obtain rfl : e.2 = w := Option.some.inj ((get?_of_mem hbs he).symm.trans hw)
    exact ⟨v, hv, hsymm v (List.mem_map_of_mem hmem) e.2 (List.mem_map_of_mem he) hvw⟩

end Entries.Match

end

namespace Value

/-! ## One step of the comparison -/

/-- Each member of the first list equals one of the second, which has as many. -/
structure SameMembers (as bs : List Value) : Prop where
  length_eq : as.length = bs.length
  among : ∀ x ∈ as, ∃ y ∈ bs, (y == x) = true

/-- Each entry of the first map equals the one of the second under its key, and there are as many. -/
structure SameEntries (as bs : Entries Value) : Prop where
  length_eq : as.length = bs.length
  under : ∀ e ∈ as, ∃ w, bs.get? e.1 = some w ∧ (e.2 == w) = true

/-- What makes two values equal: one shape, and equal members. -/
inductive Agrees : Value → Value → Prop where
  | null : Agrees .null .null
  | unknown : Agrees .unknown .unknown
  | bool (b : Bool) : Agrees (.bool b) (.bool b)
  | number {m n : Number} (h : sameNumber m n = true) : Agrees (.number m) (.number n)
  | text (s : String) : Agrees (.text s) (.text s)
  | list {as bs : List Value} (h : List.Forall₂ (fun x y => (x == y) = true) as bs) : Agrees (.list as) (.list bs)
  | set {as bs : List Value} (h : SameMembers as bs) : Agrees (.set as) (.set bs)
  | map {as bs : Entries Value} (h : SameEntries as bs) : Agrees (.map as) (.map bs)
  | object {as bs : Entries Value} (h : SameEntries as bs) : Agrees (.object as) (.object bs)

theorem beqItems_iff (as bs : List Value) :
    beqItems as bs = true ↔ List.Forall₂ (fun x y => beq x y = true) as bs := by
  induction as generalizing bs with
  | nil => cases bs <;> simp [beqItems]
  | cons x as ih =>
    cases bs with
    | nil => simp [beqItems]
    | cons y bs => rw [beqItems, Bool.and_eq_true, ih, List.forall₂_cons]

theorem beqMembers_iff (as bs : List Value) :
    beqMembers as bs = true ↔ ∀ x ∈ as, ∃ y ∈ bs, eqb x y = true := by
  induction as with
  | nil => simp [beqMembers]
  | cons x as ih => rw [beqMembers, Bool.and_eq_true, ih, List.any_eq_true, List.forall_mem_cons]

theorem hasMember_iff (as : List Value) (y : Value) : hasMember as y = true ↔ ∃ x ∈ as, beq x y = true := by
  induction as with
  | nil => simp [hasMember]
  | cons x as ih => rw [hasMember, Bool.or_eq_true, ih, List.exists_mem_cons_iff]

theorem beqEntries_iff (as bs : Entries Value) :
    beqEntries as bs = true ↔ ∀ e ∈ as, ∃ w, bs.get? e.1 = some w ∧ beq e.2 w = true := by
  induction as with
  | nil => simp [beqEntries]
  | cons e as ih =>
    obtain ⟨k, v⟩ := e
    rw [beqEntries, Bool.and_eq_true, ih, List.forall_mem_cons, Entries.get?]
    cases bs.lookup k <;> simp

theorem hasEntry_iff (as : Entries Value) (k : String) (w : Value) :
    hasEntry as k w = true ↔ ∃ v, as.get? k = some v ∧ eqb v w = true := by
  induction as with
  | nil => simp [hasEntry]
  | cons e as ih =>
    obtain ⟨j, v⟩ := e
    rw [hasEntry, Entries.get?_cons]
    by_cases h : k = j
    · simp [h]
    · rw [if_neg (by simpa using h), if_neg h, ih]

/-! ## Both sides of a comparison -/

/-- Whether comparing with a value is the same from either side. -/
def EitherSide (x : Value) : Prop :=
  ∀ y, (eqb x y = true ↔ beq y x = true) ∧ (eqb y x = true ↔ beq x y = true)

theorem eitherSide_items {as : List Value} (h : ∀ x ∈ as, EitherSide x) (bs : List Value) :
    (eqbItems as bs = true ↔ beqItems bs as = true) ∧ (eqbItems bs as = true ↔ beqItems as bs = true) := by
  induction as generalizing bs with
  | nil => cases bs <;> simp [eqbItems, beqItems]
  | cons x as ih =>
    obtain ⟨hx, has⟩ := List.forall_mem_cons.mp h
    cases bs with
    | nil => simp [eqbItems, beqItems]
    | cons y bs =>
      simp only [eqbItems, beqItems, Bool.and_eq_true]
      exact ⟨and_congr (hx y).1 (ih has bs).1, and_congr (hx y).2 (ih has bs).2⟩

theorem eitherSide_members {as : List Value} (h : ∀ x ∈ as, EitherSide x) (bs : List Value) :
    ((∀ y ∈ bs, hasMember as y = true) ↔ beqMembers bs as = true) ∧
      ((∀ x ∈ as, hasMember bs x = true) ↔ beqMembers as bs = true) := by
  simp only [beqMembers_iff, hasMember_iff]
  constructor
  · exact forall₂_congr fun y _ => exists_congr fun x => and_congr_right fun hx => (h x hx y).2.symm
  · exact forall₂_congr fun x hx => exists_congr fun y => and_congr_right fun _ => (h x hx y).1.symm

theorem eitherSide_entries {as : Entries Value} (h : ∀ x ∈ as.map (·.2), EitherSide x) (bs : Entries Value) :
    ((∀ e ∈ bs, hasEntry as e.1 e.2 = true) ↔ beqEntries bs as = true) ∧
      ((∀ e ∈ as, hasEntry bs e.1 e.2 = true) ↔ beqEntries as bs = true) := by
  simp only [beqEntries_iff, hasEntry_iff]
  constructor
  · exact forall₂_congr fun e _ => exists_congr fun x => and_congr_right fun hx =>
      (h x (List.mem_map_of_mem (Entries.mem_of_get? hx)) e.2).1
  · exact forall₂_congr fun e he => exists_congr fun y => and_congr_right fun _ =>
      (h e.2 (List.mem_map_of_mem he) y).2

/-- The comparison that goes by its first argument is the other one, turned around. -/
theorem eitherSide (a : Value) : EitherSide a := by
  induction a using Value.induction with
  | step a ih =>
    intro b
    cases a with
    | list as =>
      cases b with
      | list bs =>
        simp only [eqb, beq]
        exact eitherSide_items ih bs
      | _ => simp [eqb, beq]
    | set as =>
      cases b with
      | set bs =>
        simp only [eqb, beq, Bool.and_eq_true, List.all_eq_true]
        exact (eitherSide_members ih bs).imp (and_congr_right fun _ => ·) (and_congr_right fun _ => ·)
      | _ => simp [eqb, beq]
    | map as =>
      cases b with
      | map bs =>
        simp only [eqb, beq, Bool.and_eq_true, List.all_eq_true]
        exact (eitherSide_entries ih bs).imp (and_congr_right fun _ => ·) (and_congr_right fun _ => ·)
      | _ => simp [eqb, beq]
    | object as =>
      cases b with
      | object bs =>
        simp only [eqb, beq, Bool.and_eq_true, List.all_eq_true]
        exact (eitherSide_entries ih bs).imp (and_congr_right fun _ => ·) (and_congr_right fun _ => ·)
      | _ => simp [eqb, beq]
    | _ => cases b <;> simp [eqb, beq]

/-! ## What equality says -/

theorem sameMembers_iff (as bs : List Value) :
    (as.length == bs.length && beqMembers as bs) = true ↔ SameMembers as bs := by
  rw [Bool.and_eq_true, beq_iff_eq, beqMembers_iff]
  constructor
  · rintro ⟨hlength, hamong⟩
    refine ⟨hlength, fun x hx => ?_⟩
    obtain ⟨y, hy, heq⟩ := hamong x hx
    exact ⟨y, hy, (eitherSide x y).1.mp heq⟩
  · rintro ⟨hlength, hamong⟩
    refine ⟨hlength, fun x hx => ?_⟩
    obtain ⟨y, hy, heq⟩ := hamong x hx
    exact ⟨y, hy, (eitherSide x y).1.mpr heq⟩

theorem sameEntries_iff (as bs : Entries Value) :
    (as.length == bs.length && beqEntries as bs) = true ↔ SameEntries as bs := by
  rw [Bool.and_eq_true, beq_iff_eq, beqEntries_iff]
  exact ⟨fun h => ⟨h.1, h.2⟩, fun h => ⟨h.1, h.2⟩⟩

theorem beq_iff_agrees {a b : Value} : (a == b) = true ↔ Agrees a b := by
  change beq a b = true ↔ Agrees a b
  constructor
  · intro h
    cases a with
    | null => cases b <;> simp [beq] at h; exact .null
    | unknown => cases b <;> simp [beq] at h; exact .unknown
    | bool p =>
      cases b <;> simp [beq] at h
      exact h ▸ .bool p
    | number m =>
      cases b <;> simp only [beq, Bool.false_eq_true] at h
      exact .number h
    | text s =>
      cases b <;> simp [beq] at h
      exact h ▸ .text s
    | list as =>
      cases b <;> simp only [beq, Bool.false_eq_true] at h
      exact .list ((beqItems_iff _ _).mp h)
    | set as =>
      cases b <;> simp only [beq, Bool.false_eq_true] at h
      exact .set ((sameMembers_iff _ _).mp h)
    | map as =>
      cases b <;> simp only [beq, Bool.false_eq_true] at h
      exact .map ((sameEntries_iff _ _).mp h)
    | object as =>
      cases b <;> simp only [beq, Bool.false_eq_true] at h
      exact .object ((sameEntries_iff _ _).mp h)
  · intro h
    cases h with
    | null => rw [beq]
    | unknown => rw [beq]
    | bool p => rw [beq, beq_self_eq_true]
    | number h => rwa [beq]
    | text s => rw [beq, beq_self_eq_true]
    | list h => rwa [beq, beqItems_iff]
    | set h => rwa [beq, sameMembers_iff]
    | map h => rwa [beq, sameEntries_iff]
    | object h => rwa [beq, sameEntries_iff]

/-! ## What values are made of -/

/-- What is held as a value: its integers have 64 bits, and its keys differ. -/
def IsHeld : Value → Prop
  | .number n => n.IsHeld
  | .map es => (Entries.keys es).Nodup
  | .object es => (Entries.keys es).Nodup
  | _ => True

/-- Whether a value is the number that is none. -/
def isNaN : Value → Bool
  | .number n => n.isNaN
  | _ => false

/-- Whether a value is a number over which equality is not transitive. -/
def Bridges : Value → Prop
  | .number n => n.Bridges
  | _ => False

/-- Whether the members of a set differ. -/
def CountsOnce : Value → Prop
  | .set items => items.Pairwise fun x y => (x == y) = false
  | _ => True

/-! ## Equality in one step -/

theorem Agrees.refl {a : Value} (hmembers : ∀ x ∈ a.members, (x == x) = true) (ha : a.IsHeld) (hnan : a.isNaN = false) :
    Agrees a a := by
  have hentries (es : Entries Value) (hes : ∀ x ∈ es.map (·.2), (x == x) = true) (hkeys : es.keys.Nodup) :
      SameEntries es es :=
    ⟨rfl, fun e he => ⟨e.2, Entries.get?_of_mem hkeys he, hes e.2 (List.mem_map_of_mem he)⟩⟩
  cases a with
  | null => exact .null
  | unknown => exact .unknown
  | bool b => exact .bool b
  | number n => exact .number (sameNumber_self_iff.mpr hnan)
  | text s => exact .text s
  | list items => exact .list (List.forall₂_same.mpr hmembers)
  | set items => exact .set ⟨rfl, fun x hx => ⟨x, hx, hmembers x hx⟩⟩
  | map es => exact .map (hentries es hmembers ha)
  | object es => exact .object (hentries es hmembers ha)

theorem sameEntries_iff_match {as bs : Entries Value} :
    SameEntries as bs ↔ Entries.Match (fun x y => (x == y) = true) as bs :=
  ⟨fun h => ⟨h.length_eq, h.under⟩, fun h => ⟨h.length_eq, h.under⟩⟩

theorem SameEntries.trans {as bs cs : Entries Value} (hab : SameEntries as bs) (hbc : SameEntries bs cs)
    (htrans : ∀ x ∈ as.map (·.2), ∀ y ∈ bs.map (·.2), ∀ z ∈ cs.map (·.2), (x == y) = true → (y == z) = true →
      (x == z) = true) : SameEntries as cs :=
  sameEntries_iff_match.mpr ((sameEntries_iff_match.mp hab).trans (sameEntries_iff_match.mp hbc) htrans)

theorem Agrees.trans {a b c : Value} (hab : Agrees a b) (hbc : Agrees b c)
    (htrans : ∀ x ∈ a.members, ∀ y ∈ b.members, ∀ z ∈ c.members, (x == y) = true → (y == z) = true → (x == z) = true)
    (htrans' : ∀ z ∈ c.members, ∀ y ∈ b.members, ∀ x ∈ a.members, (z == y) = true → (y == x) = true → (z == x) = true)
    (ha : a.IsHeld) (hb : b.IsHeld) (hc : c.IsHeld) (hbridge : ¬ b.Bridges) : Agrees a c := by
  cases hab with
  | null => exact hbc
  | unknown => exact hbc
  | bool => exact hbc
  | text => exact hbc
  | number hab =>
    cases hbc with
    | number hbc => exact .number (sameNumber_trans hab hbc ha hb hc hbridge)
  | list hab =>
    cases hbc with
    | list hbc => exact .list (forall₂_trans hab hbc htrans)
  | set hab =>
    cases hbc with
    | set hbc =>
      refine .set ⟨hab.length_eq.trans hbc.length_eq, fun x hx => ?_⟩
      obtain ⟨y, hy, hyx⟩ := hab.among x hx
      obtain ⟨z, hz, hzy⟩ := hbc.among y hy
      exact ⟨z, hz, htrans' z hz y hy x hx hzy hyx⟩
  | map hab =>
    cases hbc with
    | map hbc => exact .map (hab.trans hbc htrans)
  | object hab =>
    cases hbc with
    | object hbc => exact .object (hab.trans hbc htrans)

/-- If each item has a partner in a list of the same length, and no two items have a common one, then each item of the
other list is a partner. -/
theorem exists_partner {r : Value → Value → Prop} {as bs : List Value} (hlength : as.length = bs.length)
    (hpartner : ∀ x ∈ as, ∃ y ∈ bs, r x y) (hown : as.Pairwise fun x x' => ∀ y ∈ bs, r x y → ¬ r x' y) :
    ∀ y ∈ bs, ∃ x ∈ as, r x y := by
  induction as generalizing bs with
  | nil =>
    obtain rfl := List.length_eq_zero_iff.mp hlength.symm
    exact fun _ h => absurd h List.not_mem_nil
  | cons x as ih =>
    obtain ⟨hx, has⟩ := List.pairwise_cons.mp hown
    obtain ⟨y, hy, hxy⟩ := hpartner x (.head _)
    obtain ⟨before, after, rfl⟩ := List.append_of_mem hy
    have hmem (z : Value) : z ∈ before ++ y :: after ↔ z = y ∨ z ∈ before ++ after := by
      rw [List.perm_middle.mem_iff, List.mem_cons]
    -- The partner of the first item is taken out, and no other item loses its partner.
    have hpartner' (x' : Value) (hx' : x' ∈ as) : ∃ z ∈ before ++ after, r x' z := by
      obtain ⟨z, hz, hxz⟩ := hpartner x' (.tail _ hx')
      rcases (hmem z).mp hz with rfl | hz
      · exact absurd hxz (hx x' hx' z hy hxy)
      · exact ⟨z, hz, hxz⟩
    have hlength' : as.length = (before ++ after).length := by
      rw [List.perm_middle.length_eq] at hlength
      exact Nat.succ.inj hlength
    have hown' : as.Pairwise fun x x' => ∀ z ∈ before ++ after, r x z → ¬ r x' z :=
      has.imp fun h z hz => h z ((hmem z).mpr (.inr hz))
    intro z hz
    rcases (hmem z).mp hz with rfl | hz
    · exact ⟨x, .head _, hxy⟩
    · obtain ⟨x', hx', hxz⟩ := ih hlength' hpartner' hown' z hz
      exact ⟨x', .tail _ hx', hxz⟩

theorem SameMembers.symm {as bs : List Value} (h : SameMembers as bs)
    (hdistinct : as.Pairwise fun x y => (x == y) = false)
    (hsymm : ∀ x ∈ as, ∀ y ∈ bs, (x == y) = true ↔ (y == x) = true)
    (htrans : ∀ x ∈ as, ∀ y ∈ bs, ∀ x' ∈ as, (x == y) = true → (y == x') = true → (x == x') = true) :
    SameMembers bs as where
  length_eq := h.length_eq.symm
  among y hy := by
    have hown : as.Pairwise fun x x' => ∀ y ∈ bs, (y == x) = true → ¬ (y == x') = true := by
      refine hdistinct.imp_of_mem fun {x x'} hx hx' hne y hy hyx hyx' => ?_
      have heq := htrans x hx y hy x' hx' ((hsymm x hx y hy).mpr hyx) hyx'
      rw [hne] at heq
      cases heq
    obtain ⟨x, hx, hyx⟩ := exists_partner h.length_eq h.among hown y hy
    exact ⟨x, hx, (hsymm x hx y hy).mpr hyx⟩

theorem SameEntries.symm {as bs : Entries Value} (h : SameEntries as bs) (has : as.keys.Nodup) (hbs : bs.keys.Nodup)
    (hsymm : ∀ x ∈ as.map (·.2), ∀ y ∈ bs.map (·.2), (x == y) = true → (y == x) = true) : SameEntries bs as :=
  sameEntries_iff_match.mpr ((sameEntries_iff_match.mp h).symm has hbs hsymm)

theorem Agrees.symm {a b : Value} (h : Agrees a b)
    (hsymm : ∀ x ∈ a.members, ∀ y ∈ b.members, (x == y) = true ↔ (y == x) = true)
    (htrans : ∀ x ∈ a.members, ∀ y ∈ b.members, ∀ x' ∈ a.members, (x == y) = true → (y == x') = true → (x == x') = true)
    (ha : a.IsHeld) (hb : b.IsHeld) (honce : a.CountsOnce) : Agrees b a := by
  have hforward (x : Value) (hx : x ∈ a.members) (y : Value) (hy : y ∈ b.members) := (hsymm x hx y hy).mp
  cases h with
  | null => exact .null
  | unknown => exact .unknown
  | bool b => exact .bool b
  | text s => exact .text s
  | number h => exact .number (sameNumber_symm h ha hb)
  | list h => exact .list (forall₂_symm h hforward)
  | set h => exact .set (h.symm honce hsymm htrans)
  | map h => exact .map (h.symm ha hb hforward)
  | object h => exact .object (h.symm ha hb hforward)

/-! ## Equality of all there is in values -/

/-- What values are made of whose equality is an equivalence. -/
structure IsRegular (v : Value) : Prop where
  held : v.IsHeld
  not_bridges : ¬ v.Bridges
  countsOnce : v.CountsOnce

theorem beq_self {a : Value} (h : Throughout (fun w => w.IsHeld ∧ w.isNaN = false) a) : (a == a) = true := by
  induction a using Value.induction with
  | step a ih =>
    obtain ⟨⟨hheld, hnan⟩, hmembers⟩ := throughout_iff.mp h
    exact beq_iff_agrees.mpr (.refl (fun x hx => ih x hx (hmembers x hx)) hheld hnan)

theorem beq_trans {a b c : Value} (hab : (a == b) = true) (hbc : (b == c) = true) (ha : Throughout IsHeld a)
    (hb : Throughout (fun w => w.IsHeld ∧ ¬ w.Bridges) b) (hc : Throughout IsHeld c) : (a == c) = true := by
  induction b using Value.induction generalizing a c with
  | step b ih =>
    obtain ⟨ha, hamembers⟩ := throughout_iff.mp ha
    obtain ⟨⟨hb, hbridge⟩, hbmembers⟩ := throughout_iff.mp hb
    obtain ⟨hc, hcmembers⟩ := throughout_iff.mp hc
    refine beq_iff_agrees.mpr ((beq_iff_agrees.mp hab).trans (beq_iff_agrees.mp hbc) ?_ ?_ ha hb hc hbridge)
    · exact fun x hx y hy z hz hxy hyz => ih y hy hxy hyz (hamembers x hx) (hbmembers y hy) (hcmembers z hz)
    · exact fun z hz y hy x hx hzy hyx => ih y hy hzy hyx (hcmembers z hz) (hbmembers y hy) (hamembers x hx)

theorem beq_trans_of_isRegular {a b c : Value} (hab : (a == b) = true) (hbc : (b == c) = true)
    (ha : Throughout IsRegular a) (hb : Throughout IsRegular b) (hc : Throughout IsRegular c) : (a == c) = true :=
  beq_trans hab hbc (fun w hw => (ha w hw).held) (fun w hw => ⟨(hb w hw).held, (hb w hw).not_bridges⟩)
    (fun w hw => (hc w hw).held)

theorem beq_comm_iff {a b : Value} (ha : Throughout IsRegular a) (hb : Throughout IsRegular b) :
    (a == b) = true ↔ (b == a) = true := by
  induction a using Value.induction generalizing b with
  | step a ih =>
    obtain ⟨ha, hamembers⟩ := throughout_iff.mp ha
    obtain ⟨hb, hbmembers⟩ := throughout_iff.mp hb
    have hsymm (x : Value) (hx : x ∈ a.members) (y : Value) (hy : y ∈ b.members) :
        (x == y) = true ↔ (y == x) = true := ih x hx (hamembers x hx) (hbmembers y hy)
    rw [beq_iff_agrees, beq_iff_agrees]
    constructor
    · refine fun h => h.symm hsymm ?_ ha.held hb.held ha.countsOnce
      exact fun x hx y hy x' hx' hxy hyx =>
        beq_trans_of_isRegular hxy hyx (hamembers x hx) (hbmembers y hy) (hamembers x' hx')
    · refine fun h => h.symm (fun y hy x hx => (hsymm x hx y hy).symm) ?_ hb.held ha.held hb.countsOnce
      exact fun y hy x hx y' hy' hyx hxy =>
        beq_trans_of_isRegular hyx hxy (hbmembers y hy) (hamembers x hx) (hbmembers y' hy')

theorem number_beq (m n : Number) : (number m == number n) = sameNumber m n := by
  change beq (number m) (number n) = sameNumber m n
  rw [beq]

/-- Equality of values is reflexive where every number is one, symmetric where besides the members of each set are
counted once, and transitive over values without a number that is rounded into the integers of 64 bits with a sign. Two
integers are equal if they are the same, and also if one of them needs all 64 bits and both are rounded to the same; so
those right above `2 ^ 63`, and no others, are equal to two that differ. -/
theorem beq_laws (a b c : Value) (m : Number) (i j : Int) :
    (Throughout (fun w => w.IsHeld ∧ w.isNaN = false) a → (a == a) = true) ∧
    ((number m == number m) = true ↔ m.isNaN = false) ∧
    (Throughout IsRegular a → Throughout IsRegular b → (a == b) = true → (b == a) = true) ∧
    (Throughout IsHeld a → Throughout (fun w => w.IsHeld ∧ ¬ w.Bridges) b → Throughout IsHeld c →
      (a == b) = true → (b == c) = true → (a == c) = true) ∧
    ((int i == int j) = true ↔ i = j ∨ (int64Limit ≤ max i j ∧ Binary64.roundInt i = Binary64.roundInt j)) ∧
    (Number.inRange i = true →
      ((int i).Bridges ↔ int64Limit ≤ i ∧ i ≤ int64Limit + 1024) ∧
      ((int i).Bridges ↔ ∃ k l : Int, Number.inRange k = true ∧ Number.inRange l = true ∧ (int k == int i) = true
        ∧ (int i == int l) = true ∧ (int k == int l) = false)) := by
  refine ⟨beq_self, ?_, fun ha hb => (beq_comm_iff ha hb).mp, fun ha hb hc hab hbc => beq_trans hab hbc ha hb hc, ?_,
    fun hi => ⟨Number.bridges_int_iff hi, ?_⟩⟩
  · rw [number_beq]
    exact sameNumber_self_iff
  · rw [int, int, number_beq]
    exact sameNumber_int_iff i j
  · simp only [int, number_beq]
    exact bridges_int_iff_exists hi

/-- Sets of a number and a map in either order, and the last integers of 64 bits. -/
theorem beq_laws_numberAndMap :
    let a := Value.set [.int 1, .map [("k", .text "x")]]
    let b := Value.set [.map [("k", .text "x")], .int 1]
    (a == a) = true ∧ (b == a) = true ∧ (b == b) = true ∧
      (Value.int 18446744073709551615 == .int 18446744073709551614) = true ∧
      ¬ (Value.int 18446744073709551615).Bridges := by
  intro a b
  have hset (x y : Value) (hne : (x == y) = false) (hx : Throughout (fun w => w.IsRegular ∧ w.isNaN = false) x)
      (hy : Throughout (fun w => w.IsRegular ∧ w.isNaN = false) y) :
      Throughout (fun w => w.IsRegular ∧ w.isNaN = false) (.set [x, y]) :=
    throughout_iff.mpr ⟨⟨⟨trivial, id, by simpa [CountsOnce] using hne⟩, rfl⟩, by simp [members, hx, hy]⟩
  have hone : Throughout (fun w => w.IsRegular ∧ w.isNaN = false) (.int 1) := by
    have hbridge : ¬ (Value.int 1).Bridges := by simp [Bridges, int, Number.Bridges, Number.int64?, int64Limit]
    have hheld : Number.inRange 1 = true := by decide
    exact throughout_iff.mpr ⟨⟨⟨hheld, hbridge, trivial⟩, rfl⟩, by simp [members, int]⟩
  have htext : Throughout (fun w => w.IsRegular ∧ w.isNaN = false) (.text "x") :=
    throughout_iff.mpr ⟨⟨⟨trivial, id, trivial⟩, rfl⟩, by simp [members]⟩
  have hmap : Throughout (fun w => w.IsRegular ∧ w.isNaN = false) (.map [("k", .text "x")]) := by
    have hkeys : (Entries.keys [("k", Value.text "x")]).Nodup := by decide
    exact throughout_iff.mpr ⟨⟨⟨hkeys, id, trivial⟩, rfl⟩, by simp [members, htext]⟩
  have ha : Throughout (fun w => w.IsRegular ∧ w.isNaN = false) a := hset _ _ (by decide +kernel) hone hmap
  have hb : Throughout (fun w => w.IsRegular ∧ w.isNaN = false) b := hset _ _ (by decide +kernel) hmap hone
  have hab : (a == b) = true := by decide +kernel
  obtain ⟨hself, -, hsymm, -, hint, hbridges⟩ := beq_laws a b a (.int 0) 18446744073709551615 18446744073709551614
  have hba : (b == a) = true := hsymm (fun w hw => (ha w hw).1) (fun w hw => (hb w hw).1) hab
  obtain ⟨-, -, -, htrans, -⟩ := beq_laws b a b (.int 0) 0 0
  refine ⟨hself fun w hw => ⟨(ha w hw).1.held, (ha w hw).2⟩, hba, ?_, ?_, ?_⟩
  · exact htrans (fun w hw => (hb w hw).1.held) (fun w hw => ⟨(ha w hw).1.held, (ha w hw).1.not_bridges⟩)
      (fun w hw => (hb w hw).1.held) hba hab
  · exact hint.mpr (.inr ⟨by decide, by decide⟩)
  · exact mt (hbridges (by decide)).1.mp (by decide)

/-- A set that names a member twice equals a set of the same size with that member, but not the other way around. -/
example : (Value.set [.int 1, .int 1] == .set [.int 1, .int 2]) = true
    ∧ (Value.set [.int 1, .int 2] == .set [.int 1, .int 1]) = false := by decide +kernel

/-- Two integers are equal to `2 ^ 63`, but not to each other. -/
example : (Value.int 9223372036854775806 == .int 9223372036854775808) = true
    ∧ (Value.int 9223372036854775808 == .int 9223372036854775807) = true
    ∧ (Value.int 9223372036854775806 == .int 9223372036854775807) = false := by decide +kernel

end Value

/-! ## Equality of data -/

namespace Number

theorem int_beq (m n : Int) : (int m == int n) = (m == n) := rfl

theorem float_beq (x y : Float) : (float x == float y) = (x == y) := rfl

instance : PartialEquivBEq Number where
  symm {a b} h := by
    cases a <;> cases b <;> try cases h
    all_goals
      simp only [int_beq, float_beq] at h ⊢
      exact PartialEquivBEq.symm h
  trans {a b c} hab hbc := by
    cases a <;> cases b <;> try cases hab
    all_goals
      cases c <;> try cases hbc
      simp only [int_beq, float_beq] at hab hbc ⊢
      exact PartialEquivBEq.trans hab hbc

end Number

namespace Datum

/-- The data right inside a list or an object. -/
def members : Datum → List Datum
  | .list items => items
  | .object es => es.map (·.2)
  | _ => []

/-- What holds of a datum if it holds of its members holds of every datum. -/
@[elab_as_elim]
theorem induction {p : Datum → Prop} (step : ∀ d, (∀ x ∈ d.members, p x) → p d) (d : Datum) : p d := by
  have hnone : ∀ x ∈ ([] : List Datum), p x := fun _ h => absurd h List.not_mem_nil
  exact @Datum.rec p (fun items => ∀ x ∈ items, p x) (fun es => ∀ e ∈ es, p e.2) (fun e => p e.2)
    (step _ hnone) (fun _ => step _ hnone) (fun _ => step _ hnone) (fun _ => step _ hnone)
    (fun _ h => step _ h) (fun _ h => step _ (List.forall_mem_map.mpr h)) hnone
    (fun _ _ hx hrest => List.forall_mem_cons.mpr ⟨hx, hrest⟩) (fun _ h => absurd h List.not_mem_nil)
    (fun _ _ he hrest => List.forall_mem_cons.mpr ⟨he, hrest⟩) (fun _ _ h => h) d

/-- What makes two data equal: one shape, and equal members. -/
inductive Agrees : Datum → Datum → Prop where
  | null : Agrees .null .null
  | bool (b : Bool) : Agrees (.bool b) (.bool b)
  | number {m n : Number} (h : (m == n) = true) : Agrees (.number m) (.number n)
  | text (s : String) : Agrees (.text s) (.text s)
  | list {as bs : List Datum} (h : List.Forall₂ (fun x y => (x == y) = true) as bs) : Agrees (.list as) (.list bs)
  | object {as bs : Entries Datum} (h : Entries.Match (fun x y => (x == y) = true) as bs) :
    Agrees (.object as) (.object bs)

theorem beqItems_iff (as bs : List Datum) :
    beqItems as bs = true ↔ List.Forall₂ (fun x y => (x == y) = true) as bs := by
  induction as generalizing bs with
  | nil => cases bs <;> simp [beqItems]
  | cons x as ih =>
    cases bs with
    | nil => simp [beqItems]
    | cons y bs =>
      rw [beqItems, Bool.and_eq_true, ih, List.forall₂_cons]
      rfl

theorem beqEntries_iff (as bs : Entries Datum) :
    beqEntries as bs = true ↔ ∀ e ∈ as, ∃ w, bs.get? e.1 = some w ∧ (e.2 == w) = true := by
  induction as with
  | nil => simp [beqEntries]
  | cons e as ih =>
    obtain ⟨k, v⟩ := e
    rw [beqEntries, Bool.and_eq_true, ih, List.forall_mem_cons, Entries.get?]
    cases bs.lookup k
    · simp
    · simp only [Option.some.injEq, exists_eq_left']
      rfl

theorem beq_iff_agrees {a b : Datum} : (a == b) = true ↔ Agrees a b := by
  change beq a b = true ↔ Agrees a b
  constructor
  · intro h
    cases a with
    | null => cases b <;> simp [beq] at h; exact .null
    | bool p =>
      cases b <;> simp [beq] at h
      exact h ▸ .bool p
    | number m =>
      cases b <;> simp only [beq, Bool.false_eq_true] at h
      exact .number h
    | text s =>
      cases b <;> simp [beq] at h
      exact h ▸ .text s
    | list as =>
      cases b <;> simp only [beq, Bool.false_eq_true] at h
      exact .list ((beqItems_iff _ _).mp h)
    | object as =>
      cases b <;> simp only [beq, Bool.false_eq_true, Bool.and_eq_true, beq_iff_eq] at h
      exact .object ⟨h.1, (beqEntries_iff _ _).mp h.2⟩
  · intro h
    cases h with
    | null => rw [beq]
    | bool p => rw [beq, beq_self_eq_true]
    | number h => rwa [beq]
    | text s => rw [beq, beq_self_eq_true]
    | list h => rwa [beq, beqItems_iff]
    | object h => rw [beq, Bool.and_eq_true, beq_iff_eq, beqEntries_iff]; exact ⟨h.length_eq, h.under⟩

/-- Equality of data is transitive. -/
theorem beq_trans {a b c : Datum} (hab : (a == b) = true) (hbc : (b == c) = true) : (a == c) = true := by
  induction b using Datum.induction generalizing a c with
  | step b ih =>
    rw [beq_iff_agrees] at hab hbc ⊢
    cases hab with
    | null => exact hbc
    | bool => exact hbc
    | text => exact hbc
    | number hab =>
      cases hbc with
      | number hbc => exact .number (PartialEquivBEq.trans hab hbc)
    | list hab =>
      cases hbc with
      | list hbc => exact .list (forall₂_trans hab hbc fun _ _ y hy _ _ => ih y hy)
    | object hab =>
      cases hbc with
      | object hbc => exact .object (hab.trans hbc fun _ _ y hy _ _ => ih y hy)

/-- Whether the keys of a datum differ, if it is an object, and the keys of every object in it. -/
inductive HasDistinctKeys : Datum → Prop where
  | mk {d : Datum} (keys : ∀ es, d = .object es → (Entries.keys es).Nodup)
    (members : ∀ x ∈ d.members, HasDistinctKeys x) : HasDistinctKeys d

/-- Equality of data is symmetric if a key stands for one entry. -/
theorem beq_symm {a b : Datum} (ha : a.HasDistinctKeys) (hb : b.HasDistinctKeys) (h : (a == b) = true) :
    (b == a) = true := by
  induction a using Datum.induction generalizing b with
  | step a ih =>
    obtain ⟨hakeys, hamembers⟩ := ha
    obtain ⟨hbkeys, hbmembers⟩ := hb
    rw [beq_iff_agrees] at h ⊢
    cases h with
    | null => exact .null
    | bool b => exact .bool b
    | text s => exact .text s
    | number h => exact .number (PartialEquivBEq.symm h)
    | list h => exact .list (forall₂_symm h fun x hx y hy => ih x hx (hamembers x hx) (hbmembers y hy))
    | object h =>
      exact .object (h.symm (hakeys _ rfl) (hbkeys _ rfl) fun x hx y hy => ih x hx (hamembers x hx) (hbmembers y hy))

end Datum

end InfraConfig
