import Mathlib.Data.Set.Basic

/-!
# Stable sorting inside a set

Merge sort is stable, which pins it down: the sorted list is the only one that is in order and has
the members of each tie in the places they had before.  The comparisons used here are total
preorders only on part of their type, so all statements are about lists with members in a given set.

## Main definitions

* `OrdersOn` — a comparison is a total preorder on a set.
* `ties` — two elements compare equal.

## Main results

* `eq_mergeSort` — a list in order, with every tie as it was before, is the sorted list.
* `flatMap_mergeSort` — sorting before or after replacing each element by elements that compare as
  it does gives the same.
* `mergeSort_eq_of_perm` — without ties the sorted list depends on the members alone.
-/

namespace QueryPlanner

variable {α β : Type}

/-- A comparison is a total preorder on a set. -/
structure OrdersOn (le : α → α → Bool) (T : Set α) : Prop where
  total : ∀ a ∈ T, ∀ b ∈ T, le a b ∨ le b a
  trans : ∀ a ∈ T, ∀ b ∈ T, ∀ c ∈ T, le a b → le b c → le a c

/-- Two elements compare equal. -/
def ties (le : α → α → Bool) (a b : α) : Bool := le a b && le b a

namespace OrdersOn

variable {le : α → α → Bool} {T : Set α}

theorem refl (h : OrdersOn le T) {a : α} (ha : a ∈ T) : le a a := by
  rcases h.total a ha a ha with h | h <;> exact h

theorem mono {T' : Set α} (h : OrdersOn le T) (hT : T' ⊆ T) : OrdersOn le T' :=
  ⟨fun a ha b hb => h.total a (hT ha) b (hT hb),
    fun a ha b hb c hc => h.trans a (hT ha) b (hT hb) c (hT hc)⟩

theorem ties_self (h : OrdersOn le T) {a : α} (ha : a ∈ T) : ties le a a := by
  simp [ties, h.refl ha]

/-- Sorting a list is sorting its members in the set. -/
theorem mergeSort_attach (l : List α) :
    (l.attach.mergeSort fun a b => le a.1 b.1).map Subtype.val = l.mergeSort le := by
  have hmap : (l.attach.mergeSort fun a b => le a.1 b.1).map Subtype.val
      = (l.attach.map Subtype.val).mergeSort le := List.map_mergeSort fun _ _ _ _ => rfl
  rw [hmap, List.attach_map_subtype_val]

variable {l : List α}

theorem trans_members (h : OrdersOn le T) (hl : ∀ a ∈ l, a ∈ T) (a b c : {x // x ∈ l}) :
    le a.1 b.1 → le b.1 c.1 → le a.1 c.1 :=
  h.trans a.1 (hl _ a.2) b.1 (hl _ b.2) c.1 (hl _ c.2)

theorem total_members (h : OrdersOn le T) (hl : ∀ a ∈ l, a ∈ T) (a b : {x // x ∈ l}) :
    le a.1 b.1 || le b.1 a.1 := by
  simpa using h.total a.1 (hl _ a.2) b.1 (hl _ b.2)

/-- A sorted list is in order. -/
theorem pairwise_mergeSort (h : OrdersOn le T) (hl : ∀ a ∈ l, a ∈ T) :
    (l.mergeSort le).Pairwise fun a b => le a b := by
  rw [← mergeSort_attach, List.pairwise_map]
  exact List.pairwise_mergeSort (h.trans_members hl) (h.total_members hl) _

/-- Elements that all compare equal keep their places. -/
theorem filter_mergeSort (h : OrdersOn le T) (hl : ∀ a ∈ l, a ∈ T) {p : α → Bool}
    (hp : ∀ a ∈ l, ∀ b ∈ l, p a → p b → le a b) : (l.mergeSort le).filter p = l.filter p := by
  -- The order is total and transitive on members of the list only, so the sort is taken over those.
  have hsub : (l.attach.filter fun a => p a.1).Sublist
      (l.attach.mergeSort fun a b => le a.1 b.1) := by
    refine List.sublist_mergeSort (h.trans_members hl) (h.total_members hl) ?_ List.filter_sublist
    refine List.Pairwise.imp_of_mem ?_ (List.pairwise_of_forall fun _ _ => trivial)
    intro a b ha hb _
    exact hp a.1 a.2 b.1 b.2 (List.mem_filter.mp ha).2 (List.mem_filter.mp hb).2
  have hsub' : (l.filter p).Sublist (l.mergeSort le) := by
    have hmap := hsub.map Subtype.val
    rw [mergeSort_attach] at hmap
    have hfilter : (l.attach.filter fun a => p a.1).map Subtype.val = l.filter p := by
      conv_rhs => rw [← List.attach_map_subtype_val l, List.filter_map]
      rfl
    rwa [hfilter] at hmap
  -- One is a part of the other and they are equally long, so they are equal.
  have hfilter := hsub'.filter p
  rw [List.filter_filter] at hfilter
  simp only [Bool.and_self] at hfilter
  exact (hfilter.eq_of_length ((List.mergeSort_perm l le).filter p).length_eq.symm).symm

/-- Two lists in order that have the same ties are equal. -/
theorem eq_of_pairwise_of_filter_eq (h : OrdersOn le T) : ∀ (l₁ l₂ : List α),
    (∀ a ∈ l₁, a ∈ T) → (∀ a ∈ l₂, a ∈ T) → (l₁.Pairwise fun a b => le a b) →
    (l₂.Pairwise fun a b => le a b) →
    (∀ a ∈ l₁ ++ l₂, l₁.filter (ties le a) = l₂.filter (ties le a)) → l₁ = l₂ := by
  intro l₁
  induction l₁ with
  | nil =>
    intro l₂ _ h₂ _ _ hf
    cases l₂ with
    | nil => rfl
    | cons b t₂ =>
      have hb := hf b (by simp)
      simp [h.ties_self (h₂ b (by simp))] at hb
  | cons a t₁ ih =>
    intro l₂ h₁ h₂ hp₁ hp₂ hf
    have haT : a ∈ T := h₁ a (by simp)
    have haa : ties le a a := h.ties_self haT
    cases l₂ with
    | nil =>
      have ha := hf a (by simp)
      simp [haa] at ha
    | cons b t₂ =>
      have hbT : b ∈ T := h₂ b (by simp)
      have hbb : ties le b b := h.ties_self hbT
      -- Each head occurs in the other list, so the heads tie and stand first in their tie.
      have hab : le a b := by
        have hmem : b ∈ (a :: t₁).filter (ties le b) := by
          rw [hf b (by simp)]
          simp [hbb]
        rcases List.mem_cons.mp (List.mem_filter.mp hmem).1 with rfl | hbt
        · exact h.refl hbT
        · exact (List.pairwise_cons.mp hp₁).1 b hbt
      have hba : le b a := by
        have hmem : a ∈ (b :: t₂).filter (ties le a) := by
          rw [← hf a (by simp)]
          simp [haa]
        rcases List.mem_cons.mp (List.mem_filter.mp hmem).1 with rfl | hat
        · exact h.refl haT
        · exact (List.pairwise_cons.mp hp₂).1 a hat
      have heq : a = b := by
        have ha := hf a (by simp)
        have htab : ties le a b := by simp [ties, hab, hba]
        rw [List.filter_cons_of_pos haa, List.filter_cons_of_pos htab] at ha
        exact (List.cons.inj ha).1
      subst heq
      congr 1
      refine ih t₂ (fun c hc => h₁ c (by simp [hc])) (fun c hc => h₂ c (by simp [hc]))
        (List.pairwise_cons.mp hp₁).2 (List.pairwise_cons.mp hp₂).2 fun c hc => ?_
      have hc' := hf c (by
        rcases List.mem_append.mp hc with hc | hc <;> simp [hc])
      by_cases hca : ties le c a
      · rw [List.filter_cons_of_pos hca, List.filter_cons_of_pos hca] at hc'
        exact (List.cons.inj hc').2
      · rwa [List.filter_cons_of_neg hca, List.filter_cons_of_neg hca] at hc'

/-- All elements that tie with a given one compare equal. -/
theorem le_of_ties (h : OrdersOn le T) {a b c : α} (ha : a ∈ T) (hb : b ∈ T) (hc : c ∈ T)
    (hab : ties le a b) (hac : ties le a c) : le b c := by
  simp only [ties, Bool.and_eq_true] at hab hac
  exact h.trans b hb a ha c hc hab.2 hac.1

/-- An element ties with both or none of two that tie. -/
theorem ties_congr (h : OrdersOn le T) {a b c : α} (ha : a ∈ T) (hb : b ∈ T) (hc : c ∈ T)
    (hbc : ties le b c) : ties le a b = ties le a c := by
  simp only [ties, Bool.and_eq_true] at hbc
  rw [Bool.eq_iff_iff]
  simp only [ties, Bool.and_eq_true]
  constructor
  · rintro ⟨hab, hba⟩
    exact ⟨h.trans a ha b hb c hc hab hbc.1, h.trans c hc b hb a ha hbc.2 hba⟩
  · rintro ⟨hac, hca⟩
    exact ⟨h.trans a ha c hc b hb hac hbc.2, h.trans b hb c hc a ha hbc.1 hca⟩

theorem filter_ties_mergeSort (h : OrdersOn le T) (hl : ∀ a ∈ l, a ∈ T) {a : α} (ha : a ∈ T) :
    (l.mergeSort le).filter (ties le a) = l.filter (ties le a) :=
  h.filter_mergeSort hl fun b hb c hc hab hac => h.le_of_ties ha (hl b hb) (hl c hc) hab hac

/-- **A list in order, in which every tie is as it was before, is the sorted list.** -/
theorem eq_mergeSort (h : OrdersOn le T) (hl : ∀ a ∈ l, a ∈ T) {l' : List α}
    (hmem : ∀ a ∈ l', a ∈ l) (hp : l'.Pairwise fun a b => le a b)
    (hf : ∀ a ∈ l, l'.filter (ties le a) = l.filter (ties le a)) : l' = l.mergeSort le := by
  refine h.eq_of_pairwise_of_filter_eq _ _ (fun a ha => hl a (hmem a ha))
    (fun a ha => hl a (List.mem_mergeSort.mp ha)) hp (h.pairwise_mergeSort hl) fun a ha => ?_
  have hal : a ∈ l := by
    rcases List.mem_append.mp ha with ha | ha
    · exact hmem a ha
    · exact List.mem_mergeSort.mp ha
  rw [hf a hal, h.filter_ties_mergeSort hl (hl a hal)]

/-- **Replacing each element by elements that compare as it does commutes with sorting.** -/
theorem flatMap_mergeSort (h : OrdersOn le T) (hl : ∀ a ∈ l, a ∈ T) {le' : β → β → Bool}
    {T' : Set β} (h' : OrdersOn le' T') {f : α → List β} (hf : ∀ a ∈ l, ∀ x ∈ f a, x ∈ T')
    (hle : ∀ a ∈ l, ∀ b ∈ l, ∀ x ∈ f a, ∀ y ∈ f b, le' x y = le a b) :
    (l.mergeSort le).flatMap f = (l.flatMap f).mergeSort le' := by
  have hmem : ∀ a ∈ l.mergeSort le, a ∈ l := fun a ha => List.mem_mergeSort.mp ha
  refine h'.eq_mergeSort ?_ ?_ ?_ ?_
  · intro x hx
    obtain ⟨a, ha, hxa⟩ := List.mem_flatMap.mp hx
    exact hf a ha x hxa
  · intro x hx
    obtain ⟨a, ha, hxa⟩ := List.mem_flatMap.mp hx
    exact List.mem_flatMap.mpr ⟨a, hmem a ha, hxa⟩
  · rw [List.pairwise_flatMap]
    constructor
    · intro a ha
      refine List.pairwise_of_forall_mem_list fun x hx y hy => ?_
      rw [hle a (hmem a ha) a (hmem a ha) x hx y hy]
      exact h.refl (hl a (hmem a ha))
    · refine List.Pairwise.imp_of_mem ?_ (h.pairwise_mergeSort hl)
      intro a b ha hb hab x hx y hy
      rw [hle a (hmem a ha) b (hmem b hb) x hx y hy]
      exact hab
  · intro x hx
    obtain ⟨a, ha, hxa⟩ := List.mem_flatMap.mp hx
    -- The elements that tie with `x` come from the elements that tie with `a`.
    have hclass : ∀ m : List α, (∀ b ∈ m, b ∈ l) →
        (m.flatMap f).filter (ties le' x) = (m.filter (ties le a)).flatMap f := by
      intro m
      induction m with
      | nil => intro _; rfl
      | cons b m ih =>
        intro hm
        have hb : b ∈ l := hm b (by simp)
        have hties : ∀ y ∈ f b, ties le' x y = ties le a b := by
          intro y hy
          unfold ties
          rw [hle a ha b hb x hxa y hy, hle b hb a ha y hy x hxa]
        rw [List.flatMap_cons, List.filter_append, ih fun c hc => hm c (by simp [hc])]
        by_cases hab : ties le a b
        · rw [List.filter_cons_of_pos hab, List.flatMap_cons, List.filter_eq_self.mpr]
          intro y hy
          rw [hties y hy, hab]
        · rw [List.filter_cons_of_neg hab, List.filter_eq_nil_iff.mpr, List.nil_append]
          intro y hy
          rw [hties y hy]
          exact hab
    rw [hclass _ hmem, hclass _ fun _ h => h, h.filter_ties_mergeSort hl (hl a ha)]

/-- Dropping elements commutes with sorting. -/
theorem mergeSort_filter (h : OrdersOn le T) (hl : ∀ a ∈ l, a ∈ T) (p : α → Bool) :
    (l.mergeSort le).filter p = (l.filter p).mergeSort le := by
  -- A filter spreads each element into itself or nothing.
  have hflat : ∀ m : List α, m.filter p = m.flatMap fun a => if p a then [a] else [] := by
    intro m
    induction m with
    | nil => rfl
    | cons a m ih => rw [List.flatMap_cons, ← ih, List.filter_cons]; split <;> rfl
  have hmem : ∀ {a x : α}, x ∈ (if p a then [a] else []) → x = a := by
    intro a x hx
    split at hx
    · exact List.mem_singleton.mp hx
    · cases hx
  rw [hflat, hflat l]
  refine h.flatMap_mergeSort hl h ?_ ?_
  · intro a ha x hx
    rw [hmem hx]
    exact hl a ha
  · intro a _ b _ x hx y hy
    rw [hmem hx, hmem hy]

/-- Without ties the sorted list depends on the members alone. -/
theorem mergeSort_eq_of_perm (h : OrdersOn le T) {l' : List α} (hl : ∀ a ∈ l, a ∈ T)
    (hperm : l'.Perm l) (hne : ∀ a ∈ l, ∀ b ∈ l, le a b → le b a → a = b) :
    l'.mergeSort le = l.mergeSort le := by
  have hl' : ∀ a ∈ l', a ∈ T := fun a ha => hl a (hperm.mem_iff.mp ha)
  refine List.Perm.eq_of_pairwise ?_ (h.pairwise_mergeSort hl') (h.pairwise_mergeSort hl)
    ((List.mergeSort_perm l' le).trans (hperm.trans (List.mergeSort_perm l le).symm))
  intro a b ha hb hab hba
  exact hne a (hperm.mem_iff.mp (List.mem_mergeSort.mp ha)) b (List.mem_mergeSort.mp hb) hab hba

end OrdersOn

end QueryPlanner
