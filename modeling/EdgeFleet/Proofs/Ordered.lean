import EdgeFleet.Ordered

namespace EdgeFleet.Ordered

variable {κ : Type u} {α : Type v} [Ord κ]

theorem get?_cons_of_ne [Std.LawfulEqOrd κ] {k j : κ} (hne : j ≠ k) {a : α} {rest : List (κ × α)} :
    get? j ((k, a) :: rest) = get? j rest := by
  have hj : (compare j k).isEq = false := by
    cases h : compare j k with
    | eq => exact absurd (Std.LawfulEqOrd.compare_eq_iff_eq.mp h) hne
    | lt => rfl
    | gt => rfl
  simp [get?, hj]

theorem ne_of_compare_lt [Std.LawfulEqOrd κ] {k j : κ} (h : compare k j = .lt) : k ≠ j := by
  rintro rfl
  rw [Std.LawfulEqOrd.compare_eq_iff_eq.mpr rfl] at h
  cases h

section Ascending

variable [Std.LawfulEqOrd κ] {k j : κ} {keys : List κ}

theorem Ascending.head_ne (h : Ascending (k :: keys)) : ∀ j ∈ keys, k ≠ j := by
  intro j hj
  exact ne_of_compare_lt (Ordering.isLT_iff_eq_lt.mp ((List.pairwise_cons.mp h).1 j hj))

theorem Ascending.below_ne [Std.TransOrd κ] (h : Ascending (j :: keys)) (hk : compare k j = .lt) :
    ∀ i ∈ j :: keys, k ≠ i := by
  intro i hi
  rcases List.mem_cons.mp hi with rfl | hi
  · exact ne_of_compare_lt hk
  · have hji := Ordering.isLT_iff_eq_lt.mp ((List.pairwise_cons.mp h).1 i hi)
    exact ne_of_compare_lt (Std.TransCmp.lt_trans hk hji)

end Ascending

theorem get?_eq_none [Std.LawfulEqOrd κ] {k : κ} {pairs : List (κ × α)}
    (h : ∀ p ∈ pairs, k ≠ p.1) : get? k pairs = none := by
  induction pairs with
  | nil => rfl
  | cons p rest ih =>
    rw [get?_cons_of_ne (h p List.mem_cons_self)]
    exact ih fun q hq => h q (List.mem_cons_of_mem p hq)

/-- A map holds just the pairs that are found by their keys. -/
theorem mem_iff_get? [Std.LawfulEqOrd κ] {m : List (κ × α)} (hm : Ascending (m.map (·.1))) {k : κ}
    {a : α} : (k, a) ∈ m ↔ get? k m = some a := by
  induction m with
  | nil => simp
  | cons p rest ih =>
    obtain ⟨j, b⟩ := p
    by_cases hk : k = j
    · subst hk
      have hnot : (k, a) ∉ rest := fun h => hm.head_ne k (List.mem_map_of_mem h) rfl
      have hget : get? k ((k, b) :: rest) = some b := by simp [get?]
      rw [hget, List.mem_cons, or_iff_left hnot, Prod.mk.injEq, Option.some.injEq]
      exact ⟨fun h => h.2.symm, fun h => ⟨rfl, h.symm⟩⟩
    · have hne : (k, a) ≠ (j, b) := fun h => hk (congrArg Prod.fst h)
      rw [get?_cons_of_ne hk, List.mem_cons, or_iff_right hne]
      exact ih (List.pairwise_cons.mp hm).2

/-- What is in a map after an insertion is what was inserted, or was there before. -/
theorem mem_of_mem_insert {k : κ} {a : α} {m : List (κ × α)} {p : κ × α}
    (h : p ∈ insert k a m) : p = (k, a) ∨ p ∈ m := by
  induction m with
  | nil => exact Or.inl (List.mem_singleton.mp h)
  | cons q rest ih =>
    obtain ⟨k', a'⟩ := q
    rw [insert] at h
    cases hk : compare k k' with
    | lt =>
      rw [hk] at h
      exact List.mem_cons.mp h
    | eq =>
      rw [hk] at h
      exact (List.mem_cons.mp h).imp_right (List.mem_cons_of_mem _)
    | gt =>
      rw [hk] at h
      rcases List.mem_cons.mp h with rfl | h
      · exact Or.inr List.mem_cons_self
      · exact (ih h).imp_right (List.mem_cons_of_mem _)

section Visit

variable {μ : Type w → Type w'} [Monad μ] {β : Type w}

/-- What a step makes of the value under a key, if there is one. -/
def visit (put : β → κ → α → μ β) (pairs : List (κ × α)) (b : β) (k : κ) : μ β :=
  match get? k pairs with
  | none => pure b
  | some a => put b k a

variable [Std.LawfulEqOrd κ]

/-- A pair whose key is not among those looked up is as good as none. -/
theorem foldlM_visit_cons {put : β → κ → α → μ β} {ks : List κ} {p : κ × α}
    (h : ∀ k ∈ ks, p.1 ≠ k) (rest : List (κ × α)) (b : β) :
    ks.foldlM (visit put (p :: rest)) b = ks.foldlM (visit put rest) b := by
  induction ks generalizing b with
  | nil => rfl
  | cons k ks ih =>
    simp only [List.foldlM_cons, visit, get?_cons_of_ne (h k List.mem_cons_self).symm]
    exact bind_congr fun c => ih (fun j hj => h j (List.mem_cons_of_mem k hj)) c

variable [LawfulMonad μ] [Std.TransOrd κ]

/-- The pairs of a map may be looked up one by one, by ascending keys among which are all that count. -/
theorem foldlM_eq_visit {put : β → κ → α → μ β} {ks : List κ} (hks : Ascending ks)
    {pairs : List (κ × α)} (hpairs : Ascending (pairs.map (·.1)))
    (hput : ∀ p ∈ pairs, p.1 ∉ ks → ∀ b, put b p.1 p.2 = pure b) (b : β) :
    pairs.foldlM (fun b p => put b p.1 p.2) b = ks.foldlM (visit put pairs) b := by
  induction pairs generalizing ks b with
  | nil =>
    clear hks hput
    induction ks generalizing b with
    | nil => rfl
    | cons k ks ih =>
      rw [List.foldlM_cons, visit, get?_nil, pure_bind]
      exact ih b
  | cons p rest ih =>
    have hrest := (List.pairwise_cons.mp hpairs).2
    -- the pairs and the keys are merged: what comes first goes first
    induction ks generalizing b with
    | nil =>
      rw [List.foldlM_cons, hput p List.mem_cons_self List.not_mem_nil, pure_bind]
      exact ih hks hrest (fun q hq => hput q (List.mem_cons_of_mem p hq)) b
    | cons k ks ihk =>
      have hks' := (List.pairwise_cons.mp hks).2
      cases hc : compare p.1 k with
      | lt =>
        have hnot : ∀ j ∈ k :: ks, p.1 ≠ j := hks.below_ne hc
        rw [List.foldlM_cons, hput p List.mem_cons_self (fun hp => hnot _ hp rfl), pure_bind,
          foldlM_visit_cons hnot]
        exact ih hks hrest (fun q hq => hput q (List.mem_cons_of_mem p hq)) b
      | eq =>
        obtain rfl : p.1 = k := Std.LawfulEqOrd.compare_eq_iff_eq.mp hc
        have hvisit : visit put (p :: rest) b p.1 = put b p.1 p.2 := by simp [visit, get?]
        rw [List.foldlM_cons, List.foldlM_cons, hvisit]
        refine bind_congr fun c => ?_
        rw [foldlM_visit_cons hks.head_ne]
        refine ih hks' hrest (fun q hq hnot => hput q (List.mem_cons_of_mem p hq) fun hmem => ?_) c
        rcases List.mem_cons.mp hmem with he | hmem
        · exact hpairs.head_ne q.1 (List.mem_map_of_mem hq) he.symm
        · exact hnot hmem
      | gt =>
        have hnot : ∀ q ∈ p :: rest, k ≠ q.1 := by
          intro q hq
          exact hpairs.below_ne (Std.OrientedCmp.lt_of_gt hc) q.1 (List.mem_map_of_mem hq)
        rw [List.foldlM_cons (l := ks), visit, get?_eq_none hnot, pure_bind]
        refine ihk hks' (fun q hq hnotin => hput q hq fun hmem => ?_) b
        rcases List.mem_cons.mp hmem with he | hmem
        · exact hnot q hq he.symm
        · exact hnotin hmem

end Visit

end EdgeFleet.Ordered
