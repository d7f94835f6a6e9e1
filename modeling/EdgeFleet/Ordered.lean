namespace EdgeFleet.Ordered

variable {κ : Type u} {α : Type v} [Ord κ]

/-- The value under `k`, in a map whose pairs stand in ascending order of their keys. -/
def get? (k : κ) : List (κ × α) → Option α
  | [] => none
  | (k', a) :: rest => if (compare k k').isEq then some a else get? k rest

/-- The map with `a` under `k`, in place of the value that was there. -/
def insert (k : κ) (a : α) : List (κ × α) → List (κ × α)
  | [] => [(k, a)]
  | (k', a') :: rest =>
    match compare k k' with
    | .lt => (k, a) :: (k', a') :: rest
    | .eq => (k, a) :: rest
    | .gt => (k', a') :: insert k a rest

/-- The map of the pairs in order; a later pair of a key replaces an earlier one. -/
def ofList (pairs : List (κ × α)) : List (κ × α) :=
  pairs.foldl (fun m (k, a) => insert k a m) []

/-- The set with `k` in it. -/
def add (k : κ) : List κ → List κ
  | [] => [k]
  | k' :: rest =>
    match compare k k' with
    | .lt => k :: k' :: rest
    | .eq => k' :: rest
    | .gt => k' :: add k rest

/-- Whether the keys ascend. -/
def Ascending (keys : List κ) : Prop :=
  keys.Pairwise fun a b => (compare a b).isLT = true

@[simp] theorem get?_nil (k : κ) : get? k ([] : List (κ × α)) = none := rfl

theorem get?_insert_self [Std.LawfulEqOrd κ] (k : κ) (a : α) (m : List (κ × α)) :
    get? k (insert k a m) = some a := by
  induction m with
  | nil => simp [insert, get?]
  | cons p rest ih =>
    obtain ⟨k', a'⟩ := p
    cases h : compare k k' <;> simp [insert, get?, h, ih]

theorem get?_insert_of_ne [Std.LawfulEqOrd κ] {k j : κ} (hne : j ≠ k) (a : α)
    (m : List (κ × α)) : get? j (insert k a m) = get? j m := by
  have hj : (compare j k).isEq = false := by
    cases h : compare j k with
    | eq => exact absurd (Std.LawfulEqOrd.compare_eq_iff_eq.mp h) hne
    | lt => rfl
    | gt => rfl
  induction m with
  | nil => simp [insert, get?, hj]
  | cons p rest ih =>
    obtain ⟨k', a'⟩ := p
    cases h : compare k k' with
    | lt => simp [insert, get?, h, hj]
    | gt => simp [insert, get?, h, ih]
    | eq =>
      have hk : k = k' := Std.LawfulEqOrd.compare_eq_iff_eq.mp h
      subst hk
      simp [insert, get?, hj]

theorem mem_add [Std.LawfulEqOrd κ] {k j : κ} {s : List κ} : j ∈ add k s ↔ j = k ∨ j ∈ s := by
  induction s with
  | nil => simp [add]
  | cons k' rest ih =>
    cases h : compare k k' with
    | lt => simp [add, h]
    | gt => simp [add, h, ih, or_left_comm]
    | eq =>
      have hk : k = k' := Std.LawfulEqOrd.compare_eq_iff_eq.mp h
      subst hk
      simp [add]

theorem mem_keys_insert [Std.LawfulEqOrd κ] {k j : κ} {a : α} {m : List (κ × α)} :
    j ∈ (insert k a m).map (·.1) ↔ j = k ∨ j ∈ m.map (·.1) := by
  induction m with
  | nil => simp [insert]
  | cons p rest ih =>
    obtain ⟨k', a'⟩ := p
    cases h : compare k k' with
    | lt => simp [insert, h]
    | gt =>
      simp only [insert, h, List.map_cons, List.mem_cons, ih]
      exact or_left_comm
    | eq =>
      have hk : k = k' := Std.LawfulEqOrd.compare_eq_iff_eq.mp h
      subst hk
      simp [insert]

theorem ascending_add [Std.TransOrd κ] [Std.LawfulEqOrd κ] (k : κ) {s : List κ}
    (hs : Ascending s) : Ascending (add k s) := by
  induction s with
  | nil => simp [add, Ascending]
  | cons k' rest ih =>
    have hrest := List.pairwise_cons.mp hs
    cases h : compare k k' with
    | eq => simpa [add, h] using hs
    | lt =>
      simp only [add, h]
      refine List.pairwise_cons.mpr ⟨fun j hj => ?_, hs⟩
      rcases List.mem_cons.mp hj with rfl | hj
      · simp [h]
      · have hj' := Ordering.isLT_iff_eq_lt.mp (hrest.1 j hj)
        exact Ordering.isLT_iff_eq_lt.mpr (Std.TransCmp.lt_trans h hj')
    | gt =>
      simp only [add, h]
      refine List.pairwise_cons.mpr ⟨fun j hj => ?_, ih hrest.2⟩
      rcases mem_add.mp hj with rfl | hj
      · simpa using Std.OrientedCmp.lt_of_gt h
      · exact hrest.1 j hj

theorem ascending_insert [Std.TransOrd κ] [Std.LawfulEqOrd κ] (k : κ) (a : α)
    {m : List (κ × α)} (hm : Ascending (m.map (·.1))) :
    Ascending ((insert k a m).map (·.1)) := by
  induction m with
  | nil => simp [insert, Ascending]
  | cons p rest ih =>
    obtain ⟨k', a'⟩ := p
    have hrest := List.pairwise_cons.mp hm
    cases h : compare k k' with
    | eq =>
      have hk : k = k' := Std.LawfulEqOrd.compare_eq_iff_eq.mp h
      subst hk
      simpa [insert, h] using hm
    | lt =>
      simp only [insert, h]
      refine List.pairwise_cons.mpr ⟨fun j hj => ?_, hm⟩
      rcases List.mem_cons.mp hj with rfl | hj
      · simp [h]
      · have hj' := Ordering.isLT_iff_eq_lt.mp (hrest.1 j hj)
        exact Ordering.isLT_iff_eq_lt.mpr (Std.TransCmp.lt_trans h hj')
    | gt =>
      simp only [insert, h]
      refine List.pairwise_cons.mpr ⟨fun j hj => ?_, ih hrest.2⟩
      rcases mem_keys_insert.mp hj with rfl | hj
      · simpa using Std.OrientedCmp.lt_of_gt h
      · exact hrest.1 j hj

end EdgeFleet.Ordered
