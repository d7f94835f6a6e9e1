import EdgeFleet.Cache.Basic
import Mathlib.Data.List.Dedup

namespace EdgeFleet.Cache

section History

variable {κ α : Type} [DecidableEq κ]

/-- The distinct keys of some uses, the one used last first: of each key the last use counts. -/
def recency (keys : List κ) : List κ := keys.dedup.reverse

/-- The value that was stored last under a key. A use comes with the value that it stores, if any. -/
def lastStored? (k : κ) (uses : List (κ × Option α)) : Option α :=
  ((uses.filter (·.1 = k)).filterMap (·.2)).getLast?

theorem dedup_concat (keys : List κ) (k : κ) :
    (keys ++ [k]).dedup = keys.dedup.filter (· ≠ k) ++ [k] := by
  induction keys with
  | nil => rfl
  | cons j keys ih =>
    rw [List.cons_append]
    by_cases hk : j = k
    · subst hk
      rw [List.dedup_cons_of_mem (by simp), ih]
      by_cases hj : j ∈ keys
      · rw [List.dedup_cons_of_mem hj]
      · rw [List.dedup_cons_of_notMem hj, List.filter_cons_of_neg (by simp)]
    · by_cases hj : j ∈ keys
      · rw [List.dedup_cons_of_mem (List.mem_append_left [k] hj), List.dedup_cons_of_mem hj, ih]
      · rw [List.dedup_cons_of_notMem (by simp [hj, hk]), List.dedup_cons_of_notMem hj, ih,
          List.filter_cons_of_pos (by simpa using hk), List.cons_append]

theorem recency_concat (keys : List κ) (k : κ) :
    recency (keys ++ [k]) = k :: (recency keys).filter (· ≠ k) := by
  rw [recency, dedup_concat, List.reverse_append, recency, List.filter_reverse]
  rfl

example : recency [1, 2, 1, 3] = [3, 1, 2] := by decide

theorem nodup_recency (keys : List κ) : (recency keys).Nodup :=
  List.nodup_reverse.mpr (List.nodup_dedup keys)

theorem lastStored?_concat (k : κ) (uses : List (κ × Option α)) (u : κ × Option α) :
    lastStored? k (uses ++ [u]) = if u.1 = k then u.2.or (lastStored? k uses) else lastStored? k uses := by
  obtain ⟨j, o⟩ := u
  simp only [lastStored?, List.filter_append]
  by_cases hj : j = k
  · cases o with
    | none => simp [hj]
    | some a => simp [hj]
  · simp [hj]

end History

namespace Recent

section Exact

variable {κ α : Type} [DecidableEq κ]

/-- Whether the entries are as many as the capacity allows at most. -/
def Fits (m : Recent κ α) : Prop := ∀ c, m.capacity = some c → m.entries.length ≤ c.limit

theorem mem_keys_iff {m : Recent κ α} {k : κ} : k ∈ m.keys ↔ ∃ a, m.peek? k = some a := by
  simp only [keys, peek?, ← Option.isSome_iff_exists, Option.isSome_map, List.find?_isSome,
    List.mem_map, decide_eq_true_eq]

/-- What was cut off before a key came first would be cut off then. -/
theorem cut_cons_filter (capacity : Option Capacity) {l : List κ} (hl : l.Nodup) (k : κ) :
    cut capacity (k :: (cut capacity l).filter (· ≠ k)) = cut capacity (k :: l.filter (· ≠ k)) := by
  cases capacity with
  | none => rfl
  | some c =>
    obtain ⟨limit, pos⟩ := c
    cases limit with
    | zero => exact absurd pos (Nat.lt_irrefl 0)
    | succ n =>
      simp only [cut, List.take_succ_cons, List.cons.injEq, true_and]
      rcases Nat.lt_or_ge (n + 1) l.length with hlong | hshort
      · -- at most one of the keys that were kept is the new one
        have herase : (l.take (n + 1)).filter (· ≠ k) = (l.take (n + 1)).erase k := by
          rw [(hl.sublist (List.take_sublist _ _)).erase_eq_filter]
          congr 1
          funext j
          by_cases hj : j = k <;> simp [hj]
        have hlen : n ≤ ((l.take (n + 1)).filter (· ≠ k)).length := by
          have hle : (l.take (n + 1)).length - 1 ≤ ((l.take (n + 1)).erase k).length :=
            List.le_length_erase
          rw [List.length_take_of_le (Nat.le_of_lt hlong)] at hle
          rwa [herase]
        rw [← List.take_append_of_le_length hlen, ← List.filter_append, List.take_append_drop]
      · rw [List.take_of_length_le hshort]

theorem touch_eq_put {m : Recent κ α} (hm : m.Fits) {k : κ} {a : α} (h : m.peek? k = some a) :
    m.touch k = m.put k a := by
  rw [touch, h, put]
  cases hc : m.capacity with
  | none => rfl
  | some c =>
    have hlt : (m.others k).length < m.entries.length := by
      apply List.length_filter_lt_length_iff_exists.mpr
      obtain ⟨p, hp, -⟩ := Option.map_eq_some_iff.mp h
      exact ⟨p, List.mem_of_find?_eq_some hp, by simpa using List.find?_some hp⟩
    have hlen : ((k, a) :: m.others k).length ≤ c.limit := Nat.le_trans hlt (hm c hc)
    simp only [cut, List.take_of_length_le hlen]

/-- Whether a map is what some uses make of an empty one. -/
structure Exact (capacity : Option Capacity) (m : Recent κ α) (uses : List (κ × Option α)) :
    Prop where
  bounded : m.capacity = capacity
  ordered : m.keys = cut capacity (recency (uses.map (·.1)))
  valued : ∀ k ∈ m.keys, m.peek? k = lastStored? k uses

variable {capacity : Option Capacity} {m : Recent κ α} {uses : List (κ × Option α)}

theorem Exact.nodup (h : Exact capacity m uses) : m.keys.Nodup := by
  rw [h.ordered]
  cases capacity with
  | none => exact nodup_recency _
  | some c => exact (nodup_recency _).sublist (List.take_sublist _ _)

theorem Exact.fits (h : Exact capacity m uses) : m.Fits := by
  intro c hc
  have hlen : m.entries.length = m.keys.length := (List.length_map _).symm
  rw [hlen, h.ordered, ← h.bounded, hc]
  exact List.length_take_le _ _

theorem exact_empty (capacity : Option Capacity) :
    Exact capacity (empty capacity : Recent κ α) [] where
  bounded := rfl
  ordered := by cases capacity <;> simp [keys, empty, cut, recency]
  valued k hk := nomatch hk

theorem Exact.put (h : Exact capacity m uses) (k : κ) (a : α) :
    Exact capacity (m.put k a) (uses ++ [(k, some a)]) where
  bounded := h.bounded
  ordered := by
    rw [keys_put, h.ordered, h.bounded, cut_cons_filter _ (nodup_recency _), List.map_append,
      List.map_singleton, recency_concat]
  valued j hj := by
    rw [lastStored?_concat]
    by_cases hk : k = j
    · subst hk
      rw [peek?_put_self]
      simp
    · obtain ⟨b, hb⟩ := mem_keys_iff.mp hj
      have hbefore := peek?_of_put_of_ne m (Ne.symm hk) hb
      rw [if_neg hk, ← h.valued j (mem_keys_iff.mpr ⟨b, hbefore⟩), hb, hbefore]

theorem Exact.touch (h : Exact capacity m uses) {k : κ} {a : α} (hk : m.peek? k = some a) :
    Exact capacity (m.touch k) (uses ++ [(k, none)]) where
  bounded := (capacity_touch m k).trans h.bounded
  ordered := by
    have hput := (h.put k a).ordered
    rw [← touch_eq_put h.fits hk] at hput
    simpa using hput
  valued j hj := by
    have hthere : j ∈ m.keys := by
      rwa [mem_keys_iff, peek?_touch, ← mem_keys_iff] at hj
    rw [peek?_touch, h.valued j hthere, lastStored?_concat]
    simp

/-- The map after a use, if there is one. -/
def after (m : Recent κ α) : Option (κ × Option α) → Recent κ α
  | none => m
  | some (k, none) => m.touch k
  | some (k, some a) => m.put k a

/-- Whether a use is one of a key that is there, unless it stores a value. -/
def Admits (m : Recent κ α) (use : Option (κ × Option α)) : Prop :=
  ∀ k, use = some (k, none) → m.contains k = true

theorem Exact.after (h : Exact capacity m uses) {use : Option (κ × Option α)} (hu : m.Admits use) :
    Exact capacity (m.after use) (uses ++ use.toList) := by
  rcases use with _ | ⟨k, _ | a⟩
  · rw [Option.toList_none, List.append_nil]
    exact h
  · obtain ⟨a, ha⟩ := Option.isSome_iff_exists.mp (hu k rfl)
    exact h.touch ha
  · exact h.put k a

end Exact

end Recent

/-- Whether the keys at hand are those used last, as many as the capacity allows, each with the value
that was stored last. -/
structure Law {κ α : Type} [DecidableEq κ] (capacity : Option Capacity) (uses : List (κ × Option α))
    (keys : List κ) (get : κ → Option α) : Prop where
  listed : keys = Recent.cut capacity (recency (uses.map (·.1)))
  nodup : keys.Nodup
  there : ∀ k ∈ keys, ∃ a, lastStored? k uses = some a ∧ get k = some a
  absent : ∀ k, k ∉ keys → get k = none

theorem Recent.Exact.law {κ α : Type} [DecidableEq κ] {capacity : Option Capacity} {m : Recent κ α}
    {uses : List (κ × Option α)} (h : Exact capacity m uses) : Law capacity uses m.keys m.peek? where
  listed := h.ordered
  nodup := h.nodup
  there k hk := by
    obtain ⟨a, ha⟩ := mem_keys_iff.mp hk
    exact ⟨a, (h.valued k hk).symm.trans ha, ha⟩
  absent k hk := by
    rw [Option.eq_none_iff_forall_ne_some]
    intro a ha
    exact hk (mem_keys_iff.mpr ⟨a, ha⟩)

/-- What can be done with a cache. -/
inductive Op (ε : Type)
  | putEdge (id : EdgeId) (e : ε)
  | putEdgeIfAbsent (id : EdgeId) (e : ε)
  | getEdge (id : EdgeId)
  | containsEdge (id : EdgeId)
  | upsertUser (id : UserId) (name : String) (grants : List (EdgeId × Role))
  | getUser (id : UserId)

variable {ε : Type}

/-- The cache after an operation. -/
def apply (c : Cache ε) : Op ε → Cache ε
  | .putEdge id e => c.putEdge id e
  | .putEdgeIfAbsent id e => (c.putEdgeIfAbsent id e).1
  | .getEdge id => (c.getEdge id).1
  | .containsEdge _ => c
  | .upsertUser id name grants => (c.upsertUser id name grants).1
  | .getUser id => (c.getUser id).1

/-- The cache after some operations, in order. -/
def run (c : Cache ε) (ops : List (Op ε)) : Cache ε := ops.foldl apply c

/-- The edge that an operation uses, with the instance that it stores. -/
def edgeUse? (c : Cache ε) : Op ε → Option (EdgeId × Option ε)
  | .putEdge id e => some (id, some e)
  | .putEdgeIfAbsent id e => some (id, if c.containsEdge id then none else some e)
  | .getEdge id => if c.containsEdge id then some (id, none) else none
  | .containsEdge _ | .upsertUser .. | .getUser _ => none

/-- The user that an operation uses, with the account that it stores. -/
def userUse? (c : Cache ε) : Op ε → Option (UserId × Option AccountRef)
  | .upsertUser id name grants =>
    some (id, if c.users.contains id then none else some (c.upsertUser id name grants).2)
  | .getUser id => if c.users.contains id then some (id, none) else none
  | .putEdge .. | .putEdgeIfAbsent .. | .getEdge _ | .containsEdge _ => none

/-- What some operations use, one after the other. -/
def uses {κ α : Type} (use? : Cache ε → Op ε → Option (κ × Option α)) (c : Cache ε) :
    List (Op ε) → List (κ × Option α)
  | [] => []
  | op :: ops => (use? c op).toList ++ uses use? (c.apply op) ops

/-- If each operation changes a map as its use does, then a run makes it what its uses do. -/
theorem exact_run {κ α : Type} [DecidableEq κ] {side : Cache ε → Recent κ α}
    {use? : Cache ε → Op ε → Option (κ × Option α)}
    (hstep : ∀ c op, side (c.apply op) = (side c).after (use? c op))
    (hadmits : ∀ c op, (side c).Admits (use? c op)) {capacity : Option Capacity} {c : Cache ε}
    {before : List (κ × Option α)} (h : Recent.Exact capacity (side c) before) (ops : List (Op ε)) :
    Recent.Exact capacity (side (run c ops)) (before ++ uses use? c ops) := by
  induction ops generalizing c before with
  | nil =>
    rw [uses, List.append_nil]
    exact h
  | cons op ops ih =>
    have hnext := h.after (hadmits c op)
    rw [← hstep] at hnext
    rw [uses, ← List.append_assoc]
    exact ih hnext

section Step

variable (c : Cache ε)

theorem edges_apply (op : Op ε) : (c.apply op).edges = c.edges.after (c.edgeUse? op) := by
  cases op with
  | putEdge id e => rfl
  | containsEdge id => rfl
  | getUser id => rfl
  | getEdge id =>
    cases h : c.edges.peek? id <;>
      simp [apply, getEdge, Recent.get, edgeUse?, containsEdge, Recent.contains, Recent.after,
        Recent.touch, h]
  | putEdgeIfAbsent id e =>
    cases h : c.edges.peek? id <;>
      simp [apply, putEdgeIfAbsent, putEdge, getEdge, Recent.get, edgeUse?, containsEdge,
        Recent.contains, Recent.after, Recent.touch, h]
  | upsertUser id name grants =>
    cases h : c.users.peek? id <;>
      simp [apply, upsertUser, getUser, Recent.get, edgeUse?, Recent.after, h]

theorem admits_edgeUse? (op : Op ε) : c.edges.Admits (c.edgeUse? op) := by
  intro k hk
  cases op with
  | getEdge id =>
    obtain ⟨h, rfl⟩ : c.containsEdge id = true ∧ id = k := by simpa [edgeUse?] using hk
    exact h
  | putEdgeIfAbsent id e =>
    obtain ⟨rfl, h⟩ : id = k ∧ c.containsEdge id = true := by simpa [edgeUse?] using hk
    exact h
  | _ => simp [edgeUse?] at hk

theorem users_apply (op : Op ε) : (c.apply op).users = c.users.after (c.userUse? op) := by
  cases op with
  | putEdge id e => rfl
  | containsEdge id => rfl
  | getEdge id => rfl
  | getUser id =>
    cases h : c.users.peek? id <;>
      simp [apply, getUser, Recent.get, userUse?, Recent.contains, Recent.after, Recent.touch, h]
  | putEdgeIfAbsent id e =>
    cases h : c.edges.peek? id <;>
      simp [apply, putEdgeIfAbsent, putEdge, getEdge, Recent.get, userUse?, Recent.after, h]
  | upsertUser id name grants =>
    cases h : c.users.peek? id <;>
      simp [apply, upsertUser, getUser, Recent.get, userUse?, Recent.contains, Recent.after,
        Recent.touch, h]

theorem admits_userUse? (op : Op ε) : c.users.Admits (c.userUse? op) := by
  intro k hk
  cases op with
  | getUser id =>
    obtain ⟨h, rfl⟩ : c.users.contains id = true ∧ id = k := by simpa [userUse?] using hk
    exact h
  | upsertUser id name grants =>
    obtain ⟨rfl, h⟩ : id = k ∧ c.users.contains id = true := by simpa [userUse?] using hk
    exact h
  | _ => simp [userUse?] at hk

theorem get_putEdgeIfAbsent (id : EdgeId) (e : ε) :
    ((c.putEdgeIfAbsent id e).1.getEdge id).2 = some (c.putEdgeIfAbsent id e).2 := by
  cases h : c.edges.peek? id with
  | none =>
    simp [putEdgeIfAbsent, getEdge, Recent.get, putEdge, h, Recent.peek?_put_self]
  | some there => simp [putEdgeIfAbsent, getEdge, Recent.get, h, Recent.peek?_touch]

theorem get_upsertUser (id : UserId) (name : String) (grants : List (EdgeId × Role)) :
    ((c.upsertUser id name grants).1.getUser id).2 = some (c.upsertUser id name grants).2 := by
  cases h : c.users.peek? id with
  | none => simp [upsertUser, getUser, Recent.get, h, Recent.peek?_put_self]
  | some ref => simp [upsertUser, getUser, Recent.get, h, Recent.peek?_touch]

theorem upsertUser_of_present {id : UserId} {ref : AccountRef} (h : (c.getUser id).2 = some ref)
    (name : String) (grants : List (EdgeId × Role)) : (c.upsertUser id name grants).2 = ref := by
  have hp : c.users.peek? id = some ref := h
  simp [upsertUser, getUser, Recent.get, hp]

end Step

/-- After any operations, the edges at hand are those used last, as many as the capacity allows, the
latest first, and a look-up gives the instance that was stored last of such an edge and nothing for
another one; the same holds for users. What is to be put unless it is there is answered with what is at
hand afterwards, a user at hand keeps the account, and what uses no edge or no user changes none. -/
theorem recency_run (edges users : Option Capacity) (ops : List (Op ε)) :
    Law edges (uses edgeUse? (empty edges users) ops) (run (empty edges users) ops).edgeIds
      (fun id => ((run (empty edges users) ops).getEdge id).2) ∧
    Law users (uses userUse? (empty edges users) ops) (run (empty edges users) ops).users.keys
      (fun id => ((run (empty edges users) ops).getUser id).2) ∧
    ∀ c : Cache ε,
      (∀ id e, ((c.putEdgeIfAbsent id e).1.getEdge id).2 = some (c.putEdgeIfAbsent id e).2) ∧
      (∀ id name grants,
        ((c.upsertUser id name grants).1.getUser id).2 = some (c.upsertUser id name grants).2 ∧
        ∀ ref, (c.getUser id).2 = some ref → (c.upsertUser id name grants).2 = ref) ∧
      ∀ op, (edgeUse? c op = none → (c.apply op).edges = c.edges) ∧
        (userUse? c op = none → (c.apply op).users = c.users) := by
  have hedges := exact_run edges_apply admits_edgeUse? (c := empty edges users)
    (Recent.exact_empty edges) ops
  have husers := exact_run users_apply admits_userUse? (c := empty edges users)
    (Recent.exact_empty users) ops
  refine ⟨hedges.law, husers.law, fun c => ⟨get_putEdgeIfAbsent c, fun id name grants =>
    ⟨get_upsertUser c id name grants, fun ref h => upsertUser_of_present c h name grants⟩,
    fun op => ⟨fun h => ?_, fun h => ?_⟩⟩⟩
  · rw [edges_apply, h, Recent.after]
  · rw [users_apply, h, Recent.after]

/-- Three edges, of which the first is looked up before the last one comes, and a user. -/
def overfill : List (Op String) :=
  [.putEdge ⟨1, by decide⟩ "a", .putEdge ⟨2, by decide⟩ "b", .getEdge ⟨1, by decide⟩,
    .putEdgeIfAbsent ⟨3, by decide⟩ "c", .upsertUser ⟨9, by decide⟩ "A" []]

/-- A cache of two edges after that. -/
def overfilled : Cache String := run (empty (some ⟨2, by decide⟩) none) overfill

/-- The edge that was not looked up is given up. -/
theorem recency_run_overfilled :
    overfilled.edgeIds = [⟨3, by decide⟩, ⟨1, by decide⟩] ∧
      (overfilled.getEdge ⟨2, by decide⟩).2 = none ∧
      edgeUse? overfilled (.getEdge ⟨2, by decide⟩) = none ∧
      (overfilled.apply (.getEdge ⟨2, by decide⟩)).edges = overfilled.edges ∧
      userUse? overfilled (.getEdge ⟨1, by decide⟩) = none ∧
      (overfilled.apply (.getEdge ⟨1, by decide⟩)).users = overfilled.users ∧
      (overfilled.getUser ⟨9, by decide⟩).2 = some 0 ∧
      (overfilled.upsertUser ⟨9, by decide⟩ "B" []).2 = 0 := by
  obtain ⟨hedges, -, hall⟩ := recency_run (some ⟨2, by decide⟩) none overfill
  obtain ⟨-, hupsert, hidle⟩ := hall overfilled
  have hids : overfilled.edgeIds = [⟨3, by decide⟩, ⟨1, by decide⟩] := hedges.listed.trans (by decide)
  have hmiss : edgeUse? overfilled (.getEdge ⟨2, by decide⟩) = none := by decide
  have hother : userUse? overfilled (.getEdge ⟨1, by decide⟩) = none := by decide
  have huser : (overfilled.getUser ⟨9, by decide⟩).2 = some 0 := by decide
  refine ⟨hids, hedges.absent _ ?_, hmiss, (hidle _).1 hmiss, hother, (hidle _).2 hother, huser,
    (hupsert _ _ _).2 0 huser⟩
  change _ ∉ overfilled.edgeIds
  rw [hids]
  decide

end EdgeFleet.Cache
