import EdgeFleet.Proofs.Json.Narrow
import EdgeFleet.Proofs.Json.RoundTrip
import EdgeFleet.Proofs.Ordered

namespace EdgeFleet.Json

theorem depthItems_le_iff {items : List Json} {n : Nat} :
    depthItems items ≤ n ↔ ∀ a ∈ items, depth a ≤ n := by
  induction items with
  | nil => simp [depthItems]
  | cons a rest ih => rw [depthItems, Nat.max_le, ih, List.forall_mem_cons]

theorem depthMembers_le_iff {members : Members} {n : Nat} :
    depthMembers members ≤ n ↔ ∀ m ∈ members, depth m.2 ≤ n := by
  induction members with
  | nil => simp [depthMembers]
  | cons m rest ih =>
    obtain ⟨k, a⟩ := m
    rw [depthMembers, Nat.max_le, ih, List.forall_mem_cons]

namespace Reader

/-- Whether whatever is read is good. -/
def Yields {α : Type} (r : Reader α) (good : α → Prop) : Prop :=
  ∀ cs a rest, r cs = .ok a rest → good a

namespace Yields

variable {α β : Type} {r : Reader α} {good : α → Prop}

theorem bind {k : α → Reader β} {after : β → Prop} (h : Yields r good)
    (hk : ∀ a, good a → Yields (k a) after) : Yields (r >>= k) after := by
  intro cs b rest hb
  obtain ⟨a, mid, ha, hb⟩ := bind_eq_ok_iff.mp hb
  exact hk a (h cs a mid ha) mid b rest hb

theorem after {k : α → Reader β} {good : β → Prop} (hk : ∀ a, Yields (k a) good) :
    Yields (r >>= k) good := by
  intro cs b rest hb
  obtain ⟨a, mid, -, hb⟩ := bind_eq_ok_iff.mp hb
  exact hk a mid b rest hb

theorem pure {a : α} (h : good a) : Yields (Pure.pure a) good := by
  intro cs b rest hb
  obtain ⟨rfl, -⟩ := pure_eq_ok_iff.mp hb
  exact h

theorem fail (cause : Cause) : Yields (Reader.fail cause) good :=
  fun _ _ _ h => absurd h (fail_ne_ok _ _ _ _)

theorem enclosed (h : Yields r good) (close : Reader Unit) : Yields (Reader.enclosed r close) good := by
  intro cs a rest ha
  obtain ⟨mid, ha, -⟩ := enclosed_eq_ok_iff.mp ha
  exact h cs a mid ha

theorem itemsFrom (h : Yields r good) (fuel : Nat) (first : Bool) :
    Yields (Reader.itemsFrom r fuel first) fun as => ∀ a ∈ as, good a := by
  induction fuel generalizing first with
  | zero => exact fail _
  | succ fuel ih =>
    intro cs as rest has
    rcases itemsFrom_eq_ok_iff.mp has with ⟨-, rfl⟩ | ⟨mid, a, next, more, -, ha, hmore, rfl⟩
    · simp
    · exact List.forall_mem_cons.mpr ⟨h mid a next ha, ih false next more rest hmore⟩

theorem membersFrom {member : α → String → Reader α}
    (h : ∀ a name, good a → Yields (member a name) good) (fuel : Nat) (first : Bool) {a : α}
    (ha : good a) : Yields (Reader.membersFrom member fuel first a) good := by
  induction fuel generalizing first a with
  | zero => exact fail _
  | succ fuel ih =>
    refine after fun more => ?_
    cases more with
    | false => exact pure ha
    | true => exact after fun name => (h a name ha).bind fun b hb => ih false hb

end Yields

/-- A value is good if the scalars are, and arrays and objects of what is read for them. -/
theorem yields_valueWith {array : Reader (List Json)} {object : Reader Members} {good : Json → Prop}
    (hs : ∀ j, depth j = 0 → good j) (ha : Yields array fun items => good (.array items))
    (ho : Yields object fun members => good (.object members)) :
    Yields (valueWith array object) good := by
  refine Yields.after fun next => ?_
  cases next with
  | none => exact Yields.fail _
  | some c =>
    dsimp only
    split
    · exact Yields.after fun _ => Yields.after fun _ => Yields.pure (hs _ rfl)
    split
    · exact Yields.after fun _ => Yields.after fun _ => Yields.pure (hs _ rfl)
    split
    · exact Yields.after fun _ => Yields.after fun _ => Yields.pure (hs _ rfl)
    split
    · exact Yields.after fun _ => Yields.pure (hs _ rfl)
    split
    · exact Yields.after fun _ => Yields.pure (hs _ rfl)
    split
    · exact ha.bind fun _ hitems => Yields.pure hitems
    split
    · exact ho.bind fun _ hmembers => Yields.pure hmembers
    · exact Yields.fail _

theorem yields_member {value : Reader Json} {n : Nat} (hv : Yields value fun j => depth j ≤ n)
    (members : Members) (name : String) (hm : depthMembers members ≤ n) :
    Yields (member value members name) fun read => depthMembers read ≤ n := by
  refine Yields.after fun _ => hv.bind fun a ha => Yields.pure ?_
  apply depthMembers_le_iff.mpr
  intro m hmem
  rcases Ordered.mem_of_mem_insert hmem with rfl | hmem
  · exact ha
  · exact depthMembers_le_iff.mp hm m hmem

theorem yields_value (room : Nat) : Yields (value room) fun j => depth j ≤ room := by
  induction room with
  | zero =>
    exact yields_valueWith (fun j hj => Nat.le_of_eq hj) (Yields.fail _) (Yields.fail _)
  | succ room ih =>
    apply yields_valueWith
    · intro j hj
      rw [hj]
      exact Nat.zero_le _
    -- the items were read with less room by one, so they are less deep by one
    · refine Yields.after fun _ => Yields.enclosed ?_ _
      refine Yields.after fun count => ?_
      intro cs items rest hitems
      have hall := ih.itemsFrom (count + 1) true cs items rest hitems
      exact Nat.succ_le_succ (depthItems_le_iff.mpr hall)
    · refine Yields.after fun _ => Yields.enclosed ?_ _
      refine Yields.after fun count => ?_
      intro cs members rest hmembers
      have hall := Yields.membersFrom (yields_member ih) (count + 1) true (Nat.zero_le _) cs members rest
        hmembers
      exact Nat.succ_le_succ hall

end Reader

theorem depth_le_of_parseChars {text : List Char} {j : Json} (h : parseChars text = .ok j) :
    depth j ≤ 127 := by
  obtain ⟨rest, hread, -⟩ := Reader.run_eq_ok_iff.mp h
  exact Reader.yields_value Reader.maxDepth text j rest hread

mutual

theorem depth_of_same {a b : Json} (h : same a b = true) : depth a = depth b := by
  match a, b, h with
  | .null, .null, _ => rfl
  | .bool _, .bool _, _ => rfl
  | .number _, .number _, _ => rfl
  | .text _, .text _, _ => rfl
  | .array as, .array bs, h => exact congrArg (· + 1) (depthItems_of_same h)
  | .object as, .object bs, h => exact congrArg (· + 1) (depthMembers_of_same h)

theorem depthItems_of_same {as bs : List Json} (h : sameItems as bs = true) :
    depthItems as = depthItems bs := by
  match as, bs, h with
  | [], [], _ => rfl
  | a :: as, b :: bs, h =>
    rw [sameItems, Bool.and_eq_true] at h
    rw [depthItems, depthItems, depth_of_same h.1, depthItems_of_same h.2]

theorem depthMembers_of_same {as bs : Members} (h : sameMembers as bs = true) :
    depthMembers as = depthMembers bs := by
  match as, bs, h with
  | [], [], _ => rfl
  | (_, a) :: as, (_, b) :: bs, h =>
    rw [sameMembers, Bool.and_eq_true, Bool.and_eq_true] at h
    rw [depthMembers, depthMembers, depth_of_same h.1.2, depthMembers_of_same h.2]

end

/-- Whether the value can be stored as a document and read again: an object that nests no deeper than a text
may. -/
def Documentary (j : Json) : Prop := (∃ members, j = .object members) ∧ j.depth ≤ 127

/-- A printed value is a document exactly if it is an object that nests no deeper than a text may. -/
theorem documentary_iff {j : Json} (hc : j.Canonical) (hf : j.Finite) :
    j.Documentary ↔ ∃ members, Document.parse j.pretty = .ok members := by
  obtain ⟨hread, hdeep⟩ := reads_parseChars Layout.spaced_pretty hc hf
  rw [pretty, Document.parse_chars_eq .pretty hf]
  by_cases hd : j.depth ≤ Reader.maxDepth
  · obtain ⟨j', hj, hsame⟩ := hread hd
    have hobject := hsame.object
    rw [hj]
    cases j' with
    | object members => exact ⟨fun _ => ⟨members, rfl⟩, fun _ => ⟨hobject.mp ⟨members, rfl⟩, hd⟩⟩
    | null | bool | number | text | array =>
      have hnone : ¬ j.Documentary := fun h => by simpa using hobject.mpr h.1
      simp [hnone]
  · obtain ⟨reason, hfail⟩ := hdeep hd
    rw [hfail]
    simp only [reduceCtorEq, exists_false, iff_false]
    exact fun h => hd h.2

/-- What is read as a document can be stored as one. -/
theorem documentary_of_parse {text : String} {members : Members}
    (h : Document.parse text = .ok members) : Documentary (.object members) := by
  refine ⟨⟨members, rfl⟩, ?_⟩
  rw [Document.parse] at h
  by_cases hb : text.toList.all Text.isBlank = true
  · rw [Document.parseChars_of_blank hb] at h
    obtain rfl := Except.ok.inj h
    decide
  · rw [Document.parseChars, if_neg hb] at h
    split at h
    · rename_i read hread
      obtain rfl := Except.ok.inj h
      exact depth_le_of_parseChars hread
    · cases h
    · cases h

theorem isObject_of_same {a b : Json} (h : same a b = true) :
    (∃ members, a = .object members) ↔ ∃ members, b = .object members := by
  match a, b, h with
  | .object as, .object bs, _ => exact ⟨fun _ => ⟨bs, rfl⟩, fun _ => ⟨as, rfl⟩⟩
  | .null, .null, _ | .bool _, .bool _, _ | .number _, .number _, _ | .text _, .text _, _
  | .array _, .array _, _ => simp

theorem documentary_of_same {a b : Json} (h : same a b = true) : Documentary a ↔ Documentary b := by
  rw [Documentary, Documentary, isObject_of_same h, depth_of_same h]

end EdgeFleet.Json
