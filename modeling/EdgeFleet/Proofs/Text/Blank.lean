import EdgeFleet.Text.Blank

namespace EdgeFleet.Text

section Around

variable {w : List Char} (hw : w.all isBlank = true)

include hw

theorem trimChars_blank_append (cs : List Char) : trimChars (w ++ cs) = trimChars cs := by
  induction w with
  | nil => rfl
  | cons c w ih =>
    rw [List.all_cons, Bool.and_eq_true] at hw
    rw [List.cons_append, trimChars_cons_blank c _ hw.1]
    exact ih hw.2

theorem trimChars_append_blank (cs : List Char) : trimChars (cs ++ w) = trimChars cs := by
  induction w generalizing cs with
  | nil => rw [List.append_nil]
  | cons c w ih =>
    rw [List.all_cons, Bool.and_eq_true] at hw
    calc trimChars (cs ++ c :: w) = trimChars (cs ++ [c] ++ w) := by
          rw [List.append_assoc, List.singleton_append]
      _ = trimChars (cs ++ [c]) := ih hw.2 (cs ++ [c])
      _ = trimChars cs := trimChars_concat_blank cs c hw.1

end Around

theorem trimChars_of_no_blank {cs : List Char} (h : ∀ c ∈ cs, isBlank c = false) :
    trimChars cs = cs := by
  have hkeep (l : List Char) (hl : ∀ c ∈ l, isBlank c = false) : l.dropWhile isBlank = l := by
    cases l with
    | nil => rfl
    | cons c rest => rw [List.dropWhile_cons, hl c List.mem_cons_self]; rfl
  rw [trimChars, hkeep cs h, trimEnd, hkeep cs.reverse, List.reverse_reverse]
  intro c hc
  exact h c (List.mem_reverse.mp hc)

theorem exists_around (cs : List Char) :
    ∃ before after, before.all isBlank = true ∧ after.all isBlank = true ∧
      cs = before ++ trimChars cs ++ after := by
  let rest := cs.dropWhile isBlank
  refine ⟨cs.takeWhile isBlank, (rest.reverse.takeWhile isBlank).reverse, List.all_takeWhile, ?_, ?_⟩
  · rw [List.all_reverse]
    exact List.all_takeWhile
  · have hrest : trimEnd rest ++ (rest.reverse.takeWhile isBlank).reverse = rest := by
      rw [trimEnd, ← List.reverse_append, List.takeWhile_append_dropWhile, List.reverse_reverse]
    rw [trimChars, List.append_assoc, hrest, List.takeWhile_append_dropWhile]

/-- What is left of a text is what stands between white space, down to what has none to lose. -/
theorem trimChars_eq_iff {cs core : List Char} :
    trimChars cs = core ↔ trimChars core = core ∧ ∃ before after,
      before.all isBlank = true ∧ after.all isBlank = true ∧ cs = before ++ core ++ after := by
  have hcore {before after : List Char} (hb : before.all isBlank = true)
      (ha : after.all isBlank = true) : trimChars (before ++ core ++ after) = trimChars core := by
    rw [trimChars_append_blank ha, trimChars_blank_append hb]
  constructor
  · rintro rfl
    obtain ⟨before, after, hb, ha, he⟩ := exists_around cs
    refine ⟨?_, before, after, hb, ha, he⟩
    calc trimChars (trimChars cs)
        = trimChars (before ++ trimChars cs ++ after) := (hcore hb ha).symm
      _ = trimChars cs := by rw [← he]
  · rintro ⟨hkeep, before, after, hb, ha, rfl⟩
    rw [hcore hb ha, hkeep]

end EdgeFleet.Text
