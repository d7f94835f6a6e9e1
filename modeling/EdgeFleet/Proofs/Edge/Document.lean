import EdgeFleet.Proofs.Json.RoundTrip
import EdgeFleet.WriteBack.Pending

namespace EdgeFleet.Document

open Json (Members)

/-- What becomes of a document's text when it is read: it is not taken for the blank text of an unset
configuration, and shows the document unless that nests deeper than a text may. -/
structure ReadBack (members : Members) (text : String) : Prop where
  not_blank : Text.isBlankText text = false
  read : (Json.object members).depth ≤ 127 → parse text = .ok members
  refused : 127 < (Json.object members).depth → ∃ reason, parse text = .error (.malformed reason)

section ReadBack

variable {members : Members} (hc : (Json.object members).Canonical)
  (hi : (Json.object members).Integral)

include hc hi

theorem readBack_chars {l : Json.Layout} (hl : l.Spaced) :
    ReadBack members (String.ofList ((Json.object members).chars l 0)) where
  not_blank := isBlankText_chars l hi.finite
  read := parse_chars hl hc hi
  refused := parse_chars_deep hl hc hi

/-- The text that is stored of a document when it changes is read back, and so is its text on one line. -/
theorem texts_read_back :
    ∃ text, WriteBack.effect (.config (.object members)) = .store .config (.text text) ∧
      ReadBack members text ∧ ReadBack members (Json.object members).compact := by
  have hpretty : ReadBack members (Json.object members).pretty :=
    readBack_chars hc hi Json.Layout.spaced_pretty
  have hcompact : ReadBack members (Json.object members).compact :=
    readBack_chars hc hi Json.Layout.spaced_compact
  exact ⟨(Json.object members).pretty, rfl, hpretty, hcompact⟩

end ReadBack

/-- A document with characters that need an escape or several bytes, and with the outermost integers. -/
def peculiar : Members :=
  [("", .array []), ("\"\\\n", .text "\u0000\t\u001F\u2028é😀"), ("max", .ofInt Json.maxInteger),
    ("min", .ofInt Json.minInteger), ("ü", .object [("", .object [])])]

/-- A document with so many others inside one another. -/
def nested : Nat → Members
  | 0 => []
  | n + 1 => [("inner", .object (nested n))]

theorem canonical_nested (n : Nat) : (Json.object (nested n)).Canonical := by
  induction n with
  | zero => exact ⟨List.Pairwise.nil, trivial⟩
  | succ n ih => exact ⟨List.pairwise_singleton _ _, ih, trivial⟩

theorem integral_nested (n : Nat) : (Json.object (nested n)).Integral := by
  induction n with
  | zero => trivial
  | succ n ih => exact ⟨ih, trivial⟩

theorem depth_nested (n : Nat) : (Json.object (nested n)).depth = n + 1 := by
  induction n with
  | zero => rfl
  | succ n ih => simp only [nested, Json.depth, Json.depthMembers] at ih ⊢; omega

/-- A document may hold any characters and integers, but not more than 126 others inside one another. -/
theorem texts_read_back_peculiar :
    (Json.object peculiar).Canonical ∧ (Json.object peculiar).Integral ∧
      (Json.object peculiar).depth ≤ 127 ∧ parse (Json.object peculiar).pretty = .ok peculiar ∧
      parse (Json.object peculiar).compact = .ok peculiar ∧
      (Json.object (nested 126)).depth ≤ 127 ∧
      parse (Json.object (nested 126)).compact = .ok (nested 126) ∧
      127 < (Json.object (nested 127)).depth ∧
      ∃ reason, parse (Json.object (nested 127)).compact = .error (.malformed reason) := by
  have hc : (Json.object peculiar).Canonical := by
    have hkeys : Ordered.Ascending (peculiar.map (·.1)) := by
      unfold Ordered.Ascending
      decide
    have hmax : Json.minInteger ≤ Json.maxInteger := by decide
    exact ⟨hkeys, trivial, trivial, ⟨hmax, Int.le_refl _⟩, ⟨Int.le_refl _, hmax⟩,
      ⟨List.pairwise_singleton _ _, ⟨List.Pairwise.nil, trivial⟩, trivial⟩, trivial⟩
  have hi : (Json.object peculiar).Integral :=
    ⟨trivial, trivial, trivial, trivial, ⟨trivial, trivial⟩, trivial⟩
  have hd : (Json.object peculiar).depth ≤ 127 := by decide
  have hlast : (Json.object (nested 126)).depth ≤ 127 := (depth_nested 126).le
  have hdeep : 127 < (Json.object (nested 127)).depth := by rw [depth_nested]; decide
  obtain ⟨text, htext, hpretty, hcompact⟩ := texts_read_back hc hi
  obtain ⟨_, -, -, hnested⟩ := texts_read_back (canonical_nested 126) (integral_nested 126)
  obtain ⟨_, -, -, hrefused⟩ := texts_read_back (canonical_nested 127) (integral_nested 127)
  obtain rfl : (Json.object peculiar).pretty = text := by
    rw [WriteBack.effect, WriteBack.Effect.store.injEq, Json.text.injEq] at htext
    exact htext.2
  exact ⟨hc, hi, hd, hpretty.read hd, hcompact.read hd, hlast, hnested.read hlast, hdeep,
    hrefused.refused hdeep⟩

end EdgeFleet.Document
