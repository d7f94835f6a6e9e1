import EdgeFleet.Session.Info
import Mathlib

namespace EdgeFleet

namespace InfoLine

/-- Whether the line is no JSON, or JSON of another shape. -/
def Malformed (line : List Char) : Prop :=
  ∃ reason, reader.run line = .error reason

/-- Whether the line carries an error. -/
def CarriesError (line : List Char) : Prop :=
  ∃ l message, reader.run line = .ok l ∧ l.error = some message

/-- Whether the line carries a session. -/
def CarriesResult (line : List Char) : Prop :=
  ∃ l info, reader.run line = .ok l ∧ l.result = some info

/-- Whether nothing after the line counts. -/
def Decides (line : List Char) : Prop :=
  Malformed line ∨ CarriesError line ∨ CarriesResult line

theorem decision_cases (line : List Char) :
    (∃ reason, reader.run line = .error reason ∧
      decision line = some (.error (.invalidResponse reason))) ∨
    (∃ message result, reader.run line = .ok { error := some message, result } ∧
      decision line = some (.error (.remote message))) ∨
    (∃ info, reader.run line = .ok { error := none, result := some info } ∧
      decision line = some (.ok info)) ∨
    (reader.run line = .ok { error := none, result := none } ∧ decision line = none) := by
  cases hr : reader.run line with
  | error reason => exact Or.inl ⟨reason, rfl, by simp only [decision, hr]⟩
  | ok l =>
    obtain ⟨error, result⟩ := l
    cases error with
    | some message => exact Or.inr (Or.inl ⟨message, result, rfl, by simp only [decision, hr]⟩)
    | none =>
      cases result with
      | some info => exact Or.inr (Or.inr (Or.inl ⟨info, rfl, by simp only [decision, hr]⟩))
      | none => exact Or.inr (Or.inr (Or.inr ⟨rfl, by simp only [decision, hr]⟩))

theorem decision_eq_none_iff {line : List Char} : decision line = none ↔ ¬ Decides line := by
  simp only [Decides, Malformed, CarriesError, CarriesResult]
  rcases decision_cases line with ⟨reason, hr, hd⟩ | ⟨message, result, hr, hd⟩ | ⟨info, hr, hd⟩ |
    ⟨hr, hd⟩ <;> simp [hr, hd]

theorem Decides.decision {line : List Char} (h : Decides line) : ∃ d, decision line = some d := by
  rw [← Option.ne_none_iff_exists', Ne, decision_eq_none_iff]
  exact fun hnot => hnot h

/-- A session is confirmed by a line that is well-formed, carries no error and carries the session. -/
theorem decision_eq_ok_iff {line : List Char} {info : SessionInfo} :
    decision line = some (.ok info) ↔
      reader.run line = .ok { error := none, result := some info } := by
  rcases decision_cases line with ⟨reason, hr, hd⟩ | ⟨message, result, hr, hd⟩ | ⟨info, hr, hd⟩ |
    ⟨hr, hd⟩ <;> simp [hr, hd]

theorem decision_ne_noMatchingUser (line : List Char) :
    decision line ≠ some (.error .noMatchingUser) := by
  rcases decision_cases line with ⟨reason, hr, hd⟩ | ⟨message, result, hr, hd⟩ | ⟨info, hr, hd⟩ |
    ⟨hr, hd⟩ <;> simp [hd]

end InfoLine

namespace SessionInfo

section Lines

variable {c : Char} (hc : c ≠ '\n')

theorem lines_ne_nil (body : List Char) : lines body ≠ [] := by
  cases body with
  | nil => simp [lines]
  | cons d rest =>
    rw [lines]
    split
    · simp
    · split <;> simp

include hc in
theorem lines_cons (body : List Char) :
    ∃ line more, lines body = line :: more ∧ lines (c :: body) = (c :: line) :: more := by
  obtain ⟨line, more, h⟩ := List.exists_cons_of_ne_nil (lines_ne_nil body)
  exact ⟨line, more, h, by rw [lines, if_neg hc, h]⟩

theorem lines_append (a b : List Char) : lines (a ++ '\n' :: b) = lines a ++ lines b := by
  induction a with
  | nil => rfl
  | cons d a ih =>
    by_cases hd : d = '\n'
    · simp only [List.cons_append, lines, hd, if_true, ih]
    · obtain ⟨line, more, ha, hda⟩ := lines_cons hd a
      rw [List.cons_append, lines, if_neg hd, ih, ha, hda]
      rfl

include hc in
theorem lines_concat (body : List Char) :
    ∃ before last, lines body = before ++ [last] ∧ lines (body ++ [c]) = before ++ [last ++ [c]] := by
  induction body with
  | nil => exact ⟨[], [], rfl, by simp [lines, hc]⟩
  | cons d body ih =>
    obtain ⟨before, last, h, hconcat⟩ := ih
    by_cases hd : d = '\n'
    · refine ⟨[] :: before, last, ?_, ?_⟩
      · simp only [lines, hd, if_true, h, List.cons_append]
      · simp only [List.cons_append, lines, hd, if_true, hconcat]
    · cases before with
      | nil =>
        refine ⟨[], d :: last, ?_, ?_⟩
        · simp only [lines, hd, if_false, h, List.nil_append]
        · simp only [List.cons_append, lines, hd, if_false, hconcat, List.nil_append]
      | cons first before =>
        refine ⟨(d :: first) :: before, last, ?_, ?_⟩
        · simp only [lines, hd, if_false, h, List.cons_append]
        · simp only [List.cons_append, lines, hd, if_false, hconcat]

end Lines

/-- The lines that say something, without the white space around them. -/
def contentLines (body : List Char) : List (List Char) :=
  ((lines body).map Text.trimChars).filter (· ≠ [])

theorem contentLines_append (a b : List Char) :
    contentLines (a ++ '\n' :: b) = contentLines a ++ contentLines b := by
  simp only [contentLines, lines_append, List.map_append, List.filter_append]

section Blank

variable {w : List Char} (hw : ∀ c ∈ w, Text.isBlank c = true)

include hw

theorem contentLines_blank_append (b : List Char) : contentLines (w ++ b) = contentLines b := by
  induction w with
  | nil => rfl
  | cons c w ih =>
    have hrest := ih fun d hd => hw d (List.mem_cons_of_mem c hd)
    rw [List.cons_append, ← hrest]
    by_cases hc : c = '\n'
    · simp [contentLines, lines, hc, Text.trimChars, Text.trimEnd]
    · obtain ⟨line, more, h, hcons⟩ := lines_cons hc (w ++ b)
      have htrim := Text.trimChars_cons_blank c line (hw c List.mem_cons_self)
      simp only [contentLines, h, hcons, List.map_cons, htrim]

theorem contentLines_append_blank (a : List Char) : contentLines (a ++ w) = contentLines a := by
  induction w using List.reverseRecOn with
  | nil => rw [List.append_nil]
  | append_singleton w c ih =>
    have hrest := ih fun d hd => hw d (List.mem_append_left [c] hd)
    rw [← List.append_assoc, ← hrest]
    by_cases hc : c = '\n'
    · have hnil : contentLines [] = [] := by simp [contentLines, lines, Text.trimChars, Text.trimEnd]
      rw [hc, contentLines_append, hnil, List.append_nil]
    · obtain ⟨before, last, h, hconcat⟩ := lines_concat hc (a ++ w)
      have htrim := Text.trimChars_concat_blank last c (hw c (by simp))
      simp only [contentLines, h, hconcat, List.map_append, List.map_cons, List.map_nil, htrim]

/-- White space next to the end of a line is none of the content, and neither are blank lines. -/
theorem contentLines_blank_end (a b : List Char) :
    contentLines (a ++ w ++ '\n' :: b) = contentLines (a ++ '\n' :: b) ∧
      contentLines (a ++ '\n' :: (w ++ b)) = contentLines (a ++ '\n' :: b) := by
  simp only [contentLines_append, contentLines_append_blank hw, contentLines_blank_append hw,
    and_self]

end Blank

/-- The decision of a response is the first one of its content. -/
theorem parseChars_eq (body : List Char) :
    parseChars body =
      ((contentLines body).findSome? InfoLine.decision).getD (.error .noMatchingUser) := by
  rw [parseChars, contentLines]
  induction lines body with
  | nil => rfl
  | cons line rest ih =>
    by_cases hb : Text.trimChars line = []
    · rw [firstDecision_of_none rest (Or.inl hb), ih]
      simp [hb]
    · cases hd : InfoLine.decision (Text.trimChars line) with
      | none =>
        rw [firstDecision_of_none rest (Or.inr hd), ih]
        simp [hb, hd]
      | some d =>
        rw [firstDecision_of_decision rest hb hd]
        simp [hb, hd]

theorem parse_eq (body : String) :
    parse body =
      ((contentLines body.toList).findSome? InfoLine.decision).getD (.error .noMatchingUser) :=
  parseChars_eq body.toList

/-- Whether a line is the first one of a response that decides. -/
def FirstDeciding (body : String) (line : List Char) : Prop :=
  ∃ before after, contentLines body.toList = before ++ line :: after ∧
    (∀ l ∈ before, ¬ InfoLine.Decides l) ∧ InfoLine.Decides line

theorem findSome?_eq_some_iff {body : String} {d : Except AuthError SessionInfo} :
    (contentLines body.toList).findSome? InfoLine.decision = some d ↔
      ∃ line, FirstDeciding body line ∧ InfoLine.decision line = some d := by
  simp only [List.findSome?_eq_some_iff, InfoLine.decision_eq_none_iff, FirstDeciding]
  constructor
  · rintro ⟨before, line, after, hb, hd, hnone⟩
    have hdec : InfoLine.Decides line := by
      by_contra hnot
      rw [InfoLine.decision_eq_none_iff.mpr hnot] at hd
      cases hd
    exact ⟨line, ⟨before, after, hb, hnone, hdec⟩, hd⟩
  · rintro ⟨line, ⟨before, after, hb, hnone, -⟩, hd⟩
    exact ⟨before, line, after, hb, hd, hnone⟩

theorem parse_eq_of_decision {body : String} {line : List Char} {d : Except AuthError SessionInfo}
    (hl : FirstDeciding body line) (hd : InfoLine.decision line = some d) : parse body = d := by
  rw [parse_eq, findSome?_eq_some_iff.mpr ⟨line, hl, hd⟩]
  rfl

/-- Nobody matches if no line decides. -/
theorem parse_eq_noMatchingUser_iff {body : String} :
    parse body = .error .noMatchingUser ↔
      (contentLines body.toList).findSome? InfoLine.decision = none := by
  rw [parse_eq]
  constructor
  · intro h
    cases hf : (contentLines body.toList).findSome? InfoLine.decision with
    | none => rfl
    | some d =>
      rw [hf] at h
      obtain ⟨line, -, hd⟩ := findSome?_eq_some_iff.mp hf
      have hnobody : d = .error .noMatchingUser := h
      exact absurd (hnobody ▸ hd) (InfoLine.decision_ne_noMatchingUser line)
  · intro h
    rw [h]
    rfl

theorem parse_ne_noMatchingUser_iff {body : String} :
    parse body ≠ .error .noMatchingUser ↔ ∃ line, FirstDeciding body line := by
  rw [Ne, parse_eq_noMatchingUser_iff, ← Ne, Option.ne_none_iff_exists']
  simp only [findSome?_eq_some_iff]
  constructor
  · rintro ⟨d, line, hl, -⟩
    exact ⟨line, hl⟩
  · rintro ⟨line, hl⟩
    obtain ⟨-, -, -, -, hdec⟩ := id hl
    obtain ⟨d, hd⟩ := InfoLine.Decides.decision hdec
    exact ⟨d, line, hl, hd⟩

theorem parse_eq_ok_iff {body : String} {info : SessionInfo} :
    parse body = .ok info ↔ ∃ line, FirstDeciding body line ∧
      InfoLine.reader.run line = .ok { error := none, result := some info } := by
  simp only [← InfoLine.decision_eq_ok_iff, ← findSome?_eq_some_iff, parse_eq]
  cases (contentLines body.toList).findSome? InfoLine.decision <;> simp

theorem toList_line_end (a b : String) : (a ++ "\n" ++ b).toList = a.toList ++ '\n' :: b.toList := by
  simp [String.toList_append]

theorem findSome?_line_end (a b : String) :
    (contentLines (a ++ "\n" ++ b).toList).findSome? InfoLine.decision =
      ((contentLines a.toList).findSome? InfoLine.decision).or
        ((contentLines b.toList).findSome? InfoLine.decision) := by
  rw [toList_line_end, contentLines_append, List.findSome?_append]

theorem parse_of_undecided {a : String} (h : parse a = .error .noMatchingUser) (b : String) :
    parse (a ++ "\n" ++ b) = parse b := by
  rw [parse_eq, findSome?_line_end, parse_eq_noMatchingUser_iff.mp h, Option.none_or, ← parse_eq]

theorem parse_of_decided {a : String} (h : parse a ≠ .error .noMatchingUser) (b : String) :
    parse (a ++ "\n" ++ b) = parse a := by
  rw [Ne, parse_eq_noMatchingUser_iff, ← Ne, Option.ne_none_iff_exists'] at h
  obtain ⟨d, hd⟩ := h
  rw [parse_eq, findSome?_line_end, hd, Option.some_or, ← hd, ← parse_eq]

theorem parse_congr {a b : String} (h : contentLines a.toList = contentLines b.toList) :
    parse a = parse b := by
  rw [parse_eq, h, ← parse_eq]

/-- What decides a response, and what comes of it if another text follows. -/
structure Decided (a b : String) : Prop where
  /-- Behind a text that decides nothing, what follows counts alone. -/
  undecided : parse a = .error .noMatchingUser → parse (a ++ "\n" ++ b) = parse b
  decided : parse a ≠ .error .noMatchingUser → parse (a ++ "\n" ++ b) = parse a
  first : parse a ≠ .error .noMatchingUser ↔ ∃ line, FirstDeciding a line
  confirmed : ∀ info, parse a = .ok info ↔ ∃ line, FirstDeciding a line ∧
    InfoLine.reader.run line = .ok { error := none, result := some info }
  content : contentLines a.toList = contentLines b.toList → parse a = parse b
  /-- White space before the end of a line, which may be more line ends, counts for nothing. -/
  blank_end : ∀ w, Text.isBlankText w = true → parse (a ++ w ++ "\n" ++ b) = parse (a ++ "\n" ++ b)
  blank_start : ∀ w, Text.isBlankText w = true →
    parse (a ++ "\n" ++ (w ++ b)) = parse (a ++ "\n" ++ b)
  blank_before : ∀ w, Text.isBlankText w = true → parse (w ++ a) = parse a
  blank_after : ∀ w, Text.isBlankText w = true → parse (a ++ w) = parse a

/-- The first line that decides decides a response. What follows it counts only if there is none, and
white space next to the end of a line never counts. -/
theorem stream_decided (a b : String) : Decided a b := by
  have hblank {w : String} (hw : Text.isBlankText w = true) : ∀ c ∈ w.toList, Text.isBlank c = true :=
    List.all_eq_true.mp hw
  constructor
  case undecided => exact fun h => parse_of_undecided h b
  case decided => exact fun h => parse_of_decided h b
  case first => exact parse_ne_noMatchingUser_iff
  case confirmed => exact fun info => parse_eq_ok_iff
  case content => exact parse_congr
  case blank_end =>
    intro w hw
    obtain ⟨hbefore, -⟩ := contentLines_blank_end (hblank hw) a.toList b.toList
    apply parse_congr
    rw [toList_line_end, toList_line_end, String.toList_append, hbefore]
  case blank_start =>
    intro w hw
    obtain ⟨-, hafter⟩ := contentLines_blank_end (hblank hw) a.toList b.toList
    apply parse_congr
    rw [toList_line_end, toList_line_end, String.toList_append, hafter]
  case blank_before =>
    intro w hw
    apply parse_congr
    rw [String.toList_append, contentLines_blank_append (hblank hw)]
  case blank_after =>
    intro w hw
    apply parse_congr
    rw [String.toList_append, contentLines_append_blank (hblank hw)]

/-- A line that says nothing of a session, and a blank one. -/
def keepAlive : String := "\x7b\"jsonrpc\":\"2.0\",\"error\":null\x7d\r\n \t"

/-- A line that carries an error. -/
def expired : String := "  \x7b\"error\":\x7b\"message\":\"expired\"\x7d\x7d\r"

/-- A line that carries a session. -/
def confirmation : String :=
  "\x7b\"result\":\x7b\"user\":\x7b\"id\":7,\"name\":\"A\"\x7d,\"devices\":[]\x7d\x7d"

/-- An error that comes before a session denies it. -/
theorem stream_decided_expired :
    parse keepAlive = .error .noMatchingUser ∧
      parse (keepAlive ++ "\n" ++ expired) = parse expired ∧
      parse expired ≠ .error .noMatchingUser ∧
      parse (expired ++ "\n" ++ confirmation) = parse expired ∧
      contentLines expired.toList = contentLines (expired ++ "\n").toList ∧
      parse expired = parse (expired ++ "\n") ∧
      Text.isBlankText "\r" = true ∧
      parse (keepAlive ++ "\r" ++ "\n" ++ expired) = parse (keepAlive ++ "\n" ++ expired) := by
  have hnone : parse keepAlive = .error .noMatchingUser := by cbv
  have herror : parse expired = .error (.remote "expired") := by cbv
  have hdec : parse expired ≠ .error .noMatchingUser := by rw [herror]; simp
  have hcontent : contentLines expired.toList = contentLines (expired ++ "\n").toList := by cbv
  have hlate : Decided keepAlive expired := stream_decided keepAlive expired
  exact ⟨hnone, hlate.undecided hnone, hdec, (stream_decided expired confirmation).decided hdec, hcontent,
    (stream_decided expired (expired ++ "\n")).content hcontent, rfl, hlate.blank_end "\r" rfl⟩

end SessionInfo

end EdgeFleet
