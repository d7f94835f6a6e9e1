import EdgeFleet.Edge.Document
import EdgeFleet.Proofs.Json.Real

namespace EdgeFleet.Json

mutual

/-- Whether every double of the value is finite. -/
def Finite : Json → Prop
  | .number (.real x) => x.Finite
  | .array items => FiniteItems items
  | .object members => FiniteMembers members
  | _ => True

/-- Whether every item is finite. -/
def FiniteItems : List Json → Prop
  | [] => True
  | a :: rest => Finite a ∧ FiniteItems rest

/-- Whether the value of every member is finite. -/
def FiniteMembers : List (String × Json) → Prop
  | [] => True
  | (_, a) :: rest => Finite a ∧ FiniteMembers rest

end

mutual

theorem Integral.finite {j : Json} (h : Integral j) : Finite j := by
  match j, h with
  | .null, _ | .bool _, _ | .text _, _ | .number (.integer _), _ => trivial
  | .array items, h =>
    have hitems : IntegralItems items := h
    exact hitems.finite
  | .object members, h =>
    have hmembers : IntegralMembers members := h
    exact hmembers.finite

theorem IntegralItems.finite {items : List Json} (h : IntegralItems items) : FiniteItems items := by
  match items, h with
  | [], _ => trivial
  | a :: rest, h => exact ⟨Integral.finite h.1, IntegralItems.finite h.2⟩

theorem IntegralMembers.finite {members : Members} (h : IntegralMembers members) :
    FiniteMembers members := by
  match members, h with
  | [], _ => trivial
  | (_, a) :: rest, h => exact ⟨Integral.finite h.1, IntegralMembers.finite h.2⟩

end

/-- What a printed value is read as: a value without fractions is read as itself, an object as an object and
nothing else as one. -/
structure Rereads (j j' : Json) : Prop where
  same : Integral j → j' = j
  object : (∃ members, j' = .object members) ↔ ∃ members, j = .object members

theorem Rereads.refl (j : Json) : Rereads j j := ⟨fun _ => rfl, Iff.rfl⟩

/-- A layout that puts nothing but spaces between the parts of a text. -/
structure Layout.Spaced (l : Layout) : Prop where
  line : ∀ depth, ∀ c ∈ l.line depth, Reader.isSpace c = true
  colon : ∃ sp, l.colon = ':' :: sp ∧ ∀ c ∈ sp, Reader.isSpace c = true

theorem Layout.spaced_compact : Layout.compact.Spaced where
  line _ _ hc := by cases hc
  colon := ⟨[], rfl, by simp⟩

theorem Layout.spaced_pretty : Layout.pretty.Spaced where
  line depth c hc := by
    rcases List.mem_cons.mp hc with rfl | hc
    · rfl
    · rw [List.eq_of_mem_replicate hc]
      rfl
  colon := ⟨[' '], rfl, by simp [Reader.isSpace]⟩

namespace Reader

variable {α : Type} {cs mid rest : List Char}

section Spaces

variable {sp : List Char} (hsp : ∀ c ∈ sp, isSpace c = true)

include hsp

theorem bind_peekPart_spaces (f : Option Char → Reader α) (cs : List Char) :
    (peekPart >>= f) (sp ++ cs) = (peekPart >>= f) cs := by
  have hpeek : peekPart (sp ++ cs) = peekPart cs := by
    rw [peekPart, List.dropWhile_append_of_pos hsp, peekPart]
  have hrest : peekPart cs = .ok (cs.dropWhile isSpace).head? (cs.dropWhile isSpace) := rfl
  rw [bind_of_ok (hpeek.trans hrest), bind_of_ok hrest]

theorem value_spaces (room : Nat) (cs : List Char) : value room (sp ++ cs) = value room cs := by
  cases room <;> exact bind_peekPart_spaces hsp _ cs

theorem ends_spaces (hr : Ends rest) : Ends (sp ++ rest) := by
  cases sp with
  | nil => exact hr
  | cons c sp =>
    intro d hd
    obtain rfl := Option.some.inj hd
    have hc := hsp c List.mem_cons_self
    simp only [isSpace, Bool.or_eq_true, beq_iff_eq] at hc
    rcases hc with ((rfl | rfl) | rfl) | rfl <;> decide

end Spaces

theorem ends_of_head {c : Char}
    (hc : Text.Numeral.isDigit c = false ∧ c ≠ '.' ∧ c ≠ 'e' ∧ c ≠ 'E') (rest : List Char) :
    Ends (c :: rest) := by
  intro d hd
  obtain rfl := Option.some.inj hd
  exact hc

theorem enclosed_of_ok {body : Reader α} {close : Reader Unit} {a : α} (mid : List Char)
    (hb : body cs = .ok a mid) (hc : close mid = .ok () rest) :
    enclosed body close cs = .ok a rest := by
  simp only [enclosed, hb, hc]

/-- Whether a reading ends before `rest`, with a good result, if something holds, and fails otherwise. -/
def Reads (result : EStateM.Result Fault (List Char) α) (fits : Prop) (good : α → Prop)
    (rest : List Char) : Prop :=
  (fits → ∃ a, result = .ok a rest ∧ good a) ∧ (¬ fits → ∃ f after, result = .error f after)

namespace Reads

variable {β : Type} {result : EStateM.Result Fault (List Char) α} {fits fits' : Prop}
  {good good' : α → Prop}

theorem of_ok {a : α} (h : result = .ok a rest) (hf : fits) (hg : good a) :
    Reads result fits good rest :=
  ⟨fun _ => ⟨a, h, hg⟩, fun hn => absurd hf hn⟩

theorem of_error (h : ∃ f after, result = .error f after) (hf : ¬ fits) :
    Reads result fits good rest :=
  ⟨fun h => absurd h hf, fun _ => h⟩

theorem mono (h : Reads result fits good rest) (hf : fits' ↔ fits) (hg : ∀ a, good a → good' a) :
    Reads result fits' good' rest := by
  refine ⟨fun h' => ?_, fun hn => h.2 (mt hf.mpr hn)⟩
  obtain ⟨a, ha, hgood⟩ := h.1 (hf.mp h')
  exact ⟨a, ha, hg a hgood⟩

variable {r : Reader α} {k : α → Reader β} {after : β → Prop}

theorem bind (h : Reads (r cs) fits good mid) (hk : ∀ a, good a → Reads (k a mid) fits' after rest) :
    Reads ((r >>= k) cs) (fits ∧ fits') after rest := by
  constructor
  · rintro ⟨hf, hf'⟩
    obtain ⟨a, ha, hgood⟩ := h.1 hf
    rw [bind_of_ok ha]
    exact (hk a hgood).1 hf'
  · intro hn
    by_cases hf : fits
    · obtain ⟨a, ha, hgood⟩ := h.1 hf
      rw [bind_of_ok ha]
      exact (hk a hgood).2 fun hf' => hn ⟨hf, hf'⟩
    · obtain ⟨f, last, hfail⟩ := h.2 hf
      refine ⟨f, last, ?_⟩
      change EStateM.bind r k cs = _
      rw [EStateM.bind, hfail]

theorem bind_pure (h : Reads (r cs) fits good rest) {g : α → β} (hg : ∀ a, good a → after (g a)) :
    Reads ((r >>= fun a => pure (g a)) cs) fits after rest := by
  have hpure (a : α) (ha : good a) : Reads ((pure (g a) : Reader β) rest) True after rest :=
    of_ok rfl trivial (hg a ha)
  exact (h.bind hpure).mono (by rw [and_true]) fun _ => id

theorem enclosed {close : Reader Unit} (h : Reads (r cs) fits good mid)
    (hc : close mid = .ok () rest) : Reads (enclosed r close cs) fits good rest := by
  constructor
  · intro hf
    obtain ⟨a, ha, hgood⟩ := h.1 hf
    exact ⟨a, enclosed_of_ok mid ha hc, hgood⟩
  · intro hn
    obtain ⟨f, last, hfail⟩ := h.2 hn
    simp only [Reader.enclosed, hfail]
    cases close last with
    | ok => exact ⟨_, _, rfl⟩
    | error => exact ⟨_, _, rfl⟩

end Reads

section Items

variable {item : Reader α} {fuel : Nat} {first : Bool}

theorem hasNextItem_first {sp : List Char} (hsp : ∀ c ∈ sp, isSpace c = true) {c : Char}
    (hs : isSpace c = false) (hc : c ≠ ']') (cs : List Char) :
    hasNextItem true (sp ++ c :: cs) = .ok true (c :: cs) := by
  refine (bind_of_ok (peekPart_spaces hsp hs cs)).trans ?_
  simp only [hc, if_false, if_true]
  rfl

theorem hasNextItem_comma {sp : List Char} (hsp : ∀ c ∈ sp, isSpace c = true) {c : Char}
    (hs : isSpace c = false) (hc : c ≠ ']') (cs : List Char) :
    hasNextItem false (',' :: (sp ++ c :: cs)) = .ok true (c :: cs) := by
  refine (bind_of_ok (peekPart_cons (by rfl) _)).trans ?_
  simp only [Char.reduceEq, if_false, Bool.false_eq_true, if_true]
  rw [bind_of_ok (show skip (',' :: (sp ++ c :: cs)) = .ok () (sp ++ c :: cs) from rfl),
    bind_of_ok (peekPart_spaces hsp hs cs)]
  simp only [hc, if_false]
  rfl

theorem hasNextItem_end (first : Bool) {sp : List Char} (hsp : ∀ c ∈ sp, isSpace c = true)
    (rest : List Char) : hasNextItem first (sp ++ ']' :: rest) = .ok false (']' :: rest) :=
  bind_of_ok (peekPart_spaces hsp (by rfl) rest)

theorem itemsFrom_stop (hn : hasNextItem first cs = .ok false mid) :
    itemsFrom item (fuel + 1) first cs = .ok [] mid := by
  rw [itemsFrom, bind_of_ok hn]
  rfl

end Items

section Members

variable {member : α → String → Reader α} {fuel : Nat} {first : Bool} {a : α}

theorem hasNextMember_first {sp : List Char} (hsp : ∀ c ∈ sp, isSpace c = true) (k : String)
    (cs : List Char) :
    hasNextMember true (sp ++ (textChars k ++ cs)) = .ok true (textChars k ++ cs) :=
  bind_of_ok (peekPart_spaces hsp (by rfl) _)

theorem hasNextMember_comma {sp : List Char} (hsp : ∀ c ∈ sp, isSpace c = true) (k : String)
    (cs : List Char) :
    hasNextMember false (',' :: (sp ++ (textChars k ++ cs))) = .ok true (textChars k ++ cs) := by
  refine (bind_of_ok (peekPart_cons (by rfl) _)).trans ?_
  simp only [Char.reduceEq, if_false, Bool.false_eq_true, if_true]
  have hskip : skip (',' :: (sp ++ (textChars k ++ cs))) = .ok () (sp ++ (textChars k ++ cs)) := rfl
  have hpeek : peekPart (sp ++ (textChars k ++ cs)) = .ok (some '"') (textChars k ++ cs) :=
    peekPart_spaces hsp (by rfl) _
  rw [bind_of_ok hskip, bind_of_ok hpeek]
  rfl

theorem hasNextMember_end (first : Bool) {sp : List Char} (hsp : ∀ c ∈ sp, isSpace c = true)
    (rest : List Char) : hasNextMember first (sp ++ '}' :: rest) = .ok false ('}' :: rest) :=
  bind_of_ok (peekPart_spaces hsp (by rfl) rest)

theorem membersFrom_stop (hn : hasNextMember first cs = .ok false mid) :
    membersFrom member (fuel + 1) first a cs = .ok a mid := by
  rw [membersFrom, bind_of_ok hn]
  rfl

end Members

theorem insert_of_ascending {acc more : Members} {k : String} {a : Json}
    (h : Ordered.Ascending ((acc ++ (k, a) :: more).map (·.1))) :
    Ordered.insert k a acc = acc ++ [(k, a)] := by
  induction acc with
  | nil => rfl
  | cons m acc ih =>
    obtain ⟨k', a'⟩ := m
    obtain ⟨hlt, hrest⟩ := List.pairwise_cons.mp h
    have hk : compare k' k = .lt := Ordering.isLT_iff_eq_lt.mp (hlt k (by simp))
    have hgt : compare k k' = .gt := Std.OrientedCmp.gt_of_lt hk
    rw [Ordered.insert, hgt, List.cons_append]
    simp only [ih hrest]

theorem value_of_items {room : Nat} {fits : Prop} {good : List Json → Prop}
    (h : Reads (itemsFrom (value room) (cs.length + 1) true cs) fits good (']' :: rest)) :
    Reads (value (room + 1) ('[' :: cs)) fits (fun j => ∃ items, j = .array items ∧ good items)
      rest := by
  have hskip : skip ('[' :: cs) = .ok () cs := rfl
  have hcount : remaining cs = .ok cs.length cs := rfl
  have hitems : Reads (items (value room) cs) fits good (']' :: rest) := by
    rwa [items, bind_of_ok hcount]
  have harray : Reads ((do skip; enclosed (items (value room)) endItems : Reader (List Json))
      ('[' :: cs)) fits good rest := by
    rw [bind_of_ok hskip]
    exact hitems.enclosed rfl
  rw [value, valueWith, bind_of_ok (peekPart_cons (by rfl) cs)]
  exact harray.bind_pure fun items hi => ⟨items, rfl, hi⟩

theorem value_of_members {room : Nat} {fits : Prop} {good : Members → Prop}
    (h : Reads (membersFrom (member (value room)) (cs.length + 1) true [] cs) fits good
      ('}' :: rest)) :
    Reads (value (room + 1) ('{' :: cs)) fits (fun j => ∃ members, j = .object members ∧ good members)
      rest := by
  have hskip : skip ('{' :: cs) = .ok () cs := rfl
  have hcount : remaining cs = .ok cs.length cs := rfl
  have hmembers : Reads (members (member (value room)) [] cs) fits good ('}' :: rest) := by
    rwa [members, bind_of_ok hcount]
  have hobject : Reads ((do skip; enclosed (members (member (value room)) []) endMembers :
      Reader Members) ('{' :: cs)) fits good rest := by
    rw [bind_of_ok hskip]
    exact hmembers.enclosed rfl
  rw [value, valueWith, bind_of_ok (peekPart_cons (by rfl) cs)]
  exact hobject.bind_pure fun members hm => ⟨members, rfl, hm⟩

theorem valueWith_text (array : Reader (List Json)) (object : Reader Members) (s : String)
    (rest : List Char) : valueWith array object (textChars s ++ rest) = .ok (.text s) rest := by
  have hq := quotedText_textChars s rest
  rw [textChars, List.cons_append, List.cons_append] at hq ⊢
  refine (bind_of_ok (peekPart_cons (by rfl) _)).trans ?_
  exact (bind_of_ok hq).trans rfl

theorem head_integerChars (n : Int) :
    ∃ c cs, integerChars n = c :: cs ∧ (c = '-' ∨ Text.Numeral.isDigit c = true) := by
  cases n with
  | negSucc n => exact ⟨'-', _, rfl, Or.inl rfl⟩
  | ofNat n =>
    cases hd : Nat.toDigits 10 n with
    | nil => exact absurd hd Nat.toDigits_ne_nil
    | cons c cs =>
      refine ⟨c, cs, hd, Or.inr ?_⟩
      apply Text.Numeral.isDigit_of_mem_toDigits (n := n)
      rw [hd]
      exact List.mem_cons_self

theorem ne_of_isDigit {c d : Char} (hc : c = '-' ∨ Text.Numeral.isDigit c = true)
    (hd : d ≠ '-' ∧ Text.Numeral.isDigit d = false) : c ≠ d := by
  rintro rfl
  rcases hc with hc | hc
  · exact hd.1 hc
  · rw [hd.2] at hc
    cases hc

theorem isSpace_of_isDigit {c : Char} (hc : c = '-' ∨ Text.Numeral.isDigit c = true) :
    isSpace c = false := by
  have hne (d : Char) (hd : d ≠ '-' ∧ Text.Numeral.isDigit d = false) := ne_of_isDigit hc hd
  simp [isSpace, hne ' ' (by decide), hne '\n' (by decide), hne '\t' (by decide),
    hne '\r' (by decide)]

theorem valueWith_number (array : Reader (List Json)) (object : Reader Members) {n : Number}
    (hh : ∃ c more, cs = c :: more ∧ (c = '-' ∨ Text.Numeral.isDigit c = true))
    (hn : number (cs ++ rest) = .ok n rest) :
    valueWith array object (cs ++ rest) = .ok (.number n) rest := by
  obtain ⟨c, more, rfl, hc⟩ := hh
  have hne (d : Char) (hd : d ≠ '-' ∧ Text.Numeral.isDigit d = false) := ne_of_isDigit hc hd
  rw [List.cons_append] at hn ⊢
  refine (bind_of_ok (peekPart_cons (isSpace_of_isDigit hc) _)).trans ?_
  simp only [hne 'n' (by decide), hne 't' (by decide), hne 'f' (by decide), hc, if_false, if_true]
  exact (bind_of_ok hn).trans rfl

end Reader

open Reader in
theorem head_numberChars {n : Number} (hf : Finite (.number n)) :
    ∃ c cs, numberChars n = c :: cs ∧ (c = '-' ∨ Text.Numeral.isDigit c = true) := by
  cases n with
  | integer n => exact head_integerChars n
  | real x => exact (writesReal_realChars hf).head

/-- A printed value begins with a character that is no white space and no end. -/
theorem head_chars (l : Layout) (d : Nat) {j : Json} (hf : Finite j) :
    ∃ c cs, chars l d j = c :: cs ∧ Reader.isSpace c = false ∧ Text.isBlank c = false ∧ c ≠ ']' := by
  match j, hf with
  | .null, _ => exact ⟨'n', _, rfl, by decide⟩
  | .bool true, _ => exact ⟨'t', _, rfl, by decide⟩
  | .bool false, _ => exact ⟨'f', _, rfl, by decide⟩
  | .text s, _ => exact ⟨'"', _, rfl, by decide⟩
  | .array [], _ => exact ⟨'[', _, rfl, by decide⟩
  | .array (_ :: _), _ => exact ⟨'[', _, rfl, by decide⟩
  | .object [], _ => exact ⟨'{', _, rfl, by decide⟩
  | .object (_ :: _), _ => exact ⟨'{', _, rfl, by decide⟩
  | .number n, hf =>
    obtain ⟨c, cs, he, hc⟩ := head_numberChars hf
    have hblank : Text.isBlank c = false := by
      rcases hc with rfl | hc
      · rfl
      · exact Text.not_isBlank_of_isDigit hc
    exact ⟨c, cs, he, Reader.isSpace_of_isDigit hc, hblank, Reader.ne_of_isDigit hc (by decide)⟩

theorem length_le_itemChars (l : Layout) (d : Nat) (items : List Json) :
    items.length ≤ (itemChars l d items).length := by
  induction items with
  | nil => exact Nat.zero_le _
  | cons a rest ih =>
    simp only [itemChars, List.length_cons, List.length_append]
    omega

theorem length_le_memberChars (l : Layout) (d : Nat) (members : Members) :
    members.length ≤ (memberChars l d members).length := by
  induction members with
  | nil => exact Nat.zero_le _
  | cons m rest ih =>
    obtain ⟨k, a⟩ := m
    simp only [memberChars, List.length_cons, List.length_append]
    omega

section RoundTrip

open Reader

variable {l : Layout}

theorem ends_itemChars (l : Layout) (d : Nat) (items : List Json) {rest : List Char}
    (hr : Ends rest) : Ends (itemChars l d items ++ rest) := by
  cases items with
  | nil => exact hr
  | cons a items => exact ends_of_head (by decide) _

theorem ends_memberChars (l : Layout) (d : Nat) (members : Members) {rest : List Char}
    (hr : Ends rest) : Ends (memberChars l d members ++ rest) := by
  cases members with
  | nil => exact hr
  | cons m members => exact ends_of_head (by decide) _

theorem hasNextItem_chars (hl : l.Spaced) {d : Nat} {j : Json} (hf : Finite j)
    (more : List Char) :
    hasNextItem true (l.line d ++ (chars l d j ++ more)) = .ok true (chars l d j ++ more) ∧
      hasNextItem false (',' :: (l.line d ++ (chars l d j ++ more))) =
        .ok true (chars l d j ++ more) := by
  obtain ⟨c, cs, he, hs, -, hc⟩ := head_chars l d hf
  rw [he]
  exact ⟨hasNextItem_first (hl.line d) hs hc _, hasNextItem_comma (hl.line d) hs hc _⟩

theorem number_numberChars {n : Number} (hc : Canonical (.number n)) (hf : Finite (.number n))
    {rest : List Char} (hr : Ends rest) :
    ∃ n', Reader.number (numberChars n ++ rest) = .ok n' rest ∧ Rereads (.number n) (.number n') := by
  cases n with
  | integer n => exact ⟨_, number_integerChars hc hr, .refl _⟩
  | real x =>
    obtain ⟨y, hy⟩ := (writesReal_realChars hf).number hr
    exact ⟨_, hy, fun h => absurd h id, by simp⟩

theorem member_chars (hl : l.Spaced) {room d : Nat} {acc members : Members} {k : String} {a : Json}
    {rest : List Char} (hk : Ordered.Ascending ((acc ++ (k, a) :: members).map (·.1))) {fits : Prop}
    (ha : Reads (value room (chars l d a ++ rest)) fits (Rereads a) rest) :
    Reads (member (value room) acc k (l.colon ++ (chars l d a ++ rest))) fits
      (fun read => ∃ a', read = acc ++ [(k, a')] ∧ (Integral a → a' = a)) rest := by
  obtain ⟨sp, he, hsp⟩ := hl.colon
  have hcolon : colon (l.colon ++ (chars l d a ++ rest)) = .ok () (sp ++ (chars l d a ++ rest)) := by
    rw [he]
    exact bind_of_ok (peekPart_cons (by rfl) _)
  rw [member, bind_of_ok hcolon]
  have hvalue : Reads (value room (sp ++ (chars l d a ++ rest))) fits (Rereads a) rest := by
    rwa [value_spaces hsp]
  apply hvalue.bind_pure
  intro a' ha'
  have hk' : Ordered.Ascending ((acc ++ (k, a') :: members).map (·.1)) := by simpa using hk
  exact ⟨a', insert_of_ascending hk', ha'.same⟩

section Step

variable {room fuel : Nat} {first : Bool} {a : Json} {fits fits' : Prop} {cs mid next rest : List Char}

theorem items_step {items : List Json} (hn : hasNextItem first cs = .ok true mid)
    (ha : Reads (value room mid) fits (Rereads a) next)
    (hr : Reads (itemsFrom (value room) fuel false next) fits'
      (fun read => IntegralItems items → read = items) rest) :
    Reads (itemsFrom (value room) (fuel + 1) first cs) (fits ∧ fits')
      (fun read => IntegralItems (a :: items) → read = a :: items) rest := by
  rw [itemsFrom, bind_of_ok hn]
  simp only [if_true]
  refine ha.bind fun a' ha' => hr.bind_pure fun read hread hi => ?_
  rw [ha'.same hi.1, hread hi.2]

theorem members_step {members acc : Members} {k : String} {behind : List Char}
    (hn : hasNextMember first cs = .ok true mid) (hq : quotedText mid = .ok k behind)
    (hm : Reads (member (value room) acc k behind) fits
      (fun read => ∃ a', read = acc ++ [(k, a')] ∧ (Integral a → a' = a)) next)
    (hr : ∀ a', Reads (membersFrom (member (value room)) fuel false (acc ++ [(k, a')]) next) fits'
      (fun read => IntegralMembers members → read = acc ++ [(k, a')] ++ members) rest) :
    Reads (membersFrom (member (value room)) (fuel + 1) first acc cs) (fits ∧ fits')
      (fun read => IntegralMembers ((k, a) :: members) → read = acc ++ (k, a) :: members) rest := by
  rw [membersFrom, bind_of_ok hn]
  simp only [if_true]
  rw [bind_of_ok hq]
  apply hm.bind
  rintro _ ⟨a', rfl, ha⟩
  refine (hr a').mono Iff.rfl fun read hread hi => ?_
  rw [hread hi.2, ha hi.1, List.append_assoc, List.singleton_append]

end Step

-- The three statements follow the value. `room` is the depth that the reader may still open; what the
-- reader of a list has for fuel is the length of the text, and an item takes at least one character of it.
mutual

/-- A printed value is read back if it nests no deeper than it may, and only then. -/
theorem value_chars (hl : l.Spaced) (j : Json) (d room : Nat) {rest : List Char}
    (hc : Canonical j) (hf : Finite j) (hr : Ends rest) :
    Reads (value room (chars l d j ++ rest)) (depth j ≤ room) (Rereads j) rest := by
  match j, room with
  | .null, 0 | .null, _ + 1 => exact .of_ok rfl (Nat.zero_le _) (.refl _)
  | .bool true, 0 | .bool true, _ + 1 => exact .of_ok rfl (Nat.zero_le _) (.refl _)
  | .bool false, 0 | .bool false, _ + 1 => exact .of_ok rfl (Nat.zero_le _) (.refl _)
  | .number n, 0 | .number n, _ + 1 =>
    obtain ⟨n', hn, hsame⟩ := number_numberChars hc hf hr
    exact .of_ok (valueWith_number _ _ (head_numberChars hf) hn) (Nat.zero_le _) hsame
  | .text s, 0 | .text s, _ + 1 =>
    exact .of_ok (valueWith_text _ _ s rest) (Nat.zero_le _) (.refl _)
  | .array [], 0 | .array (_ :: _), 0 => exact .of_error ⟨_, _, rfl⟩ (Nat.not_succ_le_zero _)
  | .object [], 0 | .object (_ :: _), 0 => exact .of_error ⟨_, _, rfl⟩ (Nat.not_succ_le_zero _)
  | .array [], room + 1 => exact .of_ok rfl (by simp [depth, depthItems]) (.refl _)
  | .array (a :: items), room + 1 =>
    have hends := ends_itemChars l (d + 1) items
      (ends_spaces (hl.line d) (ends_of_head (c := ']') (by decide) rest))
    have hfirst := value_chars hl a (d + 1) room hc.1 hf.1 hends
    have hlen := length_le_itemChars l (d + 1) items
    simp only [chars, List.cons_append, List.append_assoc, List.nil_append]
    have hfuel : items.length < (l.line (d + 1) ++ (chars l (d + 1) a ++
        (itemChars l (d + 1) items ++ (l.line d ++ ']' :: rest)))).length := by
      simp only [List.length_append, List.length_cons]
      omega
    refine (value_of_items (items_step (hasNextItem_chars hl hf.1 _).1 hfirst (itemsFrom_itemChars hl
      items (d + 1) (hl.line d) hc.2 hf.2 hfuel))).mono ?_ ?_
    · exact Nat.succ_le_succ_iff.trans Nat.max_le
    · rintro _ ⟨read, rfl, hread⟩
      exact ⟨fun hi => congrArg Json.array (hread hi), by simp⟩
  | .object [], room + 1 => exact .of_ok rfl (by simp [depth, depthMembers]) (.refl _)
  | .object ((k, a) :: members), room + 1 =>
    have hends := ends_memberChars l (d + 1) members
      (ends_spaces (hl.line d) (ends_of_head (c := '}') (by decide) rest))
    have hfirst := value_chars hl a (d + 1) room hc.2.1 hf.1 hends
    have hlen := length_le_memberChars l (d + 1) members
    have hkeys : Ordered.Ascending ((([] : Members) ++ (k, a) :: members).map (·.1)) := hc.1
    simp only [chars, List.cons_append, List.append_assoc, List.nil_append]
    have hfuel : members.length < (l.line (d + 1) ++ (textChars k ++ (l.colon ++ (chars l (d + 1) a ++
        (memberChars l (d + 1) members ++ (l.line d ++ '}' :: rest)))))).length := by
      simp only [List.length_append, List.length_cons]
      omega
    refine (value_of_members (members_step (hasNextMember_first (hl.line _) k _)
      (quotedText_textChars k _) (member_chars hl hkeys hfirst) fun a' => membersFrom_memberChars hl
        members _ (d + 1) (hl.line d) hc.1 hc.2.2 hf.2 hfuel)).mono ?_ ?_
    · exact Nat.succ_le_succ_iff.trans Nat.max_le
    · rintro _ ⟨read, rfl, hread⟩
      exact ⟨fun hi => congrArg Json.object (hread hi), by simp⟩

theorem itemsFrom_itemChars (hl : l.Spaced) (items : List Json) (d : Nat) {room fuel : Nat}
    {sp tail : List Char} (hsp : ∀ c ∈ sp, isSpace c = true) (hc : CanonicalItems items)
    (hf : FiniteItems items) (hfuel : items.length < fuel) :
    Reads (itemsFrom (value room) fuel false (itemChars l d items ++ (sp ++ ']' :: tail)))
      (depthItems items ≤ room) (fun read => IntegralItems items → read = items) (']' :: tail) := by
  match items, fuel with
  | [], fuel + 1 =>
    exact .of_ok (itemsFrom_stop (hasNextItem_end false hsp tail)) (Nat.zero_le _) fun _ => rfl
  | a :: items, fuel + 1 =>
    have hends := ends_itemChars l d items
      (ends_spaces hsp (ends_of_head (c := ']') (by decide) tail))
    have hfirst := value_chars hl a d room hc.1 hf.1 hends
    simp only [itemChars, List.cons_append, List.append_assoc]
    exact (items_step (hasNextItem_chars hl hf.1 _).2 hfirst (itemsFrom_itemChars hl items d hsp hc.2
      hf.2 (Nat.lt_of_succ_lt_succ hfuel))).mono Nat.max_le fun _ => id

theorem membersFrom_memberChars (hl : l.Spaced) (members acc : Members) (d : Nat)
    {room fuel : Nat} {sp tail : List Char} (hsp : ∀ c ∈ sp, isSpace c = true)
    (hk : Ordered.Ascending ((acc ++ members).map (·.1))) (hc : CanonicalMembers members)
    (hf : FiniteMembers members) (hfuel : members.length < fuel) :
    Reads (membersFrom (member (value room)) fuel false acc
      (memberChars l d members ++ (sp ++ '}' :: tail))) (depthMembers members ≤ room)
      (fun read => IntegralMembers members → read = acc ++ members) ('}' :: tail) := by
  match members, fuel with
  | [], fuel + 1 =>
    rw [List.append_nil]
    exact .of_ok (membersFrom_stop (hasNextMember_end false hsp tail)) (Nat.zero_le _) fun _ => rfl
  | (k, a) :: members, fuel + 1 =>
    have hends := ends_memberChars l d members
      (ends_spaces hsp (ends_of_head (c := '}') (by decide) tail))
    have hfirst := value_chars hl a d room hc.1 hf.1 hends
    simp only [memberChars, List.cons_append, List.append_assoc]
    have hkeys (a' : Json) : Ordered.Ascending ((acc ++ [(k, a')] ++ members).map (·.1)) := by
      simpa using hk
    exact (members_step (hasNextMember_comma (hl.line d) k _) (quotedText_textChars k _)
      (member_chars hl hk hfirst) fun a' => membersFrom_memberChars hl members _ d hsp (hkeys a') hc.2
        hf.2 (Nat.lt_of_succ_lt_succ hfuel)).mono Nat.max_le fun _ => id

end

/-- A printed value is read back from the whole of a text if it nests no deeper than a text may. -/
theorem reads_parseChars (hl : l.Spaced) {j : Json} (hc : Canonical j) (hf : Finite j) :
    (depth j ≤ maxDepth → ∃ j', parseChars (chars l 0 j) = .ok j' ∧ Rereads j j') ∧
      (¬ depth j ≤ maxDepth → ∃ reason, parseChars (chars l 0 j) = .error reason) := by
  have hends : Ends [] := by
    intro c h
    cases h
  have hvalue := value_chars hl j 0 maxDepth hc hf hends
  rw [List.append_nil] at hvalue
  constructor
  · intro hd
    obtain ⟨j', hj, hsame⟩ := hvalue.1 hd
    refine ⟨j', ?_, hsame⟩
    rw [parseChars, run, hj]
    rfl
  · intro hd
    obtain ⟨f, after, hfail⟩ := hvalue.2 hd
    rw [parseChars, run, hfail]
    exact ⟨_, rfl⟩

theorem parseChars_chars (hl : l.Spaced) {j : Json} (hc : Canonical j) (hi : Integral j)
    (hd : depth j ≤ maxDepth) : parseChars (chars l 0 j) = .ok j := by
  obtain ⟨j', hj, hsame⟩ := (reads_parseChars hl hc hi.finite).1 hd
  rw [hj, hsame.same hi]

end RoundTrip

end EdgeFleet.Json

namespace EdgeFleet.Document

/-- A printed value is not blank, since it does not begin with a blank. -/
theorem isBlankText_chars (l : Json.Layout) {j : Json} (hf : j.Finite) :
    Text.isBlankText (String.ofList (j.chars l 0)) = false := by
  obtain ⟨c, cs, he, -, hblank, -⟩ := Json.head_chars l 0 hf
  rw [Text.isBlankText, String.toList_ofList, he, List.all_cons, hblank, Bool.false_and]

theorem parse_chars_eq (l : Json.Layout) {j : Json} (hf : j.Finite) :
    parse (String.ofList (j.chars l 0)) =
      match Json.parseChars (j.chars l 0) with
      | .ok (.object members) => .ok members
      | .ok _ => .error .notAnObject
      | .error reason => .error (.malformed reason) := by
  have hblank := isBlankText_chars l hf
  rw [Text.isBlankText, String.toList_ofList] at hblank
  rw [parse, String.toList_ofList, parseChars, hblank]
  exact if_neg Bool.false_ne_true

section Documents

variable {l : Json.Layout} (hl : l.Spaced) {members : Json.Members}
  (hc : Json.Canonical (.object members)) (hi : Json.Integral (.object members))

include hl hc hi

/-- A printed document is read back in any layout. -/
theorem parse_chars (hd : Json.depth (.object members) ≤ 127) :
    parse (String.ofList (Json.chars l 0 (.object members))) = .ok members := by
  rw [parse_chars_eq l hi.finite, Json.parseChars_chars hl hc hi hd]

theorem parse_chars_deep (hd : 127 < Json.depth (.object members)) :
    ∃ reason, parse (String.ofList (Json.chars l 0 (.object members))) =
      .error (.malformed reason) := by
  obtain ⟨reason, hfail⟩ := (Json.reads_parseChars hl hc hi.finite).2 (Nat.not_le_of_lt hd)
  exact ⟨reason, by rw [parse_chars_eq l hi.finite, hfail]⟩

end Documents

theorem parse_pretty {members : Json.Members} (hc : Json.Canonical (.object members))
    (hi : Json.Integral (.object members)) (hd : Json.depth (.object members) ≤ 127) :
    parse (Json.pretty (.object members)) = .ok members :=
  parse_chars Json.Layout.spaced_pretty hc hi hd

end EdgeFleet.Document
