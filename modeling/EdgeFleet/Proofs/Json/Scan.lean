import EdgeFleet.Json.Parser
import EdgeFleet.Json.Printer
import EdgeFleet.Proofs.Text.Digits

namespace EdgeFleet.Json

open Text.Numeral (isDigit)

namespace Reader

variable {α β : Type} {cs rest : List Char}

theorem bind_of_ok {r : Reader α} {f : α → Reader β} {a : α} (h : r cs = .ok a rest) :
    (r >>= f) cs = f a rest := by
  change EStateM.bind r f cs = _
  rw [EStateM.bind, h]

theorem peekPart_spaces {sp : List Char} (hsp : ∀ c ∈ sp, isSpace c = true) {c : Char}
    (hc : isSpace c = false) (rest : List Char) :
    peekPart (sp ++ c :: rest) = .ok (some c) (c :: rest) := by
  have hdrop : (sp ++ c :: rest).dropWhile isSpace = c :: rest := by
    rw [List.dropWhile_append_of_pos hsp, List.dropWhile_cons, hc]
    rfl
  rw [peekPart, hdrop]
  rfl

theorem peekPart_cons {c : Char} (hc : isSpace c = false) (rest : List Char) :
    peekPart (c :: rest) = .ok (some c) (c :: rest) := by
  have hnone : ∀ d ∈ ([] : List Char), isSpace d = true := by simp
  exact peekPart_spaces hnone hc rest

section Text

/-- The value of four digits of base sixteen. -/
def hexText? : List Char → Option Nat
  | [a, b, c, d] => hexUnit? a b c d
  | _ => none

theorem hexText?_control :
    ∀ n : Fin 32, hexText? (List.replicate (4 - (Text.hexDigits n).length) '0' ++
      Text.hexDigits n) = some n.val := by
  decide

theorem textFrom_unit {unit : List Char} {n : Nat} (h : hexText? unit = some n) (hn : n < 0x20)
    (cs : List Char) :
    textFrom none ('\\' :: 'u' :: (unit ++ cs)) = consChar (Char.ofNat n) (textFrom none cs) := by
  match unit, h with
  | [a, b, c, d], h =>
    have hlow : isLowUnit n = false := by simp [isLowUnit]; omega
    have hhigh : isHighUnit n = false := by simp [isHighUnit]; omega
    have hu : hexUnit? a b c d = some n := h
    simp [textFrom, hu, hlow, hhigh]

theorem textFrom_escapeChar (c : Char) (cs : List Char) :
    textFrom none (escapeChar c ++ cs) = consChar c (textFrom none cs) := by
  unfold escapeChar
  split
  · subst_vars; simp [textFrom, escaped?]
  split
  · subst_vars; simp [textFrom, escaped?]
  split
  · subst_vars; simp [textFrom, escaped?]
  split
  · subst_vars; simp [textFrom, escaped?]
  split
  · subst_vars; simp [textFrom, escaped?]
  split
  · subst_vars; simp [textFrom, escaped?]
  split
  · subst_vars; simp [textFrom, escaped?]
  split
  · rename_i h
    have hunit := textFrom_unit (hexText?_control ⟨c.toNat, h⟩) h cs
    rw [Char.ofNat_toNat] at hunit
    simpa using hunit
  · rename_i hq hb _ _ _ _ _ hge
    simp [textFrom, hq, hb, hge]

theorem textFrom_flatMap (s rest : List Char) :
    textFrom none (s.flatMap escapeChar ++ '"' :: rest) = .ok s rest := by
  induction s with
  | nil => simp [textFrom]
  | cons c s ih =>
    rw [List.flatMap_cons, List.append_assoc, textFrom_escapeChar, ih]
    rfl

theorem quotedText_textChars (s : String) (rest : List Char) :
    quotedText (textChars s ++ rest) = .ok s rest := by
  have hq : quotedChars (textChars s ++ rest) = .ok s.toList rest := by
    have hskip : skip (textChars s ++ rest) =
        .ok () (s.toList.flatMap escapeChar ++ '"' :: rest) := by
      simp [skip, textChars]
    exact (bind_of_ok hskip).trans (textFrom_flatMap s.toList rest)
  change EStateM.map String.ofList quotedChars _ = _
  rw [EStateM.map, hq]
  simp only [String.ofList_toList]

end Text

section Number

/-- What may follow a number: nothing that could belong to it. -/
def Ends (rest : List Char) : Prop :=
  ∀ c, rest.head? = some c → isDigit c = false ∧ c ≠ '.' ∧ c ≠ 'e' ∧ c ≠ 'E'

theorem accept_self (c : Char) (rest : List Char) : accept c (c :: rest) = .ok true rest := by
  simp [accept, peek, skip, bind, EStateM.bind, pure, EStateM.pure]

theorem accept_of_ne {c : Char} (h : cs.head? ≠ some c) : accept c cs = .ok false cs := by
  simp [accept, peek, h, bind, EStateM.bind, pure, EStateM.pure]

/-- What may follow a row of digits. -/
def Stops (rest : List Char) : Prop := ∀ c, rest.head? = some c → isDigit c = false

theorem Ends.stops (h : Ends rest) : Stops rest := fun c hc => (h c hc).1

theorem stops_cons {c : Char} (hc : isDigit c = false) (rest : List Char) : Stops (c :: rest) := by
  intro d hd
  obtain rfl := Option.some.inj hd
  exact hc

section Digits

variable {ds : List Char} (hd : ∀ c ∈ ds, isDigit c = true) (hr : Stops rest)

include hd hr

theorem takeDigits_append : takeDigits (ds ++ rest) = .ok ds rest := by
  have hnone : rest.takeWhile isDigit = [] ∧ rest.dropWhile isDigit = rest := by
    cases rest with
    | nil => exact ⟨rfl, rfl⟩
    | cons c cs =>
      rw [List.takeWhile_cons, List.dropWhile_cons, hr c rfl]
      exact ⟨rfl, rfl⟩
  rw [takeDigits, List.takeWhile_append_of_pos hd, List.dropWhile_append_of_pos hd, hnone.1, hnone.2,
    List.append_nil]

theorem someDigits_append (atEnd : Cause) (hne : ds ≠ []) :
    someDigits atEnd (ds ++ rest) = .ok ds rest := by
  rw [someDigits, bind_of_ok (takeDigits_append hd hr)]
  simp only [hne, ne_eq, not_false_eq_true, if_true]
  rfl

theorem wholeDigits_append (atEnd : Cause) (hne : ds ≠ [])
    (hz : ds.head? = some '0' → ds = ['0']) : wholeDigits atEnd (ds ++ rest) = .ok ds rest := by
  obtain ⟨d, more, rfl⟩ := List.exists_cons_of_ne_nil hne
  by_cases h0 : d = '0'
  · subst h0
    rw [hz rfl, List.singleton_append, wholeDigits, bind_of_ok (accept_self '0' rest)]
    simp only [if_true]
    rw [bind_of_ok (show peek rest = .ok rest.head? rest from rfl)]
    cases hh : rest.head? with
    | none => rfl
    | some c => simp only [hr c hh, Bool.false_eq_true, if_false]; rfl
  · have hhead : (d :: more ++ rest).head? ≠ some '0' := fun h => h0 (Option.some.inj h)
    rw [wholeDigits, bind_of_ok (accept_of_ne hhead)]
    simp only [Bool.false_eq_true, if_false]
    exact someDigits_append hd hr atEnd hne

end Digits

/-- The digits after a point, if there are any. -/
def fractionChars (digits : List Char) : List Char :=
  if digits = [] then [] else '.' :: digits

/-- An exponent with its sign, if there is one. -/
def exponentChars : Option (Bool × List Char) → List Char
  | none => []
  | some (negative, digits) => 'e' :: (if negative then '-' else '+') :: digits

def NumberText.chars (t : NumberText) : List Char :=
  (if t.negative then ['-'] else []) ++ t.whole ++ fractionChars t.fraction ++ exponentChars t.exponent

/-- A number in the grammar: digits alone, none of them missing, and no zero before another digit of the
whole part. -/
structure NumberText.Grammatical (t : NumberText) : Prop where
  whole_ne : t.whole ≠ []
  whole : ∀ c ∈ t.whole, isDigit c = true
  zero : t.whole.head? = some '0' → t.whole = ['0']
  fraction : ∀ c ∈ t.fraction, isDigit c = true
  exponent : ∀ negative digits, t.exponent = some (negative, digits) →
    digits ≠ [] ∧ ∀ c ∈ digits, isDigit c = true

theorem fractionDigits_append {ds : List Char} (hd : ∀ c ∈ ds, isDigit c = true)
    (hr : Stops rest) (hpoint : rest.head? ≠ some '.') (atEnd : Cause) :
    fractionDigits atEnd (fractionChars ds ++ rest) = .ok ds rest := by
  unfold fractionChars
  by_cases hne : ds = []
  · rw [if_pos hne, List.nil_append, fractionDigits, bind_of_ok (accept_of_ne hpoint), hne]
    rfl
  · rw [if_neg hne, List.cons_append, fractionDigits, bind_of_ok (accept_self '.' _)]
    simp only [if_true]
    exact someDigits_append hd hr atEnd hne

theorem exponentDigits_of_ends (atEnd : Cause) (hr : Ends rest) :
    exponentDigits atEnd rest = .ok none rest := by
  have hsmall : rest.head? ≠ some 'e' := fun h => (hr 'e' h).2.2.1 rfl
  have hgreat : rest.head? ≠ some 'E' := fun h => (hr 'E' h).2.2.2 rfl
  rw [exponentDigits, bind_of_ok (show peek rest = .ok rest.head? rest from rfl)]
  simp only [hsmall, hgreat, or_self, if_false]
  rfl

theorem exponentDigits_append {exponent : Option (Bool × List Char)} (atEnd : Cause)
    (h : ∀ negative digits, exponent = some (negative, digits) →
      digits ≠ [] ∧ ∀ c ∈ digits, isDigit c = true) (hr : Ends rest) :
    exponentDigits atEnd (exponentChars exponent ++ rest) = .ok exponent rest := by
  match exponent with
  | none => exact exponentDigits_of_ends atEnd hr
  | some (negative, ds) =>
    obtain ⟨hne, hd⟩ := h negative ds rfl
    have hdigits := someDigits_append hd hr.stops atEnd hne
    have hskip (cs : List Char) : skip ('e' :: cs) = .ok () cs := rfl
    simp only [exponentChars, List.cons_append]
    rw [exponentDigits, bind_of_ok (show peek ('e' :: _) = .ok (some 'e') _ from rfl)]
    simp only [true_or, if_true]
    rw [bind_of_ok (hskip _)]
    cases negative with
    | true =>
      rw [if_pos rfl, bind_of_ok (accept_self '-' _)]
      simp only [if_true]
      rw [bind_of_ok hdigits]
      rfl
    | false =>
      rw [if_neg Bool.false_ne_true, bind_of_ok (accept_of_ne (by simp))]
      simp only [Bool.false_eq_true, if_false]
      rw [bind_of_ok (accept_self '+' _), bind_of_ok hdigits]
      rfl

theorem head_exponentChars (exponent : Option (Bool × List Char)) (hr : Ends rest) :
    Stops (exponentChars exponent ++ rest) ∧ (exponentChars exponent ++ rest).head? ≠ some '.' := by
  match exponent with
  | none => exact ⟨hr.stops, fun h => (hr '.' h).2.1 rfl⟩
  | some (negative, ds) => exact ⟨stops_cons (by decide) _, by simp [exponentChars]⟩

theorem stops_fractionChars (ds : List Char) (hr : Stops rest) : Stops (fractionChars ds ++ rest) := by
  unfold fractionChars
  split
  · exact hr
  · exact stops_cons (by decide) _

theorem NumberText.Grammatical.accept_sign {t : NumberText} (h : t.Grammatical) (more : List Char) :
    accept '-' ((if t.negative then ['-'] else []) ++ (t.whole ++ more)) =
      .ok t.negative (t.whole ++ more) := by
  obtain ⟨d, ds, hwhole⟩ := List.exists_cons_of_ne_nil h.whole_ne
  have hdigit : isDigit d = true := h.whole d (by rw [hwhole]; exact List.mem_cons_self)
  cases hsign : t.negative with
  | true => exact accept_self '-' _
  | false =>
    apply accept_of_ne
    rw [hwhole]
    rintro he
    obtain rfl := Option.some.inj he
    cases hdigit

theorem numberText_chars {t : NumberText} (h : t.Grammatical) (atEnd : Cause) (hr : Ends rest) :
    numberText atEnd (t.chars ++ rest) = .ok t rest := by
  obtain ⟨hstops, hpoint⟩ := head_exponentChars t.exponent hr
  have hwhole := wholeDigits_append h.whole (stops_fractionChars t.fraction hstops) atEnd h.whole_ne h.zero
  have hfraction := fractionDigits_append h.fraction hstops hpoint atEnd
  have hexponent := exponentDigits_append atEnd h.exponent hr
  simp only [NumberText.chars, List.append_assoc]
  rw [numberText, bind_of_ok (h.accept_sign _), bind_of_ok hwhole, bind_of_ok hfraction,
    bind_of_ok hexponent]
  rfl

theorem grammatical_integer (negative : Bool) (n : Nat) :
    NumberText.Grammatical ⟨negative, Nat.toDigits 10 n, [], none⟩ where
  whole_ne := Nat.toDigits_ne_nil
  whole _ hc := Text.Numeral.isDigit_of_mem_toDigits hc
  zero := by
    intro h0
    rcases Nat.eq_zero_or_pos n with rfl | hn
    · rfl
    · exact absurd h0 (Text.Numeral.head?_toDigits hn)
  fraction := by simp
  exponent := by simp

theorem le_extend (n : Nat) (ds : List Char) : n ≤ Text.Numeral.extend n ds := by
  induction ds generalizing n with
  | nil => exact Nat.le_refl n
  | cons c ds ih =>
    have h := ih (10 * n + Text.Numeral.digit c)
    have hstep : Text.Numeral.extend n (c :: ds) =
        Text.Numeral.extend (10 * n + Text.Numeral.digit c) ds := rfl
    omega

theorem gather_of_le {n : Nat} {ds : List Char}
    (h : Text.Numeral.extend n ds ≤ 0xFFFFFFFFFFFFFFFF) :
    gather n ds = (Text.Numeral.extend n ds, []) := by
  induction ds generalizing n with
  | nil => rfl
  | cons c ds ih =>
    have hstep : Text.Numeral.extend n (c :: ds) =
        Text.Numeral.extend (10 * n + Text.Numeral.digit c) ds := rfl
    rw [hstep] at h ⊢
    have hle := le_extend (10 * n + Text.Numeral.digit c) ds
    have hnext : 10 * n + Text.Numeral.digit c ≤ 0xFFFFFFFFFFFFFFFF := Nat.le_trans hle h
    rw [gather, if_pos hnext, ih h]

theorem gather_toDigits {n : Nat} (h : n ≤ 0xFFFFFFFFFFFFFFFF) :
    gather 0 (Nat.toDigits 10 n) = (n, []) := by
  have hv : Text.Numeral.extend 0 (Nat.toDigits 10 n) = n := Text.Numeral.value_toDigits n
  rw [gather_of_le (by rw [hv]; exact h), hv]

theorem number_integerChars {n : Int} (hn : minInteger ≤ n ∧ n ≤ maxInteger) (hr : Ends rest) :
    number (integerChars n ++ rest) = .ok (.integer n) rest := by
  cases n with
  | ofNat n =>
    have hle : n ≤ 0xFFFFFFFFFFFFFFFF := by
      have h := hn.2
      simp only [maxInteger, Int.ofNat_eq_natCast] at h
      omega
    have htext := numberText_chars (grammatical_integer false n) .endInValue hr
    simp only [NumberText.chars, fractionChars, exponentChars, if_true, Bool.false_eq_true, if_false,
      List.nil_append, List.append_nil] at htext
    refine (bind_of_ok htext).trans ?_
    simp [NumberText.value, gather_toDigits hle]
  | negSucc n =>
    have hle : n + 1 ≤ 0x8000000000000000 := by
      have h := hn.1
      simp only [minInteger, Int.negSucc_eq] at h
      omega
    have htext := numberText_chars (grammatical_integer true (n + 1)) .endInValue hr
    simp only [NumberText.chars, fractionChars, exponentChars, if_true, List.append_nil] at htext
    have hgather := gather_toDigits (n := n + 1) (by omega)
    refine (bind_of_ok htext).trans ?_
    have hin : ¬ (n + 1 = 0 ∨ 0x8000000000000000 < n + 1) := by omega
    simp only [NumberText.value, hgather, and_self, if_true, Bool.not_true, Bool.false_eq_true,
      if_false, hin, Int.negSucc_eq]
    rfl

end Number

end Reader

end EdgeFleet.Json
