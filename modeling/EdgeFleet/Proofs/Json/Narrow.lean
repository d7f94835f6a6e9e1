import EdgeFleet.Json.Shape
import EdgeFleet.Proofs.Json.Scan
import Mathlib.Data.List.Forall2

/-! Readers that accept less than others. A strict reader narrows a loose one along a partial map of the
values if it reads exactly the texts whose loose value the map keeps, as what the map makes of it. -/
namespace EdgeFleet.Json.Reader

variable {α β γ σ τ ρ υ : Type}

section Success

variable {cs rest : List Char}

theorem bind_eq_ok_iff {r : Reader α} {k : α → Reader β} {b : β} :
    (r >>= k) cs = .ok b rest ↔ ∃ a mid, r cs = .ok a mid ∧ k a mid = .ok b rest := by
  change EStateM.bind r k cs = _ ↔ _
  rw [EStateM.bind]
  cases r cs <;> simp

theorem map_eq_ok_iff {r : Reader α} {f : α → β} {b : β} :
    (f <$> r) cs = .ok b rest ↔ ∃ a, r cs = .ok a rest ∧ f a = b := by
  change EStateM.map f r cs = _ ↔ _
  rw [EStateM.map]
  cases r cs with
  | error fault left => simp
  | ok a left =>
    simp only [EStateM.Result.ok.injEq]
    constructor
    · rintro ⟨rfl, rfl⟩
      exact ⟨a, ⟨rfl, rfl⟩, rfl⟩
    · rintro ⟨a, ⟨rfl, rfl⟩, rfl⟩
      exact ⟨rfl, rfl⟩

theorem pure_eq_ok_iff {a b : α} : (pure a : Reader α) cs = .ok b rest ↔ a = b ∧ cs = rest := by
  change EStateM.Result.ok a cs = _ ↔ _
  simp

theorem failHere_ne_ok (cause : Cause) (cs : List Char) (a : α) (rest : List Char) :
    failHere cause cs ≠ .ok a rest := by
  simp [failHere]

theorem fail_ne_ok (cause : Cause) (cs : List Char) (a : α) (rest : List Char) :
    fail cause cs ≠ .ok a rest := by
  simp [fail]

theorem mismatch_ne_ok (cause : Cause) (cs : List Char) (a : α) (rest : List Char) :
    mismatch cause cs ≠ .ok a rest := by
  simp [mismatch]

theorem unexpected_ne_ok (expected : String) (cs : List Char) (a : α) (rest : List Char) :
    unexpected expected cs ≠ .ok a rest := by
  intro h
  simp only [unexpected, bind_eq_ok_iff] at h
  obtain ⟨c, mid, -, h⟩ := h
  cases c with
  | none => exact fail_ne_ok _ _ _ _ h
  | some c =>
    simp only at h
    repeat' split at h
    all_goals simp only [bind_eq_ok_iff, failHere_ne_ok, fail_ne_ok, and_false, exists_false] at h

theorem enclosed_eq_ok_iff {body : Reader α} {close : Reader Unit} {a : α} :
    enclosed body close cs = .ok a rest ↔
      ∃ mid, body cs = .ok a mid ∧ close mid = .ok () rest := by
  rw [enclosed]
  cases body cs with
  | error fault left =>
    simp only
    split <;> simp
  | ok b left =>
    simp only
    cases hclose : close left with
    | error fault left' =>
      simp only [reduceCtorEq, EStateM.Result.ok.injEq, false_iff]
      rintro ⟨mid, ⟨-, rfl⟩, h⟩
      rw [hclose] at h
      cases h
    | ok u left' =>
      simp only [EStateM.Result.ok.injEq]
      constructor
      · rintro ⟨rfl, rfl⟩
        exact ⟨left, ⟨rfl, rfl⟩, hclose⟩
      · rintro ⟨mid, ⟨rfl, rfl⟩, h⟩
        rw [hclose] at h
        cases h
        exact ⟨rfl, rfl⟩

theorem run_eq_ok_iff {r : Reader α} {text : List Char} {a : α} :
    r.run text = .ok a ↔ ∃ rest, r text = .ok a rest ∧ rest.dropWhile isSpace = [] := by
  rw [run]
  cases r text with
  | error fault left => simp
  | ok b left =>
    simp only [EStateM.Result.ok.injEq]
    cases hleft : left.dropWhile isSpace with
    | nil =>
      simp only [Except.ok.injEq]
      constructor
      · rintro rfl
        exact ⟨left, ⟨rfl, rfl⟩, hleft⟩
      · rintro ⟨rest, ⟨rfl, rfl⟩, -⟩
        rfl
    | cons c more =>
      simp only [reduceCtorEq, false_iff]
      rintro ⟨rest, ⟨-, rfl⟩, h⟩
      rw [hleft] at h
      cases h

end Success

/-- Whether the strict reader reads exactly the texts whose loose value `f` keeps. -/
def Narrows (f : α → Option β) (strict : Reader β) (loose : Reader α) : Prop :=
  ∀ cs b rest, strict cs = .ok b rest ↔ ∃ a, loose cs = .ok a rest ∧ f a = some b

theorem Narrows.refl (r : Reader α) : Narrows some r r := by
  intro cs a rest
  simp

/-- Whether two readers that go on from a draft belong together: the strict one reads exactly the
texts whose loose value `g` keeps, if `f` keeps the loose draft, and none otherwise. Loose drafts meet
`P`, and loose values `Q`. -/
structure Follows (P : σ → Prop) (Q : α → Prop) (f : σ → Option τ) (g : α → Option β)
    (strict : τ → Reader β) (loose : σ → Reader α) : Prop where
  keeps : ∀ {d cs a rest}, P d → loose d cs = .ok a rest → Q a
  reads : ∀ {d}, P d → ∀ cs b rest,
    (∃ e, f d = some e ∧ strict e cs = .ok b rest) ↔ ∃ a, loose d cs = .ok a rest ∧ g a = some b

namespace Follows

variable {P : σ → Prop} {Q : α → Prop} {R : ρ → Prop} {f : σ → Option τ} {g : α → Option β}
  {h : ρ → Option υ} {strict : τ → Reader β} {loose : σ → Reader α}

theorem pure {P' : σ → Prop} (hP : ∀ d, P d → P' d) (f : σ → Option τ) :
    Follows P P' f f Pure.pure Pure.pure where
  keeps {d cs a rest} hd ha := by
    obtain ⟨rfl, -⟩ := pure_eq_ok_iff.mp ha
    exact hP d hd
  reads {d} _ cs b rest := by
    simp only [pure_eq_ok_iff]
    constructor
    · rintro ⟨e, he, rfl, rfl⟩
      exact ⟨d, ⟨rfl, rfl⟩, he⟩
    · rintro ⟨a, ⟨rfl, rfl⟩, ha⟩
      exact ⟨b, ha, rfl, rfl⟩

theorem bind {strict' : β → Reader υ} {loose' : α → Reader ρ} (h1 : Follows P Q f g strict loose)
    (h2 : Follows Q R g h strict' loose') :
    Follows P R f h (fun e => strict e >>= strict') (fun d => loose d >>= loose') where
  keeps {d cs c rest} hd hc := by
    obtain ⟨a, mid, ha, hc⟩ := bind_eq_ok_iff.mp hc
    exact h2.keeps (h1.keeps hd ha) hc
  reads {d} hd cs c rest := by
    simp only [bind_eq_ok_iff]
    constructor
    · rintro ⟨e, he, b, mid, hb, hc⟩
      obtain ⟨a, ha, hg⟩ := (h1.reads hd cs b mid).mp ⟨e, he, hb⟩
      obtain ⟨c', hc', hh⟩ := (h2.reads (h1.keeps hd ha) mid c rest).mp ⟨b, hg, hc⟩
      exact ⟨c', ⟨a, mid, ha, hc'⟩, hh⟩
    · rintro ⟨c', ⟨a, mid, ha, hc'⟩, hh⟩
      obtain ⟨b, hg, hc⟩ := (h2.reads (h1.keeps hd ha) mid c rest).mpr ⟨c', hc', hh⟩
      obtain ⟨e, he, hb⟩ := (h1.reads hd cs b mid).mpr ⟨a, ha, hg⟩
      exact ⟨e, he, b, mid, hb, hc⟩

theorem after (r : Reader γ) {strict : γ → τ → Reader β} {loose : γ → σ → Reader α}
    (hr : ∀ c, Follows P Q f g (strict c) (loose c)) :
    Follows P Q f g (fun e => r >>= fun c => strict c e) (fun d => r >>= fun c => loose c d) where
  keeps {d cs a rest} hd ha := by
    obtain ⟨c, mid, -, ha⟩ := bind_eq_ok_iff.mp ha
    exact (hr c).keeps hd ha
  reads {d} hd cs b rest := by
    simp only [bind_eq_ok_iff]
    constructor
    · rintro ⟨e, he, c, mid, hc, hb⟩
      obtain ⟨a, ha, hg⟩ := ((hr c).reads hd mid b rest).mp ⟨e, he, hb⟩
      exact ⟨a, ⟨c, mid, hc, ha⟩, hg⟩
    · rintro ⟨a, ⟨c, mid, hc, ha⟩, hg⟩
      obtain ⟨e, he, hb⟩ := ((hr c).reads hd mid b rest).mpr ⟨a, ha, hg⟩
      exact ⟨e, he, c, mid, hc, hb⟩

theorem of_fails (hs : ∀ e cs b rest, strict e cs ≠ .ok b rest)
    (hl : ∀ d cs a rest, loose d cs ≠ .ok a rest) : Follows P Q f g strict loose where
  keeps {d cs a rest} _ ha := absurd ha (hl d cs a rest)
  reads {d} _ cs b rest := by simp only [hs, hl, and_false, false_and, exists_false]

theorem enclosed (hb : Follows P Q f g strict loose) (close : Reader Unit) :
    Follows P Q f g (fun e => Reader.enclosed (strict e) close)
      (fun d => Reader.enclosed (loose d) close) where
  keeps {d cs a rest} hd ha := by
    obtain ⟨mid, ha, -⟩ := enclosed_eq_ok_iff.mp ha
    exact hb.keeps hd ha
  reads {d} hd cs b rest := by
    simp only [enclosed_eq_ok_iff]
    constructor
    · rintro ⟨e, he, mid, hm, hc⟩
      obtain ⟨a, ha, hg⟩ := (hb.reads hd cs b mid).mp ⟨e, he, hm⟩
      exact ⟨a, ⟨mid, ha, hc⟩, hg⟩
    · rintro ⟨a, ⟨mid, ha, hc⟩, hg⟩
      obtain ⟨e, he, hm⟩ := (hb.reads hd cs b mid).mpr ⟨a, ha, hg⟩
      exact ⟨e, he, mid, hm, hc⟩

theorem mono {P' : σ → Prop} (hb : Follows P Q f g strict loose) (hP : ∀ d, P' d → P d) :
    Follows P' Q f g strict loose where
  keeps hd := hb.keeps (hP _ hd)
  reads hd := hb.reads (hP _ hd)

theorem narrows (hb : Follows P Q f g strict loose) {d : σ} {e : τ} (hd : P d) (he : f d = some e) :
    Narrows g (strict e) (loose d) := by
  intro cs b rest
  rw [← hb.reads hd cs b rest, he]
  simp

end Follows

section Lists

variable {item : Reader α} {f : α → Option β} {strict : Reader β} {loose : Reader α}

theorem itemsFrom_eq_ok_iff {fuel : Nat} {first : Bool} {cs rest : List Char} {as : List α} :
    itemsFrom item (fuel + 1) first cs = .ok as rest ↔
      (hasNextItem first cs = .ok false rest ∧ as = []) ∨
      ∃ mid a next more, hasNextItem first cs = .ok true mid ∧ item mid = .ok a next ∧
        itemsFrom item fuel false next = .ok more rest ∧ as = a :: more := by
  simp only [itemsFrom, bind_eq_ok_iff]
  constructor
  · rintro ⟨again, mid, hagain, has⟩
    cases again with
    | false =>
      obtain ⟨rfl, rfl⟩ := pure_eq_ok_iff.mp has
      exact Or.inl ⟨hagain, rfl⟩
    | true =>
      simp only [if_true, bind_eq_ok_iff, pure_eq_ok_iff] at has
      obtain ⟨a, next, ha, more, last, hmore, rfl, rfl⟩ := has
      exact Or.inr ⟨mid, a, next, more, hagain, ha, hmore, rfl⟩
  · rintro (⟨hend, rfl⟩ | ⟨mid, a, next, more, hagain, ha, hmore, rfl⟩)
    · exact ⟨false, rest, hend, pure_eq_ok_iff.mpr ⟨rfl, rfl⟩⟩
    · refine ⟨true, mid, hagain, ?_⟩
      simp only [if_true, bind_eq_ok_iff, pure_eq_ok_iff]
      exact ⟨a, next, ha, more, rest, hmore, rfl, rfl⟩

theorem Narrows.itemsFrom (h : Narrows f strict loose) (fuel : Nat) (first : Bool) :
    Narrows (List.mapM f) (itemsFrom strict fuel first) (itemsFrom loose fuel first) := by
  induction fuel generalizing first with
  | zero =>
    intro cs bs rest
    simp only [Reader.itemsFrom, fail_ne_ok, false_and, exists_false]
  | succ fuel ih =>
    intro cs bs rest
    simp only [itemsFrom_eq_ok_iff]
    constructor
    · rintro (⟨hend, rfl⟩ | ⟨mid, b, next, more, hagain, hb, hmore, rfl⟩)
      · exact ⟨[], Or.inl ⟨hend, rfl⟩, rfl⟩
      · obtain ⟨a, ha, hf⟩ := (h mid b next).mp hb
        obtain ⟨as, has, hfs⟩ := (ih false next more rest).mp hmore
        refine ⟨a :: as, Or.inr ⟨mid, a, next, as, hagain, ha, has, rfl⟩, ?_⟩
        simp [List.mapM_cons, hf, hfs]
    · rintro ⟨as, ⟨hend, rfl⟩ | ⟨mid, a, next, more, hagain, ha, hmore, rfl⟩, hfs⟩
      · exact Or.inl ⟨hend, (Option.some.inj hfs).symm⟩
      · simp only [List.mapM_cons, Option.bind_eq_bind, Option.bind_eq_some_iff, Option.pure_def,
          Option.some.injEq] at hfs
        obtain ⟨b, hf, bs', hfs, rfl⟩ := hfs
        exact Or.inr ⟨mid, b, next, bs', hagain, (h mid b next).mpr ⟨a, ha, hf⟩,
          (ih false next bs' rest).mpr ⟨more, hmore, hfs⟩, rfl⟩

theorem Narrows.follows (h : Narrows f strict loose) :
    Follows (fun _ : Unit => True) (fun _ => True) some f (fun _ => strict) (fun _ => loose) where
  keeps _ _ := trivial
  reads {d} _ cs b rest := by
    rw [← h cs b rest]
    simp

theorem Narrows.after (r : Reader γ) {strict : γ → Reader β} {loose : γ → Reader α}
    (h : ∀ c, Narrows f (strict c) (loose c)) : Narrows f (r >>= strict) (r >>= loose) :=
  (Follows.after r fun c => (h c).follows).narrows (d := ()) trivial rfl

theorem Narrows.of_fails (hs : ∀ cs b rest, strict cs ≠ .ok b rest)
    (hl : ∀ cs a rest, loose cs ≠ .ok a rest) : Narrows f strict loose :=
  (Follows.of_fails (fun _ => hs) fun _ => hl).narrows (P := fun _ : Unit => True) (Q := fun _ => True)
    (f := some) (d := ()) trivial rfl

theorem Narrows.enclosed (h : Narrows f strict loose) (close : Reader Unit) :
    Narrows f (enclosed strict close) (enclosed loose close) :=
  (h.follows.enclosed close).narrows (d := ()) trivial rfl

theorem Narrows.listOf (h : Narrows f strict loose) :
    Narrows (List.mapM f) (listOf strict) (listOf loose) := by
  refine Narrows.after peekPart fun c => ?_
  cases c with
  | none => exact Narrows.of_fails (fail_ne_ok _) (fail_ne_ok _)
  | some c =>
    by_cases hc : c = '['
    · simp only [hc, if_true]
      refine Narrows.after skip fun _ => Narrows.enclosed ?_ endItems
      exact Narrows.after remaining fun n => h.itemsFrom (n + 1) true
    · simp only [hc, if_false]
      exact Narrows.of_fails (unexpected_ne_ok _) (unexpected_ne_ok _)

theorem Narrows.nullable (h : Narrows f strict loose) :
    Narrows (Option.mapM f) (nullable strict) (nullable loose) := by
  refine Narrows.after peekPart fun c => ?_
  by_cases hc : c = some 'n'
  · simp only [hc, if_true]
    refine Narrows.after skip fun _ => Narrows.after (word _) fun _ => ?_
    intro cs o rest
    simp only [pure_eq_ok_iff]
    constructor
    · rintro ⟨rfl, rfl⟩
      exact ⟨none, ⟨rfl, rfl⟩, rfl⟩
    · rintro ⟨a, ⟨rfl, rfl⟩, ha⟩
      exact ⟨Option.some.inj ha, rfl⟩
  · simp only [hc, if_false]
    intro cs o rest
    simp only [bind_eq_ok_iff, pure_eq_ok_iff]
    constructor
    · rintro ⟨b, mid, hb, rfl, rfl⟩
      obtain ⟨a, ha, hf⟩ := (h _ _ _).mp hb
      exact ⟨some a, ⟨a, mid, ha, rfl, rfl⟩, by simp [hf]⟩
    · rintro ⟨-, ⟨a, mid, ha, rfl, rfl⟩, ho⟩
      simp only [Option.mapM_some, Option.map_eq_map, Option.map_eq_some_iff] at ho
      obtain ⟨b, hf, rfl⟩ := ho
      exact ⟨b, mid, (h _ _ _).mpr ⟨a, ha, hf⟩, rfl, rfl⟩

end Lists

section Records

/-- Whether a member of a strict record belongs to one of a loose record. It goes into drafts in which
it is not set, as `U` tells, and the other members that are not set stay so. -/
structure Member.Narrows (U : String → σ → Prop) (f : σ → Option τ) (strict : Member τ)
    (loose : Member σ) : Prop where
  name : strict.name = loose.name
  optional : strict.optional = loose.optional
  keeps : ∀ {cs u rest}, loose.read cs = .ok u rest → ∀ {n}, n ≠ loose.name → ∀ {d}, U n d →
    U n (u d)
  reads : ∀ {d}, U loose.name d → ∀ cs e' rest,
    (∃ e, f d = some e ∧ ∃ u, strict.read cs = .ok u rest ∧ u e = e') ↔
      ∃ u, loose.read cs = .ok u rest ∧ f (u d) = some e'

theorem Member.narrows_of {U : String → σ → Prop} {f : σ → Option τ} {g : α → Option β}
    {strict : Reader β} {loose : Reader α} (h : Reader.Narrows g strict loose) (name : String)
    (optional : Bool) {put' : β → τ → τ} {put : α → σ → σ}
    (hkeep : ∀ {n}, n ≠ name → ∀ {d}, U n d → ∀ a, U n (put a d))
    (hput : ∀ {d}, U name d → ∀ a, f (put a d) = (g a).bind fun b => (f d).map (put' b)) :
    (Member.of name optional strict put').Narrows U f (Member.of name optional loose put) where
  name := rfl
  optional := rfl
  keeps hu n hn d hd := by
    obtain ⟨a, -, rfl⟩ := map_eq_ok_iff.mp hu
    exact hkeep hn hd a
  reads {d} hd cs e' rest := by
    simp only [Member.of, map_eq_ok_iff]
    constructor
    · rintro ⟨e, he, -, ⟨b, hb, rfl⟩, rfl⟩
      obtain ⟨a, ha, hg⟩ := (h cs b rest).mp hb
      refine ⟨put a, ⟨a, ha, rfl⟩, ?_⟩
      rw [hput hd, hg, he]
      rfl
    · rintro ⟨-, ⟨a, ha, rfl⟩, he'⟩
      rw [hput hd, Option.bind_eq_some_iff] at he'
      obtain ⟨b, hg, he'⟩ := he'
      obtain ⟨e, he, rfl⟩ := Option.map_eq_some_iff.mp he'
      exact ⟨e, he, put' b, ⟨b, (h cs b rest).mpr ⟨a, ha, hg⟩, rfl⟩, rfl⟩

theorem recordMember_eq_ok_iff {known : List (Member σ)} {name : String} {m : Member σ}
    (hm : known.find? (·.name == name) = some m) {p p' : List String × σ} {cs rest : List Char} :
    recordMember known p name cs = .ok p' rest ↔
      name ∉ p.1 ∧ ∃ mid u, colon cs = .ok () mid ∧ m.read mid = .ok u rest ∧
        p' = (name :: p.1, u p.2) := by
  simp only [recordMember, hm]
  by_cases hn : name ∈ p.1
  · simp only [hn, if_true, mismatch_ne_ok, not_true_eq_false, false_and]
  · simp only [hn, if_false, bind_eq_ok_iff, pure_eq_ok_iff, not_false_eq_true, true_and]
    constructor
    · rintro ⟨_, mid, hc, u, last, hu, rfl, rfl⟩
      exact ⟨mid, u, hc, hu, rfl⟩
    · rintro ⟨mid, u, hc, hu, rfl⟩
      exact ⟨(), mid, hc, u, rest, hu, rfl, rfl⟩

variable {U : String → σ → Prop} {f : σ → Option τ} {strict : List (Member τ)}
  {loose : List (Member σ)} (hk : List.Forall₂ (Member.Narrows U f) strict loose)

include hk

theorem find?_narrows (name : String) :
    (strict.find? (·.name == name) = none ∧ loose.find? (·.name == name) = none) ∨
      ∃ m' m, strict.find? (·.name == name) = some m' ∧ loose.find? (·.name == name) = some m ∧
        m'.Narrows U f m ∧ m.name = name := by
  induction hk with
  | nil => exact Or.inl ⟨rfl, rfl⟩
  | @cons m' m strict loose hm _ ih =>
    by_cases hn : m.name = name
    · have hn' : m'.name = name := hm.name.trans hn
      exact Or.inr ⟨m', m, by simp [hn'], by simp [hn], hm, hn⟩
    · have hn' : ¬ m'.name = name := fun h => hn (hm.name.symm.trans h)
      simpa only [List.find?_cons, beq_iff_eq, hn, hn', beq_eq_false_iff_ne.mpr hn,
        beq_eq_false_iff_ne.mpr hn'] using ih

theorem recordMember_follows (name : String) :
    Follows (fun p => ∀ n, n ∉ p.1 → U n p.2) (fun p => ∀ n, n ∉ p.1 → U n p.2)
      (fun p => (f p.2).map (p.1, ·)) (fun p => (f p.2).map (p.1, ·))
      (fun e => recordMember strict e name) (fun d => recordMember loose d name) := by
  rcases find?_narrows hk name with ⟨hs, hl⟩ | ⟨m', m, hs, hl, hm, rfl⟩
  · simp only [recordMember, hs, hl]
    exact Follows.after colon fun _ => Follows.after passValue fun _ => Follows.pure (fun _ h => h) _
  · constructor
    · intro p cs p' rest hp hok
      obtain ⟨-, mid, u, -, hu, rfl⟩ := (recordMember_eq_ok_iff hl).mp hok
      intro n hn
      obtain ⟨hne, hn⟩ := not_or.mp (mt List.mem_cons.mpr hn)
      exact hm.keeps hu hne (hp n hn)
    · intro p hp cs e' rest
      simp only [recordMember_eq_ok_iff hs, recordMember_eq_ok_iff hl, Option.map_eq_some_iff]
      constructor
      · rintro ⟨-, ⟨e, he, rfl⟩, hseen, mid, u', hc, hu', rfl⟩
        obtain ⟨u, hu, hfu⟩ := (hm.reads (hp m.name hseen) mid (u' e) rest).mp ⟨e, he, u', hu', rfl⟩
        exact ⟨_, ⟨hseen, mid, u, hc, hu, rfl⟩, u' e, hfu, rfl⟩
      · rintro ⟨-, ⟨hseen, mid, u, hc, hu, rfl⟩, e', he', rfl⟩
        obtain ⟨e, he, u', hu', rfl⟩ := (hm.reads (hp m.name hseen) mid e' rest).mpr ⟨u, hu, he'⟩
        exact ⟨_, ⟨e, he, rfl⟩, hseen, mid, u', hc, hu', rfl⟩

omit hk in
theorem membersFrom_follows {α β : Type} {P : α → Prop} {f : α → Option β}
    {strict : β → String → Reader β} {loose : α → String → Reader α}
    (h : ∀ name, Follows P P f f (fun e => strict e name) (fun d => loose d name)) (fuel : Nat)
    (first : Bool) : Follows P P f f (membersFrom strict fuel first) (membersFrom loose fuel first) := by
  induction fuel generalizing first with
  | zero => exact Follows.of_fails (fun _ => fail_ne_ok _) fun _ => fail_ne_ok _
  | succ fuel ih =>
    simp only [membersFrom]
    refine Follows.after (hasNextMember first) fun more => ?_
    cases more with
    | false => exact Follows.pure (fun _ h => h) f
    | true => exact Follows.after quotedText fun name => (h name).bind (ih false)

/-- The items of an array go into the draft one by one, each into a member of its own. -/
theorem recordItems_follows (hn : (loose.map (·.name)).Nodup) (expected' expected : String)
    (index : Nat) :
    Follows (fun d => ∀ m ∈ loose, U m.name d) (fun _ => True) f f
      (recordItems expected' strict index) (recordItems expected loose index) := by
  induction hk generalizing index with
  | nil => exact Follows.pure (fun _ _ => trivial) f
  | @cons m' m strict loose hm _ ih =>
    obtain ⟨hfirst, hrest⟩ := List.nodup_cons.mp hn
    simp only [recordItems]
    refine Follows.after (hasNextItem (index == 0)) fun more => ?_
    cases more with
    | true =>
      have hread : Follows (fun d => ∀ k ∈ m :: loose, U k.name d)
          (fun d => ∀ k ∈ loose, U k.name d) f f (fun e => (· e) <$> m'.read)
          (fun d => (· d) <$> m.read) := by
        constructor
        · intro d cs d' rest hd hok k hk
          obtain ⟨u, hu, rfl⟩ := map_eq_ok_iff.mp hok
          have hne : k.name ≠ m.name := fun he => hfirst (List.mem_map.mpr ⟨k, hk, he⟩)
          exact hm.keeps hu hne (hd k (List.mem_cons_of_mem m hk))
        · intro d hd cs e' rest
          simp only [map_eq_ok_iff, hm.reads (hd m List.mem_cons_self) cs e' rest]
          constructor
          · rintro ⟨u, hu, he'⟩
            exact ⟨_, ⟨u, hu, rfl⟩, he'⟩
          · rintro ⟨-, ⟨u, hu, rfl⟩, he'⟩
            exact ⟨u, hu, he'⟩
      simpa only [if_true, bind_map_left] using hread.bind (ih hrest (index + 1))
    | false =>
      simp only [Bool.false_eq_true, if_false, hm.optional]
      cases m.optional with
      | true => exact (ih hrest index).mono fun d hd k hk => hd k (List.mem_cons_of_mem m hk)
      | false => exact Follows.of_fails (fun _ => mismatch_ne_ok _) fun _ => mismatch_ne_ok _

omit hk in
theorem complete_follows {P : σ → Prop} {f : σ → Option τ} {g : α → Option β}
    {finish' : τ → Except String β} {finish : σ → Except String α}
    (hf : ∀ d b, (∃ e, f d = some e ∧ finish' e = .ok b) ↔ ∃ a, finish d = .ok a ∧ g a = some b) :
    Follows P (fun _ => True) f g
      (fun e => match finish' e with
        | .ok b => (pure b : Reader β)
        | .error name => mismatch (.missingMember name))
      (fun d => match finish d with
        | .ok a => (pure a : Reader α)
        | .error name => mismatch (.missingMember name)) := by
  have hok {γ : Type} (o : Except String γ) (c : γ) (cs rest : List Char) :
      (match o with
        | .ok c => (pure c : Reader γ)
        | .error name => mismatch (.missingMember name)) cs = .ok c rest ↔ o = .ok c ∧ cs = rest := by
    cases o with
    | error name => simp [mismatch_ne_ok]
    | ok c' => simp [pure_eq_ok_iff]
  constructor
  · intro d cs a rest _ _
    trivial
  · intro d _ cs b rest
    simp only [hok]
    constructor
    · rintro ⟨e, he, hb, rfl⟩
      obtain ⟨a, ha, hg⟩ := (hf d b).mp ⟨e, he, hb⟩
      exact ⟨a, ⟨ha, rfl⟩, hg⟩
    · rintro ⟨a, ⟨ha, rfl⟩, hg⟩
      obtain ⟨e, he, hb⟩ := (hf d b).mpr ⟨a, ha, hg⟩
      exact ⟨e, he, hb, rfl⟩

theorem Narrows.record (hn : (loose.map (·.name)).Nodup) {g : α → Option β} {draft' : τ} {draft : σ}
    (hd : f draft = some draft') (hu : ∀ n, U n draft) {finish' : τ → Except String β}
    {finish : σ → Except String α}
    (hf : ∀ d b, (∃ e, f d = some e ∧ finish' e = .ok b) ↔ ∃ a, finish d = .ok a ∧ g a = some b)
    (title' title : String) :
    Reader.Narrows g (record title' strict draft' finish') (record title loose draft finish) := by
  refine Narrows.after peekPart fun c => ?_
  cases c with
  | none => exact Narrows.of_fails (fail_ne_ok _) (fail_ne_ok _)
  | some c =>
    by_cases hlist : c = '['
    · simp only [hlist, if_true]
      refine Narrows.after skip fun _ => Narrows.enclosed ?_ endItems
      have hitems := (recordItems_follows hk hn (arrayForm title' strict.length)
        (arrayForm title loose.length) 0).bind (complete_follows hf)
      exact hitems.narrows (fun m _ => hu m.name) hd
    · by_cases hobject : c = '{'
      · simp only [hobject, if_true]
        refine Narrows.after skip fun _ => Narrows.enclosed ?_ endMembers
        have hpairs (p : List String × σ) (b : β) :
            (∃ e, (f p.2).map (p.1, ·) = some e ∧ finish' e.2 = .ok b) ↔
              ∃ a, finish p.2 = .ok a ∧ g a = some b := by
          rw [← hf p.2 b]
          cases f p.2 <;> simp
        have hmembers := (Follows.after remaining fun n =>
          membersFrom_follows (recordMember_follows hk) (n + 1) true).bind (complete_follows hpairs)
        exact hmembers.narrows (d := ([], draft)) (e := ([], draft')) (fun n _ => hu n) (by simp [hd])
      · simp only [hlist, hobject, if_false]
        exact Narrows.of_fails (unexpected_ne_ok _) (unexpected_ne_ok _)

end Records

section Integers

open Text.Numeral (isDigit)

/-- An integer of any size, as it is written. -/
structure IntegerText where
  negative : Bool
  digits : List Char

namespace IntegerText

def value (t : IntegerText) : Int :=
  if t.negative then -(Text.Numeral.value t.digits : Int) else Text.Numeral.value t.digits

/-- The integer as a number of 32 bits: it has no sign, not even in front of a zero. -/
def word? (t : IntegerText) : Option UInt32 :=
  if t.negative = false ∧ Text.Numeral.value t.digits ≤ 0xFFFFFFFF then
    some (Text.Numeral.value t.digits).toUInt32
  else none

end IntegerText

/-- An integer of any size: a number without a fraction and without an exponent. -/
def integerText : Reader IntegerText := do
  match ← peekPart with
  | none => fail .endInValue
  | some c =>
    if c = '-' ∨ isDigit c then do
      let t ← numberText .endInValue
      if t.fraction = [] ∧ t.exponent = none then return ⟨t.negative, t.whole⟩
      else failHere .invalidNumber
    else unexpected "an integer"

theorem extend_of_gather {n m : Nat} {ds : List Char} (h : gather n ds = (m, [])) :
    Text.Numeral.extend n ds = m := by
  induction ds generalizing n with
  | nil => exact congrArg Prod.fst h
  | cons c ds ih =>
    rw [gather] at h
    split at h
    · exact ih h
    · cases h

/-- A number is an integer of 32 bits without a sign if it is written as one. -/
theorem value_eq_integer_iff {t : NumberText} {rest : List Char} {n : Int} :
    (t.value rest = .ok (.integer n) ∧ 0 ≤ n ∧ n ≤ 0xFFFFFFFF) ↔
      (t.fraction = [] ∧ t.exponent = none) ∧ t.negative = false ∧
        Text.Numeral.value t.whole ≤ 0xFFFFFFFF ∧ (Text.Numeral.value t.whole : Int) = n := by
  obtain ⟨negative, whole, fraction, exponent⟩ := t
  constructor
  · rintro ⟨hv, hlo, hhi⟩
    simp only [NumberText.value] at hv
    cases hg : gather 0 whole with
    | mk m beyond =>
      rw [hg] at hv
      simp only at hv
      split at hv
      · rename_i hform
        obtain ⟨rfl, rfl, rfl⟩ := hform
        have hm : Text.Numeral.value whole = m := extend_of_gather hg
        cases negative with
        | false =>
          simp only [Bool.not_false, if_true, Except.ok.injEq, Number.integer.injEq] at hv
          exact ⟨⟨rfl, rfl⟩, rfl, by simp only; omega, by simp only; omega⟩
        | true =>
          simp only [Bool.not_true, Bool.false_eq_true, if_false] at hv
          split at hv
          · simp [signed] at hv
          · simp only [Except.ok.injEq, Number.integer.injEq] at hv
            omega
      · repeat' split at hv
        all_goals simp [signed] at hv
  · rintro ⟨⟨hf, he⟩, hn, hle, rfl⟩
    simp only at hf he hn hle
    subst hf he hn
    have hg : gather 0 whole = (Text.Numeral.value whole, []) := gather_of_le (by
      change Text.Numeral.value whole ≤ _
      omega)
    refine ⟨?_, by omega, by simp only; omega⟩
    simp [NumberText.value, hg]

section Success

variable {cs rest : List Char}

theorem number_eq_ok_iff {n : Number} :
    number cs = .ok n rest ↔ ∃ t, numberText .endInValue cs = .ok t rest ∧ t.value rest = .ok n := by
  refine bind_eq_ok_iff.trans ?_
  constructor
  · rintro ⟨t, mid, ht, hn⟩
    cases hv : t.value mid with
    | error fault => simp [hv] at hn
    | ok m =>
      simp only [hv, EStateM.Result.ok.injEq] at hn
      obtain ⟨rfl, rfl⟩ := hn
      exact ⟨t, ht, hv⟩
  · rintro ⟨t, ht, hv⟩
    exact ⟨t, rest, ht, by simp only [hv]⟩

theorem integer_eq_ok_iff {low high n : Int} {expected : String} :
    integer low high expected cs = .ok n rest ↔
      ∃ c mid, peekPart cs = .ok (some c) mid ∧ (c = '-' ∨ isDigit c = true) ∧
        number mid = .ok (.integer n) rest ∧ low ≤ n ∧ n ≤ high := by
  simp only [integer, bind_eq_ok_iff]
  constructor
  · rintro ⟨c, mid, hc, hn⟩
    cases c with
    | none => exact absurd hn (fail_ne_ok _ _ _ _)
    | some c =>
      simp only at hn
      split at hn
      · rename_i hnumber
        obtain ⟨m, next, hm, hn⟩ := bind_eq_ok_iff.mp hn
        cases m with
        | real x => exact absurd hn (failHere_ne_ok _ _ _ _)
        | integer m =>
          simp only at hn
          split at hn
          · rename_i hin
            obtain ⟨rfl, rfl⟩ := pure_eq_ok_iff.mp hn
            exact ⟨c, mid, hc, hnumber, hm, hin⟩
          · exact absurd hn (failHere_ne_ok _ _ _ _)
      · exact absurd hn (unexpected_ne_ok _ _ _ _)
  · rintro ⟨c, mid, hc, hnumber, hn, hin⟩
    refine ⟨some c, mid, hc, ?_⟩
    simp only [hnumber, if_true]
    refine bind_eq_ok_iff.mpr ⟨.integer n, rest, hn, ?_⟩
    simp only [hin, and_self, if_true]
    rfl

theorem integerText_eq_ok_iff {t : IntegerText} :
    integerText cs = .ok t rest ↔
      ∃ c mid t', peekPart cs = .ok (some c) mid ∧ (c = '-' ∨ isDigit c = true) ∧
        numberText .endInValue mid = .ok t' rest ∧ (t'.fraction = [] ∧ t'.exponent = none) ∧
        t = ⟨t'.negative, t'.whole⟩ := by
  simp only [integerText, bind_eq_ok_iff]
  constructor
  · rintro ⟨c, mid, hc, ht⟩
    cases c with
    | none => exact absurd ht (fail_ne_ok _ _ _ _)
    | some c =>
      simp only at ht
      split at ht
      · rename_i hnumber
        obtain ⟨t', next, ht', ht⟩ := bind_eq_ok_iff.mp ht
        split at ht
        · rename_i hform
          obtain ⟨rfl, rfl⟩ := pure_eq_ok_iff.mp ht
          exact ⟨c, mid, t', hc, hnumber, ht', hform, rfl⟩
        · exact absurd ht (failHere_ne_ok _ _ _ _)
      · exact absurd ht (unexpected_ne_ok _ _ _ _)
  · rintro ⟨c, mid, t', hc, hnumber, ht', hform, rfl⟩
    refine ⟨some c, mid, hc, ?_⟩
    simp only [hnumber, if_true]
    refine bind_eq_ok_iff.mpr ⟨t', rest, ht', ?_⟩
    simp only [hform, and_self, if_true]
    rfl

end Success

/-- A number of 32 bits is read where an integer stands that fits. -/
theorem narrows_word32 : Narrows IntegerText.word? word32 integerText := by
  intro cs w rest
  simp only [word32, bind_eq_ok_iff, pure_eq_ok_iff, integer_eq_ok_iff, number_eq_ok_iff,
    integerText_eq_ok_iff, IntegerText.word?, Option.ite_none_right_eq_some, Option.some.injEq]
  constructor
  · rintro ⟨n, mid, ⟨c, left, hc, hnumber, ⟨t, ht, hv⟩, hin⟩, rfl, rfl⟩
    obtain ⟨hform, hsign, hle, rfl⟩ := value_eq_integer_iff.mp ⟨hv, hin⟩
    exact ⟨_, ⟨c, left, t, hc, hnumber, ht, hform, rfl⟩, ⟨hsign, hle⟩, rfl⟩
  · rintro ⟨-, ⟨c, left, t, hc, hnumber, ht, hform, rfl⟩, ⟨hsign, hle⟩, rfl⟩
    obtain ⟨hv, hin⟩ := value_eq_integer_iff.mpr ⟨hform, hsign, hle, rfl⟩
    exact ⟨_, rest, ⟨c, left, hc, hnumber, ⟨t, ht, hv⟩, hin⟩, rfl, rfl⟩

end Integers

end EdgeFleet.Json.Reader
