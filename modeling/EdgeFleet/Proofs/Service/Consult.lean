import EdgeFleet.Proofs.Service.Lookups

namespace EdgeFleet.Service

/-- What the directory sends for a reading, and whether the edge is connected by then. -/
structure Reading where
  result : Except DirectoryError Directory.Record
  online : Bool

/-- The record of an edge that a reading brings. -/
def Reading.record? (p : Reading) (id : EdgeId) : Option EdgeRecord :=
  match p.result with
  | .error _ => none
  | .ok reply => (EdgeRecord.decodeFor id reply).toOption

/-- An edge that a call asks for; `anew` if it is to be read in any case. -/
structure Inquiry where
  number : Nat
  id : EdgeId
  anew : Bool

/-- An inquiry, the reading that was made for it, if any, and the instance that was found. -/
structure Consultation where
  inquiry : Inquiry
  reading : Option Reading
  found : Option EdgeRef

/-- The instance of an edge that was found. -/
def Consultation.found? (c : Consultation) (id : EdgeId) : Option EdgeRef :=
  if c.inquiry.id = id then c.found else none

/-- The instance of an edge that was found last. -/
def latest? (id : EdgeId) (log : List Consultation) : Option EdgeRef :=
  (log.filterMap (·.found? id)).getLast?

/-- How many readings have brought an edge; each has made an instance. -/
def renewals (log : List Consultation) : Nat :=
  log.countP fun c => c.reading.isSome && c.found.isSome

/-- How an inquiry ends, given the consultations before it. -/
def Inquiry.consult (q : Inquiry) (log : List Consultation) (p : Reading) : Consultation :=
  match if q.anew then none else latest? q.id log with
  | some ref => ⟨q, none, some ref⟩
  | none => ⟨q, some p, (p.record? q.id).map fun _ => renewals log⟩

/-- How some inquiries end, one after the other. The readings are used in their order. -/
def consult (log : List Consultation) (readings : Nat → Reading) : List Inquiry → List Consultation
  | [] => []
  | q :: rest =>
    let c := q.consult log (readings 0)
    c :: consult (log ++ [c]) (if c.reading.isSome then fun k => readings (k + 1) else readings) rest

theorem Reading.record?_eq_none_iff {p : Reading} {id : EdgeId} :
    p.record? id = none ↔ Failed id p.result := by
  obtain ⟨result, online⟩ := p
  cases result with
  | error e => exact iff_of_true rfl (.error e)
  | ok reply =>
    rw [failed_iff_decodeFor]
    cases hr : EdgeRecord.decodeFor id reply <;> simp [record?, hr, Except.toOption]

section Latest

variable {id : EdgeId} {log : List Consultation} {c : Consultation}

theorem latest?_concat (id : EdgeId) (log : List Consultation) (c : Consultation) :
    latest? id (log ++ [c]) = (c.found? id).or (latest? id log) := by
  rw [latest?, List.filterMap_append, List.getLast?_append, latest?]
  cases h : c.found? id <;> simp [h]

theorem latest?_concat_of_ne (h : c.inquiry.id ≠ id) : latest? id (log ++ [c]) = latest? id log := by
  rw [latest?_concat, Consultation.found?, if_neg h, Option.none_or]

theorem latest?_concat_self (h : c.inquiry.id = id) :
    latest? id (log ++ [c]) = c.found.or (latest? id log) := by
  rw [latest?_concat, Consultation.found?, if_pos h]

theorem renewals_concat (log : List Consultation) (c : Consultation) :
    renewals (log ++ [c]) = renewals log + if c.reading.isSome && c.found.isSome then 1 else 0 := by
  simp [renewals, List.countP_append, List.countP_singleton]

end Latest

/-- How an inquiry is answered: an edge that was found is given again, and any other one is read. -/
inductive Answered (log : List Consultation) : Consultation → Prop
  | served {q : Inquiry} {ref : EdgeRef} (asked : q.anew = false)
      (there : latest? q.id log = some ref) : Answered log ⟨q, none, some ref⟩
  | read {q : Inquiry} (p : Reading) (asked : q.anew = true ∨ latest? q.id log = none) :
      Answered log ⟨q, some p, (p.record? q.id).map fun _ => renewals log⟩

theorem Inquiry.answered_consult (q : Inquiry) (log : List Consultation) (p : Reading) :
    Answered log (q.consult log p) := by
  rw [consult]
  cases hq : q.anew with
  | true => exact .read p (Or.inl hq)
  | false =>
    cases hl : latest? q.id log with
    | none => exact .read p (Or.inr hl)
    | some ref => exact .served hq hl

theorem Inquiry.inquiry_consult (q : Inquiry) (log : List Consultation) (p : Reading) :
    (q.consult log p).inquiry = q := by
  rw [consult]
  split <;> rfl

theorem map_inquiry_consult (log : List Consultation) (readings : Nat → Reading) (qs : List Inquiry) :
    (consult log readings qs).map (·.inquiry) = qs := by
  induction qs generalizing log readings with
  | nil => rfl
  | cons q rest ih => rw [consult, List.map_cons, ih, Inquiry.inquiry_consult]

section Cons

variable {log : List Consultation} {readings : Nat → Reading} {q : Inquiry} {rest : List Inquiry}

theorem consult_cons_of_latest? (hq : q.anew = false) {ref : EdgeRef}
    (hl : latest? q.id log = some ref) : consult log readings (q :: rest) =
      ⟨q, none, some ref⟩ :: consult (log ++ [⟨q, none, some ref⟩]) readings rest := by
  simp [consult, Inquiry.consult, hq, hl]

theorem consult_cons_of_read (h : q.anew = true ∨ latest? q.id log = none) {found : Option EdgeRef}
    (hfound : found = ((readings 0).record? q.id).map fun _ => renewals log) :
    consult log readings (q :: rest) = ⟨q, some (readings 0), found⟩ ::
      consult (log ++ [⟨q, some (readings 0), found⟩]) (fun k => readings (k + 1)) rest := by
  subst hfound
  have hnone : (if q.anew then none else latest? q.id log) = none := by
    rcases h with h | h <;> simp [h]
  simp [consult, Inquiry.consult, hnone]

end Cons

/-- Consultations each of which is answered as those before it say. -/
def Consistent (log : List Consultation) : Prop :=
  ∀ past c later, log = past ++ c :: later → Answered past c

theorem Consistent.concat {log : List Consultation} (h : Consistent log) {c : Consultation}
    (hc : Answered log c) : Consistent (log ++ [c]) := by
  intro past d later he
  rcases List.eq_nil_or_concat later with rfl | ⟨later, last, rfl⟩
  · obtain ⟨rfl, hd⟩ := List.append_inj' he rfl
    obtain rfl : c = d := List.singleton_inj.mp hd
    exact hc
  · rw [List.concat_eq_append, ← List.cons_append, ← List.append_assoc] at he
    exact h past d later (List.append_inj' he rfl).1

theorem Consistent.consult {log : List Consultation} (h : Consistent log)
    (readings : Nat → Reading) (qs : List Inquiry) : Consistent (log ++ consult log readings qs) := by
  induction qs generalizing log readings with
  | nil =>
    rw [Service.consult, List.append_nil]
    exact h
  | cons q rest ih =>
    rw [Service.consult, List.append_cons]
    exact ih (h.concat (q.answered_consult log _)) _

section Consistent

variable {log past mid later : List Consultation} {c d : Consultation}

/-- A reading is made exactly if it is asked for, or the edge was not found before. -/
theorem Answered.isSome_reading_iff (h : Answered past c) :
    c.reading.isSome = true ↔ c.inquiry.anew = true ∨ latest? c.inquiry.id past = none := by
  cases h with
  | served asked there => simp [asked, there]
  | read p asked => exact iff_of_true rfl asked

theorem Answered.found_eq_none_iff (h : Answered past c) :
    c.found = none ↔ ∃ p, c.reading = some p ∧ Failed c.inquiry.id p.result := by
  cases h with
  | served asked there => simp
  | read p asked =>
    rw [Option.map_eq_none_iff, Reading.record?_eq_none_iff]
    exact ⟨fun hf => ⟨p, rfl, hf⟩, fun ⟨_, hp, hf⟩ => Option.some.inj hp ▸ hf⟩

/-- An inquiry that does not ask for a reading finds what was found last. -/
theorem Answered.found_of_latest? (h : Answered past c) (ha : c.inquiry.anew = false) {ref : EdgeRef}
    (hl : latest? c.inquiry.id past = some ref) : c.reading = none ∧ c.found = some ref := by
  cases h with
  | served asked there => exact ⟨rfl, there.symm.trans hl⟩
  | read p asked =>
    rcases asked with hq | hq
    · exact absurd (ha.symm.trans hq) Bool.false_ne_true
    · exact absurd (hq.symm.trans hl) nofun

theorem latest?_kept {id : EdgeId} {ref : EdgeRef} (h : Consistent (past ++ mid))
    (hl : latest? id past = some ref)
    (hm : ∀ e ∈ mid, e.inquiry.id = id → e.inquiry.anew = true → e.found = none) :
    latest? id (past ++ mid) = some ref := by
  induction mid using List.reverseRecOn with
  | nil =>
    rw [List.append_nil]
    exact hl
  | append_singleton mid e ih =>
    rw [← List.append_assoc] at h ⊢
    have hbefore : Consistent (past ++ mid) := by
      intro past' c later he
      exact h past' c (later ++ [e]) (by rw [he, List.append_assoc, List.cons_append])
    have hl' := ih hbefore fun e' he' => hm e' (List.mem_append_left _ he')
    by_cases hid : e.inquiry.id = id
    · rw [latest?_concat_self hid]
      cases ha : e.inquiry.anew with
      | true => rw [hm e (List.mem_append_right _ List.mem_cons_self) hid ha, Option.none_or, hl']
      | false =>
        have hfound := ((h _ e [] rfl).found_of_latest? ha (by rw [hid, hl'])).2
        rw [hfound, Option.some_or]
    · rw [latest?_concat_of_ne hid, hl']

theorem latest?_append_of_none {id : EdgeId} (hl : latest? id past = none)
    (hm : ∀ e ∈ mid, e.inquiry.id = id → e.found = none) : latest? id (past ++ mid) = none := by
  have hnone : mid.filterMap (·.found? id) = [] := by
    apply List.filterMap_eq_nil_iff.mpr
    intro e he
    rw [Consultation.found?]
    split
    · rename_i hid
      exact hm e he hid
    · rfl
  rw [latest?, List.filterMap_append, hnone, List.append_nil]
  exact hl

/-- What was found is given again, and nothing is read, until the edge is read anew. -/
theorem Consistent.kept (h : Consistent log) (he : log = past ++ c :: mid ++ d :: later) {ref : EdgeRef}
    (hc : c.found = some ref) (hid : d.inquiry.id = c.inquiry.id) (hd : d.inquiry.anew = false)
    (hm : ∀ e ∈ mid, e.inquiry.id = c.inquiry.id → e.inquiry.anew = true → e.found = none) :
    d.reading = none ∧ d.found = some ref := by
  have hlatest : latest? c.inquiry.id (past ++ [c]) = some ref := by
    rw [latest?_concat_self rfl, hc, Option.some_or]
  have hbefore : Consistent (past ++ [c] ++ mid) := by
    intro past' e later' he'
    refine h past' e (later' ++ d :: later) ?_
    rw [he, List.append_cons past c mid, he', List.append_assoc, List.cons_append]
  have hkept := latest?_kept hbefore hlatest hm
  rw [← List.append_cons past c mid] at hkept
  exact (h _ d later he).found_of_latest? hd (by rw [hid, hkept])

theorem Consistent.again (h : Consistent log) (he : log = past ++ c :: mid ++ d :: later)
    (ha : c.inquiry.anew = false) (hc : c.found = none) (hid : d.inquiry.id = c.inquiry.id)
    (hm : ∀ e ∈ mid, e.inquiry.id = c.inquiry.id → e.found = none) : d.reading.isSome = true := by
  have hanswer : Answered past c := by
    apply h past c (mid ++ d :: later)
    rw [he, List.append_assoc, List.cons_append]
  have hpast : latest? c.inquiry.id past = none := by
    cases hl : latest? c.inquiry.id past with
    | none => rfl
    | some ref =>
      rw [(hanswer.found_of_latest? ha hl).2] at hc
      cases hc
  have hnone : latest? c.inquiry.id (past ++ c :: mid) = none := by
    apply latest?_append_of_none hpast
    intro e hmem hid'
    rcases List.mem_cons.mp hmem with rfl | hmem
    · exact hc
    · exact hm e hmem hid'
  exact (h _ d later he).isSome_reading_iff.mpr (Or.inr (by rw [hid, hnone]))

end Consistent

end EdgeFleet.Service
