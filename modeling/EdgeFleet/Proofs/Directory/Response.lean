import EdgeFleet.Directory.Rpc
import EdgeFleet.Proofs.Json.Narrow

namespace EdgeFleet.Directory

open Json (Reader)
open Json.Reader (Member record nullable integer Narrows)

/-- The further data of an error as it is sent: a missing message is `none`, and null is `some none`. -/
structure SentData where
  message : Option (Option String) := none

/-- An error as it is sent. -/
structure SentError where
  code : Option Int := none
  message : String
  data : Option (Option SentData) := none

/-- A response as it is sent. -/
structure SentReply where
  result : Option (Option Json) := none
  error : Option (Option SentError) := none

/-- Reads the further data of an error. -/
def SentData.reader : Reader SentData :=
  record "SentData"
    [.of "message" true (nullable Json.Reader.text) fun message d =>
      { d with message := some message }]
    { : SentData } .ok

/-- The members of a sent error under construction. -/
structure SentError.Draft where
  code : Option Int := none
  message : Option String := none
  data : Option (Option SentData) := none

/-- Reads an error; only its message must be there. -/
def SentError.reader : Reader SentError :=
  record "SentError"
    [.of "code" true (integer Json.minInteger 0x7FFFFFFFFFFFFFFF "i64") fun code d =>
        { d with code := some code },
      .of "message" false Json.Reader.text fun message d => { d with message := some message },
      .of "data" true (nullable SentData.reader) fun data d => { d with data := some data }]
    { : SentError.Draft }
    fun d => match d.message with
      | some message => .ok { code := d.code, message, data := d.data }
      | none => .error "message"

def SentReply.reader : Reader SentReply :=
  record "SentReply"
    [.of "result" true (nullable (Json.Reader.value (Json.Reader.maxDepth - 1))) fun result s =>
        { s with result := some result },
      .of "error" true (nullable SentError.reader) fun error s => { s with error := some error }]
    { : SentReply } .ok

/-- The message in the further data of an error, if there is one. -/
def SentError.detail? (data : Option (Option SentData)) : Option String :=
  data.join.bind fun d => d.message.join

def SentError.understood (e : SentError) : RpcError :=
  ⟨e.code.getD 0, e.message, detail? e.data⟩

def SentReply.understood (s : SentReply) : RpcReply :=
  ⟨s.error.join.map SentError.understood, s.result.join⟩

section Understood

theorem narrows_data :
    Narrows (fun d : SentData => some d.message.join) RpcReply.detailReader SentData.reader := by
  refine Narrows.record (f := fun d : SentData => some d.message.join) (U := fun _ _ => True)
    (.cons (Member.narrows_of (Narrows.refl _) _ _ ?_ ?_) .nil)
    (by simp [Member.of]) ?_ (fun _ => trivial) ?_ "RpcErrorData" "SentData"
  · intro n _ d _ a
    trivial
  · intro d _ message
    rfl
  · rfl
  · intro d message
    simp

/-- A missing code is 0, and a message in the further data goes along. -/
theorem narrows_error :
    Narrows (fun e : SentError => some e.understood) RpcReply.errorReader SentError.reader := by
  let f (d : SentError.Draft) : Option RpcReply.Draft :=
    some ⟨d.code.getD 0, d.message, SentError.detail? d.data⟩
  refine Narrows.record (f := f) (U := fun _ _ => True)
    (.cons (Member.narrows_of (Narrows.refl _) _ _ ?_ ?_)
      (.cons (Member.narrows_of (Narrows.refl _) _ _ ?_ ?_)
        (.cons (Member.narrows_of narrows_data.nullable _ _ ?_ ?_) .nil)))
    (by simp [Member.of]) ?_ (fun _ => trivial) ?_ "RpcError" "SentError"
  · intro n _ d _ code
    trivial
  · intro d _ code
    rfl
  · intro n _ d _ message
    trivial
  · intro d _ message
    rfl
  · intro n _ d _ data
    trivial
  · intro d _ data
    cases data <;> rfl
  · rfl
  · rintro ⟨code, message, data⟩ e
    cases message with
    | none => simp [f]
    | some message => simp [f, SentError.understood]

/-- A response is read as what is understood of it. -/
theorem narrows_reply :
    Narrows (fun s : SentReply => some s.understood) RpcReply.reader SentReply.reader := by
  refine Narrows.record (f := fun s : SentReply => some s.understood) (U := fun _ _ => True)
    (.cons (Member.narrows_of (Narrows.refl _) _ _ ?_ ?_)
      (.cons (Member.narrows_of narrows_error.nullable _ _ ?_ ?_) .nil))
    (by simp [Member.of]) ?_ (fun _ => trivial) ?_ "RpcResponse" "SentReply"
  · intro n _ s _ result
    trivial
  · intro s _ result
    rfl
  · intro n _ s _ error
    trivial
  · intro s _ error
    cases error <;> rfl
  · rfl
  · intro s r
    simp

variable {reply : Http.Reply}

theorem decode_eq_ok_iff {shape : Reader α} {a : α} :
    reply.decode shape = .ok a ↔ shape.run reply.chars = .ok a := by
  rw [Http.Reply.decode]
  cases shape.run reply.chars <;> simp

theorem decode_eq_ok_iff_sent {r : RpcReply} :
    reply.decode RpcReply.reader = .ok r ↔
      ∃ s, reply.decode SentReply.reader = .ok s ∧ s.understood = r := by
  simp only [decode_eq_ok_iff, Json.Reader.run_eq_ok_iff, narrows_reply reply.chars r,
    Option.some.injEq]
  constructor
  · rintro ⟨rest, ⟨s, hs, hr⟩, hrest⟩
    exact ⟨s, ⟨rest, hs, hrest⟩, hr⟩
  · rintro ⟨s, ⟨rest, hs, hrest⟩, hr⟩
    exact ⟨rest, ⟨s, hs, hr⟩, hrest⟩

theorem decode_eq_error_of_sent {detail : String}
    (h : reply.decode SentReply.reader = .error detail) :
    ∃ detail, reply.decode RpcReply.reader = .error detail := by
  cases hr : reply.decode RpcReply.reader with
  | error detail => exact ⟨detail, rfl⟩
  | ok r =>
    obtain ⟨s, hs, -⟩ := decode_eq_ok_iff_sent.mp hr
    rw [h] at hs
    cases hs

end Understood

namespace Rpc

section Shape

/-- A reading that takes exactly the images of what is read, and calls anything else unreadable. -/
structure Reads {γ : Type} (read : γ → Except DirectoryError α) (image : α → γ) : Prop where
  ok : ∀ {c a}, read c = .ok a ↔ c = image a
  fault : ∀ {c e}, read c = .error e → ∃ detail, e = .parse detail

theorem reads_word : Reads word fun id => .ofNat id.toNat where
  ok {j id} := by
    have hid : id.toNat < 4294967296 := id.toNat_lt
    constructor
    · intro h
      unfold word at h
      split at h
      · rename_i n
        split at h
        · obtain rfl := Except.ok.inj h
          have hn : n.toNat < 4294967296 := by omega
          have hnat : n.toNat.toUInt32.toNat = n.toNat := UInt32.toNat_ofNat_of_lt' hn
          rw [Json.ofNat, hnat, Int.toNat_of_nonneg (by omega)]
        · cases h
      · cases h
    · rintro rfl
      have hin : (0 : Int) ≤ id.toNat ∧ (id.toNat : Int) ≤ 0xFFFFFFFF := by omega
      simp [Json.ofNat, word, hin]
  fault {j e} h := by
    unfold word at h
    repeat' split at h
    all_goals cases h
    all_goals exact ⟨_, rfl⟩

theorem reads_record : Reads record .object where
  ok {j r} := by cases j <;> simp [record]
  fault {j e} h := by
    cases j <;> cases h
    all_goals exact ⟨_, rfl⟩

theorem reads_flag : Reads flag .bool where
  ok {j b} := by cases j <;> simp [flag]
  fault {j e} h := by
    cases j <;> cases h
    all_goals exact ⟨_, rfl⟩

theorem Reads.mapM {γ : Type} {read : γ → Except DirectoryError α} {image : α → γ}
    (h : Reads read image) : Reads (List.mapM read) (List.map image) where
  ok {cs as} := by
    constructor
    · intro hok
      induction cs generalizing as with
      | nil =>
        obtain rfl := Except.ok.inj hok
        rfl
      | cons c cs ih =>
        rw [List.mapM_cons] at hok
        cases hc : read c with
        | error e =>
          rw [hc] at hok
          cases hok
        | ok a =>
          cases hcs : cs.mapM read with
          | error e =>
            rw [hc, hcs] at hok
            cases hok
          | ok rest =>
            rw [hc, hcs] at hok
            obtain rfl := Except.ok.inj hok
            rw [List.map_cons, ← h.ok.mp hc, ← ih hcs]
    · rintro rfl
      induction as with
      | nil => rfl
      | cons a as ih =>
        rw [List.map_cons, List.mapM_cons, h.ok.mpr rfl, ih]
        rfl
  fault {cs e} herror := by
    induction cs with
    | nil => cases herror
    | cons c cs ih =>
      rw [List.mapM_cons] at herror
      cases hc : read c with
      | error e' =>
        rw [hc] at herror
        obtain rfl := Except.error.inj herror
        exact h.fault hc
      | ok a =>
        cases hcs : cs.mapM read with
        | error e' =>
          rw [hc, hcs] at herror
          obtain rfl := Except.error.inj herror
          exact ih hcs
        | ok rest =>
          rw [hc, hcs] at herror
          cases herror

theorem reads_words : Reads words fun ids => .array (ids.map fun id => .ofNat id.toNat) where
  ok {j ids} := by
    cases j <;> simp [words, reads_word.mapM.ok]
  fault {j e} h := by
    cases j with
    | array items => exact reads_word.mapM.fault h
    | _ =>
      cases h
      exact ⟨_, rfl⟩

theorem reads_records : Reads records fun rs => .array (rs.map .object) where
  ok {j rs} := by
    cases j <;> simp [records, reads_record.mapM.ok]
  fault {j e} h := by
    cases j with
    | array items => exact reads_record.mapM.fault h
    | _ =>
      cases h
      exact ⟨_, rfl⟩

end Shape

section Classified

variable {reply : Http.Reply}

/-- How a call ends when a response comes. `Fits` tells which results have the right shape, and how the
call ends with each of them. -/
structure Classified (reply : Http.Reply) (Fits : Json → Except DirectoryError α → Prop)
    (answer : Except DirectoryError α) : Prop where
  /-- Any status but success is told, whatever the body is. -/
  refused : Http.isSuccess reply.status = false →
    answer = .error (.transport ("HTTP " ++ Http.describeStatus reply.status))
  /-- Then the body must be a response. -/
  garbled : Http.isSuccess reply.status = true → ∀ fault,
    reply.decode SentReply.reader = .error fault →
      ∃ detail, answer = .error (.parse ("invalid response: " ++ detail))
  /-- Then an error that is not null is told, whatever the result is. -/
  failed : Http.isSuccess reply.status = true → ∀ e result,
    reply.decode SentReply.reader = .ok ⟨result, some (some e)⟩ →
      answer = .error (.remote (e.code.getD 0) ((SentError.detail? e.data).getD e.message))
  /-- Then there must be a result that is not null. -/
  lacking : Http.isSuccess reply.status = true → ∀ s, reply.decode SentReply.reader = .ok s →
    s.error.join = none → s.result.join = none → ∃ detail, answer = .error (.parse detail)
  /-- Then the shape of the result decides. -/
  misshapen : Http.isSuccess reply.status = true → ∀ s j, reply.decode SentReply.reader = .ok s →
    s.error.join = none → s.result.join = some j → (∀ a, ¬ Fits j a) →
      ∃ detail, answer = .error (.parse detail)
  shaped : Http.isSuccess reply.status = true → ∀ s j, reply.decode SentReply.reader = .ok s →
    s.error.join = none → s.result.join = some j → ∀ a, Fits j a → answer = a
  /-- There is no other way to end well. -/
  ok : ∀ a, answer = .ok a → Http.isSuccess reply.status = true ∧
    ∃ s j, reply.decode SentReply.reader = .ok s ∧ s.error.join = none ∧
      s.result.join = some j ∧ Fits j (.ok a)

theorem outcome_of_sent (hstatus : Http.isSuccess reply.status = true) {s : SentReply}
    (hs : reply.decode SentReply.reader = .ok s) :
    outcome (.ok reply) =
      match s.error.join, s.result.join with
      | some e, _ =>
        .error (.remote (e.code.getD 0) ((SentError.detail? e.data).getD e.message))
      | none, some j => .ok j
      | none, none => .error (.parse "response has neither result nor error") := by
  have hr := decode_eq_ok_iff_sent.mpr ⟨s, hs, rfl⟩
  rw [outcome, hstatus, hr, SentReply.understood]
  cases s.error.join <;> cases s.result.join <;> rfl

theorem sent_of_outcome {j : Json} (h : outcome (.ok reply) = .ok j) :
    Http.isSuccess reply.status = true ∧ ∃ s, reply.decode SentReply.reader = .ok s ∧
      s.error.join = none ∧ s.result.join = some j := by
  cases hstatus : Http.isSuccess reply.status with
  | false =>
    rw [outcome_of_not_success hstatus] at h
    cases h
  | true =>
    cases hs : reply.decode SentReply.reader with
    | error fault =>
      obtain ⟨detail, hr⟩ := decode_eq_error_of_sent hs
      rw [outcome, hstatus, hr] at h
      cases h
    | ok s =>
      rw [outcome_of_sent hstatus hs] at h
      cases herror : s.error.join with
      | some e =>
        rw [herror] at h
        cases h
      | none =>
        cases hresult : s.result.join with
        | none =>
          rw [herror, hresult] at h
          cases h
        | some j' =>
          rw [herror, hresult] at h
          obtain rfl := Except.ok.inj h
          exact ⟨rfl, s, rfl, herror, hresult⟩

/-- A call is classified by its response if its result is read and nothing but that is left to do. -/
theorem Reads.classified {β : Type} {read : Json → Except DirectoryError β} {image : β → Json}
    (h : Reads read image) {finish : β → Except DirectoryError α}
    {Fits : Json → Except DirectoryError α → Prop}
    (hfits : ∀ j a, Fits j a ↔ ∃ b, j = image b ∧ a = finish b) :
    Classified reply Fits ((outcome (.ok reply) >>= read) >>= finish) where
  refused hstatus := by
    rw [outcome_of_not_success hstatus]
    rfl
  garbled hstatus fault hfault := by
    obtain ⟨detail, hr⟩ := decode_eq_error_of_sent hfault
    refine ⟨detail, ?_⟩
    rw [outcome, hstatus, hr]
    rfl
  failed hstatus e result hs := by
    rw [outcome_of_sent hstatus hs]
    rfl
  lacking hstatus s hs herror hresult := by
    rw [outcome_of_sent hstatus hs, herror, hresult]
    exact ⟨_, rfl⟩
  misshapen hstatus s j hs herror hresult hj := by
    rw [outcome_of_sent hstatus hs, herror, hresult]
    change ∃ detail, (read j >>= finish) = _
    cases hread : read j with
    | ok b => exact absurd ((hfits j _).mpr ⟨b, h.ok.mp hread, rfl⟩) (hj (finish b))
    | error e =>
      obtain ⟨detail, rfl⟩ := h.fault hread
      exact ⟨detail, rfl⟩
  shaped hstatus s j hs herror hresult a ha := by
    obtain ⟨b, hj, rfl⟩ := (hfits j a).mp ha
    rw [outcome_of_sent hstatus hs, herror, hresult]
    change (read j >>= finish) = _
    rw [h.ok.mpr hj]
    rfl
  ok a hok := by
    cases hj : outcome (.ok reply) with
    | error e =>
      rw [hj] at hok
      cases hok
    | ok j =>
      obtain ⟨hstatus, s, hs, herror, hresult⟩ := sent_of_outcome hj
      rw [hj] at hok
      change (read j >>= finish) = _ at hok
      cases hread : read j with
      | error e =>
        rw [hread] at hok
        cases hok
      | ok b =>
        rw [hread] at hok
        have hfinish : finish b = .ok a := hok
        exact ⟨hstatus, s, j, hs, herror, hresult,
          (hfits j _).mpr ⟨b, h.ok.mp hread, hfinish.symm⟩⟩

end Classified

namespace Client

/-- The results of a search: identifiers. -/
def FitsSearch (j : Json) (answer : Except DirectoryError (List UInt32)) : Prop :=
  ∃ ids : List UInt32, j = .array (ids.map fun id => .ofNat id.toNat) ∧ answer = .ok ids

/-- The results of a reading: records, of which the first one counts. -/
def FitsRead (id : UInt32) (j : Json) (answer : Except DirectoryError Record) : Prop :=
  (j = .array [] ∧ answer = .error (.notFound id)) ∨
    ∃ (r : Record) (rest : List Record), j = .array ((r :: rest).map .object) ∧ answer = .ok r

/-- The results of a write: a flag. -/
def FitsWrite (j : Json) (answer : Except DirectoryError Bool) : Prop :=
  ∃ b, j = .bool b ∧ answer = .ok b

/-- Every call is classified by its response, whatever the client is and whatever it asks for. -/
theorem classified_by_response (c : Client) (reply : Http.Reply) :
    (∀ criteria, Classified reply FitsSearch (c.search (fun _ => .ok reply) criteria).2) ∧
    (∀ id fields, Classified reply (FitsRead id) (c.read (fun _ => .ok reply) id fields).2) ∧
    ∀ ids field value,
      Classified reply FitsWrite (c.write (fun _ => .ok reply) ids field value).2 := by
  refine ⟨fun criteria => ?_, fun id fields => ?_, fun ids field value => ?_⟩
  · change Classified reply FitsSearch (outcome (.ok reply) >>= words)
    rw [← bind_pure (outcome (.ok reply) >>= words)]
    exact reads_words.classified fun j a => Iff.rfl
  · refine reads_records.classified fun j a => ?_
    constructor
    · rintro (⟨rfl, rfl⟩ | ⟨r, rest, rfl, rfl⟩)
      · exact ⟨[], rfl, rfl⟩
      · exact ⟨r :: rest, rfl, rfl⟩
    · rintro ⟨rs, rfl, rfl⟩
      cases rs with
      | nil => exact Or.inl ⟨rfl, rfl⟩
      | cons r rest => exact Or.inr ⟨r, rest, rfl, rfl⟩
  · change Classified reply FitsWrite (outcome (.ok reply) >>= flag)
    rw [← bind_pure (outcome (.ok reply) >>= flag)]
    exact reads_flag.classified fun j a => Iff.rfl

end Client

end Rpc

end EdgeFleet.Directory
