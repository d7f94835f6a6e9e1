import EdgeFleet.Proofs.Json.Narrow
import EdgeFleet.Proofs.Session.Stream

namespace EdgeFleet

open Json (Reader)
open Json.Reader (record nullable listOf IntegerText integerText Member Narrows)

/-- A grant as it is sent. -/
structure SentGrant where
  id : IntegerText
  role : String

/-- A session as it is sent. -/
structure SentSession where
  user : UserInfo
  devices : List SentGrant

/-- A line of a response as it is sent. -/
structure SentLine where
  error : Option String := none
  result : Option SentSession := none

/-- The members of a sent grant under construction. -/
structure SentGrant.Draft where
  id : Option IntegerText := none
  role : Option String := none

/-- Reads a grant, whatever integer its identifier is. -/
def SentGrant.reader : Reader SentGrant :=
  record "SentGrant"
    [.of "id" false integerText fun id d => { d with id := some id },
      .of "role" false Json.Reader.text fun role d => { d with role := some role }]
    { : SentGrant.Draft }
    fun d => match d.id, d.role with
      | some id, some role => .ok ⟨id, role⟩
      | none, _ => .error "id"
      | _, none => .error "role"

/-- The members of a sent session under construction. -/
structure SentSession.Draft where
  user : Option UserInfo := none
  devices : List SentGrant := []

/-- Reads a session with all its grants. -/
def SentSession.reader : Reader SentSession :=
  record "SentSession"
    [.of "user" false UserInfo.reader fun user d => { d with user := some user },
      .of "devices" true (listOf SentGrant.reader) fun devices d => { d with devices }]
    { : SentSession.Draft }
    fun d => match d.user with
      | some user => .ok ⟨user, d.devices⟩
      | none => .error "user"

def SentLine.reader : Reader SentLine :=
  record "SentLine"
    [.of "error" true (nullable InfoLine.errorReader) fun error l => { l with error },
      .of "result" true (nullable SentSession.reader) fun result l => { l with result }]
    { : SentLine } .ok

/-- What becomes of a grant whose identifier is a number of 32 bits; zero is no identifier. -/
def SentGrant.read? (s : SentGrant) : Option (Option DeviceGrant) :=
  s.id.word?.map fun w => (RecordId.ofWord w).toOption.map fun id => ⟨id, s.role⟩

/-- What becomes of a session all of whose grants can be read. -/
def SentSession.read? (s : SentSession) : Option SessionInfo :=
  (s.devices.mapM SentGrant.read?).map fun devices => ⟨s.user, devices.filterMap id⟩

def SentLine.read? (l : SentLine) : Option InfoLine :=
  (Option.mapM SentSession.read? l.result).map fun result => ⟨l.error, result⟩

theorem narrows_grant : Narrows SentGrant.read? DeviceGrant.reader SentGrant.reader := by
  let f (d : SentGrant.Draft) : Option DeviceGrant.Draft :=
    match d.id with
    | none => some ⟨none, d.role⟩
    | some t => t.word?.map fun w => ⟨some w, d.role⟩
  let unset (name : String) (d : SentGrant.Draft) : Prop := name = "id" → d.id = none
  refine Narrows.record (f := f) (U := unset)
    (.cons (Member.narrows_of Json.Reader.narrows_word32 _ _ ?_ ?_)
      (.cons (Member.narrows_of (Narrows.refl _) _ _ ?_ ?_) .nil))
    (by simp [Member.of]) rfl (fun _ _ => rfl) ?_ "RawGrant" "SentGrant"
  · intro n hn d _ a he
    exact absurd he hn
  · intro d hd t
    have hid : d.id = none := hd rfl
    simp only [f, hid]
    cases t.word? <;> rfl
  · intro n _ d hd a he
    exact hd he
  · intro d _ role
    simp only [f]
    cases d.id with
    | none => rfl
    | some t => cases hw : t.word? <;> simp [hw]
  · rintro ⟨id, role⟩ b
    cases id with
    | none => simp [f]
    | some t =>
      cases role with
      | none => cases hw : t.word? <;> simp [f, hw]
      | some role => cases hw : t.word? <;> simp [f, hw, SentGrant.read?]

theorem narrows_session : Narrows SentSession.read? SessionInfo.reader SentSession.reader := by
  let f (d : SentSession.Draft) : Option SessionInfo.Draft :=
    (d.devices.mapM SentGrant.read?).map fun devices => ⟨d.user, devices.filterMap id⟩
  let unset (name : String) (d : SentSession.Draft) : Prop := name = "devices" → d.devices = []
  refine Narrows.record (f := f) (U := unset)
    (.cons (Member.narrows_of (Narrows.refl _) _ _ ?_ ?_)
      (.cons (Member.narrows_of narrows_grant.listOf _ _ ?_ ?_) .nil))
    (by simp [Member.of]) rfl (fun _ _ => rfl) ?_ "SessionInfo" "SentSession"
  · intro n _ d hd a he
    exact hd he
  · intro d _ user
    simp only [f]
    cases d.devices.mapM SentGrant.read? <;> rfl
  · intro n hn d _ a he
    exact absurd he hn
  · intro d hd devices
    have hnone : d.devices = [] := hd rfl
    simp only [f, hnone]
    cases devices.mapM SentGrant.read? <;> rfl
  · rintro ⟨user, devices⟩ b
    cases user with
    | none => simp [f]
    | some user => cases hd : devices.mapM SentGrant.read? <;> simp [f, hd, SentSession.read?]

/-- A line is read exactly if all its grants can be. -/
theorem narrows_line : Narrows SentLine.read? InfoLine.reader SentLine.reader := by
  let unset (name : String) (d : SentLine) : Prop := name = "result" → d.result = none
  refine Narrows.record (f := SentLine.read?) (U := unset)
    (.cons (Member.narrows_of (Narrows.refl _) _ _ ?_ ?_)
      (.cons (Member.narrows_of narrows_session.nullable _ _ ?_ ?_) .nil))
    (by simp [Member.of]) rfl (fun _ _ => rfl) ?_ "InfoLine" "SentLine"
  · intro n _ d hd a he
    exact hd he
  · intro l _ error
    simp only [SentLine.read?]
    cases Option.mapM SentSession.read? l.result <;> rfl
  · intro n hn d _ a he
    exact absurd he hn
  · intro l hl result
    have hnone : l.result = none := hl rfl
    simp only [SentLine.read?, hnone]
    cases Option.mapM SentSession.read? result <;> rfl
  · intro l b
    simp

theorem Json.Reader.IntegerText.word?_eq_some_iff {t : IntegerText} {w : UInt32} :
    t.word? = some w ↔ t.negative = false ∧ t.value = w.toNat := by
  obtain ⟨negative, digits⟩ := t
  have hw : w.toNat < 4294967296 := w.toNat_lt
  simp only [word?, value, Option.ite_none_right_eq_some, Option.some.injEq]
  constructor
  · rintro ⟨⟨rfl, hle⟩, rfl⟩
    refine ⟨rfl, ?_⟩
    simp only [Bool.false_eq_true, if_false, Nat.toUInt32, UInt32.toNat_ofNat', Int.natCast_inj]
    omega
  · rintro ⟨rfl, hv⟩
    simp only [Bool.false_eq_true, if_false, Int.natCast_inj] at hv
    refine ⟨⟨rfl, by omega⟩, ?_⟩
    rw [hv, Nat.toUInt32, UInt32.ofNat_toNat]

/-- Whether the identifier of a grant is written as a number of 32 bits. -/
def SentGrant.Fits (s : SentGrant) : Prop :=
  s.id.negative = false ∧ s.id.value ≤ 4294967295

instance (s : SentGrant) : Decidable s.Fits := inferInstanceAs (Decidable (_ ∧ _))

/-- The sent grants whose identifier is one, and the role of each. -/
def validGrants (grants : List SentGrant) : List (Int × String) :=
  (grants.filter fun s => 1 ≤ s.id.value ∧ s.id.value ≤ 4294967295).map fun s => (s.id.value, s.role)

theorem SentGrant.fits_iff {s : SentGrant} : s.Fits ↔ ∃ w, s.id.word? = some w := by
  simp only [Fits, IntegerText.word?_eq_some_iff]
  constructor
  · rintro ⟨hsign, hle⟩
    have hpos : 0 ≤ s.id.value := by simp [IntegerText.value, hsign]
    have hlt : s.id.value.toNat < 4294967296 := by omega
    have hn : s.id.value.toNat.toUInt32.toNat = s.id.value.toNat := UInt32.toNat_ofNat_of_lt' hlt
    exact ⟨s.id.value.toNat.toUInt32, hsign, by rw [hn, Int.toNat_of_nonneg hpos]⟩
  · rintro ⟨w, hsign, hv⟩
    have hw : w.toNat < 4294967296 := w.toNat_lt
    exact ⟨hsign, by omega⟩

/-- A grant whose identifier is a number of 32 bits is kept unless that is zero. -/
theorem SentGrant.read?_of_fits {s : SentGrant} (h : s.Fits) :
    ∃ grant, s.read? = some grant ∧
      grant.toList.map (fun g => ((g.id.value.toNat : Int), g.role)) = validGrants [s] := by
  obtain ⟨w, hw⟩ := fits_iff.mp h
  obtain ⟨-, hv⟩ := IntegerText.word?_eq_some_iff.mp hw
  have hlt : w.toNat < 4294967296 := w.toNat_lt
  refine ⟨(RecordId.ofWord w).toOption.map fun id => ⟨id, s.role⟩, by rw [read?, hw]; rfl, ?_⟩
  by_cases hz : w = 0
  · subst hz
    have hzero : s.id.value = 0 := hv
    simp [RecordId.ofWord, Except.toOption, validGrants, hzero]
  · have hpos : 0 < w.toNat := Nat.pos_of_ne_zero fun h0 => hz (UInt32.toNat_inj.mp h0)
    have hin : (1 : Int) ≤ w.toNat ∧ (w.toNat : Int) ≤ 4294967295 := by omega
    simp [RecordId.ofWord, Except.toOption, hz, validGrants, hv, hin]

theorem validGrants_cons (s : SentGrant) (grants : List SentGrant) :
    validGrants (s :: grants) = validGrants [s] ++ validGrants grants := by
  rw [validGrants, validGrants, validGrants, ← List.map_append, ← List.filter_append,
    List.singleton_append]

theorem read?_grants {grants : List SentGrant} (h : ∀ s ∈ grants, s.Fits) :
    ∃ devices, grants.mapM SentGrant.read? = some devices ∧
      (devices.filterMap id).map (fun g => ((g.id.value.toNat : Int), g.role)) =
        validGrants grants := by
  induction grants with
  | nil => exact ⟨[], rfl, rfl⟩
  | cons s grants ih =>
    obtain ⟨grant, hs, hgrant⟩ := SentGrant.read?_of_fits (h s List.mem_cons_self)
    obtain ⟨devices, hd, hdevices⟩ := ih fun t ht => h t (List.mem_cons_of_mem s ht)
    refine ⟨grant :: devices, by simp [List.mapM_cons, hs, hd], ?_⟩
    rw [validGrants_cons, ← hgrant, ← hdevices]
    cases grant <;> rfl

/-- One grant that cannot be read costs all of them. -/
theorem read?_grants_of_not_fits {grants : List SentGrant} {s : SentGrant} (hs : s ∈ grants)
    (h : ¬ s.Fits) : grants.mapM SentGrant.read? = none := by
  have hnone : s.read? = none := by
    rw [SentGrant.read?, Option.map_eq_none_iff]
    by_contra hsome
    exact h (SentGrant.fits_iff.mpr (Option.ne_none_iff_exists'.mp hsome))
  induction grants with
  | nil => cases hs
  | cons t grants ih =>
    rcases List.mem_cons.mp hs with rfl | hs
    · simp [List.mapM_cons, hnone]
    · simp [List.mapM_cons, ih hs]

namespace InfoLine

variable {line : List Char}

theorem run_eq_ok_iff_sent {l : InfoLine} :
    reader.run line = .ok l ↔ ∃ sent, SentLine.reader.run line = .ok sent ∧ sent.read? = some l := by
  simp only [Json.Reader.run_eq_ok_iff, narrows_line line l]
  constructor
  · rintro ⟨rest, ⟨sent, hs, hr⟩, hrest⟩
    exact ⟨sent, ⟨rest, hs, hrest⟩, hr⟩
  · rintro ⟨sent, ⟨rest, hs, hrest⟩, hr⟩
    exact ⟨rest, ⟨sent, hs, hr⟩, hrest⟩

variable {user : UserInfo} {grants : List SentGrant}
  (hline : SentLine.reader.run line = .ok { error := none, result := some ⟨user, grants⟩ })

include hline

/-- A line with a session decides for what becomes of the session. -/
theorem decision_of_sent :
    (∀ devices, grants.mapM SentGrant.read? = some devices →
      decision line = some (.ok ⟨user, devices.filterMap id⟩)) ∧
    (grants.mapM SentGrant.read? = none →
      ∃ reason, decision line = some (.error (.invalidResponse reason))) := by
  constructor
  · intro devices hd
    refine decision_eq_ok_iff.mpr (run_eq_ok_iff_sent.mpr ⟨_, hline, ?_⟩)
    simp [SentLine.read?, Option.mapM, SentSession.read?, hd]
  · intro hnone
    have hbad : ∀ l, reader.run line ≠ .ok l := by
      intro l hl
      obtain ⟨sent, hs, hr⟩ := run_eq_ok_iff_sent.mp hl
      rw [hline] at hs
      cases hs
      simp [SentLine.read?, Option.mapM, SentSession.read?, hnone] at hr
    rcases decision_cases line with ⟨reason, -, hd⟩ | ⟨message, result, hr, -⟩ | ⟨info, hr, -⟩ |
      ⟨hr, -⟩
    · exact ⟨reason, hd⟩
    · exact absurd hr (hbad _)
    · exact absurd hr (hbad _)
    · exact absurd hr (hbad _)

end InfoLine

namespace SessionInfo

/-- A session whose identifiers are all written as numbers of 32 bits is confirmed, with exactly those
grants whose identifier is one, in their order. One identifier that is no such number denies it. -/
theorem grants_kept_iff {body : String} {line : List Char} {before after : List (List Char)}
    {user : UserInfo} {grants : List SentGrant}
    (hbody : contentLines body.toList = before ++ line :: after)
    (hbefore : ∀ l ∈ before, ¬ InfoLine.Decides l)
    (hline : SentLine.reader.run line = .ok { error := none, result := some ⟨user, grants⟩ }) :
    ((∃ info, parse body = .ok info ∧ info.user = user ∧
      info.devices.map (fun g => ((g.id.value.toNat : Int), g.role)) = validGrants grants) ↔
        ∀ s ∈ grants, s.Fits) ∧
    ((∃ s ∈ grants, ¬ s.Fits) → ∃ reason, parse body = .error (.invalidResponse reason)) := by
  obtain ⟨hkept, hlost⟩ := InfoLine.decision_of_sent hline
  have hparse {d : Except AuthError SessionInfo} (hd : InfoLine.decision line = some d) :
      parse body = d := by
    refine parse_eq_of_decision ⟨before, after, hbody, hbefore, ?_⟩ hd
    by_contra hnot
    rw [InfoLine.decision_eq_none_iff.mpr hnot] at hd
    cases hd
  have hdenied : (∃ s ∈ grants, ¬ s.Fits) → ∃ reason, parse body = .error (.invalidResponse reason) := by
    rintro ⟨s, hs, hfit⟩
    obtain ⟨reason, hd⟩ := hlost (read?_grants_of_not_fits hs hfit)
    exact ⟨reason, hparse hd⟩
  refine ⟨⟨?_, ?_⟩, hdenied⟩
  · rintro ⟨info, hok, -, -⟩ s hs
    by_contra hfit
    obtain ⟨reason, herror⟩ := hdenied ⟨s, hs, hfit⟩
    rw [hok] at herror
    cases herror
  · intro hfits
    obtain ⟨devices, hd, hdevices⟩ := read?_grants hfits
    exact ⟨_, hparse (hkept devices hd), rfl, hdevices⟩

/-- A response that grants edge 42, and one whose identifier is zero. -/
def zeroGrant : String :=
  "\x7b\"result\":\x7b\"user\":\x7b\"id\":7,\"name\":\"A\"\x7d,\"devices\":" ++
    "[\x7b\"id\":0,\"role\":\"owner\"\x7d,\x7b\"id\":42,\"role\":\"guest\"\x7d]\x7d\x7d"

/-- A response that grants edge 42, and one whose identifier has more than 32 bits. -/
def oversizedGrant : String :=
  "\x7b\"result\":\x7b\"user\":\x7b\"id\":7,\"name\":\"A\"\x7d,\"devices\":" ++
    "[\x7b\"id\":4294967296,\"role\":\"owner\"\x7d,\x7b\"id\":42,\"role\":\"guest\"\x7d]\x7d\x7d"

/-- The grants of both responses, of which they differ in the first identifier. -/
def twoGrants (first : String) : List SentGrant :=
  [⟨⟨false, first.toList⟩, "owner"⟩, ⟨⟨false, ['4', '2']⟩, "guest"⟩]

/-- The user of both responses. -/
def grantee : UserInfo := ⟨⟨7, by decide⟩, "A"⟩

set_option maxRecDepth 4000 in
/-- The identifier zero is skipped, and one of more than 32 bits denies the session. -/
theorem grants_kept_zero :
    contentLines zeroGrant.toList = [zeroGrant.toList] ∧
      SentLine.reader.run zeroGrant.toList =
        .ok { error := none, result := some ⟨grantee, twoGrants "0"⟩ } ∧
      (∃ info, parse zeroGrant = .ok info ∧ info.user = grantee ∧
        info.devices.map (fun g => ((g.id.value.toNat : Int), g.role)) = [(42, "guest")]) ∧
      contentLines oversizedGrant.toList = [oversizedGrant.toList] ∧
      SentLine.reader.run oversizedGrant.toList =
        .ok { error := none, result := some ⟨grantee, twoGrants "4294967296"⟩ } ∧
      ∃ reason, parse oversizedGrant = .error (.invalidResponse reason) := by
  have hzero : contentLines zeroGrant.toList = [] ++ [zeroGrant.toList] := by cbv
  have hzeroSent : SentLine.reader.run zeroGrant.toList =
      .ok { error := none, result := some ⟨grantee, twoGrants "0"⟩ } := by cbv
  have hoversized : contentLines oversizedGrant.toList = [] ++ [oversizedGrant.toList] := by cbv
  have hoversizedSent : SentLine.reader.run oversizedGrant.toList =
      .ok { error := none, result := some ⟨grantee, twoGrants "4294967296"⟩ } := by cbv
  obtain ⟨hkept, -⟩ := grants_kept_iff hzero (by simp) hzeroSent
  obtain ⟨-, hdenied⟩ := grants_kept_iff hoversized (by simp) hoversizedSent
  exact ⟨hzero, hzeroSent, hkept.mpr (by decide), hoversized, hoversizedSent, hdenied (by decide)⟩

set_option maxRecDepth 4000 in
/-- A valid grant is lost with one of more than 32 bits. -/
theorem not_kept_oversizedGrant :
    contentLines oversizedGrant.toList = [oversizedGrant.toList] ∧
      SentLine.reader.run oversizedGrant.toList =
        .ok { error := none, result := some ⟨grantee, twoGrants "4294967296"⟩ } ∧
      validGrants (twoGrants "4294967296") = [(42, "guest")] ∧
      ¬ ∃ info, parse oversizedGrant = .ok info := by
  have hparse : parse oversizedGrant =
      .error (.invalidResponse ⟨.wrongInteger 4294967296 "u32", some ⟨1, 65⟩⟩) := by cbv
  refine ⟨by cbv, by cbv, by decide, ?_⟩
  simp [hparse]

end SessionInfo

end EdgeFleet
