import EdgeFleet.Proofs.Edge.Content
import EdgeFleet.Proofs.Ordered
import EdgeFleet.Proofs.Text.Numeral
import Mathlib

namespace EdgeFleet

open Directory (Field Record)

namespace Ipv4

open Text

theorem octet?_eq_some {cs rest : List Char} {x : UInt8} (h : octet? cs = some (x, rest)) :
    cs = Nat.toDigits 10 x.toNat ++ rest := by
  simp only [octet?] at h
  split at h
  · cases h
  · rename_i hform
    obtain ⟨hne, hform⟩ := not_or.mp hform
    obtain ⟨-, hle⟩ := not_or.mp hform
    split at h
    · cases h
    · rename_i hzero
      simp only [Option.some.injEq, Prod.mk.injEq] at h
      obtain ⟨rfl, rfl⟩ := h
      have hdigits : Numeral.Digits (cs.takeWhile Numeral.isDigit) :=
        ⟨hne, fun c hc => List.mem_takeWhile_imp hc⟩
      have hvalue : ((Numeral.value (cs.takeWhile Numeral.isDigit)).toUInt8).toNat =
          Numeral.value (cs.takeWhile Numeral.isDigit) :=
        UInt8.toNat_ofNat_of_lt' (Nat.lt_succ_of_le (Nat.le_of_not_lt hle))
      rw [hvalue, Numeral.toDigits_value hdigits]
      · exact (List.prefix_iff_eq_append.mp (List.takeWhile_prefix _)).symm
      · intro hhead
        by_contra hother
        exact hzero ⟨hhead, hother⟩

theorem pointOctet?_eq_some {cs rest : List Char} {x : UInt8}
    (h : pointOctet? cs = some (x, rest)) : cs = '.' :: (Nat.toDigits 10 x.toNat ++ rest) := by
  unfold pointOctet? at h
  split at h
  · rw [octet?_eq_some h]
  · cases h

/-- An address has one form, in which it is shown. -/
theorem ofChars?_eq_some_iff {cs : List Char} {x : Ipv4} : ofChars? cs = some x ↔ cs = x.chars := by
  constructor
  · intro h
    simp only [ofChars?, Option.bind_eq_bind, Option.bind_eq_some_iff, Prod.exists] at h
    obtain ⟨a, cs1, ha, b, cs2, hb, c, cs3, hc, d, cs4, hd, h⟩ := h
    split at h
    · rename_i hend
      obtain rfl := Option.some.inj h
      rw [octet?_eq_some ha, pointOctet?_eq_some hb, pointOctet?_eq_some hc, pointOctet?_eq_some hd,
        hend]
      simp [chars]
    · cases h
  · rintro rfl
    exact ofChars?_chars x

theorem parse?_eq_some_iff {s : String} {x : Ipv4} : parse? s = some x ↔ s = x.render := by
  rw [parse?, ofChars?_eq_some_iff, render, ← String.toList_inj, String.toList_ofList]

end Ipv4

theorem EdgeState.parse?_eq_some_iff {s : String} {state : EdgeState} :
    EdgeState.parse? s = some state ↔ Text.lowerAscii (Text.trim s) = state.name := by
  rw [parse?]
  generalize Text.lowerAscii (Text.trim s) = name
  constructor
  · intro h
    have hname := List.find?_some h
    exact (beq_iff_eq.mp hname).symm
  · rintro rfl
    cases state <;> rfl

namespace EdgeRecord

/-- The text that a field shows. -/
inductive ShowsText : Option Json → String → Prop
  | absent : ShowsText none ""
  | null : ShowsText (some .null) ""
  | false : ShowsText (some (.bool false)) ""
  | text (s : String) : ShowsText (some (.text s)) s

/-- The integer of 32 bits that a field shows, if any. -/
inductive ShowsInteger : Option Json → Option Int32 → Prop
  | absent : ShowsInteger none none
  | null : ShowsInteger (some .null) none
  | false : ShowsInteger (some (.bool false)) none
  | number (n : Int32) : ShowsInteger (some (.ofInt n.toInt)) (some n)
  | blank {s : String} (h : Text.isBlankText s = true) : ShowsInteger (some (.text s)) none
  | numeral {s : String} {n : Int32} (h : Text.Numeral.Writes (Text.trimChars s.toList) n.toInt) :
    ShowsInteger (some (.text s)) (some n)

/-- The document that a stored text holds. -/
inductive HoldsDocument : String → Json.Members → Prop
  | blank {s : String} (h : Text.isBlankText s = true) : HoldsDocument s []
  | object {s : String} {members : Json.Members} (hs : Text.isBlankText s = false)
    (h : Json.parse s = .ok (.object members)) : HoldsDocument s members

/-- What a record says of an edge. -/
structure Shows (record : Record) (edge : EdgeRecord) : Prop where
  id : Ordered.get? Field.id.key record = some (.ofNat edge.id.value.toNat)
  name : ShowsText (Ordered.get? Field.name.key record) edge.name
  comment : ShowsText (Ordered.get? Field.comment.key record) edge.comment
  version : ShowsText (Ordered.get? Field.version.key record) edge.version
  productType : ShowsText (Ordered.get? Field.productType.key record) edge.productType
  config : ∃ text, ShowsText (Ordered.get? Field.config.key record) text ∧
    HoldsDocument text edge.config
  soc : ShowsInteger (Ordered.get? Field.soc.key record) edge.soc
  ipv4 : ∃ text, ShowsText (Ordered.get? Field.ipv4.key record) text ∧
    ∀ x, edge.ipv4 = some x ↔ Text.trim text = x.render
  state : ∃ text, ShowsText (Ordered.get? Field.state.key record) text ∧
    (Text.lowerAscii (Text.trim text) = edge.state.name ∨
      edge.state = .inactive ∧ ∀ state : EdgeState, Text.lowerAscii (Text.trim text) ≠ state.name)

/-- Whether a value is a text or stands for none. -/
def TextLike (v : Json) : Prop := v = .null ∨ v = .bool false ∨ ∃ s, v = .text s

/-- Whether a value is an integer of 32 bits, shows one or stands for none. -/
def IntegerLike (v : Json) : Prop :=
  v = .null ∨ v = .bool false ∨ (∃ n : Int, v = .ofInt n ∧ -2147483648 ≤ n ∧ n ≤ 2147483647) ∨
    ∃ s, v = .text s ∧ (Text.isBlankText s = true ∨
      ∃ n, Text.Numeral.Writes (Text.trimChars s.toList) n ∧ -2147483648 ≤ n ∧ n ≤ 2147483647)

/-- The fields that hold a text. -/
def textFields : List Field := [.name, .comment, .version, .productType, .config, .ipv4, .state]

/-- Whether a record has the form of an edge. -/
structure Grammatical (record : Record) : Prop where
  id : ∃ n : Int, Ordered.get? Field.id.key record = some (.ofInt n) ∧ 1 ≤ n ∧ n ≤ 4294967295
  texts : ∀ field ∈ textFields, ∀ v, Ordered.get? field.key record = some v → TextLike v
  soc : ∀ v, Ordered.get? Field.soc.key record = some v → IntegerLike v
  config : ∀ s, Ordered.get? Field.config.key record = some (.text s) →
    Text.isBlankText s = true ∨ ∃ members, Json.parse s = .ok (.object members)

/-- Whether a field is not set in a record. -/
def Unset (record : Record) (field : Field) : Prop :=
  ∀ v, Ordered.get? field.key record = some v → v = .null ∨ v = .bool false

/-- Whether a field has one value in two records, or is not set in both. -/
def Alike (record' record : Record) (field : Field) : Prop :=
  Ordered.get? field.key record' = Ordered.get? field.key record ∨
    Unset record' field ∧ Unset record field

section Values

variable {record : Record} {field : Field}

theorem textOf_shown_iff {s : String} :
    textOf (shown record field) = .ok s ↔ ShowsText (Ordered.get? field.key record) s := by
  rw [shown]
  generalize Ordered.get? field.key record = o
  constructor
  · intro h
    cases o with
    | none => cases h; exact .absent
    | some v =>
      cases v with
      | null => cases h; exact .null
      | bool b => cases b <;> cases h; exact .false
      | text t => cases h; exact .text s
      | _ => cases h
  · intro h
    cases h <;> rfl

theorem toInt_ofInt {n : Int} (hlo : -2147483648 ≤ n) (hhi : n ≤ 2147483647) :
    (Int32.ofInt n).toInt = n :=
  Int32.toInt_ofInt_of_le hlo (by omega)

theorem integerOf_number_iff {m : Int} {n : Option Int32} :
    integerOf (.ofInt m) = .ok n ↔ ShowsInteger (some (.ofInt m)) n := by
  constructor
  · intro h
    simp only [integerOf, Json.ofInt] at h
    split at h
    · rename_i hin
      cases h
      have hshows := ShowsInteger.number (Int32.ofInt m)
      rwa [toInt_ofInt hin.1 hin.2] at hshows
    · cases h
  · intro h
    cases h with
    | number n =>
      have hlo : -0x80000000 ≤ n.toInt := n.le_toInt
      have hhi : n.toInt ≤ 0x7FFFFFFF := Int.le_of_lt_add_one n.toInt_lt
      simp only [integerOf, Json.ofInt, hlo, hhi, and_self, if_true, Int32.ofInt_toInt]

theorem integerOf_text_iff {s : String} {n : Option Int32} :
    integerOf (.text s) = .ok n ↔ ShowsInteger (some (.text s)) n := by
  have hblank : Text.trimChars s.toList = [] ↔ Text.isBlankText s = true := Text.trimChars_eq_nil_iff
  simp only [integerOf]
  split
  · rename_i hnil
    constructor
    · intro h
      cases h
      exact .blank (hblank.mp hnil)
    · intro h
      cases h with
      | blank => rfl
      | numeral hw =>
        rw [hnil] at hw
        exact absurd rfl hw.ne_nil
  · rename_i hne
    constructor
    · intro h
      split at h
      · rename_i m hm
        obtain ⟨hw, hlo, hhi⟩ := Text.Numeral.signed?_eq_some_iff.mp hm
        cases h
        refine .numeral ?_
        rwa [toInt_ofInt hlo hhi]
      · cases h
    · intro h
      cases h with
      | blank hb => exact absurd (hblank.mpr hb) hne
      | @numeral _ n hw =>
        have hm : Text.Numeral.signed? 0x7FFFFFFF (Text.trimChars s.toList) = some n.toInt :=
          Text.Numeral.signed?_eq_some_iff.mpr ⟨hw, n.le_toInt, Int.le_of_lt_add_one n.toInt_lt⟩
        simp only [hm, Int32.ofInt_toInt]

theorem integerOf_shown_iff {n : Option Int32} :
    integerOf (shown record field) = .ok n ↔ ShowsInteger (Ordered.get? field.key record) n := by
  rw [shown]
  generalize Ordered.get? field.key record = o
  constructor
  · intro h
    cases o with
    | none => cases h; exact .absent
    | some v =>
      cases v with
      | null => cases h; exact .null
      | bool b => cases b <;> cases h; exact .false
      | text s => exact integerOf_text_iff.mp h
      | number m =>
        cases m with
        | integer m => exact integerOf_number_iff.mp h
        | real x => cases h
      | _ => cases h
  · intro h
    cases h with
    | absent => rfl
    | null => rfl
    | false => rfl
    | number n => exact integerOf_number_iff.mpr (.number n)
    | blank hb => exact integerOf_text_iff.mpr (.blank hb)
    | numeral hw => exact integerOf_text_iff.mpr (.numeral hw)

theorem idOf_eq_ok_iff {v : Json} {id : EdgeId} :
    idOf v = .ok id ↔ v = .ofNat id.value.toNat := by
  constructor
  · intro h
    unfold idOf at h
    split at h
    · rename_i n
      split at h
      · rename_i hin
        split at h
        · rename_i id' hid
          cases h
          rw [RecordId.ofWord] at hid
          split at hid
          · cases hid
          · cases hid
            have hlt : n.toNat < 4294967296 := by omega
            have hn : n.toNat.toUInt32.toNat = n.toNat := UInt32.toNat_ofNat_of_lt' hlt
            rw [Json.ofNat, hn, Int.toNat_of_nonneg hin.1]
        · cases h
      · cases h
    all_goals cases h
  · rintro rfl
    exact idOf_value id

theorem document_eq_ok_iff {s : String} {members : Json.Members} :
    Document.parse s = .ok members ↔ HoldsDocument s members := by
  rw [Document.parse, Document.parseChars]
  constructor
  · intro h
    split at h
    · rename_i hblank
      cases h
      exact .blank hblank
    · rename_i hcontent
      split at h
      · rename_i found hparse
        cases h
        exact .object (Bool.not_eq_true _ ▸ hcontent) hparse
      · cases h
      · cases h
  · intro h
    cases h with
    | blank hblank => exact if_pos hblank
    | object hcontent hparse =>
      have hchars : Json.parseChars s.toList = .ok (.object members) := hparse
      have hall : s.toList.all Text.isBlank = false := hcontent
      simp only [hall, Bool.false_eq_true, if_false, hchars]

theorem ipv4_iff {s : String} {o : Option Ipv4} :
    Ipv4.parse? s = o ↔ ∀ x, o = some x ↔ s = x.render := by
  simp only [← Ipv4.parse?_eq_some_iff]
  constructor
  · rintro rfl x
    rfl
  · intro h
    exact Option.ext fun x => (h x).symm

theorem state_iff {s : String} {state : EdgeState} :
    (EdgeState.parse? s).getD .inactive = state ↔
      Text.lowerAscii (Text.trim s) = state.name ∨
        state = .inactive ∧ ∀ other : EdgeState, Text.lowerAscii (Text.trim s) ≠ other.name := by
  simp only [ne_eq, ← EdgeState.parse?_eq_some_iff]
  cases EdgeState.parse? s with
  | none =>
    constructor
    · intro h
      exact Or.inr ⟨h.symm, fun other ho => nomatch ho⟩
    · rintro (h | ⟨rfl, -⟩)
      · cases h
      · rfl
  | some found =>
    constructor
    · intro h
      exact Or.inl (congrArg some h)
    · rintro (h | ⟨-, h⟩)
      · exact Option.some.inj h
      · exact absurd rfl (h found)

end Values

section Fields

def idAt (record : Record) : Except RecordError (Option EdgeId) :=
  match Ordered.get? Field.id.key record with
  | none => .ok none
  | some v => some <$> idOf v

/-- The fields that count, in the order of their names. -/
def inOrder : List Field :=
  [.comment, .id, .ipv4, .name, .config, .version, .productType, .soc, .state]

theorem put_of_notMem {key : String} (h : key ∉ inOrder.map Field.key) (raw : Raw) (v : Json) :
    raw.put key v = .ok raw := by
  rw [Raw.put]
  cases hf : Field.ofKey? key with
  | none => rfl
  | some field =>
    have hfind : Field.all.find? (·.key == key) = some field := hf
    have hkey := List.find?_some hfind
    obtain rfl := beq_iff_eq.mp hkey
    cases field with
    | apikey => rfl
    | lastMessage => rfl
    | lastUpdate => rfl
    | _ => exact absurd (List.mem_map_of_mem (by decide)) h

variable {record : Record} {β : Type}

/-- A field that is not set is as good as one that is `false`. -/
theorem visit_bind {α : Type} {raw : Raw} (field : Field) (read : Json → Except RecordError α)
    (set : α → Raw) {unset : α} (hunset : read (.bool false) = .ok unset) (hset : set unset = raw)
    (hput : ∀ v, raw.put field.key v = read v >>= fun a => .ok (set a))
    (k : Raw → Except RecordError β) :
    (Ordered.visit Raw.put record raw field.key >>= k) =
      read (shown record field) >>= fun a => k (set a) := by
  rw [Ordered.visit, shown]
  cases Ordered.get? field.key record with
  | none => rw [Option.getD_none, hunset, ← hset]; rfl
  | some v =>
    simp only [Option.getD_some, hput]
    cases read v <;> rfl

theorem visit_id_bind {raw : Raw} (hraw : raw.id = none) (k : Raw → Except RecordError β) :
    (Ordered.visit Raw.put record raw Field.id.key >>= k) =
      idAt record >>= fun id => k { raw with id } := by
  rw [Ordered.visit, idAt]
  cases Ordered.get? Field.id.key record with
  | none => rw [← hraw]; rfl
  | some v =>
    simp only [Raw.put, Field.ofKey?_key]
    cases idOf v <;> rfl

/-- The fields of a record may be read one by one, in the order of their names. -/
theorem ofRecord_eq (h : Ordered.Ascending (record.map (·.1))) :
    Raw.ofRecord record = (do
      let comment ← textOf (shown record .comment)
      let id ← idAt record
      let ipv4 ← textOf (shown record .ipv4)
      let name ← textOf (shown record .name)
      let config ← textOf (shown record .config)
      let version ← textOf (shown record .version)
      let productType ← textOf (shown record .productType)
      let soc ← integerOf (shown record .soc)
      let state ← textOf (shown record .state)
      return { id, name, comment, version, productType, config, soc, ipv4, state }) := by
  have hkeys : Ordered.Ascending (inOrder.map Field.key) := by
    unfold Ordered.Ascending
    decide
  have hvisit : Raw.ofRecord record = (inOrder.map Field.key).foldlM (Ordered.visit Raw.put record) {} :=
    Ordered.foldlM_eq_visit hkeys h (fun p _ hp raw => put_of_notMem hp raw p.2) {}
  refine hvisit.trans ?_
  simp only [inOrder, List.map_cons, List.map_nil, List.foldlM_cons, List.foldlM_nil]
  refine (visit_bind .comment textOf (fun comment => { comment }) rfl rfl (fun _ => rfl) _).trans
    (bind_congr fun comment => ?_)
  refine (visit_id_bind rfl _).trans (bind_congr fun id => ?_)
  refine (visit_bind .ipv4 textOf (fun ipv4 => { id, comment, ipv4 }) rfl rfl (fun _ => rfl) _).trans
    (bind_congr fun ipv4 => ?_)
  refine (visit_bind .name textOf (fun name => { id, comment, ipv4, name }) rfl rfl
    (fun _ => rfl) _).trans (bind_congr fun name => ?_)
  refine (visit_bind .config textOf (fun config => { id, comment, ipv4, name, config }) rfl rfl
    (fun _ => rfl) _).trans (bind_congr fun config => ?_)
  refine (visit_bind .version textOf (fun version => { id, comment, ipv4, name, config, version }) rfl
    rfl (fun _ => rfl) _).trans (bind_congr fun version => ?_)
  refine (visit_bind .productType textOf
    (fun productType => { id, comment, ipv4, name, config, version, productType }) rfl rfl
    (fun _ => rfl) _).trans (bind_congr fun productType => ?_)
  refine (visit_bind .soc integerOf
    (fun soc => { id, comment, ipv4, name, config, version, productType, soc }) rfl rfl
    (fun _ => rfl) _).trans (bind_congr fun soc => ?_)
  exact visit_bind .state textOf
    (fun state => { id, comment, ipv4, name, config, version, productType, soc, state }) rfl rfl
    (fun _ => rfl) _

theorem finish_eq_ok_iff {raw : Raw} {edge : EdgeRecord} :
    raw.finish = .ok edge ↔
      raw.id = some edge.id ∧ raw.name = edge.name ∧ raw.comment = edge.comment ∧
        raw.version = edge.version ∧ raw.productType = edge.productType ∧
        Document.parse raw.config = .ok edge.config ∧ raw.soc = edge.soc ∧
        Ipv4.parse? (Text.trim raw.ipv4) = edge.ipv4 ∧
        (EdgeState.parse? raw.state).getD .inactive = edge.state := by
  obtain ⟨id, name, comment, version, productType, config, soc, ipv4, state⟩ := edge
  rw [Raw.finish]
  cases raw.id with
  | none => simp
  | some id' =>
    cases Document.parse raw.config with
    | error reason => simp
    | ok members =>
      simp only [Except.ok.injEq, EdgeRecord.mk.injEq, Option.some.injEq]

theorem idAt_eq_some_iff {id : EdgeId} :
    idAt record = .ok (some id) ↔
      Ordered.get? Field.id.key record = some (.ofNat id.value.toNat) := by
  rw [idAt]
  cases Ordered.get? Field.id.key record with
  | none => simp
  | some v =>
    rw [Option.some.injEq, ← idOf_eq_ok_iff]
    change some <$> idOf v = _ ↔ _
    cases idOf v <;> simp [Functor.map, Except.map]

/-- A record decodes to an edge exactly if that is what it shows. -/
theorem decode_eq_ok_iff (h : Ordered.Ascending (record.map (·.1))) {edge : EdgeRecord} :
    decode record = .ok edge ↔ Shows record edge := by
  simp only [decode, ofRecord_eq h, bind_eq_ok, finish_eq_ok_iff, textOf_shown_iff,
    integerOf_shown_iff, pure, Except.pure, Except.ok.injEq]
  constructor
  · rintro ⟨-, ⟨_, hcomment, _, hid, _, hipv4, _, hname, _, hconfig, _, hversion, _, hproduct, _, hsoc,
      _, hstate, rfl⟩, rfl, rfl, rfl, rfl, rfl, hdocument, rfl, haddress, hstage⟩
    exact ⟨idAt_eq_some_iff.mp hid, hname, hcomment, hversion, hproduct,
      ⟨_, hconfig, document_eq_ok_iff.mp hdocument⟩, hsoc, ⟨_, hipv4, ipv4_iff.mp haddress⟩,
      ⟨_, hstate, state_iff.mp hstage⟩⟩
  · intro hs
    obtain ⟨config, hconfig, hdocument⟩ := hs.config
    obtain ⟨ipv4, hipv4, haddress⟩ := hs.ipv4
    obtain ⟨state, hstate, hstage⟩ := hs.state
    exact ⟨_, ⟨_, hs.comment, _, idAt_eq_some_iff.mpr hs.id, _, hipv4, _, hs.name, _, hconfig,
      _, hs.version, _, hs.productType, _, hs.soc, _, hstate, rfl⟩, rfl, rfl, rfl, rfl, rfl,
      document_eq_ok_iff.mpr hdocument, rfl, ipv4_iff.mpr haddress, state_iff.mpr hstage⟩

end Fields

section Grammar

theorem exists_showsText_iff {o : Option Json} :
    (∃ s, ShowsText o s) ↔ ∀ v, o = some v → TextLike v := by
  constructor
  · rintro ⟨s, hs⟩ v rfl
    cases hs with
    | null => exact Or.inl rfl
    | false => exact Or.inr (Or.inl rfl)
    | text => exact Or.inr (Or.inr ⟨s, rfl⟩)
  · intro h
    cases o with
    | none => exact ⟨_, .absent⟩
    | some v =>
      rcases h v rfl with rfl | rfl | ⟨s, rfl⟩
      · exact ⟨_, .null⟩
      · exact ⟨_, .false⟩
      · exact ⟨_, .text s⟩

theorem exists_showsInteger_iff {o : Option Json} :
    (∃ n, ShowsInteger o n) ↔ ∀ v, o = some v → IntegerLike v := by
  constructor
  · rintro ⟨n, hn⟩ v rfl
    cases hn with
    | null => exact Or.inl rfl
    | false => exact Or.inr (Or.inl rfl)
    | number n =>
      exact Or.inr (Or.inr (Or.inl ⟨_, rfl, n.le_toInt, Int.le_of_lt_add_one n.toInt_lt⟩))
    | blank hb => exact Or.inr (Or.inr (Or.inr ⟨_, rfl, Or.inl hb⟩))
    | @numeral s n hw =>
      exact Or.inr (Or.inr (Or.inr ⟨s, rfl, Or.inr ⟨_, hw, n.le_toInt,
        Int.le_of_lt_add_one n.toInt_lt⟩⟩))
  · intro h
    cases o with
    | none => exact ⟨_, .absent⟩
    | some v =>
      rcases h v rfl with rfl | rfl | ⟨n, rfl, hlo, hhi⟩ | ⟨s, rfl, hb | ⟨n, hw, hlo, hhi⟩⟩
      · exact ⟨_, .null⟩
      · exact ⟨_, .false⟩
      · rw [← toInt_ofInt hlo hhi]
        exact ⟨_, .number _⟩
      · exact ⟨_, .blank hb⟩
      · rw [← toInt_ofInt hlo hhi] at hw
        exact ⟨_, .numeral hw⟩

theorem exists_id_iff {o : Option Json} :
    (∃ id : EdgeId, o = some (.ofNat id.value.toNat)) ↔
      ∃ n : Int, o = some (.ofInt n) ∧ 1 ≤ n ∧ n ≤ 4294967295 := by
  constructor
  · rintro ⟨id, rfl⟩
    have hlt : id.value.toNat < 4294967296 := id.value.toNat_lt
    have hpos : 0 < id.value.toNat :=
      Nat.pos_of_ne_zero fun h0 => id.ne_zero (UInt32.toNat_inj.mp h0)
    exact ⟨_, rfl, by omega, by omega⟩
  · rintro ⟨n, rfl, hlo, hhi⟩
    have hlt : n.toNat < 4294967296 := by omega
    have hn : n.toNat.toUInt32.toNat = n.toNat := UInt32.toNat_ofNat_of_lt' hlt
    refine ⟨⟨n.toNat.toUInt32, fun h0 => ?_⟩, ?_⟩
    · rw [h0] at hn
      have hzero : n.toNat = 0 := hn.symm
      omega
    · rw [hn, Json.ofNat, Int.toNat_of_nonneg (by omega), Json.ofInt]

variable {record record' : Record}

theorem Shows.grammatical {edge : EdgeRecord} (h : Shows record edge) : Grammatical record := by
  obtain ⟨config, hconfig, hdocument⟩ := h.config
  obtain ⟨ipv4, hipv4, -⟩ := h.ipv4
  obtain ⟨state, hstate, -⟩ := h.state
  refine ⟨exists_id_iff.mp ⟨edge.id, h.id⟩, ?_, exists_showsInteger_iff.mp ⟨_, h.soc⟩, ?_⟩
  · intro field hfield
    apply exists_showsText_iff.mp
    simp only [textFields, List.mem_cons, List.not_mem_nil, or_false] at hfield
    rcases hfield with rfl | rfl | rfl | rfl | rfl | rfl | rfl
    · exact ⟨_, h.name⟩
    · exact ⟨_, h.comment⟩
    · exact ⟨_, h.version⟩
    · exact ⟨_, h.productType⟩
    · exact ⟨_, hconfig⟩
    · exact ⟨_, hipv4⟩
    · exact ⟨_, hstate⟩
  · intro s hget
    rw [hget] at hconfig
    cases hconfig
    generalize edge.config = members at hdocument
    cases hdocument with
    | blank hb => exact Or.inl hb
    | object _ hparse => exact Or.inr ⟨_, hparse⟩

theorem Grammatical.exists_document (h : Grammatical record) {text : String}
    (ht : ShowsText (Ordered.get? Field.config.key record) text) :
    ∃ members, HoldsDocument text members := by
  generalize hget : Ordered.get? Field.config.key record = o at ht
  cases ht with
  | text =>
    cases hb : Text.isBlankText text with
    | true => exact ⟨_, .blank hb⟩
    | false =>
      obtain ⟨members, hparse⟩ := (h.config text hget).resolve_left (by simp [hb])
      exact ⟨_, .object hb hparse⟩
  | _ => exact ⟨_, .blank rfl⟩

theorem Grammatical.exists_shows (h : Grammatical record) : ∃ edge, Shows record edge := by
  have htext (field : Field) (hfield : field ∈ textFields := by decide) :=
    exists_showsText_iff.mpr (h.texts field hfield)
  obtain ⟨id, hid⟩ := exists_id_iff.mpr h.id
  obtain ⟨name, hname⟩ := htext .name
  obtain ⟨comment, hcomment⟩ := htext .comment
  obtain ⟨version, hversion⟩ := htext .version
  obtain ⟨productType, hproduct⟩ := htext .productType
  obtain ⟨config, hconfig⟩ := htext .config
  obtain ⟨members, hdocument⟩ := h.exists_document hconfig
  obtain ⟨soc, hsoc⟩ := exists_showsInteger_iff.mpr h.soc
  obtain ⟨ipv4, hipv4⟩ := htext .ipv4
  obtain ⟨state, hstate⟩ := htext .state
  obtain ⟨address, haddress⟩ : ∃ o, Ipv4.parse? (Text.trim ipv4) = o := ⟨_, rfl⟩
  obtain ⟨stage, hstage⟩ : ∃ o, (EdgeState.parse? state).getD .inactive = o := ⟨_, rfl⟩
  exact ⟨⟨id, name, comment, version, productType, members, soc, address, stage⟩,
    hid, hname, hcomment, hversion, hproduct, ⟨config, hconfig, hdocument⟩, hsoc,
    ⟨ipv4, hipv4, ipv4_iff.mp haddress⟩, ⟨state, hstate, state_iff.mp hstage⟩⟩

theorem shown_of_unset {field : Field} (h : Unset record field) :
    shown record field = .null ∨ shown record field = .bool false := by
  rw [shown]
  cases hget : Ordered.get? field.key record with
  | none => exact Or.inr rfl
  | some v => exact h v hget

theorem read_alike {α : Type} (read : Json → Except RecordError α)
    (hread : read .null = read (.bool false)) {field : Field} (h : Alike record' record field) :
    read (shown record' field) = read (shown record field) := by
  rcases h with h | ⟨h', h⟩
  · rw [shown, h, shown]
  · rcases shown_of_unset h' with h' | h' <;> rcases shown_of_unset h with h | h <;>
      simp only [h, h', hread]

/-- Only the fields of an edge count, and one that is not set counts as one that is not there. -/
theorem decode_congr (h : Ordered.Ascending (record.map (·.1)))
    (h' : Ordered.Ascending (record'.map (·.1)))
    (hid : Ordered.get? Field.id.key record' = Ordered.get? Field.id.key record)
    (hfields : ∀ field ∈ fields, Alike record' record field) : decode record' = decode record := by
  have htext (field : Field) (hfield : field ∈ fields := by decide) :=
    read_alike textOf rfl (hfields field hfield)
  have hinteger := read_alike integerOf rfl (hfields .soc (by decide))
  rw [decode, decode, ofRecord_eq h, ofRecord_eq h']
  simp only [idAt, hid, htext .comment, htext .ipv4, htext .name, htext .config, htext .version,
    htext .productType, hinteger, htext .state]

/-- A record decodes exactly if it has the form of an edge, and to what it shows then; otherwise it is
refused. Whether a field that is not set is absent, null or `false` does not matter, and neither does
any field that an edge does not have. -/
theorem decode_grammar (h : Ordered.Ascending (record.map (·.1))) :
    ((∃ edge, decode record = .ok edge) ↔ Grammatical record) ∧
    (¬ Grammatical record → ∃ reason, decode record = .error reason) ∧
    (∀ edge, decode record = .ok edge ↔ Shows record edge) ∧
    ∀ record' : Record, Ordered.Ascending (record'.map (·.1)) →
      Ordered.get? Field.id.key record' = Ordered.get? Field.id.key record →
      (∀ field ∈ fields, Alike record' record field) → decode record' = decode record := by
  have haccepted : (∃ edge, decode record = .ok edge) ↔ Grammatical record := by
    simp only [decode_eq_ok_iff h]
    exact ⟨fun ⟨_, hs⟩ => hs.grammatical, Grammatical.exists_shows⟩
  refine ⟨haccepted, fun hnot => ?_, fun edge => decode_eq_ok_iff h,
    fun record' h' hid hfields => decode_congr h h' hid hfields⟩
  cases hd : decode record with
  | ok edge => exact absurd (haccepted.mp ⟨edge, hd⟩) hnot
  | error reason => exact ⟨reason, rfl⟩

end Grammar

/-- A record with a number in a text, a field that is null and one that no edge has. -/
def cellar : Record :=
  [("comment", .null), ("id", .ofNat 7), ("ipv4", .text " 10.0.0.7 "),
    ("openems_config", .text "\x7b\"a\":1\x7d"), ("soc", .text "+042 "), ("state", .text "ACTIVE"),
    ("unit", .array [])]

/-- The same record without what does not count. -/
def bareCellar : Record :=
  [("id", .ofNat 7), ("ipv4", .text " 10.0.0.7 "), ("openems_config", .text "\x7b\"a\":1\x7d"),
    ("soc", .text "+042 "), ("state", .text "ACTIVE")]

/-- A record whose number has a unit. -/
def unreadCellar : Record := [("id", .ofNat 7), ("soc", .text "42 %")]

/-- The edge of both records. -/
def cellarEdge : EdgeRecord where
  id := ⟨7, nofun⟩
  name := ""
  comment := ""
  version := ""
  productType := ""
  config := [("a", .ofNat 1)]
  soc := some 42
  ipv4 := some ⟨10, 0, 0, 7⟩
  state := .active

/-- A number may be written in a text, but without a unit. -/
theorem decode_grammar_cellar :
    Ordered.Ascending (cellar.map (·.1)) ∧ Shows cellar cellarEdge ∧ Grammatical cellar ∧
      decode cellar = .ok cellarEdge ∧ Ordered.Ascending (bareCellar.map (·.1)) ∧
      (∀ field ∈ fields, Alike bareCellar cellar field) ∧ decode bareCellar = decode cellar ∧
      Ordered.Ascending (unreadCellar.map (·.1)) ∧ ¬ Grammatical unreadCellar ∧
      ∃ reason, decode unreadCellar = .error reason := by
  have hcellar : Ordered.Ascending (cellar.map (·.1)) := by unfold Ordered.Ascending; decide
  have hbare : Ordered.Ascending (bareCellar.map (·.1)) := by unfold Ordered.Ascending; decide
  have hunread : Ordered.Ascending (unreadCellar.map (·.1)) := by unfold Ordered.Ascending; decide
  obtain ⟨hform, -, hdecodes, hcongr⟩ := decode_grammar hcellar
  obtain ⟨hunform, hrefused, -, -⟩ := decode_grammar hunread
  have hconfig : Json.parse "\x7b\"a\":1\x7d" = .ok (.object [("a", .ofNat 1)]) := by cbv
  have hshows : Shows cellar cellarEdge :=
    { id := rfl
      name := .absent
      comment := .null
      version := .absent
      productType := .absent
      config := ⟨_, .text _, .object rfl hconfig⟩
      soc := integerOf_shown_iff.mp rfl
      ipv4 := ⟨_, .text _, ipv4_iff.mp rfl⟩
      state := ⟨_, .text _, Or.inl rfl⟩ }
  have hok : decode cellar = .ok cellarEdge := (hdecodes cellarEdge).mpr hshows
  have herror : decode unreadCellar = .error (.expectedInteger (.text "42 %")) := rfl
  have hbad : ¬ Grammatical unreadCellar := by
    rw [← hunform, herror]
    simp
  have halike : ∀ field ∈ fields, Alike bareCellar cellar field := by
    intro field _
    cases field with
    | comment =>
      have habsent : Ordered.get? Field.comment.key bareCellar = none := rfl
      have hnull : Ordered.get? Field.comment.key cellar = some .null := rfl
      exact Or.inr ⟨by simp [Unset, habsent], by simp [Unset, hnull]⟩
    | _ => exact Or.inl rfl
  exact ⟨hcellar, hshows, hform.mp ⟨_, hok⟩, hok, hbare, halike, hcongr bareCellar hbare rfl halike,
    hunread, hbad, hrefused hbad⟩

end EdgeRecord

end EdgeFleet
