import EdgeFleet.Proofs.Directory.Memory
import EdgeFleet.Proofs.Edge.Change
import EdgeFleet.Proofs.Json.Documentary
import EdgeFleet.Proofs.Text.Numeral

namespace EdgeFleet

open Directory (Field Record)

namespace Ipv4

open Text

theorem octet?_toDigits (x : UInt8) {rest : List Char}
    (hr : ∀ c, rest.head? = some c → Numeral.isDigit c = false) :
    octet? (Nat.toDigits 10 x.toNat ++ rest) = some (x, rest) := by
  have htake : (Nat.toDigits 10 x.toNat ++ rest).takeWhile Numeral.isDigit =
      Nat.toDigits 10 x.toNat := by
    rw [List.takeWhile_append_of_pos fun _ hc => Numeral.isDigit_of_mem_toDigits hc]
    cases rest with
    | nil => simp
    | cons c rest => simp [hr c rfl]
  have hlt : x.toNat < 256 := x.toNat_lt
  have hlen : (Nat.toDigits 10 x.toNat).length ≤ 3 :=
    (Nat.length_toDigits_le_iff (by decide) (by decide)).mpr (by omega)
  have hform : ¬ (Nat.toDigits 10 x.toNat = [] ∨ 3 < (Nat.toDigits 10 x.toNat).length ∨
      255 < x.toNat) := by
    rintro (h | h | h)
    · exact Nat.toDigits_ne_nil h
    · omega
    · omega
  have hzero : ¬ ((Nat.toDigits 10 x.toNat).head? = some '0' ∧ Nat.toDigits 10 x.toNat ≠ ['0']) := by
    rintro ⟨hh, hne⟩
    rcases Nat.eq_zero_or_pos x.toNat with h0 | hpos
    · rw [h0] at hne
      exact hne rfl
    · exact Numeral.head?_toDigits hpos hh
  simp only [octet?, htake, Numeral.value_toDigits, hform, hzero, if_false, List.drop_left]
  rw [Nat.toUInt8, UInt8.ofNat_toNat]

theorem ofChars?_chars (x : Ipv4) : ofChars? x.chars = some x := by
  have hpoint (cs : List Char) : ∀ c, ('.' :: cs).head? = some c → Numeral.isDigit c = false := by
    intro c hc
    obtain rfl := Option.some.inj hc
    rfl
  have hlast : octet? (Nat.toDigits 10 x.d.toNat ++ []) = some (x.d, []) :=
    octet?_toDigits x.d (by simp)
  rw [List.append_nil] at hlast
  simp only [ofChars?, chars, List.append_assoc, List.cons_append, octet?_toDigits _ (hpoint _),
    pointOctet?, hlast, Option.bind_eq_bind, Option.bind_some, if_true]

theorem parse?_render (x : Ipv4) : parse? (trim x.render) = some x := by
  have hblank : ∀ c ∈ x.chars, isBlank c = false := by
    intro c hc
    simp only [chars, List.mem_append, List.mem_cons] at hc
    rcases hc with ((hc | rfl | hc) | rfl | hc) | rfl | hc
    all_goals first | exact not_isBlank_of_mem_toDigits hc | rfl
  rw [trim, render, String.toList_ofList, trimChars_of_no_blank hblank, parse?, String.toList_ofList,
    ofChars?_chars]

end Ipv4

namespace Json

open Text

theorem writes_integerChars (n : Int) : Numeral.Writes (integerChars n) n := by
  cases n with
  | ofNat k =>
    have hw := Numeral.Writes.plain (Numeral.digits_toDigits k)
    rwa [Numeral.value_toDigits] at hw
  | negSucc k =>
    have hw := Numeral.Writes.minus (Numeral.digits_toDigits (k + 1))
    rwa [Numeral.value_toDigits] at hw

end Json

namespace EdgeRecord

theorem integerOf_integerChars (n : Int32) :
    integerOf (.text (String.ofList (Json.integerChars n.toInt))) = .ok (some n) := by
  have hw := Json.writes_integerChars n.toInt
  have htrim := Text.trimChars_of_no_blank hw.not_isBlank
  have hhi : n.toInt ≤ (0x7FFFFFFF : Nat) := Int.le_of_lt_add_one n.toInt_lt
  have hsigned := Text.Numeral.signed?_eq_some_iff.mpr ⟨hw, n.le_toInt, hhi⟩
  simp only [integerOf, String.toList_ofList, htrim, hw.ne_nil, if_false, hsigned, Int32.ofInt_toInt]

/-- The value of a field as a reading shows it; one that is not set is `false`. -/
def shown (r : Record) (field : Field) : Json := (Ordered.get? field.key r).getD (.bool false)

theorem select_fields (id : UInt32) (r : Record) :
    Directory.Memory.select id fields r =
      [(Field.comment.key, shown r .comment), (Field.id.key, .ofNat id.toNat),
        (Field.ipv4.key, shown r .ipv4), (Field.name.key, shown r .name),
        (Field.config.key, shown r .config), (Field.version.key, shown r .version),
        (Field.productType.key, shown r .productType), (Field.soc.key, shown r .soc),
        (Field.state.key, shown r .state)] := rfl

theorem idOf_value (id : EdgeId) : idOf (.ofNat id.value.toNat) = .ok id := by
  have hlt : id.value.toNat < 4294967296 := id.value.toNat_lt
  have hin : (0 : Int) ≤ id.value.toNat ∧ (id.value.toNat : Int) ≤ 0xFFFFFFFF := by omega
  simp only [idOf, Json.ofNat, hin, and_self, if_true, Int.toNat_natCast, Nat.toUInt32,
    UInt32.ofNat_toNat, RecordId.ofWord_value]

theorem bind_eq_ok {ε α β : Type} {x : Except ε α} {f : α → Except ε β} {b : β} :
    (x >>= f) = .ok b ↔ ∃ a, x = .ok a ∧ f a = .ok b := by
  cases x <;> simp [bind, Except.bind]

end EdgeRecord

namespace Edge

open EdgeRecord (textOf integerOf)

/-- Whether the values of the fields show the edge, but for its configuration. -/
structure ShownApart (e : Edge) (value : Field → Json) : Prop where
  name : textOf (value .name) = .ok e.name
  comment : textOf (value .comment) = .ok e.comment
  version : textOf (value .version) = .ok e.version
  productType : textOf (value .productType) = .ok e.productType
  soc : integerOf (value .soc) = .ok e.soc
  ipv4 : ∃ text, textOf (value .ipv4) = .ok text ∧ Ipv4.parse? (Text.trim text) = e.ipv4
  state : ∃ text, textOf (value .state) = .ok text ∧ (EdgeState.parse? text).getD .inactive = e.state

/-- Whether the values of the fields show the edge. -/
structure ShownBy (e : Edge) (value : Field → Json) : Prop extends ShownApart e value where
  config : ∃ text members, textOf (value .config) = .ok text ∧
    Document.parse text = .ok members ∧ e.config = .object members

/-- Whether the values of the fields show the edge, but of its configuration no more than whether it can
be a document. -/
structure Mirrored (e : Edge) (value : Field → Json) : Prop extends ShownApart e value where
  config : ∃ text, textOf (value .config) = .ok text ∧
    (e.config.Documentary ↔ ∃ members, Document.parse text = .ok members)

end Edge

namespace EdgeRecord

theorem ofRecord_select_iff {id : EdgeId} {r : Record} {raw : Raw} :
    Raw.ofRecord (Directory.Memory.select id.value fields r) = .ok raw ↔
      raw.id = some id ∧ textOf (shown r .name) = .ok raw.name ∧
        textOf (shown r .comment) = .ok raw.comment ∧ textOf (shown r .version) = .ok raw.version ∧
        textOf (shown r .productType) = .ok raw.productType ∧
        textOf (shown r .config) = .ok raw.config ∧ integerOf (shown r .soc) = .ok raw.soc ∧
        textOf (shown r .ipv4) = .ok raw.ipv4 ∧ textOf (shown r .state) = .ok raw.state := by
  simp only [Raw.ofRecord, select_fields, List.foldlM_cons, List.foldlM_nil, Raw.put,
    Field.ofKey?_key, idOf_value, bind_eq_ok, pure, Except.pure, Except.ok.injEq, exists_eq_left']
  constructor
  · rintro ⟨_, ⟨comment, hcomment, rfl⟩, _, ⟨ipv4, hipv4, rfl⟩, _, ⟨name, hname, rfl⟩,
      _, ⟨config, hconfig, rfl⟩, _, ⟨version, hversion, rfl⟩, _, ⟨productType, hproduct, rfl⟩,
      _, ⟨soc, hsoc, rfl⟩, _, ⟨state, hstate, rfl⟩, rfl⟩
    exact ⟨rfl, hname, hcomment, hversion, hproduct, hconfig, hsoc, hipv4, hstate⟩
  · obtain ⟨_, name, comment, version, productType, config, soc, ipv4, state⟩ := raw
    rintro ⟨rfl, hname, hcomment, hversion, hproduct, hconfig, hsoc, hipv4, hstate⟩
    exact ⟨_, ⟨comment, hcomment, rfl⟩, _, ⟨ipv4, hipv4, rfl⟩, _, ⟨name, hname, rfl⟩,
      _, ⟨config, hconfig, rfl⟩, _, ⟨version, hversion, rfl⟩, _, ⟨productType, hproduct, rfl⟩,
      _, ⟨soc, hsoc, rfl⟩, _, ⟨state, hstate, rfl⟩, rfl⟩

/-- A record that is read under an identifier decodes to the edge that its fields show. -/
theorem decodeFor_select_iff {id : EdgeId} {r : Record} {record : EdgeRecord} :
    decodeFor id (Directory.Memory.select id.value fields r) = .ok record ↔
      record.id = id ∧ (Edge.ofRecord record).ShownBy (shown r) := by
  simp only [decodeFor, decode, bind_eq_ok, ofRecord_select_iff]
  constructor
  -- the identifier is checked last, so the fields that were read are at hand by then
  · rintro ⟨found, ⟨raw, ⟨hid, hname, hcomment, hversion, hproduct, hconfig, hsoc, hipv4, hstate⟩,
      hfinish⟩, hsame⟩
    simp only [Raw.finish, hid] at hfinish
    split at hfinish
    · cases hfinish
    · rename_i config hdocument
      obtain rfl := Except.ok.inj hfinish
      rw [if_pos rfl] at hsame
      obtain rfl := Except.ok.inj hsame
      refine ⟨rfl, ⟨hname, hcomment, hversion, hproduct, hsoc, ⟨raw.ipv4, hipv4, ?_⟩,
        ⟨raw.state, hstate, ?_⟩⟩, raw.config, config, hconfig, hdocument, rfl⟩
      · simp only [Edge.ofRecord]
      · simp only [Edge.ofRecord]
  · rintro ⟨rfl, h⟩
    obtain ⟨text, members, hconfig, hdocument, hobject⟩ := h.config
    obtain ⟨ipv4, hipv4, haddress⟩ := h.ipv4
    obtain ⟨state, hstate, hstage⟩ := h.state
    obtain rfl := Json.object.inj hobject
    refine ⟨record, ⟨⟨some record.id, record.name, record.comment, record.version,
      record.productType, text, record.soc, ipv4, state⟩,
      ⟨rfl, h.name, h.comment, h.version, h.productType, hconfig, h.soc, hipv4, hstate⟩, ?_⟩, ?_⟩
    · simp only [Raw.finish, hdocument, haddress, hstage]
      rfl
    · rw [if_pos rfl]
      rfl

end EdgeRecord

namespace Edge

open WriteBack (Effect effect)

/-- Two edges that agree on everything that is stored. -/
structure Agrees (e e' : Edge) : Prop where
  name : e.name = e'.name
  comment : e.comment = e'.comment
  version : e.version = e'.version
  productType : e.productType = e'.productType
  config : e.config = e'.config
  soc : e.soc = e'.soc
  ipv4 : e.ipv4 = e'.ipv4
  state : e.state = e'.state

/-- A record whose fields show an edge decodes to one that agrees with it. -/
theorem ShownBy.exists_record {e : Edge} {r : Record} (h : e.ShownBy (EdgeRecord.shown r)) (id : EdgeId) :
    ∃ record, EdgeRecord.decodeFor id (Directory.Memory.select id.value EdgeRecord.fields r) =
      .ok record ∧ record.id = id ∧ e.Agrees (ofRecord record) := by
  obtain ⟨text, members, hconfig, hdocument, hobject⟩ := h.config
  let record : EdgeRecord :=
    ⟨id, e.name, e.comment, e.version, e.productType, members, e.soc, e.ipv4, e.state⟩
  have hapart : (ofRecord record).ShownApart (EdgeRecord.shown r) := { h.toShownApart with }
  have hshown : (ofRecord record).ShownBy (EdgeRecord.shown r) :=
    ⟨hapart, text, members, hconfig, hdocument, rfl⟩
  refine ⟨record, EdgeRecord.decodeFor_select_iff.mpr ⟨rfl, hshown⟩, rfl, ?_⟩
  exact ⟨rfl, rfl, rfl, rfl, hobject, rfl, rfl, rfl⟩

/-- A record that shows an edge decodes exactly if the edge's configuration can be a document. -/
theorem Mirrored.decodes_iff {e : Edge} {r : Record} (h : e.Mirrored (EdgeRecord.shown r)) (id : EdgeId) :
    (∃ record, EdgeRecord.decodeFor id (Directory.Memory.select id.value EdgeRecord.fields r) =
      .ok record) ↔ e.config.Documentary := by
  obtain ⟨text, hconfig, hiff⟩ := h.config
  rw [hiff]
  constructor
  · rintro ⟨record, hd⟩
    obtain ⟨-, hshown⟩ := EdgeRecord.decodeFor_select_iff.mp hd
    obtain ⟨text', members, hconfig', hdocument, -⟩ := hshown.config
    obtain rfl := Except.ok.inj (hconfig.symm.trans hconfig')
    exact ⟨members, hdocument⟩
  · rintro ⟨members, hdocument⟩
    let found : Edge := { e with config := .object members }
    have hapart : found.ShownApart (EdgeRecord.shown r) := { h.toShownApart with }
    have hshown : found.ShownBy (EdgeRecord.shown r) :=
      ⟨hapart, text, members, hconfig, hdocument, rfl⟩
    obtain ⟨record, hd, -⟩ := hshown.exists_record id
    exact ⟨record, hd⟩

section Congr

variable {e : Edge} {value value' : Field → Json}
  (hv : ∀ field ∈ EdgeRecord.fields, value' field = value field)

include hv

theorem ShownApart.congr (h : e.ShownApart value) : e.ShownApart value' := by
  have hv (field : Field) (hf : field ∈ EdgeRecord.fields := by decide) := hv field hf
  constructor
  · rw [hv .name]; exact h.name
  · rw [hv .comment]; exact h.comment
  · rw [hv .version]; exact h.version
  · rw [hv .productType]; exact h.productType
  · rw [hv .soc]; exact h.soc
  · rw [hv .ipv4]; exact h.ipv4
  · rw [hv .state]; exact h.state

theorem ShownBy.congr (h : e.ShownBy value) : e.ShownBy value' := by
  refine ⟨h.toShownApart.congr hv, ?_⟩
  rw [hv .config (by decide)]
  exact h.config

theorem Mirrored.congr (h : e.Mirrored value) : e.Mirrored value' := by
  refine ⟨h.toShownApart.congr hv, ?_⟩
  rw [hv .config (by decide)]
  exact h.config

end Congr

/-- Updates that a caller may ask for: a configuration is an object as a document can hold it, without
fractions. -/
def Update.Settable : Update → Prop
  | .config j => ∃ members, j = .object members ∧ j.Canonical ∧ j.Integral ∧ j.depth ≤ 127
  | .online _ | .version _ | .soc _ | .ipv4 _ | .message _ | .data _ => True

/-- Updates with values as a program can hold them, any of them as a configuration. -/
def Update.WellFormed : Update → Prop
  | .config j => j.Canonical ∧ j.Finite
  | .online _ | .version _ | .soc _ | .ipv4 _ | .message _ | .data _ => True

theorem Update.Settable.documentary {j : Json} (h : (Update.config j).Settable) : j.Documentary := by
  obtain ⟨members, hj, -, -, hd⟩ := h
  exact ⟨⟨members, hj⟩, hd⟩

theorem Update.Settable.wellFormed {u : Update} (h : u.Settable) : u.WellFormed := by
  cases u with
  | config j =>
    obtain ⟨_, _, hc, hi, _⟩ := h
    exact ⟨hc, hi.finite⟩
  | online | version | soc | ipv4 | message | data => trivial

/-- The values of the fields after the write that an update leads to, if any. -/
def stored (value : Field → Json) : Option Effect → Field → Json
  | some (.store field new), other => if other = field then new else value other
  | _, other => value other

section Update

variable {e : Edge} {value : Field → Json}

theorem ShownApart.update (h : e.ShownApart value) (u : Update) :
    (e.update u).1.ShownApart (stored value ((e.update u).2.map effect)) := by
  cases u with
  | online online =>
    simp only [Edge.update]
    split
    · exact { h with state := ⟨EdgeState.active.name, rfl, by rw [EdgeState.parse?_name]; rfl⟩ }
    · exact { h with }
  | config config =>
    simp only [Edge.update]
    split
    · exact { h with }
    · exact { h with }
  | version version =>
    simp only [Edge.update]
    split
    · exact { h with }
    · exact { h with version := rfl }
  | soc soc =>
    simp only [Edge.update]
    split
    · rename_i hs
      exact { h with soc := by rw [← hs]; exact h.soc }
    · exact { h with soc := EdgeRecord.integerOf_integerChars soc }
  | ipv4 ipv4 =>
    simp only [Edge.update]
    split
    · rename_i hs
      exact { h with ipv4 := by rw [← hs]; exact h.ipv4 }
    · exact { h with ipv4 := ⟨ipv4.render, rfl, Ipv4.parse?_render ipv4⟩ }
  | message time => exact { h with }
  | data time => exact { h with }

/-- Any other update leaves the configuration as it is, at the edge and in the directory. -/
theorem config_update_of_ne (e : Edge) (value : Field → Json) {u : Update} (hu : ∀ j, u ≠ .config j) :
    (e.update u).1.config = e.config ∧
      stored value ((e.update u).2.map effect) .config = value .config := by
  cases u with
  | config config => exact absurd rfl (hu config)
  | message time => exact ⟨rfl, rfl⟩
  | data time => exact ⟨rfl, rfl⟩
  | online | version =>
    simp only [Edge.update]
    split
    · exact ⟨rfl, rfl⟩
    · exact ⟨rfl, rfl⟩
  | soc | ipv4 =>
    refine ⟨rfl, ?_⟩
    simp only [Edge.update]
    split
    · rfl
    · rfl

theorem shownBy_update (h : e.ShownBy value) {u : Update} (hu : u.Settable) :
    (e.update u).1.ShownBy (stored value ((e.update u).2.map effect)) := by
  refine ⟨h.toShownApart.update u, ?_⟩
  by_cases hset : ∃ j, u = .config j
  · obtain ⟨j, rfl⟩ := hset
    obtain ⟨members, rfl, hc, hi, hd⟩ := hu
    simp only [Edge.update]
    split
    · exact h.config
    · exact ⟨(Json.object members).pretty, members, rfl, Document.parse_pretty hc hi hd, rfl⟩
  · obtain ⟨hconfig, hvalue⟩ := config_update_of_ne e value (not_exists.mp hset)
    rw [hconfig, hvalue]
    exact h.config

theorem ShownBy.mirrored (h : e.ShownBy value) : e.Mirrored value := by
  obtain ⟨text, members, hconfig, hdocument, hobject⟩ := h.config
  have hcan := Json.documentary_of_parse hdocument
  rw [← hobject] at hcan
  exact ⟨h.toShownApart, text, hconfig, fun _ => ⟨members, hdocument⟩, fun _ => hcan⟩

theorem mirrored_update (h : e.Mirrored value) {u : Update} (hu : u.WellFormed) :
    (e.update u).1.Mirrored (stored value ((e.update u).2.map effect)) := by
  refine ⟨h.toShownApart.update u, ?_⟩
  by_cases hset : ∃ j, u = .config j
  · obtain ⟨j, rfl⟩ := hset
    simp only [Edge.update]
    split
    · exact h.config
    · exact ⟨j.pretty, rfl, Json.documentary_iff hu.1 hu.2⟩
  · obtain ⟨hconfig, hvalue⟩ := config_update_of_ne e value (not_exists.mp hset)
    rw [hconfig, hvalue]
    exact h.config

/-- A configuration that is set is one that can be a document exactly if the given one is, also where the
edge keeps an equal one that it had. -/
theorem documentary_update (e : Edge) (j : Json) :
    (e.update (.config j)).1.config.Documentary ↔ j.Documentary := by
  simp only [Edge.update]
  split
  · rename_i hsame
    exact Json.documentary_of_same hsame
  · rfl

end Update

/-- Whether updates of some kind leave a relation between an edge and the fields of its record. -/
structure Lasting (rel : Edge → (Field → Json) → Prop) (allowed : Update → Prop) : Prop where
  update : ∀ {e value u}, rel e value → allowed u →
    rel (e.update u).1 (stored value ((e.update u).2.map effect))
  congr : ∀ {e value value'}, rel e value → (∀ field ∈ EdgeRecord.fields, value' field = value field) →
    rel e value'

theorem lasting_shownBy : Lasting ShownBy Update.Settable where
  update h hu := shownBy_update h hu
  congr h hv := h.congr hv

theorem lasting_mirrored : Lasting Mirrored Update.WellFormed where
  update h hu := mirrored_update h hu
  congr h hv := h.congr hv

end Edge

end EdgeFleet
