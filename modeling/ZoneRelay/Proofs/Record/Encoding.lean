import ZoneRelay.Proofs.Record.Data
import ZoneRelay.Record.Encoding

/-!
# Record sets and their wire records

* `RecordSet.encode_eq_ok_iff`: which record sets have wire records, and which these are.
* `RecordSet.encode_decoded`: the wire records of a record set make a record set with the same wire
  records.
-/

namespace ZoneRelay

theorem Name.validate_ok {s n : String} (h : Name.validate s = .ok n) : n = Name.normalize s := by
  unfold Name.validate at h
  split at h
  · next h1 => rw [← Except.ok.inj h]; exact Name.validate?_eq_some h1
  · cases h

namespace RecordSet

variable {s : RecordSet} {w : List WireRecord}

/-- The record set has these wire records: its name is legal, it holds values, just one if it is an
alias, and each value is of the set's type. -/
structure Encodes (s : RecordSet) (w : List WireRecord) : Prop where
  legal : Name.validate? s.name = some (Name.normalize s.name)
  typed : s.type ≠ .unspecified
  holds : s.values ≠ []
  single : s.type = .cname → s.values.length = 1
  records : List.Forall₂ (fun value r => RecordData.canonical s.type value = .ok r.rdata ∧
    r = ⟨Name.normalize s.name, s.type, s.ttl, r.rdata⟩) s.values w

theorem encodeValue_eq_ok_iff {name : String} {type : RecordType} {ttl : UInt32} {value : String}
    {r : WireRecord} : encodeValue name type ttl value = .ok r ↔
      RecordData.canonical type value = .ok r.rdata ∧ r = ⟨name, type, ttl, r.rdata⟩ := by
  unfold encodeValue
  constructor
  · intro h
    split at h
    · next rdata hv =>
      rw [← Except.ok.inj h]
      exact ⟨hv, rfl⟩
    · cases h
  · rintro ⟨h1, h2⟩
    rw [h1, h2]

theorem encode_eq_ok_iff : s.encode = .ok w ↔ s.Encodes w := by
  have hvalues : s.values.isEmpty = true ↔ s.values = [] := List.isEmpty_iff
  constructor
  · intro h
    obtain ⟨name, hn, h⟩ := bind_ok h
    obtain rfl := Name.validate_ok hn
    unfold encodeNamed at h
    split at h
    · cases h
    split at h
    · cases h
    split at h
    · cases h
    next htype hempty halias =>
    rw [hvalues] at hempty
    refine ⟨?_, htype, hempty, fun hc => ?_, ?_⟩
    · unfold Name.validate at hn
      split at hn
      · next m hm => rw [hm, Except.ok.inj hn]
      · cases hn
    · have h1 : 0 < s.values.length := List.length_pos_iff.2 hempty
      have h2 : ¬ 1 < s.values.length := fun h3 => halias ⟨hc, h3⟩
      omega
    · exact (mapM_ok_iff.1 h).imp fun _ _ h1 => encodeValue_eq_ok_iff.1 h1
  · rintro ⟨hlegal, htype, hempty, hsingle, hrecords⟩
    have hname : Name.validate s.name = .ok (Name.normalize s.name) := by
      rw [Name.validate, hlegal]
    rw [encode, hname]
    change encodeNamed (Name.normalize s.name) s = .ok w
    rw [encodeNamed, if_neg htype, if_neg (fun h => hempty (hvalues.1 h)), if_neg]
    · exact mapM_ok_iff.2 (hrecords.imp fun _ _ h => encodeValue_eq_ok_iff.2 h)
    · rintro ⟨h1, h2⟩
      rw [hsingle h1] at h2
      exact absurd h2 (lt_irrefl 1)

/-- There is a wire record for each value, so there is one. -/
theorem Encodes.ne_nil (h : s.Encodes w) : w ≠ [] := by
  rintro rfl
  exact h.holds (List.length_eq_zero_iff.1 h.records.length_eq)

/-- The record set that the wire records of `s` make. -/
def decoded (s : RecordSet) (w : List WireRecord) : RecordSet :=
  { name := Name.normalize s.name, type := s.type, ttl := s.ttl, values := w.map (·.rdata) }

/-- All wire records carry the name, type and time to live of their set. -/
theorem Encodes.head (h : s.Encodes w) :
    ∀ r ∈ w, r.name = Name.normalize s.name ∧ r.type = s.type ∧ r.ttl = s.ttl := by
  intro r hr
  obtain ⟨_, -, -, h1⟩ := exists_of_forall₂ h.records hr
  exact ⟨by rw [h1], by rw [h1], by rw [h1]⟩

theorem Encodes.ofWire (h : s.Encodes w) : ofWire w = .ok (s.decoded w) := by
  cases w with
  | nil => exact absurd rfl h.ne_nil
  | cons r rest =>
    obtain ⟨hn, ht, httl⟩ := h.head r List.mem_cons_self
    have hall : (rest.all fun x => x.name == r.name && x.type == r.type) = true := by
      rw [List.all_eq_true]
      intro x hx
      obtain ⟨hn', ht', -⟩ := h.head x (List.mem_cons_of_mem _ hx)
      simp [hn, ht, hn', ht']
    rw [RecordSet.ofWire, if_pos hall, decoded, hn, ht, httl]

/-- What the wire records of a set make has the same wire records. -/
theorem Encodes.decoded (h : s.Encodes w) : (s.decoded w).Encodes w where
  legal := by
    simpa only [RecordSet.decoded, Name.normalize_normalize] using Name.validate?_normal h.legal
  typed := h.typed
  holds := fun h1 => h.ne_nil (List.map_eq_nil_iff.1 h1)
  single := by
    intro hc
    rw [RecordSet.decoded, List.length_map, ← h.records.length_eq]
    exact h.single hc
  records := by
    simp only [RecordSet.decoded, Name.normalize_normalize, List.forall₂_map_left_iff]
    refine List.forall₂_same.2 fun r hr => ?_
    obtain ⟨_, -, h1, h2⟩ := exists_of_forall₂ h.records hr
    exact ⟨RecordData.canonical_canonical h1, h2⟩

/-- **Encoding is idempotent.** If a record set has wire records, they make a record set whose name
is the normal form of the set's name, with its type, its time to live and as many values, and that
record set has exactly the same wire records. -/
theorem encode_decoded (h : s.encode = .ok w) :
    ∃ t, RecordSet.ofWire w = .ok t ∧ t.name = Name.normalize s.name ∧ t.type = s.type ∧
      t.ttl = s.ttl ∧ t.values.length = s.values.length ∧ t.encode = .ok w := by
  have h1 := encode_eq_ok_iff.1 h
  refine ⟨s.decoded w, h1.ofWire, by rw [decoded], by rw [decoded], by rw [decoded], ?_,
    encode_eq_ok_iff.2 h1.decoded⟩
  rw [decoded, List.length_map, h1.records.length_eq]

/-- An authority record with blanks of several kinds, upper case, a plus sign and zeros in front. -/
theorem encode_decoded_authority :
    let s : RecordSet := ⟨" Example.COM", .soa, 300,
      ["NS1.example.com\u3000ADMIN.example.com. 07 +3600\t0 0 60 "]⟩
    let w : List WireRecord := [⟨"example.com.", .soa, 300,
      "ns1.example.com. admin.example.com. 7 3600 0 0 60"⟩]
    s.encode = .ok w ∧
      ∃ t, RecordSet.ofWire w = .ok t ∧ t.name = Name.normalize s.name ∧ t.type = s.type ∧
        t.ttl = s.ttl ∧ t.values.length = s.values.length ∧ t.encode = .ok w := by
  intro s w
  have h : s.encode = .ok w := by decide +kernel
  exact ⟨h, encode_decoded h⟩

end RecordSet

end ZoneRelay
