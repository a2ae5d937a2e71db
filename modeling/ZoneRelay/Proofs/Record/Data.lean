import ZoneRelay.Proofs.Address.IPv4
import ZoneRelay.Proofs.Address.IPv6
import ZoneRelay.Proofs.Name
import ZoneRelay.Proofs.Success
import ZoneRelay.Record.Data

/-!
# Canonical forms of record data

* `fields_joined`, `trim_joined`: words with one space between them are the fields of that text.
* `Settles`: what is written for a field is a word that is left as it is. Numerals and names are
  such fields: `settles_numeral`, `settles_nameField`.
* `SettlesFields`: the same for the grammars made of fields.
* `canonical_canonical`: a canonical form is its own canonical form.
-/

namespace ZoneRelay.RecordData

open Text

variable {s c : List Char} {ws cs : List (List Char)}

/-! ## Fields -/

theorem fields_joined (h : ∀ w ∈ ws, IsWord w) : fields (joined ws) = ws := by
  fun_induction joined ws with
  | case1 => rfl
  | case2 w => exact fields_word (h w List.mem_cons_self)
  | case3 w v r ih =>
    rw [fields_cons (h w List.mem_cons_self) rfl, ih fun x hx => h x (List.mem_cons_of_mem _ hx)]

theorem head_joined (h : ∀ w ∈ ws, IsWord w) : ∀ c ∈ (joined ws).head?, isBlank c = false := by
  intro c hc
  fun_cases joined ws with
  | case1 => cases hc
  | case2 w => exact (h w List.mem_cons_self).solid c (List.mem_of_mem_head? hc)
  | case3 w v r =>
    have hw := h w List.mem_cons_self
    rw [joined, List.head?_append_of_ne_nil _ hw.ne_nil] at hc
    exact hw.solid c (List.mem_of_mem_head? hc)

theorem last_joined (h : ∀ w ∈ ws, IsWord w) : ∀ c ∈ (joined ws).getLast?, isBlank c = false := by
  fun_induction joined ws with
  | case1 => simp
  | case2 w => exact fun c hc => (h w List.mem_cons_self).solid c (List.mem_of_getLast? hc)
  | case3 w v r ih =>
    have hrest : ∀ x ∈ v :: r, IsWord x := fun x hx => h x (List.mem_cons_of_mem _ hx)
    have hne : joined (v :: r) ≠ [] := by
      intro h1
      have h2 := fields_joined hrest
      rw [h1] at h2
      cases h2
    intro c hc
    refine ih hrest c ?_
    rwa [List.getLast?_append_of_ne_nil _ (List.cons_ne_nil _ _),
      List.getLast?_cons_of_ne_nil hne] at hc

theorem trim_joined (h : ∀ w ∈ ws, IsWord w) : trim (joined ws) = joined ws :=
  trim_eq_self (head_joined h) (last_joined h)

/-! ## Single fields -/

/-- What is written for a word is a word, and is left as it is. -/
def Settles (f : List Char → Except DataFault (List Char)) : Prop :=
  ∀ ⦃s c⦄, IsWord s → f s = .ok c → IsWord c ∧ f c = .ok c

theorem isWord_decimal (n : ℕ) : IsWord (decimal n) :=
  ⟨decimal_ne_nil n, fun _ hc => isBlank_of_isDigit (decimal_isDigit n _ hc)⟩

theorem settles_numeral (field : String) (bound : ℕ) : Settles (numeral field bound) := by
  intro s c _ h
  unfold numeral at h
  split at h
  · next n hn =>
    obtain rfl := Except.ok.inj h
    have hlt : n < bound := by
      obtain ⟨m, -, h1⟩ := Option.bind_eq_some_iff.1 hn
      split at h1
      · next h2 => rwa [← Option.some.inj h1]
      · cases h1
    refine ⟨isWord_decimal n, ?_⟩
    unfold numeral
    rw [below?_decimal hlt]
  · cases h

theorem settles_nameField (field : String) : Settles (nameField field) := by
  intro s c hs h
  unfold nameField at h
  split at h
  · next n hn =>
    obtain rfl := Except.ok.inj h
    constructor
    · rw [Name.validate?_eq_some hn]
      exact Name.isWord_normalize (by rwa [String.toList_ofList])
    · unfold nameField
      rw [String.ofList_toList, Name.validate?_normal hn]
  · cases h

/-! ## Grammars made of fields -/

/-- What is written for words are words with one space between them, and is left as it is. -/
def SettlesFields (g : List (List Char) → Except DataFault (List Char)) : Prop :=
  ∀ ⦃ws c⦄, (∀ w ∈ ws, IsWord w) → g ws = .ok c →
    ∃ cs, (∀ w ∈ cs, IsWord w) ∧ c = joined cs ∧ g cs = .ok c

theorem settles_mapM {f : List Char → Except DataFault (List Char)} (hf : Settles f)
    (hw : ∀ w ∈ ws, IsWord w) (h : ws.mapM f = .ok cs) :
    (∀ w ∈ cs, IsWord w) ∧ cs.mapM f = .ok cs ∧ cs.length = ws.length := by
  have h1 := mapM_ok_iff.1 h
  have key : (∀ w ∈ cs, IsWord w) ∧ List.Forall₂ (fun a b => f a = .ok b) cs cs := by
    clear h
    induction h1 with
    | nil => exact ⟨by simp, .nil⟩
    | cons h2 _ ih =>
      obtain ⟨h3, h4⟩ := hf (hw _ List.mem_cons_self) h2
      obtain ⟨h5, h6⟩ := ih fun w hx => hw w (List.mem_cons_of_mem _ hx)
      exact ⟨List.forall_mem_cons.2 ⟨h3, h5⟩, .cons h4 h6⟩
  exact ⟨key.1, mapM_ok_iff.2 key.2, h1.length_eq.symm⟩

theorem settles_mailExchange : SettlesFields mailExchange := by
  intro ws c hw h
  unfold mailExchange at h
  split at h
  · next preference exchange =>
    obtain ⟨p, hp, h⟩ := bind_ok h
    obtain ⟨x, hx, h⟩ := bind_ok h
    obtain ⟨wp, hp⟩ := settles_numeral _ _ (hw _ (by simp)) hp
    obtain ⟨wx, hx⟩ := settles_nameField _ (hw _ (by simp)) hx
    refine ⟨[p, x], by simp [wp, wx], (Except.ok.inj h).symm, ?_⟩
    rw [mailExchange, hp, hx]
    exact h
  · cases h

theorem settles_service : SettlesFields service := by
  intro ws c hw h
  unfold service at h
  split at h
  · next priority weight number target =>
    obtain ⟨p, hp, h⟩ := bind_ok h
    obtain ⟨w, hwt, h⟩ := bind_ok h
    obtain ⟨n, hn, h⟩ := bind_ok h
    obtain ⟨t, ht, h⟩ := bind_ok h
    obtain ⟨wp, hp⟩ := settles_numeral _ _ (hw _ (by simp)) hp
    obtain ⟨ww, hwt⟩ := settles_numeral _ _ (hw _ (by simp)) hwt
    obtain ⟨wn, hn⟩ := settles_numeral _ _ (hw _ (by simp)) hn
    obtain ⟨wt, ht⟩ := settles_nameField _ (hw _ (by simp)) ht
    refine ⟨[p, w, n, t], by simp [wp, ww, wn, wt], (Except.ok.inj h).symm, ?_⟩
    rw [service, hp, hwt, hn, ht]
    exact h
  · cases h

theorem settles_authority : SettlesFields authority := by
  intro ws c hw h
  unfold authority at h
  split at h
  · next mname rname serial refresh retry expire minimum =>
    obtain ⟨m, hm, h⟩ := bind_ok h
    obtain ⟨r, hr, h⟩ := bind_ok h
    obtain ⟨timers, htimers, h⟩ := bind_ok h
    obtain ⟨wm, hm⟩ := settles_nameField _ (hw _ (by simp)) hm
    obtain ⟨wr, hr⟩ := settles_nameField _ (hw _ (by simp)) hr
    obtain ⟨wts, htimers, hlen⟩ := settles_mapM (settles_numeral _ _)
      (fun w hx => hw w (List.mem_cons_of_mem _ (List.mem_cons_of_mem _ hx))) htimers
    refine ⟨m :: r :: timers, List.forall_mem_cons.2 ⟨wm, List.forall_mem_cons.2 ⟨wr, wts⟩⟩,
      (Except.ok.inj h).symm, ?_⟩
    -- the grammar asks for five timers one by one
    obtain ⟨t1, t2, t3, t4, t5, rfl⟩ : ∃ t1 t2 t3 t4 t5, timers = [t1, t2, t3, t4, t5] := by
      match timers, hlen with
      | [t1, t2, t3, t4, t5], _ => exact ⟨t1, t2, t3, t4, t5, rfl⟩
    rw [authority, hm, hr]
    change ([t1, t2, t3, t4, t5].mapM (numeral "timer value" UInt32.size) >>=
      fun timers => .ok (joined (m :: r :: timers))) = _
    rw [htimers]
    exact h
  · cases h

theorem settles_issuance : SettlesFields issuance := by
  intro ws c hw h
  unfold issuance at h
  split at h
  · next flags tag value more =>
    obtain ⟨f, hf, h⟩ := bind_ok h
    obtain ⟨wf, hf⟩ := settles_numeral _ _ (hw _ (by simp)) hf
    have htag : (tag.map Char.toLower).map Char.toLower = tag.map Char.toLower := by
      rw [List.map_map]
      exact List.map_congr_left fun c _ => toLower_toLower c
    refine ⟨f :: tag.map Char.toLower :: value :: more, ?_, (Except.ok.inj h).symm, ?_⟩
    · refine List.forall_mem_cons.2 ⟨wf, List.forall_mem_cons.2 ⟨?_, fun w hx => ?_⟩⟩
      · exact (hw tag (by simp)).toLower
      · exact hw w (List.mem_cons_of_mem _ (List.mem_cons_of_mem _ hx))
    · rw [issuance, hf, htag]
      exact h
  · cases h

/-! ## Data -/

/-- A grammar made of fields leaves what it has written as it is, read as text again. -/
theorem SettlesFields.text {g : List (List Char) → Except DataFault (List Char)}
    (hg : SettlesFields g) (h : g (fields s) = .ok c) : trim c = c ∧ g (fields c) = .ok c := by
  obtain ⟨cs, hw, rfl, h1⟩ := hg (fun w hx => isWord_of_mem_fields hx) h
  exact ⟨trim_joined hw, by rwa [fields_joined hw]⟩

theorem ipv4_text (h : ipv4 s = .ok c) : trim c = c ∧ ipv4 c = .ok c := by
  unfold ipv4 at h
  split at h
  · next ip _ =>
    obtain rfl := Except.ok.inj h
    refine ⟨(IPv4.isWord_render ip).trim, ?_⟩
    unfold ipv4
    rw [IPv4.parse?_render]
  · cases h

theorem ipv6_text (h : ipv6 s = .ok c) : trim c = c ∧ ipv6 c = .ok c := by
  unfold ipv6 at h
  split at h
  · next ip _ =>
    obtain rfl := Except.ok.inj h
    refine ⟨(IPv6.isWord_render ip).trim, ?_⟩
    unfold ipv6
    rw [IPv6.parse?_render]
  · cases h

theorem name_text (h : name s = .ok c) : trim c = c ∧ name c = .ok c := by
  unfold name at h
  split at h
  · next n hn =>
    obtain rfl := Except.ok.inj h
    constructor
    · rw [Name.validate?_eq_some hn]
      refine trim_eq_self Name.head_normalize fun c hc => ?_
      rw [Name.toList_normalize, List.getLast?_concat] at hc
      obtain rfl := Option.some.inj hc
      decide
    · unfold name
      rw [String.ofList_toList, Name.validate?_normal hn]
  · cases h

theorem text_text (h : text (trim s) = .ok c) : trim c = c ∧ text c = .ok c := by
  unfold text at h
  split at h
  · cases h
  · next hne =>
    obtain rfl := Except.ok.inj h
    refine ⟨trim_trim s, ?_⟩
    unfold text
    rw [if_neg hne]

theorem canonicalChars_canonical {type : RecordType} (h : canonicalChars type s = .ok c) :
    canonicalChars type c = .ok c := by
  -- the form is trimmed before it is read again, which leaves it as it is
  have again : ∀ {g : List Char → Except DataFault (List Char)},
      trim c = c ∧ g c = .ok c → g (trim c) = .ok c := fun h1 => by rw [h1.1, h1.2]
  cases type <;> simp only [canonicalChars] at h ⊢
  case a => exact again (ipv4_text h)
  case aaaa => exact again (ipv6_text h)
  case cname | ns | ptr => exact again (name_text h)
  case mx => exact again (g := fun c => mailExchange (fields c)) (settles_mailExchange.text h)
  case srv => exact again (g := fun c => service (fields c)) (settles_service.text h)
  case soa => exact again (g := fun c => authority (fields c)) (settles_authority.text h)
  case caa => exact again (g := fun c => issuance (fields c)) (settles_issuance.text h)
  case txt => exact again (text_text h)
  case unspecified => cases h

/-- **A canonical form is its own canonical form.** -/
theorem canonical_canonical {type : RecordType} {value rdata : String}
    (h : canonical type value = .ok rdata) : canonical type rdata = .ok rdata := by
  obtain ⟨c, h1, rfl⟩ := map_ok h
  unfold canonical
  rw [String.toList_ofList, canonicalChars_canonical h1]
  rfl

end ZoneRelay.RecordData
