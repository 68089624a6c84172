/-
  The scripts on a hash that only they have written.

  `Written` says that every text is a lease of a client that has a character, no longer than a
  grant of the last call would make it, and over before the server drops its hash. Under it the
  scripts are lawful on `hashRegister`, with whole seconds as expiries.
-/
import WebGis.Collab.Registers

namespace WebGis.Collab

open Data Leasing List Option Dict Register Hashes

/-- The term that a text stands for. -/
def termOf (v : Chars) : Option (Term String Rat) :=
  (decodeHolder v).map fun h => ⟨h.client, textExp v⟩

/-- What the hashes hold, dropped or not. -/
def hashRegister (H : Hashes) : Register String String String Rat := fun sid key =>
  ((H.find sid).bind fun hash => hash.fields.find key).bind termOf

/-- The expiry of a grant: `math.floor(now + ttl)` -/
def wholeStamp (now : Rat) : Rat := wholeExp now

/-- A lease that the scripts may have written up to `last`. -/
structure IsLease (last dropped : Rat) (v : Chars) : Prop where
  text : ∃ client label exp, v = leaseText client label exp ∧ Quoteless client.toList ∧
    Quoteless label.toList ∧ client ≠ "" ∧ (exp : Rat) ≤ last + leaseTtl ∧ (exp : Rat) < dropped

def Written (last : Rat) (H : Hashes) : Prop :=
  ∀ sid hash, H.find sid = some hash → ∀ key v, hash.fields.find key = some v →
    IsLease last hash.dropped v

section

variable {H : Hashes} {now last : Rat} {sid key client label : String} {v : Chars}

theorem termOf_leaseText {exp : Int} (hc : Quoteless client.toList) (hl : Quoteless label.toList) :
    termOf (leaseText client label exp) = some ⟨client, exp⟩ := by
  unfold termOf
  rw [decodeHolder_leaseText hc hl, textExp_leaseText hc hl]
  rfl

theorem IsLease.term {dropped : Rat} (h : IsLease last dropped v) :
    ∃ client, termOf v = some ⟨client, textExp v⟩ ∧
      (decodeHolder v).map Holder.client = some client ∧
      textClient v = some client.toList ∧ (textExp v : Rat) < dropped := by
  obtain ⟨client, label, exp, rfl, hc, hl, hne, _, hdropped⟩ := h.text
  refine ⟨client, ?_, ?_, textClient_leaseText hc hne, ?_⟩
  · rw [termOf_leaseText hc hl, textExp_leaseText hc hl]
  · rw [decodeHolder_leaseText hc hl]
    rfl
  · rw [textExp_leaseText hc hl]
    exact hdropped

theorem IsLease.mono {last' dropped dropped' : Rat} (h : IsLease last dropped v)
    (hlast : last ≤ last') (hdropped : last + leaseTtl < dropped') : IsLease last' dropped' v := by
  obtain ⟨client, label, exp, rfl, hc, hl, hne, hexp, _⟩ := h.text
  exact ⟨client, label, exp, rfl, hc, hl, hne, hexp.trans (by linarith),
    hexp.trans_lt hdropped⟩

theorem IsLease.later {last' dropped : Rat} (h : IsLease last dropped v) (hlast : last ≤ last') :
    IsLease last' dropped v := by
  obtain ⟨client, label, exp, rfl, hc, hl, hne, hexp, hdropped⟩ := h.text
  exact ⟨client, label, exp, rfl, hc, hl, hne, hexp.trans (by linarith), hdropped⟩

theorem Written.later (h : Written last H) (hle : last ≤ now) : Written now H :=
  fun sid hash hf key v hv => (h sid hash hf key v hv).later hle

/-! ## The fields that the server still has -/

section

variable (hw : Written last H)
include hw

theorem fields_find {sid : String} (hv : (H.fields now sid).find key = some v) :
    ∃ hash, H.find sid = some hash ∧ hash.fields.find key = some v ∧
      IsLease last hash.dropped v := by
  unfold fields at hv
  split at hv
  · rename_i hash hf
    split at hv
    · exact ⟨hash, hf, hv, hw sid hash hf key v hv⟩
    · cases hv
  · cases hv

/-- A hash that has been dropped held only what was over. -/
theorem live_hashRegister (now : Rat) (sid key : String) :
    (hashRegister H).live now sid key =
      (((H.fields now sid).find key).bind termOf).filter (now ≤ ·.expiry) := by
  unfold live hashRegister fields
  cases hf : H.find sid with
  | none => rfl
  | some hash =>
    rw [bind_some]
    dsimp only
    split
    · rfl
    rename_i hgone
    cases hv : hash.fields.find key with
    | none => rfl
    | some v =>
      obtain ⟨client, hterm, _, _, hexp⟩ := (hw sid hash hf key v hv).term
      have hover : ¬ now ≤ (textExp v : Rat) :=
        not_le.mpr (hexp.trans_le (not_lt.mp hgone))
      simp [hterm, Option.filter, hover]

theorem holder_hashRegister (now : Rat) (sid key client : String) :
    (hashRegister H).holder now sid key = some client ↔
      ∃ v, (H.fields now sid).find key = some v ∧ ¬ (textExp v : Rat) < now ∧
        textClient v = some client.toList := by
  unfold holder
  rw [live_hashRegister hw]
  constructor
  · intro h
    obtain ⟨term, hterm, hclient⟩ := map_eq_some_iff.mp h
    obtain ⟨hbind, hlive⟩ := filter_eq_some_iff.mp hterm
    obtain ⟨v, hv, hterm⟩ := bind_eq_some_iff.mp hbind
    obtain ⟨hash, _, _, hlease⟩ := fields_find hw hv
    obtain ⟨c, hterm', _, hc, _⟩ := hlease.term
    rw [hterm] at hterm'
    cases hterm'
    refine ⟨v, hv, not_lt.mpr (of_decide_eq_true hlive), ?_⟩
    rw [hc, ← hclient]
  · rintro ⟨v, hv, hlive, hclient⟩
    obtain ⟨hash, _, _, hlease⟩ := fields_find hw hv
    obtain ⟨c, hterm, _, hc, _⟩ := hlease.term
    rw [hclient] at hc
    have hcc : client = c := String.toList_inj.mp (some.inj hc)
    have hlive := not_lt.mp hlive
    simp [hv, hterm, Option.filter, hlive, hcc]

theorem holder_none_hashRegister (now : Rat) (sid key : String) :
    (hashRegister H).holder now sid key = none ↔
      ∀ v, (H.fields now sid).find key = some v → (textExp v : Rat) < now := by
  constructor
  · intro h v hv
    by_contra hlive
    obtain ⟨hash, _, _, hlease⟩ := fields_find hw hv
    obtain ⟨c, _, _, hc, _⟩ := hlease.term
    rw [(holder_hashRegister hw now sid key c).mpr ⟨v, hv, hlive, hc⟩] at h
    cases h
  · intro h
    cases hh : (hashRegister H).holder now sid key with
    | none => rfl
    | some c =>
      obtain ⟨v, hv, hlive, _⟩ := (holder_hashRegister hw now sid key c).mp hh
      exact absurd (h v hv) hlive

end

/-! ## What a script leaves -/

variable (sid) in
theorem write_same (hw : Written last H) (p : String × Chars → Bool)
    (hp : ∀ k v, (H.fields now sid).find k = some v → p (k, v) → (textExp v : Rat) < now) :
    SameFrom now (hashRegister (H.write sid (Table.delete (H.fields now sid) p)))
      (hashRegister H) := by
  intro sid' key
  rw [live_hashRegister hw]
  unfold write
  cases hf : H.find sid with
  | none =>
    rw [live_hashRegister hw]
  | some hash =>
    by_cases hs : sid = sid'
    · subst hs
      unfold live hashRegister
      rw [find_set_self, bind_some]
      rw [Dict.find_delete]
      cases hv : (H.fields now sid).find key with
      | none => rfl
      | some v =>
        obtain ⟨hash', _, _, hlease⟩ := fields_find hw hv
        obtain ⟨c, hterm, _⟩ := hlease.term
        by_cases hpv : p (key, v)
        · have hover := not_le.mpr (hp key v hv hpv)
          simp [Option.filter, hpv, hterm, hover]
        · simp [Option.filter, hpv, hterm]
    · rw [← live_hashRegister hw]
      unfold live hashRegister
      rw [find_set_ne _ _ hs]

variable (now sid) in
theorem written_write (hw : Written last H) (p : String × Chars → Bool) :
    Written last (H.write sid (Table.delete (H.fields now sid) p)) := by
  unfold write
  cases hf : H.find sid with
  | none => exact hw
  | some hash =>
    intro sid' hash' hf' key v hv
    rw [find_set] at hf'
    split at hf'
    · cases hf'
      rw [Dict.find_delete] at hv
      obtain ⟨hv, _⟩ := filter_eq_some_iff.mp hv
      obtain ⟨hash₁, hf₁, _, hlease⟩ := fields_find hw hv
      rw [hf] at hf₁
      cases hf₁
      exact hlease
    · exact hw sid' hash' hf' key v hv

theorem write_released (hw : Written last H) (now : Rat) (sid key : String) :
    SameFrom now
      (hashRegister (H.write sid (Table.delete (H.fields now sid) fun kv => kv.1 = key)))
      ((hashRegister H).assign sid key none) := by
  intro sid' key'
  by_cases hsk : sid' = sid ∧ key' = key
  · obtain ⟨rfl, rfl⟩ := hsk
    unfold live
    rw [assign_self]
    unfold write hashRegister
    cases hf : H.find sid' with
    | none => simp [hf]
    | some hash =>
      rw [find_set_self, bind_some]
      rw [Dict.find_delete]
      cases (H.fields now sid').find key' <;> simp [Option.filter]
  · have hassign : ((hashRegister H).assign sid key none).live now sid' key' =
        (hashRegister H).live now sid' key' := by
      unfold live
      rw [assign_ne none hsk]
    rw [hassign, live_hashRegister hw]
    unfold write
    cases hf : H.find sid with
    | none =>
      rw [live_hashRegister hw]
    | some hash =>
      by_cases hs : sid = sid'
      · subst hs
        have hk : ¬ key' = key := fun he => hsk ⟨rfl, he⟩
        unfold live hashRegister
        rw [find_set_self, bind_some]
        rw [Dict.find_delete]
        cases (H.fields now sid).find key' <;> simp [Option.filter, hk]
      · rw [← live_hashRegister hw]
        unfold live hashRegister
        rw [find_set_ne _ _ hs]

/-- The fields, but for some that are over. -/
def Trimmed (now : Rat) (fields kept : Dict String Chars) : Prop :=
  ∀ k, kept.find k = fields.find k ∨
    kept.find k = none ∧ ∀ v, fields.find k = some v → (textExp v : Rat) < now

variable (key) in
theorem grant_same (hw : Written last H) {kept : Dict String Chars}
    (hkept : Trimmed now (H.fields now sid) kept) (hterm : termOf v = some ⟨client, wholeStamp now⟩) :
    SameFrom now (hashRegister (H.grant now sid key kept v))
      ((hashRegister H).assign sid key (some ⟨client, wholeStamp now⟩)) := by
  intro sid' key'
  by_cases hsk : sid' = sid ∧ key' = key
  · obtain ⟨rfl, rfl⟩ := hsk
    unfold live
    rw [assign_self]
    unfold grant hashRegister
    rw [find_set_self, bind_some]
    rw [find_set_self, bind_some, hterm]
  · have hassign : ((hashRegister H).assign sid key (some ⟨client, wholeStamp now⟩)).live now sid'
        key' = (hashRegister H).live now sid' key' := by
      unfold live
      rw [assign_ne _ hsk]
    rw [hassign]
    by_cases hs : sid = sid'
    · subst hs
      have hk : key ≠ key' := fun he => hsk ⟨rfl, he.symm⟩
      rw [live_hashRegister hw]
      unfold live grant hashRegister
      rw [find_set_self, bind_some]
      rw [find_set_ne _ _ hk]
      obtain hsame | ⟨hnone, hover⟩ := hkept key'
      · rw [hsame]
      rw [hnone]
      cases hf : (H.fields now sid).find key' with
      | none => rfl
      | some old =>
        obtain ⟨hash, _, _, hlease⟩ := fields_find hw hf
        obtain ⟨c, hold, _⟩ := hlease.term
        have hgone := not_le.mpr (hover old hf)
        simp [hold, Option.filter, hgone]
    · unfold live grant hashRegister
      rw [find_set_ne _ _ hs]

variable (label) in
theorem isLease_grant (now : Rat) (hc : Quoteless client.toList) (hne : client ≠ "")
    (hl : Quoteless label.toList) :
    IsLease now (now + hashTtl) (leaseText client label (wholeExp now)) := by
  have hfloor : (wholeExp now : Rat) ≤ now + leaseTtl := Rat.floor_le _
  refine ⟨client, label, wholeExp now, rfl, hc, hl, hne, hfloor, ?_⟩
  have hlong : leaseTtl < hashTtl := by decide +kernel
  linarith

variable (key) in
theorem written_grant (hw : Written last H) (hle : last ≤ now) {kept : Dict String Chars}
    (hkept : Trimmed now (H.fields now sid) kept) (hv : IsLease now (now + hashTtl) v) :
    Written now (H.grant now sid key kept v) := by
  have hlong : leaseTtl < hashTtl := by decide +kernel
  intro sid' hash hf key' v' hv'
  unfold grant at hf
  rw [find_set] at hf
  split at hf
  · cases hf
    rw [find_set] at hv'
    split at hv'
    · cases hv'
      exact hv
    · obtain hsame | ⟨hnone, _⟩ := hkept key'
      · rw [hsame] at hv'
        obtain ⟨hash', _, _, hlease⟩ := fields_find hw hv'
        exact hlease.mono hle (by linarith)
      · rw [hnone] at hv'
        cases hv'
  · exact (hw sid' hash hf key' v' hv').later hle

/-! ## The scripts -/

theorem mem_expiredKeys {fields : Dict String Chars} {k : String} :
    k ∈ expiredKeys fields now ↔ ∃ v, fields.find k = some v ∧ (textExp v : Rat) < now := by
  unfold expiredKeys
  rw [List.mem_map]
  constructor
  · rintro ⟨kv, hkv, rfl⟩
    obtain ⟨hmem, hover⟩ := mem_filter.mp hkv
    exact ⟨kv.2, find_eq_some.mpr hmem, of_decide_eq_true hover⟩
  · rintro ⟨v, hv, hover⟩
    exact ⟨(k, v), mem_filter.mpr ⟨find_eq_some.mp hv, decide_eq_true hover⟩, rfl⟩

theorem trimmed_expired (fields : Dict String Chars) (now : Rat) :
    Trimmed now fields (Table.delete fields fun kv => kv.1 ∈ expiredKeys fields now) := by
  intro k
  rw [Dict.find_delete]
  cases hv : fields.find k with
  | none => exact .inl rfl
  | some v =>
    by_cases hk : k ∈ expiredKeys fields now
    · refine .inr ⟨by simp [Option.filter, hk], ?_⟩
      intro v' hv'
      cases hv'
      obtain ⟨v'', hv'', hover⟩ := mem_expiredKeys.mp hk
      rw [hv] at hv''
      cases hv''
      exact hover
    · exact .inl (by simp [Option.filter, hk])

theorem trimmed_refl (now : Rat) (fields : Dict String Chars) : Trimmed now fields fields :=
  fun _ => .inl rfl

theorem find_live (fields : Dict String Chars) (now : Rat) (key : String) :
    ((fields.items.filter fun kv => ¬ (textExp kv.2 : Rat) < now).find? fun kv =>
        kv.1 = key).map Prod.snd =
      (fields.find key).filter fun v => ¬ (textExp v : Rat) < now := by
  have hdelete := Dict.find_delete fields (fun kv => (textExp kv.2 : Rat) < now) key
  simp only [decide_not]
  exact hdelete

theorem room_of_fields (hw : Written last H) (now : Rat) (sid client : String) :
    Room maxLeasesPerClient (hashRegister H) now sid client ↔
      ((H.fields now sid).items.filter fun kv => ¬ (textExp kv.2 : Rat) < now).countP
        (fun kv => textClient kv.2 = some client.toList) < maxLeasesPerClient := by
  have hholder (k : String) : (hashRegister H).holder now sid k = some client ↔
      ∃ v, (H.fields now sid).find k = some v ∧
        (decide (textClient v = some client.toList) && decide (¬ (textExp v : Rat) < now)) := by
    rw [holder_hashRegister hw]
    constructor
    · rintro ⟨v, hv, hlive, hc⟩
      exact ⟨v, hv, by simp [hc, not_lt.mp hlive]⟩
    · rintro ⟨v, hv, hp⟩
      rw [Bool.and_eq_true, decide_eq_true_eq, decide_eq_true_eq] at hp
      exact ⟨v, hv, hp.2, hp.1⟩
  rw [countP_filter]
  constructor
  · intro hroom
    obtain ⟨ks, hks, hcard⟩ := exists_keys (H.fields now sid) fun v =>
      decide (textClient v = some client.toList) && decide (¬ (textExp v : Rat) < now)
    rw [← hcard]
    exact hroom ks fun k hk => (hholder k).mpr (hks k hk)
  · intro hcount ks hks
    exact (card_le_countP fun k hk => (hholder k).mp (hks k hk)).trans_lt hcount

variable (label) in
section

variable (hw : Written last H) (hle : last ≤ now)
include hw hle

theorem acquireScript_spec (sid key : String)
    (hc : Quoteless client.toList) (hne : client ≠ "") (hl : Quoteless label.toList) :
    Lawful maxLeasesPerClient wholeStamp (hashRegister H)
        (hashRegister (acquireScript H now sid key client label).2)
        ⟨now, .acquire sid key client, (acquireScript H now sid key client label).1.isGranted⟩ ∧
      Written now (acquireScript H now sid key client label).2 ∧
      ((acquireScript H now sid key client label).1.isGranted ↔
        Grants maxLeasesPerClient (hashRegister H) now sid key client) := by
  have htrim := trimmed_expired (H.fields now sid) now
  have hrefused := write_same sid hw (fun kv => kv.1 ∈ expiredKeys (H.fields now sid) now)
    (by
      intro k v hv hk
      obtain ⟨v', hv', hover⟩ := mem_expiredKeys.mp (of_decide_eq_true hk)
      rw [hv] at hv'
      cases hv'
      exact hover)
  have hwritten := (written_write now sid hw fun kv =>
    kv.1 ∈ expiredKeys (H.fields now sid) now).later hle
  have hlease := isLease_grant label now hc hne hl
  have hterm : termOf (leaseText client label (wholeExp now)) = some ⟨client, wholeStamp now⟩ :=
    termOf_leaseText hc hl
  have hgranted := grant_same key hw htrim hterm
  have hkept := written_grant key hw hle htrim hlease
  have hroom := room_of_fields hw now sid client
  unfold acquireScript
  dsimp only
  rw [find_live]
  cases hheld : ((H.fields now sid).find key).filter fun v => ¬ (textExp v : Rat) < now with
  | none =>
    have hfree : (hashRegister H).holder now sid key = none := by
      rw [holder_none_hashRegister hw]
      intro v hv
      rw [hv, filter_eq_none_iff] at hheld
      have hover := hheld v rfl
      simpa using hover
    dsimp only
    split
    · rename_i hfull
      have hno : ¬ Room maxLeasesPerClient (hashRegister H) now sid client := fun h =>
        absurd (hroom.mp h) (not_lt.mpr hfull)
      refine ⟨.refused hrefused, hwritten, ?_⟩
      simp [Answer.isGranted, Grants, hfree, hno]
    · rename_i hsome
      have hgrants : Grants maxLeasesPerClient (hashRegister H) now sid key client :=
        .inr ⟨hfree, hroom.mpr (not_le.mp hsome)⟩
      exact ⟨.acquired hgrants hgranted, hkept, fun _ => hgrants, fun _ => rfl⟩
  | some holder =>
    obtain ⟨hv, hlive⟩ := filter_eq_some_iff.mp hheld
    have hlive := of_decide_eq_true hlive
    obtain ⟨hash, _, _, hholder⟩ := fields_find hw hv
    obtain ⟨c, _, hdecoded, htext, _⟩ := hholder.term
    have hhas := (holder_hashRegister hw now sid key c).mpr ⟨holder, hv, hlive, htext⟩
    obtain ⟨decoded, hdecode, rfl⟩ := map_eq_some_iff.mp hdecoded
    dsimp only
    rw [hdecode, any_some]
    split
    · rename_i hclient
      have hclient := of_decide_eq_true hclient
      have hgrants : Grants maxLeasesPerClient (hashRegister H) now sid key client :=
        .inl (hclient ▸ hhas)
      exact ⟨.acquired hgrants hgranted, hkept, fun _ => hgrants, fun _ => rfl⟩
    · rename_i hclient
      have hother : decoded.client ≠ client := fun he => hclient (decide_eq_true he)
      refine ⟨.refused hrefused, hwritten, ?_⟩
      simp [Answer.isGranted, Grants, hhas, hother]

theorem renewScript_spec (sid key client : String) :
    Lawful maxLeasesPerClient wholeStamp (hashRegister H)
        (hashRegister (renewScript H now sid key client).2)
        ⟨now, .renew sid key client, (renewScript H now sid key client).1.isGranted⟩ ∧
      Written now (renewScript H now sid key client).2 ∧
      ((renewScript H now sid key client).1.isGranted ↔
        (hashRegister H).holder now sid key = some client) := by
  have hholds := holder_hashRegister hw now sid key client
  unfold renewScript
  dsimp only
  cases hv : (H.fields now sid).find key with
  | none =>
    refine ⟨.refused (.refl _), hw.later hle, ?_⟩
    rw [hholds, hv]
    simp [Answer.isGranted]
  | some v =>
    rw [hv] at hholds
    dsimp only
    split
    · rename_i hclient
      split
      · rename_i hover
        refine ⟨.refused (write_same _ hw _ ?_), (written_write _ _ hw _).later hle, ?_⟩
        · intro k v' hv' hk
          have hk : k = key := of_decide_eq_true hk
          rw [hk, hv] at hv'
          cases hv'
          exact hover
        · rw [hholds]
          simp [Answer.isGranted, hover]
      · rename_i hlive
        have hhas := hholds.mpr ⟨v, rfl, hlive, hclient⟩
        obtain ⟨hash, _, _, hlease⟩ := fields_find hw hv
        obtain ⟨c, label, exp, rfl, hc, hl, hne, _, _⟩ := hlease.text
        have hcc : c = client := by
          rw [textClient_leaseText hc hne] at hclient
          exact String.toList_inj.mp (some.inj hclient)
        subst hcc
        rw [replaceExp_leaseText hc hl]
        have hterm : termOf (leaseText c label (wholeExp now)) = some ⟨c, wholeStamp now⟩ :=
          termOf_leaseText hc hl
        exact ⟨.renewed hhas (grant_same _ hw (trimmed_refl now _) hterm),
          written_grant _ hw hle (trimmed_refl now _) (isLease_grant _ now hc hne hl),
          fun _ => hhas, fun _ => rfl⟩
    · rename_i hclient
      refine ⟨.refused (.refl _), hw.later hle, ?_⟩
      rw [hholds]
      simp [Answer.isGranted, hclient]

theorem releaseScript_spec (sid key client : String) :
    Lawful maxLeasesPerClient wholeStamp (hashRegister H)
        (hashRegister (releaseScript H now sid key client).2)
        ⟨now, .release sid key client, (releaseScript H now sid key client).1.isGranted⟩ ∧
      Written now (releaseScript H now sid key client).2 := by
  unfold releaseScript
  dsimp only
  cases hv : (H.fields now sid).find key with
  | none => exact ⟨.refused (.refl _), hw.later hle⟩
  | some v =>
    dsimp only
    split
    · rename_i hclient
      have hfree : (hashRegister H).holder now sid key = none ∨
          (hashRegister H).holder now sid key = some client := by
        by_cases hover : (textExp v : Rat) < now
        · refine .inl ((holder_none_hashRegister hw now sid key).mpr fun v' hv' => ?_)
          rw [hv] at hv'
          cases hv'
          exact hover
        · exact .inr ((holder_hashRegister hw now sid key client).mpr ⟨v, hv, hover, hclient⟩)
      exact ⟨.released hfree (write_released hw now sid key), (written_write _ _ hw _).later hle⟩
    · exact ⟨.refused (.refl _), hw.later hle⟩

end

theorem releaseScript_granted (hw : Written last H)
    (h : (hashRegister H).holder now sid key = some client) :
    (releaseScript H now sid key client).1.isGranted := by
  obtain ⟨v, hv, _, hclient⟩ := (holder_hashRegister hw now sid key client).mp h
  unfold releaseScript
  dsimp only
  rw [hv]
  dsimp only
  rw [if_pos hclient]
  rfl

end

end WebGis.Collab
