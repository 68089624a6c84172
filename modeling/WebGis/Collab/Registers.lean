/-
  Both registries are registers of leases.

  `hashRegister` and `bucketRegister` say who has which lock until when; `Hashes.lawful` and
  `Buckets.lawful` that a call does to them what it may, `Hashes.granted_iff` and
  `Buckets.granted_iff` when it is granted.
-/
import WebGis.Collab.Stored
import WebGis.Data.Leasing

namespace WebGis.Collab

open Data Leasing List Option Dict Register

/-! ## Counting entries -/

section

variable {κ ν : Type} [DecidableEq κ]

theorem card_le_countP {d : Dict κ ν} {p : ν → Bool} {ks : Finset κ}
    (h : ∀ k ∈ ks, ∃ v, d.find k = some v ∧ p v) :
    ks.card ≤ d.items.countP fun kv => p kv.2 := by
  let found := (d.items.filter fun kv => p kv.2).map Prod.fst
  have hsub : ks ⊆ found.toFinset := by
    intro k hk
    obtain ⟨v, hv, hp⟩ := h k hk
    rw [List.mem_toFinset]
    exact List.mem_map.mpr ⟨(k, v), mem_filter.mpr ⟨find_eq_some.mp hv, hp⟩, rfl⟩
  calc ks.card ≤ found.toFinset.card := Finset.card_le_card hsub
    _ ≤ found.length := found.toFinset_card_le
    _ = d.items.countP fun kv => p kv.2 := by rw [length_map, ← countP_eq_length_filter]

theorem exists_keys (d : Dict κ ν) (p : ν → Bool) :
    ∃ ks : Finset κ, (∀ k ∈ ks, ∃ v, d.find k = some v ∧ p v) ∧
      ks.card = d.items.countP fun kv => p kv.2 := by
  let found := (d.items.filter fun kv => p kv.2).map Prod.fst
  have hnodup : found.Nodup := d.unique.sublist (filter_sublist.map Prod.fst)
  refine ⟨found.toFinset, ?_, ?_⟩
  · intro k hk
    rw [List.mem_toFinset] at hk
    obtain ⟨kv, hkv, rfl⟩ := List.mem_map.mp hk
    obtain ⟨hmem, hp⟩ := mem_filter.mp hkv
    exact ⟨kv.2, find_eq_some.mpr hmem, hp⟩
  · rw [toFinset_card_of_nodup hnodup, length_map, ← countP_eq_length_filter]

end

/-! ## The fallback -/

/-- What the fallback has written. -/
def bucketRegister (B : Buckets) : Register String String String Rat := fun sid key =>
  ((B.find sid).bind fun bucket => bucket.find key).map fun l => ⟨l.client, l.exp⟩

section

variable {B : Buckets} {now : Rat} {sid key client label : String}

theorem register_set (B : Buckets) (sid : String) (bucket : Dict String LocalLease) :
    (bucketRegister (B.set sid bucket)) sid key = (bucket.find key).map fun l => ⟨l.client, l.exp⟩ := by
  unfold bucketRegister
  rw [find_set_self, bind_some]

theorem register_set_ne (B : Buckets) {sid sid' : String} (bucket : Dict String LocalLease)
    (h : sid ≠ sid') : (bucketRegister (B.set sid bucket)) sid' key = bucketRegister B sid' key := by
  unfold bucketRegister
  rw [find_set_ne B bucket h]

variable {bucket : Dict String LocalLease}

theorem register_of_find (h : B.find sid = some bucket) :
    bucketRegister B sid key = (bucket.find key).map fun l => ⟨l.client, l.exp⟩ := by
  unfold bucketRegister
  rw [h, bind_some]

theorem register_of_none (h : B.find sid = none) : bucketRegister B sid key = none := by
  unfold bucketRegister
  rw [h]
  rfl

/-- A sweep takes only what is over. -/
theorem sweep_same (B : Buckets) (now : Rat) (sid : String) :
    SameFrom now (bucketRegister (B.sweep now sid)) (bucketRegister B) := by
  intro sid' key
  unfold Buckets.sweep
  split
  · rename_i bucket hbucket
    unfold live
    by_cases hs : sid = sid'
    · subst hs
      rw [register_set, register_of_find hbucket, Dict.find_delete]
      cases bucket.find key with
      | none => rfl
      | some l =>
        by_cases hl : l.exp < now
        · simp [Option.filter, hl, not_le.mpr hl]
        · simp [Option.filter, hl, not_lt.mp hl]
    · rw [register_set_ne B _ hs]
  · rfl

theorem find_sweep (h : (B.sweep now sid).find sid = some bucket) {l : LocalLease}
    (hl : bucket.find key = some l) : now ≤ l.exp := by
  unfold Buckets.sweep at h
  split at h
  · rename_i old hold
    rw [find_set_self] at h
    cases h
    rw [Dict.find_delete] at hl
    obtain ⟨_, hexp⟩ := filter_eq_some_iff.mp hl
    rw [Bool.not_eq_true', decide_eq_false_iff_not] at hexp
    exact not_lt.mp hexp
  · rename_i hnone
    rw [hnone] at h
    cases h

variable {R : Register String String String Rat}

variable (key) in
theorem set_assign (l : LocalLease) (hR : SameFrom now (bucketRegister (B.set sid bucket)) R) :
    SameFrom now (bucketRegister (B.set sid (bucket.set key l)))
      (R.assign sid key (some ⟨l.client, l.exp⟩)) := by
  refine SameFrom.trans ?_ (hR.assign sid key _)
  intro sid' key'
  unfold live
  by_cases hsk : sid' = sid ∧ key' = key
  · obtain ⟨rfl, rfl⟩ := hsk
    rw [assign_self, register_set, find_set_self, map_some]
  · rw [assign_ne _ hsk]
    by_cases hs : sid = sid'
    · subst hs
      have hk : key ≠ key' := fun he => hsk ⟨rfl, he.symm⟩
      rw [register_set, register_set, find_set_ne _ _ hk]
    · rw [register_set_ne _ _ hs, register_set_ne _ _ hs]

section

variable (hR : SameFrom now (bucketRegister (B.set sid bucket)) R) (hlive : ∀ key l, bucket.find key = some l → now ≤ l.exp)
include hR hlive

theorem holder_of_bucket (key : String) :
    R.holder now sid key = (bucket.find key).map LocalLease.client := by
  rw [← hR.holder]
  unfold holder live
  rw [register_set]
  cases hf : bucket.find key with
  | none => rfl
  | some l =>
    have hl := hlive key l hf
    simp [Option.filter, hl]

theorem room_of_bucket (client : String) :
    Room maxLeasesPerClient R now sid client ↔
      bucket.items.countP (fun kv => kv.2.client = client && now ≤ kv.2.exp) <
        maxLeasesPerClient := by
  have hholder (k : String) : R.holder now sid k = some client ↔
      ∃ l, bucket.find k = some l ∧ (l.client = client && now ≤ l.exp) := by
    rw [holder_of_bucket hR hlive]
    constructor
    · intro h
      obtain ⟨l, hl, rfl⟩ := map_eq_some_iff.mp h
      exact ⟨l, hl, by simp [hlive k l hl]⟩
    · rintro ⟨l, hl, hp⟩
      rw [Bool.and_eq_true] at hp
      rw [hl, map_some, of_decide_eq_true hp.1]
  constructor
  · intro hroom
    obtain ⟨ks, hks, hcard⟩ := exists_keys bucket fun l => l.client = client && now ≤ l.exp
    rw [← hcard]
    exact hroom ks fun k hk => (hholder k).mpr (hks k hk)
  · intro hcount ks hks
    exact (card_le_countP fun k hk => (hholder k).mp (hks k hk)).trans_lt hcount

end

variable (key client label) in
theorem take_spec (hR : SameFrom now (bucketRegister (B.set sid bucket)) R)
    (hlive : ∀ key l, bucket.find key = some l → now ≤ l.exp) :
    Lawful maxLeasesPerClient (· + leaseTtl) R
        (bucketRegister (acquireLocal.take now sid key client label B bucket).2)
        ⟨now, .acquire sid key client,
          (acquireLocal.take now sid key client label B bucket).1.isGranted⟩ ∧
      ((acquireLocal.take now sid key client label B bucket).1.isGranted ↔
        Grants maxLeasesPerClient R now sid key client) := by
  have hset := set_assign key { client := client, label := label, exp := now + leaseTtl } hR
  have hholder := holder_of_bucket hR hlive key
  unfold acquireLocal.take
  cases hf : bucket.find key with
  | none =>
    rw [hf] at hholder
    have hroom := room_of_bucket hR hlive client
    dsimp only
    split
    · rename_i hfull
      refine ⟨.refused hR, ?_⟩
      have hno : ¬ Room maxLeasesPerClient R now sid client := fun h =>
        absurd (hroom.mp h) (not_lt.mpr hfull)
      simp [Answer.isGranted, Grants, hholder, hno]
    · rename_i hfree
      have hgrants : Grants maxLeasesPerClient R now sid key client :=
        .inr ⟨hholder, hroom.mpr (not_le.mp hfree)⟩
      exact ⟨.acquired hgrants hset, fun _ => hgrants, fun _ => rfl⟩
  | some existing =>
    rw [hf, map_some] at hholder
    dsimp only
    split
    · rename_i hother
      refine ⟨.refused hR, ?_⟩
      simp [Answer.isGranted, Grants, hholder, hother.2]
    · rename_i hsame
      have hclient : existing.client = client := by
        by_contra hne
        exact hsame ⟨hlive key existing hf, hne⟩
      have hgrants : Grants maxLeasesPerClient R now sid key client :=
        .inl (hclient ▸ hholder)
      exact ⟨.acquired hgrants hset, fun _ => hgrants, fun _ => rfl⟩

theorem set_find (h : B.find sid = some bucket) :
    SameFrom now (bucketRegister (B.set sid bucket)) (bucketRegister B) := by
  intro sid' key
  unfold live
  by_cases hs : sid = sid'
  · subst hs
    rw [register_set, register_of_find h]
  · rw [register_set_ne B _ hs]

/-- A session of its own, or one of those the fallback still takes. -/
def HasPlace (B : Buckets) (sid : String) : Prop :=
  (B.find sid).isSome ∨ B.keys.length < fallbackMaxSessions

theorem sweep_of_none (h : B.find sid = none) : B.sweep now sid = B := by
  unfold Buckets.sweep
  rw [h]

theorem acquireLocal_spec (B : Buckets) (now : Rat) (sid key client label : String) :
    Lawful maxLeasesPerClient (· + leaseTtl) (bucketRegister B)
        (bucketRegister (acquireLocal B now sid key client label).2)
        ⟨now, .acquire sid key client, (acquireLocal B now sid key client label).1.isGranted⟩ ∧
      (HasPlace B sid → ((acquireLocal B now sid key client label).1.isGranted ↔
          Grants maxLeasesPerClient (bucketRegister B) now sid key client)) := by
  unfold acquireLocal
  dsimp only
  cases hf : (B.sweep now sid).find sid with
  | none =>
    have hnone : B.find sid = none := by
      unfold Buckets.sweep at hf
      split at hf
      · rw [find_set_self] at hf
        cases hf
      · assumption
    rw [sweep_of_none hnone]
    dsimp only
    split
    · rename_i hfull
      refine ⟨.refused (.refl _), fun hplace => ?_⟩
      obtain hsome | hfew := hplace
      · rw [hnone] at hsome
        cases hsome
      · exact absurd hfew (not_lt.mpr hfull)
    · have hR : SameFrom now (bucketRegister (B.set sid Dict.empty)) (bucketRegister B) := by
        intro sid' key'
        unfold live
        by_cases hs : sid = sid'
        · subst hs
          rw [register_set, register_of_none hnone]
          rfl
        · rw [register_set_ne B _ hs]
      have hspec := take_spec key client label hR
        fun _ _ hl => absurd hl (by simp)
      exact ⟨hspec.1, fun _ => hspec.2⟩
  | some bucket =>
    have hR : SameFrom now (bucketRegister ((B.sweep now sid).set sid bucket))
        (bucketRegister B) := (set_find hf).trans (sweep_same B now sid)
    have hspec := take_spec key client label hR
      fun _ _ hl => find_sweep hf hl
    exact ⟨hspec.1, fun _ => hspec.2⟩

theorem renewLocal_spec (B : Buckets) (now : Rat) (sid key client : String) :
    Lawful maxLeasesPerClient (· + leaseTtl) (bucketRegister B)
        (bucketRegister (renewLocal B now sid key client).2)
        ⟨now, .renew sid key client, (renewLocal B now sid key client).1.isGranted⟩ ∧
      ((renewLocal B now sid key client).1.isGranted ↔
        (bucketRegister B).holder now sid key = some client) := by
  have hsweep := sweep_same B now sid
  unfold renewLocal
  dsimp only
  rw [← hsweep.holder]
  cases hf : (B.sweep now sid).find sid with
  | none =>
    refine ⟨.refused hsweep, ?_⟩
    unfold holder live
    rw [register_of_none hf]
    simp [Answer.isGranted, Option.filter]
  | some bucket =>
    have hR : SameFrom now (bucketRegister ((B.sweep now sid).set sid bucket))
        (bucketRegister (B.sweep now sid)) := set_find hf
    have hholder := holder_of_bucket hR (fun _ _ hl => find_sweep hf hl) key
    rw [hholder]
    dsimp only
    cases hb : bucket.find key with
    | none =>
      refine ⟨.refused hsweep, ?_⟩
      simp [Answer.isGranted]
    | some record =>
      dsimp only
      split
      · rename_i hclient
        rw [hb] at hholder
        refine ⟨.renewed ?_ ?_, by simp [Answer.isGranted, hclient]⟩
        · rw [← hsweep.holder, hholder, map_some, hclient]
        · have hset := set_assign key
            { record with exp := now + leaseTtl } (hR.trans hsweep)
          rw [← hclient]
          exact hset
      · rename_i hclient
        exact ⟨.refused hsweep, by simp [Answer.isGranted, hclient]⟩

theorem register_delete (B : Buckets) (sid sid' : String) :
    bucketRegister (Table.delete B fun kv => kv.1 = sid) sid' key =
      if sid' = sid then none else bucketRegister B sid' key := by
  unfold bucketRegister
  rw [Dict.find_delete]
  by_cases hs : sid' = sid
  · cases B.find sid' with
    | none => simp
    | some bucket => simp [Option.filter, hs]
  · cases B.find sid' with
    | none => simp
    | some bucket => simp [Option.filter, hs]

theorem assign_none_of {R' : Register String String String Rat} (hself : R' sid key = none)
    (hother : ∀ s k, ¬ (s = sid ∧ k = key) → R' s k = R s k) :
    SameFrom now R' (R.assign sid key none) := by
  intro s k
  unfold live
  by_cases hsk : s = sid ∧ k = key
  · obtain ⟨rfl, rfl⟩ := hsk
    rw [assign_self, hself]
  · rw [assign_ne _ hsk, hother s k hsk]

theorem releaseLocal_spec (B : Buckets) (now : Rat) (sid key client : String) :
    Lawful maxLeasesPerClient (· + leaseTtl) (bucketRegister B)
      (bucketRegister (releaseLocal B sid key client).2)
      ⟨now, .release sid key client, (releaseLocal B sid key client).1.isGranted⟩ := by
  unfold releaseLocal
  cases hf : B.find sid with
  | none => exact .refused (.refl _)
  | some bucket =>
    dsimp only
    cases hb : bucket.find key with
    | none => exact .refused (.refl _)
    | some record =>
      dsimp only
      split
      · rename_i hclient
        have hholder : (bucketRegister B).holder now sid key = none ∨
            (bucketRegister B).holder now sid key = some client := by
          unfold holder live
          rw [register_of_find hf, hb, map_some]
          by_cases hl : now ≤ record.exp
          · exact .inr (by simp [Option.filter, hl, hclient])
          · exact .inl (by simp [Option.filter, hl])
        have hrest (k : String) : Dict.find (Table.delete bucket fun kv => kv.1 = key) k =
            if k = key then none else bucket.find k := by
          rw [Dict.find_delete]
          by_cases hk : k = key <;> cases bucket.find k <;> simp [Option.filter, hk]
        split
        · rename_i hempty
          refine .released hholder (assign_none_of ?_ ?_)
          · rw [register_delete, if_pos rfl]
          · intro s k hsk
            rw [register_delete]
            split
            · rename_i hs
              subst hs
              have hk : k ≠ key := fun he => hsk ⟨rfl, he⟩
              rw [List.isEmpty_iff] at hempty
              have hgone : Dict.find (Table.delete bucket fun kv => kv.1 = key) k = none := by
                rw [find_eq_none]
                unfold Dict.keys Dict.items
                rw [hempty]
                exact not_mem_nil
              rw [hrest, if_neg hk] at hgone
              rw [register_of_find hf, hgone]
              rfl
            · rfl
        · refine .released hholder (assign_none_of ?_ ?_)
          · rw [register_set, hrest, if_pos rfl]
            rfl
          · intro s k hsk
            by_cases hs : sid = s
            · subst hs
              have hk : k ≠ key := fun he => hsk ⟨rfl, he⟩
              rw [register_set, hrest, if_neg hk, register_of_find hf]
            · rw [register_set_ne _ _ hs]
      · exact .refused (.refl _)

theorem releaseLocal_granted (h : (bucketRegister B).holder now sid key = some client) :
    (releaseLocal B sid key client).1.isGranted := by
  obtain ⟨term, hterm, _, hclient⟩ := holder_eq_some.mp h
  obtain ⟨record, hrecord, rfl⟩ := map_eq_some_iff.mp hterm
  obtain ⟨bucket, hf, hb⟩ := bind_eq_some_iff.mp hrecord
  have hclient : record.client = client := hclient
  unfold releaseLocal
  rw [hf]
  dsimp only
  rw [hb]
  dsimp only
  rw [if_pos hclient]
  split <;> rfl

end

end WebGis.Collab
