/-
  Applying a delta twice.

  A delta names target values, so applying it to its own result should change nothing. That
  holds exactly when no group that the delta sets lies below a group that it removes: such a
  group is gone from the result, and the second application creates it anew or, when the
  delta has no name for it, fails.
-/
import WebGis.Workbench.Stages

namespace WebGis.Workbench

open Data Data.Json List Option

/-- The same groups under the same ids, the same group of each layer and the same locks. -/
structure SameOrganization (r r' : Fields) : Prop where
  groups : ∀ gid, byId (groupsIn r) gid = byId (groupsIn r') gid
  membership : ∀ lid, (membershipIn r).find lid = (membershipIn r').find lid
  locked : field "lockedLayerIds" r = field "lockedLayerIds" r'

/-- What the second application of a delta starts from is what the first one left. -/
structure Replayed (d : Delta) (ps : Parts) : Prop where
  unique : (ids ps.groups).Nodup
  settled : ∀ g ∈ ps.groups, mergeFields g (fieldsFor d.setGroups (groupId g)) = g
  disjoint : d.collisions = []
  absent : ∀ s ∈ d.removeGroupIds, s ∉ ids ps.groups
  targets : ∀ m ∈ d.membershipSet, m.2 ∈ ids ps.groups
  values : ∀ lid gid, ps.membership.find lid = some gid → gid ∉ d.removeGroupIds
  sets : ∀ lid gid, lastGroup d.membershipSet lid = some gid → ps.membership.find lid = some gid
  cleared : ∀ lid ∈ d.cleared, ps.membership.find lid = none
  locked : relock d.locksRemove ps.locked d.locksAdd = ps.locked

theorem replayed_of_applied {ps ps' : Parts} {d : Delta} (hu : (ids ps.groups).Nodup)
    (h : applyParts ps d = .ok ps') : Replayed d ps' := by
  obtain ⟨after, hset, hc, htargets, rfl⟩ := applyParts_ok.mp h
  have hafter := setGroups_spec hu hset
  refine ⟨nodup_kept hafter.unique _, ?_, hc, ?_, htargets, ?_, ?_, ?_, relock_again _ _ _⟩
  · exact fun g hg => hafter.settled g (mem_filter.mp hg).1
  · exact fun s hs hmem => (mem_ids_kept.mp hmem).2 (mem_descendants_root hs)
  · intro lid gid hfind hgid
    rw [find_cleared] at hfind
    split at hfind
    · cases hfind
    rcases or_eq_some_iff.mp hfind with hlast | ⟨-, hold⟩
    · have hmem := htargets _ (lastGroup_mem hlast)
      exact (mem_ids_kept.mp hmem).2 (mem_descendants_root hgid)
    · rw [Dict.find_delete, filter_eq_some_iff] at hold
      simp [mem_descendants_root hgid] at hold
  · intro lid gid hlast
    have hnot : lid ∉ d.cleared := by
      intro hmem
      rw [Delta.cleared, mem_filter, decide_eq_true_eq, ← lastGroup_eq_none, hlast] at hmem
      exact absurd hmem.2 (some_ne_none gid)
    rw [find_cleared, if_neg hnot, hlast, some_or]
  · intro lid hmem
    rw [find_cleared, if_pos hmem]

theorem Replayed.same {d : Delta} {ps : Parts} (h : Replayed d ps)
    (hids : ∀ p ∈ d.setGroups, p.id ∈ ids ps.groups) :
    ∃ ps', applyParts ps d = .ok ps' ∧ ps'.groups = ps.groups ∧
      (∀ lid, ps.membership.find lid = ps'.membership.find lid) ∧ ps'.locked = ps.locked := by
  have hkept := kept_of_absent h.unique h.absent
  refine ⟨_, applyParts_ok.mpr ⟨ps.groups, setGroups_of_settled hids h.settled, h.disjoint, ?_, rfl⟩,
    hkept, ?_, h.locked⟩
  · rw [hkept]
    exact h.targets
  · intro lid
    have hold : Dict.find (Table.delete ps.membership
        fun m => m.2 ∈ descendants ps.groups d.removeGroupIds) lid = ps.membership.find lid := by
      rw [Dict.find_delete]
      cases hfind : ps.membership.find lid with
      | none => rfl
      | some gid =>
        simp [Option.filter, descendants_of_absent h.unique h.absent, h.values lid gid hfind]
    rw [find_cleared, hold]
    by_cases hc : lid ∈ d.cleared
    · rw [if_pos hc, h.cleared lid hc]
    rw [if_neg hc]
    cases hlast : lastGroup d.membershipSet lid with
    | none => rfl
    | some gid => rw [h.sets lid gid hlast, some_or]

theorem Replayed.creates {d : Delta} {ps ps' : Parts} (h : Replayed d ps) {p : GroupPatch}
    (hp : p ∈ d.setGroups) (happly : applyParts ps d = .ok ps') : p.id ∈ ids ps'.groups := by
  obtain ⟨after, hset, hc, -, rfl⟩ := applyParts_ok.mp happly
  have hafter := setGroups_spec h.unique hset
  have habsent : ∀ s ∈ d.removeGroupIds, s ∉ ids after := by
    intro s hs hmem
    rcases (hafter.ids s).mp hmem with hmem | hmem
    · exact h.absent s hs hmem
    · exact notMem_of_collisions hc hs hmem
  rw [kept_of_absent hafter.unique habsent]
  exact (hafter.ids p.id).mpr (.inr (List.mem_map_of_mem hp))

/-- A delta applied to its own result changes nothing exactly when no group that it sets lies
    below a group that it removes. -/
theorem replay_same_iff {R : FloatRepr} {fs r : Fields} {raw : Json} {d : Delta}
    (hfs : Accepted R fs) (hd : validateDelta R raw = .ok d) (h : applyDelta (some fs) d = .ok r) :
    (∃ r', applyDelta (some r) d = .ok r' ∧ SameOrganization r r') ↔
      ∀ p ∈ d.setGroups, ∀ s ∈ d.removeGroupIds, ¬ Below (groupsIn fs) d s p.id := by
  obtain ⟨ps, ps', hps, happly, rfl⟩ := applyDelta_ok.mp h
  obtain ⟨_, -, hvalid⟩ := validateDelta_ok hd
  have hforest := forest_of_accepted hfs hps
  have hreplayed := replayed_of_applied hforest.unique happly
  have hnamed := named_of_applied hforest.unique happly hforest.named hvalid.id_ne
  have hread := readParts_writeParts fs hnamed
  -- a group that is set is there after the first application unless the removal took it
  have hthere : ∀ p ∈ d.setGroups, p.id ∈ ids ps'.groups ↔
      ∀ s ∈ d.removeGroupIds, ¬ Below ps.groups d s p.id := by
    intro p hp
    obtain ⟨after, hset, -, -, rfl⟩ := applyParts_ok.mp happly
    have hafter := setGroups_spec hforest.unique hset
    rw [mem_ids_kept, mem_cascade hafter]
    push Not
    exact and_iff_right ((hafter.ids p.id).mpr (.inr (List.mem_map_of_mem hp)))
  rw [groupsIn_of_parts hps]
  constructor
  · rintro ⟨r', happly', hsame⟩ p hp
    obtain ⟨ps1, ps'', hps1, happly1, rfl⟩ := applyDelta_ok.mp happly'
    obtain rfl := Except.ok.inj (hread.symm.trans hps1)
    refine (hthere p hp).mp ?_
    by_contra hgone
    have hread' := readParts_writeParts (writeParts fs ps')
      (named_of_applied hreplayed.unique happly1 hnamed hvalid.id_ne)
    have hnone := hsame.groups p.id
    rw [groupsIn_of_parts hread, groupsIn_of_parts hread', byId_eq_none.mpr hgone] at hnone
    exact byId_eq_none.mp hnone.symm (hreplayed.creates hp happly1)
  · intro hbelow
    obtain ⟨ps'', happly', hgroups, hmembership, hlocked⟩ :=
      hreplayed.same fun p hp => (hthere p hp).mpr (hbelow p hp)
    have hread' := readParts_writeParts (writeParts fs ps') (hgroups ▸ hnamed)
    refine ⟨_, applyDelta_ok.mpr ⟨ps', ps'', hread, happly', rfl⟩, ?_, ?_, ?_⟩
    · intro gid
      rw [groupsIn_of_parts hread, groupsIn_of_parts hread', hgroups]
    · intro lid
      rw [membershipIn_of_parts hread, membershipIn_of_parts hread', hmembership]
    · show some (strings ps'.locked) = some (strings ps''.locked)
      rw [hlocked]

/-! ## A delta that names a group below one that it removes -/

/-- A document with the given groups and nothing else. -/
def docOf (groups : List Group) : Fields :=
  [("version", .int 5), ("groups", .arr (groups.map Json.obj)), ("membership", .obj []),
    ("lockedLayerIds", .arr []), ("mode", .str "explore")]

/-- A group `sub` inside of a group `top`. -/
def nestedDoc : Fields :=
  docOf [[("id", .str "top"), ("name", .str "Top"), ("parentId", .null)],
    [("id", .str "sub"), ("name", .str "Sub"), ("parentId", .str "top")]]

/-- Renames `sub` and removes `top`. -/
def renameAndRemove : Json :=
  .obj [("setGroups", .arr [.obj [("id", .str "sub"), ("name", .str "Renamed")]]),
    ("removeGroupIds", .arr [.str "top"])]

def renameAndRemoveDelta : Delta where
  setGroups := [{ id := "sub", name := some "Renamed", collapsed := none, parentId := none }]
  removeGroupIds := ["top"]
  membershipSet := []
  membershipClear := []
  locksAdd := []
  locksRemove := []

def renamed : Group :=
  [("id", .str "sub"), ("name", .str "Renamed"), ("collapsed", .bool false), ("parentId", .null)]

theorem replay_same_iff_nested :
    (∃ r', applyDelta (some (docOf [])) renameAndRemoveDelta = .ok r' ∧
        SameOrganization (docOf []) r') ↔
      ∀ p ∈ renameAndRemoveDelta.setGroups, ∀ s ∈ renameAndRemoveDelta.removeGroupIds,
        ¬ Below (groupsIn nestedDoc) renameAndRemoveDelta s p.id :=
  have hvalid : validateDelta default renameAndRemove = .ok renameAndRemoveDelta := by
    decide +kernel
  replay_same_iff (by decide +kernel) hvalid rfl

/-- The first application removes both groups; the second one creates `sub` again, at the root. -/
theorem replay_creates_again :
    Accepted default nestedDoc ∧
      validateDelta default renameAndRemove = .ok renameAndRemoveDelta ∧
      applyDelta (some nestedDoc) renameAndRemoveDelta = .ok (docOf []) ∧
      Accepted default (docOf []) ∧
      applyDelta (some (docOf [])) renameAndRemoveDelta = .ok (docOf [renamed]) ∧
      ¬ ∃ r', applyDelta (some (docOf [])) renameAndRemoveDelta = .ok r' ∧
        SameOrganization (docOf []) r' := by
  refine ⟨by decide +kernel, by decide +kernel, rfl, by decide +kernel, rfl, ?_⟩
  rintro ⟨r', happly, hsame⟩
  obtain rfl : docOf [renamed] = r' := Except.ok.inj (rfl.symm.trans happly)
  have hsub : (none : Option Group) = some renamed := hsame.groups "sub"
  cases hsub

end WebGis.Workbench
