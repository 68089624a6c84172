/-
  What the frontend restores: a tree from any input, the same again from its own result, and
  the parents of an accepted document exactly when each is listed before its children.
-/
import WebGis.Workbench.Hydrate

namespace WebGis.Workbench

open Data Data.Json List Option Js GroupNode

/-! ## Normalising twice -/

/-- A group without its parent. -/
def GroupNode.bare (g : GroupNode) : GroupNode := { g with parentId := none }

theorem bare_relaxAll (groups : List GroupNode) :
    (relaxAll groups).groups.map bare = groups.map bare := by
  induction groups using List.reverseRecOn with
  | nil => rfl
  | append_singleton groups g ih =>
    rw [relaxAll_concat, map_append, ← ih]
    unfold relax
    split
    · simp
    split
    · simp
    · split <;> simp [bare]

theorem bare_cutLoose (depths : Dict JsString Nat) (g : GroupNode) :
    (cutLoose depths g).bare = g.bare := by
  unfold cutLoose
  split <;> rfl

theorem bare_attach (xs : List Js) (groups : List GroupNode) (g : GroupNode) :
    (attach xs groups g).bare = g.bare := by
  unfold attach
  split
  · split <;> rfl
  · rfl

/-- The groups before the rounds. -/
def attached (xs : List Js) : List GroupNode :=
  (xs.foldl addNode []).map (attach xs (xs.foldl addNode []))

theorem normalizeGroups_eq (xs : List Js) :
    normalizeGroups xs =
      (relaxAll (attached xs)).groups.map (cutLoose (relaxAll (attached xs)).depths) := by
  obtain ⟨hgroups, hdepths⟩ := settle_eq (groupMaxDepth + 1) (attached xs)
  show (settle (groupMaxDepth + 1) (attached xs)).groups.map
    (cutLoose (settle (groupMaxDepth + 1) (attached xs)).depths) = _
  rw [hgroups, hdepths]

/-- Roots with different ids, and with names that are neither empty nor too long. -/
structure Clean (groups : List GroupNode) : Prop where
  unique : (nodeIds groups).Nodup
  root : ∀ g ∈ groups, g.bare = g
  named : ∀ g ∈ groups, g.id ≠ [] ∧ g.name ≠ [] ∧ g.name.length ≤ groupNameMax

theorem rawName_ne {name : Option Js} {id : JsString} (h : id ≠ []) : rawName name id ≠ [] := by
  unfold rawName
  split
  · exact cons_ne_nil _ _
  · exact h

variable {g : GroupNode}

theorem nodeOf_clean {x : Js} (h : nodeOf x = some g) :
    g.bare = g ∧ g.id ≠ [] ∧ g.name ≠ [] ∧ g.name.length ≤ groupNameMax := by
  unfold nodeOf at h
  split at h
  · rename_i c cs _
    obtain rfl := some.inj h
    refine ⟨rfl, cons_ne_nil c cs, ?_, length_take_le _ _⟩
    intro hnil
    rcases take_eq_nil_iff.mp hnil with hzero | hnil
    · cases hzero
    · exact rawName_ne (cons_ne_nil c cs) hnil
  · cases h

theorem clean_addNode {groups : List GroupNode} (h : Clean groups) (x : Js) :
    Clean (addNode groups x) := by
  unfold addNode
  split
  · exact h
  rename_i g hg
  obtain ⟨hbare, hnamed⟩ := nodeOf_clean hg
  split
  · exact h
  rename_i hnew
  refine ⟨?_, ?_, ?_⟩
  · rw [nodeIds, map_append]
    exact nodup_append.mpr ⟨h.unique, nodup_singleton _, fun a ha b hb he =>
      hnew (mem_singleton.mp hb ▸ he ▸ ha)⟩
  · exact forall_mem_append.mpr ⟨h.root, forall_mem_singleton.mpr hbare⟩
  · exact forall_mem_append.mpr ⟨h.named, forall_mem_singleton.mpr hnamed⟩

theorem clean_nodes (xs : List Js) : Clean (xs.foldl addNode []) := by
  suffices hall : ∀ groups, Clean groups → Clean (xs.foldl addNode groups) from
    hall [] ⟨nodup_nil, fun _ hg => absurd hg not_mem_nil, fun _ hg => absurd hg not_mem_nil⟩
  induction xs with
  | nil => exact fun _ h => h
  | cons x xs ih => exact fun groups h => ih _ (clean_addNode h x)

theorem length_nodes_le (xs : List Js) : (xs.foldl addNode []).length ≤ xs.length := by
  suffices hall : ∀ groups, (xs.foldl addNode groups).length ≤ groups.length + xs.length by
    simpa using hall []
  induction xs with
  | nil => exact fun _ => Nat.le_refl _
  | cons x xs ih =>
    intro groups
    have hstep : (addNode groups x).length ≤ groups.length + 1 := by
      unfold addNode
      split
      · exact Nat.le_succ _
      · split
        · exact Nat.le_succ _
        · simp
    rw [foldl_cons, length_cons]
    have := ih (addNode groups x)
    omega

theorem bare_normalizeGroups (xs : List Js) :
    (normalizeGroups xs).map bare = xs.foldl addNode [] := by
  have hcut : (bare ∘ cutLoose (relaxAll (attached xs)).depths) = bare :=
    funext (bare_cutLoose _)
  have hattach : (bare ∘ attach xs (xs.foldl addNode [])) = bare :=
    funext (bare_attach xs _)
  rw [normalizeGroups_eq, List.map_map, hcut, bare_relaxAll, attached, List.map_map, hattach]
  exact (map_congr_left (clean_nodes xs).root).trans (List.map_id' _)

theorem nodeIds_bare (groups : List GroupNode) :
    nodeIds (groups.map bare) = nodeIds groups := by
  rw [nodeIds, List.map_map]
  rfl

theorem nodeIds_attached (xs : List Js) : nodeIds (attached xs) = nodeIds (xs.foldl addNode []) := by
  have hattach : (bare ∘ attach xs (xs.foldl addNode [])) = bare :=
    funext (bare_attach xs _)
  rw [← nodeIds_bare (attached xs), attached, List.map_map, hattach, nodeIds_bare]

theorem measured_attached (xs : List Js) : Measured (relaxAll (attached xs)) :=
  measured_relaxAll (nodeIds_attached xs ▸ (clean_nodes xs).unique)

theorem tree_normalizeGroups (xs : List Js) : Tree (normalizeGroups xs) := by
  rw [normalizeGroups_eq]
  refine (measured_attached xs).tree ?_
  rw [nodeIds_relaxAll, nodeIds_attached]
  exact (clean_nodes xs).unique

theorem get_id_toJs (g : GroupNode) : textIn (g.toJs.get "id") = some g.id := by
  simp [toJs, get_obj_cons, textIn]

theorem get_parentId_toJs (g : GroupNode) : textIn (g.toJs.get "parentId") = g.parentId := by
  cases hp : g.parentId <;> simp [toJs, get_obj_cons, textIn, hp]

theorem nodeOf_toJs (hid : g.id ≠ []) (hname : g.name ≠ []) (hlen : g.name.length ≤ groupNameMax) :
    nodeOf g.toJs = some g.bare := by
  have hget : textIn (g.toJs.get "name") = some g.name := by
    simp [toJs, get_obj_cons, textIn]
  have hcollapsed : isTrue (g.toJs.get "collapsed") = g.collapsed := by
    simp [toJs, get_obj_cons, isTrue]
  obtain ⟨c, cs, hcs⟩ := exists_cons_of_ne_nil hid
  obtain ⟨n, ns, hns⟩ := exists_cons_of_ne_nil hname
  have hraw : rawName (g.toJs.get "name") g.id = g.name := by
    rw [rawName, hget, hns]
  unfold nodeOf
  rw [get_id_toJs, hcs]
  simp only [← hcs, hraw, hcollapsed, take_of_length_le hlen]
  rfl

theorem foldl_addNode_toJs {groups : List GroupNode} (hu : (nodeIds groups).Nodup)
    (hn : ∀ g ∈ groups, g.id ≠ [] ∧ g.name ≠ [] ∧ g.name.length ≤ groupNameMax) :
    (groups.map toJs).foldl addNode [] = groups.map bare := by
  induction groups using List.reverseRecOn with
  | nil => rfl
  | append_singleton groups g ih =>
    rw [nodeIds, map_append, nodup_append] at hu
    obtain ⟨hid, hname, hlen⟩ := hn g (by simp)
    have hnew : g.bare.id ∉ nodeIds (groups.map bare) := by
      rw [nodeIds_bare]
      exact fun hmem => hu.2.2 g.id hmem g.id (by simp) rfl
    rw [map_append, foldl_append, ih hu.1 fun g' hg' => hn g' (mem_append_left _ hg'), map_append]
    show addNode (groups.map bare) g.toJs = _
    rw [addNode, nodeOf_toJs hid hname hlen]
    exact if_neg hnew

theorem declared_toJs {groups : List GroupNode} (hu : (nodeIds groups).Nodup) (hg : g ∈ groups) :
    declared (groups.map toJs) g.id = some g.toJs := by
  unfold declared
  rw [find?_map]
  have hpred : (fun r => decide (textIn (Js.get r "id") = some g.id)) ∘ toJs =
      fun x => decide (x.id = g.id) := by
    funext x
    simp [get_id_toJs]
  rw [hpred, Table.find_of_mem hu hg]
  rfl

theorem mem_of_parentsFirst {κ : Type} {seen : List κ} {es : List (κ × Option κ)}
    (h : ParentsFirst seen es) {e : κ × Option κ} (he : e ∈ es) {p : κ} (hp : e.2 = some p) :
    p ∈ seen ++ es.map Prod.fst := by
  induction es generalizing seen with
  | nil => cases he
  | cons x es ih =>
    rw [ParentsFirst] at h
    rcases mem_cons.mp he with rfl | he
    · exact mem_append_left _ (h.1 p hp)
    · have := ih h.2 he
      rwa [append_assoc, singleton_append] at this

theorem attach_toJs {groups : List GroupNode} (ht : Tree groups)
    (hfirst : ParentsFirst [] (groups.map link)) (hg : g ∈ groups) :
    attach (groups.map toJs) (groups.map bare) g.bare = g := by
  have hdeclared : (declared (groups.map toJs) g.bare.id).bind
      (fun r => textIn (r.get "parentId")) = g.parentId := by
    show (declared (groups.map toJs) g.id).bind _ = _
    rw [declared_toJs ht.unique hg]
    exact get_parentId_toJs g
  unfold attach
  rw [hdeclared]
  cases hp : g.parentId with
  | none =>
    obtain ⟨id, name, collapsed, parentId⟩ := g
    obtain rfl : parentId = none := hp
    rfl
  | some p =>
    have hmem : p ∈ nodeIds groups := by
      have := mem_of_parentsFirst hfirst (List.mem_map_of_mem hg) (p := p) hp
      rwa [nil_append, map_fst_link] at this
    have hne : p ≠ g.id := fun he =>
      ht.acyclic p (.single ⟨g, hg, he.symm, hp⟩)
    rw [← nodeIds_bare] at hmem
    obtain ⟨id, name, collapsed, parentId⟩ := g
    obtain rfl : parentId = some p := hp
    exact if_pos ⟨hne, hmem⟩

theorem first_normalizeGroups (xs : List Js) :
    ParentsFirst [] ((normalizeGroups xs).map link) := by
  rw [normalizeGroups_eq]
  exact (measured_attached xs).first

/-- With depths that fit and parents first, the rounds change nothing. -/
theorem normalizeGroups_of_first (xs : List Js) {h : JsString → Nat}
    (hfirst : ParentsFirst [] ((attached xs).map link))
    (hmax : ∀ g ∈ attached xs, h g.id ≤ groupMaxDepth)
    (hroot : ∀ g ∈ attached xs, g.parentId = none → h g.id = 1)
    (hchild : ∀ g ∈ attached xs, ∀ p, g.parentId = some p → h g.id = h p + 1) :
    normalizeGroups xs = attached xs := by
  obtain ⟨hgroups, hdepths⟩ := relaxAll_of_parentsFirst hfirst hmax hroot hchild
  rw [normalizeGroups_eq, hgroups]
  refine (map_congr_left fun g hg => ?_).trans (List.map_id' _)
  rw [cutLoose, hdepths g.id (List.mem_map_of_mem hg), isSome_some, if_pos rfl]

theorem normalizeGroups_again (xs : List Js) :
    normalizeGroups ((normalizeGroups xs).map toJs) = normalizeGroups xs := by
  have ht := tree_normalizeGroups xs
  have hfirst := first_normalizeGroups xs
  have hnamed : ∀ g ∈ normalizeGroups xs,
      g.id ≠ [] ∧ g.name ≠ [] ∧ g.name.length ≤ groupNameMax := by
    intro g hg
    have hmem : g.bare ∈ xs.foldl addNode [] := by
      rw [← bare_normalizeGroups]
      exact List.mem_map_of_mem hg
    exact (clean_nodes xs).named g.bare hmem
  have hattached : attached ((normalizeGroups xs).map toJs) = normalizeGroups xs := by
    rw [attached, foldl_addNode_toJs ht.unique hnamed, List.map_map]
    exact (map_congr_left fun g hg => attach_toJs ht hfirst hg).trans (List.map_id' _)
  -- the depth of a group is the one of the first pass, and 1 for those that were cut loose
  have hm := measured_attached xs
  have hmem : ∀ g' ∈ normalizeGroups xs, ∃ g ∈ (relaxAll (attached xs)).groups,
      cutLoose (relaxAll (attached xs)).depths g = g' := by
    intro g' hg'
    rw [normalizeGroups_eq] at hg'
    exact List.mem_map.mp hg'
  have hgroups := normalizeGroups_of_first ((normalizeGroups xs).map toJs)
    (h := fun x => ((relaxAll (attached xs)).depths.find x).getD 1)
  rw [hattached] at hgroups
  refine hgroups hfirst ?_ ?_ ?_
  · intro g' _
    cases hd : (relaxAll (attached xs)).depths.find g'.id with
    | none => decide
    | some d => exact hm.max _ d hd
  · intro g' hg' hroot
    obtain ⟨g, hg, rfl⟩ := hmem g' hg'
    rw [cutLoose_id]
    cases hd : (relaxAll (attached xs)).depths.find g.id with
    | none => rfl
    | some d =>
      rw [cutLoose, hd, isSome_some, if_pos rfl] at hroot
      exact hm.root g hg d hd hroot
  · intro g' hg' p hp
    obtain ⟨g, hg, rfl⟩ := hmem g' hg'
    obtain ⟨hp, d, hd⟩ := cutLoose_parent hp
    obtain ⟨e, he, rfl⟩ := hm.child g hg d hd p hp
    simp [hd, he]

/-- A membership as the loop leaves it: within the bound, and nothing under the name of the
    prototype. -/
structure Bounded (s : Nat × Dict JsString JsString) : Prop where
  length : s.2.items.length ≤ s.1
  count : s.1 ≤ maxMembership
  keys : ∀ k ∈ s.2.keys, k ≠ utf16 "__proto__"

theorem length_set_le (d : Dict JsString JsString) (k v : JsString) :
    (d.set k v).items.length ≤ d.items.length + 1 := by
  by_cases hk : k ∈ d.keys
  · have hkeys := congrArg List.length (Dict.keys_set_of_mem d v hk)
    rw [Dict.keys, Dict.keys, length_map, length_map] at hkeys
    omega
  · rw [Dict.items_set_of_not_mem v hk]
    simp

theorem bounded_addMember {s : Nat × Dict JsString JsString} (h : Bounded s) (e : JsString × Js) :
    Bounded (addMember s e) := by
  unfold addMember
  split
  · exact h
  rename_i hroom
  split
  · rename_i gid _
    have hlength := h.length
    unfold assign
    split
    · exact ⟨Nat.le_succ_of_le hlength, Nat.lt_of_not_le hroom, h.keys⟩
    rename_i hk
    have hset := length_set_le s.2 e.1 gid
    refine ⟨hset.trans (Nat.succ_le_succ hlength), Nat.lt_of_not_le hroom, fun k hmem => ?_⟩
    rcases (Dict.mem_keys_set s.2 e.1 k gid).mp hmem with rfl | hmem
    · exact hk
    · exact h.keys k hmem
  · exact h

theorem bounded_membership (v : Option Js) :
    (normalizeMembership v).items.length ≤ maxMembership ∧
      ∀ k ∈ (normalizeMembership v).keys, k ≠ utf16 "__proto__" := by
  have hall : ∀ (es : List (JsString × Js)) (s : Nat × Dict JsString JsString), Bounded s →
      Bounded (es.foldl addMember s) := by
    intro es
    induction es with
    | nil => exact fun _ h => h
    | cons e es ih => exact fun s h => ih _ (bounded_addMember h e)
  have hempty : Bounded (0, Dict.empty) :=
    ⟨Nat.le_refl 0, Nat.zero_le _, fun k hk => absurd hk not_mem_nil⟩
  have h := hall ((v.map Js.entries).getD []) _ hempty
  exact ⟨h.length.trans h.count, h.keys⟩

theorem foldl_addMember (kvs : List (JsString × JsString)) (n : Nat) (d : Dict JsString JsString)
    (hroom : n + kvs.length ≤ maxMembership) (hkeys : ∀ kv ∈ kvs, kv.1 ≠ utf16 "__proto__") :
    ((kvs.map fun kv => (kv.1, Js.str kv.2)).foldl addMember (n, d)).2 =
      kvs.foldl (fun d kv => d.set kv.1 kv.2) d := by
  induction kvs generalizing n d with
  | nil => rfl
  | cons kv kvs ih =>
    obtain ⟨hkv, hkeys⟩ := forall_mem_cons.mp hkeys
    rw [length_cons] at hroom
    have hstep : addMember (n, d) (kv.1, Js.str kv.2) = (n + 1, d.set kv.1 kv.2) := by
      have hlt : ¬ n ≥ maxMembership := by omega
      simp [addMember, hlt, assign, hkv]
    rw [map_cons, foldl_cons, foldl_cons, hstep]
    exact ih (n + 1) _ (by omega) hkeys

theorem normalizeMembership_again (v : Option Js) :
    normalizeMembership (some (.obj ((normalizeMembership v).items.map fun m => (m.1, .str m.2)))) =
      normalizeMembership v := by
  obtain ⟨hlength, hkeys⟩ := bounded_membership v
  generalize normalizeMembership v = d at hlength hkeys ⊢
  have hfold := foldl_addMember d.items 0 Dict.empty (by omega) fun kv hkv =>
    hkeys kv.1 (List.mem_map_of_mem hkv)
  rw [normalizeMembership]
  exact hfold.trans (Dict.ofList_items d)

theorem normalizeLocked_again (v : Option Js) :
    normalizeLocked (some (.arr ((normalizeLocked v).map Js.str))) = normalizeLocked v := by
  have htexts : ∀ ss : List JsString, ((ss.map Js.str).filterMap fun x => textIn (some x)) = ss := by
    intro ss
    rw [filterMap_map]
    exact filterMap_some
  have hlength : (normalizeLocked v).length ≤ maxLocked := by
    unfold normalizeLocked
    split
    · exact length_take_le _ _
    · exact Nat.zero_le _
  generalize normalizeLocked v = ss at hlength ⊢
  rw [normalizeLocked, htexts, take_of_length_le hlength]

theorem normalizeMode_text (m : Mode) : normalizeMode (some (.str m.text)) = m := by
  cases m <;> decide +kernel

variable {r : WorkbenchDoc}

theorem normalize_again {raw : Js} (h : normalizeWorkbenchDoc raw = some r) :
    normalizeWorkbenchDoc r.toJs = some r := by
  unfold normalizeWorkbenchDoc at h
  split at h
  · rename_i v xs _ _
    split at h
    · cases h
    rename_i hok
    rw [not_or, not_lt] at hok
    obtain rfl := some.inj h
    have hlength : (normalizeGroups xs).length ≤ maxGroups := by
      have hbare := congrArg List.length (bare_normalizeGroups xs)
      rw [length_map] at hbare
      have := length_nodes_le xs
      omega
    have hnot : ¬ ((5 : Rat) ≠ 5 ∨
        ((normalizeGroups xs).map toJs).length > maxGroups) := by
      rw [length_map]
      simpa using hlength
    simp only [normalizeWorkbenchDoc, WorkbenchDoc.toJs, get_obj_cons,
      String.reduceEq, if_true, if_false, normalizeGroups_again, normalizeMembership_again,
      normalizeLocked_again, normalizeMode_text, if_neg hnot]
  · cases h

/-! ## Accepted documents -/

/-- A group as the frontend reads it. -/
def received (g : Group) : Js := Js.parse (.obj g)

theorem textIn_parse (v : Json) :
    textIn (some (Js.parse v)) = match v with
      | .str s => some (utf16 s)
      | _ => none := by
  cases v <;> simp [Js.parse, textIn]

theorem id_received {g : Group} (h : groupId g ≠ "") :
    textIn ((received g).get "id") = some (utf16 (groupId g)) := by
  rw [received, get_parse, field_id h, map_some, textIn_parse]

theorem parentId_received (g : Group) :
    textIn ((received g).get "parentId") = (parentOf g).map utf16 := by
  rw [received, get_parse, parentOf]
  cases field "parentId" g with
  | none => rfl
  | some v =>
    rw [map_some, textIn_parse]
    cases v <;> rfl

theorem nodeOf_received {g : Group} (h : groupId g ≠ "") :
    ∃ n, nodeOf (received g) = some n ∧ n.id = utf16 (groupId g) := by
  have hid := id_received h
  obtain ⟨c, cs, hcs⟩ := exists_cons_of_ne_nil (mt utf16_eq_nil.mp h)
  unfold nodeOf
  rw [hid, hcs]
  exact ⟨_, rfl, rfl⟩

variable {groups : List Group}

theorem nodup_utf16 (hu : (ids groups).Nodup) : (groups.map fun g => utf16 (groupId g)).Nodup := by
  have hmap : (groups.map fun g => utf16 (groupId g)) = (ids groups).map utf16 := by
    rw [ids, List.map_map]
    rfl
  rw [hmap]
  exact hu.map fun _ _ => utf16_inj

theorem nodeIds_received (hu : (ids groups).Nodup) (hn : ∀ g ∈ groups, groupId g ≠ "") :
    nodeIds ((groups.map received).foldl addNode []) = groups.map fun g => utf16 (groupId g) := by
  induction groups using List.reverseRecOn with
  | nil => rfl
  | append_singleton groups g ih =>
    have hnodup := nodup_utf16 hu
    rw [map_append, nodup_append] at hnodup
    have hids := ih (hu.sublist ((sublist_append_left groups [g]).map groupId))
      fun g' hg' => hn g' (mem_append_left _ hg')
    obtain ⟨n, hnode, hnid⟩ := nodeOf_received (hn g (by simp))
    have hnew : n.id ∉ nodeIds ((groups.map received).foldl addNode []) := by
      rw [hids, hnid]
      exact fun hmem => hnodup.2.2 _ hmem _ (by simp) rfl
    rw [map_append, foldl_append]
    show nodeIds (addNode ((groups.map received).foldl addNode []) (received g)) = _
    rw [addNode, hnode]
    simp only [if_neg hnew]
    rw [nodeIds, map_append, map_append, ← nodeIds, hids, map_singleton, hnid]
    rfl

theorem links_eq {nodes : List GroupNode} (hu : (ids groups).Nodup)
    (hids : nodeIds nodes = groups.map fun g => utf16 (groupId g))
    (hparents : ∀ g ∈ groups, ∃ n ∈ nodes, n.id = utf16 (groupId g) ∧
      n.parentId = (parentOf g).map utf16) :
    nodes.map link =
      groups.map fun g => (utf16 (groupId g), (parentOf g).map utf16) := by
  have hnodup : (nodes.map GroupNode.id).Nodup := by
    show (nodeIds nodes).Nodup
    rw [hids]
    exact nodup_utf16 hu
  have hlength : nodes.length = groups.length := by
    have := congrArg List.length hids
    rwa [nodeIds, length_map, length_map] at this
  refine ext_getElem (by simp [hlength]) fun i hi hi' => ?_
  rw [length_map] at hi hi'
  have hid : nodes[i].id = utf16 (groupId groups[i]) := by
    have := getElem_of_eq hids (i := i) (by simpa [nodeIds] using hi)
    simpa [nodeIds] using this
  obtain ⟨n, hn, hnid, hparent⟩ := hparents groups[i] (getElem_mem hi')
  obtain rfl : n = nodes[i] :=
    inj_on_of_nodup_map hnodup hn (getElem_mem hi) (hnid.trans hid.symm)
  rw [getElem_map, getElem_map, link, hnid, hparent]

theorem declared_received (hf : Forest groups) {g : Group} (hg : g ∈ groups) :
    declared (groups.map received) (utf16 (groupId g)) = some (received g) := by
  refine Table.find_of_unique (List.mem_map_of_mem hg) (decide_eq_true (id_received (hf.named g hg)))
    fun x hx hid => ?_
  obtain ⟨g', hg', rfl⟩ := List.mem_map.mp hx
  have hsame := (id_received (hf.named g' hg')).symm.trans (of_decide_eq_true hid)
  have hids : groupId g' = groupId g := utf16_inj (some.inj hsame)
  rw [some.inj ((byId_of_mem hf.unique hg').symm.trans (hids ▸ byId_of_mem hf.unique hg))]

theorem link_attached (hf : Forest groups) :
    (attached (groups.map received)).map link =
      groups.map fun g => (utf16 (groupId g), (parentOf g).map utf16) := by
  have hids := nodeIds_received hf.unique hf.named
  refine links_eq hf.unique ((nodeIds_attached _).trans hids) fun g hg => ?_
  have hmem : utf16 (groupId g) ∈ nodeIds ((groups.map received).foldl addNode []) := by
    rw [hids]
    exact List.mem_map.mpr ⟨g, hg, rfl⟩
  obtain ⟨n, hn, hnid⟩ := List.mem_map.mp hmem
  have hdeclared : (declared (groups.map received) n.id).bind
      (fun r => textIn (r.get "parentId")) = (parentOf g).map utf16 := by
    rw [hnid, declared_received hf hg]
    exact parentId_received g
  have hroot : n.parentId = none := by
    rw [← (clean_nodes (groups.map received)).root n hn]
    rfl
  refine ⟨_, List.mem_map_of_mem hn, ?_⟩
  unfold attach
  rw [hdeclared]
  cases hp : parentOf g with
  | none => exact ⟨hnid, hroot⟩
  | some p =>
    obtain ⟨parent, hparent, hpid⟩ := mem_ids.mp (hf.parent_mem hg hp)
    have hpmem : utf16 p ∈ nodeIds ((groups.map received).foldl addNode []) := by
      rw [hids, ← hpid]
      exact List.mem_map.mpr ⟨parent, hparent, rfl⟩
    have hne : utf16 p ≠ n.id := by
      rw [hnid]
      intro he
      have hself : byId groups p = some g := by
        rw [utf16_inj he]
        exact byId_of_mem hf.unique hg
      have := hf.depthOf_child hg hp hself
      omega
    rw [map_some]
    simp only [if_pos (show utf16 p ≠ n.id ∧ _ from ⟨hne, hpmem⟩)]
    exact ⟨hnid, trivial⟩

/-- Every group came with the parent that the document has for it. -/
def SameParents (groups : List Group) (r : WorkbenchDoc) : Prop :=
  ∀ g ∈ groups, ∃ n ∈ r.groups, n.id = utf16 (groupId g) ∧ n.parentId = (parentOf g).map utf16

/-- Every group is listed after its parent. -/
def ListedFirst (groups : List Group) : Prop :=
  ParentsFirst [] (groups.map fun g => (groupId g, parentOf g))

theorem parentsFirst_utf16 (groups : List Group) :
    ParentsFirst [] (groups.map fun g => (utf16 (groupId g), (parentOf g).map utf16)) ↔
      ListedFirst groups := by
  have hmap := parentsFirst_map (f := utf16) (fun _ _ => utf16_inj) []
    (groups.map fun g => (groupId g, parentOf g))
  rw [List.map_map] at hmap
  exact hmap

/-- The depth of the group that has an id. -/
def depthAt (groups : List Group) (x : JsString) : Nat :=
  ((groups.find? fun g => utf16 (groupId g) = x).map (depthOf groups)).getD 0

theorem depthAt_id (hu : (ids groups).Nodup) {g : Group} (hg : g ∈ groups) :
    depthAt groups (utf16 (groupId g)) = depthOf groups g := by
  have hfind : (groups.find? fun x => utf16 (groupId x) = utf16 (groupId g)) = some g :=
    Table.find_of_mem (nodup_utf16 hu) hg
  rw [depthAt, hfind]
  rfl

theorem normalizeGroups_parents (hf : Forest groups) :
    (∀ g ∈ groups, ∃ n ∈ normalizeGroups (groups.map received), n.id = utf16 (groupId g) ∧
        n.parentId = (parentOf g).map utf16) ↔ ListedFirst groups := by
  have hlinks := link_attached hf
  rw [← parentsFirst_utf16]
  constructor
  · intro hparents
    have hids : nodeIds (normalizeGroups (groups.map received)) =
        groups.map fun g => utf16 (groupId g) := by
      rw [← nodeIds_bare, bare_normalizeGroups, nodeIds_received hf.unique hf.named]
    rw [← links_eq hf.unique hids hparents]
    exact first_normalizeGroups _
  · intro hfirst
    -- an attached group is a group of the document with its parent
    have hgroup : ∀ n ∈ attached (groups.map received), ∃ g ∈ groups,
        utf16 (groupId g) = n.id ∧ (parentOf g).map utf16 = n.parentId := by
      intro n hn
      have hmem : n.link ∈ (attached (groups.map received)).map link :=
        List.mem_map_of_mem hn
      rw [hlinks] at hmem
      obtain ⟨g, hg, he⟩ := List.mem_map.mp hmem
      exact ⟨g, hg, congrArg Prod.fst he, congrArg Prod.snd he⟩
    have hsame : normalizeGroups (groups.map received) = attached (groups.map received) := by
      refine normalizeGroups_of_first _ (h := depthAt groups) (hlinks ▸ hfirst) ?_ ?_ ?_
      · intro n hn
        obtain ⟨g, hg, hid, -⟩ := hgroup n hn
        rw [← hid, depthAt_id hf.unique hg]
        exact (hf.climb_eq hg).2
      · intro n hn hroot
        obtain ⟨g, hg, hid, hparent⟩ := hgroup n hn
        rw [hroot, map_eq_none_iff] at hparent
        rw [← hid, depthAt_id hf.unique hg, depthOf_root hparent]
      · intro n hn p hp
        obtain ⟨g, hg, hid, hparent⟩ := hgroup n hn
        rw [hp] at hparent
        obtain ⟨q, hq, rfl⟩ := map_eq_some_iff.mp hparent
        obtain ⟨parent, hmem, rfl⟩ := mem_ids.mp (hf.parent_mem hg hq)
        rw [← hid, depthAt_id hf.unique hg, depthAt_id hf.unique hmem]
        exact hf.depthOf_child hg hq (byId_of_mem hf.unique hmem)
    rw [hsame]
    intro g hg
    have hmem : (utf16 (groupId g), (parentOf g).map utf16) ∈
        (attached (groups.map received)).map link := by
      rw [hlinks]
      exact List.mem_map.mpr ⟨g, hg, rfl⟩
    obtain ⟨n, hn, he⟩ := List.mem_map.mp hmem
    exact ⟨n, hn, congrArg Prod.fst he, congrArg Prod.snd he⟩

variable {fs : Fields}

theorem version_received (h : Rest fs) : (Js.parse (.obj fs)).get "version" = some (.num 5) := by
  have hversion := h.version
  rw [get_parse]
  cases hv : field "version" fs with
  | none =>
    rw [hv] at hversion
    cases hversion
  | some v =>
    rw [hv, getD_some] at hversion
    cases v with
    | int n =>
      have hn : n = 5 := of_decide_eq_true hversion
      rw [map_some, Js.parse, hn]
      rfl
    | float q =>
      have hq : q = 5 := of_decide_eq_true hversion
      rw [map_some, Js.parse, hq]
    | _ => cases hversion

theorem groups_received (h : field "groups" fs = some (.arr (groups.map Json.obj))) :
    (Js.parse (.obj fs)).get "groups" = some (.arr (groups.map received)) := by
  rw [get_parse, h, map_some, Js.parse, parseItems_eq, List.map_map]
  rfl

/-- An accepted document comes with its parents exactly when it has no more groups than the
    frontend takes and lists every parent before its children. -/
theorem normalize_parents_iff {R : FloatRepr} (h : Accepted R fs) :
    (∃ r, normalizeWorkbenchDoc (Js.parse (.obj fs)) = some r ∧ SameParents (groupsIn fs) r) ↔
      (groupsIn fs).length ≤ maxGroups ∧ ListedFirst (groupsIn fs) := by
  obtain ⟨groups, hfield, hf⟩ := h.groups
  have hgroups : groupsIn fs = groups := by
    rw [groupsIn, readGroups, hfield]
    dsimp only
    rw [mapM_groupEntry.mpr ⟨rfl, hf.named⟩]
    rfl
  rw [hgroups, ← normalizeGroups_parents hf]
  unfold normalizeWorkbenchDoc
  rw [version_received h.rest, groups_received hfield]
  dsimp only
  rw [length_map]
  by_cases hlength : groups.length > maxGroups
  · rw [if_pos (.inr hlength)]
    constructor
    · rintro ⟨r, hr, -⟩
      cases hr
    · rintro ⟨hle, -⟩
      exact absurd hlength (Nat.not_lt.mpr hle)
  · have hnot : ¬ ((5 : Rat) ≠ 5 ∨ groups.length > maxGroups) := by simpa using hlength
    rw [if_neg hnot]
    constructor
    · rintro ⟨r, hr, hsame⟩
      obtain rfl := some.inj hr
      exact ⟨Nat.le_of_not_lt hlength, hsame⟩
    · rintro ⟨-, hsame⟩
      exact ⟨_, rfl, hsame⟩

theorem tree_normalize {raw : Js} (h : normalizeWorkbenchDoc raw = some r) : Tree r.groups := by
  unfold normalizeWorkbenchDoc at h
  split at h
  · split at h
    · cases h
    obtain rfl := some.inj h
    exact tree_normalizeGroups _
  · cases h

/-- What hydration promises, and the documents whose parents it keeps. -/
theorem hydration_iff (R : FloatRepr) :
    (∀ fs, Accepted R fs →
        ((∃ r, normalizeWorkbenchDoc (Js.parse (.obj fs)) = some r ∧ SameParents (groupsIn fs) r) ↔
          (groupsIn fs).length ≤ maxGroups ∧ ListedFirst (groupsIn fs))) ∧
      ∀ raw r, normalizeWorkbenchDoc raw = some r →
        Tree r.groups ∧ normalizeWorkbenchDoc r.toJs = some r :=
  ⟨fun _ h => normalize_parents_iff h, fun _ _ h => ⟨tree_normalize h, normalize_again h⟩⟩

/-! ## A child listed before its parent -/

/-- The group `sub` is listed before its parent `top`. -/
def childFirst : Fields :=
  [("version", .int 5),
    ("groups", .arr [.obj [("id", .str "sub"), ("name", .str "Sub"), ("parentId", .str "top")],
      .obj [("id", .str "top"), ("name", .str "Top"), ("parentId", .null)]]),
    ("membership", .obj []), ("lockedLayerIds", .arr []), ("mode", .str "explore")]

theorem hydration_iff_childFirst :
    (∃ r, normalizeWorkbenchDoc (Js.parse (.obj childFirst)) = some r ∧
        SameParents (groupsIn childFirst) r) ↔
      (groupsIn childFirst).length ≤ maxGroups ∧ ListedFirst (groupsIn childFirst) :=
  (hydration_iff default).1 childFirst (by decide +kernel)

/-- The server accepts the document, and the frontend makes a root of `sub`. -/
theorem childFirst_cut :
    Accepted default childFirst ∧
      (normalizeWorkbenchDoc (Js.parse (.obj childFirst))).map
          (fun r => r.groups.map link) =
        some [(utf16 "sub", none), (utf16 "top", none)] ∧
      ¬ ∃ r, normalizeWorkbenchDoc (Js.parse (.obj childFirst)) = some r ∧
        SameParents (groupsIn childFirst) r := by
  have haccepted : Accepted default childFirst := by decide +kernel
  refine ⟨haccepted, by decide +kernel, fun hsame => ?_⟩
  have hfirst := ((normalize_parents_iff haccepted).mp hsame).2
  exact absurd (hfirst.1 "top" rfl) not_mem_nil

end WebGis.Workbench
