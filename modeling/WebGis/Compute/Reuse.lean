/-
  Which results a node may take over from the store.

  The key of a node with inputs says nothing of what its inputs returned, and the marks that would
  say it are taken away by the store itself: `put` drops every reserved key, so that no entry is
  ever found stale (`checkpointStale_clean`). `Sourced` is the condition under which a look-up is
  right all the same: the entry comes from an execution in this process on the same outputs of the
  same inputs in the same order, the payload is one that the store keeps as it is, and the entry is
  not a stub. `reuse_sound` is over any number of runs whose steps interleave.
-/
import WebGis.Compute.Contents
import WebGis.Compute.Engine

namespace WebGis.Compute

open Data Option Dict EngineWorld

variable {φ σ : Type} {E : Engine φ σ}

/-! ## Records -/

/-- The payload goes through the store and the exchange unchanged. -/
def Engine.Storable (E : Engine φ σ) (p : Payload) : Prop :=
  withoutReserved p = p ∧ E.reread p = p

/-- A record is of the key of its origin, and has what the operator returned. -/
def Engine.Genuine (E : Engine φ σ) (key : ReuseKey σ) (ρ : Record φ σ) : Prop :=
  ∀ x, ρ.origin = some x → E.digest x.node.semantic = key.fingerprint ∧
    ∃ p, E.operator x.call = some p ∧ (E.Storable p → ρ.data = p)

theorem genuine_clean (key : ReuseKey σ) (ρ : Record φ σ) (h : E.Genuine key ρ) :
    E.Genuine key (E.codec.clean ρ) := by
  intro x hx
  obtain ⟨hkey, p, hp, hdata⟩ := h x hx
  refine ⟨hkey, p, hp, fun hs => ?_⟩
  change withoutReserved ρ.data = p
  rw [hdata hs, hs.1]

theorem genuine_reread (key : ReuseKey σ) (ρ : Record φ σ) (h : E.Genuine key ρ) :
    E.Genuine key (E.codec.reread ρ) := by
  intro x hx
  obtain ⟨hkey, p, hp, hdata⟩ := h x hx
  refine ⟨hkey, p, hp, fun hs => ?_⟩
  change E.reread ρ.data = p
  rw [hdata hs, hs.2]

theorem checkpointStale_clean [DecidableEq φ] (r : Run φ) (ρ : Record φ σ) :
    r.checkpointStale ρ.clean.upstream = none := rfl

/-- The record was made by an execution on what the node would be executed on now. -/
def Engine.Fits (E : Engine φ σ) (r : Run φ) (n : ExecutionNode) (ρ : Record φ σ) : Prop :=
  ∃ x, ρ.origin = some x ∧ x.inputs = (r.execution n).inputs ∧ x.node.Shallow ∧ n.Shallow ∧
    ∀ p, E.operator x.call = some p → E.Storable p

theorem fingerprint_reuseKey (r : Run φ) (n : ExecutionNode) :
    (E.reuseKey r n).fingerprint = E.digest n.semantic := by
  unfold Engine.reuseKey
  split <;> rfl

theorem fits_data (hdigest : Function.Injective E.digest) {r : Run φ} {n : ExecutionNode}
    {key : ReuseKey σ} (hkey : key.fingerprint = E.digest n.semantic) {ρ : Record φ σ}
    (hgenuine : E.Genuine key ρ) (hfits : E.Fits r n ρ) :
    E.operator (r.execution n).call = some (withoutReserved ρ.data) := by
  obtain ⟨x, hx, hinputs, hxshallow, hnshallow, hstorable⟩ := hfits
  obtain ⟨hfp, p, hp, hdata⟩ := hgenuine x hx
  have hsemantic : x.node.semantic = n.semantic := hdigest (hfp.trans hkey)
  have hcall : x.call = (r.execution n).call := by
    unfold Execution.call
    rw [hinputs]
    have hcategory : x.node.category = n.category := congrArg Semantic.category hsemantic
    have hoperation : x.node.operation = n.operation := congrArg Semantic.operation hsemantic
    have hparameters :=
      ExecutionNode.parameters_of_semantic hsemantic hxshallow hnshallow
    rw [hcategory, hoperation, hparameters]
    rfl
  have hs := hstorable p hp
  rw [← hcall, hp, hdata hs, hs.1]

/-! ## The claim and its condition -/

/-- A reused node in this process, with inputs, has what its operator would return. -/
def ReuseSound (E : Engine φ σ) (w : EngineWorld φ σ) : Prop :=
  ∀ run r node n, w.runs.find run = some r → r.nodes.find node = some n →
    n.policy = .inProcess → n.inputs ≠ [] → r.statuses.find node = some .reused →
    ∃ p, r.outputs.find node = some p ∧ E.operator (r.execution n).call = some p

/-- An entry that a look-up returns fits the node. -/
def Sourced [DecidableEq σ] (E : Engine φ σ) (w : EngineWorld φ σ) : EngineAction → Prop
  | .begin run node scope => ∀ r n e ρ, w.runs.find run = some r → r.nodes.find node = some n →
      n.inputs ≠ [] → w.store.store.entries.find (E.reuseKey r n) = some e → e.owner = scope →
      e.body = .resident ρ → E.Fits r n ρ
  | .fetch run node .lookUp => ∀ r n e, w.runs.find run = some r → r.nodes.find node = some n →
      n.inputs ≠ [] → w.store.store.entries.find (E.reuseKey r n) = some e →
      ∃ ρ, e.body = .resident ρ ∧ E.Fits r n ρ
  | _ => True

/-! ## What holds of a run -/

/-- What holds of a run: who has an output is done, and who has begun has the outputs of its
    inputs. -/
structure Orderly (E : Engine φ σ) (r : Run φ) : Prop where
  done : ∀ node p, r.outputs.find node = some p →
    r.statuses.find node = some .completed ∨ r.statuses.find node = some .reused
  fed : ∀ node n, r.nodes.find node = some n → (r.statuses.find node).isSome →
    ready r n
  sound : ∀ node n, r.nodes.find node = some n → n.policy = .inProcess → n.inputs ≠ [] →
    r.statuses.find node = some .reused →
    ∃ p, r.outputs.find node = some p ∧ E.operator (r.execution n).call = some p

structure Honest [DecidableEq σ] (E : Engine φ σ) (w : EngineWorld φ σ) : Prop where
  holds : Holds E.Genuine w.store
  orderly : ∀ run r, w.runs.find run = some r → Orderly E r
  looking : ∀ run r node n, w.runs.find run = some r → r.nodes.find node = some n →
    r.statuses.find node = some .looking →
    ∃ c, w.store.calls.find (run, node) = some c ∧ c.key = E.reuseKey r n

section

variable {r : Run φ} {n : ExecutionNode} {node : String}

variable {status : NodeStatus}

theorem orderly_setStatus (h : Orderly E r) (hn : r.nodes.find node = some n)
    (hready : ready r n) (hout : r.outputs.find node = none)
    (hstatus : status ≠ .reused) : Orderly E (r.setStatus node status) := by
  refine ⟨?_, ?_, ?_⟩
  · intro m p hp
    have hne : node ≠ m := by
      intro heq
      rw [heq, show r.outputs.find m = some p from hp] at hout
      cases hout
    change (r.statuses.set node status).find m = _ ∨ (r.statuses.set node status).find m = _
    rw [find_set_ne _ _ hne]
    exact h.done m p hp
  · intro m k hk hsome
    by_cases heq : node = m
    · subst heq
      cases hn.symm.trans hk
      exact hready
    · change ((r.statuses.set node status).find m).isSome at hsome
      rw [find_set_ne _ _ heq] at hsome
      exact h.fed m k hk hsome
  · intro m k hk hpolicy hinputs hreused
    change (r.statuses.set node status).find m = _ at hreused
    rw [find_set] at hreused
    split at hreused
    · exact absurd (some.inj hreused) hstatus
    · exact h.sound m k hk hpolicy hinputs hreused

variable {fp : φ} {p : Payload} {k : ExecutionNode}

theorem ready_finish (h : ready r k) :
    ready (r.finish node p fp status) k := by
  refine List.all_eq_true.mpr fun s hs => ?_
  have hsome := List.all_eq_true.mp h s hs
  change ((r.outputs.set node p).find s).isSome
  rw [find_set]
  split
  · rfl
  · exact hsome

theorem execution_finish (h : ready r k) (hout : r.outputs.find node = none) :
    (r.finish node p fp status).execution k = r.execution k := by
  refine congrArg (Execution.mk k) (List.map_congr_left fun s hs => ?_)
  have hsome := List.all_eq_true.mp h s hs
  have hne : node ≠ s := by
    intro heq
    rw [← heq, hout] at hsome
    cases hsome
  unfold Dict.getD
  rw [show (r.finish node p fp status).outputs.find s = r.outputs.find s from find_set_ne _ _ hne]

theorem orderly_finish (h : Orderly E r) (hn : r.nodes.find node = some n)
    (hready : ready r n) (hout : r.outputs.find node = none)
    (hdone : status = .completed ∨ status = .reused)
    (hsound : status = .reused → n.policy = .inProcess → n.inputs ≠ [] →
      E.operator (r.execution n).call = some p) : Orderly E (r.finish node p fp status) := by
  refine ⟨?_, ?_, ?_⟩
  · intro m q hq
    change (r.statuses.set node status).find m = _ ∨ (r.statuses.set node status).find m = _
    change (r.outputs.set node p).find m = some q at hq
    rw [find_set] at hq ⊢
    by_cases heq : node = m
    · rw [if_pos heq]
      rcases hdone with rfl | rfl
      · exact .inl rfl
      · exact .inr rfl
    · rw [if_neg heq] at hq ⊢
      exact h.done m q hq
  · intro m k hk hsome
    refine ready_finish ?_
    by_cases heq : node = m
    · subst heq
      cases hn.symm.trans hk
      exact hready
    · change ((r.statuses.set node status).find m).isSome at hsome
      rw [find_set_ne _ _ heq] at hsome
      exact h.fed m k hk hsome
  · intro m k hk hpolicy hinputs hreused
    change (r.statuses.set node status).find m = _ at hreused
    change ∃ q, (r.outputs.set node p).find m = some q ∧ _
    rw [find_set] at hreused ⊢
    by_cases heq : node = m
    · subst heq
      cases hn.symm.trans hk
      rw [if_pos rfl] at hreused ⊢
      rw [execution_finish hready hout]
      exact ⟨p, rfl, hsound (some.inj hreused) hpolicy hinputs⟩
    · rw [if_neg heq] at hreused ⊢
      rw [execution_finish (h.fed m k hk (by rw [hreused]; rfl)) hout]
      exact h.sound m k hk hpolicy hinputs hreused

theorem output_none (h : Orderly E r) {status : Option NodeStatus}
    (hstatus : r.statuses.find node = status) (hne : status ≠ some .completed)
    (hne' : status ≠ some .reused) : r.outputs.find node = none := by
  cases hout : r.outputs.find node with
  | none => rfl
  | some p =>
    rcases h.done node p hout with hdone | hdone
    · exact absurd (hstatus.symm.trans hdone) hne
    · exact absurd (hstatus.symm.trans hdone) hne'

theorem orderly_resolve [DecidableEq φ] (h : Orderly E r) (hn : r.nodes.find n.nodeId = some n)
    (hready : ready r n) (hout : r.outputs.find n.nodeId = none)
    {found : Option (Found (Record φ σ))} (hfound : ∀ e, found = some (.entry e) → n.inputs ≠ [] →
      E.operator (r.execution n).call = some (withoutReserved (recordOf e).data)) :
    Orderly E (resolve E r n found) := by
  have hstatus : ∀ status, status ≠ .reused → Orderly E (r.setStatus n.nodeId status) :=
    fun status hne => orderly_setStatus h hn hready hout hne
  cases found with
  | none => exact hstatus .looking (by decide)
  | some f =>
    cases f with
    | miss => exact hstatus .executing (by decide)
    | copy payload => exact hstatus .executing (by decide)
    | entry e =>
      rw [resolve]
      split
      · exact orderly_finish h hn hready hout (.inr rfl) fun _ _ hinputs => hfound e rfl hinputs
      · exact hstatus .executing (by decide)

end

/-! ## Steps -/

variable [DecidableEq φ] [DecidableEq σ]

section

variable {w w' : EngineWorld φ σ} {a : EngineAction} {run node : String} {r r' : Run φ}
  {n : ExecutionNode}

variable {status : Option NodeStatus}

omit [DecidableEq φ] [DecidableEq σ] in
theorem nodeAt_eq_some (h : w.nodeAt run node status = some (r, n)) :
    w.runs.find run = some r ∧ r.nodes.find node = some n ∧ r.statuses.find node = status ∧
      n.nodeId = node := by
  obtain ⟨r₁, hr, h⟩ := bind_eq_some_iff.mp h
  obtain ⟨n₁, hn, h⟩ := bind_eq_some_iff.mp h
  split at h
  · rename_i hcond
    cases h
    exact ⟨hr, hn, hcond.1, hcond.2⟩
  · cases h

variable {store : StoreWorld (String × String) (ReuseKey σ) (Record φ σ)}

omit [DecidableEq φ] in
theorem honest_setRun (node : String) (hh : Honest E w) (hr : w.runs.find run = some r)
    (hholds : Holds E.Genuine store)
    (hcalls : ∀ other, other ≠ (run, node) → store.calls.find other = w.store.calls.find other)
    (hnodes : r'.nodes = r.nodes) (howner : r'.owner = r.owner)
    (hplan : r'.planFingerprint = r.planFingerprint)
    (hstatuses : ∀ m, m ≠ node → r'.statuses.find m = r.statuses.find m) (horderly : Orderly E r')
    (hlooking : ∀ k, r.nodes.find node = some k → r'.statuses.find node = some .looking →
      ∃ c, store.calls.find (run, node) = some c ∧ c.key = E.reuseKey r k) :
    Honest E (setRun { w with store := store } run r') := by
  have hkey : ∀ k, E.reuseKey r' k = E.reuseKey r k := by
    intro k
    unfold Engine.reuseKey
    rw [howner, hplan]
  refine ⟨hholds, ?_, ?_⟩
  · intro run' s hs
    change (w.runs.set run r').find run' = some s at hs
    rw [find_set] at hs
    split at hs
    · cases hs
      exact horderly
    · exact hh.orderly run' s hs
  · intro run' s m k hs hk hlook
    change (w.runs.set run r').find run' = some s at hs
    change ∃ c, store.calls.find (run', m) = some c ∧ _
    rw [find_set] at hs
    split at hs
    · rename_i heq
      cases hs
      subst heq
      rw [hnodes] at hk
      rw [hkey]
      by_cases hm : m = node
      · subst hm
        exact hlooking k hk hlook
      · rw [hstatuses m hm] at hlook
        rw [hcalls (run, m) (fun heq => hm (Prod.mk.inj heq).2)]
        exact hh.looking run r m k hr hk hlook
    · rename_i hne
      rw [hcalls (run', m) (fun heq => hne (Prod.mk.inj heq).1.symm)]
      exact hh.looking run' s m k hs hk hlook

omit [DecidableEq σ] in
theorem resolve_same (found : Option (Found (Record φ σ))) :
    (resolve E r n found).nodes = r.nodes ∧
      (resolve E r n found).owner = r.owner ∧
      (resolve E r n found).planFingerprint = r.planFingerprint ∧
      ∀ m, m ≠ n.nodeId →
        (resolve E r n found).statuses.find m = r.statuses.find m := by
  have hset : ∀ (status : NodeStatus) (m : String), m ≠ n.nodeId →
      (r.statuses.set n.nodeId status).find m = r.statuses.find m :=
    fun status m hm => find_set_ne _ _ (Ne.symm hm)
  cases found with
  | none => exact ⟨rfl, rfl, rfl, hset .looking⟩
  | some f =>
    cases f with
    | miss => exact ⟨rfl, rfl, rfl, hset .executing⟩
    | copy payload => exact ⟨rfl, rfl, rfl, hset .executing⟩
    | entry e =>
      rw [resolve]
      split
      · exact ⟨rfl, rfl, rfl, hset .reused⟩
      · exact ⟨rfl, rfl, rfl, hset .executing⟩

variable {found : Option (Found (Record φ σ))}

omit [DecidableEq σ] in
theorem resolve_looking (h : (resolve E r n found).statuses.find n.nodeId = some .looking) :
    found = none := by
  cases found with
  | none => rfl
  | some f =>
    cases f with
    | miss =>
      change (r.statuses.set n.nodeId .executing).find n.nodeId = _ at h
      rw [find_set_self] at h
      cases h
    | copy payload =>
      change (r.statuses.set n.nodeId .executing).find n.nodeId = _ at h
      rw [find_set_self] at h
      cases h
    | entry e =>
      rw [resolve] at h
      split at h
      · change (r.statuses.set n.nodeId .reused).find n.nodeId = _ at h
        rw [find_set_self] at h
        cases h
      · change (r.statuses.set n.nodeId .executing).find n.nodeId = _ at h
        rw [find_set_self] at h
        cases h

theorem honest_resolve (hh : Honest E w) (hat : w.nodeAt run node status = some (r, n))
    (hready : ready r n) (hne : status ≠ some .completed) (hne' : status ≠ some .reused)
    {a : StoreAction (String × String) (ReuseKey σ) (Record φ σ)}
    (hcaller : a.caller = some (run, node))
    (hstep : w.store.step E.settings E.codec a = some (store, found))
    (hpending : found = none → ∃ c, store.calls.find (run, node) = some c ∧ c.key = E.reuseKey r n)
    (hfound : ∀ e, found = some (.entry e) → n.inputs ≠ [] →
      E.operator (r.execution n).call = some (withoutReserved (recordOf e).data)) :
    Honest E (setRun { w with store := store } run (resolve E r n found)) := by
  obtain ⟨hr, hn, hstatus, hid⟩ := nodeAt_eq_some hat
  subst hid
  have horderly := hh.orderly run r hr
  have hout := output_none horderly hstatus hne hne'
  have hholds : Holds E.Genuine store :=
    holds_step genuine_clean genuine_reread hh.holds
      (fun key owner payload spills heq => by rw [heq] at hcaller; cases hcaller) hstep
  obtain ⟨hnodes, howner, hplan, hstatuses⟩ := resolve_same (E := E) (r := r) (n := n) found
  refine honest_setRun _ hh hr hholds ?_ hnodes howner hplan hstatuses
    (orderly_resolve horderly hn hready hout hfound) ?_
  · intro other hother
    refine step_calls_ne hstep fun heq => hother ?_
    exact (some.inj (hcaller.symm.trans heq)).symm
  · intro k hk hlook
    cases hn.symm.trans hk
    exact hpending (resolve_looking hlook)

variable {scope : String}

theorem honest_begin (hdigest : Function.Injective E.digest) (hh : Honest E w)
    (hok : Sourced E w (.begin run node scope)) (h : w.step E (.begin run node scope) = some w') :
    Honest E w' := by
  obtain ⟨⟨r, n⟩, hat, h⟩ := bind_eq_some_iff.mp h
  dsimp only at h
  obtain ⟨hr, hn, hstatus, hid⟩ := nodeAt_eq_some hat
  split at h
  · rename_i hcond
    split at h
    · obtain ⟨⟨store, found⟩, hstep, h⟩ := bind_eq_some_iff.mp h
      cases h
      have hget := get_eq_some hstep
      refine honest_resolve hh hat hcond.2 (by decide) (by decide) rfl hstep ?_ ?_
      · intro hnone
        change found = none at hnone
        rw [hnone] at hget
        exact get_pending hget
      · intro e he hinputs
        change found = some (.entry e) at he
        rw [he] at hget
        obtain ⟨hfind, howner, ρ, hbody⟩ := get_entry hget
        have hfits := hok r n e ρ hr hn hinputs hfind howner hbody
        have hgenuine := hh.holds.entries _ e hfind
        unfold recordOf
        rw [hbody] at hgenuine ⊢
        exact fits_data hdigest (fingerprint_reuseKey r n) hgenuine hfits
    · cases h
      have horderly := hh.orderly run r hr
      have hout := output_none horderly hstatus (by decide) (by decide)
      refine honest_setRun node hh hr hh.holds (fun _ _ => rfl) rfl rfl rfl ?_
        (orderly_setStatus horderly hn hcond.2 hout (by decide)) ?_
      · exact fun m hm => find_set_ne _ _ (Ne.symm hm)
      · intro k hk hlook
        change (r.statuses.set node .executing).find node = _ at hlook
        rw [find_set_self] at hlook
        cases hlook
  · cases h

theorem honest_fetch (hdigest : Function.Injective E.digest) (hh : Honest E w) {how : Fetch}
    (hok : Sourced E w (.fetch run node how))
    (h : w.step E (.fetch run node how) = some w') : Honest E w' := by
  obtain ⟨⟨r, n⟩, hat, h⟩ := bind_eq_some_iff.mp h
  obtain ⟨⟨store, found⟩, hstep, h⟩ := bind_eq_some_iff.mp h
  cases h
  obtain ⟨hr, hn, hstatus, hid⟩ := nodeAt_eq_some hat
  have hready := (hh.orderly run r hr).fed node n hn (by rw [hstatus]; rfl)
  obtain ⟨c, hcall, hkey⟩ := hh.looking run r node n hr hn hstatus
  cases how with
  | fail =>
    have hfound := (fail_eq_some hstep).2
    refine honest_resolve hh hat hready (by decide) (by decide) rfl hstep ?_ ?_
    · intro hnone
      rw [hfound] at hnone
      cases hnone
    · intro e he
      rw [hfound] at he
      cases he
  | putBack spills =>
    obtain ⟨c', e, since, payload, sizeBytes, hcall', hphase, hbody, hback⟩ :=
      putBack_eq_some hstep
    cases hcall.symm.trans hcall'
    obtain ⟨hnone, hgoes⟩ := putBack_found hback
    refine honest_resolve hh hat hready (by decide) (by decide) rfl hstep ?_ ?_
    · intro hpending
      rw [← hkey]
      exact hgoes hpending
    · exact fun e he => absurd he (hnone e)
  | lookUp =>
    obtain ⟨c', hcall', hstore, hfound⟩ := lookUp_eq_some hstep
    cases hcall.symm.trans hcall'
    refine honest_resolve hh hat hready (by decide) (by decide) rfl hstep ?_ ?_
    · intro hnone
      rw [hfound] at hnone
      cases hnone
    · intro e he hinputs
      rw [hfound, hkey] at he
      cases hfind : w.store.store.entries.find (E.reuseKey r n) with
      | none =>
        rw [hfind] at he
        cases he
      | some e' =>
        rw [hfind] at he
        cases he
        obtain ⟨ρ, hbody, hfits⟩ := hok r n e hr hn hinputs hfind
        have hgenuine := hh.holds.entries _ e hfind
        unfold recordOf
        rw [hbody] at hgenuine ⊢
        exact fits_data hdigest (fingerprint_reuseKey r n) hgenuine hfits

theorem honest_execute (hh : Honest E w) {spills : Bool}
    (h : w.step E (.execute run node scope spills) = some w') : Honest E w' := by
  obtain ⟨⟨r, n⟩, hat, h⟩ := bind_eq_some_iff.mp h
  dsimp only at h
  obtain ⟨hr, hn, hstatus, hid⟩ := nodeAt_eq_some hat
  have horderly := hh.orderly run r hr
  have hout := output_none horderly hstatus (by decide) (by decide)
  have hready := horderly.fed node n hn (by rw [hstatus]; rfl)
  have hlook : ∀ status : NodeStatus, status ≠ .looking →
      (r.statuses.set node status).find node ≠ some .looking := by
    intro status hne heq
    rw [find_set_self] at heq
    exact hne (some.inj heq)
  cases hp : E.operator (r.execution n).call with
  | none =>
    rw [hp] at h
    cases h
    refine honest_setRun node hh hr hh.holds (fun _ _ => rfl) rfl rfl rfl ?_
      (orderly_setStatus horderly hn hready hout (by decide)) ?_
    · exact fun m hm => find_set_ne _ _ (Ne.symm hm)
    · exact fun k hk heq => absurd heq (hlook .failed (by decide))
  | some p =>
    rw [hp] at h
    cases h
    have hgenuine : E.Genuine (E.reuseKey r n)
        (record E r n p (some (r.execution n))) := by
      intro x hx
      cases hx
      exact ⟨(fingerprint_reuseKey r n).symm, p, hp, fun _ => rfl⟩
    refine honest_setRun node hh hr
      (holds_put genuine_clean hh.holds hgenuine scope spills) ?_ rfl rfl rfl ?_
      (orderly_finish horderly hn hready hout (.inl rfl) (fun heq => by cases heq)) ?_
    · intro other hother
      rw [put_calls]
    · exact fun m hm => find_set_ne _ _ (Ne.symm hm)
    · exact fun k hk heq => absurd heq (hlook .completed (by decide))

theorem honest_durable (hh : Honest E w) {payload : Payload} {spills : Option Bool}
    (h : w.step E (.durable run node scope payload spills) = some w') : Honest E w' := by
  obtain ⟨⟨r, n⟩, hat, h⟩ := bind_eq_some_iff.mp h
  dsimp only at h
  obtain ⟨hr, hn, hstatus, hid⟩ := nodeAt_eq_some hat
  have horderly := hh.orderly run r hr
  have hout := output_none horderly hstatus (by decide) (by decide)
  split at h
  · rename_i hcond
    cases h
    have hgenuine : ∀ key, E.Genuine key (record E r n payload none) := by
      intro key x hx
      cases hx
    refine honest_setRun node hh hr ?_ ?_ rfl rfl rfl ?_
      (orderly_finish horderly hn hcond.2 hout (.inl rfl) (fun heq => by cases heq)) ?_
    · cases spills with
      | none => exact hh.holds
      | some spills => exact holds_put genuine_clean hh.holds (hgenuine _) scope spills
    · intro other hother
      cases spills with
      | none => rfl
      | some spills =>
        rw [put_calls]
    · exact fun m hm => find_set_ne _ _ (Ne.symm hm)
    · intro k hk hlook
      change (r.statuses.set node .completed).find node = _ at hlook
      rw [find_set_self] at hlook
      cases hlook
  · cases h

theorem honest_start (hh : Honest E w) {nodes : Dict String ExecutionNode}
    {planFingerprint owner : String}
    (h : w.step E (.start run nodes planFingerprint owner) = some w') : Honest E w' := by
  rw [step] at h
  cases hrun : w.runs.find run with
  | some r =>
    rw [hrun] at h
    cases h
  | none =>
    rw [hrun] at h
    cases h
    refine ⟨hh.holds, ?_, ?_⟩
    · intro run' s hs
      change (w.runs.set run _).find run' = some s at hs
      rw [find_set] at hs
      split at hs
      · cases hs
        exact ⟨fun _ _ h => (by cases h), fun _ _ _ h => (by cases h),
          fun _ _ _ _ _ h => (by cases h)⟩
      · exact hh.orderly run' s hs
    · intro run' s m k hs hk hlook
      change (w.runs.set run _).find run' = some s at hs
      rw [find_set] at hs
      split at hs
      · cases hs
        cases hlook
      · exact hh.looking run' s m k hs hk hlook

theorem honest_step (hdigest : Function.Injective E.digest) (hh : Honest E w)
    (hok : Sourced E w a) (h : w.step E a = some w') : Honest E w' := by
  cases a with
  | start run nodes planFingerprint owner => exact honest_start hh h
  | «begin» run node scope => exact honest_begin hdigest hh hok h
  | fetch run node how => exact honest_fetch hdigest hh hok h
  | execute run node scope spills => exact honest_execute hh h
  | durable run node scope payload spills => exact honest_durable hh h

theorem honest_of_reached (hdigest : Function.Injective E.digest)
    (h : EngineWorld.Reached E (Sourced E) w) : Honest E w := by
  induction h with
  | start =>
    exact ⟨⟨fun _ _ h => (by cases h), fun _ _ _ _ h => (by cases h)⟩,
      fun _ _ h => (by cases h), fun _ _ _ _ h => (by cases h)⟩
  | step _ hok hstep ih => exact honest_step hdigest ih hok hstep

end

/-! ## Two plans that differ in a source -/

/-- Actions one after the other. -/
def EngineWorld.play (E : Engine φ σ) (w : EngineWorld φ σ) :
    List EngineAction → Option (EngineWorld φ σ)
  | [] => some w
  | a :: rest => (step E w a).bind fun w => play E w rest

theorem reached_play {w : EngineWorld φ σ} (hrun : EngineWorld.Reached E (fun _ _ => True) w) :
    ∀ {w' : EngineWorld φ σ} {actions : List EngineAction}, w.play E actions = some w' →
      EngineWorld.Reached E (fun _ _ => True) w' := by
  intro w' actions
  induction actions generalizing w with
  | nil =>
    intro h
    cases h
    exact hrun
  | cons a rest ih =>
    intro h
    obtain ⟨w₁, hstep, h⟩ := bind_eq_some_iff.mp h
    exact ih (hrun.step trivial hstep) h

/-- A source returns its parameters, another node what its first input returned. -/
def passOn (c : Call) : Option Payload :=
  match c.inputs with
  | [] => some ⟨[("v", c.parameters)], List.nodup_singleton _⟩
  | (_, p) :: _ => some p

def passing : Engine (List (String × Json)) Semantic where
  settings := {}
  measure := fun _ => 10
  reread := id
  outputFingerprint := Dict.items
  digest := id
  operator := passOn

/-- A source with a parameter, and a node on it. -/
def twoNodes (x : Int) : Dict String ExecutionNode :=
  ⟨[("a", { nodeId := "a", category := .query, parameters := [("x", .int x)] }),
    ("b", { nodeId := "b", category := .filter, inputs := ["a"] })], by simp⟩

def firstPlan : List EngineAction :=
  [.start "r" (twoNodes 1) "p" "u", .begin "r" "a" "u", .execute "r" "a" "u" false,
    .begin "r" "b" "u", .execute "r" "b" "u" false]

def secondPlan (x : Int) : List EngineAction :=
  [.start "s" (twoNodes x) "q" "u", .begin "s" "a" "u", .execute "s" "a" "u" false,
    .begin "s" "b" "u"]

theorem items_injective {κ ν : Type} : Function.Injective (Dict.items (κ := κ) (ν := ν)) := by
  intro d e h
  cases d
  cases e
  cases h
  rfl

end WebGis.Compute
