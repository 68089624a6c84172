/-
  What a checkpoint id stands for.

  A ledger keeps, beside the store, which specification a snapshot returned each id for, as long
  as the directory has not been removed or written anew under that id. `rollback_returns` is that
  a rollback returns this specification, in every run in which no snapshot takes a directory
  with another specification for its own, and no automatic one writes over a directory that is
  still held.
-/
import WebGis.Mapspec.Checkpoint

namespace WebGis.Mapspec

open Data Data.Json List Option CheckpointStore Dict Except

/-! ## What the operations do to the directories -/

section Directories

variable {s s' : CheckpointStore} {k : String} {c : Checkpoint}

theorem find_dropDirs (s : CheckpointStore) (names : List String) (k : String) :
    (s.dropDirs names).dirs.find k = if k ∈ names then none else s.dirs.find k := by
  show Dict.find (Table.delete s.dirs _) k = _
  rw [Dict.find_delete]
  by_cases hk : k ∈ names
  · cases s.dirs.find k <;> simp [hk, Option.filter]
  · cases s.dirs.find k <;> simp [hk, Option.filter]

variable {entries : Dict String String}

theorem writeManifest_dirs (h : s.writeManifest entries = some s') : s'.dirs = s.dirs := by
  unfold writeManifest at h
  split at h
  · cases h
  · rw [← some.inj h]

theorem find_pruneAndWrite (h : s.pruneAndWriteManifest entries = some s')
    (hk : s'.dirs.find k = some c) : s.dirs.find k = some c := by
  obtain ⟨written, hw, rfl⟩ := map_eq_some_iff.mp h
  rw [find_dropDirs, writeManifest_dirs hw] at hk
  split at hk
  · cases hk
  · exact hk

theorem find_pruneAuto (hk : s.pruneAutoCheckpoints.dirs.find k = some c) :
    s.dirs.find k = some c := by
  rw [pruneAutoCheckpoints, find_dropDirs] at hk
  split at hk
  · cases hk
  · exact hk

variable {id : String}

theorem find_discard (hk : (discardCheckpoint s id).1.dirs.find k = some c) :
    s.dirs.find k = some c := by
  have hremoved : (s.dropDirs [id]).dirs.find k = some c → s.dirs.find k = some c := by
    intro h
    rw [find_dropDirs] at h
    split at h
    · cases h
    · exact h
  unfold discardCheckpoint at hk
  split at hk
  · exact hk
  split at hk
  · exact hk
  split at hk
  · exact hk
  dsimp only at hk
  split at hk
  · rename_i hp
    have hpre := find_pruneAndWrite hp hk
    exact hremoved hpre
  · exact hremoved hk

/-- Where the manifest of `s'` comes from: from that of `s`, and `id` for `hash`. A directory of its
    name stands for no manifest. -/
structure Named (s s' : CheckpointStore) (hash id : String) : Prop where
  entries : ∀ h i, s'.loadManifest.find h = some i →
    (h = hash ∧ i = id) ∨ s.loadManifest.find h = some i
  file : (manifestName ∈ s.dirs.keys → s.manifest = none) →
    manifestName ∈ s'.dirs.keys → s'.manifest = none

theorem loadManifest_of_dir (h : manifestName ∈ s.dirs.keys) : s.loadManifest = Dict.empty := by
  rw [loadManifest, if_pos h]

theorem writeManifest_eq_some :
    s.writeManifest entries = some s' ↔
      manifestName ∉ s.dirs.keys ∧ s' = { s with manifest := some entries } := by
  unfold writeManifest
  by_cases h : manifestName ∈ s.dirs.keys
  · simp [h]
  · simp [h, eq_comm]

theorem keys_dropDirs {names : List String} (h : k ∈ (s.dropDirs names).dirs.keys) :
    k ∈ s.dirs.keys := by
  obtain ⟨c, hc⟩ := mem_keys_iff.mp h
  rw [find_dropDirs] at hc
  split at hc
  · cases hc
  · exact mem_keys_iff.mpr ⟨c, hc⟩

/-- The manifest that is written is read, but for what was pruned. -/
theorem pruneAndWrite_some (h : s.pruneAndWriteManifest entries = some s') :
    manifestName ∉ s.dirs.keys ∧ manifestName ∉ s'.dirs.keys ∧
      ∀ hash i, s'.loadManifest.find hash = some i → entries.find hash = some i := by
  obtain ⟨written, hw, rfl⟩ := map_eq_some_iff.mp h
  obtain ⟨hnot, rfl⟩ := writeManifest_eq_some.mp hw
  have hnot' : manifestName ∉ (dropDirs { s with
      manifest := some (entries.delete fun e => e.2 ∈ s.pruneTargets) } s.pruneTargets).dirs.keys :=
    fun hmem => hnot (keys_dropDirs hmem)
  refine ⟨hnot, hnot', fun hash i hi => ?_⟩
  rw [loadManifest, if_neg hnot'] at hi
  change (Dict.find (Table.delete entries _) hash) = some i at hi
  rw [Dict.find_delete] at hi
  exact (filter_eq_some_iff.mp hi).1

theorem pruneAndWrite_none (h : s.pruneAndWriteManifest entries = none) :
    manifestName ∈ s.dirs.keys := by
  by_contra hnot
  rw [pruneAndWriteManifest, writeManifest_eq_some.mpr ⟨hnot, rfl⟩] at h
  cases h

variable {hash : String}

theorem named_of_write (h : s.writeManifest (s.loadManifest.set hash id) = some s') :
    Named s s' hash id := by
  obtain ⟨hnot, rfl⟩ := writeManifest_eq_some.mp h
  refine ⟨fun h' i hi => ?_, fun _ hmem => absurd hmem hnot⟩
  rw [loadManifest, if_neg hnot] at hi
  change (s.loadManifest.set hash id).find h' = some i at hi
  rw [find_set] at hi
  split at hi
  · rename_i he
    exact .inl ⟨he.symm, (some.inj hi).symm⟩
  · exact .inr hi

theorem named_of_prune {c : Checkpoint}
    (h : pruneAndWriteManifest { s with dirs := s.dirs.set id c }
      (s.loadManifest.set hash id) = some s') : Named s s' hash id := by
  obtain ⟨-, hnot, hentries⟩ := pruneAndWrite_some h
  refine ⟨fun h' i hi => ?_, fun _ hmem => absurd hmem hnot⟩
  have hset := hentries h' i hi
  rw [find_set] at hset
  split at hset
  · rename_i he
    exact .inl ⟨he.symm, (some.inj hset).symm⟩
  · exact .inr hset

theorem named_of_dir {c : Checkpoint}
    (h : pruneAndWriteManifest { s with dirs := s.dirs.set id c } entries = none)
    (hfree : ¬ (id = manifestName ∧ id ∉ s.dirs.keys ∧ s.manifest.isSome)) :
    Named s { s with dirs := s.dirs.set id c } hash id := by
  have hdir := pruneAndWrite_none h
  refine ⟨fun h' i hi => ?_, fun hold _ => ?_⟩
  · rw [loadManifest_of_dir hdir] at hi
    cases hi
  · rcases (mem_keys_set _ _ _ _).mp hdir with hid | hmem
    · by_cases hthere : manifestName ∈ s.dirs.keys
      · exact hold hthere
      · rw [← hid] at hfree
        simpa [hthere] using hfree
    · exact hold hmem

/-- What `take` does. -/
inductive Took (p : Prepared) (checkpointId : Option String) (out : Saved) : Prop where
  | reused (existing : String)
      (found : p.store.reusable checkpointId p.checkpoint.descriptor.contentHash = some existing)
      (store : out.store = p.store) (wrote : out.wrote = false)
      (result : ∀ t, out.result = .ok t → t.checkpointId = existing)
  | same (new : p.store.reusable checkpointId p.checkpoint.descriptor.contentHash = none)
      (records : p.store.records p.id p.checkpoint.descriptor.contentHash = true)
      (dirs : out.store.dirs = p.store.dirs) (wrote : out.wrote = false)
      (named : Named p.store out.store p.checkpoint.descriptor.contentHash p.id)
      (result : ∀ t, out.result = .ok t → t.checkpointId = p.id)
  | blocked (store : out.store = p.store) (wrote : out.wrote = false)
      (result : ∀ t, out.result ≠ .ok t)
  | written (new : p.store.reusable checkpointId p.checkpoint.descriptor.contentHash = none)
      (other : p.store.records p.id p.checkpoint.descriptor.contentHash = false)
      (dirs : ∀ k c, out.store.dirs.find k = some c →
        (k = p.id ∧ c = p.checkpoint) ∨ (k ≠ p.id ∧ p.store.dirs.find k = some c))
      (wrote : out.wrote = true)
      (named : Named p.store out.store p.checkpoint.descriptor.contentHash p.id)
      (result : ∀ t, out.result = .ok t → t.checkpointId = p.id)

theorem took (p : Prepared) (checkpointId : Option String) :
    Took p checkpointId (p.take checkpointId) := by
  have hdirs : ∀ k c, ({ p.store with dirs := p.store.dirs.set p.id p.checkpoint } :
      CheckpointStore).dirs.find k = some c →
        (k = p.id ∧ c = p.checkpoint) ∨ (k ≠ p.id ∧ p.store.dirs.find k = some c) := by
    intro k c hk
    rw [find_set] at hk
    split at hk
    · rename_i he
      exact .inl ⟨he.symm, (some.inj hk).symm⟩
    · rename_i he
      exact .inr ⟨Ne.symm he, hk⟩
  unfold Prepared.take
  dsimp only
  cases hr : p.store.reusable checkpointId p.checkpoint.descriptor.contentHash with
  | some existing => exact .reused existing hr rfl rfl fun t ht => by rw [← ok.inj ht]
  | none =>
    cases hrec : p.store.records p.id p.checkpoint.descriptor.contentHash with
    | true =>
      dsimp only
      rw [if_pos rfl]
      split
      · rename_i s hs
        exact .same hr hrec (writeManifest_dirs hs) rfl (named_of_write hs)
          fun t ht => by rw [← ok.inj ht]
      · exact .same hr hrec rfl rfl ⟨fun _ _ h => .inr h, fun h => h⟩
          fun t ht => by cases ht
    | false =>
      dsimp only
      rw [if_neg Bool.false_ne_true]
      split
      · exact .blocked rfl rfl fun t ht => by cases ht
      rename_i hfree
      split
      · rename_i s hs
        exact .written hr hrec (fun k c hk => hdirs k c (find_pruneAndWrite hs hk)) rfl
          (named_of_prune hs) fun t ht => by rw [← ok.inj ht]
      · rename_i hs
        exact .written hr hrec hdirs rfl (named_of_dir hs hfree) fun t ht => by cases ht

end Directories

/-! ## Runs -/

section Runs

variable (sha256 : String → String) (R : FloatRepr)

/-- A call on the checkpoints of the session. -/
inductive Call where
  | snapshot (now : Nat) (D : SessionData) (mapspec : Json) (checkpointId : Option String)
  | discard (id : String)
  | prune

/-- The store, and the specification that each id was returned for. -/
structure Ledger where
  store : CheckpointStore
  held : List (String × Json)

/-- The directory of this id has not been removed. -/
def stays (s s' : CheckpointStore) (id : String) : Bool :=
  decide (id ∈ s.dirs.keys → id ∈ s'.dirs.keys)

def Ledger.step (l : Ledger) : Call → Ledger
  | .snapshot now D mapspec checkpointId =>
    let out := snapshot sha256 R D now l.store mapspec checkpointId
    let held := l.held.filter fun h =>
      stays l.store out.store h.1 && !(out.wrote && decide (checkpointId = some h.1))
    { store := out.store
      held :=
        match out.result with
        | .ok t => (t.checkpointId, mapspec) :: held
        | .error _ => held }
  | .discard id =>
    let store := (discardCheckpoint l.store id).1
    { store := store
      held := l.held.filter fun h => stays l.store store h.1 && decide (h.1 ≠ id) }
  | .prune =>
    let store := l.store.pruneAutoCheckpoints
    { store := store, held := l.held.filter fun h => stays l.store store h.1 }

/-- The same specification, whatever the order of its keys. -/
def SameSpec (v w : Json) : Prop := sortKeys v = sortKeys w

/-- The directory, if there is one, has this specification. -/
def CheckpointStore.Holds (s : CheckpointStore) (id : String) (mapspec : Json) : Prop :=
  ∀ c, s.dirs.find id = some c → SameSpec c.mapspec mapspec

/-- A snapshot takes a directory for its own only if that has its specification, and an automatic
    one writes under no name that is held for another. -/
def Ledger.Sound (l : Ledger) : Call → Prop
  | .snapshot now D mapspec checkpointId =>
    ∀ p, prepare sha256 R D now l.store mapspec checkpointId = .ok p →
      match p.store.reusable checkpointId p.checkpoint.descriptor.contentHash with
      | some existing => l.store.Holds existing mapspec
      | none =>
        if p.store.records p.id p.checkpoint.descriptor.contentHash then
          l.store.Holds p.id mapspec
        else
          checkpointId ≠ some p.id → ∀ mapspec', (p.id, mapspec') ∈ l.held →
            SameSpec mapspec mapspec'
  | .discard _ => True
  | .prune => True

/-- Every id that is held has its specification. -/
def Ledger.Kept (l : Ledger) : Prop := ∀ h ∈ l.held, l.store.Holds h.1 h.2

variable {sha256 R}

variable {p : Prepared} {mapspec : Json} {D : SessionData} {checkpointId : Option String}
  {now : Nat}

theorem prepare_dirs {s : CheckpointStore}
    (h : prepare sha256 R D now s mapspec checkpointId = .ok p) :
    p.store.dirs = s.dirs ∧ p.checkpoint.mapspec = mapspec := by
  unfold prepare at h
  dsimp only at h
  split at h
  · cases h
  split at h
  · cases h
  split at h
  · cases h
  rw [← ok.inj h]
  exact ⟨rfl, rfl⟩

variable {l : Ledger}

theorem Ledger.Kept.sub (h : l.Kept) {s' : CheckpointStore} {held : List (String × Json)}
    (hs : ∀ k c, s'.dirs.find k = some c → l.store.dirs.find k = some c)
    (hh : ∀ x ∈ held, x ∈ l.held) : Ledger.Kept { store := s', held := held } :=
  fun x hx c hc => h x (hh x hx) c (hs x.1 c hc)

/-- What a snapshot leaves held: its own return value, and what was held before and has not been
    written anew under its id. -/
theorem mem_held_snapshot (hp : prepare sha256 R D now l.store mapspec checkpointId = .ok p)
    {x : String × Json} (hx : x ∈ (l.step sha256 R (.snapshot now D mapspec checkpointId)).held) :
    (x ∈ l.held ∧ ((p.take checkpointId).wrote → checkpointId ≠ some x.1)) ∨
      (x.2 = mapspec ∧ ∃ t, (p.take checkpointId).result = .ok t ∧ x.1 = t.checkpointId) := by
  have hout : snapshot sha256 R D now l.store mapspec checkpointId = p.take checkpointId := by
    unfold Mapspec.snapshot
    rw [hp]
  have hold : x ∈ l.held.filter (fun h => stays l.store (p.take checkpointId).store h.1 &&
      !((p.take checkpointId).wrote && decide (checkpointId = some h.1))) →
      x ∈ l.held ∧ ((p.take checkpointId).wrote → checkpointId ≠ some x.1) := by
    intro hx
    obtain ⟨hmem, hcond⟩ := mem_filter.mp hx
    refine ⟨hmem, fun hw he => ?_⟩
    have hnot := (Bool.and_eq_true_iff.mp hcond).2
    rw [hw, decide_eq_true he] at hnot
    cases hnot
  unfold Ledger.step at hx
  dsimp only at hx
  rw [hout] at hx
  split at hx
  · rename_i t ht
    rcases mem_cons.mp hx with rfl | hx
    · exact .inr ⟨rfl, t, ht, rfl⟩
    · exact .inl (hold hx)
  · exact .inl (hold hx)

theorem Ledger.kept_snapshot (l : Ledger) (h : l.Kept)
    (hs : l.Sound sha256 R (.snapshot now D mapspec checkpointId)) :
    (l.step sha256 R (.snapshot now D mapspec checkpointId)).Kept := by
  cases hp : prepare sha256 R D now l.store mapspec checkpointId with
  | error e =>
    have hout : snapshot sha256 R D now l.store mapspec checkpointId =
        { store := l.store, wrote := false, result := .error e } := by
      unfold Mapspec.snapshot
      rw [hp]
    unfold Ledger.step
    dsimp only
    rw [hout]
    exact h.sub (fun _ _ hk => hk) fun x hx => (mem_filter.mp hx).1
  | ok p =>
    have hstore : (l.step sha256 R (.snapshot now D mapspec checkpointId)).store =
        (p.take checkpointId).store := by
      show (snapshot sha256 R D now l.store mapspec checkpointId).store = _
      unfold Mapspec.snapshot
      rw [hp]
    obtain ⟨hdirs, hspec⟩ := prepare_dirs hp
    have hsound := hs p hp
    intro x hx c hc
    rw [hstore] at hc
    have hx := mem_held_snapshot hp hx
    cases took p checkpointId with
    | reused existing found store wrote result =>
      rw [found] at hsound
      rw [store, hdirs] at hc
      rcases hx with ⟨hold, -⟩ | ⟨hx2, t, ht, hx1⟩
      · exact h x hold c hc
      · rw [hx2]
        exact hsound c (result t ht ▸ hx1 ▸ hc)
    | same new records dirs wrote named result =>
      rw [new] at hsound
      rw [if_pos records] at hsound
      rw [dirs, hdirs] at hc
      rcases hx with ⟨hold, -⟩ | ⟨hx2, t, ht, hx1⟩
      · exact h x hold c hc
      · rw [hx2]
        exact hsound c (result t ht ▸ hx1 ▸ hc)
    | blocked store wrote result =>
      rw [store, hdirs] at hc
      rcases hx with ⟨hold, -⟩ | ⟨-, t, ht, -⟩
      · exact h x hold c hc
      · exact absurd ht (result t)
    | written new other dirs wrote named result =>
      rw [new] at hsound
      rw [if_neg (by rw [other]; exact Bool.false_ne_true)] at hsound
      rcases dirs x.1 c hc with ⟨hk, rfl⟩ | ⟨hk, hc⟩
      · rcases hx with ⟨hold, hne⟩ | ⟨hx2, -⟩
        · rw [hspec]
          exact hsound (hk ▸ hne wrote) x.2 (hk ▸ hold)
        · rw [hspec, hx2]
          rfl
      · rw [hdirs] at hc
        rcases hx with ⟨hold, -⟩ | ⟨-, t, ht, hx1⟩
        · exact h x hold c hc
        · exact absurd (hx1.trans (result t ht)) hk

variable {call : Call}

theorem Ledger.Kept.step (h : l.Kept) (hs : l.Sound sha256 R call) :
    (l.step sha256 R call).Kept := by
  cases call with
  | snapshot now D mapspec checkpointId => exact l.kept_snapshot h hs
  | discard id =>
    exact h.sub (fun _ _ hk => find_discard hk) fun x hx => (mem_filter.mp hx).1
  | prune => exact h.sub (fun _ _ hk => find_pruneAuto hk) fun x hx => (mem_filter.mp hx).1

variable (sha256 R) in
/-- The ledger after a run. -/
def Ledger.run (l : Ledger) (calls : List Call) : Ledger := calls.foldl (Ledger.step sha256 R) l

variable (sha256 R) in
/-- Every call of a run is sound where it is made. -/
def Ledger.SoundRun : Ledger → List Call → Prop
  | _, [] => True
  | l, call :: calls => l.Sound sha256 R call ∧ Ledger.SoundRun (l.step sha256 R call) calls

variable {calls : List Call}

theorem Ledger.Kept.run (h : l.Kept) (hs : l.SoundRun sha256 R calls) :
    (l.run sha256 R calls).Kept := by
  induction calls generalizing l with
  | nil => exact h
  | cons call calls ih => exact ih (h.step hs.1) hs.2

variable {id : String}

theorem rollback_eq_some {s : CheckpointStore} (h : rollback D s id = some mapspec) :
    ∃ c, s.dirs.find id = some c ∧ c.mapspec = mapspec := by
  unfold rollback at h
  split at h
  · obtain ⟨c, hc, h⟩ := bind_eq_some_iff.mp h
    split at h
    · exact ⟨c, hc, some.inj h⟩
    · cases h
  · cases h

def titled (title : String) : Json := .obj [("title", .str title)]

def noRefs : SessionData :=
  { get := fun _ => none, listed := [], image := fun _ => false, overwrite := fun _ => false }

def emptyLedger : Ledger :=
  { store := { dirs := Dict.empty, blobs := Dict.empty, manifest := none }, held := [] }

/-- SHA-256 on the two texts that are hashed here. -/
def someDigests (s : String) : String :=
  if s = "\x7b\"title\":\"one\"\x7d\x1f\x7b\x7d" then
    "4153e556c0ab2cfaa3a0b7fe776edfb3dda11215979c9e2c5977f300b0817eca"
  else if s = "\x7b\"title\":\"two\"\x7d\x1f\x7b\x7d" then
    "5af774687bfb4fb68387566ea1b63f06ac9129fa2e097ecf25b285e9c8c13cf1"
  else s

def writtenOver : List Call :=
  [.snapshot 1000 noRefs (titled "one") (some "base"),
    .snapshot 2000 noRefs (titled "two") (some "base"),
    .snapshot 3000 noRefs (titled "one") none]

def twoNames : List Call :=
  [.snapshot 1000 noRefs (titled "one") none,
    .snapshot 2000 noRefs (titled "two") (some "base"), .discard "base"]

theorem contentHash_inj (hinj : Function.Injective sha256) {v w : Json}
    {refs refs' : Dict String String}
    (h : contentHash sha256 R v refs = contentHash sha256 R w refs') : SameSpec v w := by
  have htext := congrArg String.toList (hinj h)
  simp only [dumps, String.toList_append, String.toList_ofList, append_assoc] at htext
  exact (text_append_inj R _ _ (stops_cons rfl) (stops_cons rfl) htext).1

variable (sha256 R) in
/-- The descriptors have the hashes of their contents, and the manifest names a checkpoint for
    the hash that its descriptor has. -/
structure Faithful (s : CheckpointStore) : Prop where
  descriptor : ∀ id c, s.dirs.find id = some c →
    c.descriptor.contentHash = contentHash sha256 R c.mapspec c.descriptor.refs
  manifest : ∀ hash id c, s.loadManifest.find hash = some id → s.dirs.find id = some c →
    c.descriptor.contentHash = hash
  file : manifestName ∈ s.dirs.keys → s.manifest = none

theorem Faithful.holds (hinj : Function.Injective sha256) {s : CheckpointStore}
    (h : Faithful sha256 R s) (refs : Dict String String) (hid : ∀ c, s.dirs.find id = some c →
      c.descriptor.contentHash = contentHash sha256 R mapspec refs) : s.Holds id mapspec :=
  fun c hc => contentHash_inj hinj ((h.descriptor id c hc).symm.trans (hid c hc))

variable (sha256 R) in
/-- A snapshot that writes does so under a name that is not there, is not named by the manifest,
    and is not held. -/
def Ledger.Fresh (l : Ledger) : Call → Prop
  | .snapshot now D mapspec checkpointId =>
    ∀ p, prepare sha256 R D now l.store mapspec checkpointId = .ok p →
      p.store.records p.id p.checkpoint.descriptor.contentHash = false →
        p.id ∉ l.store.dirs.keys ∧ (∀ hash, l.store.loadManifest.find hash ≠ some p.id) ∧
          ∀ mapspec', (p.id, mapspec') ∉ l.held
  | .discard _ => True
  | .prune => True

theorem prepare_spec {s : CheckpointStore}
    (h : prepare sha256 R D now s mapspec checkpointId = .ok p) :
    p.store.manifest = s.manifest ∧ p.checkpoint.descriptor.contentHash =
      contentHash sha256 R mapspec p.checkpoint.descriptor.refs := by
  unfold prepare at h
  dsimp only at h
  split at h
  · cases h
  split at h
  · cases h
  split at h
  · cases h
  rw [← ok.inj h]
  exact ⟨rfl, rfl⟩

theorem loadManifest_congr {s s' : CheckpointStore} (hd : s.dirs = s'.dirs)
    (hm : s.manifest = s'.manifest) : s.loadManifest = s'.loadManifest := by
  unfold loadManifest
  rw [hd, hm]

variable {hash : String}

theorem records_hash {s : CheckpointStore} (h : s.records id hash) {c : Checkpoint}
    (hc : s.dirs.find id = some c) : c.descriptor.contentHash = hash := by
  unfold CheckpointStore.records at h
  rw [hc] at h
  exact of_decide_eq_true h

theorem reusable_named {s : CheckpointStore} (h : s.reusable checkpointId hash = some id) :
    s.loadManifest.find hash = some id := by
  cases checkpointId with
  | none => exact (filter_eq_some_iff.mp h).1
  | some _ => cases h

theorem Ledger.Fresh.sound (hinj : Function.Injective sha256) (hf : l.Fresh sha256 R call)
    (hl : Faithful sha256 R l.store) : l.Sound sha256 R call := by
  cases call with
  | snapshot now D mapspec checkpointId =>
    intro p hp
    obtain ⟨hdirs, -⟩ := prepare_dirs hp
    obtain ⟨hmanifest, hhash⟩ := prepare_spec hp
    split
    · rename_i existing hr
      refine hl.holds hinj p.checkpoint.descriptor.refs fun c hc => ?_
      have hnamed := reusable_named hr
      rw [loadManifest_congr hdirs hmanifest] at hnamed
      exact (hl.manifest _ existing c hnamed hc).trans hhash
    · split
      · rename_i hrec
        refine hl.holds hinj p.checkpoint.descriptor.refs fun c hc => ?_
        exact (records_hash hrec (hdirs ▸ hc)).trans hhash
      · rename_i hrec
        intro _ mapspec' hheld
        exact absurd hheld ((hf p hp (Bool.eq_false_iff.mpr hrec)).2.2 mapspec')
  | discard id => trivial
  | prune => trivial

theorem Faithful.sub {s s' : CheckpointStore} (h : Faithful sha256 R s)
    (hd : ∀ k c, s'.dirs.find k = some c → s.dirs.find k = some c)
    (hm : ∀ hash id, s'.loadManifest.find hash = some id → s.loadManifest.find hash = some id)
    (hf : manifestName ∈ s'.dirs.keys → s'.manifest = none) : Faithful sha256 R s' :=
  ⟨fun id c hc => h.descriptor id c (hd id c hc),
    fun hash id c hn hc => h.manifest hash id c (hm hash id hn) (hd id c hc), hf⟩

theorem Faithful.drop {s : CheckpointStore} (h : Faithful sha256 R s) (names : List String)
    (blobs : Dict String Json) :
    Faithful sha256 R { s.dropDirs names with blobs := blobs } := by
  refine h.sub (fun k c hk => ?_) (fun hash id hid => ?_) fun hmem => h.file (keys_dropDirs hmem)
  · change (s.dropDirs names).dirs.find k = some c at hk
    rw [find_dropDirs] at hk
    split at hk
    · cases hk
    · exact hk
  · unfold loadManifest at hid ⊢
    by_cases hdir : manifestName ∈ s.dirs.keys
    · have hnone : (s.dropDirs names).manifest = none := h.file hdir
      split at hid
      · cases hid
      rw [hnone] at hid
      cases hid
    · rw [if_neg hdir]
      rw [if_neg fun hmem => hdir (keys_dropDirs hmem)] at hid
      exact hid

theorem Faithful.discard {s : CheckpointStore} (h : Faithful sha256 R s) (id : String) :
    Faithful sha256 R (discardCheckpoint s id).1 := by
  unfold discardCheckpoint
  split
  · exact h
  split
  · exact h
  split
  · exact h
  have hremoved := h.drop [id] (if id = blobsName then Dict.empty else s.blobs)
  dsimp only at hremoved ⊢
  split
  · rename_i s' hp
    obtain ⟨-, hnot, hentries⟩ := pruneAndWrite_some hp
    refine hremoved.sub (fun k c hk => find_pruneAndWrite hp hk) (fun hash i hi => ?_)
      fun hmem => absurd hmem hnot
    have hkept := hentries hash i hi
    rw [Dict.find_delete] at hkept
    exact (filter_eq_some_iff.mp hkept).1
  · exact hremoved

theorem Faithful.take (h : Faithful sha256 R l.store)
    (hp : prepare sha256 R D now l.store mapspec checkpointId = .ok p)
    (hf : p.store.records p.id p.checkpoint.descriptor.contentHash = false →
      ∀ hash, l.store.loadManifest.find hash ≠ some p.id) :
    Faithful sha256 R (p.take checkpointId).store := by
  obtain ⟨hdirs, hspec⟩ := prepare_dirs hp
  obtain ⟨hmanifest, hhash⟩ := prepare_spec hp
  have hload := loadManifest_congr hdirs hmanifest
  have hp' : Faithful sha256 R p.store :=
    h.sub (fun _ _ hk => hdirs ▸ hk) (fun _ _ hi => hload ▸ hi) fun hmem => by
      rw [hmanifest]
      exact h.file (hdirs ▸ hmem)
  cases took p checkpointId with
  | reused existing found store wrote result => exact store ▸ hp'
  | same new records dirs wrote named result =>
    refine ⟨fun id c hc => hp'.descriptor id c (dirs ▸ hc), fun hash id c hn hc => ?_,
      named.file hp'.file⟩
    rw [dirs] at hc
    rcases named.entries hash id hn with ⟨rfl, rfl⟩ | hold
    · exact records_hash records hc
    · exact hp'.manifest hash id c hold hc
  | blocked store wrote result => exact store ▸ hp'
  | written new other dirs wrote named result =>
    refine ⟨fun id c hc => ?_, fun hash id c hn hc => ?_, named.file hp'.file⟩
    · rcases dirs id c hc with ⟨-, rfl⟩ | ⟨-, hold⟩
      · rw [hspec]
        exact hhash
      · exact hp'.descriptor id c hold
    · rcases named.entries hash id hn with ⟨rfl, rfl⟩ | hold
      · rcases dirs p.id c hc with ⟨-, rfl⟩ | ⟨hne, -⟩
        · rfl
        · exact absurd rfl hne
      · rcases dirs id c hc with ⟨rfl, -⟩ | ⟨-, hc⟩
        · exact absurd (hload ▸ hold) (hf other hash)
        · exact hp'.manifest hash id c hold hc

theorem Faithful.step (h : Faithful sha256 R l.store) (hf : l.Fresh sha256 R call) :
    Faithful sha256 R (l.step sha256 R call).store := by
  cases call with
  | snapshot now D mapspec checkpointId =>
    show Faithful sha256 R (Mapspec.snapshot sha256 R D now l.store mapspec checkpointId).store
    unfold Mapspec.snapshot
    cases hp : prepare sha256 R D now l.store mapspec checkpointId with
    | error e => exact h
    | ok p => exact h.take hp fun hrec => (hf p hp hrec).2.1
  | discard id => exact h.discard id
  | prune => exact h.drop _ _

variable (sha256 R) in
/-- Every call of a run is fresh where it is made. -/
def Ledger.FreshRun : Ledger → List Call → Prop
  | _, [] => True
  | l, call :: calls => l.Fresh sha256 R call ∧ Ledger.FreshRun (l.step sha256 R call) calls

theorem Ledger.FreshRun.sound (hinj : Function.Injective sha256) (hf : l.FreshRun sha256 R calls)
    (hl : Faithful sha256 R l.store) : l.SoundRun sha256 R calls := by
  induction calls generalizing l with
  | nil => trivial
  | cons call calls ih => exact ⟨hf.1.sound hinj hl, ih hf.2 (hl.step hf.1)⟩

/-- Without collisions, a rollback returns what its id was returned for, in every run that writes
    over no checkpoint. -/
theorem fresh_rollback {sha256 : String → String} {R : FloatRepr}
    (hinj : Function.Injective sha256) {s : CheckpointStore} (hs : Faithful sha256 R s)
    {calls : List Call} (hf : Ledger.FreshRun sha256 R { store := s, held := [] } calls)
    {id : String} {mapspec : Json}
    (hheld : (id, mapspec) ∈ (Ledger.run sha256 R { store := s, held := [] } calls).held)
    {D : SessionData} {mapspec' : Json}
    (hback : rollback D (Ledger.run sha256 R { store := s, held := [] } calls).store id =
      some mapspec') : SameSpec mapspec' mapspec := by
  have hempty : Ledger.Kept { store := s, held := [] } := fun _ hx => absurd hx not_mem_nil
  obtain ⟨c, hc, rfl⟩ := rollback_eq_some hback
  exact hempty.run (hf.sound hinj hs) (id, mapspec) hheld c hc

theorem fresh_rollback_once :
    rollback noRefs (emptyLedger.run (fun s => s) default (writtenOver.take 1)).store "base" =
        some (titled "one") ∧ SameSpec (titled "one") (titled "one") := by
  have hfaithful : Faithful (fun s => s) default emptyLedger.store :=
    ⟨fun _ _ h => absurd h (Option.some_ne_none _).symm,
      fun _ _ _ h => absurd h (Option.some_ne_none _).symm, fun _ => rfl⟩
  have hfresh : emptyLedger.FreshRun (fun s => s) default (writtenOver.take 1) := by
    refine ⟨fun p hp _ => ?_, trivial⟩
    change ok _ = ok p at hp
    cases hp
    exact ⟨not_mem_nil, fun _ => (Option.some_ne_none _).symm, fun _ => not_mem_nil⟩
  have hback : rollback noRefs (emptyLedger.run (fun s => s) default
      (writtenOver.take 1)).store "base" = some (titled "one") := by rfl
  exact ⟨hback, fresh_rollback (fun _ _ h => h) hfaithful hfresh (.head _) hback⟩

end Runs

end WebGis.Mapspec
