/-
  What is open when an event has been processed.

  A fire that a worker finds `executing` counts as a duplicate, whoever is supposed to be executing
  it: after a crash between the claims of the event and of the fire, the retry settles the event and
  the action is lost (`crashed_open`). Where fires are written by the worker that has the event, a
  claim never meets a fire in execution, and no mission turns out to be there already (`careful`),
  every fire of an event that becomes processed is final (`processed_settled`).
-/
import WebGis.Events.Drain
import WebGis.Data.Play

namespace WebGis.Events

open Data List Option Dict EventTable DrainWorld EventRow

/-- The action is still to come. -/
def Task.Owes (watchId : String) (action : TriggerAction) : Task → Prop
  | evaluate W watch => W = watchId ∧ action ∈ watch.actions
  | act W todo => W = watchId ∧ action ∈ todo
  | record W x todo => W = watchId ∧ (action = x ∨ action ∈ todo)
  | claim W x todo => W = watchId ∧ (action = x ∨ action ∈ todo)
  | execute W x todo => W = watchId ∧ (action = x ∨ action ∈ todo)
  | update W x todo _ => W = watchId ∧ (action = x ∨ action ∈ todo)
  | _ => False

def Attempt.Owes (a : Attempt) (watchId : String) (action : TriggerAction) : Prop :=
  a.task.Owes watchId action ∨ ∃ watch, (watchId, watch) ∈ a.rest ∧ action ∈ watch.actions

/-- The watch is one of these, with the actions among its own. -/
def FromWatch (watches : List (String × SpatialWatch)) (watchId : String)
    (actions : List TriggerAction) : Prop :=
  ∃ watch, (watchId, watch) ∈ watches ∧ ∀ action ∈ actions, action ∈ watch.actions

/-- The action is for the mission bridge, and there is one. -/
def DrainConfig.ForMission (cfg : DrainConfig) (action : TriggerAction) : Prop :=
  action ≠ .notifyOnly ∧ cfg.missionBridge = true

/-- The task is about one of the watches. -/
def Task.Planned (cfg : DrainConfig) (watches : List (String × SpatialWatch)) : Task → Prop
  | evaluate W watch => FromWatch watches W watch.actions
  | act W todo => FromWatch watches W todo
  | record W x todo => FromWatch watches W (x :: todo) ∧ cfg.ForMission x
  | claim W x todo => FromWatch watches W (x :: todo) ∧ cfg.ForMission x
  | execute W x todo => FromWatch watches W (x :: todo) ∧ cfg.ForMission x
  | update W x todo _ => FromWatch watches W (x :: todo) ∧ cfg.ForMission x
  | _ => True

namespace DrainWorld

/-- The worker has the row. -/
def owns (w : DrainWorld) (owner : String) (rowId : Nat) : Bool :=
  (w.events.find rowId).any fun row => row.claimedFor owner

/-- The fire that is to be claimed is not in execution. -/
def mayClaim (w : DrainWorld) (a : Attempt) : Bool :=
  match a.task with
  | .claim watchId action _ =>
    (w.fires.find (watchId, a.row, action)).all fun f => f.outcome ≠ .executing
  | _ => true

def mayWork (w : DrainWorld) (owner : String) (a : Attempt) : WorkStep → Bool
  | .look => w.owns owner a.row
  | .record => w.owns owner a.row
  | .claim => w.owns owner a.row && w.mayClaim a
  | .execute result => result ≠ some .duplicate
  | .update => w.owns owner a.row
  | _ => true

/-- Fires are written by the worker that has the event, a fire in execution is not come to, and no
    mission was created before. -/
def careful (w : DrainWorld) : DrainAction → Bool
  | .work owner s => (w.drains.find owner).all fun d => d.attempt.all fun a => w.mayWork owner a s
  | _ => true

variable {cfg : DrainConfig} {w w' : DrainWorld} {owner : String} {d : Drain} {a a' : Attempt}

/-- What a worker knows of the fires of the row that it has. -/
structure Fits (fires : Dict FireKey WatchFire) (a : Attempt) : Prop where
  covered : ∀ W act f, fires.find (W, a.row, act) = some f → f.outcome.final = false →
    a.deferred = true ∨ a.Owes W act
  evaluating : ∀ W watch, a.task = .evaluate W watch → ∀ act, fires.find (W, a.row, act) = none
  recording : ∀ W act todo, a.task = .record W act todo → fires.find (W, a.row, act) = none
  updating : ∀ W act todo o, a.task = .update W act todo o → o.final = true ∨ o = .deferred
  stopped : a.task = .stop → a.deferred = true

/-- The attempt goes through watches of its row. -/
def Planned (cfg : DrainConfig) (w : DrainWorld) (a : Attempt) : Prop :=
  ∃ row, w.events.find a.row = some row ∧ (∀ kv ∈ a.rest, kv ∈ cfg.watchesFor row) ∧
    a.task.Planned cfg (cfg.watchesFor row)

/-- The fire is one of an action of a watch of its event. -/
def Known (cfg : DrainConfig) (events : EventTable) (key : FireKey) : Prop :=
  ∃ row watch, events.find key.2.1 = some row ∧ (key.1, watch) ∈ cfg.watchesFor row ∧
    key.2.2 ∈ watch.actions

/-- An outcome that is not final is that of a mission, and is not `duplicate`. -/
def Proper (cfg : DrainConfig) (key : FireKey) (o : FireOutcome) : Prop :=
  o ≠ .duplicate ∧ (o.final = false → cfg.ForMission key.2.2)

structure Sound (cfg : DrainConfig) (w : DrainWorld) : Prop where
  fits : ∀ owner d a, w.drains.find owner = some d → d.attempt = some a →
    w.owns owner a.row = true → Fits w.fires a
  planned : ∀ owner d a, w.drains.find owner = some d → d.attempt = some a → Planned cfg w a
  fires : ∀ key f, w.fires.find key = some f → Known cfg w.events key ∧ Proper cfg key f.outcome
  fresh : ∀ id row, w.events.find id = some row → id < w.nextId

/-! ## Rows -/

variable {row : EventRow}

theorem watchesFor_congr {row' : EventRow} (h : row'.subject = row.subject) :
    cfg.watchesFor row' = cfg.watchesFor row := by
  unfold subject at h
  simp only [Prod.mk.injEq] at h
  obtain ⟨horg, hkind, hkey, hsession, hproject⟩ := h
  unfold DrainConfig.watchesFor SpatialWatch.matchesEvent
  rw [horg, hkind, hkey, hsession, hproject]

/-- The rows are the same and about the same, and only `gained` comes to have more of them. -/
structure Keeps (events events' : EventTable) (gained : Option String) : Prop where
  same : ∀ id row, events.find id = some row →
    ∃ row', events'.find id = some row' ∧ row'.subject = row.subject
  back : ∀ id row', events'.find id = some row' → ∃ row, events.find id = some row ∧
    ∀ o, row'.claimedFor o = true → gained = some o ∨ row.claimedFor o = true

/-- No row becomes processed. -/
def Unprocessed (events events' : EventTable) : Prop :=
  ∀ id row', events'.find id = some row' → row'.status = .processed →
    ∃ row, events.find id = some row ∧ row.status = .processed

variable {p : Nat → EventRow → Bool} {f : EventRow → EventRow} {gained : Option String}

theorem keeps_updateWhere {events : EventTable} (hsubject : ∀ row, (f row).subject = row.subject)
    (howner : ∀ id row o, p id row → (f row).claimedFor o →
      gained = some o ∨ row.claimedFor o) :
    Keeps events (events.updateWhere p f) gained where
  same id row hrow := by
    rw [find_updateWhere, hrow]
    refine ⟨_, rfl, ?_⟩
    dsimp only
    split
    · exact hsubject row
    · rfl
  back id row' hrow := by
    obtain ⟨row, hold, rfl⟩ := find_updateWhere_some hrow
    refine ⟨row, hold, fun o hclaimed => ?_⟩
    split at hclaimed
    · rename_i hp
      exact howner id row o hp hclaimed
    · exact .inr hclaimed

theorem unprocessed_updateWhere {events : EventTable}
    (h : ∀ row, (f row).status = .processed → row.status = .processed) :
    Unprocessed events (events.updateWhere p f) := by
  intro id row' hrow hdone
  obtain ⟨row, hold, rfl⟩ := find_updateWhere_some hrow
  split at hdone
  · exact ⟨row, hold, h row hdone⟩
  · exact ⟨row, hold, hdone⟩

theorem claimedFor_claim {owner' : String} {now : Nat} {o : String}
    (h : (row.claim owner' now).claimedFor o) : owner' = o := by
  simpa [claimedFor, claim] using h

theorem not_claimedFor (h : row.claimedBy = none) (o : String) : row.claimedFor o = false := by
  simp [claimedFor, h]

theorem Keeps.refl (events : EventTable) : Keeps events events none where
  same _ row hrow := ⟨row, hrow, rfl⟩
  back _ row hrow := ⟨row, hrow, fun _ hclaimed => .inr hclaimed⟩

theorem keeps_released {events : EventTable} (hsubject : ∀ row, (f row).subject = row.subject)
    (hnone : ∀ row, (f row).claimedBy = none) : Keeps events (events.updateWhere p f) none :=
  keeps_updateWhere hsubject fun _ row o _ h => by
    rw [not_claimedFor (hnone row)] at h
    cases h

theorem keeps_coalesce (events : EventTable) (passed : List Nat) (rows : List (Nat × EventRow)) :
    Keeps events (events.coalesce passed rows) none where
  same id row hrow := by
    obtain ⟨row', hrow', hmerged⟩ := (mergedTable_coalesce events passed rows).forth hrow
    exact ⟨row', hrow', hmerged.subject⟩
  back id row' hrow := by
    obtain ⟨row, hrow, hmerged⟩ := (mergedTable_coalesce events passed rows).back hrow
    refine ⟨row, hrow, fun o hclaimed => .inr ?_⟩
    unfold claimedFor at hclaimed ⊢
    rw [hmerged.claimedBy] at hclaimed
    rcases hmerged.status with hstatus | hstatus
    · rwa [hstatus] at hclaimed
    · rw [hstatus] at hclaimed
      cases hclaimed

theorem unprocessed_coalesce (events : EventTable) (passed : List Nat)
    (rows : List (Nat × EventRow)) : Unprocessed events (events.coalesce passed rows) := by
  intro id row' hrow hdone
  obtain ⟨row, hrow, hmerged⟩ := (mergedTable_coalesce events passed rows).back hrow
  refine ⟨row, hrow, ?_⟩
  rcases hmerged.status with hstatus | hstatus
  · rwa [hstatus] at hdone
  · rw [hstatus] at hdone
    cases hdone

/-! ## Worlds -/

variable {rowId : Nat}

theorem owns_iff : w.owns owner rowId ↔
    ∃ row, w.events.find rowId = some row ∧ row.claimedFor owner :=
  Option.any_eq_true _ _

theorem owner_unique {o o' : String} (h : w.owns o rowId) (h' : w.owns o' rowId) :
    o = o' := by
  obtain ⟨row, hrow, hclaimed⟩ := owns_iff.mp h
  obtain ⟨row', hrow', hclaimed'⟩ := owns_iff.mp h'
  rw [hrow] at hrow'
  cases hrow'
  unfold claimedFor at hclaimed hclaimed'
  simp only [Bool.and_eq_true, decide_eq_true_eq] at hclaimed hclaimed'
  rw [hclaimed.2] at hclaimed'
  exact some.inj hclaimed'.2

variable {key : FireKey}

theorem Known.events {events events' : EventTable} (h : Known cfg events key)
    (hk : Keeps events events' gained) : Known cfg events' key := by
  obtain ⟨row, watch, hrow, hwatch, haction⟩ := h
  obtain ⟨row', hrow', hsame⟩ := hk.same _ row hrow
  refine ⟨row', watch, hrow', ?_, haction⟩
  rwa [watchesFor_congr hsame]

theorem Sound.events (hs : Sound cfg w) {events : EventTable} (hk : Keeps w.events events gained)
    (hnew : ∀ o, gained = some o → w.drains.find o = none) :
    Sound cfg { w with events := events } where
  fits owner d a hd ha howns := by
    refine hs.fits owner d a hd ha ?_
    obtain ⟨row', hrow', hclaimed⟩ := owns_iff.mp howns
    obtain ⟨row, hrow, hback⟩ := hk.back a.row row' hrow'
    rcases hback owner hclaimed with hgained | hold
    · rw [hnew owner hgained] at hd
      cases hd
    · exact owns_iff.mpr ⟨row, hrow, hold⟩
  planned owner d a hd ha := by
    obtain ⟨row, hrow, hrest, htask⟩ := hs.planned owner d a hd ha
    obtain ⟨row', hrow', hsame⟩ := hk.same _ row hrow
    refine ⟨row', hrow', ?_, ?_⟩
    · rwa [watchesFor_congr hsame]
    · rwa [watchesFor_congr hsame]
  fires key f hf := by
    obtain ⟨hknown, hproper⟩ := hs.fires key f hf
    exact ⟨hknown.events hk, hproper⟩
  fresh id row' hrow' := by
    obtain ⟨row, hrow, -⟩ := hk.back id row' hrow'
    exact hs.fresh id row hrow

variable {fires fires' : Dict FireKey WatchFire}

theorem Fits.congr (h : Fits fires a)
    (hsame : ∀ W act, fires'.find (W, a.row, act) = fires.find (W, a.row, act)) :
    Fits fires' a where
  covered W act f hf := by
    rw [hsame] at hf
    exact h.covered W act f hf
  evaluating W watch ht act := by
    rw [hsame]
    exact h.evaluating W watch ht act
  recording W act todo ht := by
    rw [hsame]
    exact h.recording W act todo ht
  updating := h.updating
  stopped := h.stopped

/-- The fires change for the row of the worker only. -/
def Local (w : DrainWorld) (owner : String) (rowId : Nat) (fires : Dict FireKey WatchFire) : Prop :=
  fires = w.fires ∨ w.owns owner rowId = true ∧
    ∀ key : FireKey, key.2.1 ≠ rowId → fires.find key = w.fires.find key

theorem Sound.goTo (hs : Sound cfg w) (hd : w.drains.find owner = some d) (ha : d.attempt = some a)
    (hrow : a'.row = a.row) (hplan : ∀ ws, (∀ kv ∈ a.rest, kv ∈ ws) → a.task.Planned cfg ws →
      (∀ kv ∈ a'.rest, kv ∈ ws) ∧ a'.task.Planned cfg ws) (hlocal : Local w owner a.row fires)
    (hfires : ∀ key f, fires.find key = some f → Known cfg w.events key ∧ Proper cfg key f.outcome)
    (hfits : w.owns owner a.row → Fits w.fires a → Fits fires a') :
    Sound cfg ({ w with fires := fires }.goTo owner d a') where
  fits o d' b hd' hb howns := by
    dsimp only [DrainWorld.goTo, putDrain] at hd'
    rw [find_set] at hd'
    split at hd'
    · rename_i ho
      subst ho
      cases hd'
      cases hb
      have howns' : w.owns owner a.row := by rwa [hrow] at howns
      exact hfits howns' (hs.fits owner d a hd ha howns')
    · rename_i ho
      refine (hs.fits o d' b hd' hb howns).congr fun W act => ?_
      rcases hlocal with hsame | ⟨howns', hother⟩
      · rw [DrainWorld.goTo, putDrain, hsame]
      refine hother (W, b.row, act) fun heq => ho ?_
      have howns'' : w.owns o a.row := by
        dsimp only at heq
        rwa [heq] at howns
      exact owner_unique howns' howns''
  planned o d' b hd' hb := by
    dsimp only [DrainWorld.goTo, putDrain] at hd'
    rw [find_set] at hd'
    split at hd'
    · cases hd'
      cases hb
      obtain ⟨row, hfind, hrest, htask⟩ := hs.planned owner d a hd ha
      refine ⟨row, ?_, hplan _ hrest htask⟩
      rw [hrow]
      exact hfind
    · exact hs.planned o d' b hd' hb
  fires := hfires
  fresh := hs.fresh

theorem Sound.putDrain (hs : Sound cfg w) (hnone : d.attempt = none) :
    Sound cfg (w.putDrain owner d) where
  fits o d' b hd' hb := by
    rw [DrainWorld.putDrain, find_set] at hd'
    split at hd'
    · cases hd'
      rw [hnone] at hb
      cases hb
    · exact hs.fits o d' b hd' hb
  planned o d' b hd' hb := by
    rw [DrainWorld.putDrain, find_set] at hd'
    split at hd'
    · cases hd'
      rw [hnone] at hb
      cases hb
    · exact hs.planned o d' b hd' hb
  fires := hs.fires
  fresh := hs.fresh

theorem Sound.crash (hs : Sound cfg w) (owner : String) :
    Sound cfg { w with drains := Table.delete w.drains fun kv => kv.1 = owner } where
  fits o d' b hd' := by
    rw [find_delete_key] at hd'
    split at hd'
    · cases hd'
    · exact hs.fits o d' b hd'
  planned o d' b hd' := by
    rw [find_delete_key] at hd'
    split at hd'
    · cases hd'
    · exact hs.planned o d' b hd'
  fires := hs.fires
  fresh := hs.fresh

/-! ## Sweeps -/

variable {olderThan : Nat}

theorem find_requeued {f : WatchFire}
    (h : (w.requeueStaleFires olderThan).fires.find key = some f) :
    ∃ f₀, w.fires.find key = some f₀ ∧
      (f.outcome = f₀.outcome ∨ f₀.outcome = .executing ∧ f.outcome = .pending) := by
  obtain ⟨f₀, hf₀, rfl⟩ := find_updateWhere_some h
  refine ⟨f₀, hf₀, ?_⟩
  split
  · rename_i hp
    rw [Bool.and_eq_true, decide_eq_true_eq] at hp
    exact .inr ⟨hp.1, rfl⟩
  · exact .inl rfl

theorem find_requeued_none (h : w.fires.find key = none) :
    (w.requeueStaleFires olderThan).fires.find key = none := by
  dsimp only [requeueStaleFires]
  rw [find_updateWhere, h]
  rfl

theorem Fits.requeued (h : Fits w.fires a) (olderThan : Nat) :
    Fits (w.requeueStaleFires olderThan).fires a where
  covered W act f hf hopen := by
    obtain ⟨f₀, hf₀, hsame | ⟨hexec, -⟩⟩ := find_requeued hf
    · exact h.covered W act f₀ hf₀ (hsame ▸ hopen)
    · exact h.covered W act f₀ hf₀ (by rw [hexec]; rfl)
  evaluating W watch ht act := find_requeued_none (h.evaluating W watch ht act)
  recording W act todo ht := find_requeued_none (h.recording W act todo ht)
  updating := h.updating
  stopped := h.stopped

theorem Sound.requeued (hs : Sound cfg w) (olderThan : Nat) :
    Sound cfg (w.requeueStaleFires olderThan) where
  fits o d b hd hb howns := (hs.fits o d b hd hb howns).requeued olderThan
  planned := hs.planned
  fires key f hf := by
    obtain ⟨f₀, hf₀, hsame | ⟨hexec, hpending⟩⟩ := find_requeued hf
    · obtain ⟨hknown, hproper⟩ := hs.fires key f₀ hf₀
      exact ⟨hknown, hsame ▸ hproper⟩
    · obtain ⟨hknown, -, hopen⟩ := hs.fires key f₀ hf₀
      refine ⟨hknown, by simp [hpending], fun _ => hopen ?_⟩
      rw [hexec]
      rfl
  fresh := hs.fresh

/-! ## Writes -/

theorem find_recordFire (key : FireKey) (o : FireOutcome) :
    (w.recordFire key o).fires.find key = some ((w.fires.find key).getD { outcome := o }) := by
  unfold recordFire
  cases hf : w.fires.find key with
  | some f => exact hf
  | none => exact find_set_self _ _ _

variable {key' : FireKey}

theorem find_recordFire_ne (o : FireOutcome) (h : key' ≠ key) :
    (w.recordFire key o).fires.find key' = w.fires.find key' := by
  unfold recordFire
  cases w.fires.find key with
  | some f => rfl
  | none => exact find_set_ne _ _ (Ne.symm h)

theorem recordFire_eq (key : FireKey) (o : FireOutcome) :
    w.recordFire key o = { w with fires := (w.recordFire key o).fires } := by
  unfold recordFire
  cases w.fires.find key <;> rfl

theorem find_updateFireOutcome (key : FireKey) (o : FireOutcome) :
    (w.updateFireOutcome key o).fires.find key =
      (w.fires.find key).map fun f => { f with outcome := o } := by
  unfold updateFireOutcome
  cases hf : w.fires.find key with
  | none => exact hf
  | some f => exact find_set_self _ _ _

theorem find_updateFireOutcome_ne (o : FireOutcome) (h : key' ≠ key) :
    (w.updateFireOutcome key o).fires.find key' = w.fires.find key' := by
  unfold updateFireOutcome
  cases w.fires.find key with
  | none => rfl
  | some f => exact find_set_ne _ _ (Ne.symm h)

theorem updateFireOutcome_eq (key : FireKey) (o : FireOutcome) :
    w.updateFireOutcome key o = { w with fires := (w.updateFireOutcome key o).fires } := by
  unfold updateFireOutcome
  cases w.fires.find key <;> rfl

/-! ## Attempts -/

variable {x : TriggerAction} {todo : List TriggerAction} {W : String}

theorem owes_afterAction {V : String} : (afterAction W todo).Owes V x ↔ W = V ∧ x ∈ todo := by
  cases todo with
  | nil => exact ⟨False.elim, fun h => by cases h.2⟩
  | cons y rest => exact Iff.rfl

variable {ws : List (String × SpatialWatch)}

theorem planned_afterAction (h : FromWatch ws W todo) : (afterAction W todo).Planned cfg ws := by
  cases todo with
  | nil => trivial
  | cons x rest => exact h

theorem FromWatch.tail (h : FromWatch ws W (x :: todo)) : FromWatch ws W todo := by
  obtain ⟨watch, hmem, hactions⟩ := h
  exact ⟨watch, hmem, fun y hy => hactions y (mem_cons_of_mem _ hy)⟩

theorem fits_afterAction (htask : a.task = afterAction W todo)
    (hcovered : ∀ V act f, fires.find (V, a.row, act) = some f → f.outcome.final = false →
      a.deferred ∨ a.Owes V act) : Fits fires a where
  covered := hcovered
  evaluating V watch h := by
    rw [htask] at h
    cases todo <;> cases h
  recording V x rest h := by
    rw [htask] at h
    cases todo <;> cases h
  updating V x rest o h := by
    rw [htask] at h
    cases todo <;> cases h
  stopped h := by
    rw [htask] at h
    cases todo <;> cases h

theorem Fits.through (h : Fits fires a) {deferred : Bool}
    (howes : ∀ V act, a.task.Owes V act → W = V ∧ (act = x ∨ act ∈ todo))
    (hsame : ∀ key, key ≠ (W, a.row, x) → fires'.find key = fires.find key)
    (hfinal : ∀ f, fires'.find (W, a.row, x) = some f → f.outcome.final = false → deferred)
    (hdeferred : a.deferred → deferred) :
    Fits fires' { a with deferred := deferred, task := afterAction W todo } := by
  refine fits_afterAction rfl fun V act f hf hopen => ?_
  by_cases hkey : (V, a.row, act) = (W, a.row, x)
  · rw [hkey] at hf
    exact .inl (hfinal f hf hopen)
  · rw [hsame _ hkey] at hf
    rcases h.covered V act f hf hopen with hput | htask | hrest
    · exact .inl (hdeferred hput)
    · obtain ⟨rfl, rfl | hmem⟩ := howes V act htask
      · exact absurd rfl hkey
      · exact .inr (.inl (owes_afterAction.mpr ⟨rfl, hmem⟩))
    · exact .inr (.inr hrest)

theorem Fits.goOn (h : Fits fires a) {task : Task}
    (howes : ∀ V act, a.task.Owes V act → task.Owes V act) (hown : task.Owes W x)
    (hsame : ∀ key, key ≠ (W, a.row, x) → fires'.find key = fires.find key)
    (hevaluate : ∀ V watch, task ≠ .evaluate V watch)
    (hrecord : ∀ V act todo, task = .record V act todo → fires'.find (V, a.row, act) = none)
    (hupdate : ∀ V act todo o, task = .update V act todo o → o.final ∨ o = .deferred)
    (hstop : task ≠ .stop) : Fits fires' { a with task := task } where
  covered V act f hf hopen := by
    by_cases hkey : (V, a.row, act) = (W, a.row, x)
    · cases hkey
      exact .inr (.inl hown)
    · rw [hsame _ hkey] at hf
      rcases h.covered V act f hf hopen with hput | htask | hrest
      · exact .inl hput
      · exact .inr (.inl (howes V act htask))
      · exact .inr (.inr hrest)
  evaluating V watch ht := absurd ht (hevaluate V watch)
  recording := hrecord
  updating := hupdate
  stopped ht := absurd ht hstop

section

variable (hs : Sound cfg w) (hd : w.drains.find owner = some d) (ha : d.attempt = some a) (hrow : a'.row = a.row)
include hs hd ha hrow

theorem Sound.moved (hplan : ∀ ws, (∀ kv ∈ a.rest, kv ∈ ws) → a.task.Planned cfg ws →
      (∀ kv ∈ a'.rest, kv ∈ ws) ∧ a'.task.Planned cfg ws)
    (hfits : w.owns owner a.row → Fits w.fires a → Fits w.fires a') :
    Sound cfg (w.goTo owner d a') :=
  hs.goTo hd ha hrow hplan (.inl rfl) hs.fires hfits

/-- The worker that has the row writes one fire of it. -/
theorem Sound.wrote (howns : w.owns owner a.row)
    (hplan : ∀ ws, (∀ kv ∈ a.rest, kv ∈ ws) → a.task.Planned cfg ws →
      (∀ kv ∈ a'.rest, kv ∈ ws) ∧ a'.task.Planned cfg ws)
    (htask : ∀ ws, a.task.Planned cfg ws → FromWatch ws W (x :: todo))
    (hsame : ∀ key, key ≠ (W, a.row, x) → fires.find key = w.fires.find key)
    (hproper : ∀ f, fires.find (W, a.row, x) = some f → Proper cfg (W, a.row, x) f.outcome)
    (hfits : Fits w.fires a → Fits fires a') :
    Sound cfg ({ w with fires := fires }.goTo owner d a') := by
  refine hs.goTo hd ha hrow hplan (.inr ⟨howns, ?_⟩) ?_ fun _ => hfits
  · intro key hne
    refine hsame key fun heq => hne ?_
    rw [heq]
  · intro key f hf
    by_cases hkey : key = (W, a.row, x)
    · subst hkey
      refine ⟨?_, hproper f hf⟩
      obtain ⟨row, hfind, -, hplanned⟩ := hs.planned owner d a hd ha
      obtain ⟨watch, hwatch, hactions⟩ := htask _ hplanned
      exact ⟨row, watch, hfind, hwatch, hactions x mem_cons_self⟩
    · rw [hsame key hkey] at hf
      exact hs.fires key f hf

end

/-! ## Steps of a worker -/

theorem not_anyFire (h : ¬ w.anyFire W rowId) (act : TriggerAction) :
    w.fires.find (W, rowId, act) = none := by
  cases hf : w.fires.find (W, rowId, act) with
  | none => rfl
  | some f =>
    refine absurd ?_ h
    rw [anyFire, List.any_eq_true]
    exact ⟨((W, rowId, act), f), find_eq_some.mp hf, by simp⟩

variable {watch : SpatialWatch}

section

variable (hs : Sound cfg w) (hd : w.drains.find owner = some d) (ha : d.attempt = some a)
include hs hd ha

theorem Sound.lookWatch {rest : List (String × SpatialWatch)} (htask : a.task = .next)
    (hrest : a.rest = (W, watch) :: rest) :
    Sound cfg (w.goTo owner d { a with
      rest := rest
      task := if w.anyFire W a.row then afterAction W watch.actions else .evaluate W watch }) := by
  refine hs.moved hd ha rfl (fun ws hmem _ => ?_) fun _ hfits => ?_
  · rw [hrest, forall_mem_cons] at hmem
    refine ⟨hmem.2, ?_⟩
    have hfrom : FromWatch ws W watch.actions := ⟨watch, hmem.1, fun _ h => h⟩
    split
    · exact planned_afterAction hfrom
    · exact hfrom
  · -- What the watches owe, the first of them or one of the rest owes.
    have howed : ∀ V act f, w.fires.find (V, a.row, act) = some f → f.outcome.final = false →
        a.deferred ∨ (W = V ∧ act ∈ watch.actions) ∨
          ∃ watch, (V, watch) ∈ rest ∧ act ∈ watch.actions := by
      intro V act f hf hopen
      rcases hfits.covered V act f hf hopen with hput | howes | ⟨watch', hmem, hact⟩
      · exact .inl hput
      · rw [htask] at howes
        exact howes.elim
      · rw [hrest, mem_cons] at hmem
        rcases hmem with heq | hmem
        · cases heq
          exact .inr (.inl ⟨rfl, hact⟩)
        · exact .inr (.inr ⟨watch', hmem, hact⟩)
    split
    · refine fits_afterAction rfl fun V act f hf hopen => ?_
      exact (howed V act f hf hopen).imp_right (.imp_left owes_afterAction.mpr)
    · rename_i hany
      exact {
        covered := howed
        evaluating := by
          rintro V _ ⟨⟩ act
          exact not_anyFire hany act
        recording := fun _ _ _ h => by cases h
        updating := fun _ _ _ _ h => by cases h
        stopped := fun h => by cases h }

theorem Sound.evaluated (htask : a.task = .evaluate W watch) (outcome : EvalOutcome) :
    Sound cfg (w.goTo owner d (evaluated a W watch.actions outcome)) := by
  cases outcome with
  | fired =>
    refine hs.moved hd ha rfl (fun ws hmem hplan => ⟨hmem, ?_⟩) fun _ hfits => ?_
    · rw [htask] at hplan
      exact planned_afterAction hplan
    · refine fits_afterAction rfl fun V act f hf hopen => ?_
      rcases hfits.covered V act f hf hopen with hput | howes | hrest
      · exact .inl hput
      · rw [htask] at howes
        exact .inr (.inl (owes_afterAction.mpr howes))
      · exact .inr (.inr hrest)
  | notFired =>
    refine hs.moved hd ha rfl (fun ws hmem _ => ⟨hmem, trivial⟩) fun _ hfits => ?_
    -- No fire of the watch was found when its evaluation began.
    have hnext : (DrainWorld.evaluated a W watch.actions .notFired).task = afterAction W [] := rfl
    refine fits_afterAction hnext fun V act f hf hopen => ?_
    rcases hfits.covered V act f hf hopen with hput | howes | hrest
    · exact .inl hput
    · rw [htask] at howes
      obtain ⟨rfl, -⟩ := howes
      have hnone := hfits.evaluating W watch htask act
      rw [DrainWorld.evaluated, hnone] at hf
      cases hf
    · exact .inr (.inr hrest)
  | conflict =>
    refine hs.moved hd ha rfl (fun ws hmem _ => ⟨hmem, trivial⟩) fun _ _ => ?_
    exact {
      covered := fun _ _ _ _ _ => .inl rfl
      evaluating := fun _ _ h => by cases h
      recording := fun _ _ _ h => by cases h
      updating := fun _ _ _ _ h => by cases h
      stopped := fun _ => rfl }

end

variable {o : FireOutcome}

theorem final_of_done (h : o.done) : o.final := by
  cases o <;> first | rfl | cases h

section

variable (hs : Sound cfg w) (hd : w.drains.find owner = some d) (ha : d.attempt = some a)
include hs hd ha

section

variable (howns : w.owns owner a.row = true)
include howns

theorem Sound.recorded (htask : a.task = .act W (x :: todo)) (hfinal : o.final) (ho : o ≠ .duplicate)
    (hmission : ¬ cfg.ForMission x) :
    Sound cfg ((w.recordFire (W, a.row, x) o).goTo owner d
      { a with task := afterAction W todo }) := by
  have hproper : ∀ f, (w.recordFire (W, a.row, x) o).fires.find (W, a.row, x) = some f →
      Proper cfg (W, a.row, x) f.outcome := by
    intro f hf
    rw [find_recordFire] at hf
    cases hold : w.fires.find (W, a.row, x) with
    | none =>
      rw [hold] at hf
      cases hf
      refine ⟨ho, fun hopen => ?_⟩
      dsimp only [Option.getD] at hopen
      rw [hfinal] at hopen
      cases hopen
    | some f₀ =>
      rw [hold] at hf
      cases hf
      exact (hs.fires _ _ hold).2
  have hplanned : ∀ ws, a.task.Planned cfg ws → FromWatch ws W (x :: todo) := by
    intro ws hplan
    rwa [htask] at hplan
  rw [recordFire_eq]
  refine hs.wrote hd ha rfl howns
    (fun ws hmem hplan => ⟨hmem, planned_afterAction (FromWatch.tail (hplanned ws hplan))⟩)
    hplanned (fun key => find_recordFire_ne o) hproper fun hfits => ?_
  refine hfits.through (fun V act howes => ?_) (fun key => find_recordFire_ne o)
    (fun f hf hopen => absurd ((hproper f hf).2 hopen) hmission) id
  rw [htask] at howes
  exact ⟨howes.1, mem_cons.mp howes.2⟩

theorem Sound.look (htask : a.task = .act W (x :: todo)) :
    Sound cfg ((look cfg w a W x todo).1.goTo owner d
      { a with task := (look cfg w a W x todo).2 }) := by
  have howes : ∀ V act, a.task.Owes V act → W = V ∧ (act = x ∨ act ∈ todo) := by
    intro V act h
    rw [htask] at h
    exact ⟨h.1, mem_cons.mp h.2⟩
  have hplanned : ∀ ws, a.task.Planned cfg ws → FromWatch ws W (x :: todo) := by
    intro ws hplan
    rwa [htask] at hplan
  unfold DrainWorld.look
  by_cases hnotify : x = .notifyOnly
  · rw [if_pos hnotify]
    exact hs.recorded hd ha howns htask rfl (by simp) fun h => h.1 hnotify
  rw [if_neg hnotify]
  by_cases hbridge : cfg.missionBridge
  · simp only [hbridge, Bool.not_true, Bool.false_eq_true, if_false]
    have hmission : cfg.ForMission x := ⟨hnotify, hbridge⟩
    cases hf : w.fires.find (W, a.row, x) with
    | none =>
      refine hs.moved hd ha rfl (fun ws hmem hplan => ⟨hmem, hplanned ws hplan, hmission⟩)
        fun _ hfits => ?_
      refine hfits.goOn howes ⟨rfl, .inl rfl⟩ (fun _ _ => rfl) (fun _ _ => by simp) ?_
        (fun _ _ _ _ h => by cases h) (by simp)
      rintro V act rest ⟨⟩
      exact hf
    | some f =>
      dsimp only
      by_cases hdone : f.outcome.done
      · rw [if_pos hdone]
        refine hs.moved hd ha rfl
          (fun ws hmem hplan => ⟨hmem, planned_afterAction (FromWatch.tail (hplanned ws hplan))⟩)
          fun _ hfits => ?_
        refine hfits.through howes (fun _ _ => rfl) (fun f' hf' hopen => ?_) id
        rw [hf] at hf'
        cases hf'
        rw [final_of_done hdone] at hopen
        cases hopen
      · rw [if_neg hdone]
        refine hs.moved hd ha rfl (fun ws hmem hplan => ⟨hmem, hplanned ws hplan, hmission⟩)
          fun _ hfits => ?_
        exact hfits.goOn howes ⟨rfl, .inl rfl⟩ (fun _ _ => rfl) (fun _ _ => by simp)
          (fun _ _ _ h => by cases h) (fun _ _ _ _ h => by cases h) (by simp)
  · rw [Bool.not_eq_true] at hbridge
    rw [hbridge]
    refine hs.recorded hd ha howns htask rfl (by simp) fun h => ?_
    have hnot := h.2
    rw [hbridge] at hnot
    cases hnot

theorem Sound.record (htask : a.task = .record W x todo) :
    Sound cfg ((w.recordFire (W, a.row, x) .pending).goTo owner d { a with
      task := if (w.fires.find (W, a.row, x)).isSome then afterAction W todo
        else .claim W x todo }) := by
  -- The one who has the row has looked, and nobody else writes.
  have hnone : w.fires.find (W, a.row, x) = none :=
    (hs.fits owner d a hd ha howns).recording W x todo htask
  have hplanned : ∀ ws, a.task.Planned cfg ws → FromWatch ws W (x :: todo) ∧ cfg.ForMission x := by
    intro ws hplan
    rwa [htask] at hplan
  rw [hnone, recordFire_eq]
  refine hs.wrote hd ha rfl howns (fun ws hmem hplan => ⟨hmem, hplanned ws hplan⟩)
    (fun ws hplan => (hplanned ws hplan).1) (fun key => find_recordFire_ne _) (fun f hf => ?_)
    fun hfits => ?_
  · rw [find_recordFire, hnone] at hf
    cases hf
    obtain ⟨row, -, -, hplan⟩ := hs.planned owner d a hd ha
    exact ⟨by simp, fun _ => (hplanned _ hplan).2⟩
  · refine hfits.goOn (fun V act h => ?_) ⟨rfl, .inl rfl⟩ (fun key => find_recordFire_ne _)
      (fun _ _ => by simp) (fun _ _ _ h => by cases h) (fun _ _ _ _ h => by cases h) (by simp)
    rwa [htask] at h

theorem Sound.claim (hmay : w.mayClaim a) (htask : a.task = .claim W x todo) :
    Sound cfg (if (w.fires.find (W, a.row, x)).any fun f => f.outcome.claimable then
        (w.claimFire (W, a.row, x)).goTo owner d { a with task := .execute W x todo }
      else w.goTo owner d { a with task := afterAction W todo }) := by
  have hplanned : ∀ ws, a.task.Planned cfg ws → FromWatch ws W (x :: todo) ∧ cfg.ForMission x := by
    intro ws hplan
    rwa [htask] at hplan
  have howes : ∀ V act, a.task.Owes V act → W = V ∧ (act = x ∨ act ∈ todo) := by
    intro V act h
    rwa [htask] at h
  split
  · refine hs.wrote hd ha rfl howns (fun ws hmem hplan => ⟨hmem, hplanned ws hplan⟩)
      (fun ws hplan => (hplanned ws hplan).1) (fun key hne => find_set_ne _ _ hne.symm)
      (fun f hf => ?_) fun hfits => ?_
    · rw [find_set_self] at hf
      cases hf
      obtain ⟨row, -, -, hplan⟩ := hs.planned owner d a hd ha
      exact ⟨by simp, fun _ => (hplanned _ hplan).2⟩
    · exact hfits.goOn howes ⟨rfl, .inl rfl⟩ (fun key hne => find_set_ne _ _ hne.symm)
        (fun _ _ => by simp) (fun _ _ _ h => by cases h) (fun _ _ _ _ h => by cases h) (by simp)
  · rename_i hclaimable
    refine hs.moved hd ha rfl
      (fun ws hmem hplan => ⟨hmem, planned_afterAction (FromWatch.tail (hplanned ws hplan).1)⟩)
      fun _ hfits => hfits.through howes (fun _ _ => rfl) (fun f hf hopen => ?_) id
    -- A fire that is not claimed is executing, a duplicate or final.
    have hduplicate := (hs.fires _ f hf).2.1
    dsimp only [mayClaim] at hmay
    rw [htask] at hmay
    rw [hf] at hclaimable
    cases ho : f.outcome <;> simp_all [FireOutcome.claimable, FireOutcome.final]

end

theorem Sound.execute {result : Option MissionResult} (hresult : result ≠ some .duplicate)
    (htask : a.task = .execute W x todo) :
    Sound cfg (w.goTo owner d { a with
      task := .update W x todo ((result.map MissionResult.outcome).getD .deferred) }) := by
  refine hs.moved hd ha rfl (fun ws hmem hplan => ⟨hmem, ?_⟩) fun _ hfits => ?_
  · rwa [htask] at hplan
  · refine hfits.goOn (fun V act h => ?_) ⟨rfl, .inl rfl⟩ (fun _ _ => rfl) (fun _ _ => by simp)
      (fun _ _ _ h => by cases h) ?_ (by simp)
    · rwa [htask] at h
    · rintro V act rest o ⟨⟩
      rcases result with _ | result
      · exact .inr rfl
      · cases result with
        | duplicate => exact absurd rfl hresult
        | deferred => exact .inr rfl
        | rejected | created | revised | resumed => exact .inl rfl

theorem Sound.update (howns : w.owns owner a.row) (htask : a.task = .update W x todo o) :
    Sound cfg ((w.updateFireOutcome (W, a.row, x) o).goTo owner d { a with
      deferred := a.deferred || o = .deferred
      task := afterAction W todo }) := by
  have hplanned : ∀ ws, a.task.Planned cfg ws → FromWatch ws W (x :: todo) ∧ cfg.ForMission x := by
    intro ws hplan
    rwa [htask] at hplan
  have hoff : o.final ∨ o = .deferred :=
    (hs.fits owner d a hd ha howns).updating W x todo o htask
  have hwritten : ∀ f, (w.updateFireOutcome (W, a.row, x) o).fires.find (W, a.row, x) = some f →
      f.outcome = o := by
    intro f hf
    rw [find_updateFireOutcome, map_eq_some_iff] at hf
    obtain ⟨f₀, -, rfl⟩ := hf
    rfl
  rw [updateFireOutcome_eq]
  refine hs.wrote hd ha rfl howns
    (fun ws hmem hplan => ⟨hmem, planned_afterAction (FromWatch.tail (hplanned ws hplan).1)⟩)
    (fun ws hplan => (hplanned ws hplan).1) (fun key => find_updateFireOutcome_ne o) (fun f hf => ?_)
    fun hfits => ?_
  · rw [hwritten f hf]
    obtain ⟨row, -, -, hplan⟩ := hs.planned owner d a hd ha
    refine ⟨?_, fun _ => (hplanned _ hplan).2⟩
    rintro rfl
    rcases hoff with h | h <;> cases h
  · refine hfits.through (fun V act h => ?_) (fun key => find_updateFireOutcome_ne o)
      (fun f hf hopen => ?_) fun h => by rw [h, Bool.true_or]
    · rwa [htask] at h
    · rw [hwritten f hf] at hopen
      rcases hoff with hfinal | rfl
      · rw [hfinal] at hopen
        cases hopen
      · rw [decide_eq_true rfl, Bool.or_true]

theorem Sound.failed : Sound cfg (w.goTo owner d (failed a)) := by
  have hnext : ∀ W todo, (∀ ws, a.task.Planned cfg ws → FromWatch ws W todo) →
      Sound cfg (w.goTo owner d { a with deferred := true, task := afterAction W todo }) := by
    intro W todo hplanned
    refine hs.moved hd ha rfl (fun ws hmem hplan => ⟨hmem, planned_afterAction (hplanned ws hplan)⟩)
      fun _ _ => ?_
    exact fits_afterAction rfl fun _ _ _ _ _ => .inl rfl
  have hstop : Sound cfg (w.goTo owner d
      { a with deferred := true, error := true, task := .stop }) := by
    refine hs.moved hd ha rfl (fun ws hmem hplan => ⟨hmem, trivial⟩) fun _ _ => ?_
    exact {
      covered := fun _ _ _ _ _ => .inl rfl
      evaluating := fun _ _ h => by cases h
      recording := fun _ _ _ h => by cases h
      updating := fun _ _ _ _ h => by cases h
      stopped := fun _ => rfl }
  unfold DrainWorld.failed
  split
  · rename_i W x todo htask
    refine hnext W todo fun ws hplan => ?_
    rw [htask] at hplan
    exact FromWatch.tail hplan
  · rename_i W x todo htask
    refine hnext W todo fun ws hplan => ?_
    rw [htask] at hplan
    exact FromWatch.tail hplan.1
  · rename_i W x todo htask
    refine hnext W todo fun ws hplan => ?_
    rw [htask] at hplan
    exact FromWatch.tail hplan.1
  · rename_i W x todo htask
    refine hnext W todo fun ws hplan => ?_
    rw [htask] at hplan
    exact FromWatch.tail hplan.1
  · rename_i W x todo o htask
    refine hnext W todo fun ws hplan => ?_
    rw [htask] at hplan
    exact FromWatch.tail hplan.1
  · exact hstop

theorem Sound.work {s : WorkStep} (hmay : w.mayWork owner a s)
    (h : work cfg w owner d a s = some w') : Sound cfg w' := by
  cases s with
  | lookWatch =>
    dsimp only [DrainWorld.work] at h
    split at h
    · rename_i W watch rest htask hrest
      cases h
      exact hs.lookWatch hd ha htask hrest
    · cases h
  | evaluated outcome =>
    dsimp only [DrainWorld.work] at h
    split at h
    · rename_i W watch htask
      cases h
      exact hs.evaluated hd ha htask outcome
    · cases h
  | look =>
    dsimp only [DrainWorld.work] at h
    split at h
    · rename_i W x todo htask
      cases h
      exact hs.look hd ha hmay htask
    · cases h
  | record =>
    dsimp only [DrainWorld.work] at h
    split at h
    · rename_i W x todo htask
      cases h
      exact hs.record hd ha hmay htask
    · cases h
  | claim =>
    dsimp only [mayWork] at hmay
    rw [Bool.and_eq_true] at hmay
    dsimp only [DrainWorld.work] at h
    split at h
    · rename_i W x todo htask
      have hclaimed := hs.claim hd ha hmay.1 hmay.2 htask
      split at h <;> cases h
      · rwa [if_pos ‹_›] at hclaimed
      · rwa [if_neg ‹_›] at hclaimed
    · cases h
  | execute result =>
    dsimp only [DrainWorld.work] at h
    split at h
    · rename_i W x todo htask
      cases h
      exact hs.execute hd ha (of_decide_eq_true hmay) htask
    · cases h
  | update =>
    dsimp only [DrainWorld.work] at h
    split at h
    · rename_i W x todo o htask
      cases h
      exact hs.update hd ha hmay htask
    · cases h
  | fail =>
    cases h
    exact hs.failed hd ha

end

/-! ## Steps -/

theorem Sound.begin (hs : Sound cfg w) (hrow : w.events.find rowId = some row) (d : Drain) :
    Sound cfg (w.goTo owner d { row := rowId, rest := cfg.watchesFor row }) where
  fits o d' b hd' hb howns := by
    dsimp only [DrainWorld.goTo, DrainWorld.putDrain] at hd'
    rw [find_set] at hd'
    split at hd'
    · cases hd'
      cases hb
      have hnext : ({ row := rowId, rest := cfg.watchesFor row } : Attempt).task =
          afterAction "" [] := rfl
      refine fits_afterAction hnext fun V act f hf _ => ?_
      obtain ⟨row', watch, hrow', hwatch, hact⟩ := (hs.fires _ f hf).1
      rw [hrow] at hrow'
      cases hrow'
      exact .inr (.inr ⟨watch, hwatch, hact⟩)
    · exact hs.fits o d' b hd' hb howns
  planned o d' b hd' hb := by
    dsimp only [DrainWorld.goTo, DrainWorld.putDrain] at hd'
    rw [find_set] at hd'
    split at hd'
    · cases hd'
      cases hb
      exact ⟨row, hrow, fun _ h => h, trivial⟩
    · exact hs.planned o d' b hd' hb
  fires := hs.fires
  fresh := hs.fresh

theorem keeps_claimed {events : EventTable} {now : Nat} :
    Keeps events (events.updateWhere p (.claim owner now)) (some owner) :=
  keeps_updateWhere (fun _ => rfl) fun _ _ _ _ h => .inl (congrArg some (claimedFor_claim h))

theorem Sound.claimed (hs : Sound cfg w) {events : EventTable}
    (hk : Keeps w.events events (some owner)) (hnone : w.drains.find owner = none) (replay : Bool) :
    Sound cfg { w with
      events := events
      drains := w.drains.set owner (newDrain events owner replay) } := by
  refine (hs.events hk fun o ho => ?_).putDrain (d := newDrain events owner replay) rfl
  cases ho
  exact hnone

theorem keeps_markFailed (events : EventTable) (rowId : Nat) (worker : String)
    (terminal deferred : Bool) (attempts nextAt : Nat) :
    Keeps events (events.markFailed rowId worker terminal deferred attempts nextAt) none := by
  refine keeps_released (fun _ => ?_) fun _ => ?_ <;> rfl

theorem keeps_markProcessed (events : EventTable) (rowId : Nat) (worker : String) :
    Keeps events (events.markProcessed rowId worker) none := by
  refine keeps_released (fun _ => ?_) fun _ => ?_ <;> rfl

theorem keeps_settle (a : Attempt) : Keeps w.events (settle cfg w owner d a).events none := by
  unfold settle
  split
  · split
    · exact Keeps.refl _
    · exact keeps_markFailed _ _ _ _ _ _ _
  · exact keeps_markProcessed _ _ _

theorem settle_eq (a : Attempt) : settle cfg w owner d a =
    ({ w with events := (settle cfg w owner d a).events }).putDrain owner
      { d with attempt := none } := by
  unfold settle
  split
  · split <;> rfl
  · rfl

theorem Sound.settled (hs : Sound cfg w) (d : Drain) (a : Attempt) :
    Sound cfg (settle cfg w owner d a) := by
  rw [settle_eq]
  exact (hs.events (keeps_settle a) fun o ho => by cases ho).putDrain rfl

theorem Sound.append (hs : Sound cfg w) (row : EventRow) : Sound cfg (w.append row) := by
  unfold DrainWorld.append
  split
  · exact hs
  have hne : ∀ id row', w.events.find id = some row' → w.nextId ≠ id := by
    intro id row' hrow' heq
    have hlt := hs.fresh id row' hrow'
    omega
  refine {
    fits := fun o d b hd hb howns => hs.fits o d b hd hb ?_
    planned := fun o d b hd hb => ?_
    fires := fun key f hf => ?_
    fresh := fun id row' hrow' => ?_ }
  · obtain ⟨row', hrow', hclaimed⟩ := owns_iff.mp howns
    rw [find_set] at hrow'
    split at hrow'
    · cases hrow'
      cases hclaimed
    · exact owns_iff.mpr ⟨row', hrow', hclaimed⟩
  · obtain ⟨row', hrow', hplan⟩ := hs.planned o d b hd hb
    refine ⟨row', ?_, hplan⟩
    rw [← hrow']
    exact find_set_ne _ _ (hne _ row' hrow')
  · obtain ⟨⟨row', watch, hrow', hwatch⟩, hproper⟩ := hs.fires key f hf
    refine ⟨⟨row', watch, ?_, hwatch⟩, hproper⟩
    rw [← hrow']
    exact find_set_ne _ _ (hne _ row' hrow')
  · dsimp only at hrow' ⊢
    rw [find_set] at hrow'
    split at hrow'
    · omega
    · have hlt := hs.fresh id row' hrow'
      omega

variable {action : DrainAction}

theorem Sound.step (hs : Sound cfg w) (hcareful : careful w action)
    (h : step cfg w action = some w') : Sound cfg w' := by
  cases action with
  | append row =>
    cases h
    exact hs.append row
  | claimBatch owner cand =>
    dsimp only [step] at h
    split at h
    · cases h
    rename_i hnone
    cases h
    exact hs.claimed keeps_claimed (not_isSome_iff_eq_none.mp hnone) false
  | claimReplay owner rowId orgId =>
    dsimp only [step] at h
    split at h
    · cases h
    rename_i hnone
    cases h
    exact hs.claimed keeps_claimed (not_isSome_iff_eq_none.mp hnone) true
  | renewClaims owner =>
    obtain ⟨d, -, rfl⟩ := map_eq_some_iff.mp h
    have hk : Keeps w.events (w.events.renewClaims d.rows owner w.now) none :=
      keeps_updateWhere (fun _ => rfl) fun _ _ _ _ hclaimed => .inr hclaimed
    exact hs.events hk fun o ho => by cases ho
  | begin owner rowId =>
    dsimp only [step] at h
    split at h
    · rename_i d row hd hrow
      split at h
      · cases h
        exact hs.begin hrow _
      · cases h
    · cases h
  | skip owner rowId =>
    dsimp only [step] at h
    split at h
    · rename_i d hd
      split at h
      · rename_i hidle
        cases h
        refine (hs.events (keeps_released (fun _ => ?_) fun _ => ?_) fun o ho => ?_).putDrain ?_
        · rfl
        · rfl
        · cases ho
        · exact isNone_iff_eq_none.mp hidle.1
      · cases h
    · cases h
  | work owner s =>
    dsimp only [step] at h
    split at h
    · rename_i d hd
      split at h
      · rename_i a ha
        refine hs.work hd ha ?_ h
        dsimp only [careful] at hcareful
        rwa [hd, all_some, ha, all_some] at hcareful
      · cases h
    · cases h
  | settle owner =>
    dsimp only [step] at h
    split at h
    · rename_i d hd
      split at h
      · rename_i a ha
        split at h
        · cases h
          exact hs.settled d a
        · cases h
      · cases h
    · cases h
  | crash owner =>
    cases h
    exact hs.crash owner
  | requeueStaleProcessing olderThan =>
    cases h
    refine hs.events (keeps_released (fun _ => ?_) fun _ => ?_) fun o ho => ?_
    · rfl
    · rfl
    · cases ho
  | requeueStaleExecutingFires olderThan =>
    cases h
    exact hs.requeued olderThan
  | coalescePending passed rows =>
    cases h
    exact hs.events (keeps_coalesce w.events passed rows) fun o ho => by cases ho
  | requeueEvent rowId =>
    cases h
    refine hs.events (keeps_released (fun _ => ?_) fun _ => ?_) fun o ho => ?_
    · rfl
    · rfl
    · cases ho
  | tick seconds =>
    cases h
    exact { fits := hs.fits, planned := hs.planned, fires := hs.fires, fresh := hs.fresh }

theorem sound_init : Sound cfg {} where
  fits := fun _ _ _ h => by cases h
  planned := fun _ _ _ h => by cases h
  fires := fun _ _ h => by cases h
  fresh := fun _ _ h => by cases h

/-! ## Settled rows -/

theorem Unprocessed.refl (events : EventTable) : Unprocessed events events :=
  fun _ row hrow hdone => ⟨row, hrow, hdone⟩

theorem look_events : (look cfg w a W x todo).1.events = w.events := by
  unfold look
  dsimp only
  split
  · rw [recordFire_eq]
  split
  · rw [recordFire_eq]
  · split <;> rfl

theorem work_events {s : WorkStep} (h : work cfg w owner d a s = some w') :
    w'.events = w.events := by
  cases s with
  | lookWatch | evaluated | execute =>
    dsimp only [work] at h
    split at h <;> cases h
    rfl
  | look =>
    dsimp only [work] at h
    split at h <;> cases h
    exact look_events
  | record =>
    dsimp only [work] at h
    split at h <;> cases h
    rw [recordFire_eq]
    rfl
  | claim =>
    dsimp only [work] at h
    split at h
    · split at h <;> cases h <;> rfl
    · cases h
  | update =>
    dsimp only [work] at h
    split at h <;> cases h
    rw [updateFireOutcome_eq]
    rfl
  | fail =>
    cases h
    rfl

theorem unprocessed_append (w : DrainWorld) (row : EventRow) :
    Unprocessed w.events (w.append row).events := by
  unfold append
  split
  · exact Unprocessed.refl _
  intro id row' hrow hdone
  rw [find_set] at hrow
  split at hrow
  · cases hrow
    cases hdone
  · exact ⟨row', hrow, hdone⟩

theorem unprocessed_step (hsettle : ∀ owner, action ≠ .settle owner)
    (h : step cfg w action = some w') : Unprocessed w.events w'.events := by
  cases action with
  | append row =>
    cases h
    exact unprocessed_append w row
  | claimBatch | claimReplay =>
    dsimp only [step] at h
    split at h <;> cases h
    exact unprocessed_updateWhere fun _ hdone => by cases hdone
  | renewClaims owner =>
    obtain ⟨d, -, rfl⟩ := map_eq_some_iff.mp h
    exact unprocessed_updateWhere fun _ hdone => hdone
  | begin owner rowId =>
    dsimp only [step] at h
    split at h
    · split at h <;> cases h
      exact Unprocessed.refl _
    · cases h
  | skip owner rowId =>
    dsimp only [step] at h
    split at h
    · split at h <;> cases h
      exact unprocessed_updateWhere fun _ hdone => by cases hdone
    · cases h
  | work owner s =>
    dsimp only [step] at h
    split at h
    · split at h
      · rw [work_events h]
        exact Unprocessed.refl _
      · cases h
    · cases h
  | settle owner => exact absurd rfl (hsettle owner)
  | requeueStaleProcessing | requeueEvent =>
    cases h
    exact unprocessed_updateWhere fun _ hdone => by cases hdone
  | coalescePending passed rows =>
    cases h
    exact unprocessed_coalesce _ _ _
  | crash | requeueStaleExecutingFires | tick =>
    cases h
    exact Unprocessed.refl _

/-- What has become processed has final fires only. -/
def Settles (w w' : DrainWorld) : Prop :=
  ∀ id row', w'.events.find id = some row' → row'.status = .processed →
    (∀ row, w.events.find id = some row → row.status ≠ .processed) →
      ∀ W act f, w'.fires.find (W, id, act) = some f → f.outcome.final = true

theorem Unprocessed.settles (h : Unprocessed w.events w'.events) : Settles w w' := by
  intro id row' hrow' hdone hnot
  obtain ⟨row, hrow, hold⟩ := h id row' hrow' hdone
  exact absurd hold (hnot row hrow)

theorem Fits.settled (h : Fits fires a) (hfinished : finished a)
    (hdeferred : a.deferred = false) {act : TriggerAction} {f : WatchFire}
    (hf : fires.find (W, a.row, act) = some f) : f.outcome.final := by
  rw [← Bool.not_eq_false]
  intro hopen
  unfold finished at hfinished
  split at hfinished
  · rename_i htask hrest
    rcases h.covered W act f hf hopen with hput | howes | ⟨watch, hmem, -⟩
    · rw [hdeferred] at hput
      cases hput
    · rw [htask] at howes
      exact howes
    · rw [hrest] at hmem
      cases hmem
  · rename_i htask
    rw [h.stopped htask] at hdeferred
    cases hdeferred
  · cases hfinished

theorem Sound.settles (hs : Sound cfg w) (hd : w.drains.find owner = some d)
    (ha : d.attempt = some a) (hfinished : finished a) :
    Settles w (settle cfg w owner d a) := by
  unfold settle
  cases hdeferred : a.deferred with
  | true =>
    rw [if_pos rfl]
    split
    · exact (Unprocessed.refl _).settles
    · refine Unprocessed.settles (unprocessed_updateWhere fun _ hdone => ?_)
      unfold EventRow.failed at hdone
      split at hdone <;> cases hdone
  | false =>
    rw [if_neg Bool.false_ne_true]
    intro id row' hrow' hdone hnot W act f hf
    obtain ⟨row, hrow, rfl⟩ := find_updateWhere_some hrow'
    split at hdone
    · rename_i hp
      simp only [Bool.and_eq_true, decide_eq_true_eq] at hp
      obtain ⟨rfl, hclaimed⟩ := hp
      have howns : w.owns owner a.row := owns_iff.mpr ⟨row, hrow, hclaimed⟩
      exact (hs.fits owner d a hd ha howns).settled hfinished hdeferred hf
    · exact absurd hdone (hnot row hrow)

/-- In the next step too, an event becomes processed with final fires only. -/
def NoneOpen (cfg : DrainConfig) (allowed : DrainWorld → DrainAction → Bool) (w : DrainWorld) :
    Prop :=
  ∀ action w', allowed w action = true → step cfg w action = some w' → Settles w w'

/-- Where only the worker that has the event writes its fires, a claim does not meet a fire in
    execution and no mission was created before, no event is processed with an open action. -/
theorem processed_settled (cfg : DrainConfig)
    (hrun : Relation.ReflTransGen (Step (step cfg) careful) {} w) : NoneOpen cfg careful w := by
  have hs : Sound cfg w := run_induction (fun hs hcareful hstep => Sound.step hs hcareful hstep)
    sound_init hrun
  intro action w' _ hstep
  by_cases hsettle : ∃ owner, action = .settle owner
  · obtain ⟨owner, rfl⟩ := hsettle
    dsimp only [step] at hstep
    split at hstep
    · rename_i d hd
      split at hstep
      · rename_i a ha
        split at hstep
        · rename_i hfinished
          cases hstep
          exact hs.settles hd ha hfinished
        · cases hstep
      · cases hstep
    · cases hstep
  · push Not at hsettle
    exact (unprocessed_step hsettle hstep).settles

/-- One watch that creates missions. -/
def missions : DrainConfig where
  watches := Dict.empty.set "W"
    { orgId := "o", kinds := [.jobCompleted], actions := [.missionCreate] }
  missionBridge := true
  maxAttempts := 5

/-- A worker claims the event and goes as far as the claim of its fire. -/
def claiming : List DrainAction :=
  [.append
      { eventId := "e", orgId := "o", kind := .jobCompleted, subjectKey := "k", occurredAt := 0 },
    .claimBatch "A" [1], .begin "A" 1, .work "A" .lookWatch, .work "A" (.evaluated .fired),
    .work "A" .look, .work "A" .record, .tick 60, .work "A" .claim]

/-- After the crash the event goes stale before the fire does, and the next worker takes the fire
    for a duplicate. -/
theorem crashed_open : ¬ ∀ w,
    Relation.ReflTransGen (Step (step missions) fun _ _ => true) {} w →
      NoneOpen missions (fun _ _ => true) w := by
  intro hall
  obtain ⟨w, hw⟩ : ∃ w, play (step missions) (fun _ _ => true) {}
      (claiming ++ [.crash "A", .tick 240, .requeueStaleProcessing 300,
        .requeueStaleExecutingFires 300, .claimBatch "B" [1], .begin "B" 1, .work "B" .lookWatch,
        .work "B" .look, .work "B" .claim]) = some w := ⟨_, rfl⟩
  obtain ⟨w', hw'⟩ : ∃ w', step missions w (.settle "B") = some w' := by
    cases hw
    exact ⟨_, rfl⟩
  have hsettles := hall w (run_of_play hw) _ w' rfl hw'
  cases hw
  cases hw'
  refine absurd (hsettles 1 _ rfl rfl ?_ "W" .missionCreate _ rfl) (by decide)
  rintro row ⟨⟩
  decide

theorem created_settled : ∃ w, play (step missions) careful {}
    (claiming ++ [.work "A" (.execute (some .created)), .work "A" .update]) = some w ∧
      NoneOpen missions careful w := by
  obtain ⟨w, hw⟩ : ∃ w, play (step missions) careful {}
      (claiming ++ [.work "A" (.execute (some .created)), .work "A" .update]) = some w := ⟨_, rfl⟩
  exact ⟨w, hw, processed_settled missions (run_of_play hw)⟩

end DrainWorld

end WebGis.Events
