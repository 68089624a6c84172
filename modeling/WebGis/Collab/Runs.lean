/-
  What a run of calls does, in the log of who was granted what.

  A log has the clients' own names, the registries have the cleaned ones. `Ledger` ties the two:
  what the log says a client holds, the register holds for its cleaned name, and what the
  register holds is held by a client of the log. `leases_exclude` is the run.
-/
import WebGis.Collab.Exclusion

namespace WebGis.Collab

open Data Leasing Option

/-! ## One registry -/

/-- What was asked of a registry, the latest first. -/
abbrev Log : Type := List (Event String String String Rat)

/-- The event under the name that the registry stores. -/
def cleanEvent (e : Event String String String Rat) : Event String String String Rat :=
  { e with op := cleaned e.op }

/-- The client of an operation. -/
def actor : Op String String String → Option String
  | .acquire _ _ client | .renew _ _ client | .release _ _ client => some client
  | .sweep => none

/-- No other client of the same cleaned name holds a lock, and who acquires one holds none of
    another session. -/
structure Separate (stamp : Rat → Rat) (log : Log) (now : Rat) (op : Op String String String) :
    Prop where
  distinct : ∀ c, actor op = some c → ∀ c', c' ≠ c → safeClient c' = safeClient c →
    ∀ s k, ¬ Holds stamp log c' s k now
  oneSession : ∀ s k c, op = .acquire s k c → ∀ s' k', Holds stamp log c s' k' now → s' = s

/-- The log and the register say the same, and within the limits. -/
structure Ledger (stamp : Rat → Rat) (log : Log) (R : Register String String String Rat)
    (last : Rat) : Prop where
  times : ∀ e ∈ log, e.time ≤ last
  known : Known stamp (log.map cleanEvent) R last
  limited : Limited maxLeasesPerClient R last
  lifted : ∀ c s k t, last ≤ t → Holds stamp log c s k t →
    Holds stamp (log.map cleanEvent) (safeClient c) s k t
  backed : ∀ s k d t, last ≤ t → R.holder t s k = some d →
    ∃ c, safeClient c = d ∧ Holds stamp log c s k t
  apart : ∀ c c' s s' k k' t, last ≤ t → safeClient c = safeClient c' →
    Holds stamp log c s k t → Holds stamp log c' s' k' t → c = c'
  together : ∀ c s s' k k' t, last ≤ t → Holds stamp log c s k t → Holds stamp log c s' k' t → s = s'

/-- Nobody holds a lock that another holds, and no client more than the limit. -/
structure Excludes (stamp : Rat → Rat) (log : Log) (now : Rat) : Prop where
  exclusive : ∀ t, now ≤ t → ∀ c c' s k, Holds stamp log c s k t → Holds stamp log c' s k t → c = c'
  limited : ∀ t, now ≤ t → ∀ c, ∀ locks : Finset (String × String),
    (∀ l ∈ locks, Holds stamp log c l.1 l.2 t) → locks.card ≤ maxLeasesPerClient

section

variable {stamp : Rat → Rat} {log : Log} {R R' : Register String String String Rat}
  {now last : Rat} {op : Op String String String} {granted : Bool}

variable {d k s : String}

theorem cleaned_acquire (h : cleaned op = .acquire s k d) :
    ∃ c, op = .acquire s k c ∧ safeClient c = d := by
  cases op <;> cases h
  exact ⟨_, rfl, rfl⟩

theorem cleaned_renew (h : cleaned op = .renew s k d) :
    ∃ c, op = .renew s k c ∧ safeClient c = d := by
  cases op <;> cases h
  exact ⟨_, rfl, rfl⟩

theorem cleaned_release (h : cleaned op = .release s k d) :
    ∃ c, op = .release s k c ∧ safeClient c = d := by
  cases op <;> cases h
  exact ⟨_, rfl, rfl⟩

variable {c : String} {e : Event String String String Rat}

theorem gives_clean (h : e.Gives s k c) : (cleanEvent e).Gives s k (safeClient c) := by
  obtain ⟨hop | hop, hgranted⟩ := h
  · exact ⟨.inl (by rw [cleanEvent, hop]; rfl), hgranted⟩
  · exact ⟨.inr (by rw [cleanEvent, hop]; rfl), hgranted⟩

theorem actor_of_gives (h : e.Gives s k c) : actor e.op = some c := by
  obtain ⟨hop | hop, _⟩ := h <;> rw [hop] <;> rfl

variable {t : Rat}

theorem Separate.eq (hsep : Separate stamp log now op) {c' : String} (hactor : actor op = some c)
    (hsame : safeClient c' = safeClient c) (hle : now ≤ t) (hholds : Holds stamp log c' s k t) :
    c' = c := by
  by_contra hne
  exact hsep.distinct c hactor c' hne hsame s k (hholds.earlier hle)

section

variable (hl : Ledger stamp log R last)
include hl

theorem lifted_step (hle : last ≤ now) (hsep : Separate stamp log now op) (ht : now ≤ t)
    (hholds : Holds stamp (⟨now, op, granted⟩ :: log) c s k t) :
    Holds stamp ((⟨now, op, granted⟩ :: log).map cleanEvent) (safeClient c) s k t := by
  obtain ⟨hgives, hexpiry⟩ | ⟨hend, hbefore⟩ := hholds
  · exact .inl ⟨gives_clean hgives, hexpiry⟩
  refine .inr ⟨?_, hl.lifted c s k t (hle.trans ht) hbefore⟩
  -- a release under the same cleaned name is the client's own
  rintro ⟨hop, hgranted⟩
  obtain ⟨c₀, hop, hclean⟩ := cleaned_release hop
  have hop : op = .release s k c₀ := hop
  have hc : c = c₀ := hsep.eq (by rw [hop]; rfl) hclean.symm ht hbefore
  exact hend ⟨by rw [hc]; exact hop, hgranted⟩

theorem backed_step (hle : last ≤ now)
    (hlaw : Lawful maxLeasesPerClient stamp R R' ⟨now, cleaned op, granted⟩) (ht : now ≤ t)
    (hholder : R'.holder t s k = some d) :
    ∃ c, safeClient c = d ∧ Holds stamp (⟨now, op, granted⟩ :: log) c s k t := by
  have hold (hR : R.holder t s k = some d)
      (hend : ∀ c, ¬ (⟨now, op, granted⟩ : Event String String String Rat).Ends s k c) :
      ∃ c, safeClient c = d ∧ Holds stamp (⟨now, op, granted⟩ :: log) c s k t := by
    obtain ⟨c, hc, hholds⟩ := hl.backed s k d t (hle.trans ht) hR
    exact ⟨c, hc, .inr ⟨hend c, hholds⟩⟩
  have hgiven {s₀ k₀ c₀ : String} (hop : op = .acquire s₀ k₀ c₀ ∨ op = .renew s₀ k₀ c₀)
      (hgranted : granted)
      (hsame : SameFrom now R' (R.assign s₀ k₀ (some ⟨safeClient c₀, stamp now⟩))) :
      ∃ c, safeClient c = d ∧ Holds stamp (⟨now, op, granted⟩ :: log) c s k t := by
    rw [(hsame.later ht).holder] at hholder
    by_cases hsk : s = s₀ ∧ k = k₀
    · obtain ⟨rfl, rfl⟩ := hsk
      obtain ⟨v, hv, hexpiry, hd⟩ := holder_eq_some.mp hholder
      rw [assign_self] at hv
      cases hv
      exact ⟨c₀, hd, .inl ⟨⟨hop, hgranted⟩, hexpiry⟩⟩
    · rw [holder_assign_ne _ hsk] at hholder
      refine hold hholder ?_
      rintro c ⟨hrelease, _⟩
      obtain hop | hop := hop <;> cases hop.symm.trans hrelease
  generalize hcl : cleaned op = cop at hlaw
  cases hlaw with
  | acquired _ hsame =>
    obtain ⟨c₀, hop, rfl⟩ := cleaned_acquire hcl
    exact hgiven (.inl hop) rfl hsame
  | renewed _ hsame =>
    obtain ⟨c₀, hop, rfl⟩ := cleaned_renew hcl
    exact hgiven (.inr hop) rfl hsame
  | @released _ s₀ k₀ _ _ hsame =>
    obtain ⟨c₀, hop, rfl⟩ := cleaned_release hcl
    rw [(hsame.later ht).holder] at hholder
    by_cases hsk : s = s₀ ∧ k = k₀
    · obtain ⟨rfl, rfl⟩ := hsk
      obtain ⟨v, hv, _⟩ := holder_eq_some.mp hholder
      rw [assign_self] at hv
      cases hv
    · rw [holder_assign_ne _ hsk] at hholder
      refine hold hholder ?_
      rintro c ⟨hrelease, _⟩
      cases hop.symm.trans hrelease
      exact hsk ⟨rfl, rfl⟩
  | refused hsame =>
    rw [(hsame.later ht).holder] at hholder
    refine hold hholder ?_
    rintro c ⟨_, hgranted⟩
    cases hgranted
  | swept hsame =>
    rw [(hsame.later ht).holder] at hholder
    refine hold hholder ?_
    rintro c ⟨hrelease, _⟩
    have hrelease : op = .release s k c := hrelease
    rw [hrelease] at hcl
    cases hcl

theorem session_of_gives (hle : last ≤ now) (hsep : Separate stamp log now op)
    (hlaw : Lawful maxLeasesPerClient stamp R R' ⟨now, cleaned op, granted⟩) {s' k' : String}
    (ht : now ≤ t) (hgives : (⟨now, op, granted⟩ : Event String String String Rat).Gives s k c)
    (hbefore : Holds stamp log c s' k' t) : s' = s := by
  have hactor := actor_of_gives hgives
  obtain ⟨hop | hop, hgranted⟩ := hgives
  · exact hsep.oneSession s k c hop s' k' (hbefore.earlier ht)
  have hop : op = .renew s k c := hop
  obtain rfl : granted := hgranted
  subst hop
  cases hlaw with
  | renewed hholder _ =>
    obtain ⟨c', hc', hnow⟩ := hl.backed s k (safeClient c) now hle hholder
    obtain rfl := hsep.eq hactor hc' le_rfl hnow
    exact hl.together c' s' s k' k now hle (hbefore.earlier ht) hnow

theorem Ledger.step (hmono : Monotone stamp) (hle : last ≤ now) (hsep : Separate stamp log now op)
    (hlaw : Lawful maxLeasesPerClient stamp R R' ⟨now, cleaned op, granted⟩) :
    Ledger stamp (⟨now, op, granted⟩ :: log) R' now where
  times := by
    intro e he
    obtain rfl | he := List.mem_cons.mp he
    · exact le_rfl
    · exact (hl.times e he).trans hle
  known := by
    refine Known.step (e := cleanEvent ⟨now, op, granted⟩) hmono hl.known ?_ hle hlaw
    intro e he
    obtain ⟨e', he', rfl⟩ := List.mem_map.mp he
    exact (hl.times e' he').trans hle
  limited := Limited.step hl.limited hle hlaw
  lifted := fun _ _ _ _ ht hholds => lifted_step hl hle hsep ht hholds
  backed := fun _ _ _ _ ht hholder => backed_step hl hle hlaw ht hholder
  apart := by
    intro c c' s s' k k' t ht hclean hc hc'
    obtain ⟨hgives, _⟩ | ⟨_, hbefore⟩ := hc
    · have hactor : actor op = some c := actor_of_gives hgives
      obtain ⟨hgives', _⟩ | ⟨_, hbefore'⟩ := hc'
      · have hactor' : actor op = some c' := actor_of_gives hgives'
        exact some.inj (hactor.symm.trans hactor')
      · exact (hsep.eq hactor hclean.symm ht hbefore').symm
    · obtain ⟨hgives', _⟩ | ⟨_, hbefore'⟩ := hc'
      · exact hsep.eq (actor_of_gives hgives') hclean ht hbefore
      · exact hl.apart c c' s s' k k' t (hle.trans ht) hclean hbefore hbefore'
  together := by
    intro c s s' k k' t ht hc hc'
    obtain ⟨hgives, _⟩ | ⟨_, hbefore⟩ := hc
    · obtain ⟨hgives', _⟩ | ⟨_, hbefore'⟩ := hc'
      · obtain ⟨hop | hop, _⟩ := hgives <;> obtain ⟨hop' | hop', _⟩ := hgives' <;>
          cases hop.symm.trans hop' <;> rfl
      · exact (session_of_gives hl hle hsep hlaw ht hgives hbefore').symm
    · obtain ⟨hgives', _⟩ | ⟨_, hbefore'⟩ := hc'
      · exact session_of_gives hl hle hsep hlaw ht hgives' hbefore
      · exact hl.together c s s' k k' t (hle.trans ht) hbefore hbefore'

theorem Ledger.holder (ht : last ≤ t)
    (hholds : Holds stamp log c s k t) : R.holder t s k = some (safeClient c) :=
  hl.known _ s k t ht (hl.lifted c s k t ht hholds)

theorem Ledger.excludes : Excludes stamp log last where
  exclusive := by
    intro t ht c c' s k hc hc'
    have hclean := (hl.holder ht hc).symm.trans (hl.holder ht hc')
    exact hl.apart c c' s s k k t ht (some.inj hclean) hc hc'
  limited := by
    classical
    intro t ht c locks hlocks
    obtain rfl | ⟨l₀, hl₀⟩ := locks.eq_empty_or_nonempty
    · exact Nat.zero_le _
    have hsession : ∀ l ∈ locks, l.1 = l₀.1 := fun l hmem =>
      hl.together c l.1 l₀.1 l.2 l₀.2 t ht (hlocks l hmem) (hlocks l₀ hl₀)
    have hcard : (locks.image Prod.snd).card = locks.card := by
      refine Finset.card_image_of_injOn fun l hmem l' hmem' hsnd => ?_
      exact Prod.ext ((hsession l hmem).trans (hsession l' hmem').symm) hsnd
    rw [← hcard]
    refine (hl.limited.later ht) l₀.1 (safeClient c) _ fun k hk => ?_
    obtain ⟨l, hmem, rfl⟩ := Finset.mem_image.mp hk
    rw [← hsession l hmem]
    exact hl.holder ht (hlocks l hmem)

theorem Ledger.kept (hle : last ≤ now) (hsep : Separate stamp log now op)
    (hlaw : Lawful maxLeasesPerClient stamp R R' ⟨now, cleaned op, granted⟩) {c' : String}
    (hc : Holds stamp log c s k now)
    (hg : (⟨now, op, granted⟩ : Event String String String Rat).Gives s k c') : c' = c := by
  have hclean := Known.not_given hl.known hle hlaw (hl.lifted c s k now hle hc) (gives_clean hg)
  exact (hsep.eq (actor_of_gives hg) hclean.symm le_rfl hc).symm

theorem Ledger.unheld (hle : last ≤ now) (hsep : Separate stamp log now op)
    (hlaw : Lawful maxLeasesPerClient stamp R R' ⟨now, cleaned op, granted⟩)
    (hop : op = .release s k c) (hc : ¬ Holds stamp log c s k now) : SameFrom now R' R := by
  refine hlaw.unheld (s := s) (r := k) (c := safeClient c) (by rw [hop]; rfl) fun hholder => ?_
  obtain ⟨c', hclean, hholds⟩ := hl.backed s k (safeClient c) now hle hholder
  obtain rfl := hsep.eq (by rw [hop]; rfl) hclean le_rfl hholds
  exact hc hholds

end

end

/-! ## Both registries -/

/-- The registries with what each was asked and granted. -/
structure World where
  hashes : Hashes := Dict.empty
  buckets : Buckets := Dict.empty
  redisLog : Log := []
  localLog : Log := []

/-- Both registries answer a call. -/
def World.serve (w : World) (now : Rat) (req : Request) : World where
  hashes := (w.hashes.serve now req).2
  buckets := (w.buckets.serve now req).2
  redisLog := ⟨now, req.op, (w.hashes.serve now req).1.isGranted⟩ :: w.redisLog
  localLog := ⟨now, req.op, (w.buckets.serve now req).1.isGranted⟩ :: w.localLog

/-- The worlds after some calls that meet a condition, with the instant of the last. -/
inductive Run (ok : World → Rat → Request → Prop) : World → Rat → Prop where
  | start (now : Rat) : Run ok {} now
  | call {w : World} {last now : Rat} {req : Request} : Run ok w last → last ≤ now →
      ok w now req → Run ok (w.serve now req) now

/-- What a call must do: nobody is given what another holds, what is given back by others stays,
    both registries grant the same, and then nobody shares a lock or has more than the limit. -/
structure Upholds (w : World) (now : Rat) (req : Request) : Prop where
  keptRedis : ∀ s k c c', Holds wholeStamp w.redisLog c s k now →
    (⟨now, req.op, (w.hashes.serve now req).1.isGranted⟩ :
      Event String String String Rat).Gives s k c' → c' = c
  keptLocal : ∀ s k c c', Holds (· + leaseTtl) w.localLog c s k now →
    (⟨now, req.op, (w.buckets.serve now req).1.isGranted⟩ :
      Event String String String Rat).Gives s k c' → c' = c
  unheldRedis : ∀ s k c, req.op = .release s k c → ¬ Holds wholeStamp w.redisLog c s k now →
    SameFrom now (hashRegister (w.hashes.serve now req).2) (hashRegister w.hashes)
  unheldLocal : ∀ s k c, req.op = .release s k c → ¬ Holds (· + leaseTtl) w.localLog c s k now →
    SameFrom now (bucketRegister (w.buckets.serve now req).2) (bucketRegister w.buckets)
  alike : req.isAsking = true →
    (w.hashes.serve now req).1.isGranted = (w.buckets.serve now req).1.isGranted
  redis : Excludes wholeStamp (w.serve now req).redisLog now
  fallback : Excludes (· + leaseTtl) (w.serve now req).localLog now

/-- A call that none of the differences touches. -/
structure Regular (w : World) (now : Rat) (req : Request) : Prop where
  separateRedis : Separate wholeStamp w.redisLog now req.op
  separateLocal : Separate (· + leaseTtl) w.localLog now req.op
  named : ∀ sid key client label, req = .acquire sid key client label → safeClient client ≠ ""
  placed : ∀ sid key client label, req = .acquire sid key client label → HasPlace w.buckets sid
  settled : ∀ sid key client, (∃ label, req = .acquire sid key client label) ∨
    req = .renew sid key client → Settled (bucketRegister w.buckets) now sid

/-- What holds between regular calls. -/
structure Sound (w : World) (last : Rat) : Prop where
  written : Written last w.hashes
  redis : Ledger wholeStamp w.redisLog (hashRegister w.hashes) last
  fallback : Ledger (· + leaseTtl) w.localLog (bucketRegister w.buckets) last
  same : SameFrom last (hashRegister w.hashes) (whole (bucketRegister w.buckets))

section

variable {w : World} {now last : Rat} {req : Request}

theorem monotone_wholeStamp : Monotone wholeStamp := by
  intro a b hab
  have hsum : a + leaseTtl ≤ b + leaseTtl := by linarith
  exact Int.cast_le.mpr (Int.floor_le_floor hsum)

theorem monotone_localStamp : Monotone fun now : Rat => now + leaseTtl := by
  intro a b hab
  exact add_le_add_left hab leaseTtl

theorem ledger_start {stamp : Rat → Rat} {R : Register String String String Rat}
    (hempty : ∀ s r, R s r = none) : Ledger stamp [] R last where
  times := by simp
  known := fun _ _ _ _ _ hholds => absurd hholds id
  limited := by
    intro s c rs hrs
    obtain rfl | ⟨r, hr⟩ := rs.eq_empty_or_nonempty
    · exact Nat.zero_le _
    · obtain ⟨v, hv, _⟩ := holder_eq_some.mp (hrs r hr)
      rw [hempty] at hv
      cases hv
  lifted := fun _ _ _ _ _ hholds => absurd hholds id
  backed := by
    intro s k d t _ hholder
    obtain ⟨v, hv, _⟩ := holder_eq_some.mp hholder
    rw [hempty] at hv
    cases hv
  apart := fun _ _ _ _ _ _ _ _ _ hholds _ => absurd hholds id
  together := fun _ _ _ _ _ _ _ hholds _ => absurd hholds id

theorem sound_start (last : Rat) : Sound {} last where
  written := by
    intro sid hash hfind
    rw [Dict.find_empty] at hfind
    cases hfind
  redis := ledger_start fun _ _ => rfl
  fallback := ledger_start fun _ _ => rfl
  same := fun _ _ => rfl

section

variable (hs : Sound w last) (hle : last ≤ now) (hr : Regular w now req)
include hs hle hr

theorem Sound.lawful :
    Lawful maxLeasesPerClient wholeStamp (hashRegister w.hashes)
        (hashRegister (w.hashes.serve now req).2)
        ⟨now, cleaned req.op, (w.hashes.serve now req).1.isGranted⟩ ∧
      Lawful maxLeasesPerClient (· + leaseTtl) (bucketRegister w.buckets)
        (bucketRegister (w.buckets.serve now req).2)
        ⟨now, cleaned req.op, (w.buckets.serve now req).1.isGranted⟩ :=
  ⟨(hashes_serve hs.written hle hr.named).1, (buckets_serve _ _ hr.placed).1⟩

theorem Sound.alike (hasks : req.isAsking) :
    (w.hashes.serve now req).1.isGranted = (w.buckets.serve now req).1.isGranted := by
  have hH := (hashes_serve hs.written hle hr.named).2.2 hasks
  have hB := (buckets_serve w.buckets now hr.placed).2 hasks
  rw [Bool.eq_iff_iff, hH, hB]
  exact asks_of_settled (hs.same.later hle) hr.settled

theorem Sound.sameFrom :
    SameFrom now (hashRegister (w.hashes.serve now req).2)
      (whole (bucketRegister (w.buckets.serve now req).2)) := by
  obtain ⟨hH, hB⟩ := hs.lawful hle hr
  have hnow := hs.same.later hle
  cases req with
  | acquire sid lockKey client label =>
    exact sameFrom_step hnow hH hB (fun _ => hs.alike hle hr rfl) fun _ _ _ hop => by cases hop
  | renew sid lockKey client =>
    exact sameFrom_step hnow hH hB (fun _ => hs.alike hle hr rfl) fun _ _ _ hop => by cases hop
  | snapshot sid =>
    exact sameFrom_step hnow hH hB (fun _ => rfl) fun _ _ _ hop => by cases hop
  | release sid lockKey client =>
    cases hk : normalizeLockKey lockKey with
    | none =>
      -- the name of no lock: neither registry is touched
      unfold Hashes.serve Buckets.serve
      simp only [hk]
      exact hnow
    | some key =>
      obtain rfl := normalizeLockKey_eq_some hk
      refine sameFrom_step hnow hH hB (fun hne => absurd rfl (hne _ _ _)) ?_
      intro s r c hop
      cases hop
      unfold Hashes.serve Buckets.serve
      simp only [hk]
      exact ⟨releaseScript_granted hs.written, releaseLocal_granted⟩

theorem Sound.serve :
    Sound (w.serve now req) now where
  written := (hashes_serve hs.written hle hr.named).2.1
  redis := hs.redis.step monotone_wholeStamp hle hr.separateRedis (hs.lawful hle hr).1
  fallback := hs.fallback.step monotone_localStamp hle hr.separateLocal (hs.lawful hle hr).2
  same := hs.sameFrom hle hr

end

theorem sound_of_run (hrun : Run Regular w last) : Sound w last := by
  induction hrun with
  | start now => exact sound_start now
  | call _ hle hr ih => exact ih.serve hle hr

/-- In a run of regular calls each call upholds the leases. -/
theorem leases_exclude (hrun : Run Regular w last) (hle : last ≤ now) (hr : Regular w now req) :
    Upholds w now req := by
  have hs := sound_of_run hrun
  have hserved := hs.serve hle hr
  obtain ⟨hH, hB⟩ := hs.lawful hle hr
  exact {
    keptRedis := fun _ _ _ _ => hs.redis.kept hle hr.separateRedis hH
    keptLocal := fun _ _ _ _ => hs.fallback.kept hle hr.separateLocal hB
    unheldRedis := fun _ _ _ hop => hs.redis.unheld hle hr.separateRedis hH hop
    unheldLocal := fun _ _ _ hop => hs.fallback.unheld hle hr.separateLocal hB hop
    alike := hs.alike hle hr
    redis := hserved.redis.excludes
    fallback := hserved.fallback.excludes }

end

/-- A call for one lock. -/
def asksLayer (client : String) : Request := .acquire "s" "layer:a" client "Label"

/-- Half a second after `ann`'s lease is over in whole seconds, and before it is over in the
    fallback, `bob` asks for the lock: only Redis grants it. -/
theorem granted_by_redis :
    ¬ ∀ (w : World) (last now : Rat) (req : Request), Run (fun _ _ _ => True) w last →
      last ≤ now → Upholds w now req := by
  intro hall
  have hrun : Run (fun _ _ _ => True) (World.serve {} (1 / 2) (asksLayer "ann")) (1 / 2) :=
    .call (.start 0) (by norm_num) trivial
  have halike := (hall _ (1 / 2) (301 / 5) (asksLayer "bob") hrun (by norm_num)).alike rfl
  exact absurd halike (by decide +kernel)

/-- `ann` has the lock of the layer, and `bob` asks for it a second later. -/
theorem leases_exclude_two :
    Upholds (World.serve {} 0 (asksLayer "ann")) 1 (asksLayer "bob") := by
  refine leases_exclude (.call (.start 0) le_rfl ?_) zero_le_one ?_
  · exact {
      separateRedis := ⟨fun _ _ _ _ _ _ _ hholds => hholds, fun _ _ _ _ _ _ hholds => absurd hholds id⟩
      separateLocal := ⟨fun _ _ _ _ _ _ _ hholds => hholds, fun _ _ _ _ _ _ hholds => absurd hholds id⟩
      named := by
        intro _ _ _ _ h
        cases h
        decide +kernel
      placed := fun _ _ _ _ _ => .inr (by decide)
      settled := by
        intro _ _ _ _ key v hv
        cases hv }
  · have hann {stamp : Rat → Rat} {c s k : String} {t : Rat} {g : Bool}
        (hholds : Holds stamp [⟨0, (asksLayer "ann").op, g⟩] c s k t) : c = "ann" ∧ s = "s" := by
      obtain ⟨⟨hop | hop, _⟩, _⟩ | ⟨_, hnil⟩ := hholds
      · cases hop
        exact ⟨rfl, rfl⟩
      · cases hop
      · exact absurd hnil id
    have hseparate {stamp : Rat → Rat} {g : Bool} :
        Separate stamp [⟨0, (asksLayer "ann").op, g⟩] 1 (asksLayer "bob").op := by
      constructor
      · intro c hactor c' _ hsame s k hholds
        cases hactor
        rw [(hann hholds).1] at hsame
        exact absurd hsame (by decide +kernel)
      · intro s k c hop s' k' hholds
        cases hop
        exact (hann hholds).2
    exact {
      separateRedis := hseparate
      separateLocal := hseparate
      named := by
        intro _ _ _ _ h
        cases h
        decide +kernel
      placed := fun _ _ _ _ _ => .inr (by decide +kernel)
      settled := by
        intro sid key client hcall key' v hv hlive
        have hone : (World.serve {} 0 (asksLayer "ann")).buckets = Dict.empty.set "s"
            (Dict.empty.set "layer:a" ⟨"ann", "Label", 0 + leaseTtl⟩) := rfl
        rw [hone] at hv
        -- the only lease is over at a whole second
        have hexpiry : v.expiry = 60 := by
          obtain ⟨_, hcall⟩ | hcall := hcall <;> cases hcall
          rw [register_set] at hv
          obtain ⟨l, hl, rfl⟩ := map_eq_some_iff.mp hv
          rw [Dict.find_set] at hl
          split at hl
          · cases hl
            exact zero_add _
          · cases hl
        rw [hexpiry] at hlive ⊢
        exact hlive.trans (by decide +kernel) }

end WebGis.Collab
