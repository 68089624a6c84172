/-
  The lease registry: the scripts that run in Redis, and the table of the fallback.

  A hash of Redis holds texts. The scripts write them by concatenation and read them by patterns,
  so they are lists of characters here. What the scripts return goes back through `acquire`,
  `renew`, `release` and `snapshot`, which clean the id of the client first.

  What the scripts read in the texts that they wrote.

  No quote is left in a client or a label, so the quotes of a text cut it into the same parts
  whatever they are, and the patterns of the scripts find what was put in.
-/
import WebGis.Data.Dict
import WebGis.Data.Dumps

namespace WebGis.Collab

open Data List Option

/-! ## Names -/

def safeClient (value : String) : String :=
  String.ofList ((value.toList.filter fun char =>
    32 ≤ char.toNat && char.toNat ≠ 127 && char ≠ '"' && char ≠ '\\').take 120)

/-- `LEASE_TTL_S` -/
def leaseTtl : Rat := 60

def maxLeasesPerClient : Nat := 16

def fallbackMaxSessions : Nat := 256

/-- The seconds that a hash outlives its last grant. -/
def hashTtl : Rat := 3600

def normalizeLockKey (raw : String) : Option String :=
  if 260 < raw.length then none
  else if ["layer:", "group:"].any fun p => startsWith p raw && p.length < raw.length then some raw
  else none

/-! ## Patterns -/

abbrev Chars : Type := List Char

/-- The text after a literal. -/
def after : Chars → Chars → Option Chars
  | [], s => some s
  | c :: p, d :: s => if c = d then after p s else none
  | _ :: _, [] => none

/-- `string.match`: the first place at which the pattern matches. -/
def firstMatch {α : Type} (pattern : Chars → Option α) : Chars → Option α
  | [] => pattern []
  | c :: s => (pattern (c :: s)).or (firstMatch pattern s)

/-- `"client":"([^"]+)"` -/
def clientPattern (s : Chars) : Option Chars := do
  let rest ← after "\"client\":\"".toList s
  let client := rest.takeWhile (· ≠ '"')
  if client.isEmpty then none
  else if (rest.dropWhile (· ≠ '"')).isEmpty then none
  else some client

/-- A number and how many characters it has: `-?%d+` -/
def numberPattern (s : Chars) : Option (Int × Nat) :=
  match s with
  | '-' :: rest =>
    let digits := rest.takeWhile Char.isDigit
    if digits.isEmpty then none else some (-(Nat.ofDigitChars 10 digits 0 : Int), digits.length + 1)
  | s =>
    let digits := s.takeWhile Char.isDigit
    if digits.isEmpty then none else some ((Nat.ofDigitChars 10 digits 0 : Int), digits.length)

/-- `"exp":` -/
def expLiteral : Chars := "\"exp\":".toList

/-- `"exp":(-?%d+)` -/
def expPattern (s : Chars) : Option (Int × Nat) := (after expLiteral s).bind numberPattern

/-- `string.gsub(v, '"exp":%-?%d+', '"exp":' .. exp)`; `skip` characters are part of a match. -/
def replaceExp (exp : Int) (skip : Nat) : Chars → Chars
  | [] => []
  | c :: s =>
    match skip with
    | skip + 1 => replaceExp exp skip s
    | 0 =>
      match expPattern (c :: s) with
      | some (_, n) => expLiteral ++ intChars exp ++ replaceExp exp (expLiteral.length + n - 1) s
      | none => c :: replaceExp exp 0 s

/-! ## What a hash holds -/

/-- The text of a lease. -/
def leaseText (client label : String) (exp : Int) : Chars :=
  "\x7b\"client\":\"".toList ++ client.toList ++ "\",\"label\":\"".toList ++ label.toList ++
    "\",\"exp\":".toList ++ intChars exp ++ "\x7d".toList

/-- The client that the pattern finds. -/
def textClient (v : Chars) : Option Chars := firstMatch clientPattern v

/-- `tonumber(string.match(v, '"exp":(-?%d+)')) or 0` -/
def textExp (v : Chars) : Int := ((firstMatch expPattern v).map Prod.fst).getD 0

/-- Who has a lock, as an answer says it. -/
structure Holder where
  client : String
  label : String
  deriving DecidableEq

/-- The client and the label of a text that the scripts wrote, decoded as JSON. -/
def decodeHolder (v : Chars) : Option Holder := do
  let rest ← after "\x7b\"client\":\"".toList v
  let client := rest.takeWhile (· ≠ '"')
  let rest ← after "\",\"label\":\"".toList (rest.dropWhile (· ≠ '"'))
  some { client := String.ofList client, label := String.ofList (rest.takeWhile (· ≠ '"')) }

/-- A hash with the instant at which the server drops it. -/
structure Hash where
  fields : Dict String Chars
  dropped : Rat

/-- The hashes of the sessions. -/
abbrev Hashes : Type := Dict String Hash

/-- The fields of a session that the server still has. -/
def Hashes.fields (H : Hashes) (now : Rat) (sid : String) : Dict String Chars :=
  match H.find sid with
  | some hash => if now < hash.dropped then hash.fields else Dict.empty
  | none => Dict.empty

/-- The fields of a session as a script leaves them, without a new date for the drop. -/
def Hashes.write (H : Hashes) (sid : String) (fields : Dict String Chars) : Hashes :=
  match H.find sid with
  | some hash => H.set sid { hash with fields := fields }
  | none => H

/-- The fields of a session after `HSET` and `PEXPIRE`. -/
def Hashes.grant (H : Hashes) (now : Rat) (sid key : String) (fields : Dict String Chars)
    (v : Chars) : Hashes :=
  H.set sid { fields := fields.set key v, dropped := now + hashTtl }

/-! ## The scripts -/

/-- What a call of the registry answers. -/
inductive Answer where
  | granted
  | invalidLockKey
  | held (holder : Option Holder)
  | clientLimit
  | capacity
  | denied
  | leases (entries : List (String × Holder))

def Answer.isGranted : Answer → Bool
  | .granted => true
  | _ => false

/-- `math.floor(now + ttl)` -/
def wholeExp (now : Rat) : Int := (now + leaseTtl).floor

/-- The keys of the leases that are over. -/
def expiredKeys (fields : Dict String Chars) (now : Rat) : List String :=
  (fields.items.filter fun kv => (textExp kv.2 : Rat) < now).map Prod.fst

def acquireScript (H : Hashes) (now : Rat) (sid lockKey client label : String) : Answer × Hashes :=
  let members := H.fields now sid
  let live := members.items.filter fun kv => ¬ (textExp kv.2 : Rat) < now
  let mine := live.countP fun kv => textClient kv.2 = some client.toList
  let kept := Table.delete members fun kv => kv.1 ∈ expiredKeys members now
  let value := leaseText client label (wholeExp now)
  match (live.find? fun kv => kv.1 = lockKey).map Prod.snd with
  | some holder =>
    if (decodeHolder holder).any fun h => h.client = client then
      (.granted, H.grant now sid lockKey kept value)
    else (.held (decodeHolder holder), H.write sid kept)
  | none =>
    if maxLeasesPerClient ≤ mine then (.clientLimit, H.write sid kept)
    else (.granted, H.grant now sid lockKey kept value)

def renewScript (H : Hashes) (now : Rat) (sid lockKey client : String) : Answer × Hashes :=
  let fields := H.fields now sid
  match fields.find lockKey with
  | some v =>
    if textClient v = some client.toList then
      if (textExp v : Rat) < now then
        (.denied, H.write sid (Table.delete fields fun kv => kv.1 = lockKey))
      else (.granted, H.grant now sid lockKey fields (replaceExp (wholeExp now) 0 v))
    else (.denied, H)
  | none => (.denied, H)

def releaseScript (H : Hashes) (now : Rat) (sid lockKey client : String) : Answer × Hashes :=
  let fields := H.fields now sid
  match fields.find lockKey with
  | some v =>
    if textClient v = some client.toList then
      (.granted, H.write sid (Table.delete fields fun kv => kv.1 = lockKey))
    else (.denied, H)
  | none => (.denied, H)

/-! ## The fallback -/

/-- A record of the fallback. -/
structure LocalLease where
  client : String
  label : String
  exp : Rat

/-- `_local` -/
abbrev Buckets : Type := Dict String (Dict String LocalLease)

/-- `_sweep_local` -/
def Buckets.sweep (B : Buckets) (now : Rat) (sid : String) : Buckets :=
  match B.find sid with
  | some bucket => B.set sid (Table.delete bucket fun kv => kv.2.exp < now)
  | none => B

def acquireLocal (B : Buckets) (now : Rat) (sid key client label : String) : Answer × Buckets :=
  let swept := B.sweep now sid
  match swept.find sid with
  | none =>
    if fallbackMaxSessions ≤ swept.keys.length then (.capacity, swept)
    else take swept Dict.empty
  | some bucket => take swept bucket
where
  take (swept : Buckets) (bucket : Dict String LocalLease) : Answer × Buckets :=
    let held := swept.set sid bucket
    let granted := swept.set sid
      (bucket.set key { client := client, label := label, exp := now + leaseTtl })
    let mine := bucket.items.countP fun kv => kv.2.client = client && now ≤ kv.2.exp
    match bucket.find key with
    | some existing =>
      if now ≤ existing.exp ∧ existing.client ≠ client then
        (.held (some { client := existing.client, label := existing.label }), held)
      else (.granted, granted)
    | none => if maxLeasesPerClient ≤ mine then (.clientLimit, held) else (.granted, granted)

/-- The fallback of `renew`. -/
def renewLocal (B : Buckets) (now : Rat) (sid key client : String) : Answer × Buckets :=
  let swept := B.sweep now sid
  match swept.find sid with
  | some bucket =>
    match bucket.find key with
    | some record =>
      if record.client = client then
        (.granted, swept.set sid (bucket.set key { record with exp := now + leaseTtl }))
      else (.denied, swept)
    | none => (.denied, swept)
  | none => (.denied, swept)

/-- The fallback of `release`. -/
def releaseLocal (B : Buckets) (sid key client : String) : Answer × Buckets :=
  match B.find sid with
  | some bucket =>
    match bucket.find key with
    | some record =>
      if record.client = client then
        let rest := Table.delete bucket fun kv => kv.1 = key
        if rest.rows.isEmpty then (.granted, Table.delete B fun kv => kv.1 = sid)
        else (.granted, B.set sid rest)
      else (.denied, B)
    | none => (.denied, B)
  | none => (.denied, B)

/-! ## The registry -/

/-- A call of the registry. -/
inductive Request where
  | acquire (sid lockKey client label : String)
  | renew (sid lockKey client : String)
  | release (sid lockKey client : String)
  | snapshot (sid : String)

/-- The registry over Redis. -/
def Hashes.serve (H : Hashes) (now : Rat) : Request → Answer × Hashes
  | .acquire sid lockKey client label =>
    match normalizeLockKey lockKey with
    | none => (.invalidLockKey, H)
    | some key => acquireScript H now sid key (safeClient client) (safeClient label)
  | .renew sid lockKey client =>
    match normalizeLockKey lockKey with
    | none => (.denied, H)
    | some key => renewScript H now sid key (safeClient client)
  | .release sid lockKey client =>
    match normalizeLockKey lockKey with
    | none => (.denied, H)
    | some key => releaseScript H now sid key (safeClient client)
  | .snapshot sid =>
    let shown := (H.fields now sid).items.filter fun kv => ¬ (textExp kv.2 : Rat) < now
    (.leases (shown.filterMap fun kv => (decodeHolder kv.2).map fun h => (kv.1, h)), H)

/-- The registry without Redis. -/
def Buckets.serve (B : Buckets) (now : Rat) : Request → Answer × Buckets
  | .acquire sid lockKey client label =>
    match normalizeLockKey lockKey with
    | none => (.invalidLockKey, B)
    | some key => acquireLocal B now sid key (safeClient client) (safeClient label)
  | .renew sid lockKey client =>
    match normalizeLockKey lockKey with
    | none => (.denied, B)
    | some key => renewLocal B now sid key (safeClient client)
  | .release sid lockKey client =>
    match normalizeLockKey lockKey with
    | none => (.denied, B)
    | some key => releaseLocal B sid key (safeClient client)
  | .snapshot sid =>
    let swept := B.sweep now sid
    (.leases (((swept.find sid).map Dict.items).getD [] |>.map fun kv =>
      (kv.1, { client := kv.2.client, label := kv.2.label })), swept)

/-- No quote is in the text. -/
def Quoteless (s : Chars) : Prop := '"' ∉ s

instance : DecidablePred Quoteless := fun _ => inferInstanceAs (Decidable (_ ∉ _))

theorem quoteless_safeClient (value : String) : Quoteless (safeClient value).toList := by
  intro h
  unfold safeClient at h
  rw [String.toList_ofList] at h
  have hkept := (mem_filter.mp (mem_of_mem_take h)).2
  simp at hkept

/-! ## Literals and quotes -/

theorem after_self (p s : Chars) : after p (p ++ s) = some s := by
  induction p with
  | nil => rfl
  | cons c p ih => rw [cons_append, after, if_pos rfl, ih]

variable {part : Chars}

theorem after_ne {w : Chars} (hw : Quoteless w) (hpart : Quoteless part) (hne : w ≠ part)
    (p rest : Chars) : after (w ++ '"' :: p) (part ++ '"' :: rest) = none := by
  induction w generalizing part with
  | nil =>
    cases part with
    | nil => exact absurd rfl hne
    | cons d part =>
      have hd : '"' ≠ d := fun h => hpart (h ▸ mem_cons_self)
      simp [after, hd]
  | cons c w ih =>
    have hc : c ≠ '"' := fun h => hw (h ▸ mem_cons_self)
    cases part with
    | nil => simp [after, hc]
    | cons d part =>
      by_cases hcd : c = d
      · subst hcd
        rw [cons_append, cons_append, after, if_pos rfl]
        exact ih (fun h => hw (mem_cons_of_mem _ h))
          (fun h => hpart (mem_cons_of_mem _ h)) fun h => hne (by rw [h])
      · simp [after, hcd]

theorem takeWhile_quoteless (h : Quoteless part) (rest : Chars) :
    (part ++ '"' :: rest).takeWhile (· ≠ '"') = part := by
  rw [takeWhile_append_of_pos]
  · simp
  · intro c hc
    simpa using fun (he : c = '"') => h (he ▸ hc)

theorem dropWhile_quoteless (h : Quoteless part) (rest : Chars) :
    (part ++ '"' :: rest).dropWhile (· ≠ '"') = '"' :: rest := by
  rw [dropWhile_append_of_pos]
  · simp
  · intro c hc
    simpa using fun (he : c = '"') => h (he ▸ hc)

variable {α : Type} {pattern : Chars → Option α}

theorem firstMatch_part (hp : ∀ c s, c ≠ '"' → pattern (c :: s) = none) (h : Quoteless part)
    (rest : Chars) : firstMatch pattern (part ++ rest) = firstMatch pattern rest := by
  induction part with
  | nil => rfl
  | cons c part ih =>
    have hc : c ≠ '"' := fun he => h (he ▸ mem_cons_self)
    rw [cons_append, firstMatch, hp c _ hc, none_or]
    exact ih fun hm => h (mem_cons_of_mem _ hm)

theorem firstMatch_some {s : Chars} {a : α} (h : pattern s = some a) :
    firstMatch pattern s = some a := by
  cases s with
  | nil => exact h
  | cons c s => rw [firstMatch, h, some_or]

theorem firstMatch_none {c : Char} {s : Chars} (h : pattern (c :: s) = none) :
    firstMatch pattern (c :: s) = firstMatch pattern s := by
  rw [firstMatch, h, none_or]

/-! ## The parts of a lease -/

theorem leaseText_parts (client label : String) (exp : Int) :
    leaseText client label exp =
      '{' :: '"' :: ("client".toList ++ '"' :: (":".toList ++ '"' :: (client.toList ++ '"' ::
        (",".toList ++ '"' :: ("label".toList ++ '"' :: (":".toList ++ '"' :: (label.toList ++ '"' ::
          (",".toList ++ '"' :: ("exp".toList ++ '"' :: ':' :: (intChars exp ++ ['}'])))))))))) := by
  have hopen : "\x7b\"client\":\"".toList = '{' :: '"' :: ("client".toList ++ '"' :: [':', '"']) := rfl
  have hlabel : "\",\"label\":\"".toList =
      '"' :: ',' :: '"' :: ("label".toList ++ '"' :: [':', '"']) := rfl
  have hexp : "\",\"exp\":".toList = '"' :: ',' :: '"' :: ("exp".toList ++ '"' :: [':']) := rfl
  unfold leaseText
  rw [hopen, hlabel, hexp]
  simp only [append_assoc, cons_append, nil_append]
  rfl

theorem clientPattern_ne (c : Char) (s : Chars) (h : c ≠ '"') : clientPattern (c :: s) = none := by
  have hafter : after "\"client\":\"".toList (c :: s) = none := by
    simp [after, Ne.symm h]
  rw [clientPattern, hafter]
  rfl

theorem expPattern_ne (c : Char) (s : Chars) (h : c ≠ '"') : expPattern (c :: s) = none := by
  simp [expPattern, expLiteral, after, Ne.symm h]

variable {label client : String} {exp : Int}

theorem textClient_leaseText (hc : Quoteless client.toList) (hne : client ≠ "") :
    textClient (leaseText client label exp) = some client.toList := by
  have hnil : client.toList.isEmpty = false := by
    rw [isEmpty_eq_false_iff]
    intro h
    exact hne (String.toList_inj.mp (h.trans rfl))
  unfold textClient
  rw [leaseText_parts, firstMatch_none (clientPattern_ne '{' _ (by decide))]
  apply firstMatch_some
  have hafter (rest : Chars) : after "\"client\":\"".toList
      ('"' :: ("client".toList ++ '"' :: (":".toList ++ '"' :: rest))) = some rest :=
    after_self "\"client\":\"".toList rest
  rw [clientPattern, hafter]
  dsimp only [bind_eq_bind, bind_some]
  rw [takeWhile_quoteless hc, dropWhile_quoteless hc, hnil]
  rfl

theorem decodeHolder_leaseText (hc : Quoteless client.toList) (hl : Quoteless label.toList) :
    decodeHolder (leaseText client label exp) = some { client := client, label := label } := by
  have hfirst (rest : Chars) : after "\x7b\"client\":\"".toList
      ('{' :: '"' :: ("client".toList ++ '"' :: (":".toList ++ '"' :: rest))) = some rest :=
    after_self "\x7b\"client\":\"".toList rest
  have hsecond (rest : Chars) : after "\",\"label\":\"".toList
      ('"' :: (",".toList ++ '"' :: ("label".toList ++ '"' :: (":".toList ++ '"' :: rest)))) =
        some rest :=
    after_self "\",\"label\":\"".toList rest
  rw [leaseText_parts, decodeHolder, hfirst]
  dsimp only [bind_eq_bind, bind_some]
  rw [takeWhile_quoteless hc, dropWhile_quoteless hc, hsecond]
  dsimp only [bind_some]
  rw [takeWhile_quoteless hl, String.ofList_toList, String.ofList_toList]

/-! ## The expiry -/

theorem numberPattern_intChars (n : Int) :
    numberPattern (intChars n ++ ['}']) = some (n, (intChars n).length) := by
  have hdigits (m : Nat) : ((Nat.toDigits 10 m) ++ ['}']).takeWhile Char.isDigit =
      Nat.toDigits 10 m := by
    rw [takeWhile_append_of_pos fun c hc => isDigit_of_mem hc]
    simp
  have hne (m : Nat) : (Nat.toDigits 10 m).isEmpty = false := by
    rw [isEmpty_eq_false_iff]
    exact Nat.toDigits_ne_nil
  cases n with
  | ofNat m =>
    unfold intChars numberPattern
    split
    · rename_i rest heq
      have heq : Nat.toDigits 10 m ++ ['}'] = '-' :: rest := heq
      have hmem : '-' ∈ Nat.toDigits 10 m := by
        cases hd : Nat.toDigits 10 m with
        | nil => exact absurd hd Nat.toDigits_ne_nil
        | cons d ds =>
          rw [hd] at heq
          cases heq
          exact mem_cons_self
      exact absurd hmem (minus_notMem m)
    · dsimp only
      rw [hdigits, hne, Nat.ofDigitChars_ten_toDigits]
      rfl
  | negSucc m =>
    unfold intChars
    rw [cons_append, numberPattern]
    rw [hdigits, hne, Nat.ofDigitChars_ten_toDigits]
    rfl

variable {rest : Chars}

/-- At a quote before another part than `exp`, or before `exp` as a value, there is no expiry. -/
theorem expPattern_part (hpart : Quoteless part) (h : part ≠ "exp".toList ∨ rest.head? ≠ some ':') :
    expPattern ('"' :: (part ++ '"' :: rest)) = none := by
  have hafter : after ("exp".toList ++ '"' :: [':']) (part ++ '"' :: rest) = none := by
    by_cases hexp : "exp".toList = part
    · have hhead := h.resolve_left fun hne => hne hexp.symm
      rw [← hexp]
      cases rest with
      | nil => rfl
      | cons c rest =>
        have hc : ':' ≠ c := fun he => hhead (he ▸ rfl)
        simp [after, hc]
    · exact after_ne (by decide) hpart hexp _ _
  have hsplit : expLiteral = '"' :: ("exp".toList ++ '"' :: [':']) := rfl
  rw [expPattern, hsplit, after, if_pos rfl, hafter]
  rfl

theorem expPattern_exp (n : Int) :
    expPattern ('"' :: ("exp".toList ++ '"' :: ':' :: (intChars n ++ ['}']))) =
      some (n, (intChars n).length) := by
  have hafter : after expLiteral ('"' :: ("exp".toList ++ '"' :: ':' :: (intChars n ++ ['}']))) =
      some (intChars n ++ ['}']) := after_self expLiteral _
  rw [expPattern, hafter, bind_some, numberPattern_intChars]

theorem firstMatch_expPattern (hpart : Quoteless part)
    (h : part ≠ "exp".toList ∨ rest.head? ≠ some ':') :
    firstMatch expPattern ('"' :: (part ++ '"' :: rest)) = firstMatch expPattern ('"' :: rest) := by
  rw [firstMatch_none (expPattern_part hpart h), firstMatch_part expPattern_ne hpart]

theorem textExp_leaseText (hc : Quoteless client.toList) (hl : Quoteless label.toList) :
    textExp (leaseText client label exp) = exp := by
  unfold textExp
  rw [leaseText_parts, firstMatch_none (expPattern_ne '{' _ (by decide)),
    firstMatch_expPattern (by decide) (.inl (by decide)),
    firstMatch_expPattern (by decide) (.inl (by decide)),
    firstMatch_expPattern hc (.inr (by simp)),
    firstMatch_expPattern (by decide) (.inl (by decide)),
    firstMatch_expPattern (by decide) (.inl (by decide)),
    firstMatch_expPattern (by decide) (.inl (by decide)),
    firstMatch_expPattern hl (.inr (by simp)),
    firstMatch_expPattern (by decide) (.inl (by decide)),
    firstMatch_some (expPattern_exp exp)]
  rfl

theorem replaceExp_quoteless (h : Quoteless part) (exp : Int) (rest : Chars) :
    replaceExp exp 0 (part ++ rest) = part ++ replaceExp exp 0 rest := by
  induction part with
  | nil => rfl
  | cons c part ih =>
    have hc : c ≠ '"' := fun he => h (he ▸ mem_cons_self)
    rw [cons_append, replaceExp, expPattern_ne c _ hc]
    rw [ih fun hm => h (mem_cons_of_mem _ hm), cons_append]

theorem replaceExp_part (hpart : Quoteless part) (exp : Int)
    (h : part ≠ "exp".toList ∨ rest.head? ≠ some ':') :
    replaceExp exp 0 ('"' :: (part ++ '"' :: rest)) =
      '"' :: (part ++ replaceExp exp 0 ('"' :: rest)) := by
  rw [replaceExp, expPattern_part hpart h]
  rw [replaceExp_quoteless hpart]

theorem replaceExp_skip (exp : Int) (skipped rest : Chars) :
    replaceExp exp skipped.length (skipped ++ rest) = replaceExp exp 0 rest := by
  induction skipped with
  | nil => rfl
  | cons c skipped ih =>
    rw [cons_append, length_cons, replaceExp]
    exact ih

theorem replaceExp_leaseText (hc : Quoteless client.toList) (hl : Quoteless label.toList)
    (exp' : Int) :
    replaceExp exp' 0 (leaseText client label exp) = leaseText client label exp' := by
  have hexp : replaceExp exp' 0 ('"' :: ("exp".toList ++ '"' :: ':' :: (intChars exp ++ ['}']))) =
      '"' :: ("exp".toList ++ '"' :: ':' :: (intChars exp' ++ ['}'])) := by
    rw [replaceExp, expPattern_exp]
    dsimp only
    have htail : "exp".toList ++ '"' :: ':' :: (intChars exp ++ ['}']) =
        ("exp\":".toList ++ intChars exp) ++ ['}'] := by simp
    have hlength : expLiteral.length + (intChars exp).length - 1 =
        ("exp\":".toList ++ intChars exp).length := by
      have hliteral : expLiteral.length = 6 := rfl
      have hword : "exp\":".toList.length = 5 := rfl
      rw [length_append, hliteral, hword]
      omega
    rw [htail, hlength, replaceExp_skip]
    simp [expLiteral, replaceExp, expPattern, after]
  rw [leaseText_parts, leaseText_parts, replaceExp, expPattern_ne '{' _ (by decide)]
  rw [replaceExp_part (by decide) _ (.inl (by decide)),
    replaceExp_part (by decide) _ (.inl (by decide)),
    replaceExp_part hc _ (.inr (by simp)),
    replaceExp_part (by decide) _ (.inl (by decide)),
    replaceExp_part (by decide) _ (.inl (by decide)),
    replaceExp_part (by decide) _ (.inl (by decide)),
    replaceExp_part hl _ (.inr (by simp)),
    replaceExp_part (by decide) _ (.inl (by decide)), hexp]

/-- Whatever a client is called, its lease is read back, and a renewal changes the expiry only. -/
theorem lease_read_back (client label : String) (exp exp' : Int) :
    let text := leaseText (safeClient client) (safeClient label)
    decodeHolder (text exp) = some ⟨safeClient client, safeClient label⟩ ∧
      textExp (text exp) = exp ∧ replaceExp exp' 0 (text exp) = text exp' := by
  have hc := quoteless_safeClient client
  have hl := quoteless_safeClient label
  exact ⟨decodeHolder_leaseText hc hl, textExp_leaseText hc hl, replaceExp_leaseText hc hl exp'⟩

end WebGis.Collab
