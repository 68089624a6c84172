/-
  `services/data_fabric/query/predicates.py`: the fingerprint of a predicate.

  The arguments of a conjunction are sorted by their texts and whole numbers are written as
  integers, for one fingerprint of all that says the same. Below a negation nothing is sorted or
  rewritten, nor are the members of a list that are not all numbers, nor numbers from `1e15` on.
  And what is no number is compared by its text, in which `1` and `1.0` differ.
-/
import WebGis.Query.Selected

namespace WebGis.Query

open Data List Json Scalar Predicate

/-! ## The payload -/

def Scalar.json : Scalar → Json
  | .null => .null
  | .bool b => .bool b
  | .int n => .int n
  | .float q => .float q
  | .str s => .str s

def CmpOp.name : CmpOp → String
  | eq => "eq"
  | ne => "ne"
  | gt => "gt"
  | ge => "ge"
  | lt => "lt"
  | le => "le"

/-- `model_dump()` of a test, its keys sorted. -/
def Leaf.dump : Leaf → List (String × Json)
  | compare op f v => [("field", .str f.val), ("op", .str op.name), ("value", v.json)]
  | isIn f vs =>
    [("field", .str f.val), ("op", .str "in"), ("values", .arr (vs.val.map json))]
  | notIn f vs =>
    [("field", .str f.val), ("op", .str "not_in"), ("values", .arr (vs.val.map json))]
  | between f low high =>
    [("field", .str f.val), ("high", high.val.json), ("low", low.val.json),
      ("op", .str "between")]
  | like f pattern => [("field", .str f.val), ("op", .str "like"), ("pattern", .str pattern.val)]
  | isNull f negated => [("field", .str f.val), ("negated", .bool negated), ("op", .str "is_null")]

namespace Predicate

mutual

/-- `model_dump()`, its keys sorted. -/
def dump : Predicate → Json
  | leaf l => .obj l.dump
  | and p ps => .obj [("args", .arr (dump p :: dumps ps)), ("op", .str "and")]
  | or p ps => .obj [("args", .arr (dump p :: dumps ps)), ("op", .str "or")]
  | not p => .obj [("arg", dump p), ("op", .str "not")]

def dumps : List Predicate → List Json
  | [] => []
  | p :: ps => dump p :: dumps ps

end

end Predicate

/-- `isinstance(x, (int, float)) and not isinstance(x, bool)` -/
def isPlain : Json → Bool
  | .int _ => true
  | .float _ => true
  | _ => false

def canonicalValue : Json → Json
  | .float q => if q.den = 1 ∧ q.num.natAbs < 10 ^ 15 then .int q.num else .float q
  | v => v

/-- What `_canonical_node` makes of an entry of a dump. -/
def canonicalEntry : Json → Json
  | .arr vs => .arr (if vs.all isPlain then vs.map canonicalValue else vs)
  | v => canonicalValue v

def canonicalFields (fs : List (String × Json)) : List (String × Json) :=
  fs.map fun e => (e.1, canonicalEntry e.2)

section Payload

variable (R : FloatRepr)

/-- `sorted(json.dumps(…) for a in args)`, read back. -/
def sortedTexts (vs : List Json) : List Json :=
  vs.mergeSort fun v w => decide (textWith R [' '] [' '] v ≤ textWith R [' '] [' '] w)

mutual

def canonicalNode : Predicate → Json
  | .leaf l => .obj (canonicalFields l.dump)
  | .and p ps => .obj [("args", .arr (sortedTexts R (canonicalNode p :: canonicalNodes ps))),
      ("op", .str "and")]
  | .or p ps => .obj [("args", .arr (sortedTexts R (canonicalNode p :: canonicalNodes ps))),
      ("op", .str "or")]
  | .not p => .obj (canonicalFields [("arg", p.dump), ("op", .str "not")])

def canonicalNodes : List Predicate → List Json
  | [] => []
  | p :: ps => canonicalNode p :: canonicalNodes ps

end

def canonicalPayload (p : Predicate) : List Char := Json.text R (canonicalNode R p)

end Payload

/-! ## Predicates that say the same -/

/-- Two tests that differ in their values only, as `S` says of one and `M` of a list. -/
def Leaf.UpTo (S : Scalar → Scalar → Prop) (M : List Scalar → List Scalar → Prop) :
    Leaf → Leaf → Prop
  | .compare op f v, .compare op' g w => f = g ∧ op = op' ∧ S v w
  | .isIn f vs, .isIn g ws => f = g ∧ M vs.val ws.val
  | .notIn f vs, .notIn g ws => f = g ∧ M vs.val ws.val
  | .between f a b, .between g c d => f = g ∧ S a.val c.val ∧ S b.val d.val
  | l, m => l = m

/-- One of the predicates is as `here` says, and the others are as `others` says. -/
def OneOf (here : Predicate → Prop) (others : List Predicate → Prop) (qs : List Predicate) :
    Prop :=
  ∃ r rs, qs.Perm (r :: rs) ∧ here r ∧ others rs

mutual

/-- The second predicate is the first with the arguments of its conjunctions and disjunctions in
    another order and its tests changed by `S`; below a negation only if `deep`. -/
def Rearranged (S : Leaf → Leaf → Prop) (deep : Prop) : Predicate → Predicate → Prop
  | .leaf l, .leaf m => S l m
  | .and p ps, .and q qs =>
    OneOf (fun r => Rearranged S deep p r) (fun rs => RearrangedArgs S deep ps rs) (q :: qs)
  | .or p ps, .or q qs =>
    OneOf (fun r => Rearranged S deep p r) (fun rs => RearrangedArgs S deep ps rs) (q :: qs)
  | .not p, .not q => p = q ∨ deep ∧ Rearranged S deep p q
  | _, _ => False

def RearrangedArgs (S : Leaf → Leaf → Prop) (deep : Prop) :
    List Predicate → List Predicate → Prop
  | [], qs => qs = []
  | p :: ps, qs => OneOf (fun r => Rearranged S deep p r) (fun rs => RearrangedArgs S deep ps rs) qs

end

/-- `w` is `v`, or the integer of a float without a fraction. -/
def AsInt (v w : Scalar) : Prop := v = w ∨ ∃ n : Int, v = .float n ∧ w = .int n

/-- Arguments in another order and whole numbers as integers, at any depth. -/
def Variant : Predicate → Predicate → Prop :=
  Rearranged (Leaf.UpTo AsInt (List.Forall₂ AsInt)) True

/-- A whole number below `1e15`. -/
def isSmall : Scalar → Bool
  | .int n => n.natAbs < 10 ^ 15
  | .float q => q.den = 1 ∧ q.num.natAbs < 10 ^ 15
  | _ => false

/-- One value, or one small number as an integer and as a float. -/
def Akin (v w : Scalar) : Prop := v = w ∨ isSmall v ∧ isSmall w ∧ numeric v = numeric w

/-- Members that are alike, if all are numbers. -/
def AkinMembers (vs ws : List Scalar) : Prop :=
  vs = ws ∨ (vs.map json).all isPlain ∧ List.Forall₂ Akin vs ws

/-- Arguments in another order and small numbers as integers or floats, but not below a negation
    nor in a list that is not all numbers. -/
def Aligned : Predicate → Predicate → Prop := Rearranged (Leaf.UpTo Akin AkinMembers) False

/-! ### Payloads of predicates that say the same -/

section Payload

variable (R : FloatRepr)

theorem sortedTexts_eq_iff {vs ws : List Json} :
    sortedTexts R vs = sortedTexts R ws ↔ vs.Perm ws := by
  have hsorted : ∀ us, (sortedTexts R us).Pairwise fun v w =>
      decide (textWith R [' '] [' '] v ≤ textWith R [' '] [' '] w) := by
    intro us
    refine pairwise_mergeSort ?_ ?_ us
    · intro u v w huv hvw
      exact decide_eq_true (le_trans (of_decide_eq_true huv) (of_decide_eq_true hvw))
    · intro v w
      simpa using le_total _ _
  have hperm : ∀ us, (sortedTexts R us).Perm us := fun us => mergeSort_perm us _
  constructor
  · intro h
    exact (hperm vs).symm.trans (h ▸ hperm ws)
  · intro h
    refine List.Perm.eq_of_pairwise ?_ (hsorted vs) (hsorted ws)
      ((hperm vs).trans (h.trans (hperm ws).symm))
    intro v w _ _ hvw hwv
    exact textWith_inj R (le_antisymm (of_decide_eq_true hvw) (of_decide_eq_true hwv))

theorem canonicalNodes_eq (ps : List Predicate) :
    canonicalNodes R ps = ps.map (canonicalNode R) := by
  induction ps with
  | nil => rfl
  | cons p ps ih => rw [canonicalNodes, ih, map_cons]

end Payload

theorem json_inj {v w : Scalar} (h : v.json = w.json) : v = w := by
  cases v <;> cases w <;> simp_all [json]

theorem jsons_inj {vs ws : List Scalar} (h : vs.map json = ws.map json) : vs = ws :=
  map_injective_iff.mpr (fun _ _ => json_inj) h

theorem canonicalValue_small {v : Scalar} (h : isSmall v) :
    ∃ n : Int, numeric v = some (n : Rat) ∧ canonicalValue v.json = .int n ∧
      isSmall (.int n) := by
  cases v with
  | int n => exact ⟨n, rfl, rfl, h⟩
  | float q =>
    have hq : q.den = 1 ∧ q.num.natAbs < 10 ^ 15 := of_decide_eq_true h
    refine ⟨q.num, ?_, if_pos hq, decide_eq_true hq.2⟩
    rw [numeric, Rat.coe_int_num_of_den_eq_one hq.1]
  | null | bool b | str s => cases h

theorem canonicalValue_other {v : Scalar} (h : ¬ isSmall v) : canonicalValue v.json = v.json := by
  cases v with
  | float q =>
    have hq : ¬ (q.den = 1 ∧ q.num.natAbs < 10 ^ 15) := fun hq => h (decide_eq_true hq)
    exact if_neg hq
  | null | bool b | int n | str s => rfl

theorem canonicalValue_eq_iff {v w : Scalar} :
    canonicalValue v.json = canonicalValue w.json ↔ Akin v w := by
  have hmixed : ∀ {a b : Scalar}, isSmall a → ¬ isSmall b →
      canonicalValue a.json ≠ canonicalValue b.json := by
    intro a b ha hb h
    obtain ⟨n, -, hn, hsmall⟩ := canonicalValue_small ha
    rw [hn, canonicalValue_other hb] at h
    have hb' : Scalar.int n = b := json_inj h
    exact hb (hb' ▸ hsmall)
  constructor
  · intro h
    by_cases hv : isSmall v
    · by_cases hw : isSmall w
      · obtain ⟨m, hm, hvm, -⟩ := canonicalValue_small hv
        obtain ⟨n, hn, hwn, -⟩ := canonicalValue_small hw
        rw [hvm, hwn, Json.int.injEq] at h
        exact .inr ⟨hv, hw, by rw [hm, hn, h]⟩
      · exact absurd h (hmixed hv hw)
    · by_cases hw : isSmall w
      · exact absurd h.symm (hmixed hw hv)
      rw [canonicalValue_other hv, canonicalValue_other hw] at h
      exact .inl (json_inj h)
  · rintro (rfl | ⟨hv, hw, hvw⟩)
    · rfl
    · obtain ⟨m, hm, hvm, -⟩ := canonicalValue_small hv
      obtain ⟨n, hn, hwn, -⟩ := canonicalValue_small hw
      rw [hm, hn] at hvw
      rw [hvm, hwn, Rat.intCast_injective (Option.some.inj hvw)]

theorem canonicalEntry_json (v : Scalar) : canonicalEntry v.json = canonicalValue v.json := by
  cases v <;> rfl

theorem isPlain_canonicalValue (v : Json) : isPlain (canonicalValue v) = isPlain v := by
  cases v with
  | float q => rw [canonicalValue]; split <;> rfl
  | null | bool b | int n | str s | arr vs | obj fs => rfl

theorem canonicalMembers_eq_iff {vs ws : List Scalar} :
    canonicalEntry (.arr (vs.map json)) = canonicalEntry (.arr (ws.map json)) ↔
      AkinMembers vs ws := by
  have hplain : ∀ us : List Json, (us.map canonicalValue).all isPlain = us.all isPlain := by
    intro us
    rw [all_map]
    exact congrArg us.all (funext isPlain_canonicalValue)
  have hakin : ∀ {vs ws : List Scalar}, List.Forall₂ Akin vs ws ↔
      (vs.map json).map canonicalValue = (ws.map json).map canonicalValue := by
    intro vs ws
    rw [← forall₂_eq_eq_eq, forall₂_map_left_iff, forall₂_map_left_iff,
      forall₂_map_right_iff, forall₂_map_right_iff]
    simp only [canonicalValue_eq_iff]
  unfold canonicalEntry AkinMembers
  rw [Json.arr.injEq, hakin]
  by_cases hv : (vs.map json).all isPlain
  · by_cases hw : (ws.map json).all isPlain
    · rw [if_pos hv, if_pos hw]
      exact ⟨fun h => .inr ⟨hv, h⟩, fun h => h.elim (fun h => by rw [h]) And.right⟩
    · rw [if_pos hv, if_neg hw]
      constructor
      · intro h
        rw [← hplain, h] at hv
        exact absurd hv hw
      · rintro (rfl | ⟨-, h⟩)
        · exact absurd hv hw
        · rw [← hplain, h, hplain] at hv
          exact absurd hv hw
  · rw [if_neg hv]
    constructor
    · intro h
      by_cases hw : (ws.map json).all isPlain
      · rw [if_pos hw] at h
        rw [h, hplain] at hv
        exact absurd hw hv
      · rw [if_neg hw] at h
        exact .inl (jsons_inj h)
    · rintro (rfl | ⟨h, -⟩)
      · rw [if_neg hv]
      · exact absurd h hv

theorem CmpOp.name_inj {op op' : CmpOp} (h : op.name = op'.name) : op = op' := by
  cases op <;> cases op' <;> first | rfl | exact absurd h (by decide)

theorem canonicalFields_eq_iff {l m : Leaf} :
    canonicalFields l.dump = canonicalFields m.dump ↔ Leaf.UpTo Akin AkinMembers l m := by
  have hname : ∀ {op op' : CmpOp}, op.name = op'.name ↔ op = op' :=
    ⟨CmpOp.name_inj, congrArg _⟩
  have hstr : ∀ s : String, canonicalEntry (.str s) = .str s := fun _ => rfl
  have hbool : ∀ b : Bool, canonicalEntry (.bool b) = .bool b := fun _ => rfl
  cases l <;> cases m <;>
    simp [canonicalFields, Leaf.dump, Leaf.UpTo, hstr, hbool, hname, canonicalEntry_json,
      canonicalValue_eq_iff, canonicalMembers_eq_iff, Subtype.ext_iff, and_comm]

theorem Leaf.dump_inj {l m : Leaf} (h : l.dump = m.dump) : l = m := by
  cases l <;> cases m <;> simp [Leaf.dump] at h <;> grind [CmpOp.name_inj, json_inj, jsons_inj]

namespace Predicate

theorem dumps_inj {ps : List Predicate} (hps : ∀ p ∈ ps, ∀ q, p.dump = q.dump → p = q)
    {qs : List Predicate} (h : dumps ps = dumps qs) : ps = qs := by
  induction ps generalizing qs with
  | nil =>
    cases qs with
    | nil => rfl
    | cons q qs => cases h
  | cons p ps ih =>
    cases qs with
    | nil => cases h
    | cons q qs =>
      rw [dumps, dumps, List.cons.injEq] at h
      rw [hps p mem_cons_self q h.1, ih (fun r hr => hps r (mem_cons_of_mem p hr)) h.2]

theorem dump_inj (p : Predicate) : ∀ q, p.dump = q.dump → p = q := by
  induction p using tree_induct with
  | leaf l =>
    intro q h
    cases q with
    | leaf m =>
      rw [dump, dump, Json.obj.injEq] at h
      rw [Leaf.dump_inj h]
    | and | or | not => cases l <;> simp [dump, Leaf.dump] at h
  | and p ps ih =>
    intro q h
    cases q with
    | leaf m => cases m <;> simp [dump, Leaf.dump] at h
    | and q qs =>
      have hargs : dumps (p :: ps) = dumps (q :: qs) := by simpa [dump, dumps] using h
      rw [(List.cons.inj (dumps_inj ih hargs)).1, (List.cons.inj (dumps_inj ih hargs)).2]
    | or | not => simp [dump] at h
  | or p ps ih =>
    intro q h
    cases q with
    | leaf m => cases m <;> simp [dump, Leaf.dump] at h
    | or q qs =>
      have hargs : dumps (p :: ps) = dumps (q :: qs) := by simpa [dump, dumps] using h
      rw [(List.cons.inj (dumps_inj ih hargs)).1, (List.cons.inj (dumps_inj ih hargs)).2]
    | and | not => simp [dump] at h
  | not p ih =>
    intro q h
    cases q with
    | leaf m => cases m <;> simp [dump, Leaf.dump] at h
    | not q => rw [ih q (by simpa [dump] using h)]
    | and | or => simp [dump] at h

end Predicate

section Payload

variable (R : FloatRepr)

theorem alignedArgs_iff {ps : List Predicate}
    (hps : ∀ p ∈ ps, ∀ q, canonicalNode R p = canonicalNode R q ↔ Aligned p q)
    (qs : List Predicate) : (canonicalNodes R ps).Perm (canonicalNodes R qs) ↔
      RearrangedArgs (Leaf.UpTo Akin AkinMembers) False ps qs := by
  induction ps generalizing qs with
  | nil =>
    rw [canonicalNodes, nil_perm, canonicalNodes_eq, map_eq_nil_iff, RearrangedArgs]
  | cons p ps ih =>
    have ih := ih fun q hq => hps q (mem_cons_of_mem p hq)
    rw [canonicalNodes, canonicalNodes_eq R qs, RearrangedArgs]
    constructor
    · intro h
      obtain ⟨r, hr, hpr⟩ := mem_map.mp (h.subset mem_cons_self)
      obtain ⟨s, t, rfl⟩ := append_of_mem hr
      refine ⟨r, s ++ t, perm_middle, (hps p mem_cons_self r).mp hpr.symm, ?_⟩
      refine (ih (s ++ t)).mp ?_
      rw [canonicalNodes_eq R (s ++ t)]
      have hmiddle := h.trans (perm_middle.map (canonicalNode R))
      rw [map_cons, hpr] at hmiddle
      exact hmiddle.cons_inv
    · rintro ⟨r, rs, hqs, hpr, hrs⟩
      refine List.Perm.trans ?_ (hqs.map (canonicalNode R)).symm
      rw [map_cons, (hps p mem_cons_self r).mpr hpr, ← canonicalNodes_eq]
      exact ((ih rs).mpr hrs).cons _

theorem canonicalNode_eq_iff (p : Predicate) :
    ∀ q, canonicalNode R p = canonicalNode R q ↔ Aligned p q := by
  induction p using Predicate.tree_induct with
  | leaf l =>
    intro q
    cases q with
    | leaf m =>
      rw [canonicalNode, canonicalNode, Json.obj.injEq, canonicalFields_eq_iff, Aligned, Rearranged]
    | and | or | not =>
      cases l <;> simp [canonicalNode, canonicalFields, Leaf.dump, Aligned, Rearranged]
  | and p ps ih =>
    intro q
    cases q with
    | leaf m => cases m <;> simp [canonicalNode, canonicalFields, Leaf.dump, Aligned, Rearranged]
    | and q qs =>
      have hargs := alignedArgs_iff R ih (q :: qs)
      rw [RearrangedArgs, ← sortedTexts_eq_iff R] at hargs
      rw [Aligned, Rearranged, ← hargs]
      simp [canonicalNode, canonicalNodes]
    | or | not => simp [canonicalNode, canonicalFields, Aligned, Rearranged]
  | or p ps ih =>
    intro q
    cases q with
    | leaf m => cases m <;> simp [canonicalNode, canonicalFields, Leaf.dump, Aligned, Rearranged]
    | or q qs =>
      have hargs := alignedArgs_iff R ih (q :: qs)
      rw [RearrangedArgs, ← sortedTexts_eq_iff R] at hargs
      rw [Aligned, Rearranged, ← hargs]
      simp [canonicalNode, canonicalNodes]
    | and | not => simp [canonicalNode, canonicalFields, Aligned, Rearranged]
  | not p ih =>
    intro q
    cases q with
    | leaf m => cases m <;> simp [canonicalNode, canonicalFields, Leaf.dump, Aligned, Rearranged]
    | not q =>
      have hraw : canonicalEntry p.dump = canonicalEntry q.dump ↔ p = q := by
        have hobj : ∀ r : Predicate, canonicalEntry r.dump = r.dump := by
          intro r
          cases r <;> rfl
        rw [hobj, hobj]
        exact ⟨p.dump_inj q, congrArg _⟩
      simp [canonicalNode, canonicalFields, Aligned, Rearranged, hraw]
    | and | or => simp [canonicalNode, canonicalFields, Aligned, Rearranged]

end Payload

/-! ## The evaluator on predicates that say the same -/

/-- The tests that no negation stands above. -/
def Predicate.exposed : Predicate → List Leaf
  | leaf l => [l]
  | and p ps => exposed p ++ exposedOf ps
  | or p ps => exposed p ++ exposedOf ps
  | not _ => []
where
  exposedOf : List Predicate → List Leaf
    | [] => []
    | p :: ps => exposed p ++ exposedOf ps

section Evaluator

variable (F : Floats)

/-- Integers below `1e15` are floats. -/
def Exact : Prop := ∀ n : Int, n.natAbs < 10 ^ 15 → F.ofInt n = some (n : Rat)

/-- `str(low) <= str(val) <= str(high)` -/
def textBetween (val low high : Scalar) : Bool :=
  CmpOp.le.holds (compare (pyStr F low) (pyStr F val)) &&
    CmpOp.le.holds (compare (pyStr F val) (pyStr F high))

/-- A test that, where it compares texts, finds the same with every spelling of its bounds. -/
def Steady (row : Row) : Leaf → Prop
  | .compare op f v => row.get f ≠ .null → toNumber F (row.get f) = .ok none → ∀ w, Akin v w →
      op.holds (compare (pyStr F (row.get f)) (pyStr F w)) =
        op.holds (compare (pyStr F (row.get f)) (pyStr F v))
  | .between f low high => row.get f ≠ .null → ∀ x y z, toNumber F low.val = .ok x →
      toNumber F high.val = .ok y → toNumber F (row.get f) = .ok z → none ∈ [x, y, z] →
      ∀ c d : Bound, Akin low.val c.val → Akin high.val d.val →
        textBetween F (row.get f) c.val d.val = textBetween F (row.get f) low.val high.val
  | _ => True

variable {F} {row : Row} {v w val : Scalar} {vs ws : List Scalar}

theorem toNumber_small (hF : Exact F) (h : isSmall v) :
    ∃ q, numeric v = some q ∧ toNumber F v = .ok (some (.fin q)) := by
  cases v with
  | int n => exact ⟨n, rfl, by rw [toNumber, hF n (of_decide_eq_true h)]⟩
  | float q => exact ⟨q, rfl, rfl⟩
  | null | bool b | str s => cases h

theorem toNumber_akin (hF : Exact F) (h : Akin v w) : toNumber F v = toNumber F w := by
  rcases h with rfl | ⟨hv, hw, hvw⟩
  · rfl
  obtain ⟨q, hq, hvq⟩ := toNumber_small hF hv
  obtain ⟨r, hr, hwr⟩ := toNumber_small hF hw
  rw [hq, hr] at hvw
  rw [hvq, hwr, Option.some.inj hvw]

theorem pyEq_akin (hF : Exact F) (h : Akin v w) : pyEq val v = pyEq val w := by
  rcases h with rfl | ⟨hv, -, hvw⟩
  · rfl
  obtain ⟨q, hq, -⟩ := toNumber_small hF hv
  unfold pyEq
  rw [← hvw, hq]
  cases hval : numeric val with
  | some r => rfl
  | none =>
    have hne : ∀ u, numeric u = some q → val ≠ u := by
      rintro u hu rfl
      rw [hval] at hu
      cases hu
    rw [decide_eq_false (hne v hq), decide_eq_false (hne w (hvw ▸ hq))]

theorem hitLocal_akin (hF : Exact F) (h : List.Forall₂ Akin vs ws) :
    hitLocal F val vs = hitLocal F val ws := by
  induction h with
  | nil => rfl
  | cons hvw _ ih => rw [hitLocal, hitLocal, pyEq_akin hF hvw, toNumber_akin hF hvw, ih]

theorem null_mem_akin (h : List.Forall₂ Akin vs ws) : Scalar.null ∈ vs ↔ Scalar.null ∈ ws := by
  induction h with
  | nil => rfl
  | @cons v w vs ws hvw _ ih =>
    have hnull : Scalar.null = v ↔ Scalar.null = w := by
      rcases hvw with rfl | ⟨hv, hw, -⟩
      · rfl
      · constructor <;> (rintro rfl; simp [isSmall] at hv hw)
    rw [mem_cons, mem_cons, hnull, ih]

theorem AkinMembers.forall₂ (h : AkinMembers vs ws) : List.Forall₂ Akin vs ws := by
  rcases h with rfl | ⟨-, h⟩
  · exact forall₂_same.mpr fun v _ => .inl rfl
  · exact h

theorem compareLocal_text (hF : Exact F) (op : CmpOp) (hval : toNumber F val = .ok none)
    (hw : isSmall w) :
    compareLocal F op val w = .ok (op.holds (compare (pyStr F val) (pyStr F w))) := by
  obtain ⟨q, -, hq⟩ := toNumber_small hF hw
  rw [compareLocal, hval, hq]
  rfl

theorem compareLocal_akin (hF : Exact F) (op : CmpOp) (h : Akin v w)
    (hsteady : toNumber F val = .ok none → op.holds (compare (pyStr F val) (pyStr F w)) =
      op.holds (compare (pyStr F val) (pyStr F v))) :
    compareLocal F op val v = compareLocal F op val w := by
  rcases h with rfl | ⟨hv, hw, hvw⟩
  · rfl
  by_cases hval : toNumber F val = .ok none
  · rw [compareLocal_text hF op hval hv, compareLocal_text hF op hval hw, hsteady hval]
  obtain ⟨q, -, hq⟩ := toNumber_small hF hv
  rw [compareLocal, compareLocal, ← toNumber_akin hF (.inr ⟨hv, hw, hvw⟩), hq]
  match hx : toNumber F val with
  | .error _ => rfl
  | .ok none => exact absurd hx hval
  | .ok (some _) => rfl

theorem betweenLocal_text {low high : Scalar} {x y z : Option PyFloat}
    (hx : toNumber F low = .ok x) (hy : toNumber F high = .ok y) (hz : toNumber F val = .ok z)
    (h : none ∈ [x, y, z]) : betweenLocal F val low high = .ok (textBetween F val low high) := by
  rw [betweenLocal, hx, hy, hz]
  cases x <;> cases y <;> cases z <;> first | rfl | simp at h

theorem betweenLocal_akin (hF : Exact F) {low high c d : Scalar} (hlow : Akin low c)
    (hhigh : Akin high d) (hsteady : ∀ x y z, toNumber F low = .ok x → toNumber F high = .ok y →
      toNumber F val = .ok z → none ∈ [x, y, z] →
      textBetween F val c d = textBetween F val low high) :
    betweenLocal F val low high = betweenLocal F val c d := by
  have hc := toNumber_akin hF hlow
  have hd := toNumber_akin hF hhigh
  match hx : toNumber F low, hy : toNumber F high, hz : toNumber F val with
  | .ok x, .ok y, .ok z =>
    by_cases hnone : none ∈ [x, y, z]
    · rw [betweenLocal_text hx hy hz hnone,
        betweenLocal_text (hc ▸ hx) (hd ▸ hy) hz hnone, hsteady x y z hx hy hz hnone]
    · rw [betweenLocal, betweenLocal, ← hc, ← hd, hx, hy, hz]
      cases x <;> cases y <;> cases z <;> first | rfl | simp at hnone
  | .error _, _, _ => rw [betweenLocal, betweenLocal, ← hc, hx]; rfl
  | .ok _, .error _, _ => rw [betweenLocal, betweenLocal, ← hc, ← hd, hx, hy]; rfl
  | .ok _, .ok _, .error _ => rw [betweenLocal, betweenLocal, ← hc, ← hd, hx, hy, hz]; rfl

theorem evalLeaf_akin (hF : Exact F) {l m : Leaf} (h : Leaf.UpTo Akin AkinMembers l m)
    (hl : Steady F row l) : evalLeaf F l row = evalLeaf F m row := by
  cases l with
  | compare op f v =>
    cases m with
    | compare op' g w =>
      obtain ⟨rfl, rfl, hvw⟩ := h
      unfold evalLeaf
      dsimp only [Leaf.field]
      split
      · rfl
      rename_i hnull
      rw [compareLocal_akin hF op hvw fun hval => hl hnull hval w hvw]
    | isIn | notIn | between | like | isNull => cases h
  | isIn f vs =>
    cases m with
    | isIn g ws =>
      obtain ⟨rfl, hvw⟩ := h
      unfold evalLeaf
      dsimp only [Leaf.field]
      rw [hitLocal_akin hF hvw.forall₂]
    | compare | notIn | between | like | isNull => cases h
  | notIn f vs =>
    cases m with
    | notIn g ws =>
      obtain ⟨rfl, hvw⟩ := h
      unfold evalLeaf
      dsimp only [Leaf.field]
      rw [hitLocal_akin hF hvw.forall₂]
      simp only [null_mem_akin hvw.forall₂]
    | compare | isIn | between | like | isNull => cases h
  | between f low high =>
    cases m with
    | between g c d =>
      obtain ⟨rfl, hlow, hhigh⟩ := h
      unfold evalLeaf
      dsimp only [Leaf.field]
      split
      · rfl
      rename_i hnull
      rw [betweenLocal_akin hF hlow hhigh fun x y z hx hy hz hnone =>
        hl hnull x y z hx hy hz hnone c d hlow hhigh]
    | compare | isIn | notIn | like | isNull => cases h
  | like | isNull => cases m <;> first | cases h; rfl | cases h

/-! ### Arguments in another order -/

theorem bind_raises {α β : Type} {x : Outcome α} {f : α → Outcome β}
    (hx : x ≠ .error .predicateError) (hf : ∀ a, f a ≠ .error .predicateError) :
    (x >>= f) ≠ .error .predicateError := by
  cases x with
  | ok a => exact hf a
  | error e =>
    intro h
    cases h
    exact hx rfl

theorem toNumber_raises (v : Scalar) : toNumber F v ≠ .error .predicateError := by
  cases v with
  | int n => rw [toNumber]; split <;> simp
  | null | bool b | float q | str s => simp [toNumber]

theorem hitLocal_raises (val : Scalar) (vs : List Scalar) :
    hitLocal F val vs ≠ .error .predicateError := by
  induction vs with
  | nil => simp [hitLocal]
  | cons v vs ih =>
    rw [hitLocal]
    split
    · simp
    split
    · refine bind_raises (toNumber_raises v) fun x =>
        bind_raises (toNumber_raises val) fun y => ?_
      split
      · exact fun h => by cases h
      · exact ih
    · exact ih

theorem evalLeaf_raises (l : Leaf) (row : Row) : evalLeaf F l row ≠ .error .predicateError := by
  cases l with
  | compare op f v =>
    unfold evalLeaf
    dsimp only
    split
    · simp
    refine bind_raises (bind_raises (toNumber_raises _) fun x =>
      bind_raises (toNumber_raises v) fun y => ?_) fun b h => by cases h
    cases x <;> cases y <;> exact fun h => by cases h
  | isIn f vs =>
    unfold evalLeaf
    dsimp only
    split
    · simp
    · exact bind_raises (hitLocal_raises _ _) fun b h => by cases h
  | notIn f vs =>
    unfold evalLeaf
    dsimp only
    split
    · simp
    refine bind_raises (hitLocal_raises _ _) fun b h => ?_
    split at h
    · cases h
    · split at h <;> cases h
  | between f low high =>
    unfold evalLeaf
    dsimp only
    split
    · simp
    refine bind_raises (bind_raises (toNumber_raises _) fun x =>
      bind_raises (toNumber_raises _) fun y =>
        bind_raises (toNumber_raises _) fun z => ?_) fun b h => by cases h
    cases x <;> cases y <;> cases z <;> exact fun h => by cases h
  | like f pattern => unfold evalLeaf; dsimp only; split <;> simp
  | isNull f negated => simp [evalLeaf]

theorem evalArgs_raises {ps : List Predicate}
    (hps : ∀ p ∈ ps, evalThreeValued F row p ≠ .error .predicateError) :
    evalArgs F row ps ≠ .error .predicateError := by
  induction ps with
  | nil => simp [evalArgs]
  | cons p ps ih =>
    rw [evalArgs]
    exact bind_raises (hps p mem_cons_self) fun r =>
      bind_raises (ih fun q hq => hps q (mem_cons_of_mem p hq)) fun rs h => by cases h

theorem evalThreeValued_and (p : Predicate) (ps : List Predicate) :
    evalThreeValued F row (.and p ps) = (evalArgs F row (p :: ps)).map Truth.all := by
  rw [evalThreeValued, evalArgs]
  cases evalThreeValued F row p <;> cases evalArgs F row ps <;> rfl

theorem evalThreeValued_or (p : Predicate) (ps : List Predicate) :
    evalThreeValued F row (.or p ps) = (evalArgs F row (p :: ps)).map Truth.any := by
  rw [evalThreeValued, evalArgs]
  cases evalThreeValued F row p <;> cases evalArgs F row ps <;> rfl

theorem evalThreeValued_raises (p : Predicate) :
    evalThreeValued F row p ≠ .error .predicateError := by
  induction p using Predicate.tree_induct with
  | leaf l => exact evalLeaf_raises l row
  | and p ps ih =>
    rw [evalThreeValued_and]
    exact bind_raises (evalArgs_raises ih) fun rs h => by cases h
  | or p ps ih =>
    rw [evalThreeValued_or]
    exact bind_raises (evalArgs_raises ih) fun rs h => by cases h
  | not p ih =>
    rw [evalThreeValued]
    exact bind_raises ih fun r h => by cases h

/-- Both overflow, or both have the same results, in some order. -/
def SameResults (x y : Outcome (List Truth)) : Prop :=
  x = .error .overflow ∧ y = .error .overflow ∨
    ∃ rs ss, x = .ok rs ∧ y = .ok ss ∧ rs.Perm ss

theorem SameResults.map {x y : Outcome (List Truth)} (h : SameResults x y)
    {f : List Truth → Truth} (hf : ∀ rs ss, rs.Perm ss → f rs = f ss) : x.map f = y.map f := by
  rcases h with ⟨rfl, rfl⟩ | ⟨rs, ss, rfl, rfl, hperm⟩
  · rfl
  · exact congrArg Except.ok (hf rs ss hperm)

theorem SameResults.cons {p q : Predicate} {ps qs : List Predicate}
    (hp : evalThreeValued F row p = evalThreeValued F row q)
    (h : SameResults (evalArgs F row ps) (evalArgs F row qs)) :
    SameResults (evalArgs F row (p :: ps)) (evalArgs F row (q :: qs)) := by
  rw [evalArgs, evalArgs, ← hp]
  cases hx : evalThreeValued F row p with
  | error e =>
    cases e with
    | overflow => exact .inl ⟨rfl, rfl⟩
    | predicateError => exact absurd hx (evalThreeValued_raises p)
  | ok r =>
    rcases h with ⟨hps, hqs⟩ | ⟨rs, ss, hps, hqs, hperm⟩
    · rw [hps, hqs]
      exact .inl ⟨rfl, rfl⟩
    · rw [hps, hqs]
      exact .inr ⟨_, _, rfl, rfl, hperm.cons r⟩

theorem SameResults.trans {x y z : Outcome (List Truth)} (h : SameResults x y)
    (h' : SameResults y z) : SameResults x z := by
  rcases h with ⟨rfl, rfl⟩ | ⟨rs, ss, rfl, rfl, hperm⟩
  · rcases h' with ⟨-, rfl⟩ | ⟨_, _, h, -⟩
    · exact .inl ⟨rfl, rfl⟩
    · cases h
  · rcases h' with ⟨h, -⟩ | ⟨ts, us, h, rfl, hperm'⟩
    · cases h
    cases h
    exact .inr ⟨rs, us, rfl, rfl, hperm.trans hperm'⟩

theorem evalArgs_perm {ps qs : List Predicate} (h : ps.Perm qs) :
    SameResults (evalArgs F row ps) (evalArgs F row qs) := by
  induction h with
  | nil => exact .inr ⟨[], [], rfl, rfl, .nil⟩
  | cons p _ ih => exact ih.cons rfl
  | trans _ _ ih ih' => exact ih.trans ih'
  | swap p q ps =>
    have hraise : ∀ {e}, evalThreeValued F row p = .error e ∨ evalThreeValued F row q = .error e ∨
        evalArgs F row ps = .error e → e = .overflow := by
      rintro (_ | _) h
      · rfl
      · rcases h with h | h | h
        · exact absurd h (evalThreeValued_raises p)
        · exact absurd h (evalThreeValued_raises q)
        · exact absurd h (evalArgs_raises fun r _ => evalThreeValued_raises r)
    rw [evalArgs, evalArgs, evalArgs, evalArgs]
    cases hp : evalThreeValued F row p with
    | error e =>
      obtain rfl := hraise (.inl hp)
      cases hq : evalThreeValued F row q with
      | error e => obtain rfl := hraise (.inr (.inl hq)); exact .inl ⟨rfl, rfl⟩
      | ok _ => exact .inl ⟨rfl, rfl⟩
    | ok r =>
      cases hq : evalThreeValued F row q with
      | error e => obtain rfl := hraise (.inr (.inl hq)); exact .inl ⟨rfl, rfl⟩
      | ok s =>
        cases hps : evalArgs F row ps with
        | error e => obtain rfl := hraise (.inr (.inr hps)); exact .inl ⟨rfl, rfl⟩
        | ok ts => exact .inr ⟨_, _, rfl, rfl, .swap r s ts⟩

theorem all_perm {rs ss : List Truth} (h : rs.Perm ss) : Truth.all rs = Truth.all ss := by
  rw [Truth.all, Truth.all, h.any_eq, h.any_eq]

theorem any_perm {rs ss : List Truth} (h : rs.Perm ss) : Truth.any rs = Truth.any ss := by
  rw [Truth.any, Truth.any, h.any_eq, h.any_eq]

/-! ### Aligned predicates -/

theorem evalArgs_aligned {ps : List Predicate}
    (hps : ∀ p ∈ ps, (∀ l ∈ p.exposed, Steady F row l) → ∀ q, Aligned p q →
      evalThreeValued F row p = evalThreeValued F row q)
    (hsteady : ∀ l ∈ exposed.exposedOf ps, Steady F row l) (qs : List Predicate)
    (h : RearrangedArgs (Leaf.UpTo Akin AkinMembers) False ps qs) :
    SameResults (evalArgs F row ps) (evalArgs F row qs) := by
  induction ps generalizing qs with
  | nil =>
    rw [RearrangedArgs] at h
    rw [h]
    exact .inr ⟨[], [], rfl, rfl, .nil⟩
  | cons p ps ih =>
    rw [exposed.exposedOf, forall_mem_append] at hsteady
    rw [RearrangedArgs] at h
    obtain ⟨r, rs, hqs, hpr, hrs⟩ := h
    have hrest := ih (fun q hq => hps q (mem_cons_of_mem p hq)) hsteady.2 rs hrs
    exact (hrest.cons (hps p mem_cons_self hsteady.1 r hpr)).trans (evalArgs_perm hqs.symm)

theorem evalThreeValued_aligned (hF : Exact F) (p : Predicate)
    (hsteady : ∀ l ∈ p.exposed, Steady F row l) :
    ∀ q, Aligned p q → evalThreeValued F row p = evalThreeValued F row q := by
  induction p using Predicate.tree_induct with
  | leaf l =>
    intro q h
    cases q with
    | leaf m =>
      rw [Aligned, Rearranged] at h
      exact evalLeaf_akin hF h (hsteady l mem_cons_self)
    | and | or | not => simp [Aligned, Rearranged] at h
  | and p ps ih =>
    intro q h
    cases q with
    | and q qs =>
      rw [Aligned, Rearranged] at h
      rw [evalThreeValued_and, evalThreeValued_and]
      exact (evalArgs_aligned (fun r hr hs => ih r hr hs) hsteady (q :: qs)
        (by rw [RearrangedArgs]; exact h)).map fun _ _ => all_perm
    | leaf | or | not => simp [Aligned, Rearranged] at h
  | or p ps ih =>
    intro q h
    cases q with
    | or q qs =>
      rw [Aligned, Rearranged] at h
      rw [evalThreeValued_or, evalThreeValued_or]
      exact (evalArgs_aligned (fun r hr hs => ih r hr hs) hsteady (q :: qs)
        (by rw [RearrangedArgs]; exact h)).map fun _ _ => any_perm
    | leaf | and | not => simp [Aligned, Rearranged] at h
  | not p _ =>
    intro q h
    cases q with
    | not q =>
      rw [Aligned, Rearranged, or_iff_left (fun h => h.1)] at h
      rw [h]
    | leaf | and | or => simp [Aligned, Rearranged] at h

theorem evaluate_compare {op : CmpOp} {f : FieldName} (h : row.get f ≠ .null) :
    evaluatePredicate F (.leaf (.compare op f v)) row = compareLocal F op (row.get f) v := by
  rw [evaluatePredicate, evalThreeValued, evalLeaf]
  rw [if_neg (show row.get (Leaf.compare op f v).field ≠ .null from h), Leaf.field]
  cases compareLocal F op (row.get f) v with
  | ok b => cases b <;> rfl
  | error e => rfl

theorem evaluate_between {f : FieldName} {low high : Bound} (h : row.get f ≠ .null) :
    evaluatePredicate F (.leaf (.between f low high)) row =
      betweenLocal F (row.get f) low.val high.val := by
  rw [evaluatePredicate, evalThreeValued, evalLeaf]
  rw [if_neg (show row.get (Leaf.between f low high).field ≠ .null from h), Leaf.field]
  cases betweenLocal F (row.get f) low.val high.val with
  | ok b => cases b <;> rfl
  | error e => rfl

theorem steady_of_agree (hF : Exact F) {l : Leaf} (h : ∀ m, Leaf.UpTo Akin AkinMembers l m →
      evaluatePredicate F (.leaf l) row = evaluatePredicate F (.leaf m) row) :
    Steady F row l := by
  cases l with
  | compare op f v =>
    intro hnull hval w hvw
    rcases hvw with rfl | ⟨hv, hw, hnum⟩
    · rfl
    have heq := h (.compare op f w) ⟨rfl, rfl, .inr ⟨hv, hw, hnum⟩⟩
    rw [evaluate_compare hnull, evaluate_compare hnull, compareLocal_text hF op hval hv,
      compareLocal_text hF op hval hw] at heq
    exact (Except.ok.inj heq).symm
  | between f low high =>
    intro hnull x y z hx hy hz hnone c d hc hd
    have heq := h (.between f c d) ⟨rfl, hc, hd⟩
    rw [evaluate_between hnull, evaluate_between hnull, betweenLocal_text hx hy hz hnone,
      betweenLocal_text (toNumber_akin hF hc ▸ hx) (toNumber_akin hF hd ▸ hy) hz hnone] at heq
    exact (Except.ok.inj heq).symm
  | isIn | notIn | like | isNull => trivial

end Evaluator

end WebGis.Query
