import TermCollection.Pokemon.PokemonSkill

/-!
# The buffs of the skills

Which buffs each skill can give to its user and to its target.
-/

namespace TermCollection.Pokemon

variable {result : AttackResult} {user dest : PokemonBase} {draw : Nat} {name : QString}

theorem buffType_buffId (type : BuffType) : buffType type.buffId = some type := by
  cases type <;> rfl

namespace PokemonSkill

variable {o : Option AttackResult} {buffs : List (Buff × Buff)} {power : Int}

/-- A result has buffs of the list. -/
def HasBuffs (o : Option AttackResult) (buffs : List (Buff × Buff)) : Prop :=
  ∀ result, o = some result → (result.selfBuf, result.destBuf) ∈ buffs

theorem hasBuffs_some (h : (result.selfBuf, result.destBuf) ∈ buffs) : HasBuffs (some result) buffs := by
  intro result' heq
  cases heq
  exact h

theorem HasBuffs.map {f : AttackResult → AttackResult} (h : HasBuffs o buffs)
    (hf : ∀ result, (f result).selfBuf = result.selfBuf ∧ (f result).destBuf = result.destBuf) :
    HasBuffs (o.map f) buffs := by
  intro result heq
  obtain ⟨result', ho, rfl⟩ := Option.map_eq_some_iff.mp heq
  rw [(hf result').1, (hf result').2]
  exact h result' ho

theorem hasBuffs_hit (h : (result.selfBuf, result.destBuf) ∈ buffs) :
    HasBuffs (hit power result user dest) buffs := by
  intro result' heq
  obtain ⟨d, -, rfl⟩ := Option.map_eq_some_iff.mp heq
  exact h

theorem attrFactor_buffs (factors : List (Int × Double)) (result : AttackResult) :
    (attrFactor dest factors result).selfBuf = result.selfBuf ∧
      (attrFactor dest factors result).destBuf = result.destBuf := by
  unfold attrFactor
  split <;> exact ⟨rfl, rfl⟩

/-- The two outcomes of a `JUDGE_OZ`. -/
theorem buffIf_mem (outcome : Bool) (type : BuffType) (turnCnt : Int) :
    (({} : Buff), buffIf outcome type turnCnt) ∈ [({}, {}), ({}, ⟨type.buffId, turnCnt⟩)] := by
  cases outcome
  · exact List.mem_cons_self
  · exact List.mem_cons_of_mem _ List.mem_cons_self

/-! ## The table -/

def onlySelf (type : BuffType) (turnCnt : Int) : List (Buff × Buff) := [(⟨type.buffId, turnCnt⟩, {})]

def onlyDest (type : BuffType) (turnCnt : Int) : List (Buff × Buff) := [({}, ⟨type.buffId, turnCnt⟩)]

/-- The buff of the target comes by chance. -/
def maybeDest (type : BuffType) (turnCnt : Int) : List (Buff × Buff) :=
  [({}, {}), ({}, ⟨type.buffId, turnCnt⟩)]

def noBuffs : List (Buff × Buff) := [({}, {})]

/-- The pairs of buffs that a skill can return, in the order of `skillMap`. -/
def skillBuffs : AssocList QString (List (Buff × Buff)) :=
  [("Agility", onlySelf .spdUpL 3), ("AppleAcid", maybeDest .defDownM 2),
    ("BodySlam", maybeDest .palsying 2), ("BulletSeed", noBuffs), ("Counter", noBuffs),
    ("DoubleEdge", noBuffs), ("DragonPulse", noBuffs), ("FireBlast", maybeDest .poisoning 3),
    ("FlameCharge", onlyDest .spdUpL 2), ("FlareBlitz", maybeDest .poisoning 3),
    ("GrassyTerrain", [(⟨BuffType.skillDamageUp.buffId, 63⟩, ⟨BuffType.atkDownS.buffId, 1⟩)]),
    ("IcyWind", onlyDest .spdDownM 3), ("KarateChop", noBuffs), ("LeafStorm", onlySelf .atkDownL 2),
    ("LeechLife", noBuffs), ("Liquidation", maybeDest .defDownM 3), ("MaxSteelspike", onlySelf .defUpL 2),
    ("MegaDrain", noBuffs), ("MegaPunch", noBuffs), ("Outrage", onlySelf .sleeping 2),
    ("PoisonSting", onlyDest .poisoning 5), ("Pound", noBuffs), ("Psybeam", maybeDest .palsying 3),
    ("QuickAttack", onlySelf .spdUpL 2),
    ("QuickGuard", [({}, {}), (⟨BuffType.damageInvalid.buffId, 2⟩, {})]),
    ("Reflect", onlySelf .damageHalf 3), ("SandAttack", onlyDest .spdDownM 3),
    ("SolarBlade", onlySelf .skillDamageDouble 2), ("Supersonic", maybeDest .sleeping 2),
    ("SurgingStrikes", noBuffs), ("SwordsDance", onlySelf .atkUpL 3)]

theorem hasBuffs_plain {f : AttackResult → AttackResult}
    (hf : ∀ result, (f result).selfBuf = result.selfBuf ∧ (f result).destBuf = result.destBuf) :
    HasBuffs ((hit power {} user dest).map f) noBuffs :=
  (hasBuffs_hit List.mem_cons_self).map hf

theorem hasBuffs_counter (user dest : PokemonBase) (draw : Nat) : HasBuffs (counter user dest draw) noBuffs := by
  unfold counter
  split
  · intro result heq
    cases heq
  · exact hasBuffs_plain fun _ => ⟨rfl, rfl⟩

theorem hasBuffs_outrage (user dest : PokemonBase) (draw : Nat) :
    HasBuffs (outrage user dest draw) (onlySelf .sleeping 2) := by
  intro result heq
  simp only [outrage, Option.bind_eq_bind, Option.bind_eq_some_iff] at heq
  obtain ⟨_, -, _, -, _, -, hresult⟩ := heq
  cases hresult
  exact List.mem_cons_self

theorem hasBuffs_quickGuard (user dest : PokemonBase) (draw : Nat) :
    HasBuffs (quickGuard user dest draw) [({}, {}), (⟨BuffType.damageInvalid.buffId, 2⟩, {})] := by
  refine hasBuffs_some ?_
  cases decide (user.curSPD < dest.curSPD)
  · exact List.mem_cons_self
  · exact List.mem_cons_of_mem _ List.mem_cons_self

theorem skill_buffs : List.Forall₂
    (fun skill row => skill.1 = row.1 ∧ ∀ user dest draw, HasBuffs (skill.2 user dest draw) row.2)
    skillMap skillBuffs := by
  have plain : ∀ {power user dest}, HasBuffs (hit power {} user dest) noBuffs :=
    hasBuffs_hit List.mem_cons_self
  have chance : ∀ {power user dest outcome type turnCnt},
      HasBuffs (hit power { destBuf := buffIf outcome type turnCnt } user dest) (maybeDest type turnCnt) :=
    hasBuffs_hit (buffIf_mem _ _ _)
  have fixed : ∀ {power user dest type turnCnt},
      HasBuffs (hit power { destBuf := ⟨BuffType.buffId type, turnCnt⟩ } user dest) (onlyDest type turnCnt) :=
    hasBuffs_hit List.mem_cons_self
  have own : ∀ {type turnCnt}, HasBuffs (onSelf type turnCnt) (onlySelf type turnCnt) :=
    hasBuffs_some List.mem_cons_self
  refine .cons ⟨rfl, fun _ _ _ => own⟩ ?_
  refine .cons ⟨rfl, fun _ _ _ => chance.map (attrFactor_buffs _)⟩ ?_
  refine .cons ⟨rfl, fun _ _ _ => chance⟩ ?_
  refine .cons ⟨rfl, fun _ _ _ => hasBuffs_plain fun _ => ⟨rfl, rfl⟩⟩ ?_
  refine .cons ⟨rfl, hasBuffs_counter⟩ ?_
  refine .cons ⟨rfl, fun _ _ _ => hasBuffs_plain fun _ => ⟨rfl, rfl⟩⟩ ?_
  refine .cons ⟨rfl, fun _ _ _ => plain⟩ ?_
  refine .cons ⟨rfl, fun _ _ _ => chance⟩ ?_
  refine .cons ⟨rfl, fun _ _ _ => fixed⟩ ?_
  refine .cons ⟨rfl, fun _ _ _ => chance.map fun _ => ⟨rfl, rfl⟩⟩ ?_
  refine .cons ⟨rfl, fun _ _ _ => hasBuffs_some List.mem_cons_self⟩ ?_
  refine .cons ⟨rfl, fun _ _ _ => fixed⟩ ?_
  refine .cons ⟨rfl, fun _ _ _ => plain⟩ ?_
  refine .cons ⟨rfl, fun _ _ _ => (hasBuffs_hit List.mem_cons_self).map (attrFactor_buffs _)⟩ ?_
  refine .cons ⟨rfl, fun _ _ _ => hasBuffs_plain fun _ => ⟨rfl, rfl⟩⟩ ?_
  refine .cons ⟨rfl, fun _ _ _ => chance.map (attrFactor_buffs _)⟩ ?_
  refine .cons ⟨rfl, fun _ _ _ => hasBuffs_hit List.mem_cons_self⟩ ?_
  refine .cons ⟨rfl, fun _ _ _ => hasBuffs_plain fun _ => ⟨rfl, rfl⟩⟩ ?_
  refine .cons ⟨rfl, fun _ _ _ => plain⟩ ?_
  refine .cons ⟨rfl, hasBuffs_outrage⟩ ?_
  refine .cons ⟨rfl, fun _ _ _ => fixed⟩ ?_
  refine .cons ⟨rfl, fun _ _ _ => plain⟩ ?_
  refine .cons ⟨rfl, fun _ _ _ => chance⟩ ?_
  refine .cons ⟨rfl, fun _ _ _ => hasBuffs_hit List.mem_cons_self⟩ ?_
  refine .cons ⟨rfl, hasBuffs_quickGuard⟩ ?_
  refine .cons ⟨rfl, fun _ _ _ => own⟩ ?_
  refine .cons ⟨rfl, fun _ _ _ => fixed⟩ ?_
  refine .cons ⟨rfl, fun _ _ _ => own⟩ ?_
  refine .cons ⟨rfl, fun _ _ _ => chance⟩ ?_
  refine .cons ⟨rfl, fun _ _ _ => hasBuffs_plain fun _ => ⟨rfl, rfl⟩⟩ ?_
  refine .cons ⟨rfl, fun _ _ _ => own⟩ ?_
  exact .nil

theorem useSkillByName_buffs (h : useSkillByName name user dest draw = some result) :
    (result.selfBuf, result.destBuf) ∈ (AssocList.get skillBuffs name).getD noBuffs := by
  have hrel := AssocList.get_forall₂ (r := fun (skill : SkillFunc) row =>
    ∀ user dest draw, HasBuffs (skill user dest draw) row) skill_buffs name
  unfold useSkillByName at h
  generalize AssocList.get skillMap name = skill, AssocList.get skillBuffs name = row at h hrel
  cases hrel with
  | none =>
      cases h
      exact List.mem_cons_self
  | some hbuffs => exact hbuffs user dest draw result h

/-- What holds of every pair of the table, and of a name that is not in it. -/
theorem of_skillBuffs {P : QString → Buff × Buff → Prop} (hnone : ∀ name, P name ({}, {}))
    (htable : ∀ row ∈ skillBuffs, ∀ pair ∈ row.2, P row.1 pair)
    (h : useSkillByName name user dest draw = some result) : P name (result.selfBuf, result.destBuf) := by
  have hmem := useSkillByName_buffs h
  cases hrow : AssocList.get skillBuffs name with
  | none =>
      rw [hrow] at hmem
      rw [List.mem_singleton.mp hmem]
      exact hnone name
  | some row =>
      rw [hrow] at hmem
      obtain ⟨entry, hfind, rfl⟩ := Option.map_eq_some_iff.mp hrow
      have hname : entry.1 = name := by simpa using List.find?_some hfind
      rw [← hname]
      exact htable entry (List.mem_of_find?_eq_some hfind) _ hmem

end PokemonSkill

end TermCollection.Pokemon
