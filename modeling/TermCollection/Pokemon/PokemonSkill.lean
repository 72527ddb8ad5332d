import TermCollection.Lib.AssocList
import TermCollection.Pokemon.BattleField

/-!
# Skills (`PokemonSkill.h`, `PokemonSkill.cpp`) and the attacks of the four types (`VariousPokemon.cpp`)

The random numbers of an attack are one number: a bit of it is the outcome of a `JUDGE_OZ`.
-/

namespace TermCollection.Pokemon

def judge (draw i : Nat) : Bool := draw.testBit i

/-- The number of a buff type in the enumeration. -/
def BuffType.buffId (type : BuffType) : Int := type.ctorIdx + 1

/-- A buff after a `JUDGE_OZ`. -/
def buffIf (outcome : Bool) (type : BuffType) (turnCnt : Int) : Buff :=
  if outcome then ⟨type.buffId, turnCnt⟩ else {}

namespace PokemonAttribute

def fire : Int := 0
def water : Int := 1
def grass : Int := 2

end PokemonAttribute

def times0_2 : Double := ⟨3602879701896397, 54⟩
def times0_4 : Double := ⟨3602879701896397, 53⟩
def times0_45 : Double := ⟨8106479329266893, 54⟩

/-! ## Damage -/

/-- `calDamage`. A quotient by zero has no int. -/
def calDamage (userLevel userATK destDEF skillPower : Int) : Option Int :=
  if destDEF = 0 then none
  else
    let part1 := Double.nearest ((userLevel + 10 : Int) / 250)
    let part2 := Double.nearest ((userATK : Rat) / destDEF)
    let product := Double.nearest (Double.nearest (part1 * part2) * skillPower)
    some (Double.truncate (Double.nearest (product + 1)))

namespace PokemonSkill

/-- What a skill returns for the user, the target and the random numbers. -/
abbrev SkillFunc := PokemonBase → PokemonBase → Nat → Option AttackResult

/-- `DAMAGE`. -/
def damage (power : Int) (user dest : PokemonBase) : Option Int :=
  calDamage user.level user.curATK dest.curDEF power

/-- A skill that does the damage of its power, beside the rest of its result. -/
def hit (power : Int) (result : AttackResult) (user dest : PokemonBase) : Option AttackResult :=
  (damage power user dest).map fun d => { result with destDeltaHp := d }

/-- A skill whose result is for its user only. -/
def onSelf (type : BuffType) (turnCnt : Int) : Option AttackResult :=
  some { selfBuf := ⟨type.buffId, turnCnt⟩ }

/-- The factors for the attributes of the target. -/
def attrFactor (dest : PokemonBase) (factors : List (Int × Double)) (result : AttackResult) : AttackResult :=
  match factors.lookup dest.pkmAttr with
  | some c => { result with destDeltaHp := c.scale result.destDeltaHp }
  | none => result

/-- The damage that the user takes too. -/
def recoil (c : Double) (result : AttackResult) : AttackResult :=
  { result with selfDeltaHp := c.scale result.destDeltaHp }

/-- The damage that the user gains. -/
def drain (c : Double) (result : AttackResult) : AttackResult :=
  { result with selfDeltaHp := -c.scale result.destDeltaHp }

/-- The damage a number of times. -/
def repeated (times : Nat) (result : AttackResult) : AttackResult :=
  { result with destDeltaHp := times * result.destDeltaHp }

/-! ## The skills -/

def agility : SkillFunc := fun _ _ _ => onSelf .spdUpL 3

def appleAcid : SkillFunc := fun user dest draw =>
  (hit 80 { destBuf := buffIf (judge draw 0) .defDownM 2 } user dest).map
    (attrFactor dest [(PokemonAttribute.fire, times1_2), (PokemonAttribute.grass, times0_8)])

def bodySlam : SkillFunc := fun user dest draw =>
  hit 85 { destBuf := buffIf (judge draw 0) .palsying 2 } user dest

/-- Two to four times, by a random number of its own. -/
def bulletSeed : SkillFunc := fun user dest draw =>
  (hit 25 {} user dest).map (repeated (2 + draw % 3))

def counter : SkillFunc := fun user dest _ =>
  if user.HP = 0 then none
  else
    let rate := Double.nearest (1 + Double.nearest ((user.HP - user.curHP : Int) / (user.HP : Rat)))
    (hit 65 {} user dest).map fun result =>
      { result with destDeltaHp := Double.truncate (Double.nearest (result.destDeltaHp * rate)) }

def doubleEdge : SkillFunc := fun user dest _ => (hit 120 {} user dest).map (recoil times0_4)

def dragonPulse : SkillFunc := fun user dest _ => hit 85 {} user dest

def fireBlast : SkillFunc := fun user dest draw =>
  hit 110 { destBuf := buffIf (judge draw 0) .poisoning 3 } user dest

def flameCharge : SkillFunc := fun user dest _ =>
  hit 50 { destBuf := ⟨BuffType.spdUpL.buffId, 2⟩ } user dest

def flareBlitz : SkillFunc := fun user dest draw =>
  (hit 110 { destBuf := buffIf (judge draw 0) .poisoning 3 } user dest).map (recoil times0_45)

def grassyTerrain : SkillFunc := fun user _ _ =>
  some {
    selfBuf := ⟨BuffType.skillDamageUp.buffId, 0x3F⟩
    destBuf := ⟨BuffType.atkDownS.buffId, 1⟩
    selfDeltaHp := -times0_2.scale user.HP }

def icyWind : SkillFunc := fun user dest _ =>
  hit 75 { destBuf := ⟨BuffType.spdDownM.buffId, 3⟩ } user dest

def karateChop : SkillFunc := fun user dest _ => hit 75 {} user dest

def leafStorm : SkillFunc := fun user dest _ =>
  (hit 130 { selfBuf := ⟨BuffType.atkDownL.buffId, 2⟩ } user dest).map
    (attrFactor dest [(PokemonAttribute.water, times1_2)])

def leechLife : SkillFunc := fun user dest _ => (hit 75 {} user dest).map (drain times0_5)

def liquidation : SkillFunc := fun user dest draw =>
  (hit 90 { destBuf := buffIf (judge draw 0) .defDownM 3 } user dest).map
    (attrFactor dest [(PokemonAttribute.fire, times1_3)])

def maxSteelspike : SkillFunc := fun user dest _ =>
  hit 100 { selfBuf := ⟨BuffType.defUpL.buffId, 2⟩ } user dest

def megaDrain : SkillFunc := fun user dest _ => (hit 85 {} user dest).map (drain times0_5)

def megaPunch : SkillFunc := fun user dest _ => hit 110 {} user dest

/-- The second and the third blow have a power and a `JUDGE_OZ` of their own. -/
def outrage : SkillFunc := fun user dest draw => do
  let d₁ ← damage 75 user dest
  let d₂ ← damage 65 user dest
  let d₃ ← damage 50 user dest
  some {
    selfBuf := ⟨BuffType.sleeping.buffId, 2⟩
    destDeltaHp :=
      d₁ + if judge draw 0 then d₂ + if judge draw 1 then d₃ else 0 else 0 }

def poisonSting : SkillFunc := fun user dest _ =>
  hit 50 { destBuf := ⟨BuffType.poisoning.buffId, 5⟩ } user dest

def pound : SkillFunc := fun user dest _ => hit 70 {} user dest

def psybeam : SkillFunc := fun user dest draw =>
  hit 40 { destBuf := buffIf (judge draw 0) .palsying 3 } user dest

def quickAttack : SkillFunc := fun user dest _ =>
  hit 70 { selfBuf := ⟨BuffType.spdUpL.buffId, 2⟩ } user dest

def quickGuard : SkillFunc := fun user dest _ =>
  some { selfBuf := buffIf (user.curSPD < dest.curSPD) .damageInvalid 2 }

def reflect : SkillFunc := fun _ _ _ => onSelf .damageHalf 3

def sandAttack : SkillFunc := fun user dest _ =>
  hit 60 { destBuf := ⟨BuffType.spdDownM.buffId, 3⟩ } user dest

def solarBlade : SkillFunc := fun _ _ _ => onSelf .skillDamageDouble 2

def supersonic : SkillFunc := fun user dest draw =>
  hit 40 { destBuf := buffIf (judge draw 0) .sleeping 2 } user dest

def surgingStrikes : SkillFunc := fun user dest _ => (hit 75 {} user dest).map (repeated 2)

def swordsDance : SkillFunc := fun _ _ _ => onSelf .atkUpL 3

def skillMap : AssocList QString SkillFunc :=
  [("Agility", agility), ("AppleAcid", appleAcid), ("BodySlam", bodySlam), ("BulletSeed", bulletSeed),
    ("Counter", counter), ("DoubleEdge", doubleEdge), ("DragonPulse", dragonPulse),
    ("FireBlast", fireBlast), ("FlameCharge", flameCharge), ("FlareBlitz", flareBlitz),
    ("GrassyTerrain", grassyTerrain), ("IcyWind", icyWind), ("KarateChop", karateChop),
    ("LeafStorm", leafStorm), ("LeechLife", leechLife), ("Liquidation", liquidation),
    ("MaxSteelspike", maxSteelspike), ("MegaDrain", megaDrain), ("MegaPunch", megaPunch),
    ("Outrage", outrage), ("PoisonSting", poisonSting), ("Pound", pound), ("Psybeam", psybeam),
    ("QuickAttack", quickAttack), ("QuickGuard", quickGuard), ("Reflect", reflect),
    ("SandAttack", sandAttack), ("SolarBlade", solarBlade), ("Supersonic", supersonic),
    ("SurgingStrikes", surgingStrikes), ("SwordsDance", swordsDance)]

/-- A name that is not there gives the empty result. -/
def useSkillByName (name : QString) (user dest : PokemonBase) (draw : Nat) : Option AttackResult :=
  match AssocList.get skillMap name with
  | some skill => skill user dest draw
  | none => some {}

end PokemonSkill

/-! ## The attacks of the types -/

namespace HighAtkPkm

def attack (pkm target : PokemonBase) (skillName : QString) (draw : Nat) : Option AttackResult :=
  (PokemonSkill.useSkillByName skillName pkm target draw).map fun result =>
    if judge draw 8 ∧ result.destDeltaHp ≠ 0 then
      { result with destDeltaHp := times1_2.scale result.destDeltaHp }
    else result

end HighAtkPkm

namespace HighHpPkm

/-- The buffs that are amplified. -/
def raises (buffId : Int) : Bool :=
  buffType buffId ∈ [some .atkUpS, some .atkUpL, some .defUpS, some .defUpL, some .spdUpS, some .spdUpL]

def amplify (result : AttackResult) : AttackResult :=
  if raises result.selfBuf.buffId then
    { result with selfBuf := ⟨result.selfBuf.buffId + 1, result.selfBuf.turnCnt + 1⟩ }
  else result

def attack (pkm target : PokemonBase) (skillName : QString) (draw : Nat) : Option AttackResult :=
  (PokemonSkill.useSkillByName skillName pkm target draw).map fun result =>
    if judge draw 8 then amplify result else result

end HighHpPkm

namespace HighDefPkm

/-- The types that are chosen from, by three more outcomes. -/
def debuff (draw : Nat) : BuffType :=
  if judge draw 9 then
    if judge draw 10 then
      if judge draw 11 then .poisoning else .spdDownS
    else .defDownS
  else .atkDownS

def attack (pkm target : PokemonBase) (skillName : QString) (draw : Nat) : Option AttackResult :=
  (PokemonSkill.useSkillByName skillName pkm target draw).map fun result =>
    if judge draw 8 ∧ result.destBuf.buffId = 0 then
      { result with destBuf := ⟨(debuff draw).buffId, 1⟩ }
    else result

end HighDefPkm

namespace HighSpdPkm

def attack (pkm target : PokemonBase) (skillName : QString) (draw : Nat) : Option AttackResult :=
  (PokemonSkill.useSkillByName skillName pkm target draw).map fun result =>
    if judge draw 8 ∧ result.selfBuf.buffId = 0 then
      { result with selfBuf := ⟨BuffType.damageHalf.buffId, 1⟩ }
    else result

end HighSpdPkm

/-- The virtual `attack`. -/
def PokemonBase.attack (pkm target : PokemonBase) (skillName : QString) (draw : Nat) : Option AttackResult :=
  match pkm.pkmType with
  | .highAttack => HighAtkPkm.attack pkm target skillName draw
  | .highHitpoint => HighHpPkm.attack pkm target skillName draw
  | .highDefense => HighDefPkm.attack pkm target skillName draw
  | .highSpeed => HighSpdPkm.attack pkm target skillName draw

end TermCollection.Pokemon
