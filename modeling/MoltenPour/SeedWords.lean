import MoltenPour.HashedScore
import MoltenPour.PipelineAgreement

/-! The words of a seed. In the clamp's range all but the timestamp stay below
2^17, two bytes and a bit, and one of them cannot change without the hash. -/
namespace MoltenPour.SeedWords
open NumberFormat Artifact BinaryFormat ClampAgreement HashedScore

def arranged (w : Fin 6 → UInt32) (timestamp : UInt32) : List UInt32 :=
  [w 0,w 1,timestamp,w 2,w 3,w 4,w 5]

theorem arrangedApart {w v : Fin 6 → UInt32} (small : ∀ i, (w i).toNat < 2 ^ 17)
    (small' : ∀ i, (v i).toNat < 2 ^ 17) (timestamp : UInt32) {i : Fin 6} (apart : w i ≠ v i)
    (others : ∀ j, j ≠ i → w j = v j) : Fnv.hash (arranged w timestamp) ≠ Fnv.hash (arranged v timestamp) := by
  have one : ∀ before after, arranged w timestamp = before ++ w i::after →
      arranged v timestamp = before ++ v i::after →
      Fnv.hash (arranged w timestamp) ≠ Fnv.hash (arranged v timestamp) := by
    intro before after left right
    rw [left,right]
    exact Fnv.hashApart (small i) (small' i) apart
  have same : ∀ j, j ≠ i → v j = w j := fun j other => (others j other).symm
  fin_cases i
  · exact one [] _ rfl (by simp [arranged,same])
  · exact one [w 0] _ rfl (by simp [arranged,same])
  · exact one [w 0,w 1,timestamp] _ rfl (by simp [arranged,same])
  · exact one [w 0,w 1,timestamp,w 2] _ rfl (by simp [arranged,same])
  · exact one [w 0,w 1,timestamp,w 2,w 3] _ rfl (by simp [arranged,same])
  · exact one [w 0,w 1,timestamp,w 2,w 3,w 4] _ rfl (by simp [arranged,same])

section Format
variable {K : Type} [LinearOrder K] [Zero K] [Format K]

def clientSix (s : BurnSeed K) : Fin 6 → UInt32 := ![
  ClientPipeline.toUint32 (Num.literal s.tierIndex : Num K),
  ClientPipeline.toUint32 (Num.literal s.amountCents : Num K),
  ClientPipeline.toUint32 s.telemetry.dropletsLanded,
  ClientPipeline.toUint32 (ClientPipeline.mathRound s.telemetry.peakVelocity),
  ClientPipeline.toUint32 (ClientPipeline.mathRound (s.telemetry.tiltEnergy * 1000)),
  ClientPipeline.toUint32 s.telemetry.holdMs]

def serverSix (s : BurnSeed K) : Fin 6 → UInt32 := ![
  ServerPipeline.toUint32 (Num.literal s.tierIndex : Num K),
  ServerPipeline.toUint32 (Num.literal s.amountCents : Num K),
  ServerPipeline.toUint32 s.telemetry.dropletsLanded,
  ServerPipeline.toUint32 (ServerPipeline.jsRound s.telemetry.peakVelocity),
  ServerPipeline.toUint32 (ServerPipeline.jsRound (s.telemetry.tiltEnergy * 1000)),
  ServerPipeline.toUint32 s.telemetry.holdMs]

theorem clientArranged (s : BurnSeed K) : ClientPipeline.hashSeed s =
    Fnv.hash (arranged (clientSix s) (ClientPipeline.toUint32 (Num.literal s.timestampMs : Num K))) := rfl

theorem serverArranged (s : BurnSeed K) : ServerPipeline.hashSeed s =
    Fnv.hash (arranged (serverSix s) (ServerPipeline.toUint32 (Num.literal s.timestampMs : Num K))) := rfl

structure Within (s : BurnSeed K) : Prop where
  tier : 0 ≤ s.tierIndex ∧ s.tierIndex ≤ 5
  amount : 0 ≤ s.amountCents ∧ s.amountCents < 65536
  droplets : 0 ≤ s.telemetry.dropletsLanded ∧ s.telemetry.dropletsLanded ≤ 587
  velocity : 0 ≤ s.telemetry.peakVelocity ∧ s.telemetry.peakVelocity ≤ 1981
  tilt : 0 ≤ s.telemetry.tiltEnergy ∧ s.telemetry.tiltEnergy ≤ 90
  hold : 0 ≤ s.telemetry.holdMs ∧ s.telemetry.holdMs ≤ 15000

instance (s : BurnSeed K) : Decidable (Within s) :=
  decidable_of_iff ((0 ≤ s.tierIndex ∧ s.tierIndex ≤ 5) ∧ (0 ≤ s.amountCents ∧ s.amountCents < 65536) ∧
    (0 ≤ s.telemetry.dropletsLanded ∧ s.telemetry.dropletsLanded ≤ 587) ∧
    (0 ≤ s.telemetry.peakVelocity ∧ s.telemetry.peakVelocity ≤ 1981) ∧
    (0 ≤ s.telemetry.tiltEnergy ∧ s.telemetry.tiltEnergy ≤ 90) ∧
    (0 ≤ s.telemetry.holdMs ∧ s.telemetry.holdMs ≤ 15000))
    ⟨fun h => ⟨h.1,h.2.1,h.2.2.1,h.2.2.2.1,h.2.2.2.2.1,h.2.2.2.2.2⟩,
      fun h => ⟨h.tier,h.amount,h.droplets,h.velocity,h.tilt,h.hold⟩⟩

structure OneApart (six : BurnSeed K → Fin 6 → UInt32) (s t : BurnSeed K) : Prop where
  left : Within s
  right : Within t
  timestamp : s.timestampMs = t.timestampMs
  one : ∃ i, six s i ≠ six t i ∧ ∀ j, j ≠ i → six s j = six t j

/- What the words of bounded values need of a format: whole numbers of this size
are values, and no operation of the hash crosses one. -/
structure Tame (K : Type) [LinearOrder K] [Zero K] [Format K] : Prop where
  whole : ∀ {z : ℤ}, 0 ≤ z → z < 2 ^ 17 → Format.floor (Format.literal z : K) = z
  floor : ∀ {x : K} {n : ℕ}, n < 2 ^ 17 → 0 ≤ x → x ≤ Format.literal n → Format.floor x ≤ n
  nearest : ∀ {x : K} {n : ℕ}, n < 2 ^ 17 → 0 ≤ x → x ≤ Format.literal n →
    0 ≤ Format.nearest x ∧ Format.nearest x ≤ n + 1
  half : ∀ {x : K} {n : ℕ}, n < 2 ^ 17 → x ≤ Format.literal n →
    Format.add x (Format.literal 0.5) ≤ Format.literal (n + 1 : ℕ)
  thousand : ∀ {x : K} {n : ℕ}, 0 ≤ x → n < 2 ^ 7 → x ≤ Format.literal n →
    Format.mul x (Format.literal 1000) ≤ Format.literal (n * 1000 : ℕ)

theorem ofIntSmall {z : ℤ} (nonneg : 0 ≤ z) (small : z < 2 ^ 17) : (UInt32.ofInt z).toNat < 2 ^ 17 := by
  simp only [UInt32.ofInt,UInt32.toNat_ofNat']
  omega

theorem numBetween {x : Num K} {n : ℕ} (between : 0 ≤ x ∧ x ≤ Num.literal n) :
    ∃ v : K, x = .fin v ∧ 0 ≤ v ∧ v ≤ Format.literal n := by
  obtain ⟨low,high⟩ := between
  cases x with
  | nan => contradiction
  | inf s =>
    cases s with
    | true => contradiction
    | false => contradiction
  | fin v =>
    rw [Num.zeroFin,Num.leFin] at low
    rw [Num.literal,Num.leFin] at high
    exact ⟨v,rfl,low,high⟩

section Tame
variable (tame : Tame K)
include tame

theorem wholeSmall {z : ℤ} (nonneg : 0 ≤ z) (small : z < 2 ^ 17) :
    (ClientPipeline.toUint32 (Num.literal z : Num K)).toNat < 2 ^ 17 := by
  have positive : (0 : K) ≤ Format.literal z := Num.literalNonneg (Int.cast_nonneg nonneg)
  have word : ClientPipeline.toUint32 (Num.literal z : Num K) =
      UInt32.ofInt (Format.floor (Format.literal z : K)) :=
    congrArg UInt32.ofInt (if_neg positive.not_gt)
  rw [word,tame.whole nonneg small]
  exact ofIntSmall nonneg small

theorem floorSmall {x : Num K} {n : ℕ} (small : n < 2 ^ 17) (between : 0 ≤ x ∧ x ≤ Num.literal n) :
    (ClientPipeline.toUint32 x).toNat < 2 ^ 17 := by
  obtain ⟨v,rfl,nonneg,le⟩ := numBetween between
  have word : ClientPipeline.toUint32 (.fin v) = UInt32.ofInt (Format.floor v) :=
    congrArg UInt32.ofInt (if_neg nonneg.not_gt)
  have under := tame.floor small nonneg le
  rw [word]
  exact ofIntSmall (Format.floorNonneg nonneg) (by omega)

theorem mathRoundSmall {x : Num K} {n : ℕ} (small : n + 1 < 2 ^ 17)
    (between : 0 ≤ x ∧ x ≤ Num.literal n) :
    (ClientPipeline.toUint32 (ClientPipeline.mathRound x)).toNat < 2 ^ 17 := by
  obtain ⟨v,rfl,nonneg,le⟩ := numBetween between
  obtain ⟨low,high⟩ := tame.nearest (by omega) nonneg le
  exact wholeSmall tame low (by omega)

theorem jsRoundSmall {x : Num K} {n : ℕ} (small : n + 1 < 2 ^ 17)
    (between : 0 ≤ x ∧ x ≤ Num.literal n) :
    (ClientPipeline.toUint32 (ServerPipeline.jsRound x)).toNat < 2 ^ 17 := by
  obtain ⟨v,rfl,nonneg,le⟩ := numBetween between
  have positive : (0 : K) ≤ Format.add v (Format.literal 0.5) :=
    Format.addNonneg nonneg (Num.literalNonneg (by norm_num))
  have under := tame.floor small positive (tame.half (by omega) le)
  exact wholeSmall tame (Format.floorNonneg positive) (by omega)

theorem thousandBetween {x : Num K} {n : ℕ} (small : n < 2 ^ 7) (between : 0 ≤ x ∧ x ≤ Num.literal n) :
    0 ≤ x * 1000 ∧ x * 1000 ≤ Num.literal (n * 1000 : ℕ) := by
  obtain ⟨v,rfl,nonneg,le⟩ := numBetween between
  have product : (Num.fin v * 1000 : Num K) = .fin (Format.mul v (Format.literal 1000)) := rfl
  rw [product,Num.zeroFin,Num.leFin,Num.literal,Num.leFin]
  exact ⟨Format.mulNonneg nonneg (Num.literalNonneg (by norm_num)),tame.thousand nonneg small le⟩

theorem clientSmall {s : BurnSeed K} (within : Within s) (i : Fin 6) : (clientSix s i).toNat < 2 ^ 17 := by
  obtain ⟨tier,amount,droplets,velocity,tilt,hold⟩ := within
  fin_cases i
  · exact wholeSmall tame tier.1 (by omega)
  · exact wholeSmall tame amount.1 (by omega)
  · exact floorSmall tame (by decide) droplets
  · exact mathRoundSmall tame (by decide) velocity
  · exact mathRoundSmall tame (by decide) (thousandBetween tame (by decide) tilt)
  · exact floorSmall tame (by decide) hold

theorem serverSmall {s : BurnSeed K} (within : Within s) (i : Fin 6) : (serverSix s i).toNat < 2 ^ 17 := by
  obtain ⟨tier,amount,droplets,velocity,tilt,hold⟩ := within
  unfold serverSix
  simp only [← toUint32Agrees]
  fin_cases i
  · exact wholeSmall tame tier.1 (by omega)
  · exact wholeSmall tame amount.1 (by omega)
  · exact floorSmall tame (by decide) droplets
  · exact jsRoundSmall tame (by decide) velocity
  · exact jsRoundSmall tame (by decide) (thousandBetween tame (by decide) tilt)
  · exact floorSmall tame (by decide) hold

theorem clientMoves {s t : BurnSeed K} (apart : OneApart clientSix s t) :
    ClientPipeline.hashSeed s ≠ ClientPipeline.hashSeed t := by
  obtain ⟨i,here,elsewhere⟩ := apart.one
  rw [clientArranged,clientArranged,apart.timestamp]
  exact arrangedApart (clientSmall tame apart.left) (clientSmall tame apart.right) _ here elsewhere

theorem serverMoves {s t : BurnSeed K} (apart : OneApart serverSix s t) :
    ServerPipeline.hashSeed s ≠ ServerPipeline.hashSeed t := by
  obtain ⟨i,here,elsewhere⟩ := apart.one
  rw [serverArranged,serverArranged,apart.timestamp]
  exact arrangedApart (serverSmall tame apart.left) (serverSmall tame apart.right) _ here elsewhere

end Tame
end Format

theorem halfUp {R : Type} [Field R] [LinearOrder R] [IsStrictOrderedRing R] [FloorRing R] {x : R} {n : ℕ}
    (nonneg : 0 ≤ x) (le : x ≤ n) : 0 ≤ ⌊x + 1 / 2⌋ ∧ ⌊x + 1 / 2⌋ ≤ n + 1 := by
  refine ⟨Int.floor_nonneg.mpr (by linarith),Int.le_of_lt_add_one (Int.floor_lt.mpr ?_)⟩
  push_cast
  linarith

theorem exactTame : Tame ℝ := by
  refine ⟨?whole,?floor,?nearest,?half,?thousand⟩
  case whole =>
    intro z _ _
    have value : ⌊((z : ℚ) : ℝ)⌋ = z := by
      rw [Rat.cast_intCast,Int.floor_intCast]
    exact value
  case floor =>
    intro x n _ _ le
    have under : x ≤ ((n : ℚ) : ℝ) := le
    rw [Rat.cast_natCast] at under
    exact (Int.floor_le_floor under).trans (Int.floor_natCast n).le
  case nearest =>
    intro x n _ nonneg le
    have under : x ≤ ((n : ℚ) : ℝ) := le
    rw [Rat.cast_natCast] at under
    exact halfUp nonneg under
  case half =>
    intro x n _ le
    have under : x ≤ ((n : ℚ) : ℝ) := le
    have sum : x + ((0.5 : ℚ) : ℝ) ≤ (((n + 1 : ℕ) : ℚ) : ℝ) := by
      push_cast at under ⊢
      linarith
    exact sum
  case thousand =>
    intro x n _ _ le
    have under : x ≤ ((n : ℚ) : ℝ) := le
    have product : x * ((1000 : ℚ) : ℝ) ≤ (((n * 1000 : ℕ) : ℚ) : ℝ) := by
      push_cast at under ⊢
      linarith
    exact product

theorem literalNat {n : ℕ} (small : n ≤ 2 ^ 53) :
    (Format.literal (n : ℚ) : PipelineAgreement.Float64).val = n :=
  BinaryRounding.roundOfFits (by decide) (fitsNat small)

theorem valUnder {x : PipelineAgreement.Float64} {n : ℕ} (small : n ≤ 2 ^ 53) (le : x ≤ Format.literal n) :
    x.val ≤ n := by
  have under : x.val ≤ (Format.literal (n : ℚ) : PipelineAgreement.Float64).val := le
  rwa [literalNat small] at under

theorem roundedUnder {q : ℚ} {n : ℕ} (small : n ≤ 2 ^ 53) (le : q ≤ n) :
    (Rounded.of 53 q : PipelineAgreement.Float64) ≤ Format.literal n := by
  have under : (Rounded.of 53 q).val ≤ (Format.literal (n : ℚ) : PipelineAgreement.Float64).val := by
    rw [literalNat small]
    exact BinaryRounding.roundLeFits (by decide) (fitsNat small) le
  exact under

theorem float64Tame : Tame PipelineAgreement.Float64 := by
  refine ⟨?whole,?floor,?nearest,?half,?thousand⟩
  case whole =>
    intro z nonneg small
    have fits : |z| ≤ 2 ^ 53 := by
      rw [abs_of_nonneg nonneg]
      omega
    have literal : ⌊(Format.literal (z : ℚ) : PipelineAgreement.Float64).val⌋ = z := by
      rw [PipelineAgreement.ofInt64 fits,Int.floor_intCast]
    exact literal
  case floor =>
    intro x n small _ le
    exact (Int.floor_le_floor (valUnder (by omega) le)).trans (Int.floor_natCast n).le
  case nearest =>
    intro x n small nonneg le
    have positive : 0 ≤ x.val := nonneg
    exact halfUp positive (valUnder (by omega) le)
  case half =>
    intro x n small le
    have under := valUnder (by omega) le
    refine roundedUnder (by omega) ?_
    rw [PipelineAgreement.halfLiteral]
    push_cast
    linarith
  case thousand =>
    intro x n nonneg small le
    have under := valUnder (by omega) le
    refine roundedUnder (by omega) ?_
    have thousand := @literalNat 1000 (by norm_num)
    push_cast at thousand ⊢
    rw [thousand]
    linarith

theorem wordMoves :
    (∀ s t : BurnSeed ℝ, OneApart clientSix s t →
      ClientPipeline.hashSeed s ≠ ClientPipeline.hashSeed t) ∧
    (∀ s t : BurnSeed ℝ, OneApart serverSix s t →
      ServerPipeline.hashSeed s ≠ ServerPipeline.hashSeed t) ∧
    (∀ s t : BurnSeed PipelineAgreement.Float64, OneApart clientSix s t →
      ClientPipeline.hashSeed s ≠ ClientPipeline.hashSeed t) ∧
    (∀ s t : BurnSeed PipelineAgreement.Float64, OneApart serverSix s t →
      ServerPipeline.hashSeed s ≠ ServerPipeline.hashSeed t) :=
  ⟨fun _ _ => clientMoves exactTame,fun _ _ => serverMoves exactTame,
    fun _ _ => clientMoves float64Tame,fun _ _ => serverMoves float64Tame⟩

def landed (droplets : Num PipelineAgreement.Float64) : BurnSeed PipelineAgreement.Float64 :=
  ⟨2,1299,1785628800000,⟨droplets,1400.25,3.5,8000⟩⟩

theorem dropletMoves : ServerPipeline.hashSeed (landed 120) ≠ ServerPipeline.hashSeed (landed 121) := by
  refine wordMoves.2.2.2 (landed 120) (landed 121) ⟨?left,?right,rfl,2,?here,?others⟩
  case left => decide +kernel
  case right => decide +kernel
  case here => decide +kernel
  case others => decide +kernel

end MoltenPour.SeedWords
