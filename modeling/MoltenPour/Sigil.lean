import MoltenPour.MetaballRig
import MoltenPour.Printing

/-! app/sigil/sigil.ts: what generateSigil draws. The pool, the tendrils and the
satellites take their words off one generator in turn; cos, sin and pi are any that keep to
their range, and every coordinate is kept as the decimals it is printed with. -/
namespace MoltenPour.Sigil
open MetaballRig Printing

structure Fixed where
  negative : Bool
  scaled : ℕ
  digits : ℕ
  deriving DecidableEq, Repr

def Fixed.value (x : Fixed) : ℚ :=
  (if x.negative then -(x.scaled : ℚ) else x.scaled) / 10 ^ x.digits

def Fixed.text (x : Fixed) : String :=
  String.ofList ((if x.negative then ['-'] else []) ++ Nat.toDigits 10 (x.scaled / 10 ^ x.digits) ++
    '.'::padded x.digits 10 (x.scaled % 10 ^ x.digits))

theorem textDigits (x : Fixed) :
    Nat.ofDigitChars 10 (Nat.toDigits 10 (x.scaled / 10 ^ x.digits)) 0 * 10 ^ x.digits +
      Nat.ofDigitChars 10 (padded x.digits 10 (x.scaled % 10 ^ x.digits)) 0 = x.scaled := by
  rw [paddedValue,Nat.ofDigitChars_ten_toDigits]
  exact Nat.div_add_mod' ..

structure Trig (K : Type) where
  cos : K → K
  sin : K → K
  pi : K

structure Point where
  x : Fixed
  y : Fixed

/- M, then a Q for each lobe with its control point and its end, then Z. -/
structure PoolPath where
  start : Point
  curves : List (Point × Point)

structure Tendril where
  x1 : Fixed
  y1 : Fixed
  x2 : Fixed
  y2 : Fixed
  strokeOpacity : Fixed
  strokeWidth : Fixed

structure Satellite where
  cx : Fixed
  cy : Fixed
  r : Fixed
  fillOpacity : Fixed

structure SigilGeometry where
  seed : UInt32
  viewBox : String
  gradientId : String
  pool : PoolPath
  tendrils : List Tendril
  satellites : List Satellite

def CX : ℚ := 200
def CY : ℚ := 200
def BASE : ℚ := 74
def VIEWBOX : ℕ := 400
def CLIP_RADIUS : ℚ := 194

def PoolPath.points (path : PoolPath) : List Point :=
  path.start::path.curves.flatMap fun curve => [curve.1,curve.2]

def Point.text (p : Point) : String := p.x.text ++ " " ++ p.y.text

def PoolPath.text (path : PoolPath) : String :=
  path.curves.foldl (fun d curve => d ++ " Q " ++ curve.1.text ++ " " ++ curve.2.text)
    ("M " ++ path.start.text) ++ " Z"

section Drawing
variable {K : Type} [Field K] [LinearOrder K] [IsStrictOrderedRing K] [FloorRing K]

def toFixed (digits : ℕ) (x : K) : Fixed :=
  ⟨decide (x < 0),⌊|x| * ((10 ^ digits : ℚ) : K) + ((1 / 2 : ℚ) : K)⌋.toNat,digits⟩

def draw : StateM UInt32 K := fun word =>
  ((((nextWord word).2.toNat / 4294967296 : ℚ) : K),(nextWord word).1)

def shown (p : K × K) : Point := ⟨toFixed 1 p.1,toFixed 1 p.2⟩

def middle (p q : K × K) : K × K := ((p.1 + q.1) / 2,(p.2 + q.2) / 2)

variable (trig : Trig K)

def lobe (cx cy base : K) (i : ℕ) : StateM UInt32 (K × K) := do
  let a := ((i / 12 : ℚ) : K) * trig.pi * 2
  let r ← draw
  let rad := base * (((0.74 : ℚ) : K) + r * ((0.44 : ℚ) : K))
  pure (cx + trig.cos a * rad,cy + trig.sin a * rad)

/- The path through the middles of the segments, each lobe the control point of its curve. -/
def joined (pts : ℕ → K × K) : PoolPath where
  start := shown (middle (pts 0) (pts 1))
  curves := (List.range 12).map fun i =>
    let q := pts ((i + 1) % 12)
    let nn := pts ((i + 2) % 12)
    (shown q,shown (middle q nn))

def poolPath (cx cy base : K) : StateM UInt32 PoolPath := do
  let pts ← (List.range 12).mapM (lobe trig cx cy base)
  pure (joined fun i => pts.getD i (0,0))

def tendril (i : ℕ) : StateM UInt32 Tendril := do
  let a := ((i / 9 : ℚ) : K) * trig.pi * 2 + ((0.18 : ℚ) : K)
  let r0 := ((BASE * (0.94) : ℚ) : K)
  let r ← draw
  let r1 := min (CLIP_RADIUS : K) (r0 + ((32 : ℚ) : K) + r * ((100 : ℚ) : K))
  let opacity ← draw
  let width ← draw
  pure {
    x1 := toFixed 1 ((CX : K) + trig.cos a * r0)
    y1 := toFixed 1 ((CY : K) + trig.sin a * r0)
    x2 := toFixed 1 ((CX : K) + trig.cos a * r1)
    y2 := toFixed 1 ((CY : K) + trig.sin a * r1)
    strokeOpacity := toFixed 2 (((0.5 : ℚ) : K) + opacity * ((0.4 : ℚ) : K))
    strokeWidth := toFixed 2 (((0.7 : ℚ) : K) + width * ((2.1 : ℚ) : K)) }

def satellite (i : ℕ) : StateM UInt32 Satellite := do
  let jitter ← draw
  let a := ((i / 26 : ℚ) : K) * trig.pi * 2 + (jitter - ((0.5 : ℚ) : K)) * ((0.08 : ℚ) : K)
  let r ← draw
  let rad := ((BASE + 42 : ℚ) : K) + r * ((74 : ℚ) : K)
  let size ← draw
  let opacity ← draw
  pure {
    cx := toFixed 1 ((CX : K) + trig.cos a * rad)
    cy := toFixed 1 ((CY : K) + trig.sin a * rad)
    r := toFixed 2 (((1.9 : ℚ) : K) + size * ((4.6 : ℚ) : K))
    fillOpacity := toFixed 2 (((0.55 : ℚ) : K) + opacity * ((0.4 : ℚ) : K)) }

def sketch (seed : UInt32) : StateM UInt32 SigilGeometry := do
  let pool ← poolPath trig (CX : K) (CY : K) (BASE : K)
  let tendrils ← (List.range 9).mapM (tendril trig)
  let satellites ← (List.range 26).mapM (satellite trig)
  pure {
    seed := seed
    viewBox := "0 0 " ++ toString VIEWBOX ++ " " ++ toString VIEWBOX
    gradientId := "pool-" ++ toString seed.toNat
    pool := pool
    tendrils := tendrils
    satellites := satellites }

def generateSigil (seed : UInt32) : SigilGeometry := ((sketch trig seed).run seed).1

def Always {A : Type} (post : A → Prop) (program : StateM UInt32 A) : Prop :=
  ∀ word, post (program.run word).1

omit [LinearOrder K] [IsStrictOrderedRing K] [FloorRing K] in
theorem alwaysBind {A B : Type} {mid : A → Prop} {post : B → Prop} {program : StateM UInt32 A}
    {next : A → StateM UInt32 B} (first : Always mid program) (after : ∀ a, mid a → Always post (next a)) :
    Always post (program >>= next) := fun word => after _ (first word) _

theorem alwaysPure {A : Type} {post : A → Prop} {a : A} (holds : post a) :
    Always post (pure a : StateM UInt32 A) := fun _ => holds

theorem alwaysMapM {I A : Type} {post : A → Prop} {program : I → StateM UInt32 A}
    (each : ∀ i, Always post (program i)) (items : List I) :
    Always (fun as => as.length = items.length ∧ ∀ a ∈ as, post a) (items.mapM program) := by
  induction items with
  | nil => exact alwaysPure ⟨rfl,by simp⟩
  | cons i rest ih =>
    rw [List.mapM_cons]
    refine alwaysBind (each i) fun a here => alwaysBind ih fun as later => alwaysPure ⟨?_,?_⟩
    · rw [List.length_cons,List.length_cons,later.1]
    · exact List.forall_mem_cons.mpr ⟨here,later.2⟩

omit [FloorRing K] in
theorem drawUnit : Always (fun r : K => 0 ≤ r ∧ r < 1) draw := by
  intro word
  have small : ((nextWord word).2.toNat : ℚ) < 4294967296 := by exact_mod_cast (nextWord word).2.toNat_lt
  have nonneg : (0 : ℚ) ≤ (nextWord word).2.toNat / 4294967296 := by positivity
  have below : ((nextWord word).2.toNat : ℚ) / 4294967296 < 1 := (div_lt_one (by norm_num)).mpr small
  exact ⟨Rat.cast_nonneg.mpr nonneg,(Rat.cast_lt.mpr below).trans_eq Rat.cast_one⟩

theorem nearestScaled {x scale : K} (positive : 0 < scale) :
    |(⌊x * scale + ((1 / 2 : ℚ) : K)⌋ : K) / scale - x| ≤ ((1 / 2 : ℚ) : K) / scale := by
  have below := Int.floor_le (x * scale + ((1 / 2 : ℚ) : K))
  have above := Int.lt_floor_add_one (x * scale + ((1 / 2 : ℚ) : K))
  have whole : (1 : K) = ((1 / 2 : ℚ) : K) + ((1 / 2 : ℚ) : K) := by
    rw [← Rat.cast_add]
    norm_num
  have apart : (⌊x * scale + ((1 / 2 : ℚ) : K)⌋ : K) / scale - x =
      ((⌊x * scale + ((1 / 2 : ℚ) : K)⌋ : K) - x * scale) / scale := by
    rw [sub_div,mul_div_cancel_right₀ x positive.ne']
  rw [apart,abs_div,abs_of_pos positive]
  refine div_le_div_of_nonneg_right (abs_le.mpr ⟨?_,?_⟩) positive.le
  · linarith
  · linarith

theorem fixedNear (digits : ℕ) (x : K) :
    |((toFixed digits x).value : K) - x| ≤ ((1 / 2 / 10 ^ digits : ℚ) : K) := by
  have positive : (0 : K) < ((10 ^ digits : ℚ) : K) := Rat.cast_pos.mpr (by positivity)
  have near := nearestScaled (x := |x|) positive
  have nonneg : 0 ≤ ⌊|x| * ((10 ^ digits : ℚ) : K) + ((1 / 2 : ℚ) : K)⌋ :=
    Int.floor_nonneg.mpr (add_nonneg (mul_nonneg (abs_nonneg x) positive.le) (Rat.cast_nonneg.mpr (by norm_num)))
  have scaled : (((toFixed digits x).scaled : ℚ) : K) =
      ⌊|x| * ((10 ^ digits : ℚ) : K) + ((1 / 2 : ℚ) : K)⌋ := by
    rw [Rat.cast_natCast,← Int.cast_natCast]
    exact congrArg (Int.cast : ℤ → K) (Int.toNat_of_nonneg nonneg)
  rw [← scaled] at near
  rw [Rat.cast_div]
  cases lt_or_ge x 0 with
  | inl below =>
    have value : ((toFixed digits x).value : K) =
        -((((toFixed digits x).scaled : ℚ) : K) / ((10 ^ digits : ℚ) : K)) := by
      rw [Fixed.value,if_pos (by exact decide_eq_true below),neg_div,Rat.cast_neg,Rat.cast_div]
      rfl
    rw [abs_of_neg below] at near
    rw [value,← abs_neg]
    convert near using 2
    ring
  | inr above =>
    have value : ((toFixed digits x).value : K) =
        (((toFixed digits x).scaled : ℚ) : K) / ((10 ^ digits : ℚ) : K) := by
      rw [Fixed.value,if_neg (by simpa [toFixed] using above),Rat.cast_div]
      rfl
    rw [abs_of_nonneg above] at near
    rw [value]
    exact near

def Within (centre reach : ℚ) (x : K) : Prop := |x - (centre : K)| ≤ (reach : K)

variable {centre reach : ℚ}

omit [FloorRing K] in
theorem aroundCentre {c rad : K} (unit : |c| ≤ 1) (nonneg : 0 ≤ rad) (most : rad ≤ (reach : K)) :
    Within centre reach ((centre : K) + c * rad) := by
  rw [Within,add_sub_cancel_left,abs_mul,abs_of_nonneg nonneg]
  exact (mul_le_of_le_one_left nonneg unit).trans most

omit [FloorRing K] in
theorem Within.middle {x y : K} (first : Within centre reach x) (second : Within centre reach y) :
    Within centre reach ((x + y) / 2) := by
  obtain ⟨low,high⟩ := abs_le.mp first
  obtain ⟨low',high'⟩ := abs_le.mp second
  exact abs_le.mpr ⟨by linarith,by linarith⟩

omit [FloorRing K] in
theorem withinSpan {x : K} (low : ((centre - reach : ℚ) : K) ≤ x) (high : x ≤ ((centre + reach : ℚ) : K)) :
    Within centre reach x := by
  rw [Rat.cast_sub] at low
  rw [Rat.cast_add] at high
  exact abs_sub_le_iff.mpr ⟨by linarith,by linarith⟩

theorem Within.printed {x : K} (within : Within centre reach x) (digits : ℕ) :
    |(toFixed digits x).value - centre| ≤ 1 / 2 / 10 ^ digits + reach := by
  have near : |((toFixed digits x).value : K) - (centre : K)| ≤
      ((1 / 2 / 10 ^ digits : ℚ) : K) + (reach : K) :=
    (abs_sub_le _ x _).trans (add_le_add (fixedNear digits x) within)
  rw [← Rat.cast_sub,← Rat.cast_abs,← Rat.cast_add] at near
  exact Rat.cast_le.mp near

def Inside (v : ℚ) : Prop := 2 ≤ v ∧ v ≤ 398

theorem Within.inside {x : K} (within : Within CX reach x) (small : reach ≤ 197) :
    Inside (toFixed 1 x).value := by
  have near := within.printed 1
  norm_num [CX] at near
  obtain ⟨low,high⟩ := abs_le.mp near
  exact ⟨by linarith,by linarith⟩

theorem Within.circle {x r : K} (within : Within CX 190 x) (sized : Within 4.2 2.3 r) :
    Inside ((toFixed 1 x).value - (toFixed 2 r).value) ∧
      Inside ((toFixed 1 x).value + (toFixed 2 r).value) := by
  have near := within.printed 1
  have round := sized.printed 2
  norm_num [CX] at near round
  obtain ⟨low,high⟩ := abs_le.mp near
  obtain ⟨least,most⟩ := abs_le.mp round
  exact ⟨⟨by linarith,by linarith⟩,by linarith,by linarith⟩

omit [FloorRing K] in
theorem spread {r : K} (unit : 0 ≤ r ∧ r < 1) (low span : ℚ) (nonneg : 0 ≤ span) :
    (low : K) ≤ (low : K) + r * (span : K) ∧ (low : K) + r * (span : K) ≤ ((low + span : ℚ) : K) := by
  have nonneg : (0 : K) ≤ (span : K) := Rat.cast_nonneg.mpr nonneg
  rw [Rat.cast_add]
  exact ⟨le_add_of_nonneg_right (mul_nonneg unit.1 nonneg),
    add_le_add_right (mul_le_of_le_one_left nonneg unit.2.le) _⟩

theorem joinedInside {pts : ℕ → K × K} (lobes : ∀ i < 12, Within CX 88 (pts i).1 ∧ Within CY 88 (pts i).2) :
    ∀ p ∈ (joined pts).points, Inside p.x.value ∧ Inside p.y.value := by
  have drawn {q : K × K} (within : Within CX 88 q.1 ∧ Within CY 88 q.2) :
      Inside (shown q).x.value ∧ Inside (shown q).y.value :=
    ⟨within.1.inside (by norm_num),Within.inside within.2 (by norm_num)⟩
  have halfway (i j : ℕ) (first : i < 12) (second : j < 12) :
      Within CX 88 (middle (pts i) (pts j)).1 ∧ Within CY 88 (middle (pts i) (pts j)).2 :=
    ⟨(lobes i first).1.middle (lobes j second).1,(lobes i first).2.middle (lobes j second).2⟩
  intro p mem
  cases List.mem_cons.mp mem with
  | inl start => exact start ▸ drawn (halfway 0 1 (by decide) (by decide))
  | inr curve =>
    obtain ⟨c,curve,here⟩ := List.mem_flatMap.mp curve
    obtain ⟨i,-,rfl⟩ := List.mem_map.mp curve
    have control : (i + 1) % 12 < 12 := Nat.mod_lt _ (by decide)
    have ending : (i + 2) % 12 < 12 := Nat.mod_lt _ (by decide)
    cases List.mem_pair.mp here with
    | inl q => exact q ▸ drawn (lobes _ control)
    | inr m => exact m ▸ drawn (halfway _ _ control ending)

structure Unclipped (g : SigilGeometry) : Prop where
  pool : g.pool.curves.length = 12 ∧ ∀ p ∈ g.pool.points, Inside p.x.value ∧ Inside p.y.value
  tendrils : g.tendrils.length = 9 ∧ ∀ t ∈ g.tendrils,
    Inside t.x1.value ∧ Inside t.y1.value ∧ Inside t.x2.value ∧ Inside t.y2.value
  satellites : g.satellites.length = 26 ∧ ∀ s ∈ g.satellites,
    (Inside (s.cx.value - s.r.value) ∧ Inside (s.cx.value + s.r.value)) ∧
    Inside (s.cy.value - s.r.value) ∧ Inside (s.cy.value + s.r.value)

section Bounded
variable {trig : Trig K} (cosUnit : ∀ a, |trig.cos a| ≤ 1) (sinUnit : ∀ a, |trig.sin a| ≤ 1)
include cosUnit sinUnit

omit [FloorRing K] in
theorem lobeWithin (i : ℕ) : Always (fun p : K × K => Within CX 88 p.1 ∧ Within CY 88 p.2)
    (lobe trig (CX : K) (CY : K) (BASE : K) i) := by
  refine alwaysBind drawUnit fun r unit => alwaysPure ?_
  obtain ⟨low,high⟩ := spread unit 0.74 0.44 (by norm_num)
  have base : (0 : K) ≤ (BASE : K) := Rat.cast_nonneg.mpr (by norm_num [BASE])
  have least : (0 : K) ≤ ((0.74 : ℚ) : K) := Rat.cast_nonneg.mpr (by norm_num)
  have nonneg := mul_nonneg base (least.trans low)
  have most : (BASE : K) * (((0.74 : ℚ) : K) + r * ((0.44 : ℚ) : K)) ≤ ((88 : ℚ) : K) := by
    refine (mul_le_mul_of_nonneg_left high base).trans ?_
    rw [← Rat.cast_mul]
    exact Rat.cast_le.mpr (by norm_num [BASE])
  exact ⟨aroundCentre (cosUnit _) nonneg most,aroundCentre (sinUnit _) nonneg most⟩

theorem tendrilInside (i : ℕ) : Always (fun t : Tendril =>
    Inside t.x1.value ∧ Inside t.y1.value ∧ Inside t.x2.value ∧ Inside t.y2.value) (tendril trig i) := by
  refine alwaysBind drawUnit fun r unit => alwaysBind drawUnit fun _ _ => alwaysBind drawUnit fun _ _ =>
    alwaysPure ?_
  have edge : (0 : K) ≤ ((BASE * 0.94 : ℚ) : K) := Rat.cast_nonneg.mpr (by norm_num [BASE])
  have short : ((BASE * 0.94 : ℚ) : K) ≤ ((194 : ℚ) : K) := Rat.cast_le.mpr (by norm_num [BASE])
  have start : (0 : K) ≤ ((BASE * 0.94 : ℚ) : K) + ((32 : ℚ) : K) :=
    add_nonneg edge (Rat.cast_nonneg.mpr (by norm_num))
  have far : (0 : K) ≤ r * ((100 : ℚ) : K) := mul_nonneg unit.1 (Rat.cast_nonneg.mpr (by norm_num))
  have clip : (0 : K) ≤ (CLIP_RADIUS : K) := Rat.cast_nonneg.mpr (by norm_num [CLIP_RADIUS])
  have nonneg := le_min clip (add_nonneg start far)
  have most : min (CLIP_RADIUS : K) (((BASE * 0.94 : ℚ) : K) + ((32 : ℚ) : K) + r * ((100 : ℚ) : K)) ≤
      ((194 : ℚ) : K) := min_le_left ..
  exact ⟨(aroundCentre (cosUnit _) edge short).inside (by norm_num),
    (aroundCentre (sinUnit _) edge short).inside (by norm_num),
    (aroundCentre (cosUnit _) nonneg most).inside (by norm_num),
    (aroundCentre (sinUnit _) nonneg most).inside (by norm_num)⟩

theorem satelliteInside (i : ℕ) : Always (fun s : Satellite =>
    (Inside (s.cx.value - s.r.value) ∧ Inside (s.cx.value + s.r.value)) ∧
    Inside (s.cy.value - s.r.value) ∧ Inside (s.cy.value + s.r.value)) (satellite trig i) := by
  refine alwaysBind drawUnit fun jitter _ => alwaysBind drawUnit fun r unit =>
    alwaysBind drawUnit fun size sized => alwaysBind drawUnit fun _ _ => alwaysPure ?_
  obtain ⟨low,high⟩ := spread unit (BASE + 42) 74 (by norm_num)
  obtain ⟨least,most⟩ := spread sized 1.9 4.6 (by norm_num)
  have nonneg : (0 : K) ≤ ((BASE + 42 : ℚ) : K) := Rat.cast_nonneg.mpr (by norm_num [BASE])
  have far : ((BASE + 42 + 74 : ℚ) : K) ≤ ((190 : ℚ) : K) := Rat.cast_le.mpr (by norm_num [BASE])
  have round : Within 4.2 2.3 (((1.9 : ℚ) : K) + size * ((4.6 : ℚ) : K)) :=
    withinSpan ((Rat.cast_le.mpr (by norm_num)).trans least) (most.trans (Rat.cast_le.mpr (by norm_num)))
  exact ⟨(aroundCentre (cosUnit _) (nonneg.trans low) (high.trans far)).circle round,
    (aroundCentre (sinUnit _) (nonneg.trans low) (high.trans far)).circle round⟩

theorem poolInside : Always (fun path : PoolPath =>
    path.curves.length = 12 ∧ ∀ p ∈ path.points, Inside p.x.value ∧ Inside p.y.value)
    (poolPath trig (CX : K) (CY : K) (BASE : K)) := by
  refine alwaysBind (alwaysMapM (lobeWithin cosUnit sinUnit) (List.range 12)) fun pts drawn => alwaysPure ?_
  obtain ⟨count,lobes⟩ := drawn
  rw [List.length_range] at count
  refine ⟨by simp [joined],joinedInside fun i small => ?_⟩
  rw [List.getD_eq_getElem pts (0,0) (count.symm ▸ small)]
  exact lobes _ (List.getElem_mem _)

theorem sigilInside (seed : UInt32) : Unclipped (generateSigil trig seed) := by
  have all : Always Unclipped (sketch trig seed) :=
    alwaysBind (poolInside cosUnit sinUnit) fun _ pool =>
      alwaysBind (alwaysMapM (tendrilInside cosUnit sinUnit) (List.range 9)) fun _ tendrils =>
        alwaysBind (alwaysMapM (satelliteInside cosUnit sinUnit) (List.range 26)) fun _ satellites =>
          alwaysPure ⟨pool,tendrils,satellites⟩
  exact all seed

end Bounded

end Drawing
noncomputable def trigonometry : Trig ℝ := ⟨Real.cos,Real.sin,Real.pi⟩

theorem realInside : Unclipped (generateSigil trigonometry 1284) :=
  sigilInside Real.abs_cos_le_one Real.abs_sin_le_one 1284

end MoltenPour.Sigil
