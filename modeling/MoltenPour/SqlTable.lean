import Mathlib.Tactic
import Mathlib.Data.List.Sort

/-! One SQL table: rows as values under columns, positional inserts, NOT NULL
and UNIQUE constraints, a maximum and a descending order. A null equals
nothing, so it never breaks a UNIQUE constraint. -/
namespace MoltenPour.SqlTable

inductive Value (R : Type) where
  | null
  | integer (value : ℤ)
  | real (value : R)
  | text (value : String)
  deriving DecidableEq

abbrev Row (C R : Type) := C → Value R

structure Schema (C : Type) where
  notNull : List C
  unique : List (List C)

variable {C R A : Type} [DecidableEq C] [DecidableEq R]

def place : List C → List (Value R) → Row C R
  | c::columns,v::values => Function.update (place columns values) c v
  | _,_ => fun _ => .null

def collide (columns : List C) (a b : Row C R) : Bool :=
  columns.all fun c => a c = b c ∧ a c ≠ .null

def admits (schema : Schema C) (rows : List (Row C R)) (row : Row C R) : Bool :=
  (schema.notNull.all fun c => row c ≠ .null) &&
    schema.unique.all fun columns => rows.all fun other => !collide columns other row

def insert (schema : Schema C) (rows : List (Row C R)) (row : Row C R) : Option (List (Row C R)) :=
  if admits schema rows row then some (rows ++ [row]) else none

def indexable (columns : List C) (rows : List (Row C R)) : Bool :=
  decide (rows.Pairwise fun a b => collide columns a b = false)

/- GROUP BY some columns HAVING COUNT over 1: the values each such group shares.
Here two nulls are equal. -/
def repeated (columns : List C) (rows : List (Row C R)) : List (List (Value R)) :=
  let groups := rows.map columns.map
  groups.dedup.filter fun group => 1 < groups.count group

def integerOf : Value R → Option ℤ
  | .integer n => some n
  | _ => none

def maximum (c : C) (rows : List (Row C R)) : Option ℤ :=
  (rows.filterMap fun row => integerOf (row c)).max?

def descending (c : C) (rows : List (Row C R)) : List (Row C R) :=
  rows.mergeSort fun a b => (integerOf (b c)).getD 0 ≤ (integerOf (a c)).getD 0

omit [DecidableEq R] in
theorem mapPlace {columns : List C} (distinct : columns.Nodup) {values : List (Value R)}
    (length : values.length = columns.length) : columns.map (place columns values) = values := by
  induction columns generalizing values with
  | nil => exact (List.length_eq_zero_iff.mp length).symm
  | cons c columns ih =>
    cases values with
    | nil => contradiction
    | cons v values =>
      obtain ⟨absent,distinct⟩ := List.nodup_cons.mp distinct
      have rest : columns.map (place (c::columns) (v::values)) = columns.map (place columns values) :=
        List.map_congr_left fun d mem => Function.update_of_ne (ne_of_mem_of_not_mem mem absent) ..
      rw [List.map_cons,rest,ih distinct (by simpa using length),place,Function.update_self]

omit [DecidableEq C] in
theorem collideIff {columns : List C} {a b : Row C R} :
    collide columns a b = true ↔ ∀ c ∈ columns, a c = b c ∧ a c ≠ .null := by
  simp [collide]

omit [DecidableEq C] in
theorem collideApart {columns : List C} {a b : Row C R} (values : ∀ c ∈ columns, a c ≠ .null) :
    collide columns a b = false ↔ columns.map a ≠ columns.map b := by
  rw [← Bool.not_eq_true,collideIff,not_iff_not,List.map_inj_left]
  exact ⟨fun same c mem => (same c mem).1,fun same c mem => ⟨same c mem,values c mem⟩⟩

omit [DecidableEq C] in
theorem indexableIff {columns : List C} {rows : List (Row C R)}
    (values : ∀ row ∈ rows, ∀ c ∈ columns, row c ≠ .null) :
    indexable columns rows = true ↔ (rows.map columns.map).Nodup := by
  rw [indexable,decide_eq_true_eq,List.Nodup,List.pairwise_map]
  constructor
  · exact fun apart => apart.imp_of_mem fun mem _ => (collideApart (values _ mem)).mp
  · exact fun apart => apart.imp_of_mem fun mem _ => (collideApart (values _ mem)).mpr

omit [DecidableEq C] in
theorem repeatedNone {columns : List C} {rows : List (Row C R)} :
    repeated columns rows = [] ↔ (rows.map columns.map).Nodup := by
  rw [repeated,List.filter_eq_nil_iff,List.nodup_iff_count_le_one]
  constructor
  · intro single group
    by_cases listed : group ∈ rows.map columns.map
    · simpa using single group (List.mem_dedup.mpr listed)
    · simp [List.count_eq_zero_of_not_mem listed]
  · intro once group _
    simpa using once group

omit [DecidableEq C] in
theorem insertAdmitted {schema : Schema C} {rows : List (Row C R)} {row : Row C R}
    (values : ∀ c ∈ schema.notNull, row c ≠ .null)
    (apart : ∀ columns ∈ schema.unique, ∀ other ∈ rows, ∃ c ∈ columns, other c ≠ row c) :
    insert schema rows row = some (rows ++ [row]) := by
  have passes : admits schema rows row = true := by
    simp only [admits,Bool.and_eq_true,List.all_eq_true,decide_eq_true_eq,Bool.not_eq_true']
    refine ⟨values,fun columns key other mem => ?_⟩
    obtain ⟨c,column,differ⟩ := apart columns key other mem
    by_contra hit
    exact differ (collideIff.mp (by simpa using hit) c column).1
  exact if_pos passes

omit [DecidableEq C] [DecidableEq R] in
theorem descendingReverse {c : C} {rows : List (Row C R)}
    (increasing : rows.Pairwise fun a b => (integerOf (a c)).getD 0 < (integerOf (b c)).getD 0) :
    descending c rows = rows.reverse := by
  have sorted := @List.pairwise_mergeSort _
    (fun a b : Row C R => decide ((integerOf (b c)).getD 0 ≤ (integerOf (a c)).getD 0))
    (fun a b d hab hbd => by simp only [decide_eq_true_eq] at *; omega)
    (fun a b => by simp only [Bool.or_eq_true,decide_eq_true_eq]; omega) rows
  have backward : rows.reverse.Pairwise
      fun a b => (integerOf (b c)).getD 0 ≤ (integerOf (a c)).getD 0 :=
    List.pairwise_reverse.mpr (increasing.imp fun h => h.le)
  have distinct : (rows.map fun row => (integerOf (row c)).getD 0).Nodup :=
    (List.pairwise_map.mpr increasing).imp fun h => h.ne
  refine List.Perm.eq_of_pairwise (fun a b ha hb hab hba => ?_) (by simpa [descending] using sorted) backward
    ((List.mergeSort_perm ..).trans (List.reverse_perm rows).symm)
  exact List.inj_on_of_nodup_map distinct ((List.mergeSort_perm ..).subset ha)
    (List.mem_reverse.mp hb) (le_antisymm hba hab)

omit [DecidableEq C] [DecidableEq R] in
theorem maximumCounts {c : C} {rows : List (Row C R)}
    (places : rows.map (fun row => row c) = (List.range' 1 rows.length).map fun i : ℕ => .integer i) :
    (maximum c rows).getD 0 = rows.length := by
  have integers : rows.filterMap (fun row => integerOf (row c)) =
      (List.range' 1 rows.length).map fun i : ℕ => (i : ℤ) := by
    calc rows.filterMap (fun row => integerOf (row c))
        = (rows.map fun row => row c).filterMap integerOf := by rw [List.filterMap_map]; rfl
      _ = (List.range' 1 rows.length).map fun i : ℕ => (i : ℤ) := by
        rw [places,List.filterMap_map]
        exact congrFun List.filterMap_eq_map _
  unfold maximum
  rw [integers]
  cases rows.length.eq_zero_or_pos with
  | inl empty =>
    rw [empty]
    rfl
  | inr some =>
    have top : ((List.range' 1 rows.length).map fun i : ℕ => (i : ℤ)).max? = .some (rows.length : ℤ) := by
      refine List.max?_eq_some_iff.mpr ⟨?_,?_⟩
      · exact List.mem_map.mpr ⟨rows.length,by rw [List.mem_range'_1]; omega,rfl⟩
      · intro b mem
        obtain ⟨i,listed,rfl⟩ := List.mem_map.mp mem
        rw [List.mem_range'_1] at listed
        omega
    rw [top]
    rfl

end MoltenPour.SqlTable
