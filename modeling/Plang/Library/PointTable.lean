import Mathlib.Order.Lattice
import Mathlib.Data.List.Basic

/-!
# Tables of change points

A finite list of points, sorted by key, records where a value changes.  A query answers with the
value at the greatest key not above it.  Recording a point is local: it changes the answers from
its own key up to the next recorded key and no others.
-/

/-- A table of change points with strictly increasing keys. -/
structure PointTable (K V : Type*) [LinearOrder K] where
  /-- The points, in increasing order of key. -/
  points : List (K × V)
  /-- No key is recorded twice and the keys increase. -/
  sorted : points.Pairwise fun left right => left.1 < right.1

namespace PointTable

variable {K V : Type*} [LinearOrder K]

/-- The table without points. -/
def empty : PointTable K V := ⟨[], List.Pairwise.nil⟩

/-- Put a point at its place in a sorted list, replacing a point with the same key. -/
def insert (key : K) (value : V) : List (K × V) → List (K × V)
  | [] => [(key, value)]
  | point :: points =>
      if point.1 < key then
        point :: insert key value points
      else if point.1 = key then
        (key, value) :: points
      else
        (key, value) :: point :: points

attribute [grind =] insert

theorem mem_insert {key : K} {value : V} {points : List (K × V)} {point : K × V}
    (member : point ∈ insert key value points) : point = (key, value) ∨ point ∈ points := by
  induction points with
  | nil => simpa [insert] using member
  | cons first points induction =>
      simp only [insert] at member
      split at member
      · rcases List.mem_cons.mp member with rfl | later
        · exact .inr List.mem_cons_self
        · rcases induction later with equal | old
          · exact .inl equal
          · exact .inr (List.mem_cons_of_mem first old)
      · split at member
        · rcases List.mem_cons.mp member with equal | old
          · exact .inl equal
          · exact .inr (List.mem_cons_of_mem first old)
        · rcases List.mem_cons.mp member with equal | old
          · exact .inl equal
          · exact .inr old

theorem insert_mem (key : K) (value : V) (points : List (K × V)) :
    (key, value) ∈ insert key value points := by
  induction points with
  | nil => simp [insert]
  | cons first points induction =>
      simp only [insert]
      split
      · exact List.mem_cons_of_mem first induction
      · split <;> exact List.mem_cons_self

theorem mem_insert_of_ne {key : K} {value : V} {points : List (K × V)} {point : K × V}
    (member : point ∈ points) (key_ne : point.1 ≠ key) : point ∈ insert key value points := by
  induction points with
  | nil => cases member
  | cons first points induction =>
      simp only [insert]
      rcases List.mem_cons.mp member with rfl | later
      · split
        · exact List.mem_cons_self
        · exact List.mem_cons_of_mem _ List.mem_cons_self
      · split
        · exact List.mem_cons_of_mem first (induction later)
        · split
          · exact List.mem_cons_of_mem _ later
          · exact List.mem_cons_of_mem _ (List.mem_cons_of_mem _ later)

theorem insert_sorted (key : K) (value : V) {points : List (K × V)}
    (sorted : points.Pairwise fun left right => left.1 < right.1) :
    (insert key value points).Pairwise fun left right => left.1 < right.1 := by
  induction points with
  | nil => simp [insert]
  | cons first points induction =>
      obtain ⟨first_lt, tail_sorted⟩ := List.pairwise_cons.mp sorted
      simp only [insert]
      split
      case isTrue below =>
        refine List.pairwise_cons.mpr ⟨fun point member => ?_, induction tail_sorted⟩
        rcases mem_insert member with rfl | old
        · exact below
        · exact first_lt point old
      case isFalse not_below =>
        split
        case isTrue equal =>
          refine List.pairwise_cons.mpr ⟨fun point member => ?_, tail_sorted⟩
          exact equal ▸ first_lt point member
        case isFalse ne =>
          have above : key < first.1 := lt_of_le_of_ne (not_lt.mp not_below) (Ne.symm ne)
          refine List.pairwise_cons.mpr ⟨fun point member => ?_, sorted⟩
          rcases List.mem_cons.mp member with rfl | later
          · exact above
          · exact above.trans (first_lt point later)

/-- Record that from `key` on the value is `value`. -/
def record (table : PointTable K V) (key : K) (value : V) : PointTable K V :=
  ⟨insert key value table.points, insert_sorted key value table.sorted⟩

/-- The value in force at `query`: that of the last point not above it. -/
def lastAt (table : PointTable K V) (query : K) : Option V :=
  (table.points.takeWhile fun point => decide (point.1 ≤ query)).getLast?.map Prod.snd

/-- A key is recorded in the table. -/
def HasKey (table : PointTable K V) (key : K) : Prop :=
  ∃ value, (key, value) ∈ table.points

/-- A point decides the answer at `query` when it is the last one not above it. -/
def Decides (points : List (K × V)) (query : K) (point : K × V) : Prop :=
  point ∈ points ∧ point.1 ≤ query ∧ ∀ other ∈ points, other.1 ≤ query → other.1 ≤ point.1

private theorem getLast?_takeWhile_iff {points : List (K × V)} {query : K} {point : K × V}
    (sorted : points.Pairwise fun left right => left.1 < right.1) :
    (points.takeWhile fun other => decide (other.1 ≤ query)).getLast? = some point ↔
      Decides points query point := by
  induction points generalizing point with
  | nil => simp [Decides]
  | cons first points induction =>
      obtain ⟨first_lt, tail_sorted⟩ := List.pairwise_cons.mp sorted
      by_cases below : first.1 ≤ query
      · rw [List.takeWhile_cons_of_pos (by simpa using below), List.getLast?_cons]
        cases tail : (points.takeWhile fun other => decide (other.1 ≤ query)).getLast? with
        | none =>
            have tail_above : ∀ other ∈ points, ¬ other.1 ≤ query := by
              intro other member other_le
              have head_above := List.getLast?_eq_none_iff.mp tail
              cases points with
              | nil => cases member
              | cons second points =>
                  have second_above : ¬ second.1 ≤ query := by
                    intro second_le
                    simp [second_le] at head_above
                  have second_le : second.1 ≤ other.1 := by
                    rcases List.mem_cons.mp member with rfl | later
                    · exact le_rfl
                    · exact ((List.pairwise_cons.mp tail_sorted).1 other later).le
                  exact second_above (second_le.trans other_le)
            constructor
            · rintro equal
              obtain rfl : first = point := by simpa using equal
              refine ⟨List.mem_cons_self, below, fun other member other_le => ?_⟩
              rcases List.mem_cons.mp member with rfl | later
              · exact le_rfl
              · exact absurd other_le (tail_above other later)
            · rintro ⟨member, point_le, _⟩
              rcases List.mem_cons.mp member with rfl | later
              · rfl
              · exact absurd point_le (tail_above point later)
        | some last =>
            have decides : Decides points query last := (induction tail_sorted).mp tail
            constructor
            · intro equal
              obtain rfl : last = point := by simpa using equal
              refine ⟨List.mem_cons_of_mem first decides.1, decides.2.1, fun other member le => ?_⟩
              rcases List.mem_cons.mp member with rfl | later
              · exact (first_lt last decides.1).le
              · exact decides.2.2 other later le
            · rintro ⟨member, point_le, greatest⟩
              have last_le := greatest last (List.mem_cons_of_mem first decides.1) decides.2.1
              rcases List.mem_cons.mp member with rfl | later
              · exact absurd (first_lt last decides.1) (not_lt.mpr last_le)
              · have here : (points.takeWhile fun point => decide (point.1 ≤ query)).getLast? = some point :=
                  (induction tail_sorted).mpr ⟨later, point_le, fun other member le =>
                    greatest other (List.mem_cons_of_mem first member) le⟩
                exact tail.symm.trans here
      · rw [List.takeWhile_cons_of_neg (by simpa using below)]
        refine ⟨fun none_eq => by simp at none_eq, fun decides => ?_⟩
        rcases List.mem_cons.mp decides.1 with rfl | later
        · exact absurd decides.2.1 below
        · exact absurd ((first_lt point later).le.trans decides.2.1) below

theorem lastAt_eq_some_iff {table : PointTable K V} {query : K} {value : V} :
    table.lastAt query = some value ↔ ∃ key, Decides table.points query (key, value) := by
  unfold lastAt
  rw [Option.map_eq_some_iff]
  constructor
  · rintro ⟨⟨key, _⟩, last, rfl⟩
    exact ⟨key, (getLast?_takeWhile_iff table.sorted).mp last⟩
  · rintro ⟨key, decides⟩
    exact ⟨(key, value), (getLast?_takeWhile_iff table.sorted).mpr decides, rfl⟩

theorem lastAt_eq_of_decides_iff {left right : PointTable K V} {query : K}
    (agree : ∀ point, Decides left.points query point ↔ Decides right.points query point) :
    left.lastAt query = right.lastAt query := by
  apply Option.ext
  intro value
  rw [lastAt_eq_some_iff, lastAt_eq_some_iff]
  exact exists_congr fun key => agree (key, value)

/-- Between two recorded keys the answer stays the same. -/
theorem lastAt_eq_of_nothing_between {table : PointTable K V} {query later : K}
    (query_le : query ≤ later)
    (nothing_between : ∀ key, table.HasKey key → key ≤ later → key ≤ query) :
    table.lastAt later = table.lastAt query := by
  apply Option.ext
  intro value
  rw [lastAt_eq_some_iff, lastAt_eq_some_iff]
  refine exists_congr fun key => ⟨?_, ?_⟩
  · rintro ⟨member, key_le, greatest⟩
    exact ⟨member, nothing_between key ⟨value, member⟩ key_le,
      fun other other_member other_le => greatest other other_member (other_le.trans query_le)⟩
  · rintro ⟨member, key_le, greatest⟩
    refine ⟨member, key_le.trans query_le, fun other other_member other_le => ?_⟩
    exact greatest other other_member (nothing_between other.1 ⟨other.2, other_member⟩ other_le)

theorem lastAt_empty (query : K) : (empty : PointTable K V).lastAt query = none := rfl

theorem hasKey_record {table : PointTable K V} {key other : K} {value : V} :
    (table.record key value).HasKey other ↔ other = key ∨ table.HasKey other := by
  constructor
  · rintro ⟨stored, member⟩
    rcases mem_insert member with equal | old
    · exact .inl (congrArg Prod.fst equal)
    · exact .inr ⟨stored, old⟩
  · rintro (rfl | ⟨stored, member⟩)
    · exact ⟨value, insert_mem other value table.points⟩
    · by_cases equal : other = key
      · subst equal
        exact ⟨value, insert_mem other value table.points⟩
      · exact ⟨stored, mem_insert_of_ne member equal⟩

/-- A recorded point answers every later query that no other point separates it from. -/
theorem lastAt_record_of_le {table : PointTable K V} {key query : K} {value : V}
    (key_le : key ≤ query)
    (nothing_between : ∀ other, table.HasKey other → other ≤ query → other ≤ key) :
    (table.record key value).lastAt query = some value := by
  rw [lastAt_eq_some_iff]
  refine ⟨key, insert_mem key value table.points, key_le, fun other member other_le => ?_⟩
  rcases mem_insert member with rfl | old
  · exact le_rfl
  · exact nothing_between other.1 ⟨other.2, old⟩ other_le

/-- A recorded point changes no answer below its key. -/
theorem lastAt_record_of_lt {table : PointTable K V} {key query : K} {value : V}
    (query_lt : query < key) : (table.record key value).lastAt query = table.lastAt query := by
  refine lastAt_eq_of_decides_iff fun point => ⟨?_, ?_⟩
  · rintro ⟨member, point_le, greatest⟩
    rcases mem_insert member with rfl | old
    · exact absurd point_le (not_le.mpr query_lt)
    · refine ⟨old, point_le, fun other other_member other_le => greatest other ?_ other_le⟩
      exact mem_insert_of_ne other_member (other_le.trans_lt query_lt).ne
  · rintro ⟨member, point_le, greatest⟩
    refine ⟨mem_insert_of_ne member (point_le.trans_lt query_lt).ne, point_le,
      fun other other_member other_le => ?_⟩
    rcases mem_insert other_member with rfl | old
    · exact absurd other_le (not_le.mpr query_lt)
    · exact greatest other old other_le

/-- A recorded point changes no answer at or above a key recorded after it. -/
theorem lastAt_record_of_hasKey {table : PointTable K V} {key later query : K} {value : V}
    (recorded : table.HasKey later) (key_lt : key < later) (later_le : later ≤ query) :
    (table.record key value).lastAt query = table.lastAt query := by
  obtain ⟨stored, stored_mem⟩ := recorded
  have above_of_decides {points : List (K × V)} {point : K × V}
      (stored_mem : (later, stored) ∈ points) (decides : Decides points query point) :
      point.1 ≠ key :=
    (key_lt.trans_le (decides.2.2 (later, stored) stored_mem later_le)).ne'
  refine lastAt_eq_of_decides_iff fun point => ⟨fun decides => ?_, fun decides => ?_⟩
  · have point_ne := above_of_decides (mem_insert_of_ne stored_mem key_lt.ne') decides
    obtain ⟨member, point_le, greatest⟩ := decides
    rcases mem_insert member with rfl | old
    · exact absurd rfl point_ne
    · refine ⟨old, point_le, fun other other_member other_le => ?_⟩
      by_cases equal : other.1 = key
      · exact equal ▸ (key_lt.le.trans
          (greatest (later, stored) (mem_insert_of_ne stored_mem key_lt.ne') later_le))
      · exact greatest other (mem_insert_of_ne other_member equal) other_le
  · have point_ne := above_of_decides stored_mem decides
    obtain ⟨member, point_le, greatest⟩ := decides
    refine ⟨mem_insert_of_ne member point_ne, point_le, fun other other_member other_le => ?_⟩
    rcases mem_insert other_member with rfl | old
    · exact key_lt.le.trans (greatest (later, stored) stored_mem later_le)
    · exact greatest other old other_le

end PointTable
