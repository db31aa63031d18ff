import Octo.Foundation.Collation
import Octo.Foundation.SubscriptLevel

/-!
# The loop over a key that is fixed to a range

`tmpl_tablejoin` emits a loop for a key column that is compared with a bound by `<`, `<=`, `>` or
`>=`. The bound is where the loop starts or where it stops, depending on the comparison and on the
direction. `$ORDER` goes on to the next subscript, so where the bound itself belongs to the range
and the loop starts there, the body runs once for the bound before the loop. A cross reference of a
string column prepends a character to the values, so that their subscripts are ordered as strings.
-/
namespace Octo.Physical

open Octo.Foundation List MValue SubscriptLevel

variable {bytes : List UInt8} {sub : MValue} {turns : Nat}

/-! ## The key and its level -/

/-- The comparisons that fix a key to a range. -/
inductive RangeType
  | lessThan
  | greaterThan
  | lessThanOrEquals
  | greaterThanOrEquals
deriving DecidableEq

/-- What the template reads of the key. -/
structure RangeKey where
  fixedToValueType : RangeType
  emitDescOrder : Bool
  isCrossReferenceKey : Bool
  /-- The column is of type STRING. -/
  isString : Bool

/-- `strcolval2aimsubs`. -/
def strcolval2aimsubs : MValue → MValue
  | .text bytes => .text (35 :: bytes)
  | .null => .null

/-- `aimsubs2strcolval`. -/
def aimsubs2strcolval : MValue → MValue
  | .text bytes => .text (bytes.drop 1)
  | .null => .null

namespace RangeKey

variable (key : RangeKey)

/-- `aimsub_needed`. -/
def aimsubNeeded : Bool := key.isCrossReferenceKey && key.isString

/-- The subscript of a column value. -/
def subscript (value : MValue) : MValue :=
  if key.aimsubNeeded then strcolval2aimsubs value else value

/-- The column value of a subscript. -/
def columnValue (sub : MValue) : MValue :=
  if key.aimsubNeeded then aimsubs2strcolval sub else sub

end RangeKey

/-- The subscripts that are stored for the key column. The cross reference of a string column has
the NULL values under the prefix alone. -/
structure RangeLevel (key : RangeKey) extends SubscriptLevel MValue where
  stored : ∀ sub ∈ subs, ∃ value ≠ MValue.null, sub = key.subscript value

/-! ## The emitted code -/

/-- `left<right`. -/
def mLess : MValue → MValue → Bool
  | .text left, .text right => MValue.numeric left < MValue.numeric right
  | _, _ => false

/-- `left]right`. -/
def mFollows (left right : MValue) : Bool := right.codes < left.codes

namespace RangeKey

variable (key : RangeKey)

/-- The loop starts at an end of the level and stops at the bound. -/
def stopsAtBound : Bool :=
  match key.fixedToValueType with
  | .lessThan | .lessThanOrEquals => !key.emitDescOrder
  | .greaterThan | .greaterThanOrEquals => key.emitDescOrder

/-- The `DO` in front of the loop. -/
def doesBoundFirst : Bool :=
  (!key.emitDescOrder && key.fixedToValueType = .greaterThanOrEquals) ||
    (key.emitDescOrder && key.fixedToValueType = .lessThanOrEquals)

/-- The second condition of the `QUIT:`. -/
def quits (bound value : MValue) : Bool :=
  if !key.isString then
    match key.fixedToValueType with
    | .lessThan => if !key.emitDescOrder then !mLess value bound else value = ⊥
    | .lessThanOrEquals => if !key.emitDescOrder then mLess bound value else value = ⊥
    | .greaterThan => if !key.emitDescOrder then value = ⊥ else !mLess bound value
    | .greaterThanOrEquals => if !key.emitDescOrder then value = ⊥ else mLess value bound
  else
    match key.fixedToValueType with
    | .lessThan => if !key.emitDescOrder then !mFollows bound value else value = ⊥
    | .lessThanOrEquals => if !key.emitDescOrder then mFollows value bound else value = ⊥
    | .greaterThan => if !key.emitDescOrder then value = ⊥ else !mFollows value bound
    | .greaterThanOrEquals => if !key.emitDescOrder then value = ⊥ else mFollows bound value

/-- The `FOR` loop, for a number of turns. -/
def rangeFor (level : RangeLevel key) (bound : MValue) : Nat → MValue → List MValue
  | 0, _ => []
  | turns + 1, value =>
    let following :=
      key.columnValue (level.next key.emitDescOrder (key.subscript value))
    if following = ⊥ || key.quits bound following then []
    else following :: rangeFor level bound turns following

/-- The values that the body runs for and that it finds in the table: it tests for the null value of
SQL and with `$DATA`. -/
def visits (level : RangeLevel key) (bound : MValue) (turns : Nat) : List MValue :=
  let first := if key.doesBoundFirst then [bound] else []
  let loop :=
    if bound = .null then []
    else key.rangeFor level bound turns (if key.stopsAtBound then ⊥ else bound)
  (first ++ loop).filter fun value => value ≠ .null && key.subscript value ∈ level.subs

/-! ## The range -/

/-- The comparison of two values of the column's type. -/
def less (left right : MValue) : Bool :=
  if key.isString then mFollows right left else mLess left right

/-- The stored value satisfies the comparison. The null string is a NULL, for which no comparison
holds, as none holds for a bound that is NULL. -/
def satisfies (bound value : MValue) : Bool :=
  bound ≠ .null && value ≠ ⊥ &&
    match key.fixedToValueType with
    | .lessThan => key.less value bound
    | .lessThanOrEquals => !key.less bound value
    | .greaterThan => key.less bound value
    | .greaterThanOrEquals => !key.less value bound

/-- The values of the level in the direction of the key. -/
def values (level : RangeLevel key) : List MValue :=
  (level.inOrder key.emitDescOrder).map key.columnValue

/-- What a loop should visit. -/
def range (level : RangeLevel key) (bound : MValue) : List MValue :=
  (key.values level).filter (key.satisfies bound)

/-! ## The loop as a walk -/

@[simp]
theorem columnValue_subscript (value : MValue) : key.columnValue (key.subscript value) = value := by
  unfold columnValue subscript
  split
  · cases value <;> rfl
  · rfl

theorem columnValue_bot : key.columnValue ⊥ = ⊥ := by
  unfold columnValue
  split <;> rfl

variable {key} {level : RangeLevel key} {bound : MValue}

theorem subscript_columnValue (stored : sub ∈ level.subs) :
    key.subscript (key.columnValue sub) = sub := by
  obtain ⟨value, -, rfl⟩ := level.stored sub stored
  rw [columnValue_subscript]

theorem columnValue_ne_null (stored : sub ∈ level.subs) : key.columnValue sub ≠ .null := by
  obtain ⟨value, notNull, rfl⟩ := level.stored sub stored
  rw [columnValue_subscript]
  exact notNull

/-- What ends the loop, in terms of the subscript. -/
def ends (key : RangeKey) (bound sub : MValue) : Bool :=
  key.columnValue sub = ⊥ || key.quits bound (key.columnValue sub)

/-- The loop is a walk over the subscripts. -/
theorem rangeFor_eq_walk (turns : Nat) (value : MValue) :
    key.rangeFor level bound turns value =
      (level.walk key.emitDescOrder (key.ends bound) turns (key.subscript value)).map
        key.columnValue := by
  induction turns generalizing value with
  | zero => rfl
  | succ turns ih =>
    rw [rangeFor, walk]
    obtain atEnd | stored := level.next_cases key.emitDescOrder (key.subscript value)
    · rw [atEnd, columnValue_bot]
      rfl
    · have notEnd := level.notNull _ stored
      rw [decide_eq_false notEnd, Bool.false_or]
      rw [ih, subscript_columnValue stored]
      unfold ends
      split <;> rfl

/-- The subscripts that a loop from a value comes to. -/
def after (level : RangeLevel key) (value : MValue) : List MValue :=
  (level.inOrder key.emitDescOrder).filter (behind key.emitDescOrder (key.subscript value))

theorem mem_of_mem_after {value : MValue} (member : sub ∈ after level value) :
    sub ∈ level.subs :=
  (level.mem_inOrder _).mp (mem_filter.mp member).1

theorem rangeFor_eq (enough : level.subs.length < turns) (value : MValue) :
    key.rangeFor level bound turns value =
      ((after level value).takeWhile fun sub => !key.ends bound sub).map key.columnValue := by
  rw [rangeFor_eq_walk, level.walk_eq key.emitDescOrder, after]
  refine Nat.lt_of_le_of_lt (length_filter_le _ _) ?_
  rw [length_inOrder]
  exact enough

/-! ## Where the loop starts and where it stops -/

theorem canonicalNumber_aim (bytes : List UInt8) : canonicalNumber (35 :: bytes) = none := by
  have notDigit : isDigit 35 = false := by decide
  simp [canonicalNumber, unsignedNumber, notDigit]

/-- The subscripts of a cross reference of a string column are ordered as strings. -/
theorem aim_lt_iff (left right : List UInt8) :
    strcolval2aimsubs (.text left) < strcolval2aimsubs (.text right) ↔
      (text left).codes < (text right).codes := by
  simp [strcolval2aimsubs, lt_iff, group, number, canonicalNumber_aim, codes]

/-- A loop that starts at the bound only stops at the end. -/
theorem ends_of_starts (starts : key.stopsAtBound = false) (bound sub : MValue) :
    key.ends bound sub = decide (key.columnValue sub = ⊥) := by
  have quits : key.quits bound (key.columnValue sub) = decide (key.columnValue sub = ⊥) := by
    obtain ⟨type, descending, isXref, isString⟩ := key
    cases type <;> cases descending <;> cases isString <;>
      first
      | rfl
      | cases starts
  rw [ends, quits, Bool.or_self]

/-- A loop that stops at the bound stops at a value that does not satisfy the comparison. -/
theorem ends_of_stops (stops : key.stopsAtBound = true) (notNull : bound ≠ .null) (sub : MValue) :
    (!key.ends bound sub) = key.satisfies bound (key.columnValue sub) := by
  unfold ends
  obtain ⟨type, descending, isXref, isString⟩ := key
  cases type <;> cases descending <;> cases isString <;>
    first
    | (cases stops; done)
    | simp [quits, satisfies, less, notNull]

/-- The NULL values of a cross reference come first. -/
theorem not_lt_subscript_bot (coded : key.aimsubNeeded = true) (value : MValue) :
    ¬ key.subscript value < key.subscript ⊥ := by
  unfold subscript
  rw [if_pos coded, if_pos coded]
  cases value with
  | text bytes =>
    rw [bot_eq, aim_lt_iff]
    exact not_lt_nil _
  | null => exact not_lt_of_gt (text_lt_null _)

theorem eq_subscript_bot (stored : sub ∈ level.subs) (isNull : key.columnValue sub = ⊥) :
    key.aimsubNeeded = true ∧ sub = key.subscript ⊥ := by
  refine ⟨?_, by rw [← isNull, subscript_columnValue stored]⟩
  by_contra plain
  rw [columnValue, if_neg plain] at isNull
  exact level.notNull sub stored isNull

/-- The null string comes last in a descending walk, and an ascending walk from the bound does not
meet it. -/
theorem takeWhile_ne_bot (bound : MValue) :
    ((after level bound).takeWhile fun sub => !decide (key.columnValue sub = ⊥)) =
      (after level bound).filter fun sub => !decide (key.columnValue sub = ⊥) := by
  rw [takeWhile_eq_filter_iff]
  refine ((level.inOrder_pairwise _).filter _).imp_of_mem
    fun {first second} inFirst inSecond order notNull => ?_
  simp only [Bool.not_eq_true', decide_eq_false_iff_not] at notNull ⊢
  intro isNull
  have firstBehind := (mem_filter.mp inFirst).2
  obtain ⟨coded, same⟩ := eq_subscript_bot (mem_of_mem_after inFirst) isNull
  rw [same] at order firstBehind
  cases direction : key.emitDescOrder with
  | false =>
    rw [direction] at firstBehind
    exact not_lt_subscript_bot coded bound (of_decide_eq_true firstBehind)
  | true =>
    rw [direction, ← subscript_columnValue (mem_of_mem_after inSecond)] at order
    exact not_lt_subscript_bot coded _ order

/-! ## What is visited -/

/-- The body finds every value that the loop comes to. -/
theorem filter_found {subs : List MValue} (stored : ∀ sub ∈ subs, sub ∈ level.subs) :
    ((subs.map key.columnValue).filter fun value =>
      value ≠ .null && key.subscript value ∈ level.subs) = subs.map key.columnValue := by
  refine filter_eq_self.mpr fun value member => ?_
  obtain ⟨sub, inSubs, rfl⟩ := mem_map.mp member
  have inLevel := stored sub inSubs
  simp [columnValue_ne_null inLevel, subscript_columnValue inLevel, inLevel]

theorem visits_null (turns : Nat) : key.visits level .null turns = [] := by
  unfold visits
  split <;> simp

theorem visits_of_stops (enough : level.subs.length < turns) (notNull : bound ≠ .null)
    (stops : key.stopsAtBound = true) :
    key.visits level bound turns =
      ((after level ⊥).takeWhile
        fun sub => key.satisfies bound (key.columnValue sub)).map key.columnValue := by
  have notFirst : key.doesBoundFirst = false := by
    obtain ⟨type, descending, isXref, isString⟩ := key
    cases type <;> cases descending <;> first | rfl | cases stops
  have test : (fun sub => !key.ends bound sub) =
      fun sub => key.satisfies bound (key.columnValue sub) :=
    funext fun sub => ends_of_stops stops notNull sub
  simp only [visits, notFirst, stops, if_true, if_neg notNull, Bool.false_eq_true, if_false,
    nil_append]
  rw [rangeFor_eq enough, test, filter_found]
  exact fun sub member => mem_of_mem_after ((takeWhile_sublist _).subset member)

/-- A subscript that is met by a loop that starts at the bound. -/
def meets (key : RangeKey) (bound sub : MValue) : Bool :=
  (behind key.emitDescOrder (key.subscript bound) sub && key.columnValue sub ≠ ⊥) ||
    (key.doesBoundFirst && sub = key.subscript bound)

theorem filter_meets (first : key.doesBoundFirst = true) :
    (level.inOrder key.emitDescOrder).filter (key.meets bound) =
      (if key.subscript bound ∈ level.subs then [key.subscript bound] else []) ++
        (after level bound).filter fun sub => !decide (key.columnValue sub = ⊥) := by
  have split := level.filter_start_or_behind key.emitDescOrder (key.subscript bound)
  have both := congrArg (filter fun sub =>
    decide (sub = key.subscript bound) || !decide (key.columnValue sub = ⊥)) split
  rw [filter_filter, filter_append] at both
  refine Eq.trans (filter_congr fun sub _ => ?_) (both.trans ?_)
  · simp only [meets, first, Bool.decide_or, decide_not]
    cases decide (sub = key.subscript bound) <;>
      cases behind key.emitDescOrder (key.subscript bound) sub <;>
      cases decide (key.columnValue sub = ⊥) <;> rfl
  · congr 1
    · split <;> simp
    · refine filter_congr fun sub member => ?_
      obtain ⟨inLevel, later⟩ := mem_filter.mp member
      simp [level.ne_of_behind _ ((level.mem_inOrder _).mp inLevel) later]

theorem visits_of_starts (enough : level.subs.length < turns) (notNull : bound ≠ .null)
    (starts : key.stopsAtBound = false) :
    key.visits level bound turns =
      ((level.inOrder key.emitDescOrder).filter (key.meets bound)).map key.columnValue := by
  have test : (fun sub => !key.ends bound sub) =
      fun sub => !decide (key.columnValue sub = ⊥) :=
    funext fun sub => by rw [ends_of_starts starts]
  have loop : ((key.rangeFor level bound turns bound).filter fun value =>
      value ≠ .null && key.subscript value ∈ level.subs) =
      ((after level bound).filter fun sub => !decide (key.columnValue sub = ⊥)).map
        key.columnValue := by
    rw [rangeFor_eq enough, test, takeWhile_ne_bot, filter_found]
    exact fun sub member => mem_of_mem_after (mem_filter.mp member).1
  simp only [visits, starts, if_neg notNull, Bool.false_eq_true, if_false, filter_append]
  rw [loop]
  cases first : key.doesBoundFirst with
  | false =>
    simp only [Bool.false_eq_true, if_false, filter_nil, nil_append, after, filter_filter]
    refine congrArg _ (filter_congr fun sub _ => ?_)
    simp [meets, first, Bool.and_comm]
  | true =>
    rw [filter_meets first]
    by_cases stored : key.subscript bound ∈ level.subs
    · simp [stored, notNull]
    · simp [stored]

/-! ## When the loop visits the range -/

/-- The order of the subscripts agrees with the comparison. For a loop that stops at the bound, no
value of the range lies before the start or behind a value outside of the range. For a loop that
starts at the bound, the values of the range are those behind it, with the bound if it belongs to
the range. -/
def Agrees (key : RangeKey) (level : RangeLevel key) (bound : MValue) : Prop :=
  if key.stopsAtBound then
    (∀ sub ∈ level.subs, key.satisfies bound (key.columnValue sub) = true →
        behind key.emitDescOrder (key.subscript ⊥) sub = true) ∧
      ((level.inOrder key.emitDescOrder).filter
        (behind key.emitDescOrder (key.subscript ⊥))).Pairwise fun first second =>
          key.satisfies bound (key.columnValue second) = true →
            key.satisfies bound (key.columnValue first) = true
  else ∀ sub ∈ level.subs,
    key.satisfies bound (key.columnValue sub) = true ↔ key.meets bound sub = true

theorem range_eq (level : RangeLevel key) (bound : MValue) :
    key.range level bound = ((level.inOrder key.emitDescOrder).filter fun sub =>
      key.satisfies bound (key.columnValue sub)).map key.columnValue := by
  rw [range, values, filter_map]
  rfl

theorem map_columnValue_inj {first second : List MValue}
    (inFirst : ∀ sub ∈ first, sub ∈ level.subs) (inSecond : ∀ sub ∈ second, sub ∈ level.subs) :
    first.map key.columnValue = second.map key.columnValue ↔ first = second := by
  refine ⟨fun same => ?_, fun same => congrArg _ same⟩
  have back {subs : List MValue} (stored : ∀ sub ∈ subs, sub ∈ level.subs) :
      (subs.map key.columnValue).map key.subscript = subs := by
    rw [map_map]
    exact (map_congr_left fun sub member => subscript_columnValue (stored sub member)).trans
      (map_id subs)
  rw [← back inFirst, same, back inSecond]

/-- For every level and every bound, the loop that is emitted for the key visits exactly the values
of the range, in its direction, when the bound is NULL or the order of the subscripts agrees with
the comparison, and only then. -/
theorem visits_eq_range_iff {turns : Nat} (enough : level.subs.length < turns) :
    key.visits level bound turns = key.range level bound ↔
      bound = .null ∨ key.Agrees level bound := by
  by_cases isNull : bound = .null
  · subst isNull
    refine iff_of_true ?_ (Or.inl rfl)
    rw [visits_null, range]
    simp [satisfies]
  · rw [or_iff_right isNull, range_eq, Agrees]
    have inLevel {sub : MValue} {test : MValue → Bool}
        (member : sub ∈ (level.inOrder key.emitDescOrder).filter test) : sub ∈ level.subs :=
      (level.mem_inOrder _).mp (mem_filter.mp member).1
    cases stops : key.stopsAtBound with
    | false =>
      rw [visits_of_starts enough isNull stops,
        map_columnValue_inj (fun _ => inLevel) (fun _ => inLevel), filter_eq_filter_iff]
      simp only [mem_inOrder]
      exact forall₂_congr fun sub _ => Bool.eq_iff_iff.trans Iff.comm
    | true =>
      rw [visits_of_stops enough isNull stops, if_pos rfl, after,
        map_columnValue_inj (fun _ member => inLevel ((takeWhile_sublist _).subset member))
          (fun _ => inLevel), takeWhile_filter_eq_filter_iff]
      simp only [mem_inOrder]

/-- `WHERE id >= 2` on a primary key of type INTEGER, in descending order. -/
def numberKey : RangeKey := ⟨.greaterThanOrEquals, true, false, false⟩

/-- The rows with the keys 1, 2 and 10. -/
def numberKeyLevel : RangeLevel numberKey where
  subs := [.text [49], .text [50], .text [49, 48]]
  sorted := by decide +kernel
  notNull := by decide
  stored := by
    intro sub member
    refine ⟨sub, ?_, rfl⟩
    rintro rfl
    simp at member

theorem numberKey_visits_range :
    numberKey.visits numberKeyLevel (.text [50]) 4 = [.text [49, 48], .text [50]] ∧
      (numberKey.visits numberKeyLevel (.text [50]) 4 =
        numberKey.range numberKeyLevel (.text [50]) ↔
        MValue.text [50] = .null ∨ numberKey.Agrees numberKeyLevel (.text [50])) :=
  ⟨by decide +kernel, visits_eq_range_iff (by decide)⟩

/-- `WHERE k < '9'` on a primary key of type VARCHAR. -/
def stringKey : RangeKey := ⟨.lessThan, false, false, true⟩

/-- The rows with the keys 9 and 10, which `$ORDER` returns as numbers. -/
def stringKeyLevel : RangeLevel stringKey where
  subs := [.text [57], .text [49, 48]]
  sorted := by decide +kernel
  notNull := by decide
  stored := by
    intro sub member
    refine ⟨sub, ?_, rfl⟩
    rintro rfl
    simp at member

theorem stringKey_misses_row :
    stringKey.visits stringKeyLevel (.text [57]) 3 = [] ∧
      stringKey.range stringKeyLevel (.text [57]) = [.text [49, 48]] := by
  constructor
  · decide +kernel
  · decide +kernel

/-! ## Which keys agree -/

/-- The values that the loop compares: the bound and the stored values. -/
def compared (level : RangeLevel key) (bytes : List UInt8) : Set (List UInt8) :=
  {value | value = bytes ∨ key.subscript (.text value) ∈ level.subs}

/-- The subscripts agree with a comparison by rank, if their order never goes against the rank, no
other stored value has the rank of the bound, and the loop leaves out the null string alone. -/
theorem agrees_of_rank {Rank : Type} [LinearOrder Rank] (rank : List UInt8 → Rank)
    (notEmpty : bytes ≠ [])
    (compares : ∀ left right, key.less (.text left) (.text right) = decide (rank left < rank right))
    (order : ∀ left ∈ compared level bytes, ∀ right ∈ compared level bytes,
      key.subscript (.text left) < key.subscript (.text right) → rank left ≤ rank right)
    (spelling : ∀ value, key.subscript (.text value) ∈ level.subs → rank value = rank bytes →
      value = bytes) (start : ∀ value, key.subscript (.text value) ∈ level.subs →
      (behind key.emitDescOrder (key.subscript ⊥) (key.subscript (.text value)) = true ↔
        value ≠ [])) : key.Agrees level (.text bytes) := by
  have storedText {sub : MValue} (inLevel : sub ∈ level.subs) :
      ∃ value, sub = key.subscript (.text value) := by
    obtain ⟨value, notNull, rfl⟩ := level.stored sub inLevel
    cases value with
    | null => exact absurd rfl notNull
    | text value => exact ⟨value, rfl⟩
  unfold Agrees
  split
  · rename_i stops
    refine ⟨fun sub inLevel holds => ?_, ?_⟩
    · obtain ⟨value, rfl⟩ := storedText inLevel
      refine (start value inLevel).mpr ?_
      rintro rfl
      simp [satisfies, bot_eq] at holds
    · refine ((level.inOrder_pairwise _).filter _).imp_of_mem
        fun {first second} inFirst inSecond before => ?_
      obtain ⟨firstIn, firstBehind⟩ := mem_filter.mp inFirst
      have secondIn := mem_of_mem_after inSecond
      rw [level.mem_inOrder] at firstIn
      obtain ⟨left, rfl⟩ := storedText firstIn
      obtain ⟨right, rfl⟩ := storedText secondIn
      have leftPresent := (start left firstIn).mp firstBehind
      simp only [columnValue_subscript, satisfies, compares]
      unfold stopsAtBound at stops
      cases direction : key.emitDescOrder <;> cases type : key.fixedToValueType <;>
        simp only [type, direction, Bool.not_true, Bool.not_false, Bool.false_eq_true] at stops
      all_goals rw [direction] at before
      · have le := order left (Or.inr firstIn) right (Or.inr secondIn) before
        simpa [bot_eq] using fun _ below => ⟨leftPresent, lt_of_le_of_lt le below⟩
      · have le := order left (Or.inr firstIn) right (Or.inr secondIn) before
        simpa [bot_eq] using fun _ below => ⟨leftPresent, le_trans le below⟩
      · have le := order right (Or.inr secondIn) left (Or.inr firstIn) before
        simpa [bot_eq] using fun _ above => ⟨leftPresent, lt_of_lt_of_le above le⟩
      · have le := order right (Or.inr secondIn) left (Or.inr firstIn) before
        simpa [bot_eq] using fun _ above => ⟨leftPresent, le_trans above le⟩
  · rename_i starts
    intro sub inLevel
    obtain ⟨value, rfl⟩ := storedText inLevel
    have bound_ne : key.subscript (.text bytes) ≠ .text [] := by
      unfold subscript strcolval2aimsubs
      split <;> simp [notEmpty]
    have same_iff : key.subscript (.text value) = key.subscript (.text bytes) ↔
        rank value = rank bytes := by
      refine ⟨fun same => ?_, fun same => by rw [spelling value inLevel same]⟩
      have values := congrArg key.columnValue same
      rw [columnValue_subscript, columnValue_subscript, text.injEq] at values
      rw [values]
    -- The order does not go against the rank, and equal ranks are equal subscripts.
    have le := order value (Or.inr inLevel) bytes (Or.inl rfl)
    have ge := order bytes (Or.inl rfl) value (Or.inr inLevel)
    have below : key.subscript (.text value) < key.subscript (.text bytes) ↔
        rank value < rank bytes := by grind
    have above : key.subscript (.text bytes) < key.subscript (.text value) ↔
        rank bytes < rank value := by grind
    simp only [columnValue_subscript, satisfies, compares, meets, behind, doesBoundFirst, above,
      below, same_iff]
    unfold stopsAtBound at starts
    cases direction : key.emitDescOrder <;> cases type : key.fixedToValueType <;>
    all_goals simp [bot_eq, bound_ne]
    all_goals grind

/-- The subscripts of a column of numbers agree with every comparison with a number, if no stored
subscript is another spelling of the bound. -/
theorem agrees_of_numbers (numbers : key.isString = false)
    (stored : ∀ sub ∈ level.subs, ∃ number, sub = .text number ∧
      (canonicalNumber number).isSome = true ∧
        (numeric number = numeric bytes → number = bytes))
    (isNumber : (canonicalNumber bytes).isSome = true) : key.Agrees level (.text bytes) := by
  have subscript_eq (value : MValue) : key.subscript value = value := by
    simp [subscript, aimsubNeeded, numbers]
  have isStored {value : List UInt8} (inLevel : key.subscript (.text value) ∈ level.subs) :
      (canonicalNumber value).isSome = true ∧
        (numeric value = numeric bytes → value = bytes) := by
    obtain ⟨number, same, facts⟩ := stored _ inLevel
    rw [subscript_eq, text.injEq] at same
    rwa [same]
  have canonical {value : List UInt8} (member : value ∈ compared level bytes) :
      (canonicalNumber value).isSome = true := by
    obtain rfl | inLevel := member
    · exact isNumber
    · exact (isStored inLevel).1
  refine agrees_of_rank numeric ?_ ?_ ?_ (fun value inLevel => (isStored inLevel).2) ?_
  · rintro rfl
    cases isNumber
  · simp [less, numbers, mLess]
  · intro left leftIn right rightIn before
    rw [subscript_eq, subscript_eq] at before
    exact numeric_le_of_text_lt (canonical leftIn) (canonical rightIn) before
  · intro value inLevel
    have notNull := level.notNull _ inLevel
    rw [subscript_eq] at notNull
    rw [subscript_eq, subscript_eq]
    refine iff_of_true (behind_bot _ notNull) ?_
    rintro rfl
    exact notNull rfl

theorem agrees_numberKey : numberKey.Agrees numberKeyLevel (.text [50]) :=
  agrees_of_numbers rfl (by simp [numberKeyLevel]; decide +kernel) (by decide +kernel)

/-- The subscripts of an ascending cross reference of a string column agree with every comparison
with a string. -/
theorem agrees_of_aim (coded : key.aimsubNeeded = true) (ascending : key.emitDescOrder = false)
    (notEmpty : bytes ≠ []) : key.Agrees level (.text bytes) := by
  have strings : key.isString = true := (Bool.and_eq_true_iff.mp coded).2
  have subscript_lt (left right : List UInt8) :
      key.subscript (.text left) < key.subscript (.text right) ↔
        (text left).codes < (text right).codes := by
    rw [subscript, subscript, if_pos coded, if_pos coded, aim_lt_iff]
  refine agrees_of_rank (fun value => (text value).codes) notEmpty ?_ ?_ ?_ ?_
  · simp [less, strings, mFollows]
  · exact fun left _ right _ before => ((subscript_lt left right).mp before).le
  · exact fun value _ same => map_toNat_injective same
  · intro value _
    rw [ascending, bot_eq, behind, if_neg Bool.false_ne_true, decide_eq_true_iff, subscript_lt]
    cases value with
    | nil => exact iff_of_false (not_lt_nil _) fun empty => empty rfl
    | cons byte value => exact iff_of_true (nil_lt_cons _ _) (cons_ne_nil _ _)

/-- The cross reference of the strings `10`, `9` and `a`. -/
def stringsLevel : RangeLevel ⟨.lessThan, false, true, true⟩ where
  subs := [.text [35, 49, 48], .text [35, 57], .text [35, 97]]
  sorted := by decide +kernel
  notNull := by decide
  stored sub member := by
    simp only [mem_cons, not_mem_nil, or_false] at member
    rcases member with rfl | rfl | rfl
    · exact ⟨.text [49, 48], nofun, rfl⟩
    · exact ⟨.text [57], nofun, rfl⟩
    · exact ⟨.text [97], nofun, rfl⟩

/-- `< '9'`, which `10` meets. -/
theorem agrees_aimKey : Agrees _ stringsLevel (.text [57]) :=
  agrees_of_aim rfl rfl (by decide)

end RangeKey

end Octo.Physical
