import Octo.Rocto.RowLimit

/-!
# Queries that keep their rows under a row limit

A row limit should only cut the rows of a portal. It does for an outermost SELECT, whose LIMIT is
the last parameter. For a set operation or VALUES the last parameter is a value or a LIMIT somewhere
in the query, and it is replaced as soon as it is greater than the row limit.
-/
namespace Octo.Rocto

open Octo.Foundation List QueryExpr QueryItems QueryRows Nat Option

/-! ## Decimal texts -/

theorem leadingNumber_decimal (number : Nat) : leadingNumber (decimal number) = number := by
  have digits : ∀ letter ∈ toDigits 10 number, 48 ≤ letter.toNat ∧ letter.toNat ≤ 57 :=
    fun letter member =>
      isDigit_bounds (isDigit_of_mem_toDigits (by decide) (by decide) member)
  have all : ∀ letters : List Char, (∀ letter ∈ letters, 48 ≤ letter.toNat ∧ letter.toNat ≤ 57) →
      ∀ start : Nat,
      ((letters.map fun letter => UInt8.ofNat letter.toNat).takeWhile isDigit).foldl
        (fun number digit => 10 * number + (digit.toNat - 48)) start =
      ofDigitChars 10 letters start := by
    intro letters
    induction letters with
    | nil => exact fun _ _ => rfl
    | cons letter letters ih =>
      intro bounds start
      rw [forall_mem_cons] at bounds
      have byte : (UInt8.ofNat letter.toNat).toNat = letter.toNat :=
        toNat_ofNat_of_lt (by omega)
      have digit : isDigit (UInt8.ofNat letter.toNat) = true := by
        rw [isDigit, decide_eq_true_eq, UInt8.le_iff_toNat_le, UInt8.le_iff_toNat_le, byte]
        exact bounds.1
      rw [map_cons, takeWhile_cons_of_pos digit, foldl_cons, ih bounds.2, byte]
      rfl
  have letters : decimal number = (toDigits 10 number).map fun letter =>
      UInt8.ofNat letter.toNat := by
    rw [decimal, decimalLetters, if_neg (by omega), Int.natAbs_natCast]
  rw [leadingNumber, letters, all _ digits, ofDigitChars_toDigits (by decide) (by decide)]

theorem strtol_decimal (number : Nat) : strtol (decimal number) = number := by
  have bounds : ∀ byte ∈ decimal number, 48 ≤ byte.toNat ∧ byte.toNat ≤ 57 := by
    intro byte member
    obtain ⟨letter, inside, rfl⟩ := mem_map.1 member
    have := isDigit_bounds (isDigit_of_mem_toDigits (by decide) (by decide) inside)
    rwa [toNat_ofNat_of_lt (by omega)]
  have value := leadingNumber_decimal number
  cases first : decimal number with
  | nil => exact absurd first (decimal_ne_nil _)
  | cons byte text =>
    rw [first] at value
    have digit := bounds byte (first ▸ mem_cons_self)
    have noSpace : ¬ isSpace byte = true := by
      rw [isSpace, decide_eq_true_eq, UInt8.le_iff_toNat_le, UInt8.le_iff_toNat_le]
      rintro (rfl | ⟨-, small⟩)
      · simp at digit
      · simp at small
        omega
    rw [strtol, dropWhile_cons_of_neg noSpace]
    split
    case h_1 digits same | h_2 digits same =>
      obtain ⟨rfl, -⟩ := cons.inj same
      simp at digit
    case h_3 => rw [value]

/-! ## Parameters of parts of a query -/

section Plan

variable {Row Env : Type} (meaning : Meaning Row Env) {cursor other : Nat → List UInt8}

/-- Two cursors have the same values for so many parameters behind the first ones. -/
def SameParms (cursor other : Nat → List UInt8) (start count : Nat) : Prop :=
  ∀ index, start < index → index ≤ start + count → other index = cursor index

section

variable {start count more : Nat} (same : SameParms cursor other start (count + more))
include same

theorem SameParms.left : SameParms cursor other start count :=
  fun index above below => same index above (by omega)

theorem SameParms.right : SameParms cursor other (start + count) more :=
  fun index above below => same index (by omega) (by omega)

end

mutual

/-- The rows of a query depend on its own parameters only. -/
theorem QueryExpr.evalRows_congr (query : QueryExpr) {start : Nat} (env : Env)
    (same : SameParms cursor other start query.parms.length) :
    query.evalRows meaning other start env = query.evalRows meaning cursor start env := by
  cases query with
  | select body items limit =>
    rw [QueryExpr.parms, length_append] at same
    have sameItems := items.evalItems_congr same.left
    cases limit with
    | none => rw [evalRows, evalRows, sameItems]
    | some number =>
      rw [evalRows, evalRows, sameItems,
        same (start + items.parms.length + 1) (by omega) (Nat.le_refl _)]
  | setOperation operator left right =>
    rw [QueryExpr.parms, length_append] at same
    rw [evalRows, evalRows, left.evalRows_congr env same.left, right.evalRows_congr env same.right]
  | values rows =>
    rw [evalRows, evalRows]
    exact rows.evalValues_congr env same

theorem QueryItems.evalItems_congr (items : QueryItems) {start : Nat}
    (same : SameParms cursor other start items.parms.length) :
    items.evalItems meaning other start = items.evalItems meaning cursor start := by
  cases items with
  | nil => rfl
  | parm parm rest =>
    rw [QueryItems.parms, length_cons, Nat.add_comm] at same
    rw [evalItems, evalItems, same (start + 1) (by omega) (by omega),
      rest.evalItems_congr same.right]
  | subquery query rest =>
    rw [QueryItems.parms, length_append] at same
    rw [evalItems, evalItems, rest.evalItems_congr same.right]
    congr 2
    funext env
    exact query.evalRows_congr env same.left

theorem QueryRows.evalValues_congr (rows : QueryRows) {start : Nat} (env : Env)
    (same : SameParms cursor other start rows.parms.length) :
    rows.evalValues meaning other start env = rows.evalValues meaning cursor start env := by
  cases rows with
  | nil => rfl
  | row items rest =>
    rw [QueryRows.parms, length_append] at same
    rw [evalValues, evalValues, items.evalItems_congr same.left,
      rest.evalValues_congr env same.right]

end

end Plan

mutual

/-- The numbers of the parameters that are a LIMIT. -/
def QueryExpr.limits (start : Nat) : QueryExpr → List Nat
  | .select _ items limit =>
    items.limits start ++ limit.toList.map fun _ => start + items.parms.length + 1
  | .setOperation _ left right => left.limits start ++ right.limits (start + left.parms.length)
  | .values rows => rows.limits start

/-- The numbers of the parameters of the items that are a LIMIT. -/
def QueryItems.limits (start : Nat) : QueryItems → List Nat
  | .nil => []
  | .parm _ rest => rest.limits (start + 1)
  | .subquery query rest => query.limits start ++ rest.limits (start + query.parms.length)

/-- The numbers of the parameters of VALUES that are a LIMIT. -/
def QueryRows.limits (start : Nat) : QueryRows → List Nat
  | .nil => []
  | .row items rest => items.limits start ++ rest.limits (start + items.parms.length)

end

/-- The limits of sub-queries and operands: all but the LIMIT of an outermost SELECT. -/
def innerLimits : QueryExpr → List Nat
  | .select _ items _ => items.limits 0
  | query => query.limits 0

theorem bounds_append {first second : List Nat} {start count more index : Nat}
    (left : index ∈ first → start < index ∧ index ≤ start + count)
    (right : index ∈ second → start + count < index ∧ index ≤ start + count + more)
    (member : index ∈ first ++ second) : start < index ∧ index ≤ start + (count + more) := by
  obtain inFirst | inSecond := mem_append.1 member
  · have := left inFirst
    omega
  · have := right inSecond
    omega

mutual

theorem QueryExpr.limits_bounds (query : QueryExpr) {start index : Nat}
    (member : index ∈ query.limits start) :
    start < index ∧ index ≤ start + query.parms.length := by
  cases query with
  | select body items limit =>
    rw [QueryExpr.parms, length_append]
    refine bounds_append items.limits_bounds (fun member => ?_) member
    cases limit with
    | none => simp at member
    | some number =>
      obtain rfl := mem_singleton.1 (show index ∈ [start + items.parms.length + 1] from member)
      exact ⟨by omega, Nat.le_refl _⟩
  | setOperation operator left right =>
    rw [QueryExpr.parms, length_append]
    exact bounds_append left.limits_bounds right.limits_bounds member
  | values rows => exact rows.limits_bounds member

theorem QueryItems.limits_bounds (items : QueryItems) {start index : Nat}
    (member : index ∈ items.limits start) :
    start < index ∧ index ≤ start + items.parms.length := by
  cases items with
  | nil => cases member
  | parm parm rest =>
    have := rest.limits_bounds (show index ∈ rest.limits (start + 1) from member)
    rw [QueryItems.parms, length_cons]
    omega
  | subquery query rest =>
    rw [QueryItems.parms, length_append]
    exact bounds_append query.limits_bounds rest.limits_bounds member

theorem QueryRows.limits_bounds (rows : QueryRows) {start index : Nat}
    (member : index ∈ rows.limits start) :
    start < index ∧ index ≤ start + rows.parms.length := by
  cases rows with
  | nil => cases member
  | row items rest =>
    rw [QueryRows.parms, length_append]
    exact bounds_append items.limits_bounds rest.limits_bounds member

end

/-! ## A meaning that shows the last parameter -/

section Probe

variable (old : List UInt8) (many : Nat)

/-- What an item weighs: a parameter counts if it has the old value, and rows weigh what their sum
is. -/
def itemWeight : ItemValue Nat Unit → Nat
  | .text text => if text = old then 1 else 0
  | .rows rows => (rows ()).sum

/-- The items of a SELECT or of a row together. -/
def itemsWeight (items : List (ItemValue Nat Unit)) : Nat :=
  (items.map (itemWeight old)).sum

/-- A meaning under which a change of the last parameter changes the sum of the rows. All set
operations are UNION ALL. -/
def probe : Meaning Nat Unit where
  select _ _ items := List.replicate many (itemsWeight old items + 1)
  setOperation _ left right := left ++ right
  row _ items := itemsWeight old items

/-- Two cursors that differ in the last of so many parameters. -/
structure LastChanged (cursor other : Nat → List UInt8) (start count : Nat) : Prop where
  same : ∀ index, start < index → index < start + count → other index = cursor index
  before : cursor (start + count) = old
  after : other (start + count) ≠ old
  lower : (strtol (other (start + count))).toNat < (strtol old).toNat

variable {old many} {cursor other : Nat → List UInt8}

theorem LastChanged.right {start count more : Nat} (hasParms : 0 < more)
    (changed : LastChanged old cursor other start (count + more)) :
    SameParms cursor other start count ∧ LastChanged old cursor other (start + count) more := by
  obtain ⟨same, before, after, lower⟩ := changed
  rw [← Nat.add_assoc] at before after lower
  refine ⟨fun index above below => same index above (by omega), ?_, before, after, lower⟩
  exact fun index above below => same index (by omega) (by omega)

theorem itemsWeight_cons (item : ItemValue Nat Unit) (items : List (ItemValue Nat Unit)) :
    itemsWeight old (item :: items) = itemWeight old item + itemsWeight old items := by
  rfl

theorem sameParms_zero (start : Nat) : SameParms cursor other start 0 :=
  fun index above below => absurd above (by omega)

/-- A sum of two parts shows the last parameter if the part does that has it. -/
theorem LastChanged.add_ne {start count more left left' right right' : Nat}
    (changed : LastChanged old cursor other start (count + more)) (hasParms : 0 < count + more)
    (leftSame : SameParms cursor other start count → left' = left)
    (leftNe : 0 < count → LastChanged old cursor other start count → left' ≠ left)
    (rightSame : SameParms cursor other (start + count) more → right' = right)
    (rightNe : 0 < more → LastChanged old cursor other (start + count) more → right' ≠ right) :
    left' + right' ≠ left + right := by
  by_cases rightSome : 0 < more
  · obtain ⟨sameLeft, last⟩ := changed.right rightSome
    rw [leftSame sameLeft]
    exact fun same => rightNe rightSome last (Nat.add_left_cancel same)
  · obtain rfl : more = 0 := by omega
    rw [rightSame (sameParms_zero _)]
    exact fun same => leftNe hasParms changed (Nat.add_right_cancel same)

mutual

/-- The sum of the rows shows whether the last parameter has its old value. -/
theorem QueryExpr.sum_evalRows_ne (query : QueryExpr) {start : Nat}
    (large : (strtol old).toNat ≤ many) (hasParms : 0 < query.parms.length)
    (changed : LastChanged old cursor other start query.parms.length) :
    (query.evalRows (probe old many) other start ()).sum ≠
      (query.evalRows (probe old many) cursor start ()).sum := by
  have positive : 0 < many := Nat.lt_of_lt_of_le (Nat.zero_lt_of_lt changed.lower) large
  cases query with
  | select body items limit =>
    cases limit with
    | none =>
      rw [QueryExpr.parms, toList_none, map_nil, append_nil] at hasParms changed
      rw [evalRows, evalRows]
      simp only [probe, sum_replicate_nat]
      intro same
      exact items.weight_ne large hasParms changed
        (Nat.succ.inj (Nat.eq_of_mul_eq_mul_left positive same))
    | some number =>
      rw [QueryExpr.parms, length_append] at changed
      obtain ⟨sameItems, last⟩ := changed.right (by simp)
      have before := last.before
      have lower := last.lower
      simp only [toList_some, map_cons, map_nil, length_singleton]
        at before lower
      rw [evalRows, evalRows, items.evalItems_congr _ sameItems, before]
      simp only [probe, take_replicate, sum_replicate_nat]
      refine fun same => absurd (eq_of_mul_eq_mul_right (succ_pos _) same) ?_
      omega
  | setOperation operator left right =>
    rw [QueryExpr.parms, length_append] at hasParms changed
    rw [evalRows, evalRows]
    simp only [probe, sum_append_nat]
    exact changed.add_ne hasParms (fun same => by rw [left.evalRows_congr _ () same])
      (left.sum_evalRows_ne large) (fun same => by rw [right.evalRows_congr _ () same])
      (right.sum_evalRows_ne large)
  | values rows =>
    rw [evalRows, evalRows]
    exact rows.sum_evalValues_ne large hasParms changed

theorem QueryItems.weight_ne (items : QueryItems) {start : Nat}
    (large : (strtol old).toNat ≤ many) (hasParms : 0 < items.parms.length)
    (changed : LastChanged old cursor other start items.parms.length) :
    itemsWeight old (items.evalItems (probe old many) other start) ≠
      itemsWeight old (items.evalItems (probe old many) cursor start) := by
  cases items with
  | nil => exact absurd hasParms (Nat.lt_irrefl 0)
  | parm parm rest =>
    rw [QueryItems.parms, length_cons, Nat.add_comm] at hasParms changed
    rw [evalItems, evalItems, itemsWeight_cons, itemsWeight_cons]
    refine changed.add_ne hasParms (fun same => ?_) (fun _ last => ?_)
      (fun same => by rw [rest.evalItems_congr _ same]) (rest.weight_ne large)
    · rw [same (start + 1) (by omega) (by omega)]
    · rw [itemWeight, itemWeight, if_neg last.after, if_pos last.before]
      exact Nat.zero_ne_one
  | subquery query rest =>
    rw [QueryItems.parms, length_append] at hasParms changed
    rw [evalItems, evalItems, itemsWeight_cons, itemsWeight_cons]
    simp only [itemWeight]
    exact changed.add_ne hasParms (fun same => by rw [query.evalRows_congr _ () same])
      (query.sum_evalRows_ne large) (fun same => by rw [rest.evalItems_congr _ same])
      (rest.weight_ne large)

theorem QueryRows.sum_evalValues_ne (rows : QueryRows) {start : Nat}
    (large : (strtol old).toNat ≤ many) (hasParms : 0 < rows.parms.length)
    (changed : LastChanged old cursor other start rows.parms.length) :
    (rows.evalValues (probe old many) other start ()).sum ≠
      (rows.evalValues (probe old many) cursor start ()).sum := by
  cases rows with
  | nil => exact absurd hasParms (Nat.lt_irrefl 0)
  | row items rest =>
    rw [QueryRows.parms, length_append] at hasParms changed
    rw [evalValues, evalValues, sum_cons, sum_cons]
    exact changed.add_ne hasParms (fun same => congrArg _ (items.evalItems_congr _ same))
      (items.weight_ne large) (fun same => by rw [rest.evalValues_congr _ () same])
      (rest.sum_evalValues_ne large)

end

end Probe

/-! ## The row limit -/

/-- A value that a parameter can have on a portal: a literal has its own text. -/
def FitsParm : QueryParm → List UInt8 → Prop
  | .literal text, value => value = text
  | .placeholder _ _, _ => True

/-- The values of the parameters of a query on a portal. -/
def FitsQuery (query : QueryExpr) (values : List (List UInt8)) : Prop :=
  List.Forall₂ FitsParm (extendedQuery query).parms values

/-- A row limit cuts the rows of the portal or leaves them as they are, and leaves the limits of
sub-queries and operands alone, whatever the tables are. -/
def RowLimitOnly (query : QueryExpr) (values : List (List UInt8)) (maxDataToSend : Nat) : Prop :=
  (∀ (Row Env : Type) (meaning : Meaning Row Env) (env : Env),
    portalRows meaning env query (executeParms values maxDataToSend) =
        portalRows meaning env query values ∨
      portalRows meaning env query (executeParms values maxDataToSend) =
        (portalRows meaning env query values).take maxDataToSend) ∧
    ∀ index ∈ innerLimits (extendedQuery query),
      cursorParm (executeParms values maxDataToSend) index = cursorParm values index

/-- A plain SELECT at the outermost level. -/
def QueryExpr.isSelect : QueryExpr → Bool
  | .select _ _ _ => true
  | _ => false

theorem cursorParm_concat_last (front : List (List UInt8)) (value : List UInt8) :
    cursorParm (front ++ [value]) (front.length + 1) = value := by
  rw [cursorParm, Nat.add_sub_cancel, getElem?_concat_length, getD_some]

theorem sameParms_concat (front : List (List UInt8)) (value other : List UInt8) :
    SameParms (cursorParm (front ++ [value])) (cursorParm (front ++ [other])) 0 front.length := by
  intro index above below
  rw [cursorParm, cursorParm, getElem?_append_left (by omega), getElem?_append_left (by omega)]

variable {query : QueryExpr} {front values : List (List UInt8)} {last : List UInt8}
  {maxDataToSend : Nat}

theorem executeParms_of_le (small : ∀ last ∈ values.getLast?, strtol last ≤ maxDataToSend) :
    executeParms values maxDataToSend = values := by
  rw [executeParms]
  cases found : values.getLast? with
  | none => rfl
  | some last => exact if_neg fun lowered => absurd lowered.2 (Int.not_lt.2 (small last found))

theorem executeParms_concat
    (positive : 0 < maxDataToSend) (large : (maxDataToSend : Int) < strtol last) :
    executeParms (front ++ [last]) maxDataToSend = front ++ [decimal maxDataToSend] := by
  rw [executeParms, getLast?_concat, dropLast_concat]
  exact if_pos ⟨by omega, large⟩

theorem rowLimitOnly_of_eq (same : executeParms values maxDataToSend = values) :
    RowLimitOnly query values maxDataToSend := by
  refine ⟨fun Row Env meaning env => .inl ?_, fun index _ => ?_⟩ <;> rw [same]

theorem exists_front_last {parms : List QueryParm} {parm : QueryParm}
    (fits : List.Forall₂ FitsParm (parms ++ [parm]) values) :
    ∃ front last, List.Forall₂ FitsParm parms front ∧ FitsParm parm last ∧
      values = front ++ [last] := by
  induction parms generalizing values with
  | nil =>
    obtain ⟨last, rest, fitsLast, noRest, rfl⟩ := List.forall₂_cons_left_iff.1 fits
    obtain rfl := List.forall₂_nil_left_iff.1 noRest
    exact ⟨[], last, .nil, fitsLast, rfl⟩
  | cons first parms ih =>
    obtain ⟨value, rest, fitsFirst, fitsRest, rfl⟩ := List.forall₂_cons_left_iff.1 fits
    obtain ⟨front, last, frontFits, fitsLast, rfl⟩ := ih fitsRest
    exact ⟨value :: front, last, .cons fitsFirst frontFits, fitsLast, rfl⟩

/-- The last parameter of an outermost SELECT is its LIMIT. -/
theorem rowLimitOnly_of_limit {body : String} {items : QueryItems} {limit : Nat}
    (positive : 0 < maxDataToSend) (fits : FitsQuery (.select body items (some limit)) values) :
    RowLimitOnly (.select body items (some limit)) values maxDataToSend := by
  obtain ⟨front, last, frontFits, rfl, rfl⟩ := exists_front_last fits
  by_cases small : limit ≤ maxDataToSend
  · refine rowLimitOnly_of_eq (executeParms_of_le fun last found => ?_)
    obtain rfl := some.inj (getLast?_concat.symm.trans found)
    rw [strtol_decimal]
    exact_mod_cast small
  · have lowered := @executeParms_concat front (decimal limit) maxDataToSend positive (by
      rw [strtol_decimal]; omega)
    have sameItems : SameParms (cursorParm (front ++ [decimal limit]))
        (cursorParm (front ++ [decimal maxDataToSend])) 0 items.parms.length :=
      frontFits.length_eq ▸ sameParms_concat front _ _
    have rows (Row Env : Type) (meaning : Meaning Row Env) (env : Env) (number : Nat) :
        portalRows meaning env (.select body items (some limit)) (front ++ [decimal number]) =
          (meaning.select body env (items.evalItems meaning
            (cursorParm (front ++ [decimal number])) 0)).take number := by
      have last := cursorParm_concat_last front (decimal number)
      rw [← frontFits.length_eq] at last
      rw [portalRows, show extendedQuery (.select body items (some limit)) =
        .select body items (some limit) from rfl, evalRows, Nat.zero_add, last,
        strtol_decimal, Int.toNat_natCast]
    constructor
    · intro Row Env meaning env
      right
      rw [lowered, rows, rows, items.evalItems_congr meaning sameItems, take_take,
        Nat.min_eq_left (by omega)]
    · intro index member
      have bounds := items.limits_bounds (show index ∈ items.limits 0 from member)
      rw [lowered]
      exact sameItems index bounds.1 bounds.2

theorem length_evalValues {Row Env : Type} (meaning : Meaning Row Env)
    (cursor other : Nat → List UInt8) (env : Env) (rows : QueryRows) (start : Nat) :
    (rows.evalValues meaning other start env).length =
      (rows.evalValues meaning cursor start env).length := by
  match rows with
  | .nil => rfl
  | .row items rest =>
    rw [evalValues, evalValues, length_cons, length_cons,
      length_evalValues meaning cursor other env rest]

/-- The probe has as many rows unless a LIMIT is changed. -/
theorem QueryExpr.length_evalRows {old : List UInt8} {many start : Nat}
    {cursor other : Nat → List UInt8} (query : QueryExpr)
    (limits : ∀ index ∈ query.limits start, other index = cursor index) :
    (query.evalRows (probe old many) other start ()).length =
      (query.evalRows (probe old many) cursor start ()).length := by
  cases query with
  | select body items limit =>
    cases limit with
    | none => rw [evalRows, evalRows, probe, length_replicate, length_replicate]
    | some limit =>
      have same : other (start + items.parms.length + 1) =
          cursor (start + items.parms.length + 1) :=
        limits _ (mem_append_right _ mem_cons_self)
      rw [evalRows, evalRows, same]
      simp only [probe, length_take, length_replicate]
  | setOperation operator left right =>
    rw [QueryExpr.limits, forall_mem_append] at limits
    rw [evalRows, evalRows, probe, length_append, length_append, ← probe,
      left.length_evalRows limits.1, right.length_evalRows limits.2]
  | values rows => exact length_evalValues _ cursor other () rows start

/-- Lowering the last parameter of a query that is not a SELECT changes rows without cutting
them. -/
theorem not_rowLimitOnly_of_lower (notSelect : query.isSelect = false)
    (fits : FitsQuery query (front ++ [last])) (positive : 0 < maxDataToSend)
    (large : (maxDataToSend : Int) < strtol last) :
    ¬ RowLimitOnly query (front ++ [last]) maxDataToSend := by
  rintro ⟨rows, limits⟩
  have extended : extendedQuery query = query := by
    cases query with
    | select body items limit => cases notSelect
    | _ => rfl
  have count : query.parms.length = front.length + 1 := by
    rw [← extended, fits.length_eq, length_append, length_singleton]
  have changed : LastChanged last (cursorParm (front ++ [last]))
      (cursorParm (front ++ [decimal maxDataToSend])) 0 query.parms.length := by
    rw [count]
    constructor
    case same =>
      intro index above below
      exact sameParms_concat front last _ index above (by omega)
    case before => rw [Nat.zero_add, cursorParm_concat_last]
    case after =>
      rw [Nat.zero_add, cursorParm_concat_last]
      rintro rfl
      rw [strtol_decimal] at large
      exact absurd large (Int.lt_irrefl _)
    case lower =>
      rw [Nat.zero_add, cursorParm_concat_last, strtol_decimal]
      omega
  have differs := query.sum_evalRows_ne (Nat.le_refl _) (by omega) changed
  have result := rows Nat Unit (probe last (strtol last).toNat) ()
  rw [executeParms_concat positive large, portalRows, portalRows, extended] at result
  obtain same | cut := result
  · exact differs (congrArg List.sum same)
  · -- The limits of the operands stay, and so does the number of rows.
    have inner : innerLimits query = query.limits 0 := by
      cases query with
      | select body items limit => cases notSelect
      | _ => rfl
    rw [executeParms_concat positive large, extended, inner] at limits
    have lengths := congrArg List.length cut
    rw [query.length_evalRows limits, length_take] at lengths
    rw [take_of_length_le (by omega)] at cut
    exact differs (congrArg List.sum cut)

/-- A row limit only cuts the rows of a portal if the query is a SELECT at its outermost level, or
if it has no parameter at its end that is greater than the limit. -/
theorem rowLimitOnly_iff {query : QueryExpr} {values : List (List UInt8)} {maxDataToSend : Nat}
    (fits : FitsQuery query values) (positive : 0 < maxDataToSend) :
    RowLimitOnly query values maxDataToSend ↔
      query.isSelect = true ∨ ∀ last ∈ values.getLast?, strtol last ≤ maxDataToSend := by
  constructor
  · intro only
    by_cases isSelect : query.isSelect = true
    · exact .inl isSelect
    · refine .inr fun last found => Int.not_lt.1 fun large => ?_
      obtain ⟨front, rfl⟩ := getLast?_eq_some_iff.1 found
      exact not_rowLimitOnly_of_lower (Bool.eq_false_iff.2 isSelect) fits positive large only
  · rintro (isSelect | small)
    · cases query with
      | select body items limit =>
        cases limit with
        | some limit => exact rowLimitOnly_of_limit positive fits
        | none =>
          -- The rows are those of the query with the LIMIT that the grammar adds.
          exact @rowLimitOnly_of_limit values maxDataToSend body items ydbMaxIntVal positive fits
      | _ => cases isSelect
    · exact rowLimitOnly_of_eq (executeParms_of_le small)

/-- A SELECT with a LIMIT of its own. -/
theorem rowLimitOnly_limitTen :
    RowLimitOnly (.select "SELECT id FROM names" .nil (some 10)) [decimal 10] 3 := by
  have fits : FitsQuery (.select "SELECT id FROM names" .nil (some 10)) [decimal 10] :=
    .cons rfl .nil
  exact (rowLimitOnly_iff fits (by decide)).2 (.inl rfl)

/-- `VALUES (1), (10)`. -/
def oneAndTen : QueryExpr :=
  .values (.row (.parm (.literal (decimal 1)) .nil)
    (.row (.parm (.literal (decimal 10)) .nil) .nil))

/-- A set operation of a SELECT and a SELECT with a LIMIT. -/
def unionWithLimit : QueryExpr :=
  .setOperation .unionAll (.select "SELECT id FROM names" .nil none)
    (.select "SELECT id FROM names" .nil (some 10))

/-- The rows of VALUES as texts, over tables without rows. -/
def valuesMeaning : Meaning (List (List UInt8)) Unit where
  select _ _ _ := []
  setOperation _ left right := left ++ right
  row _ items := items.map fun
    | .text text => text
    | .rows _ => []

/-- With a row limit of 3, the second row of VALUES becomes a 3, and so does the LIMIT of an
operand. -/
theorem not_rowLimitOnly_values_operand :
    FitsQuery oneAndTen [decimal 1, decimal 10] ∧
      portalRows valuesMeaning () oneAndTen [decimal 1, decimal 10] = [[decimal 1], [decimal 10]] ∧
      portalRows valuesMeaning () oneAndTen (executeParms [decimal 1, decimal 10] 3) =
        [[decimal 1], [decimal 3]] ∧
      ¬ RowLimitOnly oneAndTen [decimal 1, decimal 10] 3 ∧
      FitsQuery unionWithLimit [decimal 10] ∧
      cursorParm (executeParms [decimal 10] 3) 1 = decimal 3 ∧
      ¬ RowLimitOnly unionWithLimit [decimal 10] 3 := by
  have large : ((3 : Nat) : Int) < strtol (decimal 10) := by
    decide
  have valuesFit : FitsQuery oneAndTen [decimal 1, decimal 10] := .cons rfl (.cons rfl .nil)
  have unionFits : FitsQuery unionWithLimit [decimal 10] := .cons rfl .nil
  refine ⟨valuesFit, rfl, rfl, ?_, unionFits, rfl, ?_⟩
  · exact @not_rowLimitOnly_of_lower oneAndTen [decimal 1] (decimal 10) 3 rfl valuesFit (by decide)
      large
  · exact @not_rowLimitOnly_of_lower unionWithLimit [] (decimal 10) 3 rfl unionFits (by decide)
      large

end Octo.Rocto
