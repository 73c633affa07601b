import LodeDB.Lib.FixedDigits
import Mathlib.Data.Option.Basic

/-!
# Temporal frames

A record of the graph carries two time axes: when it held in the world (`validAt` to `invalidAt`) and when the graph
knew it (`createdAt` to `expiredAt`). A frame selects records. It is written three times: as a `WHERE` clause, as a
test on a row, and as a filter over timestamps mirrored as texts, whose order has to be the order of the numbers.
-/

namespace LodeDB.Graph

/-- Epoch milliseconds. -/
abbrev TimeMs := Int64

/-- The temporal frame a read resolves under. -/
inductive AsOf
  | now
  | nowValid (time : TimeMs)
  | at (time : TimeMs)
  | atKnown (validAt knownAt : TimeMs)
  | all
  deriving DecidableEq

/-- The timestamps of a record. An end that is not there is open. -/
structure Stamps where
  validAt : Option TimeMs
  invalidAt : Option TimeMs
  createdAt : TimeMs
  expiredAt : Option TimeMs
  deriving DecidableEq

/-! ### The clause -/

/-- A timestamp column. -/
inductive Column
  | validAt
  | invalidAt
  | createdAt
  | expiredAt

/-- A condition of a `WHERE` clause. A comparison binds the next positional parameter. -/
inductive Sql
  | always
  | isNull (column : Column)
  | atMost (column : Column)
  | above (column : Column)
  | and (left right : Sql)
  | or (left right : Sql)

/-- What a column holds. -/
def Stamps.column (stamps : Stamps) : Column → Option TimeMs
  | .validAt => stamps.validAt
  | .invalidAt => stamps.invalidAt
  | .createdAt => some stamps.createdAt
  | .expiredAt => stamps.expiredAt

/-- `AND` with unknown operands. -/
def sqlAnd : Option Bool → Option Bool → Option Bool
  | some false, _ => some false
  | _, some false => some false
  | some true, some true => some true
  | _, _ => none

/-- `OR` with unknown operands. -/
def sqlOr : Option Bool → Option Bool → Option Bool
  | some true, _ => some true
  | _, some true => some true
  | some false, some false => some false
  | _, _ => none

/-- Compare a column with the next parameter: unknown if one of them is `NULL`. -/
def Sql.compare (test : TimeMs → TimeMs → Bool) (value : Option TimeMs) (params : List TimeMs) :
    Option Bool × List TimeMs :=
  (value.bind fun left => params.head?.map fun right => test left right, params.tail)

/-- Evaluate a condition on a row, binding parameters from left to right. -/
def Sql.eval (row : Stamps) : Sql → List TimeMs → Option Bool × List TimeMs
  | .always, params => (some true, params)
  | .isNull column, params => (some (row.column column).isNone, params)
  | .atMost column, params => Sql.compare (fun left right => decide (left ≤ right)) (row.column column) params
  | .above column, params => Sql.compare (fun left right => decide (right < left)) (row.column column) params
  | .and left right, params =>
    let first := left.eval row params
    let second := right.eval row first.2
    (sqlAnd first.1 second.1, second.2)
  | .or left right, params =>
    let first := left.eval row params
    let second := right.eval row first.2
    (sqlOr first.1 second.1, second.2)

/-- A query returns the rows its clause is true of, not those it is unknown of. -/
def Sql.selects (clause : Sql × List TimeMs) (row : Stamps) : Bool := (clause.1.eval row clause.2).1 == some true

/-- A column that is open or at most the next parameter. -/
def Sql.started (column : Column) : Sql := .or (.isNull column) (.atMost column)

/-- A column that is open or above the next parameter. -/
def Sql.open (column : Column) : Sql := .or (.isNull column) (.above column)

/-- The clause of a frame over facts, with its parameters. -/
def asOfSql : AsOf → Sql × List TimeMs
  | .all => (.always, [])
  | .now => (.and (.isNull .expiredAt) (.isNull .invalidAt), [])
  | .nowValid time =>
    (.and (.and (.and (.started .validAt) (.open .invalidAt)) (.atMost .createdAt)) (.open .expiredAt),
      [time, time, time, time])
  | .at time => (.and (.started .validAt) (.open .invalidAt), [time, time])
  | .atKnown validAt knownAt =>
    (.and (.and (.and (.started .validAt) (.atMost .createdAt)) (.open .expiredAt))
      (.or (.or (.above .expiredAt) (.isNull .invalidAt)) (.above .invalidAt)),
      [validAt, knownAt, knownAt, knownAt, validAt])

/-- The clause the entity listing adds for a frame, if it adds one. -/
def entityFrameSql : AsOf → Option (Sql × List TimeMs)
  | .now => some (.and (.isNull .expiredAt) (.isNull .invalidAt), [])
  | .nowValid time =>
    some (.and (.and (.and (.started .validAt) (.open .invalidAt)) (.atMost .createdAt)) (.open .expiredAt),
      [time, time, time, time])
  | .at time => some (.and (.started .validAt) (.open .invalidAt), [time, time])
  | .atKnown validAt knownAt =>
    some (.and (.and (.and (.started .validAt) (.atMost .createdAt)) (.open .expiredAt))
      (.or (.or (.above .expiredAt) (.isNull .invalidAt)) (.above .invalidAt)),
      [validAt, knownAt, knownAt, knownAt, validAt])
  | .all => none

/-! ### The test on a row -/

variable (time : Option TimeMs) (test : TimeMs → Bool)

/-- An end that is open, or meets a test. -/
def isNoneOr : Bool := time.all test

/-- Whether a record's timestamps satisfy a frame. -/
def frameMatches (asOf : AsOf) (stamps : Stamps) : Bool :=
  match asOf with
  | .all => true
  | .now => stamps.expiredAt.isNone && stamps.invalidAt.isNone
  | .nowValid time =>
    isNoneOr stamps.validAt (fun start => start ≤ time) && isNoneOr stamps.invalidAt (fun stop => time < stop) &&
      decide (stamps.createdAt ≤ time) && isNoneOr stamps.expiredAt (fun stop => time < stop)
  | .at time =>
    isNoneOr stamps.validAt (fun start => start ≤ time) && isNoneOr stamps.invalidAt (fun stop => time < stop)
  | .atKnown validAt knownAt =>
    isNoneOr stamps.validAt (fun start => start ≤ validAt) && decide (stamps.createdAt ≤ knownAt) &&
      isNoneOr stamps.expiredAt (fun stop => knownAt < stop) &&
      (stamps.expiredAt.any (fun stop => knownAt < stop) || isNoneOr stamps.invalidAt fun stop => validAt < stop)

/-- The ends a superseded fact gets: its event time stops where the new fact starts, or at the effective
time if that is not known; its transaction time stops now. -/
def supersedeTimestamps (newFactValidAt : Option TimeMs) (effectiveTime now : TimeMs) : Option TimeMs × TimeMs :=
  (some (newFactValidAt.getD effectiveTime), now)

/-! ### The mirrored texts -/

/-- The width of a mirrored timestamp, without its tag. -/
def tsWidth : ℕ := 20

/-- The text of an open start. -/
def openStart : String := "a00000000000000000000"

/-- The text of an open end. -/
def openEnd : String := "c00000000000000000000"

variable (ms : TimeMs)

/-- The sign bit flipped maps signed times onto unsigned ones in order. -/
def biased : UInt64 := ms.toUInt64 ^^^ ((1 : UInt64) <<< 63)

/-- The text of a timestamp. -/
def encodeTs : String := String.ofList ('b' :: FixedDigits.digits tsWidth (biased ms).toNat)

/-- The text of an end that may be open. -/
def encodeTsOpen (ms : Option TimeMs) : String := (ms.map encodeTs).getD openEnd

/-- The text of a start that may be open. -/
def encodeTsStart (ms : Option TimeMs) : String := (ms.map encodeTs).getD openStart

/-! ### The clause agrees with the test -/

/-- Whether a condition is true, and not just unknown. -/
def isTrue (value : Option Bool) : Bool := value == some true

@[simp] theorem isTrue_some (value : Bool) : isTrue (some value) = value := by cases value <;> rfl

/-- A conjunction is true when both sides are, whatever is unknown. -/
@[simp] theorem isTrue_sqlAnd (left right : Option Bool) :
    isTrue (sqlAnd left right) = (isTrue left && isTrue right) := by
  match left, right with
  | some false, _ => rfl
  | some true, some true | some true, some false | some true, none => rfl
  | none, some true | none, some false | none, none => rfl

/-- A disjunction is true when one side is, whatever is unknown. -/
@[simp] theorem isTrue_sqlOr (left right : Option Bool) :
    isTrue (sqlOr left right) = (isTrue left || isTrue right) := by
  match left, right with
  | some true, _ => rfl
  | some false, some true | some false, some false | some false, none => rfl
  | none, some true | none, some false | none, none => rfl

/-- A comparison with a column is true when the column is there and passes it. -/
@[simp] theorem isTrue_map : isTrue (time.map test) = time.any test := by
  cases time <;> simp [isTrue]

variable (row : Stamps)

@[simp] theorem eval_always (params : List TimeMs) :
    Sql.always.eval row params = (some true, params) := rfl

@[simp] theorem eval_isNull (column : Column) (params : List TimeMs) :
    (Sql.isNull column).eval row params = (some (row.column column).isNone, params) := rfl

@[simp] theorem eval_atMost (column : Column) (time : TimeMs) (params : List TimeMs) :
    (Sql.atMost column).eval row (time :: params) = ((row.column column).map fun left => decide (left ≤ time), params) := by
  cases h : row.column column <;> simp [Sql.eval, Sql.compare, h]

@[simp] theorem eval_above (column : Column) (time : TimeMs) (params : List TimeMs) :
    (Sql.above column).eval row (time :: params) = ((row.column column).map fun left => decide (time < left), params) := by
  cases h : row.column column <;> simp [Sql.eval, Sql.compare, h]

@[simp] theorem eval_and (left right : Sql) (params : List TimeMs) :
    (Sql.and left right).eval row params =
      (sqlAnd (left.eval row params).1 (right.eval row (left.eval row params).2).1,
        (right.eval row (left.eval row params).2).2) := rfl

@[simp] theorem eval_or (left right : Sql) (params : List TimeMs) :
    (Sql.or left right).eval row params = (sqlOr (left.eval row params).1 (right.eval row (left.eval row params).2).1,
        (right.eval row (left.eval row params).2).2) := rfl

/-- Open, or passing a test. -/
theorem isNone_or_any :
    (time.isNone || time.any test) = isNoneOr time test := by
  cases time <;> simp [isNoneOr]

/-- A row is selected by the clause of a frame exactly when it satisfies the frame. -/
theorem selects_asOfSql (asOf : AsOf) (row : Stamps) : Sql.selects (asOfSql asOf) row = frameMatches asOf row := by
  change isTrue _ = _
  cases asOf with
  | all => simp [asOfSql, frameMatches]
  | now => simp [asOfSql, frameMatches, Stamps.column]
  | nowValid time =>
    simp [asOfSql, frameMatches, Stamps.column, Sql.started, Sql.open, isNone_or_any]
  | «at» time => simp [asOfSql, frameMatches, Stamps.column, Sql.started, Sql.open, isNone_or_any]
  | atKnown validAt knownAt =>
    simp [asOfSql, frameMatches, Stamps.column, Sql.started, Sql.open, isNone_or_any, Bool.or_assoc]

/-- The entity listing selects by the same frame. -/
theorem selects_entityFrameSql (asOf : AsOf) (row : Stamps) :
    ((entityFrameSql asOf).all fun clause => Sql.selects clause row) = frameMatches asOf row := by
  rw [← selects_asOfSql]
  cases asOf <;> rfl

/-! ### The texts keep the order -/

/-- Flipping the highest of 64 bits. -/
theorem xor_signBit {n : ℕ} (hn : n < 2 ^ 64) : n ^^^ 2 ^ 63 = if n < 2 ^ 63 then n + 2 ^ 63 else n - 2 ^ 63 := by
  have hdiv : (n ^^^ 2 ^ 63) / 2 ^ 63 = n / 2 ^ 63 ^^^ 1 := by
    rw [Nat.xor_div_two_pow, Nat.div_self (by omega)]
  have hmod : (n ^^^ 2 ^ 63) % 2 ^ 63 = n % 2 ^ 63 := by
    rw [Nat.xor_mod_two_pow, Nat.mod_self, Nat.xor_zero]
  have hsum := Nat.div_add_mod (n ^^^ 2 ^ 63) (2 ^ 63)
  rw [hdiv, hmod] at hsum
  split
  · rename_i hlow
    rw [Nat.div_eq_of_lt hlow, Nat.zero_xor] at hsum
    omega
  · rename_i hhigh
    have hone : n / 2 ^ 63 = 1 := by omega
    rw [hone, Nat.xor_self] at hsum
    omega

/-- Flipping the sign bit adds the bias. -/
theorem toNat_biased : ((biased ms).toNat : ℤ) = ms.toInt + 2 ^ 63 := by
  have hn : ms.toUInt64.toNat < 2 ^ 64 := ms.toUInt64.toNat_lt
  have hint : ms.toInt =
      if 2 * ms.toUInt64.toNat < 2 ^ 64 then (ms.toUInt64.toNat : ℤ) else ms.toUInt64.toNat - 2 ^ 64 :=
    BitVec.toInt_eq_toNat_cond ms.toBitVec
  have hbias : ((1 : UInt64) <<< 63).toNat = 2 ^ 63 := rfl
  rw [biased, UInt64.toNat_xor, hbias, xor_signBit hn, hint]
  split <;> split <;> omega

/-- Timestamps have the order of their texts. -/
theorem encodeTs_lt_iff (left right : TimeMs) : encodeTs left < encodeTs right ↔ left < right := by
  have hfits (ms : TimeMs) : (biased ms).toNat < 10 ^ tsWidth := by
    have hlt : (biased ms).toNat < 2 ^ 64 := (biased ms).toNat_lt
    exact hlt.trans (by decide)
  rw [encodeTs, encodeTs, String.lt_iff_toList_lt, String.toList_ofList, String.toList_ofList,
    List.cons_lt_cons_self, FixedDigits.digits_lt_iff (hfits left) (hfits right), Int64.lt_iff_toInt_lt]
  have hleft := toNat_biased left
  have hright := toNat_biased right
  omega

theorem encodeTs_le_iff (left right : TimeMs) : encodeTs left ≤ encodeTs right ↔ left ≤ right := by
  rw [← not_lt, encodeTs_lt_iff, Int64.lt_iff_toInt_lt, Int64.le_iff_toInt_le, not_lt]

/-- An open start is below every timestamp. -/
theorem openStart_lt_encodeTs : openStart < encodeTs ms := by
  rw [String.lt_iff_toList_lt, encodeTs, String.toList_ofList]
  exact List.cons_lt_cons_iff.mpr (.inl (by decide))

/-- An open end is above every timestamp. -/
theorem encodeTs_lt_openEnd : encodeTs ms < openEnd := by
  rw [String.lt_iff_toList_lt, encodeTs, String.toList_ofList]
  exact List.cons_lt_cons_iff.mpr (.inl (by decide))

/-- A start is at most a time when its text is. -/
theorem encodeTsStart_le_iff (start : Option TimeMs) (time : TimeMs) :
    encodeTsStart start ≤ encodeTs time ↔ (isNoneOr start fun start => start ≤ time) = true := by
  cases start with
  | none =>
    have hle : openStart ≤ encodeTs time := (openStart_lt_encodeTs time).le
    exact iff_of_true hle rfl
  | some start =>
    change encodeTs start ≤ encodeTs time ↔ decide (start ≤ time) = true
    rw [encodeTs_le_iff, decide_eq_true_iff]

/-- An end is above a time when its text is. -/
theorem lt_encodeTsOpen_iff (stop : Option TimeMs) (time : TimeMs) :
    encodeTs time < encodeTsOpen stop ↔ (isNoneOr stop fun stop => time < stop) = true := by
  cases stop with
  | none => exact iff_of_true (encodeTs_lt_openEnd time) rfl
  | some stop =>
    change encodeTs time < encodeTs stop ↔ decide (time < stop) = true
    rw [encodeTs_lt_iff, decide_eq_true_iff]

/-- Only an open end has the text of one. -/
theorem encodeTsOpen_eq_openEnd_iff (stop : Option TimeMs) : encodeTsOpen stop = openEnd ↔ stop = none := by
  cases stop with
  | none => exact iff_of_true rfl rfl
  | some stop => simpa [encodeTsOpen] using (encodeTs_lt_openEnd stop).ne

end LodeDB.Graph
