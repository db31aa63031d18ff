import Mathlib

/-!
# The names of the globals of UNIQUE constraints

The global of a UNIQUE constraint is named by a hash of the name of the table and the names of the
columns. The names are ingested one after the other without anything between them. Names that were
not double quoted, which the parser has converted to lower case, are converted to upper case before,
so that the globals keep the names that they had when such names were upper case.

The hash is taken to be collision free. Two constraints of live tables then share a global exactly
if their names run together to the same text although they are cut differently, or if a double
quoted name is the upper case form of a name that is not double quoted.
-/
namespace Octo.Schema

open List

variable {first second : UniqueKey} (hash : List Char ↪ String)

/-- A name as the parser leaves it (`identifier`). -/
structure Identifier where
  letters : List Char
  isDoubleQuoted : Bool
  lower : isDoubleQuoted = false → ∀ letter ∈ letters, letter.toLower = letter

open Identifier Char Function Option

/-- The bytes of a name that are hashed. -/
def Identifier.hashed (name : Identifier) : List Char :=
  if name.isDoubleQuoted then name.letters else name.letters.map Char.toUpper

/-- A UNIQUE constraint of a table. -/
structure UniqueKey where
  table : Identifier
  columns : List Identifier

namespace UniqueKey

variable (key : UniqueKey)

/-- The names that are hashed. -/
def names : List Identifier :=
  key.table :: key.columns

/-- The state of the hash: each call of `ydb_mmrhash_128_ingest` appends to what was ingested. -/
def ingested : List Char :=
  key.columns.foldl (fun state column => state ++ column.hashed) key.table.hashed

/-- `generate_name_type(UniqueGlobal, ...)`. -/
def uniqGblname (hash : List Char ↪ String) : String :=
  "^%ydboctoU" ++ hash key.ingested

/-- The constraints are about the same columns of the same table. -/
def Same (other : UniqueKey) : Prop :=
  key.names.map Identifier.letters = other.names.map Identifier.letters

end UniqueKey

/-- What DROP TABLE reads of a table. -/
structure LiveTable where
  name : Identifier
  /-- The columns of each UNIQUE constraint. -/
  uniques : List (List Identifier)

/-- The UNIQUE constraints of a table. -/
def LiveTable.keys (table : LiveTable) : List UniqueKey :=
  table.uniques.map (UniqueKey.mk table.name)

section Drop

variable (Index : Type) [EmptyCollection Index] (hash : List Char ↪ String)

variable {Index} in
/-- The globals after `ydb_delete_s` of the global of each UNIQUE constraint of a table. They are
kept when a table is dropped on behalf of `octo-seed.sql` or the automatic upgrade. -/
def LiveTable.dropUniqueGlobals (inAutoLoadOctoSeed isAutoUpgradeOcto929 : Bool)
    (table : LiveTable) (globals : String → Index) : String → Index :=
  if inAutoLoadOctoSeed || isAutoUpgradeOcto929 then globals
  else table.keys.foldl
    (fun globals key => Function.update globals (key.uniqGblname hash) ∅) globals

/-- Each UNIQUE constraint of the live tables has a global of its own, which stays when another
table is dropped. -/
structure GlobalsApart (tables : List LiveTable) : Prop where
  same : ∀ first ∈ tables.flatMap LiveTable.keys, ∀ second ∈ tables.flatMap LiveTable.keys,
    first.uniqGblname hash = second.uniqGblname hash → first.Same second
  kept : ∀ table ∈ tables, ∀ key ∈ tables.flatMap LiveTable.keys,
    key.table.letters ≠ table.name.letters →
      ∀ inAutoLoadOctoSeed isAutoUpgradeOcto929 (globals : String → Index),
        table.dropUniqueGlobals hash inAutoLoadOctoSeed isAutoUpgradeOcto929 globals
          (key.uniqGblname hash) = globals (key.uniqGblname hash)

end Drop

/-! ## When two constraints share a global -/

/-- The names of two constraints run together to the same text, but are cut differently. -/
def RunTogether (first second : UniqueKey) : Prop :=
  (first.names.map Identifier.hashed).flatten = (second.names.map Identifier.hashed).flatten ∧
    first.names.map (·.letters.length) ≠ second.names.map (·.letters.length)

/-- The names of two constraints are hashed alike one by one, but a double quoted one is the upper
case form of one that is not double quoted. -/
def CaseClash (first second : UniqueKey) : Prop :=
  first.names.map Identifier.hashed = second.names.map Identifier.hashed ∧
    ∃ (position : Nat) (name other : Identifier), first.names[position]? = some name ∧
      second.names[position]? = some other ∧
      name.isDoubleQuoted ≠ other.isDoubleQuoted ∧ name.letters ≠ other.letters

section Letters

theorem toNat_of_toLower_eq {letter : Char} (lower : letter.toLower = letter) :
    ¬(65 ≤ letter.toNat ∧ letter.toNat ≤ 90) := by
  intro upper
  have isUpper : letter.val ≥ 'A'.val ∧ letter.val ≤ 'Z'.val := by
    simpa [UInt32.le_iff_toNat_le] using upper
  have moved := congrArg toNat lower
  simp only [toLower, isUpper] at moved
  simp at moved
  omega

theorem toNat_toUpper (letter : Char) :
    letter.toUpper.toNat =
      if 97 ≤ letter.toNat ∧ letter.toNat ≤ 122 then letter.toNat - 32 else letter.toNat := by
  simp only [toUpper, UInt32.le_iff_toNat_le, apply_dite toNat]
  simp
  split <;> omega

/-- Upper case tells lower case letters apart. -/
theorem eq_of_toUpper_eq {first second : Char} (firstLower : first.toLower = first)
    (secondLower : second.toLower = second) (same : first.toUpper = second.toUpper) :
    first = second := by
  have firstBound := toNat_of_toLower_eq firstLower
  have secondBound := toNat_of_toLower_eq secondLower
  have moved := congrArg toNat same
  rw [toNat_toUpper, toNat_toUpper] at moved
  apply toNat_inj.mp
  split at moved <;> split at moved <;> omega

theorem eq_of_map_toUpper_eq {letters others : List Char}
    (lower : ∀ letter ∈ letters, letter.toLower = letter)
    (othersLower : ∀ letter ∈ others, letter.toLower = letter)
    (same : letters.map toUpper = others.map toUpper) : letters = others := by
  induction letters generalizing others with
  | nil => simpa using same.symm
  | cons letter rest ih =>
    cases others with
    | nil => cases same
    | cons other rest' =>
      obtain ⟨sameLetter, sameRest⟩ := cons.inj same
      rw [forall_mem_cons] at lower othersLower
      rw [eq_of_toUpper_eq lower.1 othersLower.1 sameLetter, ih lower.2 othersLower.2 sameRest]

end Letters

namespace Identifier

variable {first second : Identifier}

@[simp]
theorem length_hashed (name : Identifier) : name.hashed.length = name.letters.length := by
  unfold hashed
  split <;> simp

/-- Names that are quoted alike are hashed differently. -/
theorem letters_eq_of_hashed_eq (quotedAlike : first.isDoubleQuoted = second.isDoubleQuoted)
    (same : first.hashed = second.hashed) : first.letters = second.letters := by
  unfold hashed at same
  rw [quotedAlike] at same
  split at same
  case isTrue => exact same
  case isFalse plain =>
    have unquoted := Bool.of_not_eq_true plain
    exact eq_of_map_toUpper_eq (first.lower (quotedAlike.trans unquoted)) (second.lower unquoted)
      same

end Identifier

theorem UniqueKey.ingested_eq_flatten (key : UniqueKey) :
    key.ingested = (key.names.map hashed).flatten := by
  have appended : ∀ (columns : List Identifier) (state : List Char),
      columns.foldl (fun state column => state ++ column.hashed) state =
        state ++ (columns.map hashed).flatten := by
    intro columns
    induction columns with
    | nil => simp
    | cons column rest ih =>
      intro state
      rw [foldl_cons, ih, map_cons, flatten_cons, append_assoc]
  exact appended key.columns key.table.hashed

theorem UniqueKey.uniqGblname_eq_iff :
    first.uniqGblname hash = second.uniqGblname hash ↔
      (first.names.map hashed).flatten =
        (second.names.map hashed).flatten := by
  rw [uniqGblname, uniqGblname, ← ingested_eq_flatten, ← ingested_eq_flatten]
  constructor
  · intro same
    exact hash.injective (String.append_right_inj _ |>.mp same)
  · intro same
    rw [same]

/-- Constraints that share a global are the same, or fall under one of the two cases. -/
theorem same_or_runTogether_or_caseClash
    (shared : first.uniqGblname hash = second.uniqGblname hash) :
    first.Same second ∨ RunTogether first second ∨ CaseClash first second := by
  rw [UniqueKey.uniqGblname_eq_iff] at shared
  by_cases cut : first.names.map (·.letters.length) = second.names.map (·.letters.length)
  · have hashedAlike : first.names.map hashed = second.names.map hashed := by
      refine eq_iff_flatten_eq.mpr ⟨shared, ?_⟩
      simpa [comp_def] using cut
    by_cases clash : CaseClash first second
    · exact Or.inr (Or.inr clash)
    · left
      apply ext_getElem?
      intro position
      have here := congrArg (·[position]?) hashedAlike
      simp only [getElem?_map] at here ⊢
      cases isName : first.names[position]? with
      | none => simpa [isName] using here.symm
      | some name =>
        rw [isName] at here
        cases isOther : second.names[position]? with
        | none => simp [isOther] at here
        | some other =>
          have hashedSame : name.hashed = other.hashed := by simpa [isOther] using here
          rw [map_some, map_some]
          by_contra differs
          have lettersDiffer : name.letters ≠ other.letters := fun same => differs (by rw [same])
          refine clash ⟨hashedAlike, position, name, other, isName, isOther, ?_, lettersDiffer⟩
          exact fun quotedAlike =>
            lettersDiffer (letters_eq_of_hashed_eq quotedAlike hashedSame)
  · exact Or.inr (Or.inl ⟨shared, cut⟩)

theorem not_same_of_runTogether (together : RunTogether first second) : ¬first.Same second := by
  intro same
  refine together.2 ?_
  have lengths := congrArg (map length) same
  simpa [comp_def] using lengths

theorem not_same_of_caseClash (clash : CaseClash first second) : ¬first.Same second := by
  obtain ⟨-, position, name, other, isName, isOther, -, differs⟩ := clash
  intro same
  have here := congrArg (·[position]?) same
  simp only [getElem?_map, isName, isOther] at here
  exact differs (some.inj here)

section Main

variable {Index : Type} [EmptyCollection Index] (hash : List Char ↪ String)

/-- Only the globals of the constraints of the table are deleted. -/
theorem LiveTable.dropUniqueGlobals_of_ne {table : LiveTable} {gblname : String}
    (others : ∀ key ∈ table.keys, gblname ≠ key.uniqGblname hash)
    (inAutoLoadOctoSeed isAutoUpgradeOcto929 : Bool) (globals : String → Index) :
    table.dropUniqueGlobals hash inAutoLoadOctoSeed isAutoUpgradeOcto929 globals gblname =
      globals gblname := by
  unfold dropUniqueGlobals
  split
  case isTrue => rfl
  case isFalse =>
    generalize table.keys = keys at others
    induction keys generalizing globals with
    | nil => rfl
    | cons key rest ih =>
      rw [forall_mem_cons] at others
      rw [foldl_cons, ih _ others.2, update_of_ne others.1]

end Main

/-- The UNIQUE constraints of the live tables have globals of their own if and only if the names of
no two of them run together to the same text or differ by quoted upper case only. -/
theorem globalsApart_iff (Index : Type) [EmptyCollection Index] (hash : List Char ↪ String)
    (tables : List LiveTable) :
    GlobalsApart Index hash tables ↔
      ∀ first ∈ tables.flatMap LiveTable.keys, ∀ second ∈ tables.flatMap LiveTable.keys,
        ¬RunTogether first second ∧ ¬CaseClash first second := by
  constructor
  · intro apart first isFirst second isSecond
    constructor
    · intro together
      refine not_same_of_runTogether together (apart.same first isFirst second isSecond ?_)
      exact (UniqueKey.uniqGblname_eq_iff hash).mpr together.1
    · intro clash
      refine not_same_of_caseClash clash (apart.same first isFirst second isSecond ?_)
      exact (UniqueKey.uniqGblname_eq_iff hash).mpr (by rw [clash.1])
  · intro distinguished
    have same : ∀ first ∈ tables.flatMap LiveTable.keys,
        ∀ second ∈ tables.flatMap LiveTable.keys,
          first.uniqGblname hash = second.uniqGblname hash → first.Same second := by
      intro first isFirst second isSecond shared
      obtain ⟨notTogether, noClash⟩ := distinguished first isFirst second isSecond
      rcases same_or_runTogether_or_caseClash hash shared with isSame | together | clash
      · exact isSame
      · exact absurd together notTogether
      · exact absurd clash noClash
    refine ⟨same, fun table isTable key isKey otherTable => ?_⟩
    apply LiveTable.dropUniqueGlobals_of_ne
    intro own isOwn shared
    have ofTables := mem_flatMap.mpr ⟨table, isTable, isOwn⟩
    obtain ⟨columns, -, rfl⟩ := mem_map.mp isOwn
    exact otherTable (List.cons.inj (same key isKey _ ofTables shared)).1

/-- A name that is not double quoted, in lower case. -/
def plainName (letters : List Char) (lower : ∀ letter ∈ letters, letter.toLower = letter) :
    Identifier :=
  ⟨letters, false, fun _ => lower⟩

/-- The constraint of `CREATE TABLE ab (c INTEGER UNIQUE)`. -/
def keyAb : UniqueKey :=
  ⟨plainName ['a', 'b'] (List.forall_mem_cons.2 ⟨rfl, List.forall_mem_singleton.2 rfl⟩),
    [plainName ['c'] (List.forall_mem_singleton.2 rfl)]⟩

/-- The constraint of `CREATE TABLE a (bc INTEGER UNIQUE)`. -/
def keyA : UniqueKey :=
  ⟨plainName ['a'] (List.forall_mem_singleton.2 rfl),
    [plainName ['b', 'c'] (List.forall_mem_cons.2 ⟨rfl, List.forall_mem_singleton.2 rfl⟩)]⟩

/-- A hash without collisions. -/
def plainHash : List Char ↪ String :=
  ⟨String.ofList, fun _ _ same => String.ofList_inj.mp same⟩

/-- The two constraints share a global, and dropping the table `ab` deletes the index of the table
`a`. -/
theorem not_globalsApart_keyAb :
    ¬GlobalsApart (Finset (List String)) plainHash
      [⟨keyAb.table, [keyAb.columns]⟩, ⟨keyA.table, [keyA.columns]⟩] ∧
    LiveTable.dropUniqueGlobals plainHash false false ⟨keyAb.table, [keyAb.columns]⟩
      (fun _ => ({["1"]} : Finset (List String))) (keyA.uniqGblname plainHash) = ∅ := by
  have shared : keyA.uniqGblname plainHash = keyAb.uniqGblname plainHash := rfl
  constructor
  · intro apart
    have same := apart.same keyA (by simp [LiveTable.keys]) keyAb (by simp [LiveTable.keys]) shared
    cases same
  · rw [shared]
    simp [LiveTable.dropUniqueGlobals, LiveTable.keys]

end Octo.Schema
