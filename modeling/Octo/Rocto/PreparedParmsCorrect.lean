import Octo.Rocto.BindMessage
import Octo.Rocto.PreparedParms

/-!
# The parameters of a portal

The specification of a portal is one text for each parameter of the query: the literal that stands
there, or the value of the placeholder, decoded with its own format code. The nodes that Parse
leaves are known from the query alone. The grammar loses the mark of a placeholder that comes
exactly at twice the size of its array, and such a placeholder is stored as an empty literal.
-/
namespace Octo.Rocto

open Octo.Foundation List QueryParm Function

variable {query : List QueryParm} {context next : ParseContext} {array : List Bool}
  {parse : ParseMessage} {types : Nat → Int}

/-! ## What a portal should have -/

/-- Whether a parameter is a placeholder. -/
def QueryParm.isPlaceholder : QueryParm → Bool
  | .literal _ => false
  | .placeholder _ _ => true

/-- What stands under the cursor for a parameter. -/
def QueryParm.text : QueryParm → List UInt8
  | .literal text => text
  | .placeholder _ _ => []

/-- The number of the placeholders before a position. -/
def placeholdersBefore (query : List QueryParm) (position : Nat) : Nat :=
  (query.take position).countP QueryParm.isPlaceholder

/-- The format of a placeholder: text without a format code, the only code for all placeholders, or
the code of its own. -/
def BindMessage.formatOf (message : BindMessage) (index : Nat) : Bool :=
  match message.parmFormats with
  | [] => false
  | [format] => format
  | formats => formats[index]?.getD false

/-- The lengths that the binary format has for integers. -/
def integerSized (bytes : List UInt8) : Bool :=
  bytes.length ∈ [1, 2, 4, 8]

/-- A value in binary format: an integer with a sign, or the bytes as they are. -/
def decodeBinary (bytes : List UInt8) : List UInt8 :=
  if integerSized bytes then decimal (twosComplement bytes) else bytes

/-- A value as text. A NULL is the empty string, as in a query. -/
def decodeParm (binary : Bool) : Option (List UInt8) → List UInt8
  | none => []
  | some bytes => if binary then decodeBinary bytes else bytes

/-- The value of a placeholder. -/
def BindMessage.valueOf (message : BindMessage) (index : Nat) : List UInt8 :=
  decodeParm (message.formatOf index) (message.parms[index]?.getD none)

/-- The text that belongs to a position of the query. -/
def portalText (query : List QueryParm) (message : BindMessage) (position : Nat) :
    QueryParm → List UInt8
  | .literal text => text
  | .placeholder _ _ => message.valueOf (placeholdersBefore query position)

/-- A Bind after the Parse succeeds, and the portal has the right text for every parameter. -/
def StoresParms (query : List QueryParm) (prepared : ParmSession) (bind : Bind) (last : Int)
    (message : BindMessage) : Prop :=
  ∃ session portal, handleBind prepared bind last = some session ∧
    session.bound message.dest = some portal ∧ portal.totalParms = query.length ∧
      portal.all = query.mapIdx (portalText query message)

/-! ## Marks of placeholders -/

/-- The size of the array of marks after a placeholder at some position. -/
def nextSize (size position : Nat) : Nat :=
  if position < size then size
  else if 2 * size < position then min (2 * position) int16Max
  else min (2 * size) int16Max

/-- The size of the array of marks after more parameters, from some position on. -/
def markSizeFrom : Nat → Nat → List QueryParm → Nat
  | size, _, [] => size
  | size, position, parm :: query =>
    markSizeFrom (if parm.isPlaceholder then nextSize size position else size) (position + 1) query

/-- The size of the array of marks after some parameters. -/
def markSize (query : List QueryParm) : Nat :=
  markSizeFrom 8 0 query

/-- The placeholders whose mark is not lost. -/
def isMarked (query : List QueryParm) (position : Nat) (parm : QueryParm) : Bool :=
  parm.isPlaceholder ∧ position ≠ 2 * markSize (query.take position)

/-- The node of a parameter: a marked placeholder has none. -/
def node (query : List QueryParm) (position : Nat) (parm : QueryParm) : Option (List UInt8) :=
  if isMarked query position parm then none else some parm.text

/-- The nodes of the parameters of a query. -/
def nodes (query : List QueryParm) : List (Option (List UInt8)) :=
  query.mapIdx (node query)

/-- The number of the marked placeholders before a position. -/
def markedBefore (query : List QueryParm) (position : Nat) : Nat :=
  ((nodes query).take position).countP Option.isNone

theorem markSizeFrom_append (size position : Nat) (query : List QueryParm) (parm : QueryParm) :
    markSizeFrom size position (query ++ [parm]) =
      if parm.isPlaceholder then nextSize (markSizeFrom size position query)
        (position + query.length)
      else markSizeFrom size position query := by
  induction query generalizing size position with
  | nil => rfl
  | cons first query ih =>
    rw [cons_append, markSizeFrom, ih, markSizeFrom, length_cons,
      Nat.add_right_comm position 1, Nat.add_assoc position]

theorem markSize_append (query : List QueryParm) (parm : QueryParm) :
    markSize (query ++ [parm]) =
      if parm.isPlaceholder then nextSize (markSize query) query.length else markSize query := by
  rw [markSize, markSize, markSizeFrom_append, Nat.zero_add]

variable {size position newSize totalParms : Nat}

theorem isMarked_append_left (before : position ≤ query.length)
    (rest : List QueryParm) (parm : QueryParm) :
    isMarked (query ++ rest) position parm = isMarked query position parm := by
  rw [isMarked, isMarked, take_append_of_le_length before]

/-! ## The grammar -/

theorem length_expandArrayAllocation (larger : array.length ≤ newSize) :
    (expandArrayAllocation array newSize).length = newSize := by
  rw [expandArrayAllocation, length_append, length_replicate]
  omega

theorem getElem?_expandArrayAllocation :
    (expandArrayAllocation array newSize)[position]? = some true ↔
      array[position]? = some true := by
  rw [expandArrayAllocation]
  by_cases inside : position < array.length
  · rw [getElem?_append_left inside]
  · rw [getElem?_append_right (Nat.le_of_not_lt inside), getElem?_replicate,
      getElem?_eq_none (Nat.le_of_not_lt inside)]
    split <;> simp

theorem getElem?_resizeIsBindParm :
    (resizeIsBindParm array totalParms)[position]? = some true ↔ array[position]? = some true := by
  rw [resizeIsBindParm]
  split
  · split
    · rw [doubleArrayAllocation, getElem?_expandArrayAllocation, getElem?_expandArrayAllocation]
    · rw [doubleArrayAllocation, getElem?_expandArrayAllocation]
  · rfl

theorem length_resizeIsBindParm (small : array.length ≤ int16Max) (room : totalParms < int16Max) :
    (resizeIsBindParm array totalParms).length = nextSize array.length totalParms := by
  rw [resizeIsBindParm, nextSize]
  by_cases inside : totalParms < array.length
  · rw [if_neg (by omega), if_pos inside]
  · rw [if_pos (by omega), if_neg inside]
    by_cases far : 2 * array.length < totalParms
    · have expanded : (expandArrayAllocation array totalParms).length = totalParms :=
        length_expandArrayAllocation (by omega)
      rw [if_pos far, if_pos far, doubleArrayAllocation, length_expandArrayAllocation, expanded,
        Nat.mul_comm]
      omega
    · rw [if_neg far, if_neg far, doubleArrayAllocation, length_expandArrayAllocation (by omega),
        Nat.mul_comm]

/-- A placeholder has its mark inside the array, unless it comes at twice the size. -/
theorem lt_nextSize_iff (some : 0 < size) (room : position < int16Max) :
    position < nextSize size position ↔ position ≠ 2 * size := by
  rw [nextSize]
  split
  · omega
  · split <;> omega

theorem nextSize_bounds (some : 0 < size) (small : size ≤ int16Max) :
    0 < nextSize size position ∧ nextSize size position ≤ int16Max := by
  rw [nextSize]
  split
  · omega
  · split <;> omega

/-- The context after the parameters of a query up to here. -/
structure Describes (context : ParseContext) (query : List QueryParm) : Prop where
  totalParms : context.totalParms = query.length
  numBindParms : context.numBindParms = query.countP QueryParm.isPlaceholder
  cursor : context.cursor = query.map QueryParm.text
  short : ∀ text ∈ context.cursor, text.length ≤ ydbMaxStr
  size : context.isBindParm.length = markSize query
  nonempty : 0 < context.isBindParm.length
  small : context.isBindParm.length ≤ int16Max
  marks : ∀ position, context.isBindParm[position]? = some true ↔
    ∃ parm, query[position]? = some parm ∧ isMarked query position parm

theorem describes_start : Describes .start [] where
  totalParms := rfl
  numBindParms := rfl
  cursor := rfl
  short := forall_mem_nil _
  size := rfl
  nonempty := by decide
  small := by decide
  marks position := by
    rw [ParseContext.start, getElem?_replicate]
    split <;> simp

variable {text : List UInt8} {all : List (Option (List UInt8))} {parms : List BindAttributes}
  {prepared : ParmSession} {bind : Bind} {last : Int}

theorem parseLiteralToParameter_eq_some (parsed : parseLiteralToParameter context text =
    some next) :
    context.totalParms < int16Max ∧ text.length ≤ ydbMaxStr ∧
      next = { context with
        totalParms := context.totalParms + 1, cursor := context.cursor ++ [text] } := by
  rw [parseLiteralToParameter] at parsed
  split at parsed
  · cases parsed
  · split at parsed
    · cases parsed
    · exact ⟨by omega, by omega, (Option.some.inj parsed).symm⟩

theorem exists_marked_append {parm : QueryParm} :
    (∃ other, (query ++ [parm])[position]? = some other ∧
        isMarked (query ++ [parm]) position other) ↔
      (∃ other, query[position]? = some other ∧ isMarked query position other) ∨
        position = query.length ∧ isMarked query query.length parm := by
  constructor
  · rintro ⟨other, found, marked⟩
    by_cases inside : position < query.length
    · rw [getElem?_append_left inside] at found
      exact .inl ⟨other, found, isMarked_append_left (Nat.le_of_lt inside) [parm] other ▸ marked⟩
    · obtain ⟨last, rfl⟩ : position - query.length = 0 ∧ parm = other := by
        rw [getElem?_append_right (Nat.le_of_not_lt inside)] at found
        simpa [getElem?_singleton] using found
      obtain rfl : position = query.length := by omega
      exact .inr ⟨rfl, isMarked_append_left (Nat.le_refl _) [parm] parm ▸ marked⟩
  · rintro (⟨other, found, marked⟩ | ⟨rfl, marked⟩)
    · have inside := (List.getElem?_eq_some_iff.1 found).1
      refine ⟨other, (getElem?_append_left inside).trans found, ?_⟩
      rwa [isMarked_append_left (Nat.le_of_lt inside)]
    · refine ⟨parm, getElem?_concat_length, ?_⟩
      rwa [isMarked_append_left (Nat.le_refl _)]

theorem Describes.literal (describes : Describes context query)
    (parsed : parseLiteralToParameter context text = some next) :
    Describes next (query ++ [.literal text]) := by
  obtain ⟨-, short, rfl⟩ := parseLiteralToParameter_eq_some parsed
  constructor
  case totalParms => simp [describes.totalParms]
  case numBindParms => simp [describes.numBindParms, isPlaceholder]
  case cursor => simp [describes.cursor, QueryParm.text]
  case short => exact forall_mem_append.2 ⟨describes.short, forall_mem_singleton.2 short⟩
  case size => exact describes.size.trans (markSize_append query (.literal text)).symm
  case nonempty => exact describes.nonempty
  case small => exact describes.small
  case marks =>
    intro position
    rw [exists_marked_append, ← describes.marks position]
    refine (or_iff_left ?_).symm
    rintro ⟨-, marked⟩
    simp [isMarked, isPlaceholder] at marked

theorem Describes.placeholder {firstColumn lastColumn : Column}
    (describes : Describes context query)
    (parsed : literalValue context (.placeholder firstColumn lastColumn) = some next) :
    Describes next (query ++ [.placeholder firstColumn lastColumn]) := by
  obtain ⟨room, -, rfl⟩ := parseLiteralToParameter_eq_some parsed
  have size : (resizeIsBindParm context.isBindParm context.totalParms).length =
      nextSize context.isBindParm.length context.totalParms :=
    length_resizeIsBindParm describes.small room
  have bounds := @nextSize_bounds _ context.totalParms describes.nonempty describes.small
  constructor
  case totalParms => simp [describes.totalParms]
  case numBindParms => simp [describes.numBindParms, isPlaceholder]
  case cursor => simp [describes.cursor, text]
  case short =>
    refine forall_mem_append.2 ⟨describes.short, forall_mem_singleton.2 ?_⟩
    exact Nat.zero_le _
  case size =>
    rw [length_set, size, describes.size, describes.totalParms, markSize_append]
    rfl
  case nonempty => rw [length_set, size]; exact bounds.1
  case small => rw [length_set, size]; exact bounds.2
  case marks =>
    intro position
    rw [exists_marked_append, ← describes.marks position, getElem?_set]
    by_cases here : context.totalParms = position
    · subst here
      have unmarked : ¬ context.isBindParm[context.totalParms]? = some true := by
        rw [describes.marks, describes.totalParms]
        simp
      have isHere : isMarked query query.length (.placeholder firstColumn lastColumn) = true ↔
          context.totalParms < nextSize context.isBindParm.length context.totalParms := by
        rw [lt_nextSize_iff describes.nonempty room, describes.size, describes.totalParms]
        simp [isMarked, isPlaceholder]
      rw [size, isHere, or_iff_right unmarked, and_iff_right describes.totalParms]
      simp
    · rw [if_neg here, getElem?_resizeIsBindParm]
      refine (or_iff_left ?_).symm
      rintro ⟨rfl, -⟩
      exact here describes.totalParms

theorem Describes.parseQuery {final : ParseContext} {before : List QueryParm}
    (describes : Describes context before) (parsed : parseQuery context query = some final) :
    Describes final (before ++ query) := by
  induction query generalizing context before with
  | nil =>
    obtain rfl := Option.some.inj parsed
    rwa [append_nil]
  | cons parm query ih =>
    obtain ⟨next, step, rest⟩ := Option.bind_eq_some_iff.1 parsed
    have describesNext : Describes next (before ++ [parm]) := by
      cases parm with
      | literal text => exact describes.literal step
      | placeholder firstColumn lastColumn => exact describes.placeholder step
    have final := ih describesNext rest
    rwa [append_assoc, singleton_append] at final

/-! ## The prepared statement -/

theorem storeParms_eq_some {rest : List QueryParm}
    (describes : Describes context query) {curParm curBindParm : Nat}
    (suffix : query.drop curParm = rest)
    (stored : storeParms parse types context (rest.map QueryParm.text) curParm curBindParm =
      some (all, parms)) :
    all = rest.mapIdx (fun offset parm => node query (curParm + offset) parm) ∧
      parms.map BindAttributes.type =
        (List.range (all.countP Option.isNone)).map
          fun offset => parmType parse types (curBindParm + offset) := by
  induction rest generalizing curParm curBindParm all parms with
  | nil =>
    obtain ⟨rfl, rfl⟩ := Prod.mk.inj (Option.some.inj stored)
    exact ⟨rfl, rfl⟩
  | cons parm rest ih =>
    have found : query[curParm]? = some parm := by
      rw [← head?_drop, suffix, head?_cons]
    have suffixNext : query.drop (curParm + 1) = rest := by
      rw [← tail_drop, suffix, tail_cons]
    have marks : context.isBindParm[curParm]? = some true ↔ isMarked query curParm parm := by
      rw [describes.marks, found]
      simp
    have shift : (fun offset parm => node query (curParm + 1 + offset) parm) =
        fun offset parm => node query (curParm + (offset + 1)) parm := by
      funext offset parm
      rw [Nat.add_right_comm, Nat.add_assoc]
    rw [map_cons, storeParms] at stored
    rw [mapIdx_cons, Nat.add_zero, ← shift]
    split at stored
    case isTrue isBind =>
      simp only [Option.bind_eq_bind, Option.bind_eq_some_iff, Prod.exists] at stored
      obtain ⟨start, -, ended, -, others, attributes, storedRest, rfl, rfl⟩ := stored
      obtain ⟨rfl, types⟩ := ih suffixNext storedRest
      refine ⟨?_, ?_⟩
      · rw [node, if_pos (marks.1 isBind)]
      · rw [countP_cons_of_pos rfl, range_succ_eq_map, map_cons, types]
        simp [Nat.add_assoc, Nat.add_comm 1]
    case isFalse isLiteral =>
      simp only [Option.bind_eq_bind, Option.bind_eq_some_iff, Prod.exists] at stored
      obtain ⟨others, attributes, storedRest, rfl, rfl⟩ := stored
      obtain ⟨rfl, types⟩ := ih suffixNext storedRest
      refine ⟨?_, ?_⟩
      · rw [node, if_neg fun marked => isLiteral (marks.2 marked)]
      · rw [countP_cons_of_neg (by simp), types]

/-- A prepared statement as `handle_parse` leaves it. -/
structure Prepares (parse : ParseMessage) (types : Nat → Int) (query : List QueryParm)
    (prepared : PreparedParms) : Prop where
  numBindParms : prepared.numBindParms = query.countP QueryParm.isPlaceholder
  totalParms : prepared.totalParms = query.length
  all : prepared.all = nodes query
  types : prepared.parms.map BindAttributes.type =
    (List.range ((nodes query).countP Option.isNone)).map (parmType parse types)
  short : ∀ parm ∈ query, parm.text.length ≤ ydbMaxStr

theorem prepares_of_handleParse {session : ParmSession}
    (parsed : handleParse session parse types query = some prepared) :
    ∃ parms, prepared.prepared parse.dest = some parms ∧ Prepares parse types query parms := by
  simp only [handleParse, Option.bind_eq_bind, Option.bind_eq_some_iff, Option.pure_def,
    Option.some.injEq, Prod.exists] at parsed
  obtain ⟨context, parsedQuery, all, parms, stored, rfl⟩ := parsed
  have describes : Describes context query := describes_start.parseQuery parsedQuery
  rw [describes.cursor] at stored
  obtain ⟨rfl, attributes⟩ := storeParms_eq_some describes (drop_zero) stored
  simp only [Nat.zero_add] at attributes
  refine ⟨_, update_self .., ⟨describes.numBindParms, describes.totalParms, ?_, ?_, ?_⟩⟩
  · simp only [Nat.zero_add]
    rfl
  · exact attributes
  · intro parm member
    exact describes.short _ (describes.cursor ▸ mem_map_of_mem member)

/-! ## The portal -/

/-- The loop of `handle_bind` stores these texts if it stores each of them in its turn. -/
theorem bindParms_eq_some_iff {curParm curBindParm : Nat} {texts : List (List UInt8)} :
    bindParms bind last parms all curParm curBindParm = some texts ↔
      texts.length = all.length ∧ ∀ offset node, all[offset]? = some node →
        bindParm bind last parms (curParm + offset)
          (curBindParm + (all.take offset).countP Option.isNone) node = texts[offset]? := by
  induction all generalizing curParm curBindParm texts with
  | nil => simp [bindParms]
  | cons node all ih =>
    have next (offset : Nat) : (if node.isNone then curBindParm + 1 else curBindParm) +
          (all.take offset).countP Option.isNone =
        curBindParm + ((node :: all).take (offset + 1)).countP Option.isNone := by
      rw [take_succ_cons, countP_cons]
      split <;> omega
    cases texts with
    | nil =>
      refine iff_of_false ?_ fun stored => absurd stored.1 (by simp)
      simp [bindParms, Option.bind_eq_some_iff]
    | cons text texts =>
      have step : bindParms bind last parms (node :: all) curParm curBindParm =
            some (text :: texts) ↔
          bindParm bind last parms curParm curBindParm node = some text ∧
            bindParms bind last parms all (curParm + 1)
              (if node.isNone then curBindParm + 1 else curBindParm) = some texts := by
        simp [bindParms, Option.bind_eq_some_iff]
      rw [step, ih, length_cons, length_cons, Nat.add_right_cancel_iff]
      constructor
      · rintro ⟨first, sameLength, others⟩
        refine ⟨sameLength, fun offset => ?_⟩
        cases offset with
        | zero => simpa using first
        | succ offset =>
          intro other found
          rw [← next, ← Nat.add_assoc, Nat.add_right_comm]
          exact others offset other (by simpa using found)
      · rintro ⟨sameLength, each⟩
        refine ⟨by simpa using each 0 node rfl, sameLength, fun offset other found => ?_⟩
        have := each (offset + 1) other (by simpa using found)
        rwa [← next, ← Nat.add_assoc, Nat.add_right_comm] at this

/-- The memory around a message has a null byte behind everything that the `Bind` points to. -/
structure Bind.Terminated (bind : Bind) (last : Int) : Prop where
  zero : bind.memory last = 0
  dest : bind.dest ≤ last
  source : bind.source ≤ last
  parms : ∀ parm ∈ bind.parms, parm.value ≤ last

section

variable {memory : Memory} {address : Int} (zero : memory last = 0) (before : address ≤ last)
include zero before

theorem stringAt_eq_some_iff :
    stringAt memory last address = some text ↔ memory.Spells address text :=
  Memory.cString_of_terminated before zero

theorem stringAt_of_holds (noNull : 0 ∉ text)
    (holds : memory.Holds address (text ++ [0])) : stringAt memory last address = some text := by
  obtain ⟨holdsText, terminator, -⟩ := Memory.holds_append.1 holds
  exact (stringAt_eq_some_iff zero before).2 ⟨holdsText, noNull, terminator⟩

end

/-- What is stored is decided by the loop. -/
theorem storesParms_iff_bindParms {message : BindMessage} {parms : PreparedParms}
    (stored : prepared.prepared message.source = some parms)
    (prepares : Prepares parse types query parms)
    (counted : message.parms.length = query.countP isPlaceholder)
    (carries : bind.Carries message) (terminated : bind.Terminated last) :
    StoresParms query prepared bind last message ↔
      bindParms bind last parms.parms (nodes query) 0 0 =
        some (query.mapIdx (portalText query message)) := by
  have dest := stringAt_of_holds terminated.zero terminated.dest message.dest_noNull carries.dest
  have source :=
    stringAt_of_holds terminated.zero terminated.source message.source_noNull carries.source
  have sameCount : ¬ (parms.numBindParms : Int) ≠ bind.numParms := by
    rw [prepares.numBindParms, carries.numParms, counted]
    exact not_not.2 rfl
  have bound : handleBind prepared bind last =
      (bindParms bind last parms.parms (nodes query) 0 0).map fun all =>
        { prepared with
          bound := update prepared.bound message.dest
            (some ⟨parms.numBindParms, parms.totalParms, all⟩) } := by
    rw [handleBind, dest, source]
    simp only [Option.bind_eq_bind, Option.bind_some, stored, if_neg sameCount, prepares.all]
    cases bindParms bind last parms.parms (nodes query) 0 0 <;> rfl
  constructor
  · rintro ⟨session, portal, handled, found, -, texts⟩
    rw [bound] at handled
    obtain ⟨all, loop, rfl⟩ := Option.map_eq_some_iff.1 handled
    simp only [update_self, Option.some.injEq] at found
    subst found
    exact loop.trans (congrArg some texts)
  · intro loop
    rw [loop] at bound
    exact ⟨_, _, bound, update_self .., prepares.totalParms, rfl⟩

end Octo.Rocto
