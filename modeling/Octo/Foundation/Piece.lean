import Mathlib

/-!
# Texts that are divided into pieces by a delimiter

The pieces of a text are what stands between the occurrences of a delimiter, found from left to
right without overlap. Setting a piece replaces what stands between two delimiters and appends
delimiters where there are too few. Nothing is escaped: a value that contains the delimiter becomes
several pieces. `piece_intercalate_iff` says when the pieces of a text are those that it was made
of: each of them has to avoid the delimiter, also where its end and the beginning of the delimiter
that follows it come together. For delimiters of one letter it is enough that no piece contains it.
-/
namespace Piece

open List Nat

variable {α : Type} [DecidableEq α]
variable {value : List α} {tail : List α} {values : List (List α)}

/-- The pieces of a text of which the first `skip` letters belong to a delimiter. -/
def pieces (delim : List α) : Nat → List α → List (List α)
  | _, [] => [[]]
  | skip + 1, _ :: rest => pieces delim skip rest
  | 0, letter :: rest =>
    if delim <+: letter :: rest then [] :: pieces delim (delim.length - 1) rest
    else (pieces delim 0 rest).modifyHead (letter :: ·)

/-- A piece of a text, empty if there are fewer. -/
def piece (delim text : List α) (index : Nat) : List α :=
  (pieces delim 0 text).getD index []

/-- A text with one of its pieces replaced. -/
def setPiece (delim text : List α) (index : Nat) (value : List α) : List α :=
  delim.intercalate (((pieces delim 0 text).rightpad (index + 1) []).set index value)

/-! ## Delimiters of any length -/

section General

variable {delim : List α}

theorem pieces_ne_nil (delim : List α) (skip : Nat) (text : List α) :
    pieces delim skip text ≠ [] := by
  induction text generalizing skip with
  | nil => simp [pieces]
  | cons letter rest ih =>
    cases skip with
    | succ skip =>
      exact ih skip
    | zero =>
      rw [pieces]
      split
      · simp
      · simpa using ih 0

/-- The delimiter does not begin within the text, if `tail` follows the text. -/
def Avoids (delim tail text : List α) : Prop :=
  ∀ start < text.length, ¬delim <+: (text ++ tail).drop start

instance {tail text : List α} : Decidable (Avoids delim tail text) :=
  inferInstanceAs (Decidable (∀ start < text.length, ¬delim <+: (text ++ tail).drop start))

omit [DecidableEq α] in
theorem Avoids.of_cons {letter : α} {rest : List α} (avoids : Avoids delim tail (letter :: rest)) :
    Avoids delim tail rest := by
  intro start inside
  have later := avoids (start + 1) (by simpa using inside)
  simpa using later

/-- The letters of a delimiter that was found are skipped. -/
theorem pieces_skip (skipped rest : List α) :
    pieces delim skipped.length (skipped ++ rest) = pieces delim 0 rest := by
  induction skipped with
  | nil => rfl
  | cons letter skipped ih => exact ih

variable {text : List α} {index : Nat}

/-- A text that avoids the delimiter behind it is the first piece. -/
theorem pieces_append (nonempty : delim ≠ []) (avoids : Avoids delim delim.dropLast text)
    (rest : List α) : pieces delim 0 (text ++ (delim ++ rest)) = text :: pieces delim 0 rest := by
  induction text with
  | nil =>
    obtain ⟨first, others, rfl⟩ := exists_cons_of_ne_nil nonempty
    rw [nil_append, cons_append, pieces, if_pos ⟨rest, rfl⟩]
    exact congrArg _ (pieces_skip others rest)
  | cons letter text ih =>
    have notHere : ¬delim <+: letter :: (text ++ (delim ++ rest)) := by
      intro starts
      refine avoids 0 (succ_pos _) ?_
      -- The text with the delimiter but for its last letter is at least as long as the delimiter.
      refine prefix_of_prefix_length_le starts ?_ ?_
      · rw [drop_zero]
        refine ⟨[delim.getLast nonempty] ++ rest, ?_⟩
        rw [cons_append, cons_append, append_assoc, ← append_assoc delim.dropLast,
          dropLast_append_getLast nonempty]
      · simp
        omega
    rw [cons_append, pieces, if_neg notHere, ih avoids.of_cons]
    rfl

theorem pieces_eq_singleton (avoids : Avoids delim [] text) : pieces delim 0 text = [text] := by
  induction text with
  | nil => rfl
  | cons letter text ih =>
    have notHere : ¬delim <+: letter :: text := by
      simpa using avoids 0 (succ_pos _)
    rw [pieces, if_neg notHere, ih avoids.of_cons]
    rfl

/-- The first piece ends where the delimiter begins. -/
theorem length_piece_zero_lt (occurs : ¬Avoids delim tail text) (rest : List α) :
    (piece delim (text ++ tail ++ rest) 0).length < text.length := by
  induction text with
  | nil => exact absurd (fun start inside => absurd inside (not_lt_zero start)) occurs
  | cons letter text ih =>
    rw [piece, cons_append, cons_append, pieces]
    split
    case isTrue => exact succ_pos _
    case isFalse notHere =>
      have later : ¬Avoids delim tail text := by
        intro avoids
        refine occurs fun start inside starts => ?_
        cases start with
        | zero => exact notHere (starts.trans (prefix_append _ rest))
        | succ start => exact avoids start (by simpa using inside) (by simpa using starts)
      obtain ⟨head, others, split⟩ :=
        exists_cons_of_ne_nil (pieces_ne_nil delim 0 (text ++ tail ++ rest))
      have shorter := ih later
      rw [piece, split] at shorter
      rw [split]
      simpa using shorter

/-- The first `count` of the values avoid the delimiter that follows them. -/
def Separable (delim : List α) (count : Nat) (values : List (List α)) : Prop :=
  ∀ index < count, ∀ value, values[index]? = some value →
    Avoids delim (if index + 1 < values.length then delim.dropLast else []) value

instance {count : Nat} {values : List (List α)} : Decidable (Separable delim count values) :=
  inferInstanceAs (Decidable (∀ index < count, ∀ value, values[index]? = some value →
    Avoids delim (if index + 1 < values.length then delim.dropLast else []) value))

omit [DecidableEq α] in
theorem separable_cons {count : Nat} {rest : List (List α)} :
    Separable delim (count + 1) (value :: rest) ↔
      Avoids delim (if rest = [] then [] else delim.dropLast) value ∧
        Separable delim count rest := by
  have last : (if 0 + 1 < (value :: rest).length then delim.dropLast else []) =
      if rest = [] then [] else delim.dropLast := by
    cases rest <;> simp
  constructor
  · intro separable
    refine ⟨last ▸ separable 0 (succ_pos _) value rfl, fun index inside other found => ?_⟩
    simpa using separable (index + 1) (succ_lt_succ inside) other found
  · rintro ⟨avoids, separable⟩ index inside other found
    cases index with
    | zero =>
      obtain rfl : value = other := by simpa using found
      rwa [last]
    | succ index =>
      simpa using separable index (lt_of_succ_lt_succ inside) other found

/-- The first pieces of a text are those that it was made of if and only if these avoid the
delimiter. -/
theorem piece_intercalate_iff (nonempty : delim ≠ []) (count : Nat) (values : List (List α))
    (made : values ≠ []) :
    (∀ index < count, piece delim (delim.intercalate values) index = values.getD index []) ↔
      Separable delim count values := by
  induction values generalizing count with
  | nil => exact absurd rfl made
  | cons value rest ih =>
    cases count with
    | zero => simp [Separable]
    | succ count =>
      rw [separable_cons, forall_lt_succ_left]
      have avoids_of_piece : ∀ tail more : List α,
          delim.intercalate (value :: rest) = value ++ tail ++ more →
            piece delim (delim.intercalate (value :: rest)) 0 = value →
              Avoids delim tail value := by
        intro tail more splits isFirst
        by_contra occurs
        have shorter := length_piece_zero_lt occurs more
        rw [← splits, isFirst] at shorter
        exact Nat.lt_irrefl _ shorter
      by_cases isLast : rest = []
      · subst isLast
        constructor
        · rintro ⟨isFirst, -⟩
          refine ⟨avoids_of_piece [] [] (by simp) isFirst, ?_⟩
          simp [Separable]
        · rintro ⟨avoids, -⟩
          simp [piece, pieces_eq_singleton avoids]
      · rw [if_neg isLast]
        have splits : delim.intercalate (value :: rest) =
            value ++ (delim ++ delim.intercalate rest) := by
          obtain ⟨other, others, rfl⟩ := exists_cons_of_ne_nil isLast
          rw [intercalate_cons_cons, append_assoc]
        constructor
        · rintro ⟨isFirst, later⟩
          have avoids : Avoids delim delim.dropLast value := by
            refine avoids_of_piece _ ([delim.getLast nonempty] ++ delim.intercalate rest) ?_
              isFirst
            rw [splits, append_assoc, ← append_assoc delim.dropLast,
              dropLast_append_getLast nonempty]
          refine ⟨avoids, (ih count isLast).mp fun index inside => ?_⟩
          have shifted := later index inside
          rwa [splits, piece, pieces_append nonempty avoids] at shifted
        · rintro ⟨avoids, separable⟩
          have rightRest := (ih count isLast).mpr separable
          rw [splits]
          refine ⟨?_, fun index inside => ?_⟩
          · rw [piece, pieces_append nonempty avoids]
            rfl
          · rw [piece, pieces_append nonempty avoids]
            exact rightRest index inside

/-- The pieces that a text is made of when one of its pieces is set. -/
def replacedPieces (delim text : List α) (index : Nat) (value : List α) : List (List α) :=
  ((pieces delim 0 text).rightpad (index + 1) []).set index value

theorem lt_length_replacedPieces (delim text : List α) (index : Nat) (value : List α) :
    index < (replacedPieces delim text index value).length := by
  simp [replacedPieces]
  omega

theorem replacedPieces_ne_nil (text : List α) (index : Nat) (value : List α) :
    replacedPieces delim text index value ≠ [] :=
  ne_nil_of_length_pos (zero_lt_of_lt (lt_length_replacedPieces delim text index value))

theorem getD_replacedPieces (text : List α) (index : Nat) (value : List α) (other : Nat) :
    (replacedPieces delim text index value).getD other [] =
      if other = index then value else piece delim text other := by
  have long := lt_length_replacedPieces delim text index value
  rw [replacedPieces, length_set] at long
  rw [replacedPieces, getD_eq_getElem?_getD, getElem?_set]
  by_cases same : index = other
  · rw [if_pos same, if_pos (same ▸ long), if_pos same.symm, Option.getD_some]
  · rw [if_neg same, if_neg (Ne.symm same), piece, rightpad, getElem?_append]
    split
    · rfl
    · rw [getElem?_replicate]
      split <;> simp [*]

/-- Setting a piece changes this piece only if and only if the new pieces avoid the delimiter. -/
theorem piece_setPiece_iff (nonempty : delim ≠ []) (count : Nat) (text : List α) (index : Nat)
    (value : List α) :
    (∀ other < count, piece delim (setPiece delim text index value) other =
      if other = index then value else piece delim text other) ↔
        Separable delim count (replacedPieces delim text index value) := by
  rw [← piece_intercalate_iff nonempty count _ (replacedPieces_ne_nil text index value)]
  simp only [getD_replacedPieces]
  rfl

/-! ## Texts that have the piece that is set -/

theorem pieces_eq_drop (skip : Nat) (text : List α) :
    pieces delim skip text = pieces delim 0 (text.drop skip) := by
  induction text generalizing skip with
  | nil => simp [pieces]
  | cons letter rest ih =>
    cases skip with
    | zero => rfl
    | succ skip => exact ih skip

theorem pieces_of_starts (nonempty : delim ≠ []) (starts : delim <+: text) :
    pieces delim 0 text = [] :: pieces delim 0 (text.drop delim.length) := by
  cases text with
  | nil => exact absurd (prefix_nil.mp starts) nonempty
  | cons letter rest =>
    obtain ⟨length, isLength⟩ := exists_eq_succ_of_ne_zero
      (Nat.ne_of_gt (length_pos_of_ne_nil nonempty))
    rw [pieces, if_pos starts, pieces_eq_drop, isLength]
    rfl

theorem pieces_of_not_starts {letter : α} {rest : List α} (starts : ¬delim <+: letter :: rest) :
    pieces delim 0 (letter :: rest) = (pieces delim 0 rest).modifyHead (letter :: ·) := by
  rw [pieces, if_neg starts]

variable (nonempty : delim ≠ [])
include nonempty

/-- A text is made of its pieces. -/
theorem intercalate_pieces (text : List α) :
    delim.intercalate (pieces delim 0 text) = text := by
  induction length : text.length using Nat.strongRecOn generalizing text with
  | ind length ih =>
    cases text with
    | nil => rfl
    | cons letter rest =>
      subst length
      by_cases starts : delim <+: letter :: rest
      · have shorter : ((letter :: rest).drop delim.length).length < (letter :: rest).length := by
          have positive := length_pos_of_ne_nil nonempty
          rw [length_drop, length_cons]
          omega
        rw [pieces_of_starts nonempty starts, intercalate_cons_of_ne_nil
          (pieces_ne_nil delim 0 _), ih _ shorter _ rfl]
        obtain ⟨behind, splits⟩ := starts
        rw [← splits, drop_left, nil_append]
      · have inRest := ih _ (lt_succ_self _) rest rfl
        obtain ⟨first, others, isSplit⟩ := exists_cons_of_ne_nil
          (pieces_ne_nil delim 0 rest)
        rw [isSplit] at inRest
        rw [pieces_of_not_starts starts, isSplit, ← inRest]
        cases others with
        | nil => rfl
        | cons other others => simp

theorem pieces_intercalate (made : values ≠ []) (separable : Separable delim values.length values) :
    pieces delim 0 (delim.intercalate values) = values := by
  induction values with
  | nil => exact absurd rfl made
  | cons value rest ih =>
    obtain ⟨avoids, separableRest⟩ := separable_cons.mp separable
    by_cases isLast : rest = []
    · subst isLast
      rw [intercalate_singleton, pieces_eq_singleton (by simpa using avoids)]
    · rw [if_neg isLast] at avoids
      rw [intercalate_cons_of_ne_nil isLast, append_assoc,
        pieces_append nonempty avoids, ih isLast separableRest]

/-- The pieces that were found avoid the delimiter. -/
theorem separable_pieces (count : Nat) (text : List α) :
    Separable delim count (pieces delim 0 text) := by
  rw [← piece_intercalate_iff nonempty count _ (pieces_ne_nil delim 0 text),
    intercalate_pieces nonempty]
  intro index _
  rfl

/-- Leaving out letters at the beginning of a text does not make more pieces of it, and leaving out
no more letters than the delimiter has makes at most one piece less. -/
theorem length_pieces_drop (text : List α) (left : Nat) :
    (pieces delim 0 (text.drop left)).length ≤ (pieces delim 0 text).length ∧
      (left ≤ delim.length →
        (pieces delim 0 text).length ≤ (pieces delim 0 (text.drop left)).length + 1) := by
  induction length : text.length using Nat.strongRecOn generalizing text left with
  | ind length ih =>
    cases left with
    | zero => simp
    | succ left =>
      cases text with
      | nil => simp
      | cons letter rest =>
        subst length
        have inRest := ih _ (lt_succ_self _) rest
        by_cases starts : delim <+: letter :: rest
        · rw [pieces_of_starts nonempty starts]
          obtain ⟨last, isLength⟩ := exists_eq_succ_of_ne_zero
            (Nat.ne_of_gt (length_pos_of_ne_nil nonempty))
          rw [isLength]
          constructor
          · exact Nat.le_trans (inRest left rfl).1 ((inRest last rfl).2 (by omega))
          · intro within
            have later := ih (rest.drop left).length
              (by rw [length_drop, length_cons]; omega) _ (last - left) rfl
            rw [drop_drop, Nat.add_sub_cancel' (Nat.le_of_succ_le_succ within)] at later
            exact Nat.succ_le_succ later.1
        · rw [pieces_of_not_starts starts, length_modifyHead]
          exact ⟨(inRest left rfl).1, fun within => (inRest left rfl).2 (by omega)⟩

/-- A text has at least the pieces that it was made of. -/
theorem length_le_length_pieces_intercalate (values : List (List α)) :
    values.length ≤ (pieces delim 0 (delim.intercalate values)).length := by
  induction values with
  | nil => exact zero_le _
  | cons value rest ih =>
    by_cases isLast : rest = []
    · subst isLast
      exact length_pos_of_ne_nil (pieces_ne_nil delim 0 _)
    · have behind := (length_pieces_drop nonempty (value ++ (delim ++ delim.intercalate rest))
        value.length).1
      rw [drop_left, pieces_of_starts nonempty (prefix_append ..), drop_left] at behind
      rw [intercalate_cons_of_ne_nil isLast, append_assoc]
      exact Nat.le_trans (Nat.succ_le_succ ih) behind

theorem length_pieces_le_setPiece (text : List α) (index : Nat) (value : List α) :
    (pieces delim 0 text).length ≤ (pieces delim 0 (setPiece delim text index value)).length := by
  have made := length_le_length_pieces_intercalate nonempty (replacedPieces delim text index value)
  refine Nat.le_trans ?_ made
  simp [replacedPieces]

/-- What stands behind a piece of a text, as far as it can be a part of a delimiter that begins
within the piece. -/
def pieceTail (delim text : List α) (index : Nat) : List α :=
  if index + 1 < (pieces delim 0 text).length then delim.dropLast else []

variable (inside : index < (pieces delim 0 text).length)
include inside

omit nonempty in
theorem replacedPieces_eq_set (value : List α) :
    replacedPieces delim text index value = (pieces delim 0 text).set index value := by
  have enough : index + 1 - (pieces delim 0 text).length = 0 := by omega
  rw [replacedPieces, rightpad, enough, replicate_zero, append_nil]

theorem separable_replacedPieces_iff (count : Nat) (value : List α) :
    Separable delim count (replacedPieces delim text index value) ↔
      (index < count → Avoids delim (pieceTail delim text index) value) := by
  rw [replacedPieces_eq_set inside, Separable, length_set]
  constructor
  · intro separable counted
    exact separable index counted value (getElem?_set_self inside)
  · intro avoids other counted found isFound
    by_cases same : index = other
    · subst same
      rw [getElem?_set_self inside] at isFound
      obtain rfl := Option.some.inj isFound
      exact avoids counted
    · rw [getElem?_set_ne same] at isFound
      exact separable_pieces nonempty count text other counted found isFound

/-- A piece that was set is read back if and only if it avoids the delimiter. -/
theorem piece_setPiece_self_iff (value : List α) :
    piece delim (setPiece delim text index value) index = value ↔
      Avoids delim (pieceTail delim text index) value := by
  have counted := fun count => (piece_setPiece_iff nonempty count text index value).trans
    (separable_replacedPieces_iff nonempty inside count value)
  constructor
  · intro read
    refine (counted (index + 1)).mp (fun other within => ?_) (lt_succ_self index)
    rcases Nat.lt_or_eq_of_le (Nat.le_of_lt_succ within) with earlier | rfl
    · exact (counted index).mpr (fun impossible => absurd impossible (Nat.lt_irrefl index)) other
        earlier
    · rw [if_pos rfl, read]
  · intro avoids
    rw [(counted (index + 1)).mpr (fun _ => avoids) index (lt_succ_self index), if_pos rfl]

theorem length_pieces_setPiece (avoids : Avoids delim (pieceTail delim text index) value) :
    (pieces delim 0 (setPiece delim text index value)).length = (pieces delim 0 text).length := by
  have separable := (separable_replacedPieces_iff nonempty inside
    (replacedPieces delim text index value).length value).mpr fun _ => avoids
  rw [setPiece, ← replacedPieces, pieces_intercalate nonempty
    (replacedPieces_ne_nil text index value) separable, replacedPieces_eq_set inside,
    length_set]

end General

/-! ## Delimiters of one letter -/

variable {delim : α}

theorem pieces_singleton (text : List α) : pieces [delim] 0 text = text.splitOn delim := by
  induction text with
  | nil => rfl
  | cons letter rest ih =>
    rw [splitOn, splitOnP_cons_eq_if_modifyHead, ← splitOn, ← ih]
    by_cases same : letter = delim
    · simp [pieces, same]
    · simp [pieces, same, Ne.symm same]

variable {text : List α}

/-- No piece contains the delimiter. -/
theorem notMem_of_mem_pieces (member : value ∈ pieces [delim] 0 text) : delim ∉ value := by
  induction text generalizing value with
  | nil =>
    obtain rfl : value = [] := by simpa [pieces] using member
    exact not_mem_nil
  | cons letter rest ih =>
    rw [pieces] at member
    split at member
    case isTrue =>
      rcases mem_cons.mp member with rfl | later
      · exact not_mem_nil
      · exact ih later
    case isFalse differs =>
      have letterDiffers : delim ≠ letter := by simpa using differs
      cases splits : pieces [delim] 0 rest with
      | nil => simp [splits] at member
      | cons head tail =>
        rw [splits] at ih
        rcases (by simpa [splits] using member : value = letter :: head ∨ value ∈ tail) with
          rfl | later
        · exact not_mem_cons_of_ne_of_not_mem letterDiffers (ih (mem_cons_self ..))
        · exact ih (mem_cons_of_mem _ later)

theorem notMem_piece (text : List α) (index : Nat) : delim ∉ piece [delim] text index := by
  rw [piece, getD_eq_getElem?_getD]
  cases found : (pieces [delim] 0 text)[index]? with
  | none => simp
  | some value => exact notMem_of_mem_pieces (mem_of_getElem? found)

/-- Pieces without the delimiter are read back from the text that is made of them. -/
theorem piece_intercalate (nonempty : values ≠ [])
    (clean : ∀ value ∈ values, delim ∉ value) (index : Nat) :
    piece [delim] ([delim].intercalate values) index = values.getD index [] := by
  rw [piece, pieces_singleton, splitOn_intercalate delim clean nonempty]

omit [DecidableEq α] in
/-- A text that does not contain the delimiter avoids it. -/
theorem avoids_singleton_iff : Avoids [delim] tail text ↔ delim ∉ text := by
  induction text with
  | nil => simp [Avoids]
  | cons letter rest ih =>
    have later : (∀ start < rest.length, ¬[delim] <+: (rest ++ tail).drop start) ↔
        delim ∉ rest := ih
    rw [Avoids, length_cons, forall_lt_succ_left]
    simp [later]

/-- Setting a piece to a value without the delimiter changes this piece only. -/
theorem piece_setPiece {index : Nat} (clean : delim ∉ value) (other : Nat) :
    piece [delim] (setPiece [delim] text index value) other =
      if other = index then value else piece [delim] text other := by
  refine (piece_setPiece_iff (cons_ne_nil _ _) (other + 1) text index value).mpr ?_ other
    (lt_succ_self other)
  intro position _ found isFound
  rw [avoids_singleton_iff]
  have member := mem_of_getElem? isFound
  rcases mem_or_eq_of_mem_set member with original | rfl
  · rcases mem_append.mp original with before | padded
    · exact notMem_of_mem_pieces before
    · rw [eq_of_mem_replicate padded]
      exact not_mem_nil
  · exact clean

end Piece
