import Mathlib

/-!
# The main loop of Rocto

`rocto_main_loop` polls the connection, reads a message and processes it, until the client
terminates. ReadyForQuery is sent by the poll: if no input is pending and `send_ready_for_query` is
set, which Parse clears and Sync sets. A failure of Parse, Bind, Describe or Execute sets
`extended_query_error`, and then all messages up to the next Sync are discarded.

What the loop does is recorded as a list of events. An exchange is a message together with the poll
that follows it, which is the one place where the message can be answered by ReadyForQuery.
-/
namespace Octo.Rocto

/-! ## The loop -/

/-- The types of messages. -/
inductive MessageType where
  | query
  | parse
  | bind
  | describe
  | execute
  | sync
  | flush
  | terminate
  | unknown (type : Char)
deriving DecidableEq, Repr

/-- The types that make up an extended query. -/
def MessageType.isExtended : MessageType → Bool
  | .parse | .bind | .describe | .execute => true
  | _ => false

/-- A message, with what its handler does. -/
structure Message where
  type : MessageType
  /-- `read_parse` and its like return NULL, so that there is no call of the handler. -/
  unreadable : Bool
  /-- What the handler returns. -/
  result : Int
  /-- The cursor that `handle_execute` leaves for a later Execute. -/
  cursorId : Int
deriving DecidableEq, Repr

/-- The result of `select`. -/
inductive Poll where
  | error
  | idle
  | pending
deriving DecidableEq, Repr

/-- What one turn of the loop gets from the connection. -/
structure Turn where
  poll : Poll
  /-- `send_message` fails. -/
  sendFails : Bool
  /-- The message, unless the connection was closed. -/
  message : Option Message

/-- The local variables of the loop. -/
structure LoopState where
  cursorId : Int
  sendReadyForQuery : Bool
  extendedQueryError : Bool
  terminated : Bool
deriving DecidableEq, Repr

open LoopState

/-- The local variables before the first turn. -/
def LoopState.initial : LoopState where
  cursorId := -1
  sendReadyForQuery := true
  extendedQueryError := false
  terminated := false

/-- What the branches for Parse, Bind, Describe and Execute share. -/
def LoopState.extended (state : LoopState) (message : Message) : LoopState :=
  if message.unreadable || message.result == 1 then { state with extendedQueryError := true }
  else state

/-- The branches of the `switch`. -/
def LoopState.switch (state : LoopState) (message : Message) : LoopState :=
  match message.type with
  | .query => state
  | .parse => { state with sendReadyForQuery := false }.extended message
  | .bind => state.extended message
  | .describe => state.extended message
  | .execute =>
    if message.unreadable then state.extended message
    else { state with cursorId := message.cursorId }.extended message
  | .sync =>
    { state with cursorId := -1, sendReadyForQuery := true, extendedQueryError := false }
  | .flush => state
  | .terminate => { state with terminated := true }
  | .unknown _ => state

/-- After an error all messages but Sync are discarded. -/
def LoopState.discards (state : LoopState) (message : Message) : Bool :=
  state.extendedQueryError && decide (message.type ≠ .sync)

/-- What becomes of a message that was read. -/
def LoopState.read (state : LoopState) (message : Message) : LoopState :=
  if state.discards message then state else state.switch message

/-- What can be seen of the loop. -/
inductive Event where
  /-- A poll, and whether ReadyForQuery was sent. -/
  | polled (pending ready : Bool)
  /-- A message was read, and processed or discarded. -/
  | message (message : Message) (processed : Bool)
deriving DecidableEq, Repr

/-- `rocto_main_loop`. -/
def mainLoop : LoopState → List Turn → List Event
  | _, [] => []
  | state, turn :: rest =>
    if state.terminated then []
    else
      match turn.poll with
      | .error => []
      | poll =>
        let ready := decide (poll = .idle) && state.sendReadyForQuery
        if ready && turn.sendFails then []
        else
          let polled := Event.polled (decide (poll = .pending)) ready
          match turn.message with
          | none => [polled]
          | some message =>
            polled :: .message message (!state.discards message) ::
              mainLoop (state.read message) rest

/-! ## The local variables -/

/-- The message makes its handler fail in a way that the loop sees. -/
def Message.setsError (message : Message) : Bool :=
  message.type.isExtended && (message.unreadable || message.result == 1)

section

variable (state : LoopState) (message : Message)

@[simp]
theorem LoopState.sendReadyForQuery_extended :
    (state.extended message).sendReadyForQuery = state.sendReadyForQuery := by
  unfold extended
  split <;> rfl

@[simp]
theorem LoopState.extendedQueryError_extended :
    (state.extended message).extendedQueryError =
      (state.extendedQueryError || (message.unreadable || message.result == 1)) := by
  unfold extended
  split
  case isTrue fails => simp [fails]
  case isFalse succeeds => simp [succeeds]

theorem LoopState.sendReadyForQuery_read :
    (state.read message).sendReadyForQuery =
      if message.type = .sync then true
      else if !state.discards message && decide (message.type = .parse) then false
      else state.sendReadyForQuery := by
  unfold read
  split
  case isTrue discarded =>
    have notSync : message.type ≠ .sync := by
      simpa using (Bool.and_eq_true_iff.mp discarded).2
    simp [notSync, discarded]
  case isFalse processed =>
    unfold switch
    cases type : message.type with
    | execute =>
      dsimp only
      split <;> simp
    | _ => simp [processed]

theorem LoopState.extendedQueryError_read :
    (state.read message).extendedQueryError =
      (decide (message.type ≠ .sync) && (state.extendedQueryError || message.setsError)) := by
  unfold read
  split
  case isTrue discarded =>
    obtain ⟨error, notSync⟩ := Bool.and_eq_true_iff.mp discarded
    simp [error, notSync]
  case isFalse processed =>
    unfold switch Message.setsError
    cases type : message.type with
    | execute =>
      dsimp only
      split <;> simp [MessageType.isExtended]
    | _ => simp [MessageType.isExtended]

@[simp]
theorem LoopState.terminated_extended : (state.extended message).terminated = state.terminated := by
  unfold extended
  split <;> rfl

end

variable (state : LoopState) (history : List Exchange) (exchange : Exchange)

/-- Only Terminate ends the loop. -/
theorem LoopState.terminated_read {message : Message} (other : message.type ≠ .terminate) :
    (state.read message).terminated = state.terminated := by
  unfold read
  split
  case isTrue => rfl
  case isFalse =>
    unfold switch
    cases type : message.type with
    | terminate => exact absurd type other
    | execute =>
      dsimp only
      split <;> simp
    | _ => simp

/-! ## Exchanges -/

/-- A message with the poll that follows it. -/
structure Exchange where
  message : Message
  processed : Bool
  pending : Bool
  ready : Bool
deriving DecidableEq, Repr

/-- The exchanges of a run. The first poll belongs to the start-up. -/
def exchanges : List Event → List Exchange
  | .message message processed :: .polled pending ready :: rest =>
    ⟨message, processed, pending, ready⟩ :: exchanges rest
  | _ :: rest => exchanges rest
  | [] => []

/-- The exchanges are those of a loop with the given local variables. -/
def LoopState.Follows (state : LoopState) : List Exchange → Prop
  | [] => True
  | exchange :: rest =>
    exchange.processed = !state.discards exchange.message ∧
    exchange.ready = (!exchange.pending && (state.read exchange.message).sendReadyForQuery) ∧
    (state.read exchange.message).Follows rest

/-- One turn: the loop is left before anything can be seen, or it polls and perhaps reads a
message. -/
theorem mainLoop_cons (turn : Turn) (rest : List Turn) :
    mainLoop state (turn :: rest) = [] ∨
    ∃ pending, mainLoop state (turn :: rest) =
      .polled pending (!pending && state.sendReadyForQuery) ::
        match turn.message with
        | none => []
        | some message =>
          .message message (!state.discards message) :: mainLoop (state.read message) rest := by
  rw [mainLoop]
  split
  case isTrue => exact Or.inl rfl
  case isFalse =>
    split
    case h_1 => exact Or.inl rfl
    case h_2 noError =>
      dsimp only
      split
      case isTrue => exact Or.inl rfl
      case isFalse =>
        right
        cases polled : turn.poll with
        | error => exact absurd polled noError
        | idle =>
          refine ⟨false, ?_⟩
          cases turn.message <;> simp
        | pending =>
          refine ⟨true, ?_⟩
          cases turn.message <;> simp

/-- The exchanges of a loop that has read a message. -/
theorem follows_exchanges_message (turns : List Turn) (state : LoopState) (message : Message) :
    state.Follows (exchanges (.message message (!state.discards message) ::
      mainLoop (state.read message) turns)) := by
  induction turns generalizing state message with
  | nil => trivial
  | cons turn rest ih =>
    rcases mainLoop_cons (state.read message) turn rest with left | ⟨pending, polls⟩
    · rw [left]
      trivial
    · rw [polls]
      refine ⟨rfl, rfl, ?_⟩
      cases turn.message with
      | none => trivial
      | some next => exact ih (state.read message) next

/-- The exchanges of a run. -/
theorem follows_exchanges (turns : List Turn) (state : LoopState) :
    state.Follows (exchanges (mainLoop state turns)) := by
  cases turns with
  | nil => trivial
  | cons turn rest =>
    rcases mainLoop_cons state turn rest with left | ⟨pending, polls⟩
    · rw [left]
      trivial
    · rw [polls, exchanges]
      · cases turn.message with
        | none => trivial
        | some next => exact follows_exchanges_message rest state next
      · simp

/-! ## The history of a run -/

/-- The exchanges after the last Sync, the latest one first. -/
def sinceSync (history : List Exchange) : List Exchange :=
  history.reverse.takeWhile fun exchange => decide (exchange.message.type ≠ .sync)

@[simp]
theorem sinceSync_append_singleton :
    sinceSync (history ++ [exchange]) =
      if exchange.message.type = .sync then [] else exchange :: sinceSync history := by
  unfold sinceSync
  by_cases isSync : exchange.message.type = .sync <;> simp [isSync]

/-- An extended query was begun and not yet ended by Sync. -/
def inSequence (history : List Exchange) : Bool :=
  (sinceSync history).any fun exchange => exchange.processed && exchange.message.type.isExtended

/-- There was a Parse in the extended query. -/
def parsed (history : List Exchange) : Bool :=
  (sinceSync history).any fun exchange =>
    exchange.processed && decide (exchange.message.type = .parse)

/-- The message has to be answered by ReadyForQuery. -/
def Exchange.completes (exchange : Exchange) : Bool :=
  exchange.processed &&
    (decide (exchange.message.type = .sync) || decide (exchange.message.type = .query))

/-- The local variables after some exchanges. -/
def LoopState.after (state : LoopState) (history : List Exchange) : LoopState :=
  history.foldl (fun state exchange => state.read exchange.message) state

theorem LoopState.Follows.append {state : LoopState} {history rest : List Exchange}
    (follows : state.Follows (history ++ rest)) :
    state.Follows history ∧ (state.after history).Follows rest := by
  induction history generalizing state with
  | nil => exact ⟨trivial, follows⟩
  | cons exchange history ih =>
    obtain ⟨processed, ready, later⟩ := follows
    obtain ⟨before, behind⟩ := ih later
    exact ⟨⟨processed, ready, before⟩, behind⟩

theorem LoopState.after_append_singleton :
    state.after (history ++ [exchange]) = (state.after history).read exchange.message := by
  simp [after]

/-- The flags tell what has happened since the last Sync. -/
theorem LoopState.Follows.flags {history : List Exchange} (follows : initial.Follows history) :
    (initial.after history).sendReadyForQuery = !parsed history ∧
    ((initial.after history).extendedQueryError = true → inSequence history = true) := by
  induction history using List.reverseRecOn with
  | nil => simp [after, initial, parsed, sinceSync]
  | append_singleton history exchange ih =>
    obtain ⟨before, processed, _⟩ := follows.append
    obtain ⟨ready, error⟩ := ih before
    rw [after_append_singleton, sendReadyForQuery_read, extendedQueryError_read]
    unfold parsed inSequence at *
    rw [sinceSync_append_singleton]
    by_cases isSync : exchange.message.type = .sync
    · simp [isSync]
    · rw [if_neg isSync, if_neg isSync, List.any_cons, ← processed, ready]
      constructor
      · cases exchange.processed && decide (exchange.message.type = .parse) <;> rfl
      · intro fails
        -- A message that sets the flag was not discarded, and one that was has found it set.
        cases isSet : (initial.after history).extendedQueryError with
        | true => simp [error isSet]
        | false =>
          have sets : exchange.message.setsError = true := by simpa [isSync, isSet] using fails
          have extended := (Bool.and_eq_true_iff.mp sets).1
          simp [processed, discards, isSet, extended]

end Octo.Rocto
