import Octo.Rocto.MainLoop

/-!
# What the main loop owes to the protocol

A client counts on two things. Each Sync and each simple Query is answered by one ReadyForQuery, and
none is sent inside of an extended query. After a message of an extended query has failed, nothing
is processed up to the next Sync.

The loop keeps to the first as long as a client that waits for an answer has sent nothing else, and
messages that need no answer come together with further input or after a Parse. It keeps to the
second if handlers report their failures by 1.
-/
namespace Octo.Rocto

open List LoopState

/-! ## ReadyForQuery -/

/-- Two counts agree for all beginnings of a list if and only if they agree for each element. -/
theorem countP_eq_for_starts_iff {α : Type} {first second : α → Bool} {list : List α} :
    (∀ seen, seen <+: list → seen.countP first = seen.countP second) ↔
      ∀ item ∈ list, first item = second item := by
  constructor
  · intro agree item member
    obtain ⟨earlier, later, rfl⟩ := append_of_mem member
    have before := agree earlier ⟨item :: later, rfl⟩
    have behind := agree (earlier ++ [item]) ⟨later, by simp⟩
    simp only [countP_append, before] at behind
    cases isFirst : first item <;> cases isSecond : second item <;>
      simp [isFirst, isSecond] at behind ⊢
  · intro same seen starts
    apply countP_congr
    intro item member
    rw [same item (starts.subset member)]

/-- ReadyForQuery was sent once for each Sync and each simple Query, and not inside of an extended
query. -/
structure Accounted (seen : List Exchange) : Prop where
  counts : seen.countP (·.ready) = seen.countP (·.completes)
  quiet : ∀ earlier exchange later, seen = earlier ++ exchange :: later →
    inSequence (earlier ++ [exchange]) = true → exchange.ready = false

/-- The client waits for the answer to a Sync or a simple Query, which is not sent inside of an
extended query; other messages come with further input or belong to a query that was parsed. -/
def Answerable (earlier : List Exchange) (exchange : Exchange) : Prop :=
  if exchange.completes then
    exchange.pending = false ∧
      (exchange.message.type = .query → inSequence earlier = false)
  else exchange.pending = true ∨ parsed (earlier ++ [exchange]) = true

theorem inSequence_of_parsed {history : List Exchange} (isParsed : parsed history = true) :
    inSequence history = true := by
  obtain ⟨exchange, member, isParse⟩ := any_eq_true.mp isParsed
  refine any_eq_true.mpr ⟨exchange, member, ?_⟩
  obtain ⟨processed, type⟩ := Bool.and_eq_true_iff.mp isParse
  rw [processed, of_decide_eq_true type]
  rfl

variable {earlier : List Exchange} {exchange : Exchange} {messages : List (Message × Bool)}
    {state : LoopState}

variable {turns : List Turn} {later : List Exchange} {message : Message}
  (run : exchanges (mainLoop .initial turns) = earlier ++ exchange :: later)

include run in
/-- When ReadyForQuery follows a message. -/
theorem ready_eq :
    exchange.ready = (!exchange.pending && !parsed (earlier ++ [exchange])) := by
  have follows : initial.Follows ((earlier ++ [exchange]) ++ later) := by
    rw [append_assoc, singleton_append, ← run]
    exact follows_exchanges turns .initial
  obtain ⟨seen, _⟩ := follows.append
  rw [← seen.flags.1, after_append_singleton]
  exact seen.append.2.2.1

/-- A simple Query leaves an extended query open, a Sync does not. -/
theorem inSequence_of_completes (completes : exchange.completes = true) :
    inSequence (earlier ++ [exchange]) =
      (decide (exchange.message.type = .query) && inSequence earlier) := by
  obtain ⟨_, types⟩ := Bool.and_eq_true_iff.mp completes
  unfold inSequence
  rw [sinceSync_append_singleton]
  rcases Bool.or_eq_true_iff.mp types with isSync | isQuery
  · rw [of_decide_eq_true isSync]
    rfl
  · simp [of_decide_eq_true isQuery, MessageType.isExtended]

include run in
/-- One message is answered as it should be if and only if it is answerable. -/
theorem answerable_iff :
    Answerable earlier exchange ↔ exchange.ready = exchange.completes ∧
      (inSequence (earlier ++ [exchange]) = true → exchange.ready = false) := by
  have ready := ready_eq run
  unfold Answerable
  split
  case isTrue completes =>
    rw [completes]
    constructor
    · rintro ⟨idle, outside⟩
      have ended : ¬inSequence (earlier ++ [exchange]) = true := by
        intro inside
        rw [inSequence_of_completes completes, Bool.and_eq_true_iff] at inside
        rw [outside (of_decide_eq_true inside.1)] at inside
        exact Bool.false_ne_true inside.2
      have noParse : parsed (earlier ++ [exchange]) = false := by
        by_contra isParsed
        exact ended (inSequence_of_parsed (Bool.of_not_eq_false isParsed))
      exact ⟨by simp [ready, idle, noParse], fun inside => absurd inside ended⟩
    · rintro ⟨isReady, quiet⟩
      constructor
      · rw [isReady] at ready
        simpa using (Bool.and_eq_true_iff.mp ready.symm).1
      · intro isQuery
        by_contra inside
        rw [inSequence_of_completes completes, isReady] at quiet
        simp [isQuery, inside] at quiet
  case isFalse needsNone =>
    rw [Bool.of_not_eq_true needsNone]
    constructor
    · intro held
      have notReady : exchange.ready = false := by
        rcases held with pending | isParsed
        · simp [ready, pending]
        · simp [ready, isParsed]
      exact ⟨notReady, fun _ => notReady⟩
    · rintro ⟨notReady, _⟩
      rw [notReady] at ready
      cases isPending : exchange.pending with
      | true => exact Or.inl rfl
      | false => exact Or.inr (by simpa [isPending] using ready)

/-- In a run of the main loop ReadyForQuery is accounted for at every time if and only if every
message is answerable. -/
theorem mainLoop_accounted_iff (turns : List Turn) :
    (∀ seen, seen <+: exchanges (mainLoop .initial turns) → Accounted seen) ↔
      ∀ earlier exchange later,
        exchanges (mainLoop .initial turns) = earlier ++ exchange :: later →
          Answerable earlier exchange := by
  constructor
  · intro accounted earlier exchange later run
    apply (answerable_iff run).mpr
    have same := countP_eq_for_starts_iff.mp fun seen starts => (accounted seen starts).counts
    constructor
    · exact same exchange (by simp [run])
    · exact (accounted _ prefix_rfl).quiet earlier exchange later run
  · intro answerable seen starts
    constructor
    case counts =>
      refine countP_eq_for_starts_iff.mpr (fun exchange member => ?_) seen starts
      obtain ⟨earlier, later, run⟩ := append_of_mem member
      exact ((answerable_iff run).mp (answerable earlier exchange later run)).1
    case quiet =>
      rintro earlier exchange later rfl
      obtain ⟨rest, run⟩ := starts
      have run' : exchanges (mainLoop .initial turns) = earlier ++ exchange :: (later ++ rest) := by
        rw [← run, append_assoc, cons_append]
      exact ((answerable_iff run').mp (answerable earlier exchange _ run')).2

/-- A message that is handled without a failure. -/
def Message.plain (type : MessageType) : Message where
  type := type
  unreadable := false
  result := 0
  cursorId := -1

/-- A client that waits for the answer to a Query and sends Parse and Sync in one packet. -/
def waitingClient : List Turn :=
  [⟨.idle, false, some (.plain .query)⟩, ⟨.idle, false, some (.plain .parse)⟩,
    ⟨.pending, false, some (.plain .sync)⟩, ⟨.idle, false, none⟩]

theorem mainLoop_accounted_waitingClient :
    (exchanges (mainLoop .initial waitingClient)).length = 3 ∧
      ∀ seen, seen <+: exchanges (mainLoop .initial waitingClient) → Accounted seen := by
  refine ⟨by decide, (mainLoop_accounted_iff waitingClient).mpr ?_⟩
  intro earlier exchange later run
  have events : exchanges (mainLoop .initial waitingClient) =
      [⟨.plain .query, true, false, true⟩, ⟨.plain .parse, true, true, false⟩,
        ⟨.plain .sync, true, false, true⟩] := by decide
  rw [events] at run
  unfold Answerable
  rcases earlier with _ | ⟨first, _ | ⟨second, _ | ⟨third, rest⟩⟩⟩
  · obtain ⟨rfl, _⟩ := List.cons.inj run
    decide
  · obtain ⟨rfl, rfl, _⟩ := run
    decide
  · obtain ⟨rfl, rfl, rfl, _⟩ := run
    decide
  · simp at run

/-- Two simple queries in one packet. -/
def pipeliningClient : List Turn :=
  [⟨.idle, false, some (.plain .query)⟩, ⟨.pending, false, some (.plain .query)⟩,
    ⟨.idle, false, none⟩]

/-- Both queries are processed, but there is only one ReadyForQuery. -/
theorem not_accounted_pipeliningClient :
    (exchanges (mainLoop .initial pipeliningClient)).map (fun exchange =>
        (exchange.message.type, exchange.processed, exchange.ready)) =
      [(.query, true, false), (.query, true, true)] ∧
    ¬ Accounted (exchanges (mainLoop .initial pipeliningClient)) := by
  refine ⟨by decide, fun accounted => ?_⟩
  exact absurd accounted.counts (by decide)

/-! ## Failures -/

/-- The messages that were read, and whether they were processed. -/
def reads (events : List Event) : List (Message × Bool) :=
  events.filterMap fun event =>
    match event with
    | .polled _ _ => none
    | .message message processed => some (message, processed)

/-- A message of an extended query that cannot be read or whose handler fails. -/
def Message.fails (message : Message) : Bool :=
  message.type.isExtended && (message.unreadable || message.result != 0)

/-- What the loop takes for a failure is one. -/
theorem Message.fails_of_setsError (sets : message.setsError = true) :
    message.fails = true := by
  obtain ⟨extended, reported⟩ := Bool.and_eq_true_iff.mp sets
  refine Bool.and_eq_true_iff.mpr ⟨extended, Bool.or_eq_true_iff.mpr ?_⟩
  rcases Bool.or_eq_true_iff.mp reported with unreadable | isOne
  · exact Or.inl unreadable
  · exact Or.inr (by simp [eq_of_beq isOne])

/-- Everything is processed up to the next failure. -/
def ProcessedUntilFailure : List (Message × Bool) → Prop
  | [] => True
  | (message, processed) :: rest =>
    processed = true ∧ (message.fails = true ∨ ProcessedUntilFailure rest)

/-- Nothing is processed up to the next Sync, and then everything is up to the next failure. -/
def DiscardedUntilSync : List (Message × Bool) → Prop
  | [] => True
  | (message, processed) :: rest =>
    if message.type = .sync then processed = true ∧ ProcessedUntilFailure rest
    else processed = false ∧ DiscardedUntilSync rest

/-- The messages are read by a loop with the given local variables. -/
def LoopState.Reads (state : LoopState) : List (Message × Bool) → Prop
  | [] => True
  | (message, processed) :: rest =>
    state.terminated = false ∧ processed = !state.discards message ∧
      (state.read message).Reads rest

theorem reads_reads (turns : List Turn) (state : LoopState) :
    state.Reads (reads (mainLoop state turns)) := by
  induction turns generalizing state with
  | nil => trivial
  | cons turn rest ih =>
    cases isTerminated : state.terminated with
    | true =>
      rw [mainLoop, if_pos isTerminated]
      trivial
    | false =>
      rcases mainLoop_cons state turn rest with left | ⟨pending, polls⟩
      · rw [left]
        trivial
      · rw [polls]
        cases turn.message with
        | none => trivial
        | some message => exact ⟨isTerminated, rfl, ih _⟩

/-- A client that sends everything in one packet. -/
def packet (messages : List (Message × Bool)) : List Turn :=
  messages.map fun message => ⟨.pending, false, some message.1⟩

theorem reads_packet (isRead : state.Reads messages) :
    reads (mainLoop state (packet messages)) = messages := by
  induction messages generalizing state with
  | nil => rfl
  | cons entry rest ih =>
    obtain ⟨message, processed⟩ := entry
    obtain ⟨running, rfl, later⟩ := isRead
    have tail := ih later
    simp only [packet, reads] at tail ⊢
    rw [map_cons, mainLoop]
    simp [running, tail]

/-- The local variables after some messages. -/
def LoopState.afterReading (state : LoopState) (messages : List (Message × Bool)) : LoopState :=
  messages.foldl (fun state message => state.read message.1) state

theorem LoopState.reads_append {rest : List (Message × Bool)} :
    state.Reads (messages ++ rest) ↔
      state.Reads messages ∧ (state.afterReading messages).Reads rest := by
  induction messages generalizing state with
  | nil => simp [Reads, afterReading]
  | cons entry messages ih =>
    simp only [cons_append, Reads, ih, afterReading, foldl_cons, and_assoc]

theorem LoopState.Reads.processedUntilFailure (isRead : state.Reads messages)
    (noError : state.extendedQueryError = false) : ProcessedUntilFailure messages := by
  induction messages generalizing state with
  | nil => trivial
  | cons entry rest ih =>
    obtain ⟨message, processed⟩ := entry
    obtain ⟨_, rfl, later⟩ := isRead
    refine ⟨by simp [discards, noError], ?_⟩
    cases fails : message.fails with
    | true => exact Or.inl rfl
    | false =>
      right
      apply ih later
      rw [extendedQueryError_read, noError]
      have noSet : message.setsError = false := by
        by_contra sets
        rw [Message.fails_of_setsError (Bool.of_not_eq_false sets)] at fails
        cases fails
      simp [noSet]

theorem LoopState.Reads.discardedUntilSync (isRead : state.Reads messages)
    (error : state.extendedQueryError = true) : DiscardedUntilSync messages := by
  induction messages generalizing state with
  | nil => trivial
  | cons entry rest ih =>
    obtain ⟨message, processed⟩ := entry
    obtain ⟨_, rfl, later⟩ := isRead
    rw [DiscardedUntilSync]
    split
    case isTrue isSync =>
      refine ⟨by simp [discards, isSync], later.processedUntilFailure ?_⟩
      simp [extendedQueryError_read, isSync]
    case isFalse notSync =>
      refine ⟨by simp [discards, error, notSync], ih later ?_⟩
      simp [extendedQueryError_read, error, notSync]

/-- A message of an extended query was processed. -/
theorem LoopState.Reads.state_after {earlier : List (Message × Bool)}
    (isRead : initial.Reads (earlier ++ [(message, true)])) (fails : message.fails = true) :
    let state := initial.afterReading (earlier ++ [(message, true)])
    state.extendedQueryError = (message.unreadable || message.result == 1) ∧
      state.terminated = false := by
  obtain ⟨_, running, processed, _⟩ := reads_append.mp isRead
  have extended : message.type.isExtended = true := (Bool.and_eq_true_iff.mp fails).1
  have notSync : message.type ≠ .sync := by
    intro isSync
    rw [isSync] at extended
    cases extended
  have noError : (initial.afterReading earlier).extendedQueryError = false := by
    simpa [discards, notSync] using processed
  have after : initial.afterReading (earlier ++ [(message, true)]) =
      (initial.afterReading earlier).read message := by
    simp [afterReading]
  rw [after]
  constructor
  · simp [extendedQueryError_read, noError, notSync, Message.setsError, extended]
  · rw [terminated_read]
    · exact running
    · intro isTerminate
      rw [isTerminate] at extended
      cases extended

/-- After a message of an extended query has failed, every run discards what follows up to the next
Sync, and processes messages again behind it, if and only if the failure was that the message could
not be read or that its handler returned 1. -/
theorem discardedUntilSync_iff {earlier : List (Message × Bool)} {message : Message}
    (run : ∃ turns, reads (mainLoop .initial turns) = earlier ++ [(message, true)])
    (fails : message.fails = true) :
    (∀ turns later, reads (mainLoop .initial turns) = earlier ++ (message, true) :: later →
        DiscardedUntilSync later) ↔
      message.unreadable = true ∨ message.result = 1 := by
  obtain ⟨begun, run⟩ := run
  have isRead : initial.Reads (earlier ++ [(message, true)]) := by
    rw [← run]
    exact reads_reads begun .initial
  obtain ⟨error, running⟩ := isRead.state_after fails
  constructor
  · intro discarded
    by_contra unseen
    have noError : (initial.afterReading
        (earlier ++ [(message, true)])).extendedQueryError = false := by
      rw [error]
      simpa using unseen
    -- A Query that follows is processed.
    have continued : initial.Reads
        ((earlier ++ [(message, true)]) ++ [(.plain .query, true)]) := by
      refine reads_append.mpr ⟨isRead, running, ?_, trivial⟩
      simp [LoopState.discards, noError]
    have next := discarded (packet _) [(.plain .query, true)] (by
      rw [reads_packet continued]
      simp)
    simp [DiscardedUntilSync, Message.plain] at next
  · intro seen turns later isRun
    have isError : (initial.afterReading
        (earlier ++ [(message, true)])).extendedQueryError = true := by
      rw [error]
      simpa using seen
    have all : initial.Reads ((earlier ++ [(message, true)]) ++ later) := by
      rw [append_assoc, singleton_append, ← isRun]
      exact reads_reads turns .initial
    exact (reads_append.mp all).2.discardedUntilSync isError

/-- Parse and Execute, of which the second one fails with the given value. -/
def failingExecute (result : Int) : List (Message × Bool) :=
  [(.plain .parse, true), ({ Message.plain .execute with result := result }, true)]

theorem discardedUntilSync_failingExecute :
    reads (mainLoop .initial (packet (failingExecute 1))) = failingExecute 1 ∧
      ∀ turns later, reads (mainLoop .initial turns) = failingExecute 1 ++ later →
        DiscardedUntilSync later := by
  refine ⟨by decide, ?_⟩
  intro turns later run
  have begun : reads (mainLoop .initial (packet (failingExecute 1))) =
      [(.plain .parse, true)] ++ [({ Message.plain .execute with result := 1 }, true)] := by decide
  exact (discardedUntilSync_iff ⟨_, begun⟩ (by decide)).mpr (Or.inr rfl) turns later run

/-- An Execute that was canceled returns -1, and the Execute behind it is processed. -/
theorem not_discardedUntilSync_canceledExecute :
    reads (mainLoop .initial (packet (failingExecute (-1) ++ [(.plain .execute, false)]))) =
        failingExecute (-1) ++ [(.plain .execute, true)] ∧
      ¬ DiscardedUntilSync [(.plain .execute, true)] := by
  refine ⟨by decide, ?_⟩
  simp [DiscardedUntilSync, Message.plain]

end Octo.Rocto
