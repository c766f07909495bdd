import TwinGraph.Client.Session
import Mathlib.Data.List.Basic

/-! Streams of items, pull by pull. The caller can cancel between any two pulls. The answers to the
pulls are the items that the client makes of the rows, up to the pull that ends the stream. -/
namespace TwinGraph

def Results.ofRows (rows : List Row) (failure : Option StoreError) : Results :=
  rows.map Except.ok ++ failure.toList.map Except.error

inductive StreamEvent where
  | cancel
  | pull
  deriving DecidableEq, Repr

/-- What the store has still to tell, or nothing once an item has ended the stream. -/
structure ItemStream where
  pending : Option Results
  cancelled : Bool

def cancelPoint : List StreamEvent → Option Nat
  | [] => none
  | .cancel :: _ => some 0
  | .pull :: events => (cancelPoint events).map (· + 1)

namespace ItemStream

variable {α : Type} (decodeRow : Row → Except ClientError α)

def start (results : Results) : ItemStream := ⟨some results, false⟩

/-- The next item and the stream behind it, or nothing at the end. A cancellation is looked for
before anything is taken from the store. -/
def pull (stream : ItemStream) : Option (Except ClientError α × ItemStream) :=
  match stream.pending with
  | none => none
  | some results =>
    if stream.cancelled then some (.error .cancelled, { stream with pending := none })
    else
      match results with
      | [] => none
      | .error e :: _ => some (.error (.store e), { stream with pending := none })
      | .ok row :: rest => some (decodeRow row, { stream with pending := some rest })

def answers (stream : ItemStream) : List StreamEvent → List (Option (Except ClientError α))
  | [] => []
  | .cancel :: events => answers { stream with cancelled := true } events
  | .pull :: events =>
    match stream.pull decodeRow with
    | none => [none]
    | some (item, rest) => some item :: rest.answers events

theorem answers_ended (cancelled : Bool) (events : List StreamEvent) :
    (ItemStream.mk none cancelled).answers decodeRow events =
      [none].take (events.count StreamEvent.pull) := by
  induction events generalizing cancelled with
  | nil => rfl
  | cons event events ih =>
    cases event with
    | cancel => exact ih true
    | pull => simp [answers, pull]

theorem answers_cancelled (results : Results) (events : List StreamEvent) :
    (ItemStream.mk (some results) true).answers decodeRow events =
      [some (.error .cancelled), none].take (events.count StreamEvent.pull) := by
  induction events with
  | nil => rfl
  | cons event events ih =>
    cases event with
    | cancel => exact ih
    | pull => simp [answers, pull, answers_ended]

theorem answers_start (results : Results) (events : List StreamEvent) :
    (start results).answers decodeRow events =
      ((Client.decodeRows decodeRow (cancelPoint events) results).map some ++ [none]).take
        (events.count StreamEvent.pull) := by
  -- on the events; the stream that is left behind a row is again one that was just started
  induction events generalizing results with
  | nil => rfl
  | cons event events ih =>
    cases event with
    | cancel =>
      have hcancelled : Client.decodeRows decodeRow (some 0) results = [.error .cancelled] := by
        rw [Client.decodeRows]
      rw [cancelPoint, hcancelled]
      exact answers_cancelled decodeRow results events
    | pull =>
      rw [cancelPoint, List.count_cons_self, answers]
      cases results with
      | nil =>
        have hnone : Client.decodeRows decodeRow ((cancelPoint events).map (· + 1)) [] = [] := by
          cases cancelPoint events <;> rfl
        rw [hnone, List.map_nil, List.nil_append, List.take_succ_cons, List.take_nil]
        rfl
      | cons result rest =>
        cases result with
        | error e =>
          have herror : Client.decodeRows decodeRow ((cancelPoint events).map (· + 1))
              (.error e :: rest) = [.error (.store e)] := by
            cases cancelPoint events <;> rfl
          rw [herror]
          exact congrArg (some (.error (.store e)) :: ·) (answers_ended decodeRow false events)
        | ok row =>
          have hok : Client.decodeRows decodeRow ((cancelPoint events).map (· + 1))
              (.ok row :: rest) =
                decodeRow row :: Client.decodeRows decodeRow (cancelPoint events) rest := by
            cases cancelPoint events <;> rfl
          rw [hok]
          exact congrArg (some (decodeRow row) :: ·) (ih rest)

end ItemStream

namespace Client

variable {α : Type} (decodeRow : Row → Except ClientError α)

theorem decodeRows_ofRows (rows : List Row) (failure : Option StoreError) :
    decodeRows decodeRow none (.ofRows rows failure) =
      rows.map decodeRow ++ failure.toList.map fun e => .error (.store e) := by
  induction rows with
  | nil => cases failure <;> rfl
  | cons row rows ih => exact congrArg (decodeRow row :: ·) ih

/-- A cancellation counts as long as not more items were pulled than there are rows. -/
theorem decodeRows_cancelled (rows : List Row) (failure : Option StoreError) (k : Nat) :
    decodeRows decodeRow (some k) (.ofRows rows failure) =
      if k ≤ rows.length then (rows.take k).map decodeRow ++ [.error .cancelled]
      else decodeRows decodeRow none (.ofRows rows failure) := by
  induction rows generalizing k with
  | nil =>
    cases k with
    | zero => cases failure <;> rfl
    | succ k => cases failure <;> rfl
  | cons row rows ih =>
    cases k with
    | zero => rfl
    | succ k =>
      have hstep : decodeRows decodeRow (some (k + 1)) (.ofRows (row :: rows) failure) =
          decodeRow row :: decodeRows decodeRow (some k) (.ofRows rows failure) := rfl
      rw [hstep, ih k, List.length_cons]
      by_cases hk : k ≤ rows.length
      · rw [if_pos hk, if_pos (by omega)]
        rfl
      · rw [if_neg hk, if_neg (by omega)]
        rfl

end Client

/-- The items of a stream are those of the rows in order, up to the cancellation or the error of the
store, which is the last item. However pulls and a cancellation follow on each other, these items
are the answers, and then the stream ends. -/
theorem ItemStream.items_are_exact_prefixes {α : Type} (decodeRow : Row → Except ClientError α)
    (rows : List Row) (failure : Option StoreError) :
    Client.decodeRows decodeRow none (.ofRows rows failure) =
      rows.map decodeRow ++ failure.toList.map (fun e => .error (.store e)) ∧
    (∀ k, Client.decodeRows decodeRow (some k) (.ofRows rows failure) =
      if k ≤ rows.length then (rows.take k).map decodeRow ++ [.error .cancelled]
      else Client.decodeRows decodeRow none (.ofRows rows failure)) ∧
    ∀ events, (start (.ofRows rows failure)).answers decodeRow events =
      ((Client.decodeRows decodeRow (cancelPoint events) (.ofRows rows failure)).map some ++
        [none]).take (events.count StreamEvent.pull) := by
  refine ⟨Client.decodeRows_ofRows decodeRow rows failure, ?_, ?_⟩
  · exact Client.decodeRows_cancelled decodeRow rows failure
  · exact answers_start decodeRow (.ofRows rows failure)

example (first second third : Row) (e : StoreError) :
    (ItemStream.start (.ofRows [first, second, third] (some e))).answers (fun row => .ok row.record)
        [.pull, .pull, .cancel, .pull, .pull] =
      [some (.ok first.record), some (.ok second.record), some (.error .cancelled), none] := by
  rfl

end TwinGraph
