import TitoOS.Lib.Transition

/-!
# The bounded reader

`_BoundedReader` (`shell.py`): a thread that reads a child's pipe to its end and
keeps no more than a limit of it. The buffer is only touched under a lock, so
keeping a chunk is one step of the thread, and `text` can be looked at between
any two.
-/

namespace TitoOS

/-- What reading a pipe raises that was closed. -/
inductive StreamError where
  | OSError
  | ValueError
  deriving DecidableEq

/-- Where the thread is. -/
inductive ReaderPhase where
  /-- It is in `self._stream.read(_CHUNK)`. -/
  | reading
  /-- It has read a chunk, and has yet to take the lock. -/
  | holding (chunk : String)
  | ended
  deriving DecidableEq

/-- `_BoundedReader`. The driver refuses a limit that is not positive. -/
structure BoundedReader where
  limit : Int
  limit_pos : 0 < limit
  chunks : List String := []
  kept : Int := 0
  phase : ReaderPhase := .reading

/-- A step of the thread: a read of the stream, with what it is answered, or the
block under the lock. -/
inductive ReaderStep where
  | read (answer : Except StreamError String)
  | keep
  deriving DecidableEq

namespace BoundedReader

/-- `text`. -/
def text (r : BoundedReader) : String := String.join r.chunks

/-- The block under the lock. -/
def keep (r : BoundedReader) (chunk : String) : BoundedReader :=
  let room := r.limit - r.kept
  if room > 0 then
    let kept := String.ofList (chunk.toList.take room.toNat)
    { r with chunks := r.chunks ++ [kept], kept := r.kept + kept.length }
  else r

/-- `run`, step by step. -/
def next (r : BoundedReader) : ReaderStep → Option BoundedReader
  | .read answer =>
    match r.phase, answer with
    | .reading, .ok chunk =>
      some { r with phase := if chunk = "" then .ended else .holding chunk }
    -- the pipe was closed under us
    | .reading, .error _ => some { r with phase := .ended }
    | _, _ => none
  | .keep =>
    match r.phase with
    | .holding chunk => some { r.keep chunk with phase := .reading }
    | _ => none

/-- The steps of the thread. -/
abbrev Steps (r : BoundedReader) (steps : List ReaderStep) (r' : BoundedReader) : Prop :=
  Runs (fun r s r' => r.next s = some r') r steps r'

/-- The reader as it is constructed. -/
def start (limit : Int) (h : 0 < limit) : BoundedReader := { limit, limit_pos := h }

end BoundedReader

/-! ## The stream -/

/-- The answers of the stream. -/
def ReaderStep.answer? : ReaderStep → Option (Except StreamError String)
  | read answer => some answer
  | keep => none

/-- The answer ends the stream. -/
def endsStream : Except StreamError String → Bool
  | .ok chunk => chunk = ""
  | .error _ => true

/-- The chunk in an answer. -/
def chunk? : Except StreamError String → Option String
  | .ok chunk => if chunk = "" then none else some chunk
  | .error _ => none

/-- All that the stream has been asked for, and answered. -/
def answers (steps : List ReaderStep) : List (Except StreamError String) :=
  steps.filterMap ReaderStep.answer?

/-- The chunks that were read. -/
def received (steps : List ReaderStep) : List String := (answers steps).filterMap chunk?

/-- The chunks that went through the block under the lock. -/
def processed (steps : List ReaderStep) : List String :=
  (received steps).take (steps.count .keep)

@[simp] theorem answers_append (steps steps' : List ReaderStep) :
    answers (steps ++ steps') = answers steps ++ answers steps' := List.filterMap_append

@[simp] theorem answers_keep : answers [.keep] = [] := rfl

@[simp] theorem answers_read (answer : Except StreamError String) :
    answers [.read answer] = [answer] := rfl

@[simp] theorem received_append (steps steps' : List ReaderStep) :
    received (steps ++ steps') = received steps ++ received steps' := by
  simp [received]

@[simp] theorem received_keep : received [.keep] = [] := rfl

theorem received_read (answer : Except StreamError String) :
    received [.read answer] = (chunk? answer).toList := by
  cases h : chunk? answer <;> simp [received, h]

theorem chunk?_of_endsStream {answer : Except StreamError String} (h : endsStream answer = true) :
    chunk? answer = none := by
  cases answer with
  | error => rfl
  | ok chunk => simpa [chunk?, endsStream] using h

/-! ## What is kept -/

namespace BoundedReader

variable {r r' : BoundedReader} {steps : List ReaderStep} {limit : Int}

/-- As much of a chunk is kept as there is room for. -/
theorem keep_of_room (h : r.limit - r.kept > 0) (chunk : String) :
    r.keep chunk = { r with
      chunks := r.chunks ++ [String.ofList (chunk.toList.take (r.limit - r.kept).toNat)]
      kept := r.kept + (String.ofList (chunk.toList.take (r.limit - r.kept).toNat)).length } := by
  simp only [keep, if_pos h]

theorem keep_of_full (h : ¬r.limit - r.kept > 0) (chunk : String) : r.keep chunk = r := by
  simp only [keep, if_neg h]

theorem limit_keep (r : BoundedReader) (chunk : String) : (r.keep chunk).limit = r.limit := by
  by_cases h : r.limit - r.kept > 0
  · rw [keep_of_room h]
  · rw [keep_of_full h]

/-- What a step of the thread is. -/
theorem next_cases {step : ReaderStep} (h : r.next step = some r') :
    (∃ chunk, step = .read (.ok chunk) ∧ chunk ≠ "" ∧ r.phase = .reading
      ∧ r' = { r with phase := .holding chunk })
    ∨ (∃ answer, step = .read answer ∧ endsStream answer = true ∧ r.phase = .reading
      ∧ r' = { r with phase := .ended })
    ∨ ∃ chunk, step = .keep ∧ r.phase = .holding chunk
      ∧ r' = { r.keep chunk with phase := .reading } := by
  cases step with
  | keep =>
    cases hphase : r.phase with
    | reading | ended => simp [next, hphase] at h
    | holding chunk => exact .inr (.inr ⟨chunk, rfl, rfl, by simpa [next, hphase] using h.symm⟩)
  | read answer =>
    cases hphase : r.phase with
    | holding | ended => simp [next, hphase] at h
    | reading =>
      cases answer with
      | error x => exact .inr (.inl ⟨_, rfl, rfl, rfl, by simpa [next, hphase] using h.symm⟩)
      | ok chunk =>
        by_cases hempty : chunk = ""
        · subst hempty
          exact .inr (.inl ⟨_, rfl, rfl, rfl, by simpa [next, hphase] using h.symm⟩)
        · exact .inl ⟨chunk, rfl, hempty, rfl, by simpa [next, hphase, hempty] using h.symm⟩

/-- The buffer is as much of `content` as the limit allows. -/
structure Holds (r : BoundedReader) (content : List Char) : Prop where
  text : r.text.toList = content.take r.limit.toNat
  kept : r.kept = r.text.length

/-- **One chunk more**: the room that is left is what the limit allows of it. -/
theorem Holds.keep {content : List Char} (h : r.Holds content) (chunk : String) :
    (r.keep chunk).Holds (content ++ chunk.toList) := by
  have hpos := r.limit_pos
  have hkept : r.kept = (content.take r.limit.toNat).length := by
    rw [h.kept, ← String.length_toList, h.text]
  rw [List.length_take] at hkept
  by_cases hroom : r.limit - r.kept > 0
  · -- all of the content has been kept so far
    have hroom' : (r.limit - r.kept).toNat = r.limit.toNat - content.length := by omega
    constructor
    · rw [limit_keep, List.take_append, ← hroom', ← h.text, keep_of_room hroom]
      simp [BoundedReader.text]
    · rw [keep_of_room hroom]
      simp [BoundedReader.text, h.kept]
  · -- the limit has been reached
    have hfull : r.limit.toNat - content.length = 0 := by omega
    rw [keep_of_full hroom]
    refine ⟨?_, h.kept⟩
    rw [h.text, List.take_append, hfull, List.take_zero, List.append_nil]

/-- The chunk that the thread has in its hands. -/
def pending (r : BoundedReader) : List String :=
  match r.phase with
  | .holding chunk => [chunk]
  | _ => []

/-- What holds of the reader after `steps`. -/
structure Follows (r : BoundedReader) (limit : Int) (steps : List ReaderStep) : Prop where
  limit_eq : r.limit = limit
  taken : received steps = processed steps ++ r.pending
  count : (processed steps).length = steps.count .keep
  holds : r.Holds (String.join (processed steps)).toList
  ended : r.phase = .ended ↔ ∃ answer ∈ answers steps, endsStream answer = true

theorem follows_start (h : 0 < limit) : (start limit h).Follows limit [] where
  limit_eq := rfl
  taken := rfl
  count := rfl
  holds := ⟨by simp [start, text, processed, received, answers], rfl⟩
  ended := by simp [start, answers]

/-- A read processes nothing. -/
theorem processed_read (h : r.Follows limit steps) (hphase : r.phase = .reading)
    (answer : Except StreamError String) :
    processed (steps ++ [.read answer]) = processed steps := by
  have hreceived := h.taken
  rw [pending, hphase, List.append_nil] at hreceived
  have hcount : (steps ++ [ReaderStep.read answer]).count .keep = (processed steps).length := by
    rw [h.count, List.count_append]
    rfl
  rw [processed, hcount, received_append, hreceived, List.take_left]

theorem Follows.read (h : r.Follows limit steps) (hphase : r.phase = .reading)
    (answer : Except StreamError String) {phase : ReaderPhase}
    (hreceived : ({ r with phase } : BoundedReader).pending = (chunk? answer).toList)
    (hended : phase = .ended ↔ endsStream answer = true) :
    ({ r with phase } : BoundedReader).Follows limit (steps ++ [.read answer]) := by
  have hprocessed := processed_read h hphase answer
  have hrest : ∀ answer ∈ answers steps, endsStream answer ≠ true := by
    intro answer hmem hends
    have hended := h.ended.mpr ⟨answer, hmem, hends⟩
    rw [hphase] at hended
    cases hended
  constructor
  case limit_eq => exact h.limit_eq
  case taken =>
    rw [received_append, received_read, h.taken, hprocessed, hreceived, pending, hphase,
      List.append_nil]
  case count =>
    rw [hprocessed, h.count, List.count_append]
    rfl
  case holds => exact hprocessed ▸ ⟨h.holds.text, h.holds.kept⟩
  case ended =>
    rw [answers_append, answers_read]
    constructor
    · intro hphase
      exact ⟨answer, by simp, hended.mp hphase⟩
    · rintro ⟨last, hmem, hends⟩
      rcases List.mem_append.mp hmem with hmem | hmem
      · exact absurd hends (hrest last hmem)
      · rw [List.mem_singleton.mp hmem] at hends
        exact hended.mpr hends

theorem Follows.keep (h : r.Follows limit steps) {chunk : String}
    (hphase : r.phase = .holding chunk) :
    ({ r.keep chunk with phase := .reading } : BoundedReader).Follows limit (steps ++ [.keep]) := by
  have hreceived : received steps = processed steps ++ [chunk] := by
    rw [h.taken, pending, hphase]
  have hprocessed : processed (steps ++ [.keep]) = processed steps ++ [chunk] := by
    have hcount : (steps ++ [ReaderStep.keep]).count .keep = (received steps).length := by
      rw [List.count_append, ← h.count, hreceived, List.length_append]
      rfl
    rw [processed, hcount, received_append, received_keep, List.append_nil, List.take_length,
      hreceived]
  constructor
  case limit_eq => exact (r.limit_keep chunk).trans h.limit_eq
  case taken =>
    rw [received_append, received_keep, hprocessed, hreceived]
    rfl
  case count =>
    rw [hprocessed, List.length_append, h.count, List.count_append]
    rfl
  case holds =>
    have hkeep := h.holds.keep chunk
    rw [hprocessed, String.join_append, String.toList_append, String.join_cons, String.join_nil,
      String.append_empty]
    exact ⟨hkeep.text, hkeep.kept⟩
  case ended =>
    rw [answers_append, answers_keep, List.append_nil, ← h.ended, hphase]
    exact ⟨nofun, nofun⟩

/-- **A step of the thread.** -/
theorem Follows.next (h : r.Follows limit steps) {step : ReaderStep}
    (hnext : r.next step = some r') : r'.Follows limit (steps ++ [step]) := by
  rcases next_cases hnext with ⟨chunk, rfl, hchunk, hphase, rfl⟩ | ⟨answer, rfl, hends, hphase, rfl⟩
    | ⟨chunk, rfl, hphase, rfl⟩
  · exact h.read hphase _ (by simp [chunk?, hchunk, pending]) (by simp [endsStream, hchunk])
  · exact h.read hphase _ (by rw [chunk?_of_endsStream hends]; rfl) (by simp [hends])
  · exact h.keep hphase

theorem follows_of_steps (hlimit : 0 < limit) (h : (start limit hlimit).Steps steps r) :
    r.Follows limit steps :=
  Runs.invariant_history (I := fun steps r => r.Follows limit steps)
    (fun _ _ _ _ hfollows hnext => hfollows.next hnext) h (follows_start hlimit)

/-! ## To the end of the stream -/

/-- A thread that has not ended takes whatever the stream answers, or is about to
ask it. -/
theorem goes_on (hphase : r.phase ≠ .ended) :
    (∃ r', r.next .keep = some r' ∧ r'.phase = .reading)
    ∨ ∀ answer, ∃ r', r.next (.read answer) = some r' := by
  cases h : r.phase with
  | ended => exact absurd h hphase
  | holding chunk =>
    exact .inl ⟨{ r.keep chunk with phase := .reading }, by simp [next, h], rfl⟩
  | reading =>
    right
    intro answer
    rw [← Option.isSome_iff_exists]
    cases answer with
    | ok | error => simp [next, h]

/-- A stream of chunks is read to its end. -/
theorem reads_to_end {chunks : List String} (hchunks : ∀ chunk ∈ chunks, chunk ≠ "")
    {last : Except StreamError String} (hlast : endsStream last = true)
    (hphase : r.phase = .reading) :
    ∃ steps r', r.Steps steps r' ∧ r'.phase = .ended
      ∧ answers steps = chunks.map .ok ++ [last] := by
  induction chunks generalizing r with
  | nil =>
    have hnext : r.next (.read last) = some { r with phase := .ended } := by
      cases last with
      | error => simp [next, hphase]
      | ok chunk => simp [next, hphase, show chunk = "" by simpa [endsStream] using hlast]
    exact ⟨[.read last], _, Runs.nil.snoc hnext, rfl, rfl⟩
  | cons chunk rest ih =>
    have hread : r.next (.read (.ok chunk)) = some { r with phase := .holding chunk } := by
      simp [next, hphase, hchunks chunk]
    have hkeep : ({ r with phase := .holding chunk } : BoundedReader).next .keep
        = some { { r with phase := .holding chunk }.keep chunk with phase := .reading } := rfl
    obtain ⟨steps, r', hsteps, hended, hanswers⟩ :=
      ih (r := { { r with phase := .holding chunk }.keep chunk with phase := .reading })
        (fun chunk hchunk => hchunks chunk (List.mem_cons_of_mem _ hchunk)) rfl
    refine ⟨.read (.ok chunk) :: .keep :: steps, r', .cons hread (.cons hkeep hsteps), hended, ?_⟩
    rw [show ReaderStep.read (.ok chunk) :: .keep :: steps
        = [.read (.ok chunk)] ++ ([.keep] ++ steps) from rfl, answers_append, answers_append,
      answers_read, answers_keep, hanswers]
    rfl

end BoundedReader

/-- What has been captured of a stream, at some point of the thread. -/
structure Captured (limit : Int) (steps : List ReaderStep) (r : BoundedReader) : Prop where
  /-- As much as the limit allows of the chunks processed so far. -/
  text : r.text.toList = (String.join (processed steps)).toList.take limit.toNat
  kept_eq : r.kept = r.text.length
  kept_le : r.kept ≤ limit
  /-- The thread goes on until the stream ends, whatever has been kept. -/
  goes_on : r.phase ≠ .ended → (∃ r', r.next .keep = some r' ∧ r'.phase = .reading)
    ∨ ∀ answer, ∃ r', r.next (.read answer) = some r'
  ended_iff : r.phase = .ended ↔ ∃ answer ∈ answers steps, endsStream answer = true
  /-- In the end every chunk has been processed. -/
  complete : r.phase = .ended → processed steps = received steps

open BoundedReader in
/-- **The capture is the exact beginning of the stream.** At every point of the
thread the text is as much of the chunks processed so far as the limit allows;
the thread reads every stream to its end; and two streams with one content are
captured alike, however they were cut into chunks. -/
theorem bounded_capture {limit : Int} (hlimit : 0 < limit) :
    (∀ steps r, (start limit hlimit).Steps steps r → Captured limit steps r)
    ∧ (∀ (chunks : List String) last, (∀ chunk ∈ chunks, chunk ≠ "") → endsStream last = true →
        ∃ steps r, (start limit hlimit).Steps steps r ∧ r.phase = .ended
          ∧ answers steps = chunks.map .ok ++ [last])
    ∧ ∀ steps r steps' r', (start limit hlimit).Steps steps r →
        (start limit hlimit).Steps steps' r' → r.phase = .ended → r'.phase = .ended →
        String.join (received steps) = String.join (received steps') → r.text = r'.text := by
  have hcaptured : ∀ steps r, (start limit hlimit).Steps steps r → Captured limit steps r := by
    intro steps r hsteps
    have h := follows_of_steps hlimit hsteps
    have htext : r.text.toList = (String.join (processed steps)).toList.take limit.toNat := by
      rw [h.holds.text, h.limit_eq]
    have hlength : r.text.length ≤ limit.toNat := by
      rw [← String.length_toList, htext]
      exact List.length_take_le _ _
    exact
      { text := htext
        kept_eq := h.holds.kept
        kept_le := by rw [h.holds.kept]; omega
        goes_on := goes_on
        ended_iff := h.ended
        complete := by
          intro hphase
          rw [h.taken, pending, hphase, List.append_nil] }
  refine ⟨hcaptured, fun chunks last hchunks hlast => reads_to_end hchunks hlast rfl, ?_⟩
  intro steps r steps' r' hsteps hsteps' hphase hphase' hcontent
  have h := hcaptured steps r hsteps
  have h' := hcaptured steps' r' hsteps'
  rw [← String.toList_inj, h.text, h'.text, h.complete hphase, h'.complete hphase', hcontent]

/-- The limit falls on the boundary of two chunks, and a third is cut off. -/
theorem bounded_capture_boundary :
    ∃ r, (BoundedReader.start 4 (by decide)).Steps
        [.read (.ok "ab"), .keep, .read (.ok "cd"), .keep, .read (.ok "ef"), .keep,
          .read (.error .ValueError)] r
      ∧ r.text.toList = "abcd".toList := by
  obtain ⟨r, hsteps⟩ : ∃ r, (BoundedReader.start 4 (by decide)).Steps
      [.read (.ok "ab"), .keep, .read (.ok "cd"), .keep, .read (.ok "ef"), .keep,
        .read (.error .ValueError)] r :=
    ⟨_, .cons rfl (.cons rfl (.cons rfl (.cons rfl (.cons rfl (.cons rfl (.cons rfl .nil))))))⟩
  exact ⟨r, hsteps, ((bounded_capture (by decide)).1 _ _ hsteps).text.trans (by decide)⟩

end TitoOS
