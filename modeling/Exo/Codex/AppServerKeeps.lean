import Mathlib.Data.List.TakeWhile
import Exo.Codex.AppServer

/-!
# What the client keeps of the messages

The lines of the output are the same however it is cut, so the messages handled and those still to
read are always the messages of the output.
-/

namespace Exo.Codex

open Library List

variable {Value : Type} {json : Json Value}

/-- The lines that have something in them, with the text after the last newline. -/
def lines (text : Text) : List Text :=
  (((breakLines '\n' [] text).1.map fun line ↦ dropReturn line.dropLast).filter (· ≠ [])) ++
    if blank (breakLines '\n' [] text).2 then [] else [(breakLines '\n' [] text).2]

/-- The messages on the lines of a text. -/
def messages (json : Json Value) (text : Text) : List (Message Value) :=
  (lines text).filterMap fun line ↦
    match json.parse line with
    | .message message => some message
    | _ => none

/-- Every line is a JSON message. -/
def Wellformed (json : Json Value) (text : Text) : Prop :=
  ∀ line ∈ lines text, ∃ message, json.parse line = .message message

variable {text line : Text}

theorem firstLine_eq_some {rest : Text} (hfirst : firstLine text = some (line, rest)) :
    text = line ++ '\n' :: rest ∧ '\n' ∉ line := by
  unfold firstLine at hfirst
  cases hdrop : text.dropWhile (· != '\n') with
  | nil =>
    rw [hdrop] at hfirst
    cases hfirst
  | cons c after =>
    rw [hdrop] at hfirst
    obtain ⟨rfl, rfl⟩ := Prod.mk.inj (Option.some.inj hfirst)
    have hc : c = '\n' := by
      have hhead := head_dropWhile_not (· != '\n') (by rw [hdrop]; exact cons_ne_nil c after)
      simpa [hdrop] using hhead
    subst hc
    refine ⟨?_, ?_⟩
    · rw [← hdrop]
      exact (takeWhile_append_dropWhile ..).symm
    · intro hmem
      simpa using mem_takeWhile_imp hmem

theorem firstLine_eq_none (hfirst : firstLine text = none) : '\n' ∉ text := by
  unfold firstLine at hfirst
  cases hdrop : text.dropWhile (· != '\n') with
  | cons c after =>
    rw [hdrop] at hfirst
    cases hfirst
  | nil =>
    have hall := dropWhile_eq_nil_iff.1 hdrop
    intro hmem
    simpa using hall '\n' hmem

theorem lines_cons (hline : '\n' ∉ line) (rest : Text) : lines (line ++ '\n' :: rest) =
      (if dropReturn line = [] then [] else [dropReturn line]) ++ lines rest := by
  unfold lines
  rw [breakLines_line hline]
  by_cases hempty : dropReturn line = [] <;> simp [hempty]

theorem lines_of_not_mem (htext : '\n' ∉ text) :
    lines text = if blank text then [] else [text] := by
  unfold lines
  rw [breakLines_of_not_mem [] htext]
  simp

/-- The message that was taken from the output and not handled. -/
def ReadLoop.unread : ReadLoop Value → List (Message Value)
  | .recording message | .stopped (some message) => [message]
  | _ => []

/-- The request that is being answered. -/
def ReadLoop.unanswered : ReadLoop Value → List (Message Value)
  | .answering message | .replying message => [message]
  | _ => []

namespace AppServer

/-- The messages that were handled and not dropped. -/
def kept (state : AppServer Value) : List (Message Value) :=
  state.handled.filterMap fun entry ↦ if entry.2 then none else some entry.1

section
variable (json : Json Value) (state : AppServer Value)

/-- What the consumer is to see of the messages handled so far. -/
def notifications : List (Notification Value) :=
  state.kept.filterMap (Message.notification json)

/-- The messages that the client still has to handle. -/
def unread (json : Json Value) (state : AppServer Value) : List (Message Value) :=
  state.loop.unread ++ messages json (state.buffered ++ state.rest)

/-- Nothing is left that the consumer is to see. -/
def Delivered : Prop :=
  ∀ message ∈ state.unread json, message.notification json = none

/-- The message is a request that the client sent. -/
def Repeats (message : Message Value) : Prop :=
  ∃ id call, state.calls id = some call ∧ message = call.message json id

section
variable (state : AppServer Value)

/-- Every registered request waits for its response, so that a rejection has a handler. -/
def Attended : Prop :=
  ∀ id call, state.calls id = some call → call.registered = true → call.writing = .written

/-- The line that the next read takes. -/
def nextLine : Option Text :=
  match firstLine state.buffered with
  | some (line, _) => if dropReturn line = [] then none else some (dropReturn line)
  | none => if state.rest = [] ∧ blank state.buffered = false then some state.buffered else none

/-- The next read finds the end of stdout. -/
def AtEnd : Prop :=
  firstLine state.buffered = none ∧ state.rest = [] ∧ blank state.buffered = true

end

/-- The client may end here, with an error or without. -/
def MayEnd (clean : Bool) : Prop :=
  state.finished = true ∨
    (state.Delivered json ∧ state.Attended ∧ (clean = false → state.events.values = []))

end

end AppServer

/-- What the client promises of its messages, its requests and those of the server. -/
structure Keeps [DecidableEq Value] (json : Json Value) (output : Text) (state : AppServer Value) :
    Prop where
  /-- Every message of the output is handled, in order and once, or still to be handled. -/
  accounted : state.handled.map Prod.fst ++ state.unread json = messages json output
  /-- The consumer sees the notifications and requests in order and once. -/
  ordered : state.events.yielded <+: state.notifications json
  /-- It ends or throws only after the last of them. -/
  complete : state.events.consumer = .ended ∨ state.events.consumer = .threw →
    state.events.yielded = state.notifications json ∧ state.Delivered json
  /-- The end settles every request made before it. -/
  settled : state.finished = true → ∀ id call, state.calls id = some call → call.late = false →
    call.promise ≠ .unsettled
  /-- A response has the identifier of its request. -/
  own : ∀ id call response, state.calls id = some call → call.promise = .fulfilled response →
    response.id = some (json.ofNumber id)
  /-- A request made after the end does not wait for a response. -/
  late : ∀ id call, state.calls id = some call → call.late = true → call.writing ≠ .written
  /-- A promise that is rejected has a handler. -/
  handled : ∀ id call, state.calls id = some call → call.promise = .rejected →
    call.writing = .written
  /-- Every request of the server that was handled has its one answer, or it is being answered. -/
  answered : state.replies ++ state.loop.unanswered = state.kept.filter Message.isServerRequest
  /-- The end is reached, if only the server stops to write and its requests are handled. -/
  ends : ∃ labels, (appServer json).Admits state labels ∧
    ((appServer json).exec state labels).finished = true
  /-- What is dropped repeats a request of the client. -/
  echoes : ∀ message, (message, true) ∈ state.handled → state.Repeats json message

/-- A message is taken for an echo only if it is one; a response that settles a request has its
number, and its write has returned if it fails; neither the handler of requests nor the write of an
answer fails; a request made after the end is not written; and the client ends only where it may. -/
def Orderly [DecidableEq Value] (json : Json Value) (state : AppServer Value) :
    AppServerLabel Value → Prop
  | .read _ =>
    (∀ line message, state.nextLine = some line → json.parse line = .message message →
      state.isEchoedClientRequest json message = true → state.Repeats json message) ∧
    (state.AtEnd → state.MayEnd json true)
  | .record succeeds =>
    if succeeds then
      ∀ message id call, state.loop = .recording message → message.isResponse = true →
        state.pending json message = some (id, call) →
        message.id = some (json.ofNumber id) ∧ (message.fails json = true → call.writing = .written)
    else state.MayEnd json false
  | .handle succeeds | .reply succeeds => succeeds = true
  | .write id succeeds => ∀ call, state.calls id = some call → call.late = true → succeeds = false
  | .exit clean => state.MayEnd json (clean || state.closing)
  | .error => state.MayEnd json false
  | .request _ _ | .next | .close => True

structure Reads (json : Json Value) (output : Text) (state : AppServer Value) : Prop where
  pendingLine : state.pendingLine = []
  wellformed : Wellformed json (state.buffered ++ state.rest)
  accounted : state.handled.map Prod.fst ++ state.unread json = messages json output

/-- What a read does: it gets on in the output, it takes a message, or it finds the end. -/
theorem read_cases {state : AppServer Value} (hpending : state.pendingLine = [])
    (hwellformed : Wellformed json (state.buffered ++ state.rest)) (count : ℕ) :
    (∃ buffered rest, lines (buffered ++ rest) = lines (state.buffered ++ state.rest) ∧
      state.read json count = { state with buffered, rest }) ∨
    (∃ line message buffered rest, state.nextLine = some line ∧
      json.parse line = .message message ∧
      lines (state.buffered ++ state.rest) = line :: lines (buffered ++ rest) ∧
      state.read json count = { state with buffered, rest }.receive json message) ∨
    (state.AtEnd ∧ state.read json count = { state.finish with loop := .stopped none }) := by
  have htake (line : Text) (buffered rest : Text)
      (hlines : lines (state.buffered ++ state.rest) = line :: lines (buffered ++ rest)) :
      ∃ message, json.parse line = .message message ∧
        { state with buffered, rest }.takeLine json line =
          { state with buffered, rest }.receive json message := by
    obtain ⟨message, hmessage⟩ := hwellformed line (by rw [hlines]; exact mem_cons_self ..)
    refine ⟨message, hmessage, ?_⟩
    simp only [AppServer.takeLine, hpending, nil_append, hmessage]
  unfold AppServer.read AppServer.nextLine AppServer.AtEnd
  cases hfirst : firstLine state.buffered with
  | some split =>
    obtain ⟨line, after⟩ := split
    obtain ⟨hbuffered, hline⟩ := firstLine_eq_some hfirst
    have hlines := lines_cons hline (after ++ state.rest)
    rw [← cons_append, ← append_assoc, ← hbuffered] at hlines
    dsimp only
    by_cases hempty : dropReturn line = []
    · refine .inl ⟨after, state.rest, ?_, if_pos hempty⟩
      rw [hlines, if_pos hempty, nil_append]
    · rw [if_neg hempty, singleton_append] at hlines
      obtain ⟨message, hmessage, heq⟩ := htake _ _ _ hlines
      exact .inr (.inl ⟨dropReturn line, message, after, state.rest, if_neg hempty, hmessage,
        hlines, (if_neg hempty).trans heq⟩)
  | none =>
    have hnone := firstLine_eq_none hfirst
    dsimp only
    by_cases hrest : state.rest = []
    · by_cases hblank : blank state.buffered = true
      · refine .inr (.inr ⟨⟨rfl, hrest, hblank⟩, ?_⟩)
        rw [if_pos hrest, if_pos hblank]
        simp only [AppServer.endOfStream, hpending, blank, all_nil, if_true]
      · have hlines : lines (state.buffered ++ state.rest) =
            state.buffered :: lines ([] ++ state.rest) := by
          rw [hrest, append_nil, lines_of_not_mem hnone, if_neg hblank]
          rfl
        obtain ⟨message, hmessage, heq⟩ := htake _ _ _ hlines
        have hfalse : blank state.buffered = false := by simpa using hblank
        refine .inr (.inl ⟨state.buffered, message, [], state.rest, if_pos ⟨hrest, hfalse⟩,
          hmessage, hlines, ?_⟩)
        rw [if_pos hrest, if_neg hblank]
        exact heq
    · refine .inl ⟨_, _, ?_, if_neg hrest⟩
      rw [append_assoc, take_append_drop]

section
variable (json : Json Value)

structure Delivers (state : AppServer Value) : Prop where
  order : state.events.yielded ++ state.events.values = state.notifications json
  waiting : state.events.consumer = .waiting → state.events.values = [] ∧ state.finished = false
  finished : state.finished = (state.events.ended || state.events.failed)
  failed : state.events.failed = true → state.events.values = []
  stopped : state.events.consumer = .ended ∨ state.events.consumer = .threw →
    state.events.values = [] ∧ state.finished = true
  quiet : state.finished = true → state.Delivered json

structure Call.Settles (nextId : ℕ) (finished : Bool) (id : ℕ)
    (call : Call Value) : Prop where
  fresh : id < nextId
  settled : call.registered = false → call.promise ≠ .unsettled
  ended : finished = true → call.late = false → call.registered = false
  own : ∀ response, call.promise = .fulfilled response → response.id = some (json.ofNumber id)
  late : call.late = true → finished = true ∧ call.writing ≠ .written
  handled : call.promise = .rejected → call.writing = .written

def Settles (json : Json Value) (state : AppServer Value) : Prop :=
  ∀ id call, state.calls id = some call → call.Settles json state.nextId state.finished id

structure Sound (output : Text) (state : AppServer Value) : Prop where
  reads : Reads json output state
  delivers : Delivers json state
  settles : Settles json state
  answered : state.replies ++ state.loop.unanswered = state.kept.filter Message.isServerRequest
  stopped : ∀ lost, state.loop = .stopped lost → state.finished = true
  echoes : ∀ message, (message, true) ∈ state.handled → state.Repeats json message

end

theorem Sound.start {output : Text} (hwellformed : Wellformed json output) :
    Sound json output { rest := output } where
  reads := ⟨rfl, hwellformed, rfl⟩
  delivers :=
    { order := rfl
      waiting := nofun
      finished := rfl
      failed := nofun
      stopped := fun hover ↦ by rcases hover with hover | hover <;> cases hover
      quiet := nofun }
  settles := nofun
  answered := rfl
  stopped := nofun
  echoes := nofun

/-- What the loop has before it; every step of it takes something off. -/
def AppServer.size (state : AppServer Value) : ℕ :=
  4 * (4 * state.rest.length + 2 * state.buffered.length + state.pendingLine.length) +
    match state.loop with
    | .recording _ => 3
    | .answering _ => 2
    | .replying _ => 1
    | .reading | .stopped _ => 0

/-- The client is at its end, or the loop goes on with less before it. -/
def AppServer.Advances (state : AppServer Value) (bound : ℕ) : Prop :=
  state.finished = true ∨ (state.size < bound ∧ ∀ lost, state.loop ≠ .stopped lost)

variable {state : AppServer Value}

section
variable (state : AppServer Value)

theorem finish_finished : state.finish.finished = true := by
  unfold AppServer.finish
  split_ifs with hfinished
  · exact hfinished
  · rfl

theorem failLoop_finished : state.failLoop.finished = true := by
  unfold AppServer.failLoop AppServer.fail
  dsimp only
  split_ifs with hfinished
  · exact hfinished
  · rfl

theorem length_dropReturn_le (line : Text) : (dropReturn line).length ≤ line.length := by
  unfold dropReturn
  split_ifs
  · rw [length_dropLast]
    exact Nat.sub_le ..
  · exact Nat.le_refl _

theorem length_pos_of_not_blank (hblank : ¬blank text = true) : 0 < text.length := by
  cases text with
  | nil => exact absurd rfl hblank
  | cons c rest => exact Nat.succ_pos _

theorem receive_advances (message : Message Value) {bound : ℕ}
    (hbound : 4 * (4 * state.rest.length + 2 * state.buffered.length +
      state.pendingLine.length) + 3 < bound) : (state.receive json message).Advances bound := by
  unfold AppServer.receive
  split_ifs
  · exact .inr ⟨Nat.lt_of_le_of_lt (Nat.le_add_right _ 3) hbound, nofun⟩
  · exact .inr ⟨hbound, nofun⟩

end

theorem takeLine_advances {bound : ℕ} (hloop : state.loop = .reading)
    (hbound : 4 * (4 * state.rest.length + 2 * state.buffered.length +
      state.pendingLine.length + line.length) + 3 < bound) :
    (state.takeLine json line).Advances bound := by
  unfold AppServer.takeLine
  cases json.parse (state.pendingLine ++ line) with
  | message message =>
    refine receive_advances _ message ?_
    dsimp only [length_nil]
    omega
  | incomplete =>
    refine .inr ⟨?_, ?_⟩
    · simp only [AppServer.size, hloop, length_append]
      omega
    · rw [hloop]
      exact nofun
  | invalid => exact .inl (failLoop_finished state)

theorem read_advances (json : Json Value) (hloop : state.loop = .reading) :
    (state.read json 0).Advances state.size := by
  have hgoing : ∀ lost, state.loop ≠ .stopped lost := by
    rw [hloop]
    exact nofun
  have hsize : state.size =
      4 * (4 * state.rest.length + 2 * state.buffered.length + state.pendingLine.length) := by
    simp only [AppServer.size, hloop, Nat.add_zero]
  rw [hsize]
  unfold AppServer.read
  cases hfirst : firstLine state.buffered with
  | some split =>
    obtain ⟨line, after⟩ := split
    have hlength : state.buffered.length = line.length + (after.length + 1) := by
      rw [(firstLine_eq_some hfirst).1, length_append, length_cons]
    have hdrop := length_dropReturn_le line
    dsimp only
    split_ifs
    · refine .inr ⟨?_, hgoing⟩
      simp only [AppServer.size, hloop]
      omega
    · refine takeLine_advances hloop ?_
      dsimp only
      omega
  | none =>
    dsimp only
    split_ifs with hrest hblank
    · unfold AppServer.endOfStream
      split_ifs with hpending
      · exact .inl (finish_finished state)
      · have hpositive := length_pos_of_not_blank hpending
        cases json.parse state.pendingLine with
        | message message =>
          refine receive_advances _ message ?_
          dsimp only [length_nil]
          omega
        | incomplete | invalid => exact .inl (failLoop_finished state)
    · have hpositive := length_pos_of_not_blank hblank
      refine takeLine_advances hloop ?_
      dsimp only [length_nil]
      omega
    · refine .inr ⟨?_, hgoing⟩
      have hpositive := length_pos_iff.2 hrest
      simp only [AppServer.size, hloop, length_append, length_take, length_drop]
      omega

theorem dispatch_advances [DecidableEq Value] (json : Json Value) {message : Message Value}
    (hloop : state.loop = .recording message) :
    (state.dispatch json message).Advances state.size := by
  have hsize : state.size =
      4 * (4 * state.rest.length + 2 * state.buffered.length + state.pendingLine.length) + 3 := by
    simp only [AppServer.size, hloop]
  rw [hsize]
  have hreading {next : AppServer Value} (hrest : next.rest = state.rest)
      (hbuffered : next.buffered = state.buffered) (hpending : next.pendingLine = state.pendingLine)
      (hnext : next.loop = .reading ∨ next.loop = .answering message) :
      next.Advances (4 * (4 * state.rest.length + 2 * state.buffered.length +
        state.pendingLine.length) + 3) := by
    refine .inr ⟨?_, ?_⟩
    · rcases hnext with hnext | hnext <;>
        simp only [AppServer.size, hnext, hrest, hbuffered, hpending] <;> omega
    · rcases hnext with hnext | hnext <;> rw [hnext] <;> exact nofun
  unfold AppServer.dispatch
  dsimp only
  split_ifs with hresponse
  · cases AppServer.pending json _ message with
    | none | some found => exact hreading rfl rfl rfl (.inl rfl)
  · cases message.notification json with
    | none => exact hreading rfl rfl rfl (.inl rfl)
    | some value => exact hreading rfl rfl rfl (.inr rfl)
  · cases message.notification json with
    | none | some value => exact hreading rfl rfl rfl (.inl rfl)

/-- The induction is on what the loop has before it. -/
theorem exists_ends [DecidableEq Value] (json : Json Value) (state : AppServer Value)
    (hover : ∀ lost, state.loop = .stopped lost → state.finished = true) :
    ∃ labels, (appServer json).Admits state labels ∧
      ((appServer json).exec state labels).finished = true := by
  induction hsize : state.size using Nat.strong_induction_on generalizing state with
  | _ size ih =>
    have hstep (label : AppServerLabel Value) (henabled : (appServer json).enabled state label)
        (hadvances : ((appServer json).next state label).Advances state.size) :
        ∃ labels, (appServer json).Admits state labels ∧
          ((appServer json).exec state labels).finished = true := by
      rcases hadvances with hfinished | ⟨hless, hgoing⟩
      · exact ⟨[label], ⟨henabled, trivial⟩, hfinished⟩
      · obtain ⟨labels, hadmits, hend⟩ := ih _ (hsize ▸ hless) _
          (fun lost hlost ↦ absurd hlost (hgoing lost)) rfl
        exact ⟨label :: labels, ⟨henabled, hadmits⟩, hend⟩
    cases hloop : state.loop with
    | stopped lost => exact ⟨[], trivial, hover lost hloop⟩
    | reading => exact hstep (.read 0) hloop (read_advances json hloop)
    | recording message =>
      refine hstep (.record true) ⟨message, hloop⟩ ?_
      have hnext : (appServer json).next state (.record true) = state.dispatch json message := by
        simp only [appServer, AppServer.next, hloop, if_true]
      rw [hnext]
      exact dispatch_advances json hloop
    | answering message =>
      refine hstep (.handle true) ⟨message, hloop⟩ ?_
      have hnext : (appServer json).next state (.handle true) =
          { state with loop := .replying message } := by
        simp only [appServer, AppServer.next, hloop, if_true]
      rw [hnext]
      refine .inr ⟨?_, nofun⟩
      simp only [AppServer.size, hloop]
      omega
    | replying message =>
      refine hstep (.reply true) ⟨message, hloop⟩ ?_
      have hnext : (appServer json).next state (.reply true) =
          { state with loop := .reading, replies := state.replies ++ [message] } := by
        simp only [appServer, AppServer.next, hloop, if_true]
      rw [hnext]
      refine .inr ⟨?_, nofun⟩
      simp only [AppServer.size, hloop]
      omega

theorem Sound.keeps [DecidableEq Value] {output : Text} (hsound : Sound json output state) :
    Keeps json output state where
  accounted := hsound.reads.accounted
  ordered := ⟨state.events.values, hsound.delivers.order⟩
  complete := by
    intro hover
    obtain ⟨hvalues, hfinished⟩ := hsound.delivers.stopped hover
    have horder := hsound.delivers.order
    rw [hvalues, append_nil] at horder
    exact ⟨horder, hsound.delivers.quiet hfinished⟩
  settled := by
    intro hfinished id call hcall hlate
    have hsettles := hsound.settles id call hcall
    exact hsettles.settled (hsettles.ended hfinished hlate)
  own := fun id call response hcall ↦ (hsound.settles id call hcall).own response
  late := fun id call hcall hlate ↦ ((hsound.settles id call hcall).late hlate).2
  handled := fun id call hcall ↦ (hsound.settles id call hcall).handled
  answered := hsound.answered
  ends := exists_ends json state hsound.stopped
  echoes := hsound.echoes

end Exo.Codex
