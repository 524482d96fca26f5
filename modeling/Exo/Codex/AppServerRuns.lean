import Exo.Codex.AppServerKeeps

/-!
# Runs of the client

Every step keeps what is known of the messages read, of the events, of the requests and of the
answers.  The end of the client is the step that needs most: the consumer must have nothing left to
see, or it must still be able to see it, and every request that is rejected must be waited for.
-/

namespace Exo.Codex

open Library List Function Option

variable {Value : Type} {json : Json Value} {output : Text} {state other : AppServer Value}

/-! ## Steps that leave a part alone -/

theorem Delivers.of_same (hdelivers : Delivers json state) (hevents : other.events = state.events)
    (hfinished : other.finished = state.finished)
    (hnotifications : other.notifications json = state.notifications json)
    (hquiet : state.Delivered json → other.Delivered json) : Delivers json other where
  order := by rw [hevents, hnotifications]; exact hdelivers.order
  waiting := by rw [hevents, hfinished]; exact hdelivers.waiting
  finished := by rw [hevents, hfinished]; exact hdelivers.finished
  failed := by rw [hevents]; exact hdelivers.failed
  stopped := by rw [hevents, hfinished]; exact hdelivers.stopped
  quiet := by rw [hfinished]; exact fun htrue ↦ hquiet (hdelivers.quiet htrue)

theorem Settles.of_same (hsettles : Settles json state) (hcalls : other.calls = state.calls)
    (hnextId : other.nextId = state.nextId) (hfinished : other.finished = state.finished) :
    Settles json other := by
  intro id call hcall
  rw [hnextId, hfinished]
  exact hsettles id call (hcalls ▸ hcall)

variable {id : ℕ} {call : Call Value} {clean : Bool} {message : Message Value}

theorem Settles.update (hsettles : Settles json state) {update : Call Value → Call Value}
    (hupdate : ∀ call, state.calls id = some call →
      (update call).Settles json state.nextId state.finished id) :
    Settles json (state.updateCall id update) := by
  intro other call hcall
  by_cases hother : other = id
  · subst hother
    have hself : (state.calls other).map update = some call :=
      (update_self other _ state.calls).symm.trans hcall
    obtain ⟨old, hold, rfl⟩ := map_eq_some_iff.1 hself
    exact hupdate old hold
  · exact hsettles other call ((update_of_ne hother _ state.calls).symm.trans hcall)

/-! ## The end -/

/-- The end of the client, with an error or without. -/
def AppServer.endWith (state : AppServer Value) (clean : Bool) : AppServer Value :=
  if clean then state.finish else state.fail

theorem endWith_of_finished (hfinished : state.finished = true) (clean : Bool) :
    state.endWith clean = state := by
  cases clean with
  | true => exact if_pos hfinished
  | false => exact if_pos hfinished

theorem endWith_of_not_finished (hfinished : state.finished = false) (clean : Bool) :
    state.endWith clean = { state.settle with
      events := if clean then state.events.finish else state.events.fail } := by
  have hgoing : ¬state.finished = true := by
    rw [hfinished]
    exact Bool.false_ne_true
  cases clean with
  | true => exact if_neg hgoing
  | false => exact if_neg hgoing

theorem endWith_same (state : AppServer Value) (clean : Bool) :
    ∃ events calls, state.endWith clean = { state with events, calls, finished := true } := by
  cases hfinished : state.finished with
  | true => exact ⟨state.events, state.calls, by rw [endWith_of_finished hfinished, ← hfinished]⟩
  | false => exact ⟨_, _, endWith_of_not_finished hfinished clean⟩

theorem Call.Settles.reject {nextId : ℕ} (hsettles : call.Settles json nextId false id)
    (hattended : call.registered = true → call.writing = .written) :
    call.reject.Settles json nextId true id := by
  have hlate : call.late = false := by
    cases hlate : call.late with
    | false => rfl
    | true => exact nomatch (hsettles.late hlate).1
  unfold Call.reject
  cases hregistered : call.registered with
  | true =>
    exact ⟨hsettles.fresh, nofun, fun _ _ ↦ rfl, nofun,
      (fun htrue ↦ nomatch hlate.symm.trans htrue), fun _ ↦ hattended hregistered⟩
  | false =>
    exact ⟨hsettles.fresh, hsettles.settled, fun _ _ ↦ hregistered, hsettles.own,
      (fun htrue ↦ nomatch hlate.symm.trans htrue), hsettles.handled⟩

theorem Settles.endWith (hsettles : Settles json state) (hmay : state.MayEnd json clean) :
    Settles json (state.endWith clean) := by
  cases hfinished : state.finished with
  | true =>
    rw [endWith_of_finished hfinished]
    exact hsettles
  | false =>
    obtain ⟨-, hattended, -⟩ := hmay.resolve_left (by rw [hfinished]; exact Bool.false_ne_true)
    rw [endWith_of_not_finished hfinished]
    intro id call hcall
    obtain ⟨old, hold, rfl⟩ := map_eq_some_iff.1 hcall
    have hbefore := hsettles id old hold
    rw [hfinished] at hbefore
    exact hbefore.reject (hattended id old hold)

theorem Delivers.endWith (hdelivers : Delivers json state) (hmay : state.MayEnd json clean) :
    Delivers json (state.endWith clean) := by
  cases hfinished : state.finished with
  | true =>
    rw [endWith_of_finished hfinished]
    exact hdelivers
  | false =>
    obtain ⟨hquiet, -, hvalues⟩ :=
      hmay.resolve_left (by rw [hfinished]; exact Bool.false_ne_true)
    have hstopped := hdelivers.finished
    rw [hfinished] at hstopped
    rw [endWith_of_not_finished hfinished]
    have hgone : ¬(state.events.consumer = .ended ∨ state.events.consumer = .threw) := by
      intro hover
      cases hfinished.symm.trans (hdelivers.stopped hover).2
    -- Only a waiting consumer is told of the end, and then nothing is buffered.
    have htold {last : Consumer} :
        (if state.events.consumer = .waiting then last else state.events.consumer) = .ended ∨
          (if state.events.consumer = .waiting then last else state.events.consumer) = .threw →
        state.events.values = [] := by
      intro hover
      split_ifs at hover with hwaiting
      · exact (hdelivers.waiting hwaiting).1
      · exact absurd hover hgone
    cases clean with
    | true =>
      refine ⟨hdelivers.order, ?_, rfl, hdelivers.failed, fun hover ↦ ⟨htold hover, rfl⟩,
        fun _ ↦ hquiet⟩
      intro hwaiting
      simp only [Events.finish, if_true] at hwaiting
      split_ifs at hwaiting with hconsumer
      exact absurd hwaiting hconsumer
    | false =>
      refine ⟨hdelivers.order, ?_, (Bool.or_true _).symm, fun _ ↦ hvalues rfl,
        fun hover ↦ ⟨htold hover, rfl⟩, fun _ ↦ hquiet⟩
      intro hwaiting
      simp only [Events.fail, Bool.false_eq_true, if_false] at hwaiting
      split_ifs at hwaiting with hconsumer
      exact absurd hwaiting hconsumer

theorem AppServer.Repeats.mono (hrepeats : state.Repeats json message)
    (hcalls : ∀ id call, state.calls id = some call → ∃ after, other.calls id = some after ∧
      after.method = call.method ∧ after.params = call.params) : other.Repeats json message := by
  obtain ⟨id, call, hcall, rfl⟩ := hrepeats
  obtain ⟨after, hafter, hmethod, hparams⟩ := hcalls id call hcall
  refine ⟨id, after, hafter, ?_⟩
  simp only [Call.message, hmethod, hparams]

theorem AppServer.Repeats.update (hrepeats : state.Repeats json message)
    {update : Call Value → Call Value}
    (hsame : ∀ call, (update call).method = call.method ∧ (update call).params = call.params) :
    (state.updateCall id update).Repeats json message := by
  refine hrepeats.mono ?_
  intro other call hcall
  by_cases hother : other = id
  · subst hother
    exact ⟨update call, (update_self other _ state.calls).trans
      (congrArg (Option.map update) hcall), hsame call⟩
  · exact ⟨call, (update_of_ne hother _ state.calls).trans hcall, rfl, rfl⟩

section
variable (hsound : Sound json output state) (hmay : state.MayEnd json clean)
include hsound hmay

theorem Sound.endWith : Sound json output (state.endWith clean) := by
  have hdelivers := hsound.delivers.endWith hmay
  have hsettles := hsound.settles.endWith hmay
  have hrepeats (message : Message Value) (hmessage : state.Repeats json message) :
      (state.endWith clean).Repeats json message := by
    refine hmessage.mono ?_
    intro id call hcall
    cases hfinished : state.finished with
    | true =>
      rw [endWith_of_finished hfinished]
      exact ⟨call, hcall, rfl, rfl⟩
    | false =>
      rw [endWith_of_not_finished hfinished]
      refine ⟨call.reject, congrArg (Option.map Call.reject) hcall, ?_⟩
      unfold Call.reject
      split_ifs <;> exact ⟨rfl, rfl⟩
  obtain ⟨events, calls, hend⟩ := endWith_same state clean
  rw [hend] at hdelivers hsettles hrepeats ⊢
  exact
    { reads := ⟨hsound.reads.pendingLine, hsound.reads.wellformed, hsound.reads.accounted⟩
      delivers := hdelivers
      settles := hsettles
      answered := hsound.answered
      stopped := fun _ _ ↦ rfl
      echoes := fun message hmem ↦ hrepeats message (hsound.echoes message hmem) }

/-- The loop is over, with the message that it did not handle. -/
theorem Sound.leave
    {lost : Option (Message Value)} (hlost : (ReadLoop.stopped lost).unread = state.loop.unread)
    (hanswering : state.loop.unanswered = []) :
    Sound json output { state.endWith clean with loop := .stopped lost } := by
  have hended := hsound.endWith hmay
  have hfinished : (state.endWith clean).finished = true := by
    obtain ⟨events, calls, hend⟩ := endWith_same state clean
    rw [hend]
  have hloop : (state.endWith clean).loop = state.loop := by
    obtain ⟨events, calls, hend⟩ := endWith_same state clean
    rw [hend]
  generalize state.endWith clean = ended at hended hfinished hloop
  have hunread :
      AppServer.unread json { ended with loop := .stopped lost } = ended.unread json := by
    unfold AppServer.unread
    rw [hlost, ← hloop]
  have haccounted := hended.reads.accounted
  have hanswered := hended.answered
  rw [hloop, hanswering] at hanswered
  refine ⟨⟨hended.reads.pendingLine, hended.reads.wellformed, ?_⟩, ?_, ?_, hanswered,
    fun _ _ ↦ hfinished, hended.echoes⟩
  · rw [hunread]
    exact haccounted
  · refine hended.delivers.of_same rfl rfl rfl ?_
    unfold AppServer.Delivered
    rw [hunread]
    exact id
  · exact hended.settles.of_same rfl rfl rfl

end

/-! ## Reading -/

theorem messages_cons {text after line : Text} (hlines : lines text = line :: lines after)
    (hparse : json.parse line = .message message) :
    messages json text = message :: messages json after := by
  simp only [messages, hlines, filterMap_cons, hparse]

/-- A message is taken from the output; an echo is dropped at once. -/
theorem Sound.receive (hsound : Sound json output state) (hloop : state.loop = .reading)
    {line buffered rest : Text}
    (hlines : lines (state.buffered ++ state.rest) = line :: lines (buffered ++ rest))
    (hparse : json.parse line = .message message)
    (hecho : state.isEchoedClientRequest json message = true → state.Repeats json message) :
    Sound json output ({ state with buffered, rest }.receive json message) := by
  have hmessages := messages_cons hlines hparse
  have hunread : state.unread json = message :: messages json (buffered ++ rest) := by
    rw [AppServer.unread, hloop, hmessages]
    rfl
  have haccounted := hsound.reads.accounted
  rw [hunread] at haccounted
  have hwellformed : Wellformed json (buffered ++ rest) := fun line hline ↦
    hsound.reads.wellformed line (by rw [hlines]; exact mem_cons_of_mem _ hline)
  have hanswered := hsound.answered
  rw [hloop] at hanswered
  cases htaken : state.isEchoedClientRequest json message with
  | true =>
    have heq : { state with buffered, rest }.receive json message =
        { state with
          buffered, rest, loop := .reading, handled := state.handled ++ [(message, true)] } :=
      if_pos htaken
    rw [heq]
    have hkept : AppServer.kept { state with
        buffered, rest, loop := .reading, handled := state.handled ++ [(message, true)] } =
        state.kept := by
      simp [AppServer.kept]
    refine ⟨⟨hsound.reads.pendingLine, hwellformed, ?_⟩, ?_, hsound.settles.of_same rfl rfl rfl, ?_,
      nofun, ?_⟩
    · rw [map_append, append_assoc]
      exact haccounted
    · refine hsound.delivers.of_same rfl rfl (congrArg (filterMap _) hkept) ?_
      intro hquiet other hother
      exact hquiet other (by rw [hunread]; exact mem_cons_of_mem _ hother)
    · rw [hkept]
      exact hanswered
    · intro other hother
      rcases mem_append.1 hother with hold | hnew
      · exact hsound.echoes other hold
      · obtain rfl := (Prod.mk.inj (mem_singleton.1 hnew)).1
        exact hecho htaken
  | false =>
    have heq : { state with buffered, rest }.receive json message =
        { state with buffered, rest, loop := .recording message } :=
      if_neg (by
        intro htrue
        cases htaken.symm.trans htrue)
    rw [heq]
    refine ⟨⟨hsound.reads.pendingLine, hwellformed, haccounted⟩, ?_,
      hsound.settles.of_same rfl rfl rfl, hanswered, nofun,
      hsound.echoes⟩
    refine hsound.delivers.of_same rfl rfl rfl ?_
    intro hquiet other hother
    exact hquiet other (by rw [hunread]; exact hother)

theorem Sound.read [DecidableEq Value] (hsound : Sound json output state)
    (hloop : state.loop = .reading) {count : ℕ} (horderly : Orderly json state (.read count)) :
    Sound json output (state.read json count) := by
  rcases read_cases hsound.reads.pendingLine hsound.reads.wellformed count with
    hsame | htaken | hend
  · obtain ⟨buffered, rest, hlines, heq⟩ := hsame
    rw [heq]
    have hunread : AppServer.unread json { state with buffered, rest } = state.unread json := by
      simp only [AppServer.unread, messages, hlines]
    refine ⟨⟨hsound.reads.pendingLine, ?_, ?_⟩, ?_, hsound.settles.of_same rfl rfl rfl,
      hsound.answered, hsound.stopped, hsound.echoes⟩
    · intro line hline
      exact hsound.reads.wellformed line (by rw [← hlines]; exact hline)
    · rw [hunread]
      exact hsound.reads.accounted
    · refine hsound.delivers.of_same rfl rfl rfl ?_
      unfold AppServer.Delivered
      rw [hunread]
      exact id
  · obtain ⟨line, message, buffered, rest, hline, hparse, hlines, heq⟩ := htaken
    rw [heq]
    exact hsound.receive hloop hlines hparse (horderly.1 line message hline hparse)
  · obtain ⟨hatEnd, heq⟩ := hend
    rw [heq]
    exact hsound.leave (horderly.2 hatEnd) (by rw [hloop]; rfl) (by rw [hloop]; rfl)

/-! ## Handling -/

theorem pending_eq_some (hpending : state.pending json message = some (id, call)) :
    state.calls id = some call ∧ call.registered = true := by
  unfold AppServer.pending at hpending
  obtain ⟨found, -, hfound⟩ := bind_eq_some_iff.1 hpending
  obtain ⟨old, hold, hregistered⟩ := bind_eq_some_iff.1 hfound
  split_ifs at hregistered with htrue
  obtain ⟨rfl, rfl⟩ := Prod.mk.inj (some.inj hregistered)
  exact ⟨hold, htrue⟩

theorem Call.Settles.respond [DecidableEq Value] {nextId : ℕ} {finished : Bool}
    {response : Message Value} (hsettles : call.Settles json nextId finished id)
    (hregistered : call.registered = true) (hid : response.id = some (json.ofNumber id))
    (hwritten : response.fails json = true → call.writing = .written) :
    (call.respond json response).Settles json nextId finished id := by
  unfold Call.respond
  rw [if_pos hregistered]
  cases hfails : response.fails json with
  | true =>
    exact ⟨hsettles.fresh, nofun, fun _ _ ↦ rfl, nofun, hsettles.late, fun _ ↦ hwritten hfails⟩
  | false =>
    refine ⟨hsettles.fresh, nofun, fun _ _ ↦ rfl, ?_, hsettles.late,
      nofun⟩
    intro other hother
    obtain rfl := Promise.fulfilled.inj hother
    exact hid

theorem Delivers.push (hdelivers : Delivers json state) (hfinished : state.finished = false)
    {value : Notification Value} {handled : List (Message Value × Bool)} {loop : ReadLoop Value}
    (hnotifications : AppServer.notifications json
      { state with handled, loop, events := state.events.push value } =
        state.notifications json ++ [value]) :
    Delivers json { state with handled, loop, events := state.events.push value } := by
  have hgone : ¬(state.events.consumer = .ended ∨ state.events.consumer = .threw) := by
    intro hover
    cases hfinished.symm.trans (hdelivers.stopped hover).2
  have hstopped := hdelivers.finished
  have horder := hdelivers.order
  have hquiet : state.finished = true → AppServer.Delivered json
      { state with handled, loop, events := state.events.push value } :=
    fun htrue ↦ nomatch hfinished.symm.trans htrue
  have hfailed : state.events.failed = false := by
    rw [hfinished] at hstopped
    exact (Bool.or_eq_false_iff.1 hstopped.symm).2
  rw [← horder] at hnotifications
  by_cases hwaiting : state.events.consumer = .waiting
  · have hvalues := (hdelivers.waiting hwaiting).1
    have hpush : state.events.push value = { state.events with
        consumer := .ready, yielded := state.events.yielded ++ [value] } := by
      simp only [Events.push, hwaiting]
    rw [hpush] at hnotifications hquiet ⊢
    refine ⟨?_, (fun heq ↦ nomatch heq), hstopped, (fun htrue ↦ nomatch hfailed.symm.trans htrue),
      (fun hover ↦ by rcases hover with hover | hover <;> cases hover), hquiet⟩
    calc state.events.yielded ++ [value] ++ state.events.values
        = state.events.yielded ++ state.events.values ++ [value] := by rw [hvalues]; simp
      _ = _ := hnotifications.symm
  · have hpush : state.events.push value =
        { state.events with values := state.events.values ++ [value] } := by
      cases hconsumer : state.events.consumer with
      | waiting => exact absurd hconsumer hwaiting
      | _ => simp only [Events.push, hconsumer]
    rw [hpush] at hnotifications hquiet ⊢
    refine ⟨?_, fun heq ↦ absurd heq hwaiting, hstopped,
      (fun htrue ↦ nomatch hfailed.symm.trans htrue), fun hover ↦ absurd hover hgone, hquiet⟩
    rw [hnotifications]
    exact (append_assoc ..).symm

section
variable (hsound : Sound json output state)
include hsound

/-- The message is recorded, and it is handled as what it is. -/
theorem Sound.dispatch [DecidableEq Value] (hloop : state.loop = .recording message)
    (horderly : ∀ id call, message.isResponse = true →
      state.pending json message = some (id, call) →
        message.id = some (json.ofNumber id) ∧
          (message.fails json = true → call.writing = .written)) :
    Sound json output (state.dispatch json message) := by
  let base : AppServer Value :=
    { state with handled := state.handled ++ [(message, false)], loop := .reading }
  have hunread : state.unread json = message :: base.unread json := by
    rw [AppServer.unread, hloop]
    rfl
  have haccounted : base.handled.map Prod.fst ++ base.unread json = messages json output := by
    rw [← hsound.reads.accounted, hunread, map_append, append_assoc]
    rfl
  have hkept : base.kept = state.kept ++ [message] := by
    simp [base, AppServer.kept]
  have hanswered : state.replies ++ [] = state.kept.filter Message.isServerRequest := by
    have hall := hsound.answered
    rw [hloop] at hall
    exact hall
  have hquiet (hold : state.Delivered json) : base.Delivered json :=
    fun other hother ↦ hold other (by rw [hunread]; exact mem_cons_of_mem _ hother)
  have hechoes : ∀ other, (other, true) ∈ base.handled → base.Repeats json other := by
    intro other hother
    rcases mem_append.1 hother with hold | hnew
    · exact hsound.echoes other hold
    · cases (Prod.mk.inj (mem_singleton.1 hnew)).2
  -- A message that the consumer does not see.
  have hsilent (hnone : message.notification json = none)
      (hrequest : message.isServerRequest = false) : Sound json output base := by
    refine ⟨⟨hsound.reads.pendingLine, hsound.reads.wellformed, haccounted⟩, ?_,
      hsound.settles.of_same rfl rfl rfl, ?_, (fun _ hover ↦ by cases hover), hechoes⟩
    · refine hsound.delivers.of_same rfl rfl ?_ hquiet
      simp [AppServer.notifications, hkept, hnone]
    · rw [hkept, filter_append, ← hanswered]
      simp [hrequest, base, ReadLoop.unanswered]
  unfold AppServer.dispatch
  by_cases hresponse : message.isResponse = true
  · have hnone : message.notification json = none := if_pos hresponse
    have hrequest : message.isServerRequest = false := by
      simp [Message.isServerRequest, hresponse]
    have hbase := hsilent hnone hrequest
    rw [if_pos hresponse]
    split
    · rename_i id call hfound
      have hpending : state.pending json message = some (id, call) := hfound
      obtain ⟨hcall, hregistered⟩ := pending_eq_some hpending
      obtain ⟨hid, hwritten⟩ := horderly id call hresponse hpending
      refine ⟨⟨hbase.reads.pendingLine, hbase.reads.wellformed, hbase.reads.accounted⟩,
        hbase.delivers.of_same rfl rfl rfl (fun hold ↦ hold), ?_, hbase.answered, hbase.stopped, ?_⟩
      · refine hbase.settles.update ?_
        intro found hfound
        obtain rfl := some.inj (hcall.symm.trans hfound)
        exact (hbase.settles id call hcall).respond hregistered hid hwritten
      · intro other hother
        refine (hbase.echoes other hother).update ?_
        intro call
        unfold Call.respond
        split_ifs <;> exact ⟨rfl, rfl⟩
    · exact hbase
  · rw [if_neg hresponse]
    cases hnotification : message.notification json with
    | none =>
      refine hsilent hnotification ?_
      have hmethod : message.method = none := by
        rw [Message.notification, if_neg hresponse] at hnotification
        exact map_eq_none_iff.1 hnotification
      simp [Message.isServerRequest, hmethod]
    | some value =>
      have hfinished : state.finished = false := by
        cases hfinished : state.finished with
        | false => rfl
        | true =>
          have hnone := hsound.delivers.quiet hfinished message
            (by rw [hunread]; exact mem_cons_self ..)
          cases hnotification.symm.trans hnone
      have hnotifications : base.notifications json = state.notifications json ++ [value] := by
        simp [AppServer.notifications, hkept, hnotification]
      have hunreadOf (loop : ReadLoop Value) (hnew : loop.unread = []) :
          AppServer.unread json { base with loop, events := state.events.push value } =
            base.unread json := by
        simp only [AppServer.unread, hnew]
        rfl
      by_cases hrequest : message.isServerRequest = true
      · rw [if_pos hrequest]
        refine ⟨⟨hsound.reads.pendingLine, hsound.reads.wellformed, ?_⟩,
          hsound.delivers.push hfinished hnotifications, hsound.settles.of_same rfl rfl rfl, ?_,
          (fun _ hover ↦ by cases hover), hechoes⟩
        · exact (congrArg _ (hunreadOf (.answering message) rfl)).trans haccounted
        · change state.replies ++ [message] = base.kept.filter Message.isServerRequest
          rw [hkept, filter_append, ← hanswered]
          simp [hrequest]
      · rw [if_neg hrequest]
        refine ⟨⟨hsound.reads.pendingLine, hsound.reads.wellformed, ?_⟩,
          hsound.delivers.push hfinished hnotifications, hsound.settles.of_same rfl rfl rfl, ?_,
          (fun _ hover ↦ by cases hover), hechoes⟩
        · exact (congrArg _ (hunreadOf .reading rfl)).trans haccounted
        · change state.replies ++ [] = base.kept.filter Message.isServerRequest
          rw [hkept, filter_append, ← hanswered]
          simp [hrequest]

/-- Between two stages of the loop without an unread message nothing else changes. -/
theorem Sound.goto {loop : ReadLoop Value} {replies : List (Message Value)}
    (hunread : loop.unread = state.loop.unread)
    (hanswered : replies ++ loop.unanswered = state.replies ++ state.loop.unanswered)
    (hgoing : ∀ lost, loop ≠ .stopped lost) : Sound json output { state with loop, replies } := by
  have hsame : AppServer.unread json { state with loop, replies } = state.unread json := by
    simp only [AppServer.unread, hunread]
  refine ⟨⟨hsound.reads.pendingLine, hsound.reads.wellformed, ?_⟩, ?_,
    hsound.settles.of_same rfl rfl rfl, hanswered.trans hsound.answered,
    fun lost hover ↦ absurd hover (hgoing lost), hsound.echoes⟩
  · rw [hsame]
    exact hsound.reads.accounted
  · refine hsound.delivers.of_same rfl rfl rfl ?_
    unfold AppServer.Delivered
    rw [hsame]
    exact fun hold ↦ hold

/-! ## Requests and events -/

theorem Sound.request (method : String) (params : Value) : Sound json output { state with
      nextId := state.nextId + 1
      calls := Function.update state.calls state.nextId
        (some { method, params, late := state.finished }) } := by
  have hold {id : ℕ} {call : Call Value} (hcall : state.calls id = some call) :
      update state.calls state.nextId
        (some { method, params, late := state.finished }) id = some call :=
    (update_of_ne (Nat.ne_of_lt (hsound.settles id call hcall).fresh) ..).trans hcall
  refine ⟨⟨hsound.reads.pendingLine, hsound.reads.wellformed, hsound.reads.accounted⟩,
    hsound.delivers.of_same rfl rfl rfl (fun hquiet ↦ hquiet), ?_, hsound.answered, hsound.stopped,
    fun message hmem ↦ (hsound.echoes message hmem).mono fun id call hcall ↦
      ⟨call, hold hcall, rfl, rfl⟩⟩
  intro id call hcall
  by_cases hid : id = state.nextId
  · subst hid
    have hself := (update_self state.nextId _ state.calls).symm.trans hcall
    obtain rfl := some.inj hself
    exact ⟨Nat.lt_succ_self _, nofun,
      (fun htrue hfalse ↦ nomatch htrue.symm.trans hfalse), nofun,
      fun htrue ↦ ⟨htrue, nofun⟩, nofun⟩
  · have hbefore := hsound.settles id call ((update_of_ne hid _ state.calls).symm.trans hcall)
    exact ⟨Nat.lt_succ_of_lt hbefore.fresh, hbefore.settled, hbefore.ended, hbefore.own,
      hbefore.late, hbefore.handled⟩

theorem Sound.write {succeeds : Bool}
    (hwriting : ∃ call, state.calls id = some call ∧ call.writing = .writing)
    (hlate : ∀ call, state.calls id = some call → call.late = true → succeeds = false) :
    Sound json output (state.updateCall id fun call ↦
      { call with writing := if succeeds then .written else .failed }) := by
  obtain ⟨call, hcall, hbusy⟩ := hwriting
  refine ⟨⟨hsound.reads.pendingLine, hsound.reads.wellformed, hsound.reads.accounted⟩,
    hsound.delivers.of_same rfl rfl rfl (fun hquiet ↦ hquiet), ?_, hsound.answered, hsound.stopped,
    fun message hmem ↦ (hsound.echoes message hmem).update fun _ ↦ ⟨rfl, rfl⟩⟩
  refine hsound.settles.update ?_
  intro found hfound
  obtain rfl := some.inj (hcall.symm.trans hfound)
  have hbefore := hsound.settles id call hcall
  refine ⟨hbefore.fresh, hbefore.settled, hbefore.ended, hbefore.own, ?_, ?_⟩
  · intro htrue
    refine ⟨(hbefore.late htrue).1, ?_⟩
    have hfails := hlate call hcall htrue
    simp only [hfails, Bool.false_eq_true, if_false]
    exact nofun
  · intro hrejected
    cases hbusy.symm.trans (hbefore.handled hrejected)

end

theorem Delivers.next (hdelivers : Delivers json state) (hready : state.events.consumer = .ready) :
    Delivers json { state with events := state.events.next } := by
  have hidle : ¬(state.events.consumer = .ended ∨ state.events.consumer = .threw) := by
    rw [hready]
    exact fun hover ↦ by rcases hover with hover | hover <;> cases hover
  cases hfailed : state.events.failed with
  | true =>
    have heq : state.events.next = { state.events with consumer := .threw } := by
      simp only [Events.next, hfailed, if_true]
    have hfinished : state.finished = true := by
      rw [hdelivers.finished, hfailed, Bool.or_true]
    rw [heq]
    exact ⟨hdelivers.order, nofun, hdelivers.finished,
      hdelivers.failed, fun _ ↦ ⟨hdelivers.failed hfailed, hfinished⟩, hdelivers.quiet⟩
  | false =>
    cases hvalues : state.events.values with
    | cons value values =>
      have heq : state.events.next =
          { state.events with values, yielded := state.events.yielded ++ [value] } := by
        simp only [Events.next, hfailed, hvalues, Bool.false_eq_true, if_false]
      rw [heq]
      refine ⟨?_, (fun hwaiting ↦ nomatch hready.symm.trans hwaiting), hdelivers.finished,
        (fun htrue ↦ nomatch hfailed.symm.trans htrue), fun hover ↦ absurd hover hidle,
        hdelivers.quiet⟩
      calc state.events.yielded ++ [value] ++ values
          = state.events.yielded ++ state.events.values := by
            rw [hvalues, append_assoc, singleton_append]
        _ = state.notifications json := hdelivers.order
    | nil =>
      cases hended : state.events.ended with
      | true =>
        have heq : state.events.next = { state.events with consumer := .ended } := by
          simp only [Events.next, hfailed, hvalues, hended, Bool.false_eq_true, if_false, if_true]
        have hfinished : state.finished = true := by
          rw [hdelivers.finished, hended, Bool.true_or]
        rw [heq]
        exact ⟨hdelivers.order, nofun, hdelivers.finished,
          hdelivers.failed, fun _ ↦ ⟨hvalues, hfinished⟩, hdelivers.quiet⟩
      | false =>
        have heq : state.events.next = { state.events with consumer := .waiting } := by
          simp only [Events.next, hfailed, hvalues, hended, Bool.false_eq_true, if_false]
        have hfinished : state.finished = false := by
          rw [hdelivers.finished, hended, hfailed, Bool.or_false]
        rw [heq]
        exact ⟨hdelivers.order, fun _ ↦ ⟨hvalues, hfinished⟩, hdelivers.finished,
          hdelivers.failed, (fun hover ↦ by rcases hover with hover | hover <;> cases hover),
          hdelivers.quiet⟩

/-! ## Runs -/

theorem Sound.next [DecidableEq Value] (hsound : Sound json output state)
    {label : AppServerLabel Value} (henabled : (appServer json).enabled state label)
    (horderly : Orderly json state label) :
    Sound json output ((appServer json).next state label) := by
  cases label with
  | read count => exact hsound.read henabled horderly
  | record succeeds =>
    obtain ⟨message, hloop⟩ := henabled
    cases succeeds with
    | true =>
      have hnext : (appServer json).next state (.record true) = state.dispatch json message := by
        simp only [appServer, AppServer.next, hloop, if_true]
      rw [hnext]
      exact hsound.dispatch hloop fun id call hresponse hpending ↦
        horderly message id call hloop hresponse hpending
    | false =>
      have hnext : (appServer json).next state (.record false) =
          { state.endWith false with loop := .stopped (some message) } := by
        simp only [appServer, AppServer.next, hloop, AppServer.failLoop]
        rfl
      rw [hnext]
      exact hsound.leave horderly (by rw [hloop]; rfl) (by rw [hloop]; rfl)
  | handle succeeds =>
    obtain ⟨message, hloop⟩ := henabled
    obtain rfl : succeeds = true := horderly
    have hnext : (appServer json).next state (.handle true) =
        { state with loop := .replying message } := by
      simp only [appServer, AppServer.next, hloop, if_true]
    rw [hnext]
    exact hsound.goto (by rw [hloop]; rfl) (by rw [hloop]; rfl) fun _ hover ↦ by cases hover
  | reply succeeds =>
    obtain ⟨message, hloop⟩ := henabled
    obtain rfl : succeeds = true := horderly
    have hnext : (appServer json).next state (.reply true) =
        { state with loop := .reading, replies := state.replies ++ [message] } := by
      simp only [appServer, AppServer.next, hloop, if_true]
    rw [hnext]
    refine hsound.goto (by rw [hloop]; rfl) ?_ fun _ hover ↦ by cases hover
    rw [hloop]
    exact append_nil _
  | request method params => exact hsound.request method params
  | write id succeeds => exact hsound.write henabled horderly
  | next =>
    exact
      { reads := ⟨hsound.reads.pendingLine, hsound.reads.wellformed, hsound.reads.accounted⟩
        delivers := hsound.delivers.next henabled
        settles := hsound.settles.of_same rfl rfl rfl
        answered := hsound.answered
        stopped := hsound.stopped
        echoes := hsound.echoes }
  | close =>
    exact
      { reads := ⟨hsound.reads.pendingLine, hsound.reads.wellformed, hsound.reads.accounted⟩
        delivers := hsound.delivers.of_same rfl rfl rfl (fun hquiet ↦ hquiet)
        settles := hsound.settles.of_same rfl rfl rfl
        answered := hsound.answered
        stopped := hsound.stopped
        echoes := hsound.echoes }
  | exit clean => exact hsound.endWith horderly
  | error => exact hsound.endWith horderly

/-- The client keeps its promises in every run whose steps are orderly. -/
theorem app_server_keeps [DecidableEq Value] (json : Json Value) {output : Text}
    (hwellformed : Wellformed json output) {labels : List (AppServerLabel Value)}
    (hadmits : (appServer json).Admits { rest := output } labels)
    (horderly : (appServer json).Throughout (Orderly json) { rest := output } labels) :
    Keeps json output ((appServer json).exec { rest := output } labels) := by
  have hrun : ((appServer json).restrict (Orderly json)).Admits { rest := output } labels :=
    (System.admits_restrict_iff _ _ _).2 ⟨hadmits, horderly⟩
  have hstep (state : AppServer Value) (label : AppServerLabel Value)
      (hsound : Sound json output state) (henabled : (appServer json).enabled state label)
      (hlabel : Orderly json state label) :
      Sound json output ((appServer json).next state label) := hsound.next henabled hlabel
  exact (System.invariant_of_restrict _ hstep (Sound.start hwellformed) hrun).keeps

/-! ## An exit before the output is read -/

def approvalLine : Text :=
  "\x7b\"id\":7,\"method\":\"item/fileChange/requestApproval\"\x7d".toList

def completedLine : Text := "\x7b\"method\":\"turn/completed\"\x7d".toList

/-- `JSON.parse` and `Number` at the lines of these runs; a value is `null` or a number. -/
def turnJson : Json (Option ℕ) where
  parse text :=
    if text = approvalLine then
      .message { id := some (some 7), method := some "item/fileChange/requestApproval" }
    else if text = completedLine then .message { method := some "turn/completed" }
    else .invalid
  toNumber value := some (value.getD 0)
  ofNumber := some
  null := none

def turnOutput : Text := approvalLine ++ '\n' :: completedLine

/-- The request is answered and the notification read before the end is found. -/
def turnRun : List (AppServerLabel (Option ℕ)) :=
  [.next, .read 9, .read 99, .read 0, .record true, .handle true, .reply true, .next, .read 0,
    .record true, .read 0, .next]

theorem wellformed_turnOutput : Wellformed turnJson turnOutput := by
  have hlines : lines turnOutput = [approvalLine, completedLine] := by decide +kernel
  intro line hline
  rw [hlines] at hline
  rcases mem_cons.1 hline with rfl | hline
  · exact ⟨_, rfl⟩
  · obtain rfl := mem_singleton.1 hline
    exact ⟨_, rfl⟩

instance {state : AppServer Value} : Decidable state.AtEnd :=
  inferInstanceAs (Decidable (_ ∧ _ ∧ _))

/-- Without a request there is no echo. -/
theorem orderly_read [DecidableEq Value] {count : ℕ} (hcalls : ∀ id, state.calls id = none)
    (hend : state.AtEnd → state.Delivered json) : Orderly json state (.read count) := by
  refine ⟨?_, fun hatEnd ↦ .inr ⟨hend hatEnd, ?_, nofun⟩⟩
  · intro line message _ _ hecho
    have hpending : state.pending json message = none := by
      unfold AppServer.pending
      cases message.id.bind json.toNumber with
      | none => rfl
      | some id => simp [hcalls id]
    simp [AppServer.isEchoedClientRequest, hpending] at hecho
  · intro id call hcall
    cases (hcalls id).symm.trans hcall

theorem app_server_keeps_turnRun :
    Keeps turnJson turnOutput ((appServer turnJson).exec { rest := turnOutput } turnRun) := by
  refine app_server_keeps turnJson wellformed_turnOutput ?_ ?_
  · exact ⟨rfl, rfl, rfl, rfl, ⟨_, rfl⟩, ⟨_, rfl⟩, ⟨_, rfl⟩, rfl, rfl, ⟨_, rfl⟩, rfl, rfl, trivial⟩
  · have hrecord (message : Message (Option ℕ)) (id : ℕ) (call : Call (Option ℕ))
        {loop : ReadLoop (Option ℕ)} {taken : Message (Option ℕ)} (htaken : loop = .recording taken)
        (hsilent : taken.isResponse = false) (hloop : loop = .recording message)
        (hresponse : message.isResponse = true) : False := by
      obtain rfl := ReadLoop.recording.inj (htaken.symm.trans hloop)
      exact Bool.false_ne_true (hsilent.symm.trans hresponse)
    have hempty : ∀ message ∈ AppServer.unread turnJson
        ((appServer turnJson).exec { rest := turnOutput } (turnRun.take 10)),
        message.notification turnJson = none := by decide +kernel
    exact ⟨trivial, orderly_read (fun _ ↦ rfl) (fun hatEnd ↦ absurd hatEnd (by decide +kernel)),
      orderly_read (fun _ ↦ rfl) (fun hatEnd ↦ absurd hatEnd (by decide +kernel)),
      orderly_read (fun _ ↦ rfl) (fun hatEnd ↦ absurd hatEnd (by decide +kernel)),
      fun message id call hloop hresponse ↦ (hrecord message id call rfl rfl hloop hresponse).elim,
      rfl, rfl, trivial,
      orderly_read (fun _ ↦ rfl) (fun hatEnd ↦ absurd hatEnd (by decide +kernel)),
      fun message id call hloop hresponse ↦ (hrecord message id call rfl rfl hloop hresponse).elim,
      orderly_read (fun _ ↦ rfl) (fun _ ↦ hempty), trivial, trivial⟩

/-- The process exits while the consumer waits and the output is still to be read. -/
def exitRun : List (AppServerLabel (Option ℕ)) := [.next, .exit true]

theorem not_app_server_keeps : ¬∀ output labels, Wellformed turnJson output →
    (appServer turnJson).Admits { rest := output } labels →
    Keeps turnJson output ((appServer turnJson).exec { rest := output } labels) := by
  intro hkeeps
  have hexit := hkeeps turnOutput exitRun wellformed_turnOutput ⟨rfl, trivial, trivial⟩
  have hdelivered := (hexit.complete (.inl rfl)).2
  have hlost : ¬∀ message ∈ AppServer.unread turnJson
      ((appServer turnJson).exec { rest := turnOutput } exitRun),
      message.notification turnJson = none := by decide +kernel
  exact hlost hdelivered

end Exo.Codex
