import Mathlib.Algebra.Ring.Nat
import Exo.Sandbox.ProcessBridge

/-!
# The steps of the process bridge

What each step does, with what it found; the work that own steps use up; and the state in which only
the guest or the owner of the stdin pipe can go on.
-/

namespace Exo.Sandbox.ProcessBridge

open Library

variable {base64 : Base64} {provider : Provider} {bridge bridge' : Bridge} {label : Label}

variable (base64 : Base64) (provider : Provider) (bridge : Bridge) in
/-- What the steps do, and where they are taken. -/
inductive Steps :
    Label → Bridge → Prop where
  | writeStdin (data : Bytes) (hopen : bridge.stdinDropped = false) :
    Steps (.writeStdin data) { bridge with stdin := bridge.stdin ++ data }
  | dropStdin : Steps .dropStdin { bridge with stdinDropped := true }
  | recvFailed {answer : Response} {error : String} (hpoller : bridge.poller = .receiving)
    (hscript : answer.likeScript base64 = true) (hanswer : provider.request answer = .error error) :
    Steps (.answerRecv answer) (bridge.failPoller error)
  | recvTimeout {answer : Response} (hpoller : bridge.poller = .receiving)
    (hscript : answer.likeScript base64 = true) (hanswer : provider.request answer = .ok answer)
    (htimeout : answer.timeout = true) :
    Steps (.answerRecv answer) { bridge with poller := .idle }
  | recvEvents {answer : Response} (hpoller : bridge.poller = .receiving)
    (hscript : answer.likeScript base64 = true) (hanswer : provider.request answer = .ok answer) :
    Steps (.answerRecv answer) { bridge with poller := .handling answer.events }
  | stdinAnswered {answer : Response} {forwarder : Forwarder}
    (hfrom : bridge.forwarder = .writing ∨ bridge.forwarder = .closing)
    (hanswer : provider.request answer = .ok answer)
    (hto : forwarder = .reading ∨ forwarder = .stopped) :
    Steps (.answerStdin answer) { bridge with forwarder := forwarder }
  | stdinFailed {answer : Response} {error message : String}
    (hfrom : bridge.forwarder = .writing ∨ bridge.forwarder = .closing)
    (hanswer : provider.request answer = .error error) :
    Steps (.answerStdin answer) { bridge with forwarder := .failed message }
  | pollRecv (hpoller : bridge.poller = .idle) :
    Steps .poll { bridge with
      poller := .receiving, requests := bridge.requests ++ [.recv recvTimeout] }
  | pollEnd (hpoller : bridge.poller = .handling []) : Steps .poll { bridge with poller := .idle }
  | pollData {event : Event} {events : List Event} {stream : OutputStream} {data : String}
    {decoded : Bytes} (hpoller : bridge.poller = .handling (event :: events))
    (hdata : event.data? = some (stream, data)) (hdecode : base64.decode data = .ok decoded) :
    Steps .poll { bridge with poller := .writing stream decoded events }
  | pollGarbage {event : Event} {events : List Event} {stream : OutputStream} {data : String}
    {error message : String} (hpoller : bridge.poller = .handling (event :: events))
    (hdata : event.data? = some (stream, data)) (hdecode : base64.decode data = .error error) :
    Steps .poll (bridge.failPoller message)
  | pollExit {exitCode : ℤ} {events : List Event}
    (hpoller : bridge.poller = .handling (.exit exitCode :: events)) :
    Steps .poll { bridge with poller := .stopped, exit := .sent exitCode }
  | pollWritten {stream : OutputStream} {events : List Event}
    (hpoller : bridge.poller = .writing stream [] events) :
    Steps .poll { bridge with poller := .handling events }
  | write {stream : OutputStream} {data : Bytes} {events : List Event} {length : ℕ}
    (hpoller : bridge.poller = .writing stream data events) (hpos : 0 < length)
    (hle : length ≤ data.length) :
    Steps (.write length) { bridge with
      poller := .writing stream (data.drop length) events
      written := Function.update bridge.written stream (bridge.written stream ++ data.take length) }
  | reportPoller {error : String} (hpoller : bridge.poller = .failed error) :
    Steps .reportPoller { bridge with poller := .stopped, errors := bridge.errors ++ [error] }
  | readEnd (hforwarder : bridge.forwarder = .reading) (hstdin : bridge.stdin = [])
    (hdropped : bridge.stdinDropped = true) :
    Steps (.read 0) { bridge with
      forwarder := .closing, requests := bridge.requests ++ [.closeStdin] }
  | read {length : ℕ} (hforwarder : bridge.forwarder = .reading) (hpos : 0 < length)
    (hle : length ≤ bridge.stdin.length) :
    Steps (.read length) { bridge with
      forwarder := .writing
      stdin := bridge.stdin.drop length
      requests := bridge.requests ++ [.write (base64.encode (bridge.stdin.take length))] }
  | reportForwarder {error : String} (hforwarder : bridge.forwarder = .failed error) :
    Steps .reportForwarder { bridge with forwarder := .stopped, errors := bridge.errors ++ [error] }
  | waitExit {exitCode : ℤ} (hresult : bridge.result = none)
    (hexit : bridge.exit = .sent exitCode) :
    Steps .waitExit { bridge with result := some (.ok exitCode) }
  | waitDropped {message : String} (hresult : bridge.result = none)
    (hexit : bridge.exit = .dropped) :
    Steps .waitExit { bridge with result := some (.error message) }
  | waitError {error : String} {errors : List String} (hresult : bridge.result = none)
    (herrors : bridge.errors = error :: errors) :
    Steps .waitError { bridge with result := some (.error error), errors := errors }
  | waitClosed (hresult : bridge.result = none) (hopen : bridge.errorsOpen = true)
    (herrors : bridge.errors = []) (hpoller : bridge.poller = .stopped)
    (hforwarder : bridge.forwarder = .stopped) :
    Steps .waitError { bridge with errorsOpen := false }
  | abortPoller (hresult : bridge.result.isSome = true) (hpoller : bridge.poller ≠ .stopped) :
    Steps .abortPoller { bridge with poller := .stopped, exit := bridge.exit.drop }
  | abortForwarder (hresult : bridge.result.isSome = true)
    (hforwarder : bridge.forwarder ≠ .stopped) :
    Steps .abortForwarder { bridge with forwarder := .stopped }

theorem Provider.eq_of_request {answer response : Response}
    (hanswer : provider.request answer = .ok response) : response = answer := by
  cases provider with
  | vercel =>
    cases hok : answer.ok with
    | true =>
      rw [Provider.request_of_ok hok] at hanswer
      cases hanswer
      rfl
    | false =>
      have hvercel : Provider.vercel.checksOk = true := rfl
      obtain ⟨error, herror⟩ := Provider.request_of_refused hvercel hok
      rw [herror] at hanswer
      cases hanswer
  | awsAgentCore =>
    cases hanswer
    rfl
  | firecracker =>
    cases hanswer
    rfl

theorem steps_of_answerRecv {answer : Response} (hscript : answer.likeScript base64 = true)
    (hstep : bridge.answerRecv provider answer = some bridge') :
    Steps base64 provider bridge (.answerRecv answer) bridge' := by
  revert hstep
  fun_cases Bridge.answerRecv provider bridge answer <;> intro hstep <;> cases hstep
  · exact .recvFailed ‹_› hscript ‹_›
  · rename_i hanswer htimeout
    cases Provider.eq_of_request hanswer
    exact .recvTimeout ‹_› hscript hanswer htimeout
  · rename_i hanswer _
    cases Provider.eq_of_request hanswer
    exact .recvEvents ‹_› hscript hanswer

theorem steps_of_answerStdin {answer : Response}
    (hstep : bridge.answerStdin provider answer = some bridge') :
    Steps base64 provider bridge (.answerStdin answer) bridge' := by
  revert hstep
  fun_cases Bridge.answerStdin provider bridge answer <;> intro hstep <;> cases hstep
  · rename_i hanswer
    cases Provider.eq_of_request hanswer
    exact .stdinAnswered (.inl ‹_›) hanswer (.inl rfl)
  · exact .stdinFailed (.inl ‹_›) ‹_›
  · rename_i hanswer
    cases Provider.eq_of_request hanswer
    exact .stdinAnswered (.inr ‹_›) hanswer (.inr rfl)
  · exact .stdinFailed (.inr ‹_›) ‹_›

theorem steps_of_startWrite {event : Event} {events : List Event} {stream : OutputStream}
    {data : String} (hpoller : bridge.poller = .handling (event :: events))
    (hdata : event.data? = some (stream, data)) :
    Steps base64 provider bridge .poll (bridge.startWrite base64 stream data events) := by
  unfold Bridge.startWrite
  split
  · rename_i hdecode
    exact .pollData hpoller hdata hdecode
  · rename_i hdecode
    exact .pollGarbage hpoller hdata hdecode

theorem steps_of_poll (hstep : bridge.poll base64 = some bridge') :
    Steps base64 provider bridge .poll bridge' := by
  revert hstep
  fun_cases Bridge.poll base64 bridge <;> intro hstep <;> cases hstep
  · exact .pollRecv ‹_›
  · exact .pollEnd ‹_›
  · rename_i event events hpoller
    cases event with
    | stdout data | stderr data => exact steps_of_startWrite hpoller rfl
    | exit exitCode => exact .pollExit hpoller
  · exact .pollWritten ‹_›

theorem steps_of_read {length : ℕ} (hstep : bridge.read base64 length = some bridge') :
    Steps base64 provider bridge (.read length) bridge' := by
  revert hstep
  fun_cases Bridge.read base64 bridge length <;> intro hstep <;> cases hstep
  · rename_i hend
    rw [hend.2]
    exact .readEnd ‹_› ‹_› hend.1
  · rename_i hlength
    exact .read ‹_› hlength.1 hlength.2.2

theorem steps_of_wait :
    (bridge.waitExit = some bridge' → Steps base64 provider bridge .waitExit bridge') ∧
      (bridge.waitError = some bridge' → Steps base64 provider bridge .waitError bridge') := by
  constructor
  · fun_cases Bridge.waitExit bridge <;> intro hstep <;> cases hstep
    · exact .waitExit ‹_› ‹_›
    · exact .waitDropped ‹_› ‹_›
  · fun_cases Bridge.waitError bridge <;> intro hstep <;> cases hstep
    · exact .waitError ‹_› ‹_›
    · rename_i hstopped
      exact .waitClosed ‹_› ‹_› ‹_› hstopped.1 hstopped.2

theorem steps_of_step (hstep : bridge.step base64 provider label = some bridge') :
    Steps base64 provider bridge label bridge' := by
  revert hstep
  fun_cases Bridge.step base64 provider bridge label <;> intro hstep <;>
    first
    | cases hstep
    | skip
  · rename_i hopen
    exact .writeStdin _ (Bool.eq_false_iff.2 hopen)
  · exact .dropStdin
  · exact steps_of_answerRecv ‹_› hstep
  · exact steps_of_answerStdin hstep
  · exact steps_of_poll hstep
  · revert hstep
    fun_cases Bridge.write bridge _ <;> intro hstep <;> cases hstep
    rename_i hlength
    exact .write ‹_› hlength.1 hlength.2
  · revert hstep
    fun_cases Bridge.reportPoller bridge <;> intro hstep <;> cases hstep
    exact .reportPoller ‹_›
  · exact steps_of_read hstep
  · revert hstep
    fun_cases Bridge.reportForwarder bridge <;> intro hstep <;> cases hstep
    exact .reportForwarder ‹_›
  · exact steps_of_wait.1 hstep
  · exact steps_of_wait.2 hstep
  · obtain ⟨habort, hstep⟩ := Option.ite_none_right_eq_some.1 hstep
    cases hstep
    exact .abortPoller habort.1 habort.2
  · obtain ⟨habort, hstep⟩ := Option.ite_none_right_eq_some.1 hstep
    cases hstep
    exact .abortForwarder habort.1 habort.2

theorem steps_of_enabled (henabled : (system base64 provider).enabled bridge label) :
    Steps base64 provider bridge label ((system base64 provider).next bridge label) :=
  steps_of_step (Option.getD_of_ne_none (Option.isSome_iff_ne_none.1 henabled) _).symm

section
variable (base64 : Base64)

/-- The length of what an event holds. -/
def Event.size (event : Event) : ℕ :=
  match event.data? with
  | some (_, data) => ((base64.decode data).toOption.getD []).length
  | none => 0

def eventsWork (events : List Event) : ℕ :=
  (events.map fun event ↦ event.size base64 + 2).sum

def Poller.work : Poller → ℕ
  | .stopped => 0
  | .receiving => 1
  | .idle => 2
  | .failed _ => 2
  | .handling events => eventsWork base64 events + 3
  | .writing _ data events => data.length + eventsWork base64 events + 4

def Forwarder.work : Forwarder → ℕ
  | .stopped => 0
  | .writing => 1
  | .closing => 1
  | .reading => 2
  | .failed _ => 2

/-- What the waiter still has to do. -/
def waitWork (result : Option (Except String ℤ)) (errorsOpen : Bool) : ℕ :=
  (if result.isNone then 1 else 0) + if errorsOpen then 1 else 0

/-- An upper bound for the own steps that are left. -/
def Bridge.work (bridge : Bridge) : ℕ :=
  bridge.poller.work base64 + bridge.forwarder.work + waitWork bridge.result bridge.errorsOpen

end

theorem Poller.work_pos {poller : Poller} (hpoller : poller ≠ .stopped) :
    0 < poller.work base64 := by
  cases poller <;> first | exact absurd rfl hpoller | exact Nat.succ_pos _

theorem Forwarder.work_pos {forwarder : Forwarder} (hforwarder : forwarder ≠ .stopped) :
    0 < forwarder.work := by
  cases forwarder <;> first | exact absurd rfl hforwarder | exact Nat.succ_pos _

theorem Steps.work_lt (hstep : Steps base64 provider bridge label bridge')
    (hown : label.isOwn = true) : bridge'.work base64 < bridge.work base64 := by
  unfold Bridge.work
  cases hstep with
  | writeStdin | dropStdin | recvFailed | recvTimeout | recvEvents | stdinAnswered | stdinFailed =>
    cases hown
  | pollRecv hpoller | pollEnd hpoller | pollWritten hpoller =>
    simp [hpoller, Poller.work, eventsWork]
  | pollExit hpoller | pollGarbage hpoller =>
    simp [hpoller, Poller.work, eventsWork, Bridge.failPoller]
    try omega
  | pollData hpoller hdata hdecode =>
    simp [hpoller, Poller.work, eventsWork, Event.size, hdata, hdecode, Except.toOption]
    omega
  | write hpoller hpos hle =>
    simp only [hpoller, Poller.work, List.length_drop]
    omega
  | reportPoller hpoller => simp [hpoller, Poller.work]
  | readEnd hforwarder | read hforwarder | reportForwarder hforwarder =>
    simp [hforwarder, Forwarder.work]
  | waitExit hresult | waitDropped hresult | waitError hresult => simp [hresult, waitWork]
  | waitClosed _ hopen => simp [hopen, waitWork]
  | abortPoller _ hpoller =>
    have hpos : 0 < bridge.poller.work base64 := Poller.work_pos hpoller
    show 0 + bridge.forwarder.work + waitWork bridge.result bridge.errorsOpen < _
    omega
  | abortForwarder _ hforwarder =>
    have hpos := Forwarder.work_pos hforwarder
    show bridge.poller.work base64 + 0 + waitWork bridge.result bridge.errorsOpen < _
    omega

theorem work_lt (bridge : Bridge) (label : Label) (hown : label.isOwn = true)
    (henabled : (system base64 provider).enabled bridge label) :
    ((system base64 provider).next bridge label).work base64 < bridge.work base64 :=
  (steps_of_enabled henabled).work_lt hown

/-- What is known of a bridge that waits for the guest or for the owner of the stdin pipe. -/
structure Resting (bridge : Bridge) : Prop where
  poller : bridge.poller = .receiving ∨ bridge.poller = .stopped
  forwarder : ∀ error, bridge.forwarder ≠ .failed error
  exit : bridge.result = none → bridge.exit = .pending
  errors : bridge.result = none → bridge.errorsOpen = true → bridge.errors = []

theorem resting_of_atRest
    (hrest : (system base64 provider).AtRest (fun label ↦ label.isOwn = true) bridge) :
    Resting bridge := by
  have hnone : ∀ label, label.isOwn = true → bridge.step base64 provider label = none := by
    intro label hown
    simpa [system] using hrest label hown
  have hpoll := hnone .poll rfl
  have hreportPoller := hnone .reportPoller rfl
  have hreportForwarder := hnone .reportForwarder rfl
  have hwaitExit := hnone .waitExit rfl
  have hwaitError := hnone .waitError rfl
  refine ⟨?_, ?_, ?_, ?_⟩
  · cases hpoller : bridge.poller with
    | receiving => exact .inl rfl
    | stopped => exact .inr rfl
    | idle => simp [Bridge.step, Bridge.poll, hpoller] at hpoll
    | handling events => cases events <;> simp [Bridge.step, Bridge.poll, hpoller] at hpoll
    | failed error => simp [Bridge.step, Bridge.reportPoller, hpoller] at hreportPoller
    | writing stream data events =>
      cases data with
      | nil => simp [Bridge.step, Bridge.poll, hpoller] at hpoll
      | cons byte data =>
        have hwrite := hnone (.write 1) rfl
        simp [Bridge.step, Bridge.write, hpoller] at hwrite
  · intro error hforwarder
    simp [Bridge.step, Bridge.reportForwarder, hforwarder] at hreportForwarder
  · intro hresult
    cases hexit : bridge.exit with
    | pending => rfl
    | sent exitCode | dropped => simp [Bridge.step, Bridge.waitExit, hresult, hexit] at hwaitExit
  · intro hresult hopen
    cases herrors : bridge.errors with
    | nil => rfl
    | cons error errors =>
      simp [Bridge.step, Bridge.waitError, hresult, hopen, herrors] at hwaitError

end Exo.Sandbox.ProcessBridge
