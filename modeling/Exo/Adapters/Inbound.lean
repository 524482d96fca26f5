import Exo.Adapters.Keys
import Exo.Adapters.Records

/-!
# Inbound messages

A message of a worker is handled in steps: the marker of its id is created, the event is recorded,
the images are downloaded and the wakeup is submitted to the conversation.  A marker that is there
already says that the message is a duplicate, and nothing else is done.  The events of a worker are
handled one after the other; any storage call may fail and the process may die at any step.

No message with an id is submitted twice.  But the marker comes first, so a call that ends before
the submission leaves a message that every later delivery takes for a duplicate.
-/

namespace Exo.Adapters

open Library

inductive AdapterAttachmentKind where
  | image
  | video
  | audio
  | document
  deriving DecidableEq

structure AdapterAttachment where
  kind : AdapterAttachmentKind
  url : Option String
  mimeType : Option String
  fileName : Option String
  deriving DecidableEq

/-- `WorkerEvent::Message`; of the metadata, what is looked up in it. -/
structure WorkerMessage where
  target : String
  sender : Option String
  text : String
  messageId : Option String
  dmTarget : Option String
  isActiveThread : Option Bool
  attachments : List AdapterAttachment

/-- The fields of the adapter and of its configuration that are read here. -/
structure InboundAdapter where
  id : String
  name : String
  adapterType : String

inductive UserContentPart where
  | text (text : String)
  | image (bytes : List UInt8) (mediaType : Option String)
  deriving DecidableEq

inductive UserContent where
  | string (text : String)
  | array (parts : List UserContentPart)

def maxInboundImages : ℕ := 4

def maxInboundImageBytes : ℕ := 8 * 1024 * 1024

section
variable (attachments : List AdapterAttachment)

def inboundImageCandidates : List AdapterAttachment :=
  (attachments.filter fun attachment ↦
    attachment.kind = .image && attachment.url.isSome).take maxInboundImages

def attachmentKindLabel : AdapterAttachmentKind → String
  | .image => "image"
  | .video => "video"
  | .audio => "audio"
  | .document => "document"

/-- The line of an attachment in the prompt. -/
def attachmentLine (attachment : AdapterAttachment) : String :=
  "- " ++ attachmentKindLabel attachment.kind ++ " `" ++
    attachment.fileName.getD "(unnamed)" ++ "` (" ++ attachment.mimeType.getD "unknown type" ++
    ") — " ++ attachment.url.getD "no url" ++ "\n"

/-- The part of the prompt for messages from Slack. -/
def slackNote (message : WorkerMessage) : String :=
  (match message.dmTarget with
    | some dmTarget => "\n\nSlack sender DM target: `" ++ dmTarget ++
      "`. Use this only for appropriate private follow-up; do not use DM to bypass safety policy."
    | none => "") ++
  if message.isActiveThread = some true then
    "\n\nThis Slack message is from an active thread, but it may be ambient conversation. Only " ++
      "call send_adapter_message if the message appears directed at Exo, asks Exo to do " ++
      "something, or clearly needs an Exo response. If no response is needed, do nothing."
  else ""

/-- The part of the prompt that lists the attachments. -/
def attachmentNote (attachedImageCount : ℕ) : String :=
  "\n\nThe message includes these attachments:\n" ++
    String.join (attachments.map attachmentLine) ++
    (if attachedImageCount > 0 then
      s!"\n{attachedImageCount} image(s) are attached to this message so you can view them " ++
        "directly."
    else "") ++
    "\nAttachment URLs may expire quickly; if you need the raw file, download it promptly (e.g. " ++
    "with curl in your sandbox)."

end

section
variable (adapter : InboundAdapter) (message : WorkerMessage)

def composeInboundWakeupPrompt (attachedImageCount : ℕ) : String :=
  adapter.adapterType ++ " message received at target `" ++ message.target ++ "` from " ++
    message.sender.getD "unknown" ++ " via adapter `" ++ adapter.name ++ "`:\n\n" ++
    message.text ++
    (if adapter.adapterType = "slack" then slackNote message else "") ++
    (if message.attachments.isEmpty then ""
      else attachmentNote message.attachments attachedImageCount) ++
    "\n\nThis message came from an external adapter. If you answer this message, you MUST reply " ++
    "externally with send_adapter_message using adapterId `" ++ adapter.id ++
    "` and target `" ++ message.target ++ "`. Do not answer only in the REPL unless you are " ++
    "explicitly deciding that no external reply should be sent. If this asks you to schedule " ++
    "future work whose results should be posted back externally, include adapterId `" ++
    adapter.id ++ "` and target `" ++ message.target ++ "` in the scheduled task reportPrompt."

/-- The content of the wakeup of a message, with the images that were downloaded. -/
def wakeupContent (imageParts : List UserContentPart) : UserContent :=
  let prompt := composeInboundWakeupPrompt adapter message imageParts.length
  if imageParts.isEmpty then .string prompt else .array (.text prompt :: imageParts)

/-- The summary of the event that is recorded for a message. -/
def inboundSummary : String :=
  adapter.adapterType ++ " adapter message from " ++ message.sender.getD "unknown" ++ " to " ++
    message.target ++
    if message.attachments.isEmpty then ""
    else s!" with {message.attachments.length} attachment(s)"

end

/-- What was submitted: a message to a conversation. -/
structure Wakeup where
  conversationId : String
  message : WorkerMessage
  content : UserContent

/-- What follows a `record_event`. -/
inductive Then where
  /-- After the event of the message: the downloads. -/
  | images
  /-- After a download that failed: the other downloads. -/
  | rest (remaining : List AdapterAttachment) (parts : List UserContentPart)
  /-- After a wakeup that failed: nothing. -/
  | finish
  deriving DecidableEq

/-- The storage call, download or wakeup that `handle_worker_message` does next. -/
inductive Stage where
  /-- `record_inbound_message_once` creates the file. -/
  | marking (messageId : String)
  /-- It writes the file that it has created. -/
  | writing
  /-- `put_event` of `record_event`. -/
  | recording (eventType : AdapterEventType) (summary : String) (next : Then)
  /-- The record is read and written by `record_event`. -/
  | touching (next : Then)
  | downloading (image : AdapterAttachment) (remaining : List AdapterAttachment)
    (parts : List UserContentPart)
  /-- `send_conversation_wakeup_content`, up to the turn that it queues. -/
  | sending (parts : List UserContentPart)
  /-- The turn is queued, and its result is awaited. -/
  | awaiting
  /-- `mark_error` after a wakeup that failed. -/
  | markingError (error : String)
  deriving DecidableEq

/-- A call of `handle_worker_message`. -/
structure Handling where
  conversationId : String
  message : WorkerMessage
  stage : Stage

/-- The files of an adapter, what was submitted for it, and the event that is handled. -/
structure Inbox where
  files : KeyedFiles
  events : List AdapterEventRecord
  stored : Option AdapterRecord
  wakeups : List Wakeup
  task : Option Handling

/-- What a storage call, a download or a wakeup answers. -/
inductive Answer where
  | done
  | downloaded (bytes : List UInt8)
  | failed (error : String)

inductive InboundLabel where
  /-- The worker delivers a message, which is resolved to a conversation. -/
  | deliver (message : WorkerMessage) (conversationId : String)
  /-- The call takes its next step, at a time and with a fresh id for an event. -/
  | step (eventId : String) (nowMs : ℕ) (answer : Answer)
  /-- The process dies or the task is aborted. -/
  | crash

/-- The downloads that are left, or the wakeup. -/
def Stage.images (remaining : List AdapterAttachment) (parts : List UserContentPart) : Stage :=
  match remaining with
  | [] => .sending parts
  | image :: remaining => .downloading image remaining parts

/-- The call goes on after `record_event`; `none` is its end. -/
def Then.stage (message : WorkerMessage) : Then → Option Stage
  | images => some (.images (inboundImageCandidates message.attachments) [])
  | rest remaining parts => some (.images remaining parts)
  | finish => none

/-- The call goes on after `record_event` failed: only a failed download is passed over. -/
def Then.stageOnError : Then → Option Stage
  | rest remaining parts => some (.images remaining parts)
  | images | finish => none

/-- Where a call begins: without an id there is no marker. -/
def Stage.first (adapter : InboundAdapter) (message : WorkerMessage) : Stage :=
  match message.messageId with
  | some messageId => .marking messageId
  | none => .recording .inbound (inboundSummary adapter message) .images

namespace Inbox

variable (inbox : Inbox)

def empty : Inbox := ⟨.empty, [], none, [], none⟩

/-- The call is at another stage, or over. -/
def goTo (call : Handling) (stage : Option Stage) : Inbox :=
  { inbox with task := stage.map fun stage ↦ { call with stage } }

/-- The next step of `handle_worker_message`. -/
def resume (adapter : InboundAdapter) (call : Handling) (eventId : String) (nowMs : ℕ) :
    Answer → Option Inbox
  | .done =>
    match call.stage with
    | .marking messageId =>
      match inbox.files.recordInboundMessageOnce adapter.id call.message.target messageId nowMs with
      | (true, files) => some ({ inbox with files }.goTo call (some .writing))
      | (false, _) => some (inbox.goTo call none)
    | .writing =>
      some (inbox.goTo call
        (some (.recording .inbound (inboundSummary adapter call.message) .images)))
    | .recording eventType summary next =>
      let event : AdapterEventRecord := ⟨eventId, adapter.id, eventType, nowMs, summary⟩
      some ({ inbox with events := inbox.events ++ [event] }.goTo call (some (.touching next)))
    | .touching next =>
      let stored := inbox.stored.map fun adapter ↦ { adapter with updatedAtMs := nowMs }
      some ({ inbox with stored }.goTo call (next.stage call.message))
    | .sending parts =>
      let wakeup : Wakeup :=
        ⟨call.conversationId, call.message, wakeupContent adapter call.message parts⟩
      some ({ inbox with wakeups := inbox.wakeups ++ [wakeup] }.goTo call (some .awaiting))
    | .awaiting => some (inbox.goTo call none)
    | .markingError error =>
      let stored := inbox.stored.map ((RecordCall.markError error).edit nowMs)
      some ({ inbox with stored }.goTo call (some (.recording .error error .finish)))
    | .downloading .. => none
  | .downloaded bytes =>
    match call.stage with
    | .downloading image remaining parts =>
      -- an image above the cap is listed by its URL only
      let parts :=
        if bytes.length ≤ maxInboundImageBytes then parts ++ [.image bytes image.mimeType]
        else parts
      some (inbox.goTo call (some (.images remaining parts)))
    | _ => none
  | .failed error =>
    match call.stage with
    | .recording _ _ next | .touching next => some (inbox.goTo call next.stageOnError)
    | .downloading _ remaining parts =>
      some (inbox.goTo call (some (.recording .error
        ("inbound attachment download failed: " ++ error) (.rest remaining parts))))
    | .sending _ | .awaiting =>
      some (inbox.goTo call (some (.markingError ("wakeup turn failed: " ++ error))))
    | .marking _ | .writing | .markingError _ => some (inbox.goTo call none)

/-- One step, if it can be taken. -/
def next (adapter : InboundAdapter) : InboundLabel → Option Inbox
  | .deliver message conversationId =>
    if inbox.task.isNone then
      some { inbox with task := some ⟨conversationId, message, .first adapter message⟩ }
    else none
  | .step eventId nowMs answer =>
    inbox.task.bind fun call ↦ inbox.resume adapter call eventId nowMs answer
  | .crash => some { inbox with task := none }

end Inbox

/-- Any deliveries to one adapter. -/
def inbound (adapter : InboundAdapter) : System Inbox InboundLabel where
  enabled inbox label := (inbox.next adapter label).isSome
  next inbox label := (inbox.next adapter label).getD inbox

instance (adapter : InboundAdapter) (inbox : Inbox) (label : InboundLabel) :
    Decidable ((inbound adapter).enabled inbox label) :=
  inferInstanceAs (Decidable ((inbox.next adapter label).isSome = true))

end Exo.Adapters
