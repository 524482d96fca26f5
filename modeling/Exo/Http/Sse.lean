import Exo.Library.Lines
import Exo.Storage.Paths

/-!
# Events over SSE

The server writes every event as one frame and a comment between frames when nothing was sent for a
while; the client reads lines from whatever chunks arrive and keeps the event name and the data of
the frame it has begun.  At the end of the bytes it asks whether there is data left, and not whether
a frame was begun.

Serialisation is a parameter: `serde_json` writes an event, and the object around an error message,
on one line and reads it back.
-/

namespace Exo.Http

open Library Storage

abbrev Text := List Char

abbrev Bytes := List UInt8

/-- What the code uses of `serde_json`: `to_string` and `from_str` at `Event`, `json!({"error": _})`
as text and `from_str` at `StreamError`. -/
structure SerdeJson (Event : Type) where
  eventToString : Event → Except Text Text
  eventFromStr : Text → Except Text Event
  errorToString : Text → Text
  errorFromStr : Text → Except Text Text

/-- One item of an event stream. -/
abbrev Item (Event : Type) := Except Text Event

section Encode
variable {Event : Type} (json : SerdeJson Event)

def heartbeat : Bytes := utf8 ":\n\n".toList

def eventHeader : Text := "event: exo_event\ndata: ".toList

def errorHeader : Text := "event: error\ndata: ".toList

def encodeEvent (event : Event) : Except Text Bytes := do
  let data ← json.eventToString event
  return utf8 (eventHeader ++ data ++ "\n\n".toList)

def encodeError (error : Text) : Bytes :=
  utf8 (errorHeader ++ json.errorToString error ++ "\n\n".toList)

/-- Which of the two branches of the `select!` is taken. -/
inductive Ready where
  | event
  | heartbeat

/-- The items with heartbeats before, between and after them; after the last choice there is no
heartbeat any more. -/
def withHeartbeats : List Ready → List (Except Text Bytes) → List (Except Text Bytes)
  | .heartbeat :: later, events => .ok heartbeat :: withHeartbeats later events
  | .event :: later, event :: events => event :: withHeartbeats later events
  | .event :: _, [] => []
  | [], events => events

/-- An item of the stream that `encode` writes. -/
def encodeItem : Item Event → Except Text Bytes
  | .ok event => encodeEvent json event
  | .error error => .ok (encodeError json error)

def encode (ready : List Ready) (events : List (Item Event)) : List (Except Text Bytes) :=
  withHeartbeats ready (events.map (encodeItem json))

end Encode

/-- A raw line without its ending. -/
def stripEnding (line : Text) : Text :=
  if line.getLast? = some '\n' then
    if line.dropLast.getLast? = some '\r' then line.dropLast.dropLast else line.dropLast
  else line

def lineOf (raw : Bytes) : Except Text Text :=
  match utf8Decode? raw with
  | some line => .ok (stripEnding line)
  | none => .error "stream did not contain valid UTF-8".toList

/-- `BufReader::new(StreamReader::new(_)).lines()`: lines come with every newline, the rest of the
bytes is the last line, and a broken connection is an error in place of the next line. -/
def readLines (begun : Bytes) : List (Except Text Bytes) → List (Except Text Text)
  | [] => if begun = [] then [] else [lineOf begun]
  | .error message :: _ => [.error message]
  | .ok chunk :: chunks =>
    (breakLines 10 begun chunk).1.map lineOf ++ readLines (breakLines 10 begun chunk).2 chunks

/-- What a line does: the event goes on, it is complete, or the stream fails. -/
inductive Handled (Event : Type) where
  | more (name data : Text)
  | event (event : Event)
  | failed (message : Text)

/-- The events of a stream and how it ended. -/
structure Decoded (Event : Type) where
  events : List Event
  outcome : Except Text Unit

section Decode
variable {Event : Type} (json : SerdeJson Event)

/-- The body of the loop for one line. -/
def handleLine (name data line : Text) : Handled Event :=
  if line = [] then
    if name = "exo_event".toList then
      match json.eventFromStr data with
      | .ok event => .event event
      | .error message => .failed message
    else if name = "error".toList then
      match json.errorFromStr data with
      | .ok error => .failed ("runtime event stream failed: ".toList ++ error)
      | .error message => .failed message
    else .more [] []
  else if line.head? = some ':' then .more name data
  else
    let (field, value) := (splitOnce ':' line).getD (line, [])
    let value := if value.head? = some ' ' then value.tail else value
    if field = "event".toList then .more value data
    else if field = "data".toList then
      .more name ((if data = [] then [] else data ++ ['\n']) ++ value)
    else .more name data

/-- The loop of `decode`; every event starts it anew with empty `name` and `data`, and an error ends
the stream. -/
def decodeLines (name data : Text) : List (Except Text Text) → Decoded Event
  | [] =>
    if data = [] then ⟨[], .ok ()⟩
    else ⟨[], .error "runtime event stream ended in an incomplete event".toList⟩
  | .error message :: _ => ⟨[], .error message⟩
  | .ok line :: lines =>
    match handleLine json name data line with
    | .more name data => decodeLines name data lines
    | .event event =>
      let later := decodeLines [] [] lines
      ⟨event :: later.events, later.outcome⟩
    | .failed message => ⟨[], .error message⟩

def decode (chunks : List (Except Text Bytes)) : Decoded Event :=
  decodeLines json [] [] (readLines [] chunks)

end Decode

theorem readLines_map_ok (begun : Bytes) (chunks : List Bytes) : readLines begun (chunks.map .ok) =
      (breakLines 10 begun chunks.flatten).1.map lineOf ++
        readLines (breakLines 10 begun chunks.flatten).2 [] := by
  induction chunks generalizing begun with
  | nil => simp [breakLines]
  | cons chunk chunks ih =>
    have hchunk : readLines begun ((chunk :: chunks).map .ok) =
        (breakLines 10 begun chunk).1.map lineOf ++
          readLines (breakLines 10 begun chunk).2 (chunks.map .ok) := rfl
    rw [hchunk, ih, List.flatten_cons, breakLines_append]
    simp

/-- The lines of some bytes. -/
def linesOf (bytes : Bytes) : List (Except Text Text) := readLines [] [.ok bytes]

theorem readLines_chunks (chunks : List Bytes) :
    readLines [] (chunks.map .ok) = linesOf chunks.flatten := by
  have hone := readLines_map_ok [] [chunks.flatten]
  rw [List.flatten_singleton] at hone
  rw [linesOf, readLines_map_ok, ← hone]
  rfl

/-- Decoding some bytes. -/
def decodeBytes {Event : Type} (json : SerdeJson Event) (bytes : Bytes) : Decoded Event :=
  decodeLines json [] [] (linesOf bytes)

theorem decode_chunks {Event : Type} (json : SerdeJson Event) (chunks : List Bytes) :
    decode json (chunks.map .ok) = decodeBytes json chunks.flatten := by
  rw [decode, readLines_chunks, decodeBytes]

theorem linesOf_line {line : Text} (hnewline : '\n' ∉ line) (hreturn : '\r' ∉ line)
    (rest : Bytes) :
    linesOf (utf8 (line ++ ['\n']) ++ rest) = .ok line :: linesOf rest := by
  have hbody : (10 : UInt8) ∉ utf8 line := by
    rw [mem_utf8 (by decide)]
    rintro ⟨c, hc, hcode⟩
    have hchar : c = '\n' := Char.toNat_inj.1 hcode.symm
    exact hnewline (hchar ▸ hc)
  have hbytes : utf8 (line ++ ['\n']) ++ rest = utf8 line ++ 10 :: rest := by
    rw [utf8_append, List.append_assoc]
    rfl
  have hraw : utf8 line ++ [10] = utf8 (line ++ ['\n']) := by
    rw [utf8_append]
    rfl
  have hstrip : stripEnding (line ++ ['\n']) = line := by
    have hlast : line.getLast? ≠ some '\r' := fun h ↦ hreturn (List.mem_of_getLast? h)
    simp [stripEnding, hlast]
  simp only [linesOf, readLines, hbytes, breakLines_line hbody, hraw, List.map_cons, lineOf,
    utf8Decode?_utf8, hstrip, List.cons_append]

end Exo.Http
