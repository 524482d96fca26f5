import Exo.Http.Sse

/-!
# What a truncated event stream shows

Every event whose frame is complete is decoded, in order and however the bytes are cut into chunks,
and an error frame ends the stream with its message.  Where the bytes end inside a frame, the client
notices if it has a byte of the frame's data; before that the end looks like the end of the stream.
-/

namespace Exo.Http

open Library Storage List

variable {Event : Type} {json : SerdeJson Event}

/-! ## Frames -/

/-- What is sent as one piece. -/
inductive Frame (Event : Type) where
  | event (event : Event)
  | error (message : Text)
  | heartbeat

/-- The frame of an item. -/
def frameOf : Item Event → Frame Event
  | .ok event => .event event
  | .error message => .error message

/-- The frames that `encode` sends. -/
def frames : List Ready → List (Item Event) → List (Frame Event)
  | .heartbeat :: later, items => .heartbeat :: frames later items
  | .event :: later, item :: items => frameOf item :: frames later items
  | .event :: _, [] => []
  | [], items => items.map frameOf

/-- The events before the first error, and its message. -/
def delivered : List (Frame Event) → List Event × Option Text
  | [] => ([], none)
  | .event event :: rest => (event :: (delivered rest).1, (delivered rest).2)
  | .error message :: _ => ([], some message)
  | .heartbeat :: rest => delivered rest

/-- The frames that lie in the first `n` bytes, and the beginning of the frame that is cut. -/
def cutAt : List (Frame Event × Bytes) → ℕ →
    List (Frame Event) × Option (Frame Event × Bytes)
  | [], _ => ([], none)
  | (frame, bytes) :: rest, n =>
    if n < bytes.length then ([], if n = 0 then none else some (frame, bytes.take n))
    else (frame :: (cutAt rest (n - bytes.length)).1, (cutAt rest (n - bytes.length)).2)

/-- No event and no error is cut; a comment carries neither. -/
def AtBoundary : Option (Frame Event × Bytes) → Prop
  | none => True
  | some (.heartbeat, _) => True
  | some _ => False

/-- The length of what a frame says before its data. -/
def headerLength : Frame Event → ℕ
  | .event _ => eventHeader.length
  | .error _ => errorHeader.length
  | .heartbeat => 0

/-- The bytes of the frame that is cut reach into its data. -/
def ShowsData : Option (Frame Event × Bytes) → Prop
  | none => False
  | some (frame, part) => headerLength frame < part.length

/-- What the decoder owes for complete frames and the frame that is cut: the events of the complete
ones, the failure if there is one, and else a clean end exactly at a boundary. -/
def Faithful (whole : List (Frame Event)) (part : Option (Frame Event × Bytes))
    (decoded : Decoded Event) : Prop :=
  decoded.events = (delivered whole).1 ∧
    match (delivered whole).2 with
    | some message => decoded.outcome = .error ("runtime event stream failed: ".toList ++ message)
    | none => decoded.outcome = .ok () ↔ AtBoundary part

/-- A JSON text: not empty and on a single line. -/
structure SingleLine (data : Text) : Prop where
  nonempty : data ≠ []
  newline : '\n' ∉ data
  carriageReturn : '\r' ∉ data

/-- `serde_json` writes the item on a single line and reads it back. -/
def SerdeJson.RoundTrips (json : SerdeJson Event) : Item Event → Prop
  | .ok event => ∃ data, json.eventToString event = .ok data ∧ SingleLine data ∧
      json.eventFromStr data = .ok event
  | .error message => SingleLine (json.errorToString message) ∧
      json.errorFromStr (json.errorToString message) = .ok message

/-! ## The lines of a frame -/

/-- The line that names the event. -/
def nameLine (name : Text) : Text := "event: ".toList ++ name

def dataStart : Text := "data: ".toList

/-- What a frame says before its data. -/
def header (name : Text) : Text := nameLine name ++ ['\n'] ++ dataStart

theorem handleLine_nameLine (name old data : Text) :
    handleLine json old data (nameLine name) = .more name data := rfl

theorem handleLine_dataStart (name value : Text) :
    handleLine json name [] (dataStart ++ value) = .more name value := rfl

/-- A line with the first letter of `event` leaves the data alone. -/
theorem handleLine_begun (json : SerdeJson Event) (name data rest : Text) :
    ∃ name', handleLine json name data ('e' :: rest) = .more name' data := by
  have hfield : ((splitOnce ':' ('e' :: rest)).getD ('e' :: rest, [])).1.head? = some 'e' := by
    cases hsplit : splitOnce ':' ('e' :: rest) with
    | none => rfl
    | some parts =>
      simp only [splitOnce] at hsplit
      split at hsplit <;> cases hsplit
      rfl
  have hdata : ((splitOnce ':' ('e' :: rest)).getD ('e' :: rest, [])).1 ≠ "data".toList := by
    intro h
    rw [h] at hfield
    cases hfield
  simp only [handleLine]
  rw [if_neg (by simp), if_neg (by simp), if_neg hdata]
  split
  · exact ⟨_, rfl⟩
  · exact ⟨_, rfl⟩

variable {n : ℕ} {data name : Text} {bytes : Bytes} {ready : List Ready} {items : List (Item Event)}
  {frame : Frame Event} {pieces : List (Frame Event × Bytes)}

/-- The field `data` without a value leaves the data empty, and so does what begins like it. -/
theorem handleLine_dataStart_take (name : Text) (hn : 0 < n) :
    handleLine json name [] (dataStart.take n) = .more name [] := by
  by_cases hlong : 6 ≤ n
  · rw [take_of_length_le hlong]
    rfl
  · interval_cases n <;> rfl

/-! ## Complete frames -/

theorem heartbeat_eq : heartbeat = utf8 ([':'] ++ ['\n']) ++ utf8 ([] ++ ['\n']) := rfl

theorem decodeBytes_heartbeat (rest : Bytes) :
    decodeBytes json (heartbeat ++ rest) = decodeBytes json rest := by
  rw [decodeBytes, heartbeat_eq, append_assoc, linesOf_line (by decide) (by decide),
    linesOf_line (by decide) (by decide)]
  rfl

/-- The bytes of a frame that carries data. -/
def dataFrame (name data : Text) : Bytes :=
  utf8 (nameLine name ++ ['\n']) ++ (utf8 (dataStart ++ data ++ ['\n']) ++ utf8 ([] ++ ['\n']))

theorem dataFrame_eq (name data : Text) :
    dataFrame name data = utf8 (header name ++ data ++ ['\n', '\n']) := by
  simp only [dataFrame, header, ← utf8_append, append_assoc, nil_append, cons_append]

theorem eventHeader_eq : eventHeader = header "exo_event".toList := by
  decide

theorem errorHeader_eq : errorHeader = header "error".toList := by
  decide

variable {event : Event} {message line : Text} {part : Bytes}

theorem encodeEvent_eq (hdata : json.eventToString event = .ok data) :
    encodeEvent json event = .ok (dataFrame "exo_event".toList data) := by
  rw [encodeEvent, hdata, eventHeader_eq, dataFrame_eq]
  rfl

theorem encodeError_eq (message : Text) :
    encodeError json message = dataFrame "error".toList (json.errorToString message) := by
  rw [encodeError, errorHeader_eq, dataFrame_eq]
  rfl

theorem nameLine_clean (hname : name = "exo_event".toList ∨ name = "error".toList) :
    '\n' ∉ nameLine name ∧ '\r' ∉ nameLine name := by
  obtain rfl | rfl := hname <;> decide

theorem dataStart_clean (hdata : SingleLine data) :
    '\n' ∉ dataStart ++ data ∧ '\r' ∉ dataStart ++ data := by
  simp only [mem_append, not_or]
  exact ⟨⟨by decide, hdata.newline⟩, by decide, hdata.carriageReturn⟩

/-- The three lines of a frame are read before what follows it. -/
theorem linesOf_dataFrame (hname : name = "exo_event".toList ∨ name = "error".toList)
    (hdata : SingleLine data) (rest : Bytes) :
    linesOf (dataFrame name data ++ rest) =
      .ok (nameLine name) :: .ok (dataStart ++ data) :: .ok [] :: linesOf rest := by
  rw [dataFrame, append_assoc, linesOf_line (nameLine_clean hname).1 (nameLine_clean hname).2,
    append_assoc, linesOf_line (dataStart_clean hdata).1 (dataStart_clean hdata).2,
    linesOf_line (by decide) (by decide)]

theorem decodeBytes_event (hdata : SingleLine data) (hread : json.eventFromStr data = .ok event)
    (rest : Bytes) :
    decodeBytes json (dataFrame "exo_event".toList data ++ rest) =
      ⟨event :: (decodeBytes json rest).events, (decodeBytes json rest).outcome⟩ := by
  have hblank : handleLine json "exo_event".toList data [] = .event event := by
    simp [handleLine, hread]
  simp only [decodeBytes, linesOf_dataFrame (.inl rfl) hdata, decodeLines, handleLine_nameLine,
    handleLine_dataStart, hblank]

theorem decodeBytes_error (hdata : SingleLine data) (hread : json.errorFromStr data = .ok message)
    (rest : Bytes) :
    decodeBytes json (dataFrame "error".toList data ++ rest) =
      ⟨[], .error ("runtime event stream failed: ".toList ++ message)⟩ := by
  have hblank : handleLine json "error".toList data [] =
      .failed ("runtime event stream failed: ".toList ++ message) := by
    simp [handleLine, hread]
  simp only [decodeBytes, linesOf_dataFrame (.inr rfl) hdata, decodeLines, handleLine_nameLine,
    handleLine_dataStart, hblank]

/-! ## A frame that is cut -/

theorem linesOf_last (hbytes : bytes ≠ []) (hnewline : (10 : UInt8) ∉ bytes) :
    linesOf bytes = [lineOf bytes] := by
  simp [linesOf, readLines, breakLines_of_not_mem [] hnewline, hbytes]

theorem newline_not_mem_utf8 {text : Text} (htext : '\n' ∉ text) : (10 : UInt8) ∉ utf8 text := by
  rw [mem_utf8 (by decide)]
  rintro ⟨c, hc, hcode⟩
  have hchar : c = '\n' := Char.toNat_inj.1 hcode.symm
  exact htext (hchar ▸ hc)

theorem stripEnding_of_not_mem (hline : '\n' ∉ line) : stripEnding line = line := by
  have hlast : line.getLast? ≠ some '\n' := fun h ↦ hline (mem_of_getLast? h)
  simp [stripEnding, hlast]

theorem lineOf_utf8 (hline : '\n' ∉ line) : lineOf (utf8 line) = .ok line := by
  simp [lineOf, stripEnding_of_not_mem hline]

section
variable (hname : name = "exo_event".toList ∨ name = "error".toList)
include hname

theorem header_lt : ∀ c ∈ header name, c.toNat < 128 := by
  have hall : ((header name).all fun c ↦ decide (c.toNat < 128)) = true := by
    obtain rfl | rfl := hname <;> rfl
  exact fun c hc ↦ of_decide_eq_true (all_eq_true.1 hall c hc)

theorem length_utf8_header : (utf8 (header name)).length = (header name).length := by
  rw [utf8_eq_map (header_lt hname), length_map]

section
variable (data : Text) (hn : n ≤ (header name).length)
include hn

theorem take_dataFrame : (dataFrame name data).take n = utf8 ((header name).take n) := by
  rw [dataFrame_eq, append_assoc _ data, utf8_append, take_append_of_le_length
    (by rwa [length_utf8_header hname]), utf8_take (header_lt hname)]

/-- A cut in the name or before the data passes for the end of the stream. -/
theorem decodeBytes_header : decodeBytes json ((dataFrame name data).take n) = ⟨[], .ok ()⟩ := by
  rw [take_dataFrame hname data hn]
  obtain ⟨hnewline, hreturn⟩ := nameLine_clean hname
  by_cases hfirst : n ≤ (nameLine name).length
  · rw [header, append_assoc, take_append_of_le_length hfirst]
    cases n with
    | zero => rfl
    | succ n =>
      have hclean : '\n' ∉ (nameLine name).take (n + 1) :=
        fun h ↦ hnewline (mem_of_mem_take h)
      have hcons : (nameLine name).take (n + 1) = 'e' :: ("vent: ".toList ++ name).take n := rfl
      obtain ⟨name', hhandle⟩ := handleLine_begun json [] [] (("vent: ".toList ++ name).take n)
      rw [decodeBytes, linesOf_last (by simp [hcons, utf8_cons, String.utf8EncodeChar_ne_nil])
        (newline_not_mem_utf8 hclean), lineOf_utf8 hclean, decodeLines, hcons, hhandle]
      rfl
  · obtain ⟨m, rfl⟩ : ∃ m, n = (nameLine name ++ ['\n']).length + m :=
      Nat.exists_eq_add_of_le (by simp; omega)
    rw [header, take_length_add_append, utf8_append, decodeBytes,
      linesOf_line hnewline hreturn,
      decodeLines, handleLine_nameLine]
    cases m with
    | zero => rfl
    | succ m =>
      have hclean : '\n' ∉ dataStart.take (m + 1) :=
        fun h ↦ absurd (mem_of_mem_take h) (by decide)
      have hcons : dataStart.take (m + 1) = 'd' :: ("ata: ".toList).take m := rfl
      rw [linesOf_last (by simp [hcons, utf8_cons, String.utf8EncodeChar_ne_nil])
        (newline_not_mem_utf8 hclean), lineOf_utf8 hclean]
      simp only [decodeLines, handleLine_dataStart_take name (Nat.succ_pos m)]
      rfl

end

end

/-- Data that is left when the bytes end is noticed. -/
theorem decodeLines_left (json : SerdeJson Event) (name : Text) (hdata : data ≠ []) :
    (decodeLines json name data []).events = [] ∧
      (decodeLines json name data []).outcome ≠ .ok () := by
  rw [decodeLines, if_neg hdata]
  exact ⟨rfl, by simp⟩

/-- A data line without its newline is data, or not a text. -/
theorem decodeLines_part (name : Text) (hpart : part ≠ []) (hnewline : (10 : UInt8) ∉ part) :
    (decodeLines json name [] (linesOf (utf8 dataStart ++ part))).events = [] ∧
      (decodeLines json name [] (linesOf (utf8 dataStart ++ part))).outcome ≠ .ok () := by
  have hbytes : (10 : UInt8) ∉ utf8 dataStart ++ part := by
    rw [mem_append, not_or]
    exact ⟨newline_not_mem_utf8 (by decide), hnewline⟩
  rw [linesOf_last (by simp [hpart]) hbytes, lineOf]
  cases hdecode : utf8Decode? (utf8 dataStart ++ part) with
  | none => exact ⟨rfl, by simp [decodeLines]⟩
  | some text =>
    have hclean : '\n' ∉ text := by
      rw [← utf8_of_decode hdecode, mem_utf8 (by decide)] at hbytes
      exact fun h ↦ hbytes ⟨'\n', h, rfl⟩
    obtain ⟨tail, rfl, htail⟩ := exists_of_decode_append hdecode
    have htail' : tail ≠ [] := by
      rintro rfl
      exact hpart htail.symm
    simp only [stripEnding_of_not_mem hclean, decodeLines, handleLine_dataStart]
    exact decodeLines_left json name htail'

/-- A cut after the first byte of the data is noticed. -/
theorem decodeBytes_data (hname : name = "exo_event".toList ∨ name = "error".toList)
    (hdata : SingleLine data) (hn : (header name).length < n)
    (hcut : n < (dataFrame name data).length) :
    (decodeBytes json ((dataFrame name data).take n)).events = [] ∧
      (decodeBytes json ((dataFrame name data).take n)).outcome ≠ .ok () := by
  have hframe : dataFrame name data = utf8 (header name) ++ (utf8 data ++ [10, 10]) := by
    rw [dataFrame_eq, append_assoc _ data, utf8_append, utf8_append data]
    rfl
  obtain ⟨m, rfl⟩ := Nat.exists_eq_add_of_le hn.le
  rw [hframe, length_append, length_utf8_header hname] at hcut
  have hm : 0 < m := by omega
  have hdataBytes : utf8 data ≠ [] := by
    obtain ⟨c, rest, hcons⟩ := exists_cons_of_ne_nil hdata.nonempty
    simp [hcons, utf8_cons, String.utf8EncodeChar_ne_nil]
  have htake : (dataFrame name data).take ((header name).length + m) =
      utf8 (nameLine name ++ ['\n']) ++ (utf8 dataStart ++ (utf8 data ++ [10, 10]).take m) := by
    rw [hframe, ← length_utf8_header hname, take_length_add_append, header, utf8_append,
      append_assoc]
  rw [htake, decodeBytes, linesOf_line (nameLine_clean hname).1 (nameLine_clean hname).2,
    decodeLines, handleLine_nameLine]
  by_cases hshort : m ≤ (utf8 data).length
  · rw [take_append_of_le_length hshort]
    refine decodeLines_part name ?_ fun h ↦ newline_not_mem_utf8 hdata.newline (mem_of_mem_take h)
    simp [hdataBytes, hm.ne']
  · have hlast : m = (utf8 data).length + 1 := by
      simp only [length_append, length_cons, length_nil] at hcut
      omega
    have hline : utf8 dataStart ++ (utf8 data ++ [10, 10]).take m =
        utf8 (dataStart ++ data ++ ['\n']) ++ [] := by
      rw [hlast, take_length_add_append, utf8_append, utf8_append]
      simp [utf8]
      rfl
    rw [hline, linesOf_line (dataStart_clean hdata).1 (dataStart_clean hdata).2]
    simp only [decodeLines, handleLine_dataStart]
    exact decodeLines_left json name hdata.nonempty

/-- What was cut off a frame with data is noticed exactly if a byte of the data is left. -/
theorem decodeBytes_dataFrame_take (json : SerdeJson Event)
    (hname : name = "exo_event".toList ∨ name = "error".toList) (hdata : SingleLine data)
    (hcut : n < (dataFrame name data).length) :
    (decodeBytes json ((dataFrame name data).take n)).events = [] ∧
      ((decodeBytes json ((dataFrame name data).take n)).outcome = .ok () ↔
        n ≤ (header name).length) := by
  by_cases hheader : n ≤ (header name).length
  · rw [decodeBytes_header hname data hheader]
    exact ⟨rfl, iff_of_true rfl hheader⟩
  · obtain ⟨hevents, hfails⟩ :=
      decodeBytes_data hname hdata (Nat.lt_of_not_le hheader) hcut
    exact ⟨hevents, iff_of_false hfails hheader⟩

theorem decodeBytes_heartbeat_take (hcut : n < heartbeat.length) :
    decodeBytes json (heartbeat.take n) = ⟨[], .ok ()⟩ := by
  have hn : n < 3 := hcut
  interval_cases n
  · rfl
  · have hcolon : heartbeat.take 1 = utf8 [':'] := rfl
    rw [hcolon, decodeBytes, linesOf_last (by decide) (by decide), lineOf_utf8 (by decide)]
    rfl
  · have hline : heartbeat.take 2 = utf8 ([':'] ++ ['\n']) ++ [] := rfl
    rw [hline, decodeBytes, linesOf_line (by decide) (by decide)]
    rfl

/-! ## The stream -/

/-- What is sent for a frame. -/
def Frame.sent (json : SerdeJson Event) : Frame Event → Except Text Bytes
  | .event value => encodeEvent json value
  | .error message => .ok (encodeError json message)
  | .heartbeat => .ok Http.heartbeat

theorem encodeItem_eq (item : Item Event) : encodeItem json item = (frameOf item).sent json := by
  cases item <;> rfl

theorem encode_eq (ready : List Ready) (items : List (Item Event)) :
    encode json ready items = (frames ready items).map (Frame.sent json) := by
  rw [encode]
  induction ready generalizing items with
  | nil => simp [withHeartbeats, frames, encodeItem_eq]
  | cons choice later ih =>
    cases choice with
    | heartbeat => simp [withHeartbeats, frames, ih, Frame.sent]
    | event =>
      cases items with
      | nil => rfl
      | cons item items => simp [withHeartbeats, frames, ih, encodeItem_eq]

theorem mem_frames (hframe : frame ∈ frames ready items) :
    frame = .heartbeat ∨ ∃ item ∈ items, frame = frameOf item := by
  fun_induction frames ready items with
  | case1 later items ih =>
    rcases mem_cons.1 hframe with rfl | hlater
    · exact .inl rfl
    · exact ih hlater
  | case2 later item items ih =>
    rcases mem_cons.1 hframe with rfl | hlater
    · exact .inr ⟨item, mem_cons_self, rfl⟩
    · rcases ih hlater with hbeat | ⟨other, hother, heq⟩
      · exact .inl hbeat
      · exact .inr ⟨other, mem_cons_of_mem item hother, heq⟩
  | case3 => cases hframe
  | case4 items =>
    obtain ⟨item, hitem, rfl⟩ := mem_map.1 hframe
    exact .inr ⟨item, hitem, rfl⟩

/-- The bytes are those of the frame, and the frame can be read back from them. -/
def Sent (json : SerdeJson Event) (frame : Frame Event) (bytes : Bytes) : Prop :=
  match frame with
  | .event event => ∃ data, SingleLine data ∧ json.eventFromStr data = .ok event ∧
      bytes = dataFrame "exo_event".toList data
  | .error message => ∃ data, SingleLine data ∧ json.errorFromStr data = .ok message ∧
      bytes = dataFrame "error".toList data
  | .heartbeat => bytes = heartbeat

theorem sent_frameOf {item : Item Event} (hround : json.RoundTrips item)
    (hsent : (frameOf item).sent json = .ok bytes) : Sent json (frameOf item) bytes := by
  cases item with
  | ok event =>
    obtain ⟨data, hdata, hline, hread⟩ := hround
    refine ⟨data, hline, hread, ?_⟩
    have hbytes : encodeEvent json event = .ok bytes := hsent
    rw [encodeEvent_eq hdata] at hbytes
    exact (Except.ok.inj hbytes).symm
  | error message =>
    refine ⟨_, hround.1, hround.2, ?_⟩
    rw [← encodeError_eq]
    exact (Except.ok.inj hsent).symm

/-- Every piece that `encode` sends belongs to its frame. -/
theorem sent_of_encode {pieces : List Bytes} (hround : ∀ item ∈ items, json.RoundTrips item)
    (hpieces : encode json ready items = pieces.map .ok) :
    ∀ piece ∈ (frames ready items).zip pieces, Sent json piece.1 piece.2 := by
  rintro ⟨frame, bytes⟩ hpiece
  rw [encode_eq] at hpieces
  have hsent : frame.sent json = .ok bytes := by
    obtain ⟨i, hi⟩ := mem_iff_getElem?.1 hpiece
    obtain ⟨hframe, hbytes⟩ := getElem?_zip_eq_some.1 hi
    have hboth := congrArg (·[i]?) hpieces
    simpa [hframe, hbytes] using hboth
  rcases mem_frames (of_mem_zip hpiece).1 with rfl | ⟨item, hitem, rfl⟩
  · exact (Except.ok.inj hsent).symm
  · exact sent_frameOf (hround item hitem) hsent

/-- The bytes of the frame that is cut. -/
def partBytes : Option (Frame Event × Bytes) → Bytes
  | none => []
  | some (_, part) => part

/-- What was decoded first, and then the rest unless it failed. -/
def andThen (first : List Event × Option Text) (rest : Decoded Event) : Decoded Event :=
  match first with
  | (events, none) => ⟨events ++ rest.events, rest.outcome⟩
  | (events, some message) =>
    ⟨events, .error ("runtime event stream failed: ".toList ++ message)⟩

/-- The complete frames are decoded one after the other. -/
theorem decodeBytes_take (hsent : ∀ piece ∈ pieces, Sent json piece.1 piece.2) (n : ℕ) :
    decodeBytes json ((pieces.map Prod.snd).flatten.take n) =
      andThen (delivered (cutAt pieces n).1) (decodeBytes json (partBytes (cutAt pieces n).2)) := by
  induction pieces generalizing n with
  | nil => simp [cutAt, delivered, andThen, partBytes]
  | cons piece rest ih =>
    obtain ⟨frame, bytes⟩ := piece
    have hfirst : Sent json frame bytes := hsent _ mem_cons_self
    rw [cutAt, map_cons, flatten_cons]
    split_ifs with hcut hzero
    · rw [hzero]
      rfl
    · rw [take_append_of_le_length hcut.le]
      rfl
    · have hrest := ih (fun piece hpiece ↦ hsent piece (mem_cons_of_mem _ hpiece))
        (n - bytes.length)
      rw [take_append, take_of_length_le (Nat.le_of_not_lt hcut)]
      cases frame with
      | event event =>
        obtain ⟨data, hdata, hread, rfl⟩ := hfirst
        rw [decodeBytes_event hdata hread, hrest, delivered]
        obtain ⟨events, failed⟩ := delivered (cutAt rest _).1
        cases failed <;> rfl
      | error message =>
        obtain ⟨data, hdata, hread, rfl⟩ := hfirst
        rw [decodeBytes_error hdata hread]
        rfl
      | heartbeat =>
        obtain rfl := hfirst
        rw [decodeBytes_heartbeat, hrest]
        rfl

/-- The frame that is cut begins one of the pieces. -/
theorem exists_of_cutAt (hpart : (cutAt pieces n).2 = some (frame, part)) :
    ∃ bytes k, (frame, bytes) ∈ pieces ∧ k < bytes.length ∧ part = bytes.take k := by
  induction pieces generalizing n with
  | nil => cases hpart
  | cons piece rest ih =>
    obtain ⟨first, bytes⟩ := piece
    rw [cutAt] at hpart
    split_ifs at hpart with hcut hzero
    · cases hpart
      exact ⟨bytes, n, mem_cons_self, hcut, rfl⟩
    · obtain ⟨other, k, hmem, hk, heq⟩ := ih hpart
      exact ⟨other, k, mem_cons_of_mem _ hmem, hk, heq⟩

/-- A frame that is cut in its data is noticed, and no other. -/
theorem decodeBytes_part (hsent : ∀ piece ∈ pieces, Sent json piece.1 piece.2) (n : ℕ) :
    (decodeBytes json (partBytes (cutAt pieces n).2)).events = [] ∧
      ((decodeBytes json (partBytes (cutAt pieces n).2)).outcome = .ok () ↔
        AtBoundary (cutAt pieces n).2 ∨ ¬ ShowsData (cutAt pieces n).2) := by
  cases hpart : (cutAt pieces n).2 with
  | none => exact ⟨rfl, iff_of_true rfl (.inl trivial)⟩
  | some cut =>
    obtain ⟨frame, part⟩ := cut
    obtain ⟨bytes, k, hmem, hk, rfl⟩ := exists_of_cutAt hpart
    have hlength := length_take_of_le hk.le
    have hframe := hsent _ hmem
    cases frame with
    | event event =>
      obtain ⟨data, hdata, -, rfl⟩ := hframe
      obtain ⟨hevents, hends⟩ := decodeBytes_dataFrame_take json (.inl rfl) hdata hk
      refine ⟨hevents, hends.trans ?_⟩
      simp only [AtBoundary, ShowsData, headerLength, eventHeader_eq, hlength, false_or, not_lt]
    | error message =>
      obtain ⟨data, hdata, -, rfl⟩ := hframe
      obtain ⟨hevents, hends⟩ := decodeBytes_dataFrame_take json (.inr rfl) hdata hk
      refine ⟨hevents, hends.trans ?_⟩
      simp only [AtBoundary, ShowsData, headerLength, errorHeader_eq, hlength, false_or, not_lt]
    | heartbeat =>
      obtain rfl := hframe
      rw [partBytes, decodeBytes_heartbeat_take hk]
      exact ⟨rfl, iff_of_true rfl (.inl trivial)⟩

/-- All the bytes: the events up to the first error, and then its message or a clean end. -/
def received : List (Item Event) → Decoded Event
  | [] => ⟨[], .ok ()⟩
  | .ok event :: items => ⟨event :: (received items).events, (received items).outcome⟩
  | .error message :: _ => ⟨[], .error ("runtime event stream failed: ".toList ++ message)⟩

theorem andThen_cons (event : Event) (first : List Event × Option Text) (rest : Decoded Event) :
    andThen (event :: first.1, first.2) rest =
      ⟨event :: (andThen first rest).events, (andThen first rest).outcome⟩ := by
  obtain ⟨events, failed⟩ := first
  cases failed <;> rfl

theorem andThen_delivered_map (items : List (Item Event)) :
    andThen (delivered (items.map frameOf)) ⟨[], .ok ()⟩ = received items := by
  induction items with
  | nil => rfl
  | cons item items ih =>
    cases item with
    | ok event =>
      rw [map_cons, frameOf, delivered, andThen_cons, ih]
      rfl
    | error message => rfl

/-- Heartbeats change nothing. -/
theorem andThen_delivered (ready : List Ready) (items : List (Item Event)) :
    andThen (delivered (frames ready items)) ⟨[], .ok ()⟩ = received items := by
  fun_induction frames ready items with
  | case1 later items ih => exact ih
  | case2 later item items ih =>
    cases item with
    | ok event =>
      rw [frameOf, delivered, andThen_cons, ih]
      rfl
    | error message => rfl
  | case3 => rfl
  | case4 items => exact andThen_delivered_map items

theorem cutAt_of_le (hn : (pieces.map Prod.snd).flatten.length ≤ n) :
    cutAt pieces n = (pieces.map Prod.fst, none) := by
  induction pieces generalizing n with
  | nil => rfl
  | cons piece rest ih =>
    obtain ⟨frame, bytes⟩ := piece
    simp only [map_cons, flatten_cons, length_append] at hn
    have hwhole : ¬ n < bytes.length := by omega
    rw [cutAt, if_neg hwhole, ih (by omega)]
    rfl

theorem map_zip_frames {pieces : List Bytes} (hpieces : encode json ready items = pieces.map .ok) :
    ((frames ready items).zip pieces).map Prod.fst = frames ready items ∧
      ((frames ready items).zip pieces).map Prod.snd = pieces := by
  rw [encode_eq] at hpieces
  have hlength : (frames ready items).length = pieces.length := by
    simpa using congrArg length hpieces
  exact ⟨map_fst_zip hlength.le, map_snd_zip hlength.ge⟩

/-- Without an error frame the end must be clean exactly at a boundary. -/
theorem faithful_iff {whole : List (Frame Event)} {part : Option (Frame Event × Bytes)}
    {rest : Decoded Event} (hevents : rest.events = [])
    (hends : rest.outcome = .ok () ↔ AtBoundary part ∨ ¬ ShowsData part) :
    Faithful whole part (andThen (delivered whole) rest) ↔
      (delivered whole).2 ≠ none ∨ AtBoundary part ∨ ShowsData part := by
  unfold Faithful
  obtain ⟨events, failed⟩ := delivered whole
  cases failed with
  | some message => exact iff_of_true ⟨rfl, rfl⟩ (.inl (Option.some_ne_none message))
  | none =>
    simp only [andThen, hevents, append_nil, hends, true_and, ne_eq, not_true_eq_false, false_or]
    tauto

/-- However the bytes are cut into chunks, all of them are decoded to the items that were encoded;
and of their first `n` bytes the decoder gives exactly what it owes if and only if there was an error
frame, no frame is cut, or a byte of the data of the frame that is cut is left. -/
theorem event_stream_faithful_iff {ready : List Ready} {items : List (Item Event)}
    {pieces : List Bytes} (hround : ∀ item ∈ items, json.RoundTrips item)
    (hpieces : encode json ready items = pieces.map .ok) :
    (∀ chunks : List Bytes, chunks.flatten = pieces.flatten →
      decode json (chunks.map .ok) = received items) ∧
    ∀ (n : ℕ) (chunks : List Bytes), chunks.flatten = pieces.flatten.take n →
      (Faithful (cutAt ((frames ready items).zip pieces) n).1
          (cutAt ((frames ready items).zip pieces) n).2 (decode json (chunks.map .ok)) ↔
        (delivered (cutAt ((frames ready items).zip pieces) n).1).2 ≠ none ∨
          AtBoundary (cutAt ((frames ready items).zip pieces) n).2 ∨
          ShowsData (cutAt ((frames ready items).zip pieces) n).2) := by
  have hsent := sent_of_encode hround hpieces
  obtain ⟨hfst, hsnd⟩ := map_zip_frames hpieces
  have hdecode : ∀ n, decodeBytes json (pieces.flatten.take n) = _ :=
    fun n ↦ hsnd ▸ decodeBytes_take hsent n
  constructor
  · intro chunks hchunks
    have hall := hdecode pieces.flatten.length
    rw [take_length, cutAt_of_le (by rw [hsnd]), hfst] at hall
    rw [decode_chunks, hchunks, hall]
    exact andThen_delivered ready items
  · intro n chunks hchunks
    rw [decode_chunks, hchunks, hdecode n]
    obtain ⟨hevents, hends⟩ := decodeBytes_part hsent n
    exact faithful_iff hevents hends

/-! ## Two examples -/

/-- What stands between two texts. -/
def between (start finish data : Text) : Except Text Text :=
  if start <+: data ∧ finish <:+ data then
    .ok ((data.drop start.length).take (data.length - start.length - finish.length))
  else .error "expected value".toList

theorem between_append (start middle finish : Text) :
    between start finish (start ++ middle ++ finish) = .ok middle := by
  have hstart : start <+: start ++ middle ++ finish := by
    rw [append_assoc]
    exact prefix_append start (middle ++ finish)
  have hlength : (start ++ middle ++ finish).length - start.length - finish.length =
      middle.length := by
    simp only [length_append]
    omega
  rw [between, if_pos ⟨hstart, suffix_append _ _⟩, hlength, append_assoc, drop_left, take_left]

theorem singleLine_append {start middle finish : Text} (hstart : SingleLine start)
    (hmiddle : SingleLine middle) (hfinish : SingleLine finish) :
    SingleLine (start ++ middle ++ finish) where
  nonempty := by simp [hstart.nonempty]
  newline := by simp [hstart.newline, hmiddle.newline, hfinish.newline]
  carriageReturn := by
    simp [hstart.carriageReturn, hmiddle.carriageReturn, hfinish.carriageReturn]

def errorEventStart : Text :=
  "\x7b\"id\":\"".toList ++ "01994038-1f00-7000".toList ++ "-8000-000000000001\"".toList ++
    ",\"thread_id\":\"".toList ++ "01994038-1f00-7000".toList ++ "-8000-000000000000\"".toList ++
    ",\"session_id\":null".toList ++ ",\"turn_id\":null".toList ++ ",\"created_at\":\"".toList ++
    "2026-09-13T00:00:00Z\"".toList ++ ",\"data\":\x7b\"type\":".toList ++
    "\"error\",\"message\":\"".toList

def errorEventEnd : Text := "\"\x7d\x7d".toList

def streamErrorStart : Text := "\x7b\"error\":\"".toList

def streamErrorEnd : Text := "\"\x7d".toList

/-- The error events of one thread at one moment, told by their messages. -/
def plainJson : SerdeJson Text where
  eventToString message := .ok (errorEventStart ++ message ++ errorEventEnd)
  eventFromStr := between errorEventStart errorEventEnd
  errorToString message := streamErrorStart ++ message ++ streamErrorEnd
  errorFromStr := between streamErrorStart streamErrorEnd

theorem plainJson_roundTrips (hmessage : SingleLine message) :
    plainJson.RoundTrips (.ok message) ∧ plainJson.RoundTrips (.error message) := by
  constructor
  · have hread : plainJson.eventFromStr (errorEventStart ++ message ++ errorEventEnd) =
        .ok message := by
      simp only [plainJson, between_append]
    refine ⟨_, rfl, singleLine_append ?_ hmessage ?_, hread⟩
    · exact ⟨by decide +kernel, by decide +kernel, by decide +kernel⟩
    · exact ⟨by decide, by decide, by decide⟩
  · refine ⟨singleLine_append ?_ hmessage ?_, between_append _ _ _⟩
    · exact ⟨by decide, by decide, by decide⟩
    · exact ⟨by decide, by decide, by decide⟩

def plainItems : List (Item Text) := [.ok "café".toList, .error "revoked".toList]

theorem roundTrips_plainItems : ∀ item ∈ plainItems, plainJson.RoundTrips item := by
  intro item hitem
  simp only [plainItems, mem_cons, not_mem_nil, or_false] at hitem
  obtain rfl | rfl := hitem
  · exact (plainJson_roundTrips ⟨by decide, by decide, by decide⟩).1
  · exact (plainJson_roundTrips ⟨by decide, by decide, by decide⟩).2

/-- The data of the first item. -/
def plainData : Text := errorEventStart ++ "café".toList ++ errorEventEnd

/-- What is sent for the items, with a heartbeat between the two frames. -/
def plainPieces : List Bytes :=
  [dataFrame "exo_event".toList plainData, heartbeat, encodeError plainJson "revoked".toList]

theorem encode_plainItems :
    encode plainJson [.event, .heartbeat] plainItems = plainPieces.map .ok := by
  have hfirst : encodeEvent plainJson "café".toList =
      .ok (dataFrame "exo_event".toList plainData) := encodeEvent_eq rfl
  simp only [encode, withHeartbeats, plainItems, map_cons, map_nil, encodeItem, hfirst, plainPieces]

theorem cutAt_of_lt {rest : List (Frame Event × Bytes)} (hn : 0 < n) (hcut : n < bytes.length) :
    cutAt ((frame, bytes) :: rest) n = ([], some (frame, bytes.take n)) := by
  rw [cutAt, if_pos hcut, if_neg hn.ne']

theorem cutAt_plainPieces (hn : 0 < n) (hcut : n < 200) :
    cutAt ((frames [.event, .heartbeat] plainItems).zip plainPieces) n =
      ([], some (.event "café".toList, (dataFrame "exo_event".toList plainData).take n)) := by
  have hlength : 200 ≤ (dataFrame "exo_event".toList plainData).length := by
    decide +kernel
  exact cutAt_of_lt hn (hcut.trans_le hlength)

/-- The two frames arrive byte by byte, so that the last letter of the first message is cut too; and
a cut in the data of the first frame is noticed. -/
theorem event_stream_faithful_plain :
    decode plainJson ((plainPieces.flatten.map fun byte ↦ [byte]).map .ok) =
      ⟨["café".toList], .error "runtime event stream failed: revoked".toList⟩ ∧
    Faithful (cutAt ((frames [.event, .heartbeat] plainItems).zip plainPieces) 24).1
      (cutAt ((frames [.event, .heartbeat] plainItems).zip plainPieces) 24).2
      (decode plainJson ([plainPieces.flatten.take 24].map .ok)) := by
  obtain ⟨hall, hcut⟩ := event_stream_faithful_iff roundTrips_plainItems encode_plainItems
  have hbytes : (plainPieces.flatten.map fun byte ↦ [byte]).flatten = plainPieces.flatten := by
    rw [← flatMap_def, flatMap_singleton']
  refine ⟨hall _ hbytes, (hcut 24 _ (by simp)).2 (.inr (.inr ?_))⟩
  rw [cutAt_plainPieces (by decide) (by decide)]
  show eventHeader.length < (take 24 (dataFrame "exo_event".toList plainData)).length
  decide +kernel

/-- The connection breaks in the name of the frame, and the stream ends as if nothing were lost. -/
theorem cut_name_ends_cleanly :
    ¬ ∀ (n : ℕ) (chunks : List Bytes), chunks.flatten = plainPieces.flatten.take n →
      Faithful (cutAt ((frames [.event, .heartbeat] plainItems).zip plainPieces) n).1
        (cutAt ((frames [.event, .heartbeat] plainItems).zip plainPieces) n).2
        (decode plainJson (chunks.map .ok)) := by
  intro hfaithful
  have hten := hfaithful 10 [plainPieces.flatten.take 10] (by simp)
  have hbytes : plainPieces.flatten.take 10 =
      (dataFrame "exo_event".toList plainData).take 10 := by
    decide +kernel
  rw [decode_chunks, flatten_singleton, hbytes, decodeBytes_header (.inl rfl) _ (by decide),
    cutAt_plainPieces (by decide) (by decide)] at hten
  exact hten.2.1 rfl

end Exo.Http
