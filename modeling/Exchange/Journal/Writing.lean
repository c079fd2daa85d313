import Exchange.Journal.Reading
import Mathlib.Data.List.Induction

/-!
# What a journal writes

A session opens a journal, logs some events and closes it.  What it appends to the file is a frame
for each event, numbered from 0: `session_eq`.  `written` are the frames of a file after any number
of sessions.
-/

namespace Exchange

namespace LogCall

def type : LogCall → EventType
  | .order _ type _ _ => type
  | .trade _ _ _ => .Trade

def now : LogCall → Timestamp
  | .order _ _ now _ | .trade _ now _ => now

def payload : LogCall → List UInt8
  | .order o _ _ padding => (JournalOrder.ofOrder o).bytes padding
  | .trade t _ padding => (JournalTrade.ofTrade t).bytes padding

def payloadSize : LogCall → UInt32
  | .order _ _ _ _ => 48
  | .trade _ _ _ => 56

def header (c : LogCall) (sequence : UInt64) : JournalHeader where
  sequence := sequence
  timestamp := c.now
  eventType := c.type
  reserved := .replicate 7 0
  payloadSize := c.payloadSize
  checksum := computeChecksum initCrc32Table c.payload

lemma length_payload (c : LogCall) : c.payload.length = c.payloadSize.toNat := by
  cases c
  · exact JournalOrder.length_bytes _ _
  · exact JournalTrade.length_bytes _ _

/-- The bytes that an event takes in the file. -/
def recordSize (c : LogCall) : Nat := 32 + c.payloadSize.toNat

/-- What is appended to the file. -/
def frame (c : LogCall) (sequence : UInt64) : journalFraming.Frame where
  header := (c.header sequence).bytes
  payload := c.payload
  header_length := JournalHeader.length_bytes _
  payload_length := by
    show _ = (JournalHeader.ofBytes (c.header sequence).bytes).payloadSize.toNat
    rw [JournalHeader.ofBytes_bytes]
    exact c.length_payload

@[simp] lemma length_frame (c : LogCall) (sequence : UInt64) :
    (c.frame sequence).bytes.length = c.recordSize := by
  rw [Framing.Frame.bytes, List.length_append, (c.frame sequence).header_length]
  exact congrArg (32 + ·) c.length_payload

/-- A reader gets the header and the payload that were written. -/
@[simp] lemma record_frame (c : LogCall) (sequence : UInt64) :
    record (c.frame sequence) = (c.header sequence, c.payload) := by
  rw [record, frame, JournalHeader.ofBytes_bytes]

/-- Every record that is written passes its check. -/
@[simp] lemma verifies_logged (c : LogCall) (sequence : UInt64) :
    JournalReader.verifies initCrc32Table (c.header sequence, c.payload) = true := by
  have hne : c.payload.isEmpty = false := by
    rw [List.isEmpty_eq_false_iff, ← List.length_pos_iff, c.length_payload]
    cases c
    · exact (by decide : 0 < (48 : UInt32).toNat)
    · exact (by decide : 0 < (56 : UInt32).toNat)
  rw [JournalReader.verifies, hne]
  exact beq_self_eq_true _

end LogCall

namespace EventJournal

theorem log_eq (j : EventJournal) (c : LogCall) :
    j.log c =
      { content := j.content ++ (c.frame j.sequence).bytes
        sequence := j.sequence + 1
        fileSize := j.fileSize + UInt64.ofNat (c.frame j.sequence).bytes.length } := by
  rw [LogCall.length_frame]
  cases c with
  | order order type now padding =>
      simp only [log, logOrder, writeHeader, write, List.append_assoc]
      rfl
  | trade trade now padding =>
      simp only [log, logTrade, writeHeader, write, List.append_assoc]
      rfl

/-- The frames of a session. -/
def frames (calls : List LogCall) : List journalFraming.Frame :=
  calls.mapIdx fun i c => c.frame (UInt64.ofNat i)

/-- Open the journal, log the events. -/
def session (content : List UInt8) (calls : List LogCall) : EventJournal :=
  calls.foldl log (construct content)

@[simp] lemma length_frames (calls : List LogCall) : (frames calls).length = calls.length :=
  List.length_mapIdx

lemma map_frames {β : Type} (g : journalFraming.Frame → β) (calls : List LogCall) :
    (frames calls).map g = calls.mapIdx fun i c => g (c.frame (UInt64.ofNat i)) := by
  refine List.ext_getElem? fun i => ?_
  rw [List.getElem?_map, frames, List.getElem?_mapIdx, List.getElem?_mapIdx, Option.map_map]
  rfl

lemma frames_concat (calls : List LogCall) (c : LogCall) :
    frames (calls ++ [c]) = frames calls ++ [c.frame (UInt64.ofNat calls.length)] :=
  List.mapIdx_concat

/-- **What a session writes.** -/
theorem session_eq (content : List UInt8) (calls : List LogCall) :
    session content calls =
      { content := content ++ Framing.joined (frames calls)
        sequence := UInt64.ofNat calls.length
        fileSize := UInt64.ofNat (Framing.joined (frames calls)).length } := by
  induction calls using List.reverseRecOn with
  | nil => simp [session, construct, frames, Framing.joined]
  | append_singleton calls c ih =>
      have hlast : session content (calls ++ [c]) = (session content calls).log c := by
        rw [session, List.foldl_append]
        rfl
      have hjoined : Framing.joined (frames (calls ++ [c]))
          = Framing.joined (frames calls) ++ (c.frame (UInt64.ofNat calls.length)).bytes := by
        rw [frames_concat, Framing.joined_append, Framing.joined_cons]
        exact congrArg _ (List.append_nil _)
      rw [hlast, ih, log_eq, hjoined, List.append_assoc, List.length_append, List.length_append,
        UInt64.ofNat_add, UInt64.ofNat_add]
      rfl

/-- A new journal is read as it was written. -/
lemma split_session (calls : List LogCall) :
    journalFraming.split (session [] calls).content = (frames calls, []) := by
  rw [session_eq]
  exact Framing.split_joined _

/-- The frames of a file after some sessions. -/
def written (sessions : List (List LogCall)) : List journalFraming.Frame :=
  sessions.flatMap frames

lemma mem_written {sessions : List (List LogCall)} {f : journalFraming.Frame}
    (h : f ∈ written sessions) : ∃ (c : LogCall) (sequence : UInt64), f = c.frame sequence := by
  obtain ⟨calls, -, hf⟩ := List.mem_flatMap.mp h
  obtain ⟨i, hi, rfl⟩ := List.mem_mapIdx.mp hf
  exact ⟨_, _, rfl⟩

/-- What a file holds after some sessions, one after the other. -/
def fileAfter (sessions : List (List LogCall)) : List UInt8 :=
  sessions.foldl (fun content calls => (session content calls).content) []

lemma fileAfter_concat (before : List (List LogCall)) (calls : List LogCall) :
    fileAfter (before ++ [calls]) = (session (fileAfter before) calls).content := by
  rw [fileAfter, List.foldl_append]
  rfl

theorem fileAfter_eq (sessions : List (List LogCall)) :
    fileAfter sessions = Framing.joined (written sessions) := by
  induction sessions using List.reverseRecOn with
  | nil => rfl
  | append_singleton before calls ih =>
      rw [fileAfter_concat, session_eq, ih, written, written, List.flatMap_append,
        Framing.joined_append, List.flatMap_singleton]

end EventJournal

end Exchange
