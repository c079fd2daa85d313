import Exchange.Journal.Seeking

/-!
# A reader is a cursor

Every call of a `JournalReader` goes through one `std::ifstream`, whose flags outlive the call: at
the end of the file `has_more` sets one of them, after which `position` fails.

`Cursor` says what the class is for, in terms of the complete records of the file and not of its
bytes: how many records have been read, and which was the last.

**`JournalReader.answers_eq`** — whatever calls are made in whatever order, a reader answers as the
cursor does.
-/

namespace Exchange

namespace InputFile

variable (f : InputFile)

/-- `peek() != EOF`. -/
def peek : Bool × InputFile :=
  if f.eof || f.fail then (false, { f with fail := true })
  else if f.rest.isEmpty then (false, { f with eof := true })
  else (true, f)

/-- `tellg()`. -/
def tell : Int × InputFile :=
  if f.eof || f.fail then (-1, { f with fail := true }) else (f.pos, f)

variable {f} in
/-- No flag is set. -/
lemma Reads.good {bs : List UInt8} (h : f.Reads bs) : ¬ (f.eof || f.fail) = true := by
  rw [h.eof_eq, h.fail_eq]
  exact Bool.false_ne_true

end InputFile

/-- A call of a method of `JournalReader`. -/
inductive ReaderCall
  | readNext
  | seekToSequence (seq : UInt64)
  | reset
  | hasMore
  | verifyChecksum
  | position

/-- What the methods return. -/
inductive ReaderAnswer
  | record (read : Option (JournalHeader × List UInt8))
  | bool (b : Bool)
  | position (p : UInt64)
  | none

namespace JournalReader

variable (r : JournalReader)

def hasMore : Bool × JournalReader :=
  if r.file.fail then (false, r)
  else
    let (more, file) := r.file.peek
    (more, { r with file := file })

def position : UInt64 × JournalReader :=
  let (p, file) := r.file.tell
  (.ofInt p, { r with file := file })

def call (table : CrcTable) : ReaderCall → ReaderAnswer × JournalReader
  | .readNext => (.record r.readNext.1, r.readNext.2)
  | .seekToSequence seq => (.bool (r.seekToSequence seq).1, (r.seekToSequence seq).2)
  | .reset => (.none, r.reset)
  | .hasMore => (.bool r.hasMore.1, r.hasMore.2)
  | .verifyChecksum => (.bool (r.verifyChecksum table), r)
  | .position => (.position r.position.1, r.position.2)

/-- What the calls return, one after the other. -/
def answers (table : CrcTable) : List ReaderCall → JournalReader → List ReaderAnswer
  | [], _ => []
  | c :: calls, r => (r.call table c).1 :: answers table calls (r.call table c).2

end JournalReader

/-! ## The cursor -/

/-- `ended`: the end of the file has been noticed, and no call has failed yet. -/
inductive CursorMode
  | reading
  | ended
  | failed
deriving DecidableEq

/-- `index` records have been read.  `last` is the one that `verify_checksum` is about. -/
structure Cursor where
  index : Nat := 0
  mode : CursorMode
  last : Option (JournalHeader × List UInt8) := none

namespace Cursor

/-- At the beginning of a file, if there is one. -/
def start (content : Option (List UInt8)) : Cursor where
  mode := if content.isSome then .reading else .failed

/-- Where record `i` begins. -/
def offset (content : Option (List UInt8)) (i : Nat) : Nat :=
  (Framing.joined ((fileFrames content).take i)).length

/-- There is something after the complete records. -/
def torn (content : Option (List UInt8)) : Bool :=
  !(journalFraming.split (content.getD [])).2.isEmpty

variable (table : CrcTable) (content : Option (List UInt8)) (c : Cursor)

def readNext : Option (JournalHeader × List UInt8) × Cursor :=
  match c.mode with
  | .failed => (none, c)
  | .ended => (none, { c with mode := .failed, last := none })
  | .reading =>
      match (fileFrames content)[c.index]? with
      | none => (none, { c with mode := .failed, last := none })
      | some f => (some (record f), { c with index := c.index + 1, last := some (record f) })

/-- The first record with the number `seq` or a greater one will be read next. -/
def seekToSequence (seq : UInt64) : Bool × Cursor :=
  match (fileFrames content)[JournalReader.seekIndex seq (fileFrames content)]? with
  | none => (false, { mode := .failed })
  | some f =>
      (true,
        { index := JournalReader.seekIndex seq (fileFrames content)
          mode := .reading
          last := some (record f) })

/-- There are records to be read, or a part of one. -/
def hasMore : Bool × Cursor :=
  match c.mode with
  | .failed => (false, c)
  | .ended => (false, { c with mode := .failed })
  | .reading =>
      if c.index < (fileFrames content).length ∨ torn content then (true, c)
      else (false, { c with mode := .ended })

def position : UInt64 × Cursor :=
  match c.mode with
  | .reading => (.ofNat (offset content c.index), c)
  | .ended | .failed => (-1, { c with mode := .failed })

def call : ReaderCall → ReaderAnswer × Cursor
  | .readNext => (.record (c.readNext content).1, (c.readNext content).2)
  | .seekToSequence seq => (.bool (seekToSequence content seq).1, (seekToSequence content seq).2)
  | .reset => (.none, start content)
  | .hasMore => (.bool (c.hasMore content).1, (c.hasMore content).2)
  | .verifyChecksum => (.bool (c.last.elim false (JournalReader.verifies table)), c)
  | .position => (.position (c.position content).1, (c.position content).2)

def answers : List ReaderCall → Cursor → List ReaderAnswer
  | [], _ => []
  | k :: calls, c => (c.call table content k).1 :: answers calls (c.call table content k).2

end Cursor

namespace JournalReader

open Cursor

/-! ## Where a reader stands -/

/-- What follows the first `i` records. -/
def bytesFrom (content : Option (List UInt8)) (i : Nat) : List UInt8 :=
  Framing.joined ((fileFrames content).drop i) ++ (journalFraming.split (content.getD [])).2

/-- The reader is at the beginning of record `i`. -/
structure StandsAt (content : Option (List UInt8)) (r : JournalReader) (i : Nat) : Prop where
  reads : r.file.Reads (bytesFrom content i)
  index_le : i ≤ (fileFrames content).length
  pos_eq : r.file.pos = offset content i

/-- What the flags of the stream are. -/
def ModeOf (content : Option (List UInt8)) (r : JournalReader) (c : Cursor) : Prop :=
  match c.mode with
  | .reading => StandsAt content r c.index
  | .ended => content.isSome = true ∧ r.file.eof = true ∧ r.file.fail = false
  | .failed => r.file.fail = true

/-- The last record, if there is one that `verify_checksum` is about. -/
def lastRecord (r : JournalReader) : Option (JournalHeader × List UInt8) :=
  if r.lastValid then some (r.lastHeader, r.lastPayload) else none

structure Tracks (content : Option (List UInt8)) (r : JournalReader) (c : Cursor) : Prop where
  content_eq : r.file.content = content
  last_eq : r.lastRecord = c.last
  modeOf : ModeOf content r c

variable {content : Option (List UInt8)} {r : JournalReader} {c : Cursor} {i : Nat}
  {f : journalFraming.Frame}

lemma fileFrames_eq (content : Option (List UInt8)) :
    fileFrames content = (journalFraming.split (content.getD [])).1 := by
  cases content with
  | none => exact congrArg Prod.fst (Framing.split_joined []).symm
  | some bs => rfl

lemma bytesFrom_zero (content : Option (List UInt8)) : bytesFrom content 0 = content.getD [] := by
  rw [bytesFrom, List.drop_zero, fileFrames_eq]
  exact (journalFraming.split_spec _).1.symm

lemma bytesFrom_of_getElem? (hf : (fileFrames content)[i]? = some f) :
    bytesFrom content i = f.bytes ++ bytesFrom content (i + 1) := by
  obtain ⟨hi, rfl⟩ := List.getElem?_eq_some_iff.mp hf
  rw [bytesFrom, List.drop_eq_getElem_cons hi, Framing.joined_cons, List.append_assoc, bytesFrom]

lemma offset_succ (hf : (fileFrames content)[i]? = some f) :
    offset content (i + 1) = offset content i + f.bytes.length := by
  rw [offset, offset, List.take_add_one, hf, Framing.joined_append, List.length_append]
  exact congrArg (_ + ·) (congrArg List.length (List.append_nil _))

/-- Behind the last record there is none. -/
lemma next_bytesFrom (hi : (fileFrames content)[i]? = none) :
    journalFraming.next (bytesFrom content i) = none := by
  rw [bytesFrom, List.drop_eq_nil_of_le (List.getElem?_eq_none_iff.mp hi)]
  exact (journalFraming.split_spec _).2

lemma Tracks.verifyChecksum (h : Tracks content r c) (table : CrcTable) :
    r.verifyChecksum table = c.last.elim false (verifies table) := by
  have hlast := h.last_eq
  rw [lastRecord] at hlast
  cases hvalid : r.lastValid with
  | true =>
      rw [hvalid, if_pos rfl] at hlast
      rw [← hlast]
      exact verifyChecksum_of_valid hvalid rfl
  | false =>
      rw [hvalid, if_neg Bool.false_ne_true] at hlast
      rw [← hlast]
      exact verifyChecksum_of_invalid hvalid

lemma tracks_start (hcontent : r.file.content = content) (hvalid : r.lastValid = false)
    (hpos : r.file.pos = 0) (heof : r.file.eof = false) (hfail : r.file.fail = content.isNone) :
    Tracks content r (start content) := by
  refine ⟨hcontent, by rw [lastRecord, hvalid]; rfl, ?_⟩
  cases content with
  | none => exact hfail
  | some bs =>
      refine ⟨⟨by rw [hcontent]; rfl, heof, hfail, ?_⟩, Nat.zero_le _, hpos⟩
      show r.file.rest = bytesFrom (some bs) 0
      rw [bytesFrom_zero, InputFile.rest, hcontent, hpos]
      rfl

lemma tracks_construct (content : Option (List UInt8)) :
    Tracks content (construct content) (start content) := tracks_start rfl rfl rfl rfl rfl

lemma Tracks.reset (h : Tracks content r c) : Tracks content r.reset (start content) :=
  tracks_start h.content_eq rfl rfl rfl (by rw [← h.content_eq]; rfl)

/-! ## One call -/

/-- Nothing can be read any more. -/
lemma tracks_failed (hcontent : r.file.content = content) (hvalid : r.lastValid = false)
    (hfail : r.file.fail = true) (i : Nat) :
    Tracks content r { index := i, mode := .failed } :=
  ⟨hcontent, by rw [lastRecord, hvalid]; rfl, hfail⟩

/-- The record that is read. -/
lemma StandsAt.readNext (h : StandsAt content r i) (hcontent : r.file.content = content)
    (hf : (fileFrames content)[i]? = some f) :
    ∃ r', r.readNext = (some (record f), r') ∧
      Tracks content r' { index := i + 1, mode := .reading, last := some (record f) } ∧
      StandsAt content { r' with file := r'.file.seekBack f.bytes.length } i := by
  have hreads := h.reads
  rw [bytesFrom_of_getElem? hf] at hreads
  obtain ⟨hi, -⟩ := List.getElem?_eq_some_iff.mp hf
  refine ⟨_, readNext_bytes hreads, ⟨hcontent, rfl, hreads.advance rfl, hi, ?_⟩, ?_, h.index_le, ?_⟩
  · rw [offset_succ hf, ← h.pos_eq]
    rfl
  · show ((r.file.advance _).seekBack _).Reads _
    rw [hreads.seekBack_advance]
    exact h.reads
  · show ((r.file.advance _).seekBack _).pos = _
    rw [hreads.seekBack_advance]
    exact h.pos_eq

lemma StandsAt.readNext_end (h : StandsAt content r i) (hcontent : r.file.content = content)
    (hi : (fileFrames content)[i]? = none) :
    ∃ r', r.readNext = (none, r') ∧ Tracks content r' { index := i, mode := .failed } := by
  obtain ⟨r', hread, hended, hvalid⟩ := next_none h.reads (next_bytesFrom hi)
  refine ⟨r', hread, tracks_failed ?_ hvalid hended i⟩
  rw [← hcontent, ← content_readNext r, hread]

lemma Tracks.readNext (h : Tracks content r c) :
    r.readNext.1 = (c.readNext content).1 ∧ Tracks content r.readNext.2 (c.readNext content).2 := by
  have hmode := h.modeOf
  obtain ⟨i, mode, last⟩ := c
  cases mode with
  | failed =>
      rw [Ended.readNext hmode]
      exact ⟨rfl, h⟩
  | ended =>
      obtain ⟨hopen, heof, hfail⟩ := hmode
      have husable : (r.file.fail || r.file.content.isNone) = false := by
        rw [hfail, h.content_eq, ← Option.not_isSome, hopen]
        rfl
      have hread : r.file.read 32 = ([], { r.file with fail := true }) :=
        if_pos (by rw [heof, Bool.true_or])
      rw [JournalReader.readNext, husable]
      simp only [hread, Bool.true_or, if_true, Bool.false_eq_true, if_false]
      exact ⟨rfl, h.content_eq, rfl, rfl⟩
  | reading =>
      rw [Cursor.readNext]
      cases hf : (fileFrames content)[i]? with
      | none =>
          obtain ⟨r', hread, htracks⟩ := StandsAt.readNext_end hmode h.content_eq hf
          rw [hread]
          exact ⟨rfl, htracks⟩
      | some f =>
          obtain ⟨r', hread, htracks, -⟩ := StandsAt.readNext hmode h.content_eq hf
          rw [hread]
          exact ⟨rfl, htracks⟩

/-- Where the reader stands there is nothing left. -/
lemma isEmpty_bytesFrom (content : Option (List UInt8)) (i : Nat) :
    (bytesFrom content i).isEmpty = true
      ↔ ¬ (i < (fileFrames content).length ∨ torn content = true) := by
  rw [bytesFrom, List.isEmpty_iff, List.append_eq_nil_iff, not_or, torn, Bool.not_eq_true,
    Bool.not_eq_false', List.isEmpty_iff, Nat.not_lt]
  refine and_congr_left fun _ => ⟨fun hnil => ?_, fun hle => ?_⟩
  · have hlength := Framing.length_le_length_joined ((fileFrames content).drop i)
    rw [hnil, List.length_drop] at hlength
    exact Nat.le_of_sub_eq_zero (Nat.le_zero.mp hlength)
  · rw [List.drop_eq_nil_of_le hle]
    rfl

lemma Tracks.hasMore (h : Tracks content r c) :
    r.hasMore.1 = (c.hasMore content).1 ∧ Tracks content r.hasMore.2 (c.hasMore content).2 := by
  have hmode := h.modeOf
  obtain ⟨i, mode, last⟩ := c
  cases mode with
  | failed =>
      have hfail : r.file.fail = true := hmode
      rw [JournalReader.hasMore, if_pos hfail]
      exact ⟨rfl, h⟩
  | ended =>
      obtain ⟨-, heof, hfail⟩ := hmode
      have hpeek : r.file.peek = (false, { r.file with fail := true }) :=
        if_pos (by rw [heof, Bool.true_or])
      rw [JournalReader.hasMore, hfail, if_neg Bool.false_ne_true]
      simp only [hpeek]
      exact ⟨rfl, h.content_eq, h.last_eq, rfl⟩
  | reading =>
      have hstands : StandsAt content r i := hmode
      have hcursor : Cursor.hasMore content { index := i, mode := .reading, last := last }
          = if i < (fileFrames content).length ∨ torn content = true
            then (true, { index := i, mode := .reading, last := last })
            else (false, { index := i, mode := .ended, last := last }) := rfl
      have hreader : r.hasMore = if (bytesFrom content i).isEmpty = true
          then (false, { r with file := { r.file with eof := true } }) else (true, r) := by
        rw [JournalReader.hasMore, hstands.reads.fail_eq, if_neg Bool.false_ne_true,
          InputFile.peek, if_neg hstands.reads.good, hstands.reads.rest_eq]
        split_ifs <;> rfl
      have hiff := isEmpty_bytesFrom content i
      by_cases hmore : i < (fileFrames content).length ∨ torn content = true
      · rw [hreader, hcursor, if_neg fun hempty => hiff.mp hempty hmore, if_pos hmore]
        exact ⟨rfl, h⟩
      · rw [hreader, hcursor, if_pos (hiff.mpr hmore), if_neg hmore]
        refine ⟨rfl, h.content_eq, h.last_eq, ?_, rfl, hstands.reads.fail_eq⟩
        rw [← h.content_eq]
        exact hstands.reads.isOpen

lemma Tracks.position (h : Tracks content r c) :
    r.position.1 = (c.position content).1 ∧ Tracks content r.position.2 (c.position content).2 := by
  have hmode := h.modeOf
  obtain ⟨i, mode, last⟩ := c
  have hbad : (r.file.eof || r.file.fail) = true →
      r.file.tell = (-1, { r.file with fail := true }) := fun hbad => if_pos hbad
  cases mode with
  | failed =>
      have hfail : r.file.fail = true := hmode
      rw [JournalReader.position]
      simp only [hbad (by rw [hfail, Bool.or_true])]
      exact ⟨rfl, h.content_eq, h.last_eq, rfl⟩
  | ended =>
      obtain ⟨-, heof, -⟩ := hmode
      rw [JournalReader.position]
      simp only [hbad (by rw [heof, Bool.true_or])]
      exact ⟨rfl, h.content_eq, h.last_eq, rfl⟩
  | reading =>
      have hstands : StandsAt content r i := hmode
      have htell : r.file.tell = ((r.file.pos : Int), r.file) := if_neg hstands.reads.good
      rw [JournalReader.position]
      simp only [htell]
      refine ⟨?_, h⟩
      rw [hstands.pos_eq]
      exact UInt64.ofNat_mod_size

/-! ## Seeking -/

/-- The records before place `i` have smaller numbers. -/
def Below (content : Option (List UInt8)) (seq : UInt64) (i : Nat) : Prop :=
  ∀ g ∈ (fileFrames content).take i, reaches seq g = false

lemma seekToSequence_of_none {seq : UInt64} (hbelow : Below content seq i)
    (hi : (fileFrames content)[i]? = none) :
    Cursor.seekToSequence content seq = (false, { mode := .failed }) := by
  rw [Below, List.take_of_length_le (List.getElem?_eq_none_iff.mp hi)] at hbelow
  have hnone : (fileFrames content)[seekIndex seq (fileFrames content)]? = none :=
    List.getElem?_eq_none_iff.mpr (Nat.le_of_eq (List.findIdx_eq_length_of_false hbelow).symm)
  rw [Cursor.seekToSequence, hnone]

lemma seekToSequence_of_some {seq : UInt64} (hbelow : Below content seq i)
    (hf : (fileFrames content)[i]? = some f) (hreaches : reaches seq f = true) :
    Cursor.seekToSequence content seq
      = (true, { index := i, mode := .reading, last := some (record f) }) := by
  obtain ⟨hi, hget⟩ := List.getElem?_eq_some_iff.mp hf
  have hindex : seekIndex seq (fileFrames content) = i := by
    rw [seekIndex, List.findIdx_eq hi, hget]
    refine ⟨hreaches, fun j hj => hbelow _ ?_⟩
    exact List.mem_take_iff_getElem.mpr ⟨j, by omega, rfl⟩
  rw [Cursor.seekToSequence, hindex, hf]

lemma Below.succ {seq : UInt64} (hbelow : Below content seq i)
    (hf : (fileFrames content)[i]? = some f) (hreaches : reaches seq f = false) :
    Below content seq (i + 1) := by
  intro g hg
  rw [List.take_add_one, hf] at hg
  rcases List.mem_append.mp hg with hg | hg
  · exact hbelow g hg
  · obtain rfl := List.mem_singleton.mp hg
    exact hreaches

/-- The loop of a seek that has come to place `i`. -/
lemma seek_from {seq : UInt64} {n : Nat} (hn : (fileFrames content).length - i < n)
    (hcontent : r.file.content = content) (h : StandsAt content r i)
    (hbelow : Below content seq i) :
    let found := Loop.run (seekStep seq) n (false, r)
    found.1 = (Cursor.seekToSequence content seq).1 ∧
      Tracks content found.2 (Cursor.seekToSequence content seq).2 := by
  induction n generalizing r i with
  | zero => exact absurd hn (Nat.not_lt_zero _)
  | succ n ih =>
      intro found
      cases hf : (fileFrames content)[i]? with
      | none =>
          obtain ⟨r', hread, htracks⟩ := h.readNext_end hcontent hf
          have hstep : seekStep seq (false, r) = .done (false, r') := by rw [seekStep, hread]
          have hfound : found = (false, r') := Loop.run_succ_done hstep
          rw [hfound, seekToSequence_of_none hbelow hf]
          exact ⟨rfl, htracks.content_eq, htracks.last_eq, htracks.modeOf⟩
      | some f =>
          obtain ⟨r', hread, htracks, hback⟩ := h.readNext hcontent hf
          cases hreaches : reaches seq f with
          | true =>
              have hstep : seekStep seq (false, r)
                  = .done (true, { r' with file := r'.file.seekBack f.bytes.length }) := by
                rw [seekStep, hread, length_bytes]
                exact if_pos (of_decide_eq_true hreaches)
              have hfound : found = _ := Loop.run_succ_done hstep
              rw [hfound, seekToSequence_of_some hbelow hf hreaches]
              exact ⟨rfl, (content_seekBack _ _).trans htracks.content_eq, htracks.last_eq, hback⟩
          | false =>
              have hstep : seekStep seq (false, r) = .yield (false, r') := by
                rw [seekStep, hread]
                exact if_neg (of_decide_eq_false hreaches)
              have hfound : found = Loop.run (seekStep seq) n (false, r') :=
                Loop.run_succ_yield hstep
              obtain ⟨hi, -⟩ := List.getElem?_eq_some_iff.mp hf
              rw [hfound]
              have hfuel : (fileFrames content).length - (i + 1) < n := by omega
              exact ih hfuel htracks.content_eq htracks.modeOf (hbelow.succ hf hreaches)

lemma Tracks.seekToSequence (h : Tracks content r c) (seq : UInt64) :
    (r.seekToSequence seq).1 = (Cursor.seekToSequence content seq).1 ∧
      Tracks content (r.seekToSequence seq).2 (Cursor.seekToSequence content seq).2 := by
  have hreset := h.reset
  cases content with
  | none =>
      have hfail : r.reset.file.fail = true := hreset.modeOf
      have hstep : seekStep seq (false, r.reset) = .done (false, r.reset) := by
        rw [seekStep, Ended.readNext hfail]
      have hfound : r.seekToSequence seq = (false, r.reset) := Loop.run_succ_done hstep
      rw [hfound]
      exact ⟨rfl, hreset⟩
  | some bs =>
      have hstands : StandsAt (some bs) r.reset 0 := hreset.modeOf
      refine seek_from ?_ hreset.content_eq hstands fun g hg => absurd hg List.not_mem_nil
      rw [hstands.reads.rest_eq, bytesFrom_zero, Nat.sub_zero]
      exact Nat.lt_succ_of_le (length_fileFrames_le (some bs))

/-! ## Any calls -/

lemma Tracks.call (table : CrcTable) (h : Tracks content r c) (k : ReaderCall) :
    (r.call table k).1 = (c.call table content k).1 ∧
      Tracks content (r.call table k).2 (c.call table content k).2 := by
  cases k with
  | readNext => exact ⟨congrArg _ h.readNext.1, h.readNext.2⟩
  | seekToSequence seq => exact ⟨congrArg _ (h.seekToSequence seq).1, (h.seekToSequence seq).2⟩
  | reset => exact ⟨rfl, h.reset⟩
  | hasMore => exact ⟨congrArg _ h.hasMore.1, h.hasMore.2⟩
  | verifyChecksum => exact ⟨congrArg _ (h.verifyChecksum table), h⟩
  | position => exact ⟨congrArg _ h.position.1, h.position.2⟩

lemma Tracks.answers (table : CrcTable) (h : Tracks content r c) (calls : List ReaderCall) :
    JournalReader.answers table calls r = Cursor.answers table content calls c := by
  induction calls generalizing r c with
  | nil => rfl
  | cons k calls ih =>
      obtain ⟨hanswer, hnext⟩ := h.call table k
      rw [JournalReader.answers, Cursor.answers, hanswer, ih hnext]

/-- **A reader is a cursor over the complete records of its file.** -/
theorem answers_eq (table : CrcTable) (content : Option (List UInt8)) (calls : List ReaderCall) :
    answers table calls (construct content)
      = Cursor.answers table content calls (Cursor.start content) :=
  (tracks_construct content).answers table calls

end JournalReader

end Exchange
