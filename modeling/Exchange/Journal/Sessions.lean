import Exchange.Journal.Writing

/-!
# A journal over several sessions

A journal is appended to, but `sequence_` and `file_size_` start from 0 whenever it is opened.

**`increasing_iff`** — the sequence numbers in a file increase if one session at most has logged to
it, no more than `2 ^ 64` events.

**`sequences_and_sizes_iff`** — the sequence numbers increase and `size()` is the length of the file
in every session, if and only if the last session alone has logged anything, less than `2 ^ 64`
bytes.
-/

namespace Exchange

namespace EventJournal

/-- The sequence numbers of the records in a file, in order. -/
def sequences (content : List UInt8) : List UInt64 :=
  (journalFraming.split content).1.map fun f => (record f).1.sequence

/-- At every point of every session, `size()` is the length of the file. -/
def SizesAgree (sessions : List (List LogCall)) : Prop :=
  ∀ before calls after, sessions = before ++ calls :: after → ∀ done, done <+: calls →
    (session (fileAfter before) done).size.toNat
      = (session (fileAfter before) done).content.length

def OnlyLastLogs (sessions : List (List LogCall)) : Prop :=
  ∀ calls ∈ sessions.dropLast, calls = []

/-- The bytes that all the events take together. -/
def bytesLogged (sessions : List (List LogCall)) : Nat :=
  (sessions.flatten.map LogCall.recordSize).sum

/-! ## The sequence numbers -/

/-- The numbers of a session. -/
def sessionNumbers (calls : List LogCall) : List UInt64 :=
  calls.mapIdx fun i _ => UInt64.ofNat i

lemma map_sequence_frames (calls : List LogCall) :
    (frames calls).map (fun f => (record f).1.sequence) = sessionNumbers calls := by
  rw [map_frames]
  simp only [LogCall.record_frame]
  rfl

/-- Each session counts from 0. -/
theorem sequences_fileAfter (sessions : List (List LogCall)) :
    sequences (fileAfter sessions) = sessions.flatMap sessionNumbers := by
  rw [sequences, fileAfter_eq, Framing.split_joined, written, List.map_flatMap]
  exact List.flatMap_congr fun calls _ => map_sequence_frames calls

lemma zero_mem_sessionNumbers {calls : List LogCall} (h : calls ≠ []) :
    0 ∈ sessionNumbers calls := by
  cases calls with
  | nil => exact absurd rfl h
  | cons c calls =>
      rw [sessionNumbers, List.mapIdx_cons]
      exact List.mem_cons_self

lemma ofNat_lt_ofNat {i j : Nat} (hij : i < j) (hj : j < 2 ^ 64) :
    UInt64.ofNat i < UInt64.ofNat j := by
  rw [UInt64.lt_iff_toNat_lt, UInt64.toNat_ofNat', UInt64.toNat_ofNat',
    Nat.mod_eq_of_lt (Nat.lt_trans hij hj), Nat.mod_eq_of_lt hj]
  exact hij

/-- The numbers of a session increase until the counter wraps around. -/
lemma sessionNumbers_increasing_iff (calls : List LogCall) :
    (sessionNumbers calls).Pairwise (· < ·) ↔ calls.length ≤ 2 ^ 64 := by
  have hlength : (sessionNumbers calls).length = calls.length := List.length_mapIdx
  rw [List.pairwise_iff_getElem]
  constructor
  · intro h
    by_contra hlong
    -- the event with the index 2 ^ 64 has the number 0 again
    have hwrap := h 0 (2 ^ 64) (by omega) (by omega) (by decide)
    simp only [sessionNumbers, List.getElem_mapIdx] at hwrap
    exact absurd hwrap (by decide)
  · intro hshort i j hi hj hij
    simp only [sessionNumbers, List.getElem_mapIdx]
    exact ofNat_lt_ofNat hij (by omega)

/-- **When the sequence numbers increase.** -/
theorem increasing_iff (sessions : List (List LogCall)) :
    (sequences (fileAfter sessions)).Pairwise (· < ·) ↔
      (∀ calls ∈ sessions, calls.length ≤ 2 ^ 64) ∧
        sessions.Pairwise fun calls calls' => calls = [] ∨ calls' = [] := by
  have hacross : ∀ calls calls' : List LogCall,
      (∀ x ∈ sessionNumbers calls, ∀ y ∈ sessionNumbers calls', x < y) ↔
        calls = [] ∨ calls' = [] := by
    intro calls calls'
    constructor
    · intro h
      by_contra hboth
      obtain ⟨hcalls, hcalls'⟩ := not_or.mp hboth
      exact UInt64.lt_irrefl 0
        (h 0 (zero_mem_sessionNumbers hcalls) 0 (zero_mem_sessionNumbers hcalls'))
    · rintro (rfl | rfl)
      · exact fun _ hx => absurd hx List.not_mem_nil
      · exact fun _ _ _ hy => absurd hy List.not_mem_nil
  rw [sequences_fileAfter, List.pairwise_flatMap]
  simp only [hacross, sessionNumbers_increasing_iff]

/-! ## The sizes -/

lemma length_joined_frames (calls : List LogCall) :
    (Framing.joined (frames calls)).length = (calls.map LogCall.recordSize).sum := by
  induction calls using List.reverseRecOn with
  | nil => rfl
  | append_singleton calls c ih =>
      rw [frames_concat, Framing.joined_append, List.length_append, ih, List.map_append,
        List.sum_append]
      simp [Framing.joined]

lemma length_fileAfter (sessions : List (List LogCall)) :
    (fileAfter sessions).length = bytesLogged sessions := by
  rw [fileAfter_eq, bytesLogged]
  induction sessions with
  | nil => rfl
  | cons calls sessions ih =>
      rw [written, List.flatMap_cons, ← written, Framing.joined_append, List.length_append, ih,
        length_joined_frames, List.flatten_cons, List.map_append, List.sum_append]

lemma fileAfter_eq_nil_iff (sessions : List (List LogCall)) :
    fileAfter sessions = [] ↔ ∀ calls ∈ sessions, calls = [] := by
  have hjoined : fileAfter sessions = [] ↔ written sessions = [] := by
    rw [fileAfter_eq]
    constructor
    · intro h
      have hle := Framing.length_le_length_joined (written sessions)
      rw [h, List.length_nil, Nat.le_zero] at hle
      exact List.length_eq_zero_iff.mp hle
    · intro h
      rw [h]
      rfl
  simp only [hjoined, written, List.flatMap_eq_nil_iff, frames, List.mapIdx_eq_nil_iff]

lemma content_session_prefix (content : List UInt8) {done calls : List LogCall}
    (h : done <+: calls) :
    (session content done).content.length ≤ (session content calls).content.length := by
  obtain ⟨todo, rfl⟩ := h
  simp only [session_eq, List.length_append, length_joined_frames, List.map_append,
    List.sum_append]
  omega

/-- A session that starts on an empty file knows its size until the counter wraps around. -/
lemma toNat_size_session {calls : List LogCall}
    (h : (session [] calls).content.length < 2 ^ 64) :
    (session [] calls).size.toNat = (session [] calls).content.length := by
  have hsize : (session [] calls).size
      = UInt64.ofNat (session [] calls).content.length := by
    rw [session_eq]
    rfl
  rw [hsize]
  exact UInt64.toNat_ofNat_of_lt' h

lemma length_fileAfter_append (before after : List (List LogCall)) :
    (fileAfter (before ++ after)).length
      = (fileAfter before).length + (fileAfter after).length := by
  simp only [length_fileAfter, bytesLogged, List.flatten_append, List.map_append, List.sum_append]

variable {sessions before after : List (List LogCall)} {calls : List LogCall}

/-- When a session has just been opened, its size is 0. -/
lemma SizesAgree.fileAfter_eq_nil (h : SizesAgree (before ++ calls :: after)) :
    fileAfter before = [] :=
  List.length_eq_zero_iff.mp (h before calls after rfl [] List.nil_prefix).symm

lemma SizesAgree.length_lt (h : SizesAgree sessions) : (fileAfter sessions).length < 2 ^ 64 := by
  rcases List.eq_nil_or_concat' sessions with rfl | ⟨before, calls, rfl⟩
  · exact (by decide : 0 < 2 ^ 64)
  · rw [fileAfter_concat, ← h before calls [] rfl calls List.prefix_rfl]
    exact UInt64.toNat_lt _

lemma OnlyLastLogs.fileAfter_eq_nil (h : OnlyLastLogs (before ++ calls :: after)) :
    fileAfter before = [] := by
  refine (fileAfter_eq_nil_iff before).mpr fun calls' hcalls' => h calls' ?_
  rw [List.dropLast_append_cons]
  exact List.mem_append_left _ hcalls'

lemma onlyLastLogs_of_sizesAgree (h : SizesAgree sessions) : OnlyLastLogs sessions := by
  rcases List.eq_nil_or_concat' sessions with rfl | ⟨before, calls, rfl⟩
  · exact fun _ hc => absurd hc List.not_mem_nil
  · rw [OnlyLastLogs, List.dropLast_concat, ← fileAfter_eq_nil_iff]
    exact h.fileAfter_eq_nil

lemma OnlyLastLogs.sizesAgree (h : OnlyLastLogs sessions)
    (hlt : (fileAfter sessions).length < 2 ^ 64) : SizesAgree sessions := by
  rintro before calls after rfl done hdone
  have hempty : fileAfter before = [] := h.fileAfter_eq_nil
  have hlength : (session [] calls).content.length = (fileAfter [calls]).length := rfl
  have hsplit := length_fileAfter_append before (calls :: after)
  have hsplit' := length_fileAfter_append [calls] after
  have hle := content_session_prefix [] hdone
  rw [List.singleton_append] at hsplit'
  rw [hempty]
  exact toNat_size_session (by omega)

lemma length_le_length_fileAfter (h : calls ∈ sessions) :
    calls.length ≤ (fileAfter sessions).length := by
  obtain ⟨before, after, rfl⟩ := List.append_of_mem h
  have hframes := Framing.length_le_length_joined (written (before ++ calls :: after))
  rw [← fileAfter_eq, written, List.flatMap_append, List.flatMap_cons, List.length_append,
    List.length_append, length_frames] at hframes
  omega

lemma OnlyLastLogs.pairwise (h : OnlyLastLogs sessions) :
    sessions.Pairwise fun calls calls' => calls = [] ∨ calls' = [] := by
  rcases List.eq_nil_or_concat' sessions with rfl | ⟨before, calls, rfl⟩
  · exact .nil
  · rw [OnlyLastLogs, List.dropLast_concat] at h
    refine List.pairwise_append.mpr ⟨?_, List.pairwise_singleton _ _, fun calls hcalls _ _ =>
      .inl (h calls hcalls)⟩
    exact List.pairwise_of_forall_mem_list fun calls hcalls _ _ => .inl (h calls hcalls)

/-- **When the sequence numbers increase and the sizes agree.** -/
theorem sequences_and_sizes_iff (sessions : List (List LogCall)) :
    (sequences (fileAfter sessions)).Pairwise (· < ·) ∧ SizesAgree sessions ↔
      OnlyLastLogs sessions ∧ bytesLogged sessions < 2 ^ 64 := by
  rw [increasing_iff, ← length_fileAfter]
  constructor
  · rintro ⟨-, hsizes⟩
    exact ⟨onlyLastLogs_of_sizesAgree hsizes, hsizes.length_lt⟩
  · rintro ⟨hlast, hlt⟩
    exact ⟨⟨fun calls hcalls =>
      Nat.le_trans (length_le_length_fileAfter hcalls) (Nat.le_of_lt hlt),
      hlast.pairwise⟩,
      hlast.sizesAgree hlt⟩

def sampleSession : List LogCall :=
  [.order { id := 7, price := 100, quantity := 3, side := .Buy, symbol := .ofChars [65] }
    .OrderNew 1 ⟨.replicate 4 0, .replicate 4 0⟩]

/-- After an order in each of two sessions, the file holds the number 0 twice; and when the second
session is opened, the size is 0 and the length of the file is 80. -/
theorem second_session_starts_over :
    sequences (fileAfter [sampleSession, sampleSession]) = [0, 0] ∧
      (session (fileAfter [sampleSession]) []).size = 0 ∧
      (session (fileAfter [sampleSession]) []).content.length = 80 ∧
      ¬ ((sequences (fileAfter [sampleSession, sampleSession])).Pairwise (· < ·) ∧
        SizesAgree [sampleSession, sampleSession]) := by
  have hnumbers : sequences (fileAfter [sampleSession, sampleSession]) = [0, 0] := by
    rw [sequences_fileAfter]
    rfl
  refine ⟨hnumbers, rfl, by decide +kernel, ?_⟩
  rw [hnumbers]
  rintro ⟨hincreasing, -⟩
  exact absurd hincreasing (by decide)

end EventJournal

end Exchange
