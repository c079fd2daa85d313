import Exchange.Core.ShiftRegister
import Exchange.Journal.Writing

/-!
# The checksum of a record

`compute_checksum` takes a byte at a time and looks up in a table what eight shifts of a register
would do.

* **`computeChecksum_eq_bitwise`** — it is CRC-32, taken a bit at a time, the lowest bit of each
  byte first;
* **`burst_detected`** — no alteration of a payload that is confined to four consecutive bytes gets
  past `verify_checksum`.
-/

namespace Exchange

open ShiftRegister

/-! ## Bit by bit -/

/-- The polynomial of CRC-32, reflected. -/
def crcPolynomial : BitVec 32 := 0xEDB88320#32

/-- The bits of a byte, the least significant first. -/
def byteBits (b : UInt8) : List Bool := (List.range 8).map b.toBitVec.getLsbD

/-- The bits of a message in the order in which they enter the register. -/
def messageBits (data : List UInt8) : List Bool := data.flatMap byteBits

/-- CRC-32 by its definition: all ones to begin with, one shift for each bit, and the complement in
the end. -/
def bitwiseCrc32 (data : List UInt8) : UInt32 :=
  ⟨~~~ (messageBits data).foldl (feed crcPolynomial) 0xFFFFFFFF#32⟩

/-! ## One byte -/

lemma and_one_ne_zero_iff (c : UInt32) : c &&& 1 ≠ 0 ↔ c.toBitVec.getLsbD 0 = true := by
  have hlow : (c &&& 1).toBitVec = (BitVec.ofBool (c.toBitVec.getLsbD 0)).setWidth 32 := by
    rw [UInt32.toBitVec_and]
    exact BitVec.and_one_eq_setWidth_ofBool_getLsbD
  rw [ne_eq, ← UInt32.toBitVec_inj, hlow]
  cases c.toBitVec.getLsbD 0 <;> decide

lemma toBitVec_crcShift (c : UInt32) : (crcShift c).toBitVec = shift crcPolynomial c.toBitVec := by
  rw [crcShift, shift]
  by_cases hlow : c.toBitVec.getLsbD 0 = true
  · rw [if_pos ((and_one_ne_zero_iff c).mpr hlow), if_pos hlow, BitVec.xor_comm]
    rfl
  · rw [if_neg fun h => hlow ((and_one_ne_zero_iff c).mp h), if_neg hlow, BitVec.xor_zero]
    rfl

lemma toBitVec_repeat_crcShift (n : Nat) (c : UInt32) :
    (Nat.repeat crcShift n c).toBitVec = (shift crcPolynomial)^[n] c.toBitVec := by
  induction n with
  | zero => rfl
  | succ n ih => rw [Nat.repeat, toBitVec_crcShift, ih, Function.iterate_succ_apply']

lemma length_byteBits (b : UInt8) : (byteBits b).length = 8 := by
  rw [byteBits, List.length_map, List.length_range]

lemma word_byteBits (b : UInt8) : (word (byteBits b) : BitVec 32) = b.toBitVec.setWidth 32 := by
  refine BitVec.eq_of_getLsbD_eq fun i hi => ?_
  rw [getLsbD_word hi, BitVec.getLsbD_setWidth, byteBits, List.getD_eq_getElem?_getD,
    List.getElem?_map]
  by_cases hbyte : i < 8
  · simp [List.getElem?_range hbyte, hi]
  · rw [List.getElem?_eq_none (by simpa using Nat.le_of_not_lt hbyte),
      BitVec.getLsbD_of_ge _ _ (Nat.le_of_not_lt hbyte)]
    simp

/-- An entry of the table. -/
lemma get_initCrc32Table (x : UInt32) :
    (initCrc32Table.get ⟨(x &&& 0xFF).toNat, toNat_and_255_lt x⟩).toBitVec
      = (shift crcPolynomial)^[8] ((x.toBitVec.setWidth 8).setWidth 32) := by
  have hlow : (x &&& 0xFF).toBitVec = (x.toBitVec.setWidth 8).setWidth 32 := by
    refine BitVec.eq_of_getLsbD_eq fun i hi => ?_
    have hmask : (0xFF#32).getLsbD i = decide (i < 8) := by
      rw [show (0xFF#32) = (BitVec.allOnes 8).setWidth 32 from rfl, BitVec.getLsbD_setWidth,
        BitVec.getLsbD_allOnes]
      simp [hi]
    rw [UInt32.toBitVec_and, BitVec.getLsbD_and, BitVec.getLsbD_setWidth, BitVec.getLsbD_setWidth]
    show (_ && (0xFF#32).getLsbD i) = _
    rw [hmask]
    simp [hi, Bool.and_comm]
  have hget : initCrc32Table.get ⟨(x &&& 0xFF).toNat, toNat_and_255_lt x⟩
      = Nat.repeat crcShift 8 (x &&& 0xFF) := by
    rw [initCrc32Table]
    refine (Vector.getElem_ofFn _).trans ?_
    rw [UInt32.ofNat_toNat]
  rw [hget, toBitVec_repeat_crcShift, hlow]

/-- **A look-up is eight shifts.** -/
lemma toBitVec_crcByte (crc : UInt32) (b : UInt8) :
    (crcByte initCrc32Table crc b).toBitVec
      = (byteBits b).foldl (feed crcPolynomial) crc.toBitVec := by
  have hbyte : b.toUInt32.toBitVec = word (byteBits b) := (word_byteBits b).symm
  have hmoved : (crc ^^^ b.toUInt32).toBitVec >>> 8 = crc.toBitVec >>> 8 := by
    have hgone : b.toUInt32.toBitVec >>> 8 = 0#32 := by
      refine BitVec.eq_of_getLsbD_eq fun i _ => ?_
      rw [hbyte, word_byteBits, BitVec.getLsbD_ushiftRight, BitVec.getLsbD_setWidth,
        BitVec.getLsbD_of_ge b.toBitVec _ (Nat.le_add_right 8 i)]
      simp
    rw [UInt32.toBitVec_xor, BitVec.ushiftRight_xor_distrib, hgone, BitVec.xor_zero]
  have hshort : (byteBits b).length ≤ 32 := by
    rw [length_byteBits]
    decide
  rw [foldl_feed _ hshort, length_byteBits, ← hbyte, ← UInt32.toBitVec_xor, shifts_split,
    ← get_initCrc32Table, hmoved]
  rfl

/-! ## Messages -/

lemma toBitVec_foldl_crcByte (data : List UInt8) (crc : UInt32) :
    (data.foldl (crcByte initCrc32Table) crc).toBitVec
      = (messageBits data).foldl (feed crcPolynomial) crc.toBitVec := by
  induction data generalizing crc with
  | nil => rfl
  | cons b data ih =>
      rw [List.foldl_cons, ih, toBitVec_crcByte, messageBits, messageBits, List.flatMap_cons,
        List.foldl_append]

lemma computeChecksum_eq (data : List UInt8) :
    computeChecksum initCrc32Table data = bitwiseCrc32 data := by
  refine UInt32.toBitVec_inj.mp ?_
  rw [computeChecksum, UInt32.toBitVec_xor, toBitVec_foldl_crcByte]
  exact BitVec.xor_allOnes

/-- **The table computes CRC-32**, in the writer's loop and in the reader's. -/
theorem computeChecksum_eq_bitwise :
    (∀ data, computeChecksum initCrc32Table data = bitwiseCrc32 data) ∧
      ∀ r : JournalReader, r.verifyChecksum initCrc32Table = true ↔
        r.lastValid = true ∧ r.lastPayload ≠ [] ∧
          bitwiseCrc32 r.lastPayload = r.lastHeader.checksum := by
  refine ⟨computeChecksum_eq, fun r => ?_⟩
  rw [JournalReader.verifyChecksum, computeChecksum_eq]
  by_cases hvalid : r.lastValid = true
  · by_cases hempty : r.lastPayload = []
    · simp [hempty]
    · simp [hvalid, hempty]
  · simp [hvalid]

/-- The check value of CRC-32: that of the digits from 1 to 9. -/
example : computeChecksum initCrc32Table [49, 50, 51, 52, 53, 54, 55, 56, 57] = 0xCBF43926 := by
  decide +kernel

/-! ## Bursts -/

/-- Outside the `n` bytes from the position `k` on, two messages are the same. -/
def AgreeOutside (k n : Nat) (data data' : List UInt8) : Prop :=
  ∀ i, i < k ∨ k + n ≤ i → data'[i]? = data[i]?

lemma length_messageBits (data : List UInt8) : (messageBits data).length = 8 * data.length := by
  induction data with
  | nil => rfl
  | cons b data ih =>
      rw [messageBits, List.flatMap_cons, List.length_append, ← messageBits, ih, length_byteBits,
        List.length_cons]
      omega

lemma byteBits_injective : Function.Injective byteBits := by
  intro b b' h
  have hword : b.toBitVec.setWidth 32 = b'.toBitVec.setWidth 32 := by
    rw [← word_byteBits, ← word_byteBits, h]
  refine UInt8.toBitVec_inj.mp (BitVec.eq_of_getLsbD_eq fun i hi => ?_)
  have hbit : (b.toBitVec.setWidth 32).getLsbD i = (b'.toBitVec.setWidth 32).getLsbD i := by
    rw [hword]
  rw [BitVec.getLsbD_setWidth, BitVec.getLsbD_setWidth] at hbit
  simpa [show i < 32 by omega] using hbit

lemma messageBits_injective : Function.Injective messageBits := by
  intro data data' h
  induction data generalizing data' with
  | nil =>
      have hlength := length_messageBits data'
      rw [← h] at hlength
      exact (List.length_eq_zero_iff.mp (by simpa [messageBits] using hlength)).symm
  | cons b data ih =>
      cases data' with
      | nil =>
          have hlength := length_messageBits (b :: data)
          rw [h] at hlength
          simp [messageBits] at hlength
      | cons b' data' =>
          rw [messageBits, messageBits, List.flatMap_cons, List.flatMap_cons] at h
          obtain ⟨hfirst, hrest⟩ := List.append_inj h (by rw [length_byteBits, length_byteBits])
          rw [byteBits_injective hfirst, ih hrest]

lemma messageBits_append (data data' : List UInt8) :
    messageBits (data ++ data') = messageBits data ++ messageBits data' :=
  List.flatMap_append

/-- Two messages that agree outside a window, cut up at its ends. -/
lemma AgreeOutside.split {k n : Nat} {data data' : List UInt8} (h : AgreeOutside k n data data') :
    data'.take k = data.take k ∧ data'.drop (k + n) = data.drop (k + n) := by
  constructor
  · refine List.ext_getElem? fun i => ?_
    rw [List.getElem?_take, List.getElem?_take]
    split_ifs with hi
    · exact h i (Or.inl hi)
    · rfl
  · refine List.ext_getElem? fun i => ?_
    rw [List.getElem?_drop, List.getElem?_drop]
    exact h _ (Or.inr (Nat.le_add_right _ _))

lemma take_window_drop (k n : Nat) (data : List UInt8) :
    data.take k ++ (data.drop k).take n ++ data.drop (k + n) = data := by
  rw [List.append_assoc, ← List.drop_drop, List.take_append_drop, List.take_append_drop]

/-- CRC-32 tells messages apart that differ within four consecutive bytes. -/
theorem computeChecksum_ne {k n : Nat} {data data' : List UInt8}
    (hlength : data'.length = data.length) (hne : data' ≠ data) (hn : n ≤ 4)
    (hwindow : AgreeOutside k n data data') :
    computeChecksum initCrc32Table data' ≠ computeChecksum initCrc32Table data := by
  obtain ⟨hbefore, hafter⟩ := hwindow.split
  have hdata := take_window_drop k n data
  have hdata' := take_window_drop k n data'
  rw [hbefore, hafter] at hdata'
  have hburst : (data'.drop k).take n ≠ (data.drop k).take n := by
    intro heq
    rw [heq, hdata] at hdata'
    exact hne hdata'.symm
  have hsame : ((data'.drop k).take n).length = ((data.drop k).take n).length := by
    rw [List.length_take, List.length_take, List.length_drop, List.length_drop, hlength]
  have hbits : (messageBits ((data'.drop k).take n)).length
      = (messageBits ((data.drop k).take n)).length := by
    rw [length_messageBits, length_messageBits, hsame]
  have hwidth : (messageBits ((data'.drop k).take n)).length ≤ 32 := by
    have := List.length_take_le n (data'.drop k)
    rw [length_messageBits]
    omega
  have hregister : (messageBits data').foldl (feed crcPolynomial) 0xFFFFFFFF#32
      ≠ (messageBits data).foldl (feed crcPolynomial) 0xFFFFFFFF#32 := by
    rw [← hdata', ← hdata, messageBits_append, messageBits_append, messageBits_append,
      messageBits_append, hdata]
    exact foldl_feed_ne (by decide) hbits hwidth (fun heq => hburst (messageBits_injective heq))
      _ _ _
  intro h
  rw [computeChecksum_eq, computeChecksum_eq, bitwiseCrc32, bitwiseCrc32] at h
  exact hregister (BitVec.not_inj.mp (UInt32.toBitVec_inj.mpr h))

/-- **Every burst is detected**: under the header that an `EventJournal` wrote, no other payload of
the same length passes that differs within four consecutive bytes. -/
theorem burst_detected (sessions : List (List LogCall)) {f : journalFraming.Frame}
    (hf : f ∈ EventJournal.written sessions) {payload : List UInt8}
    (hlength : payload.length = (record f).2.length) (hne : payload ≠ (record f).2) {k n : Nat}
    (hn : n ≤ 4) (hwindow : AgreeOutside k n (record f).2 payload) {r : JournalReader}
    (hheader : r.lastHeader = (record f).1) (hpayload : r.lastPayload = payload) :
    r.verifyChecksum initCrc32Table = false := by
  obtain ⟨c, sequence, rfl⟩ := EventJournal.mem_written hf
  rw [LogCall.record_frame] at hlength hne hwindow hheader
  have hchecksum := computeChecksum_ne hlength hne hn hwindow
  rw [JournalReader.verifyChecksum, hheader, hpayload]
  split_ifs
  · rfl
  · exact beq_eq_false_iff_ne.mpr hchecksum

/-- An order as it is logged first. -/
def loggedOrder : LogCall :=
  .order { id := 7, price := 5, quantity := 3, side := .Buy, symbol := .ofChars [65] } .OrderNew 0
    ⟨.replicate 4 0, .replicate 4 0⟩

/-- Its payload with two bytes changed that are three apart. -/
def alteredPayload : List UInt8 := (loggedOrder.payload.set 8 1).set 11 2

/-- The alteration is detected. -/
theorem burst_detected_sample :
    ({ file := .construct none, lastHeader := (record (loggedOrder.frame 0)).1
       lastPayload := alteredPayload, lastValid := true } : JournalReader).verifyChecksum
      initCrc32Table = false := by
  have hwindow : AgreeOutside 8 4 (record (loggedOrder.frame 0)).2 alteredPayload := by
    intro i hi
    rw [alteredPayload, List.getElem?_set_ne (by omega), List.getElem?_set_ne (by omega)]
    rfl
  exact burst_detected [[loggedOrder]] (List.mem_singleton.mpr rfl) (by decide +kernel)
    (by decide +kernel) (Nat.le_refl 4) hwindow rfl rfl

end Exchange
