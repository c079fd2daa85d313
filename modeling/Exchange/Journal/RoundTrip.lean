import Exchange.Journal.Writing

/-!
# Writing a journal and reading it back

**`journal_round_trip`** — a journal that one session has written is replayed as it was logged, and
every record in it verifies.

**`torn_tail`** — a journal that is cut off anywhere is read as the records that are complete in
what is left of it.
-/

namespace Exchange

open Loop JournalReader EventJournal

namespace LogCall

/-- The types with which the harness hands an order to its callback. -/
def Replayable : LogCall → Prop
  | .order _ type _ _ => type = .OrderNew ∨ type = .OrderCancel ∨ type = .OrderReplace
  | .trade _ _ _ => True

instance : (c : LogCall) → Decidable c.Replayable
  | .order _ type _ _ => inferInstanceAs
      (Decidable (type = .OrderNew ∨ type = .OrderCancel ∨ type = .OrderReplace))
  | .trade _ _ _ => isTrue trivial

/-- What the callback gets: the fields that were logged. -/
def delivery : LogCall → Delivery
  | .order o type _ _ => .order
      { id := o.id
        symbol := o.symbol
        side := o.side.code
        type := o.type.code
        tif := o.tif.code
        price := o.price
        quantity := o.quantity
        timestamp := o.timestamp } type
  | .trade t _ _ => .trade
      { seqNum := t.seqNum
        symbol := t.symbol
        price := t.price
        quantity := t.quantity
        buyOrderId := t.buyOrderId
        sellOrderId := t.sellOrderId
        aggressorSide := t.aggressorSide.code }

lemma deliver_frame {h : ReplayHarness} (hOrder : h.onOrder = true) (hTrade : h.onTrade = true)
    {c : LogCall} (hc : c.Replayable) (sequence : UInt64) :
    h.deliver (c.header sequence) c.payload = [c.delivery] := by
  cases c with
  | order o type now padding =>
      have hlength : ((JournalOrder.ofOrder o).bytes padding).length = 48 :=
        JournalOrder.length_bytes _ _
      have htype : type = .OrderNew ∨ type = .OrderCancel ∨ type = .OrderReplace := hc
      simp only [ReplayHarness.deliver, header, LogCall.type, payload, delivery, if_pos htype,
        hOrder, hlength, JournalOrder.ofBytes_bytes]
      rfl
  | trade t now padding =>
      have hlength : ((JournalTrade.ofTrade t).bytes padding).length = 56 :=
        JournalTrade.length_bytes _ _
      simp only [ReplayHarness.deliver, header, LogCall.type, payload, delivery,
        hTrade, hlength, JournalTrade.ofBytes_bytes]
      rfl

end LogCall

lemma deliverAll_frames {h : ReplayHarness} (hOrder : h.onOrder = true) (hTrade : h.onTrade = true)
    {calls : List LogCall} (hcalls : ∀ c ∈ calls, c.Replayable) :
    h.deliverAll (frames calls) = calls.map LogCall.delivery := by
  induction calls using List.reverseRecOn with
  | nil => rfl
  | append_singleton calls c ih =>
      have hold := ih fun c' hc' => hcalls c' (List.mem_append_left _ hc')
      have hnew := LogCall.deliver_frame hOrder hTrade
        (hcalls c (List.mem_append_right _ List.mem_cons_self)) (UInt64.ofNat calls.length)
      rw [frames_concat, ReplayHarness.deliverAll, List.flatMap_append, List.flatMap_singleton,
        ← ReplayHarness.deliverAll, hold, LogCall.record_frame, hnew, List.map_append]
      rfl

/-- **A journal is replayed as it was logged.**  One session writes to an empty file; a harness with
both callbacks loads it.  Then `replay_all` ends, the callbacks have been invoked once for each
event, in order and with the type and the fields that were logged; a reader gets the headers and
payloads that were written, with the sequences 0, 1, 2, ..., and each verifies; and `size()` is the
length of the file, in the type it has. -/
theorem journal_round_trip (calls : List LogCall) (hcalls : ∀ c ∈ calls, c.Replayable)
    (h : ReplayHarness) (hOrder : h.onOrder = true) (hTrade : h.onTrade = true) :
    let j := session [] calls
    let loaded := h.loadJournal (some j.content)
    Exits ReplayHarness.replayStep loaded loaded.replayAll ∧
      loaded.replayAll.deliveries = h.deliveries ++ calls.map LogCall.delivery ∧
      readMany initCrc32Table calls.length (.construct (some j.content))
        = calls.mapIdx (fun i c => (some (c.header (UInt64.ofNat i), c.payload), true)) ∧
      j.size = UInt64.ofNat j.content.length ∧
      (j.content.length < 2 ^ 64 → j.size.toNat = j.content.length ∧
        ∀ i < calls.length, (UInt64.ofNat i).toNat = i) := by
  intro j loaded
  have hsession : j = _ := session_eq [] calls
  have hcontent : j.content = Framing.joined (frames calls) := by rw [hsession]; rfl
  have hsize : j.size = UInt64.ofNat j.content.length := by rw [hcontent, hsession]; rfl
  obtain ⟨hexits, hdeliveries⟩ := ReplayHarness.replayAll_loadJournal h j.content
  refine ⟨hexits, ?_, ?_, hsize, fun hlt => ⟨?_, fun i hi => ?_⟩⟩
  · rw [hdeliveries, hcontent, Framing.split_joined, deliverAll_frames hOrder hTrade hcalls]
  · rw [readMany_eq initCrc32Table (reads_construct _), hcontent,
      Framing.split_joined, ← length_frames, List.take_length, Nat.sub_self, List.replicate_zero,
      List.append_nil, map_frames]
    simp only [LogCall.record_frame, LogCall.verifies_logged]
  · rw [hsize, UInt64.toNat_ofNat', Nat.mod_eq_of_lt hlt]
  · have hle : calls.length ≤ j.content.length := by
      rw [hcontent, ← length_frames]
      exact Framing.length_le_length_joined _
    rw [UInt64.toNat_ofNat', Nat.mod_eq_of_lt (by omega)]

/-- An order and a trade. -/
def sampleCalls : List LogCall :=
  [.order { id := 7, price := -5, quantity := 3, side := .Sell, symbol := .ofChars [65] }
      .OrderCancel 1 ⟨.replicate 4 9, .replicate 4 8⟩,
    .trade
      { seqNum := 1
        symbol := .ofChars [65]
        price := 100
        quantity := 3
        buyOrderId := 8
        sellOrderId := 7
        timestamp := 2
        aggressorSide := .Sell } 3 ⟨.replicate 4 7⟩]

theorem journal_round_trip_sample :
    (ReplayHarness.loadJournal { onOrder := true, onTrade := true }
        (some (session [] sampleCalls).content)).replayAll.deliveries
      = sampleCalls.map LogCall.delivery ∧ (session [] sampleCalls).content.length = 168 :=
  ⟨(journal_round_trip sampleCalls (by decide) { onOrder := true, onTrade := true } rfl rfl).2.1,
    by decide +kernel⟩

/-! ## A torn tail -/

/-- **No part of a record is read as one.**  Whatever sessions have written a file, when only its
first `n` bytes are left, the calls of `read_next` return the records that end within them, in
order, and then nothing, as often as one asks; after `reset` they start over; and `replay_all` ends
and delivers these records. -/
theorem torn_tail (sessions : List (List LogCall)) (n : Nat) (table : CrcTable)
    (h : ReplayHarness) (k k' : Nat) :
    let torn := (fileAfter sessions).take n
    let complete := Framing.within n (written sessions)
    let loaded := h.loadJournal (some torn)
    (readMany table k (.construct (some torn))).map Prod.fst
        = (complete.take k).map (fun f => some (record f))
          ++ List.replicate (k - complete.length) none ∧
      readMany table k' (afterReads k (.construct (some torn))).reset
        = readMany table k' (.construct (some torn)) ∧
      Exits ReplayHarness.replayStep loaded loaded.replayAll ∧
      loaded.replayAll.deliveries = h.deliveries ++ h.deliverAll complete := by
  intro torn complete loaded
  have hsplit : (journalFraming.split torn).1 = complete := by
    show (journalFraming.split ((fileAfter sessions).take n)).1
      = Framing.within n (written sessions)
    rw [fileAfter_eq, Framing.split_take]
  have hfresh : (JournalReader.construct (some torn)).file.Reads torn := reads_construct torn
  have hreset := reads_reset (content_afterReads k (.construct (some torn)))
  obtain ⟨hexits, hdeliveries⟩ := ReplayHarness.replayAll_loadJournal h torn
  refine ⟨?_, ?_, hexits, by rw [hdeliveries, hsplit]⟩
  · rw [readMany_eq table hfresh, hsplit, List.map_append, List.map_map, List.map_replicate]
    rfl
  · rw [readMany_eq table hfresh, readMany_eq table hreset]

end Exchange
