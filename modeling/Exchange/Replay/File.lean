import Exchange.Core.Bytes
import Exchange.Core.Records
import Exchange.Replay.Market

/-!
# The replay file

The last lines of `parse_feed`, which write the commands to a file, and the first of `main` in
`replay_kraken.cpp`, which read it in three pieces: four bytes of magic, the number of commands, and
all the commands at once.

* **`feed_read_back`** — what the converter writes is what the replay reads;
* **`cut_file`** — of a file that is cut off the replay makes the commands before the cut, one that
  may have been made up by the cut, and for each one after it an error.
-/

namespace Exchange.ReplayKraken

open Bytes ParseFeed Records
open Run (run)

/-! ## The records -/

namespace ReplayCmd

/-- What `struct.pack(CMD_FMT, …)` makes of the numbers; both paddings are 0. -/
def bytes (cmd : ReplayCmd) : List UInt8 :=
  [cmd.type] ++ ([cmd.side] ++ ([0] ++ ([0] ++ (putU64 cmd.orderId ++
    (putU64 cmd.price.toUInt64 ++ (putU32 cmd.quantity ++ putU32 0))))))

/-- The packed struct that has these bytes. -/
def ofBytes (bs : List UInt8) : ReplayCmd where
  type := getU8 0 bs
  side := getU8 1 bs
  orderId := getU64 4 bs
  price := (getU64 12 bs).toInt64
  quantity := getU32 20 bs

@[simp] lemma length_bytes (cmd : ReplayCmd) : cmd.bytes.length = 28 := by
  simp [bytes]

theorem ofBytes_bytes (cmd : ReplayCmd) : ofBytes cmd.bytes = cmd := by
  have htype : slice 0 1 cmd.bytes = [cmd.type] := by
    simp [bytes, slice_cons_one]
  have hside : slice 1 1 cmd.bytes = [cmd.side] := by
    simp [bytes, slice_cons_succ, slice_cons_one]
  have horderId : slice 4 8 cmd.bytes = putU64 cmd.orderId := by
    simp [bytes, slice_cons_succ, slice_append_left]
  have hprice : slice 12 8 cmd.bytes = putU64 cmd.price.toUInt64 := by
    simp [bytes, slice_cons_succ, slice_append_right, slice_append_left]
  have hquantity : slice 20 4 cmd.bytes = putU32 cmd.quantity := by
    simp [bytes, slice_cons_succ, slice_append_right, slice_append_left]
  rw [ofBytes, getU8_of_slice htype, getU8_of_slice hside, getU64_of_slice horderId,
    getU64_of_slice hprice, Int64.toInt64_toUInt64, getU32_of_slice hquantity]

end ReplayCmd

/-! ## The file -/

/-- `b"KRKN"`. -/
def magic : List UInt8 := [75, 82, 75, 78]

/-- What is written; `struct.pack("<I", len(commands))` raises an error if there are too many. -/
def writeFile (commands : List ReplayCmd) : Option (List UInt8) :=
  if commands.length < 2 ^ 32 then
    some (magic ++ (putU32 (.ofNat commands.length) ++ (commands.map ReplayCmd.bytes).flatten))
  else none

/-- What is read.  `uninitMagic` and `uninitCount` are the indeterminate content of the two
variables of the header; the commands are 0 where the file does not reach. -/
def readFile (uninitMagic uninitCount : Vector UInt8 4) (file : List UInt8) :
    Option (List ReplayCmd) :=
  let cmdCount := (getU32 0 (fill uninitCount.toList (file.drop 4))).toNat
  if fill uninitMagic.toList file ≠ magic then none
  else
    let buffer := fill (List.replicate (cmdCount * 28) 0) (file.drop 8)
    some ((records 28 cmdCount buffer).map ReplayCmd.ofBytes)

variable {uninitMagic uninitCount : Vector UInt8 4} {packed : List ReplayCmd} {file : List UInt8}

lemma length_of_mem_bytes (packed : List ReplayCmd) :
    ∀ r ∈ packed.map ReplayCmd.bytes, r.length = 28 := by
  intro r hr
  obtain ⟨cmd, -, rfl⟩ := List.mem_map.mp hr
  exact cmd.length_bytes

lemma map_ofBytes (packed : List ReplayCmd) :
    (packed.map ReplayCmd.bytes).map ReplayCmd.ofBytes = packed := by
  rw [List.map_map]
  exact List.map_id'' ReplayCmd.ofBytes_bytes packed

/-- A file that begins with the header of a number of commands. -/
lemma readFile_header (uninitMagic uninitCount : Vector UInt8 4) {count : Nat}
    (hcount : count < 2 ^ 32) (body : List UInt8) :
    readFile uninitMagic uninitCount (magic ++ (putU32 (.ofNat count) ++ body))
      = some ((records 28 count (fill (List.replicate (count * 28) 0) body)).map
          ReplayCmd.ofBytes) := by
  have hlength : (putU32 (.ofNat count)).length = 4 := length_putU32 _
  have hmagic : fill uninitMagic.toList (magic ++ (putU32 (.ofNat count) ++ body)) = magic := by
    rw [fill_of_le (by simp [magic]), Vector.length_toList, List.take_left' (show _ = 4 from rfl)]
  have hslice : getU32 0 (fill uninitCount.toList (putU32 (.ofNat count) ++ body))
      = .ofNat count := by
    refine getU32_of_slice ?_
    rw [fill_of_le (by simp), Vector.length_toList, List.take_left' hlength, slice_self hlength]
  have hbody : (magic ++ (putU32 (.ofNat count) ++ body)).drop 8 = body := by
    rw [← List.append_assoc, List.drop_left' (by simp [magic])]
  simp only [readFile, hmagic, hbody, List.drop_left' (show magic.length = 4 from rfl), hslice,
    UInt32.toNat_ofNat_of_lt' hcount, ne_eq, not_true_eq_false, if_false]

/-- **What is written is read back**, whatever follows it. -/
theorem readFile_writeFile (h : writeFile packed = some file)
    (uninitMagic uninitCount : Vector UInt8 4) (rest : List UInt8) :
    readFile uninitMagic uninitCount (file ++ rest) = some packed := by
  rw [writeFile] at h
  split_ifs at h with hcount
  obtain rfl := Option.some.inj h
  have htotal : (packed.map ReplayCmd.bytes).flatten.length = packed.length * 28 := by
    rw [List.length_flatten, List.map_map]
    simp [Function.comp_def]
  rw [List.append_assoc, List.append_assoc, readFile_header _ _ hcount,
    fill_of_le (by simp [htotal]), List.length_replicate, List.take_left' htotal]
  have hread := records_flatten (length_of_mem_bytes packed) []
  rw [List.append_nil, List.length_map] at hread
  rw [hread, map_ofBytes]

lemma length_of_mapM_pack {cmds : List Command} (h : cmds.mapM pack = some packed) :
    packed.length = cmds.length := by
  induction cmds generalizing packed with
  | nil =>
      cases h
      rfl
  | cons cmd cmds ih =>
      rw [List.mapM_cons, Option.bind_eq_bind, Option.bind_eq_some_iff] at h
      obtain ⟨first, -, h⟩ := h
      obtain ⟨rest, hrest, h⟩ := Option.bind_eq_some_iff.mp h
      cases h
      rw [List.length_cons, List.length_cons, ih hrest]

/-- **The replay reads what the converter writes.**  For every feed with sizes below `2 ^ 32` and
not too many commands, there is a file, and what is read of it, with whatever may follow it, are the
commands, in order. -/
theorem feed_read_back (c : Conversion) (feed : List Message)
    (hsize : ∀ sizeStr, c.sizeToQty sizeStr < 2 ^ 32)
    (hcount : (parseFeed c feed).length < 2 ^ 32) :
    ∃ packed file, (parseFeed c feed).mapM pack = some packed ∧ writeFile packed = some file ∧
      ∀ uninitMagic uninitCount rest,
        readFile uninitMagic uninitCount (file ++ rest) = some packed := by
  obtain ⟨packed, hpack⟩ := pack_parseFeed hsize feed
  have hwrite : writeFile packed = some _ := if_pos (length_of_mapM_pack hpack ▸ hcount)
  exact ⟨packed, _, hpack, hwrite, readFile_writeFile hwrite⟩

/-- A feed of six levels in two messages. -/
theorem feed_read_back_sample :
    ∃ packed file, (parseFeed sampleConversion sampleFeed).mapM pack = some packed ∧
      writeFile packed = some file ∧ ∀ uninitMagic uninitCount rest,
        readFile uninitMagic uninitCount (file ++ rest) = some packed :=
  feed_read_back sampleConversion sampleFeed
    (fun s => by simp only [sampleConversion]; split_ifs <;> decide) (by decide +kernel)

/-! ## A file that is cut off -/

/-- What stands in the buffer where the file does not reach. -/
def blank : ReplayCmd := ⟨0, 0, 0, 0, 0⟩

lemma ofBytes_replicate : ReplayCmd.ofBytes (List.replicate 28 0) = blank := by decide

/-- The blank command is an order at price 0, which the book refuses. -/
lemma addOrder_blank (b : OrderBook) : (b.addOrder blank.order).1.success = false ∧
    (b.addOrder blank.order).2 = b := by
  have hreason : b.rejectReason blank.order = some .InvalidPrice := by
    rw [OrderBook.rejectReason, if_neg (by decide), if_pos (by decide)]
  rw [OrderBook.addOrder, hreason]
  exact ⟨rfl, rfl⟩

/-- A round on it leaves the book alone, and counts as an error. -/
lemma step_blank (uninit : OrderResult) (s : TimedReplay) :
    (step uninit s blank).engine.book? sym = s.engine.book? sym ∧
      (step uninit s blank).nErr = s.nErr + 1 := by
  have htype : blank.type = typeCode .ADD := rfl
  obtain ⟨hresult, hengine⟩ := @execute_eq uninit s blank .ADD htype
  have hfail : (execute uninit s blank).1.success = false := by
    rw [hresult, MatchingEngine.fst_handle]
    cases s.engine.book? (blank.request .ADD).symbol with
    | none => rfl
    | some b => exact (addOrder_blank b).1
  constructor
  · rw [engine_step, hengine, MatchingEngine.book?_handle, symbol_request, if_pos rfl]
    cases s.engine.book? sym with
    | none => rfl
    | some b => exact congrArg some (addOrder_blank b).2
  · have hcount : (step uninit s blank).nErr = (execute uninit s blank).2.nErr + 1 := by
      simp only [step, hfail, Bool.not_false, if_true]
    rw [hcount]
    rfl

lemma run_blank (uninit : OrderResult) (s : TimedReplay) (count : Nat) :
    (run (step uninit) s (List.replicate count blank)).engine.book? sym = s.engine.book? sym ∧
      (run (step uninit) s (List.replicate count blank)).nErr = s.nErr + .ofNat count := by
  induction count generalizing s with
  | zero => exact ⟨rfl, (UInt32.add_zero _).symm⟩
  | succ count ih =>
      obtain ⟨hbook, herr⟩ := ih (step uninit s blank)
      obtain ⟨hbook', herr'⟩ := step_blank uninit s
      refine ⟨hbook.trans hbook', herr.trans ?_⟩
      rw [herr', UInt32.ofNat_add, UInt32.add_assoc, UInt32.add_comm 1]
      rfl

/-- What is made of a command of which `n` bytes are there: the others are 0. -/
def cutCommand (n : Nat) (cmd : ReplayCmd) : ReplayCmd :=
  .ofBytes (cmd.bytes.take n ++ List.replicate (28 - n) 0)

/-- If `n` bytes are left of the records: the command made up of the one that the cut is in. -/
def madeUp (n : Nat) (packed : List ReplayCmd) : List ReplayCmd :=
  if n % 28 = 0 then [] else packed[n / 28]?.toList.map (cutCommand (n % 28))

/-- The commands that something is left of: those that are complete, and the one made up. -/
def commandsLeft (n : Nat) (packed : List ReplayCmd) : List ReplayCmd :=
  packed.take (n / 28) ++ madeUp n packed

example : commandsLeft 42 [⟨0, 0, 7, 1000000, 10⟩, ⟨0, 1, 8, 2000000, 10⟩]
    = [⟨0, 0, 7, 1000000, 10⟩, ⟨0, 1, 8, 33920, 0⟩] := by decide

/-- The records from the cut on. -/
lemma map_torn (n : Nat) (packed : List ReplayCmd) :
    (torn 0 28 (n % 28) ((packed.drop (n / 28)).map ReplayCmd.bytes)).map ReplayCmd.ofBytes
      = madeUp n packed
        ++ List.replicate (packed.length - (commandsLeft n packed).length) blank := by
  have htorn := torn_eq (z := 0) (Nat.mod_lt n (by decide))
    (length_of_mem_bytes (packed.drop (n / 28)))
  generalize hcut : (if n % 28 = 0 then [] else _) = cut at htorn
  have hmade : cut.map ReplayCmd.ofBytes = madeUp n packed := by
    rw [← hcut, madeUp]
    split_ifs
    · rfl
    · rw [List.head?_map, List.head?_drop, Option.toList_map, List.map_map, List.map_map]
      rfl
  have hcount : ((packed.drop (n / 28)).map ReplayCmd.bytes).length - cut.length
      = packed.length - (commandsLeft n packed).length := by
    have hlength : cut.length = (madeUp n packed).length := by rw [← hmade, List.length_map]
    rw [commandsLeft, List.length_map, List.length_drop, List.length_append, List.length_take,
      hlength]
    omega
  rw [htorn, List.map_append, hmade, List.map_replicate, ofBytes_replicate, hcount]

/-- **What is read of a file that is cut off** after its header. -/
theorem readFile_take (h : writeFile packed = some file) (uninitMagic uninitCount : Vector UInt8 4)
    (n : Nat) :
    readFile uninitMagic uninitCount (file.take (8 + n)) = some (commandsLeft n packed
      ++ List.replicate (packed.length - (commandsLeft n packed).length) blank) := by
  rw [writeFile] at h
  split_ifs at h with hcount
  obtain rfl := Option.some.inj h
  have hcut : (magic ++ (putU32 (.ofNat packed.length)
      ++ (packed.map ReplayCmd.bytes).flatten)).take (8 + n)
      = magic ++ (putU32 (.ofNat packed.length)
        ++ (packed.map ReplayCmd.bytes).flatten.take n) := by
    have hheader : (magic ++ putU32 (.ofNat packed.length)).length = 8 := by simp [magic]
    rw [← List.append_assoc, ← List.append_assoc, ← hheader, List.take_length_add_append]
  have hread := records_fill_take (z := 0) (by decide) (length_of_mem_bytes packed) n
  rw [List.length_map] at hread
  rw [hcut, readFile_header _ _ hcount, hread, List.map_append, ← List.map_take, map_ofBytes,
    ← List.map_drop, map_torn, ← List.append_assoc, ← commandsLeft]

/-- **What the replay makes of a file that is cut off**, `n` bytes after its header.  What it reads
are the commands whose records are complete, one made up of the bytes that are left of the next
record and zeros, if there are any, and blank ones.  The book stays as the commands that something
is left of leave it; for each of the others there is an error. -/
theorem cut_file (packed : List ReplayCmd) (file : List UInt8) (h : writeFile packed = some file)
    (uninitMagic uninitCount : Vector UInt8 4) (n : Nat) (uninit : OrderResult)
    (clocks : Nat → Stream' Timestamp) :
    let left := commandsLeft n packed
    let missing := packed.length - left.length
    let s := run (step uninit) (start clocks) left
    let t := run (step uninit) (start clocks) (left ++ List.replicate missing blank)
    readFile uninitMagic uninitCount (file.take (8 + n))
        = some (left ++ List.replicate missing blank) ∧
      t.engine.book? sym = s.engine.book? sym ∧ t.nErr = s.nErr + .ofNat missing := by
  intro left missing s t
  have hrun : t = run (step uninit) s (List.replicate missing blank) := Run.run_append _ _ _
  obtain ⟨hbook, herr⟩ := run_blank uninit s missing
  exact ⟨readFile_take h uninitMagic uninitCount n, by rw [hrun, hbook], by rw [hrun, herr]⟩

/-- Two orders and a cancel, of which the second order has lost its quantity and the upper bytes of
its price. -/
theorem cut_file_sample :
    let left : List ReplayCmd := [⟨0, 0, 7, 1000000, 10⟩, ⟨0, 1, 8, 33920, 0⟩]
    readFile (Vector.replicate 4 0) (Vector.replicate 4 0)
        ((magic ++ (putU32 3 ++ (ReplayCmd.bytes ⟨0, 0, 7, 1000000, 10⟩
          ++ (ReplayCmd.bytes ⟨0, 1, 8, 2000000, 10⟩
            ++ ReplayCmd.bytes ⟨1, 0, 7, 1000000, 0⟩)))).take (8 + 42)) = some (left ++ [blank]) ∧
      (run (step {}) (start fun _ _ => 0) (left ++ [blank])).nErr
        = (run (step {}) (start fun _ _ => 0) left).nErr + 1 := by
  have h := cut_file [⟨0, 0, 7, 1000000, 10⟩, ⟨0, 1, 8, 2000000, 10⟩, ⟨1, 0, 7, 1000000, 0⟩] _ rfl
    (Vector.replicate 4 0) (Vector.replicate 4 0) 42 {} (fun _ _ => 0)
  exact ⟨h.1, h.2.2⟩

end Exchange.ReplayKraken
