import Iona.Lib.Lines
import Iona.Lib.Text
import Iona.Prim

/-!
# The write-ahead log

`wal.rs`.
-/

namespace Iona

open Bytes Lines List

/-! ### Events as text -/

structure Serde (Event : Type) where
  toJson : Event → String
  fromJson : String → Option Event
  toJsonChecked : Event → UInt32 → String
  fromJsonChecked : String → Option (Event × UInt32)
  crc32 : List UInt8 → UInt32

structure OneLine (text : String) : Prop where
  noControl : ∀ b ∈ utf8 text, 32 ≤ b
  notBlank : (Text.trim text).isEmpty = false

/-- **What is assumed of the serialisation**: it round-trips, it writes one line, and no line that
breaks off before its end is accepted. -/
structure Serde.Lawful {Event : Type} (J : Serde Event) : Prop where
  plain : ∀ e, J.fromJson (J.toJson e) = some e
  checked : ∀ e c, J.fromJsonChecked (J.toJsonChecked e c) = some (e, c)
  plainLine : ∀ e, OneLine (J.toJson e)
  checkedLine : ∀ e c, OneLine (J.toJsonChecked e c)
  plainTorn : ∀ e s, utf8 s <+: utf8 (J.toJson e) → s ≠ J.toJson e → J.fromJson s = none
  checkedTorn : ∀ e c s, utf8 s <+: utf8 (J.toJsonChecked e c) → s ≠ J.toJsonChecked e c →
    J.fromJsonChecked s = none

namespace Wal

structure WalConfig where
  maxSegmentBytes : ℕ
  keepSegments : ℕ
  enableChecksums : Bool
  strictReplay : Bool

inductive WalError where
  | alreadyClosed
  | config (reason : String)
  | corruptLinesExceeded (count max : ℕ)
  deriving DecidableEq

def WalConfig.validate (cfg : WalConfig) : Except WalError Unit :=
  if cfg.maxSegmentBytes = 0 then .error (.config "max_segment_bytes must be > 0")
  else if cfg.keepSegments = 0 then .error (.config "keep_segments must be > 0")
  else .ok ()

variable {Event : Type} (J : Serde Event) (cfg : WalConfig)

def computeChecksum (event : Event) : UInt32 := J.crc32 (utf8 (J.toJson event))

def lineText (event : Event) : String :=
  if cfg.enableChecksums then J.toJsonChecked event (computeChecksum J event) else J.toJson event

def lineBytes (event : Event) : List UInt8 := utf8 (lineText J cfg event)

def parseText (text : String) : Option Event :=
  if cfg.enableChecksums then
    (J.fromJsonChecked text).bind fun checked =>
      if checked.2 = computeChecksum J checked.1 then some checked.1 else none
  else J.fromJson text

/-! ### The directory -/

abbrev Disk := BTreeMap ℕ (List UInt8)

structure WalInner where
  currentSegment : ℕ
  written : ℕ
  closed : Bool
  deriving DecidableEq

def segmentFile (disk : Disk) (segment : ℕ) : List UInt8 := disk.getD segment []

def openFile (disk : Disk) (segment : ℕ) : Disk := disk.insert segment (segmentFile disk segment)

def latestSegment (disk : Disk) : Option ℕ := disk.keys.max?

def reopen (disk : Disk) : Except WalError (WalInner × Disk) := do
  cfg.validate
  let currentSegment := (latestSegment disk).getD 0
  .ok ({ currentSegment, written := (segmentFile disk currentSegment).length, closed := false },
    openFile disk currentSegment)

def WalConfig.keep (cfg : WalConfig) : ℕ := cfg.keepSegments % 2 ^ 32

def pruneOldSegments (disk : Disk) (currentSegment : ℕ) : Disk :=
  if currentSegment < cfg.keep then disk
  else disk.filter fun segment _ => currentSegment - cfg.keep ≤ segment

def lastSegment : ℕ := 2 ^ 32 - 1

def rotate (wal : WalInner) (disk : Disk) : WalInner × Disk :=
  let currentSegment := min (wal.currentSegment + 1) lastSegment
  ({ wal with currentSegment, written := 0 },
    pruneOldSegments cfg (openFile disk currentSegment) currentSegment)

def prepare (wal : WalInner) (disk : Disk) : WalInner × Disk :=
  if cfg.maxSegmentBytes ≤ wal.written then rotate cfg wal disk else (wal, disk)

def writeAll (disk : Disk) (segment : ℕ) (bytes : List UInt8) : Disk :=
  disk.insert segment (segmentFile disk segment ++ bytes)

def append (wal : WalInner) (disk : Disk) (event : Event) : Except WalError Unit × WalInner × Disk :=
  if wal.closed then (.error .alreadyClosed, wal, disk)
  else
    let (wal, disk) := prepare cfg wal disk
    let bytes := lineBytes J cfg event ++ [lf]
    (.ok (), { wal with written := min (wal.written + bytes.length) (2 ^ 64 - 1) },
      writeAll disk wal.currentSegment bytes)

def tear (wal : WalInner) (disk : Disk) (event : Event) (kept : ℕ) : Disk :=
  if wal.closed then disk
  else
    let (wal, disk) := prepare cfg wal disk
    writeAll disk wal.currentSegment ((lineBytes J cfg event ++ [lf]).take kept)

/-! ### Replay -/

inductive LineResult (Event : Type) where
  | blank
  | corrupt
  | event (e : Event)

def readLine (line : List UInt8) : LineResult Event :=
  match String.fromUTF8? ⟨line.toArray⟩ with
  | none => .corrupt
  | some text =>
    if (Text.trim text).isEmpty then .blank
    else match parseText J cfg text with
      | none => .corrupt
      | some e => .event e

def maxCorruptTolerance : ℕ := 10

def replayLine (acc : ℕ × List Event) (line : List UInt8) : Except WalError (ℕ × List Event) :=
  match readLine J cfg line with
  | .blank => .ok acc
  | .corrupt => .ok (acc.1 + 1, acc.2)
  | .event e =>
    if cfg.strictReplay && maxCorruptTolerance < acc.1 then
      .error (.corruptLinesExceeded acc.1 maxCorruptTolerance)
    else .ok (acc.1, acc.2 ++ [e])

def replay (disk : Disk) : Except WalError (List Event) := do
  let acc ← (disk.toList.flatMap fun file => lines file.2).foldlM (replayLine J cfg) (0, [])
  if cfg.strictReplay && maxCorruptTolerance < acc.1 then
    .error (.corruptLinesExceeded acc.1 maxCorruptTolerance)
  else .ok acc.2

/-! ### What a file replays to -/

def lineEvent (line : List UInt8) : Option Event :=
  match readLine J cfg line with
  | .event e => some e
  | _ => none

def fileEvents (bytes : List UInt8) : List Event := (lines bytes).filterMap (lineEvent J cfg)

variable {J cfg}

lemma fileEvents_append {l : List UInt8} (h : Lines.Clean l) (rest : List UInt8) :
    fileEvents J cfg (l ++ rest) = fileEvents J cfg l ++ fileEvents J cfg rest := by
  rw [fileEvents, lines_append h, filterMap_append]
  rfl

lemma fromUTF8?_utf8 (s : String) : String.fromUTF8? ⟨(utf8 s).toArray⟩ = some s := by
  unfold String.fromUTF8? utf8
  rw [Array.toArray_toList]
  exact dif_pos s.isValidUTF8

lemma utf8_of_fromUTF8? {line : List UInt8} {s : String}
    (h : String.fromUTF8? ⟨line.toArray⟩ = some s) : utf8 s = line := by
  unfold String.fromUTF8? at h
  split at h
  · cases h
    rfl
  · cases h

section Lawful

variable (hJ : J.Lawful)

include hJ

lemma lineText_oneLine (e : Event) : OneLine (lineText J cfg e) := by
  unfold lineText
  split
  · exact hJ.checkedLine e _
  · exact hJ.plainLine e

lemma parseText_lineText (e : Event) : parseText J cfg (lineText J cfg e) = some e := by
  unfold parseText lineText
  split
  · rw [hJ.checked]
    exact if_pos rfl
  · exact hJ.plain e

lemma parseText_torn {e : Event} {s : String} (hpre : utf8 s <+: lineBytes J cfg e)
    (hne : s ≠ lineText J cfg e) : parseText J cfg s = none := by
  unfold lineBytes lineText at hpre
  unfold lineText at hne
  unfold parseText
  split
  · rename_i hc
    rw [if_pos hc] at hpre hne
    rw [hJ.checkedTorn e _ s hpre hne]
    rfl
  · rename_i hc
    rw [if_neg hc] at hpre hne
    exact hJ.plainTorn e s hpre hne

lemma lineEvent_lineBytes (e : Event) : lineEvent J cfg (lineBytes J cfg e) = some e := by
  unfold lineEvent readLine lineBytes
  rw [fromUTF8?_utf8]
  simp [(lineText_oneLine hJ e).notBlank, parseText_lineText hJ e]

lemma lineEvent_torn {e : Event} {p : List UInt8} (hpre : p <+: lineBytes J cfg e)
    (hne : p ≠ lineBytes J cfg e) : lineEvent J cfg p = none := by
  unfold lineEvent readLine
  cases htext : String.fromUTF8? ⟨p.toArray⟩ with
  | none => rfl
  | some s =>
    have hutf8 := utf8_of_fromUTF8? htext
    have hs : s ≠ lineText J cfg e := by
      rintro rfl
      exact hne hutf8.symm
    have hparse := parseText_torn hJ (hutf8 ▸ hpre) hs
    cases hblank : (Text.trim s).isEmpty <;> simp [hparse, hblank]

lemma not_mem_lineBytes (e : Event) {b : UInt8} (h : b < 32) : b ∉ lineBytes J cfg e := fun hmem =>
  absurd ((lineText_oneLine hJ e).noControl b hmem) (UInt8.not_le.mpr h)

lemma lineBytes_ne_nil (e : Event) : lineBytes J cfg e ≠ [] := by
  intro hnil
  have hempty : lineText J cfg e = "" := utf8_injective hnil
  have hblank : (Text.trim (lineText J cfg e)).isEmpty = false := (lineText_oneLine hJ e).notBlank
  rw [hempty] at hblank
  exact absurd hblank (by decide)

lemma fileEvents_take (e : Event) (kept : ℕ) :
    fileEvents J cfg ((lineBytes J cfg e ++ [lf]).take kept) =
      if (lineBytes J cfg e).length ≤ kept then [e] else [] := by
  have hlf : lf ∉ lineBytes J cfg e := not_mem_lineBytes hJ e (by decide)
  have hcr : cr ∉ lineBytes J cfg e := not_mem_lineBytes hJ e (by decide)
  unfold fileEvents
  rcases Nat.lt_trichotomy kept (lineBytes J cfg e).length with hlt | heq | hgt
  · -- cut inside the line: a proper prefix, which no parser accepts
    rw [if_neg (not_le.mpr hlt), take_append_of_le_length hlt.le]
    have hpre : (lineBytes J cfg e).take kept <+: lineBytes J cfg e := take_prefix _ _
    have hne : (lineBytes J cfg e).take kept ≠ lineBytes J cfg e := fun h => by
      have := congrArg List.length h
      rw [length_take] at this
      omega
    by_cases hnil : (lineBytes J cfg e).take kept = []
    · rw [hnil]
      rfl
    · rw [lines_unterminated (fun h => hlf (mem_of_mem_take h)) hnil,
        filterMap_cons_none (lineEvent_torn hJ hpre hne), filterMap_nil]
  · -- the line is there and its line feed is not
    rw [if_pos heq.ge, take_append_of_le_length heq.le, heq, take_length,
      lines_unterminated hlf (lineBytes_ne_nil hJ e),
      filterMap_cons_some (lineEvent_lineBytes hJ e), filterMap_nil]
  · rw [if_pos hgt.le, take_of_length_le (by rw [length_append]; exact hgt),
      lines_terminated hlf hcr, filterMap_cons_some (lineEvent_lineBytes hJ e),
      filterMap_nil]

lemma fileEvents_line (e : Event) : fileEvents J cfg (lineBytes J cfg e ++ [lf]) = [e] := by
  have hall : (lineBytes J cfg e ++ [lf]).take ((lineBytes J cfg e).length + 1) =
      lineBytes J cfg e ++ [lf] := take_of_length_le (by simp)
  rw [← hall, fileEvents_take hJ, if_pos (Nat.le_succ _)]

end Lawful

end Wal

end Iona
