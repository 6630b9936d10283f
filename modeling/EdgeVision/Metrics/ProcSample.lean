import EdgeVision.Lib.IStream

/-!
# Reading `/proc`

`MetricsCollector::readProcSample`: the jiffies of all processors from `/proc/stat`, and the jiffies
and resident pages of the process from `/proc/self/stat`. A file is its text, `none` when it cannot
be opened.
-/

namespace EdgeVision

open Lib

structure ProcSample where
  totalJiffies : UInt64
  processJiffies : UInt64
  rssPages : UInt64
  valid : Bool
  deriving DecidableEq, Repr

namespace ProcSample

/-- `cpu_tag` and the eight counters behind it, as their sum. -/
def readTotalJiffies (text : List Char) : Option UInt64 := do
  let cpuTag ← IStream.word text
  let user ← IStream.unsigned64 cpuTag.2
  let nice ← IStream.unsigned64 user.2
  let system ← IStream.unsigned64 nice.2
  let idle ← IStream.unsigned64 system.2
  let iowait ← IStream.unsigned64 idle.2
  let irq ← IStream.unsigned64 iowait.2
  let softirq ← IStream.unsigned64 irq.2
  let steal ← IStream.unsigned64 softirq.2
  some (user.1 + nice.1 + system.1 + idle.1 + iowait.1 + irq.1 + softirq.1 + steal.1)

/-- `line.rfind(ch)`. -/
def rfind (ch : Char) : List Char → Option Nat
  | [] => none
  | c :: rest =>
    match rfind ch rest with
    | some i => some (i + 1)
    | none => if c = ch then some 0 else none

/-- What the fields of a line tell, `none` at each early return. The extraction of the state is not
tested, but after it fails all others do. -/
def readFields (fields : List Char) : Option (UInt64 × UInt64) := do
  let state ← IStream.char fields
  -- fields 4 to 13
  let ignored ← IStream.skip IStream.unsigned64 10 state.2
  let utime ← IStream.unsigned64 ignored
  let stime ← IStream.unsigned64 utime.2
  -- fields 16 to 22
  let ignored ← IStream.skip IStream.signed64 7 stime.2
  let vsize ← IStream.unsigned64 ignored
  let rss ← IStream.signed64 vsize.2
  some (utime.1 + stime.1, if 0 < rss.1 then UInt64.ofInt rss.1 else 0)

def readSelfStat (line : List Char) : Option (UInt64 × UInt64) :=
  match rfind ')' line with
  | none => none
  | some closeParen =>
    if line.length ≤ closeParen + 2 then none else readFields (line.drop (closeParen + 2))

end ProcSample

/-- `procStat` and `selfStat` are the texts of `/proc/stat` and `/proc/self/stat`. -/
def readProcSample (procStat selfStat : Option (List Char)) : ProcSample :=
  match procStat.bind ProcSample.readTotalJiffies with
  | none => ⟨0, 0, 0, false⟩
  | some totalJiffies =>
    match (selfStat.bind IStream.getline).bind ProcSample.readSelfStat with
    | none => ⟨totalJiffies, 0, 0, false⟩
    | some (processJiffies, rssPages) => ⟨totalJiffies, processJiffies, rssPages, true⟩

end EdgeVision
