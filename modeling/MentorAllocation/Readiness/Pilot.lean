import Mathlib.Data.Rat.Defs
import Mathlib.Logic.Function.Basic

namespace Readiness

/-- What a source yields where bytes are expected; of other objects `str` is taken. -/
inductive RawChunk where
  | bytes (data : List UInt8)
  | bytearray (data : List UInt8)
  | memoryview (data : List UInt8)
  | other (text : String)

def RawChunk.normalise : RawChunk → List UInt8
  | .bytes data => data
  | .bytearray data => data
  | .memoryview data => data
  | .other text => text.toUTF8.toList

structure PilotStreamStats where
  rows : Nat
  bytes : Nat
  elapsedSeconds : ℚ
  checksum : String
  path : String

abbrev Files := String → Option (List UInt8)

/-- A meter. `source` is what iterating its source yields, whether that is an iterable or
a function that returns one. -/
structure StreamingPilotMeter where
  source : List RawChunk
  tmpRoot : String
  chunkSizes : List Nat
  stats : Option PilotStreamStats
  spooledPath : Option String
  prepared : Bool

/-- The variables of `_spool`: `digest` is what the checksum has been fed. -/
structure Spool where
  file : List UInt8
  chunkSizes : List Nat
  digest : List UInt8
  rows : Nat
  bytesTotal : Nat
  leftover : List UInt8

def Spool.empty : Spool :=
  { file := [], chunkSizes := [], digest := [], rows := 0, bytesTotal := 0, leftover := [] }

/-- One round of the loop of `_spool`. -/
def Spool.chunk (spool : Spool) (rawChunk : RawChunk) : Spool :=
  let chunk := rawChunk.normalise
  if chunk.isEmpty then spool
  else
    let buffer := spool.leftover ++ chunk
    let pieces := buffer.splitOn 10
    { file := spool.file ++ chunk
      chunkSizes := spool.chunkSizes ++ [chunk.length]
      digest := spool.digest ++ chunk
      rows := spool.rows + (pieces.length - 1)
      bytesTotal := spool.bytesTotal + chunk.length
      leftover :=
        if !buffer.isEmpty && buffer.getLast? != some 10 then pieces.getLastD [] else [] }

/-- `_spool`: what is left over is a row of its own. -/
def Spool.run (source : List RawChunk) : Spool :=
  let spool := source.foldl Spool.chunk Spool.empty
  if spool.leftover.isEmpty then spool else { spool with rows := spool.rows + 1, leftover := [] }

namespace StreamingPilotMeter

def init (source : List RawChunk) (tmpRoot : String) : StreamingPilotMeter :=
  { source, tmpRoot, chunkSizes := [], stats := none, spooledPath := none, prepared := false }

section
variable (sha256 : List UInt8 → String)

/-- `prepare`, which takes so many seconds by the clock and whose file has this name. -/
def prepare (elapsed : ℚ) (hex : String) (meter : StreamingPilotMeter) (files : Files) :
    Except String (PilotStreamStats × StreamingPilotMeter × Files) :=
  if meter.prepared then
    match meter.stats with
    | some stats => .ok (stats, meter, files)
    | none => .error "AssertionError"
  else
    let spool := Spool.run meter.source
    let path := meter.tmpRoot ++ "/pilot_" ++ hex ++ ".dat"
    let stats : PilotStreamStats :=
      { rows := spool.rows
        bytes := spool.bytesTotal
        elapsedSeconds := elapsed
        checksum := sha256 spool.digest
        path }
    .ok (stats,
      { meter with
        chunkSizes := spool.chunkSizes
        stats := some stats
        spooledPath := some path
        prepared := true },
      Function.update files path (some spool.file))

/-- `_iter_from_spool`: reads of the recorded sizes, up to one that reads nothing. -/
def iterFromSpool : List Nat → List UInt8 → List (List UInt8)
  | [], _ => []
  | size :: sizes, file =>
    if size ≤ 0 then iterFromSpool sizes file
    else
      let chunk := file.take size
      if chunk.isEmpty then [] else chunk :: iterFromSpool sizes (file.drop size)

def stream (elapsed : ℚ) (hex : String) (meter : StreamingPilotMeter) (files : Files) :
    Except String (List (List UInt8) × StreamingPilotMeter × Files) := do
  let (stats, meter, files) ← prepare sha256 elapsed hex meter files
  if meter.spooledPath.isNone then
    throw "StreamingPilotMeter missing spool file during stream()."
  if meter.chunkSizes.isEmpty then pure ([], meter, files)
  else
    match files stats.path with
    | none => throw "FileNotFoundError"
    | some file => pure (iterFromSpool meter.chunkSizes file, meter, files)

end

def cleanup (meter : StreamingPilotMeter) (files : Files) : StreamingPilotMeter × Files :=
  ({ meter with chunkSizes := [], prepared := false, stats := none, spooledPath := none },
    match meter.spooledPath with
    | some path => Function.update files path none
    | none => files)

end StreamingPilotMeter

end Readiness
