import MentorAllocation.Data.Pieces
import MentorAllocation.Readiness.Pilot

namespace Readiness

def payload (source : List RawChunk) : List UInt8 := (source.map RawChunk.normalise).flatten

def nonemptyChunks (source : List RawChunk) : List (List UInt8) :=
  (source.map RawChunk.normalise).filter fun chunk => !chunk.isEmpty

/-- The line feeds of some bytes, and the line after the last of them. -/
def rowCount (data : List UInt8) : Nat :=
  data.count 10 + if data ≠ [] ∧ data.getLast? ≠ some 10 then 1 else 0

theorem payload_append (first second : List RawChunk) :
    payload (first ++ second) = payload first ++ payload second := by
  rw [payload, List.map_append, List.flatten_append, payload, payload]

theorem payload_singleton (chunk : RawChunk) : payload [chunk] = chunk.normalise := by
  simp [payload]

theorem nonemptyChunks_append (first second : List RawChunk) :
    nonemptyChunks (first ++ second) = nonemptyChunks first ++ nonemptyChunks second := by
  rw [nonemptyChunks, List.map_append, List.filter_append, nonemptyChunks, nonemptyChunks]

theorem nonemptyChunks_singleton {chunk : RawChunk} (h : chunk.normalise ≠ []) :
    nonemptyChunks [chunk] = [chunk.normalise] := by
  simp [nonemptyChunks, h]

theorem flatten_nonemptyChunks (source : List RawChunk) :
    (nonemptyChunks source).flatten = payload source :=
  List.flatten_filter_not_isEmpty

structure Spool.Holds (spool : Spool) (source : List RawChunk) : Prop where
  file : spool.file = payload source
  digest : spool.digest = payload source
  sizes : spool.chunkSizes = (nonemptyChunks source).map List.length
  total : spool.bytesTotal = (payload source).length
  rows : spool.rows = (payload source).count 10
  leftover : Data.LastPiece 10 (payload source) spool.leftover

theorem Spool.empty_holds : Spool.empty.Holds [] :=
  ⟨rfl, rfl, rfl, rfl, rfl, .whole List.not_mem_nil⟩

/-- The last piece is kept also where the code resets it: there it is empty. -/
theorem leftover_eq (buffer : List UInt8) :
    (if !buffer.isEmpty && buffer.getLast? != some 10 then (buffer.splitOn 10).getLastD []
      else []) = (buffer.splitOn 10).getLastD [] := by
  split
  · rfl
  · next hclosed =>
    refine ((Data.LastPiece.splitOn 10 buffer).eq_nil_iff.mpr ?_).symm
    simp only [Bool.and_eq_true, Bool.not_eq_true', List.isEmpty_eq_false_iff,
      bne_iff_ne] at hclosed
    tauto

theorem Spool.Holds.chunk {spool : Spool} {source : List RawChunk} (h : spool.Holds source)
    (raw : RawChunk) : (spool.chunk raw).Holds (source ++ [raw]) := by
  rw [Spool.chunk]
  split
  · next hempty =>
    have hraw : raw.normalise = [] := List.isEmpty_iff.mp hempty
    have hpayload : payload (source ++ [raw]) = payload source := by
      rw [payload_append, payload_singleton, hraw, List.append_nil]
    have hchunks : nonemptyChunks (source ++ [raw]) = nonemptyChunks source := by
      rw [nonemptyChunks_append]
      simp [nonemptyChunks, hraw]
    constructor
    case sizes => rw [hchunks, h.sizes]
    all_goals rw [hpayload]
    exacts [h.file, h.digest, h.total, h.rows, h.leftover]
  · next hfull =>
    have hraw : raw.normalise ≠ [] := fun hnil => hfull (List.isEmpty_iff.mpr hnil)
    have hpayload : payload (source ++ [raw]) = payload source ++ raw.normalise := by
      rw [payload_append, payload_singleton]
    have hnone : spool.leftover.count 10 = 0 := List.count_eq_zero.mpr h.leftover.separator_free
    constructor
    case sizes =>
      rw [nonemptyChunks_append, nonemptyChunks_singleton hraw, List.map_append, ← h.sizes]
      rfl
    case rows =>
      change spool.rows + (((spool.leftover ++ raw.normalise).splitOn 10).length - 1) = _
      rw [hpayload, Data.length_splitOn, Nat.add_sub_cancel, List.count_append, List.count_append,
        hnone, Nat.zero_add, h.rows]
    case leftover =>
      have hlast := h.leftover.append (Data.LastPiece.splitOn 10 (spool.leftover ++ raw.normalise))
      rw [← leftover_eq] at hlast
      rw [hpayload]
      exact hlast
    all_goals rw [hpayload]
    case file => rw [← h.file]
    case digest => rw [← h.digest]
    case total => rw [List.length_append, ← h.total]

theorem Spool.Holds.foldl {spool : Spool} {source : List RawChunk} (h : spool.Holds source)
    (rest : List RawChunk) : (rest.foldl Spool.chunk spool).Holds (source ++ rest) := by
  induction rest generalizing spool source with
  | nil => rwa [List.append_nil]
  | cons raw rest ih =>
    rw [List.foldl_cons, List.append_cons]
    exact ih (h.chunk raw)

theorem Spool.run_spec (source : List RawChunk) :
    (Spool.run source).file = payload source ∧
    (Spool.run source).digest = payload source ∧
    (Spool.run source).chunkSizes = (nonemptyChunks source).map List.length ∧
    (Spool.run source).bytesTotal = (payload source).length ∧
    (Spool.run source).rows = rowCount (payload source) := by
  have h : (source.foldl Spool.chunk Spool.empty).Holds source := Spool.empty_holds.foldl source
  have hleft := h.leftover.eq_nil_iff
  rw [Spool.run]
  split
  · next hempty =>
    refine ⟨h.file, h.digest, h.sizes, h.total, ?_⟩
    have hclosed := hleft.mp (List.isEmpty_iff.mp hempty)
    rw [rowCount, if_neg (by tauto), h.rows, Nat.add_zero]
  · next hopen =>
    refine ⟨h.file, h.digest, h.sizes, h.total, ?_⟩
    have hopen' := mt hleft.mpr fun hnil => hopen (List.isEmpty_iff.mpr hnil)
    rw [not_or] at hopen'
    rw [rowCount, if_pos hopen', ← h.rows]

namespace StreamingPilotMeter

/-- Reads of the sizes of chunks that are not empty give these chunks. -/
theorem iterFromSpool_sizes {chunks : List (List UInt8)} (h : ∀ chunk ∈ chunks, chunk ≠ []) :
    iterFromSpool (chunks.map List.length) chunks.flatten = chunks := by
  induction chunks with
  | nil => rfl
  | cons chunk chunks ih =>
    obtain ⟨hchunk, hchunks⟩ := List.forall_mem_cons.mp h
    have hsize : ¬ chunk.length ≤ 0 := fun hle =>
      hchunk (List.eq_nil_of_length_eq_zero (Nat.le_zero.mp hle))
    rw [List.map_cons, List.flatten_cons, iterFromSpool, if_neg hsize, List.take_left,
      List.drop_left, ih hchunks]
    simp [hchunk]

/-- What is left to say of a meter that has been prepared. -/
structure Spooled (sha256 : List UInt8 → String) (meter : StreamingPilotMeter) (files : Files)
    (stats : PilotStreamStats) : Prop where
  stats_eq : meter.stats = some stats
  rows : stats.rows = rowCount (payload meter.source)
  bytes : stats.bytes = (payload meter.source).length
  checksum : stats.checksum = sha256 (payload meter.source)
  sizes : meter.chunkSizes = (nonemptyChunks meter.source).map List.length
  path : meter.spooledPath = some stats.path
  file : files stats.path = some (payload meter.source)

inductive Call where
  | prepare (elapsed : ℚ) (hex : String)
  | stream (elapsed : ℚ) (hex : String)
  | cleanup

section
variable (sha256 : List UInt8 → String)

/-- What a call leaves; one that raises leaves what it found. -/
def Call.step (world : StreamingPilotMeter × Files) : Call → StreamingPilotMeter × Files
  | .prepare elapsed hex =>
    ((StreamingPilotMeter.prepare sha256 elapsed hex world.1 world.2).map Prod.snd).toOption.getD
      world
  | .stream elapsed hex =>
    ((StreamingPilotMeter.stream sha256 elapsed hex world.1 world.2).map Prod.snd).toOption.getD
      world
  | .cleanup => StreamingPilotMeter.cleanup world.1 world.2

/-- A meter of this source, and if it is prepared, with what it says and spools. -/
structure Sound (source : List RawChunk) (world : StreamingPilotMeter × Files) : Prop where
  source_eq : world.1.source = source
  spooled : world.1.prepared = true → ∃ stats, Spooled sha256 world.1 world.2 stats

variable {sha256} {source : List RawChunk} {world : StreamingPilotMeter × Files}

theorem Sound.prepare (h : Sound sha256 source world) (elapsed : ℚ) (hex : String) :
    ∃ stats meter files, StreamingPilotMeter.prepare sha256 elapsed hex world.1 world.2 =
        .ok (stats, meter, files) ∧
      meter.source = source ∧ meter.prepared = true ∧ Spooled sha256 meter files stats := by
  rw [StreamingPilotMeter.prepare]
  split
  · next hprepared =>
    obtain ⟨stats, hstats⟩ := h.spooled hprepared
    rw [hstats.stats_eq]
    exact ⟨stats, world.1, world.2, rfl, h.source_eq, hprepared, hstats⟩
  · obtain ⟨hfile, hdigest, hsizes, htotal, hrows⟩ := Spool.run_spec world.1.source
    refine ⟨_, _, _, rfl, h.source_eq, rfl, ?_⟩
    exact
      { stats_eq := rfl
        rows := hrows
        bytes := htotal
        checksum := congrArg sha256 hdigest
        sizes := hsizes
        path := rfl
        file := by rw [Function.update_self, hfile] }

theorem Sound.stream (h : Sound sha256 source world) (elapsed : ℚ) (hex : String) :
    ∃ meter files, StreamingPilotMeter.stream sha256 elapsed hex world.1 world.2 =
        .ok (nonemptyChunks source, meter, files) ∧
      Sound sha256 source (meter, files) := by
  obtain ⟨stats, meter, files, hprepare, hsource, hprepared, hstats⟩ := h.prepare elapsed hex
  have hsound : Sound sha256 source (meter, files) := ⟨hsource, fun _ => ⟨stats, hstats⟩⟩
  refine ⟨meter, files, ?_, hsound⟩
  have hsizes := hstats.sizes
  have hfile := hstats.file
  rw [hsource] at hsizes hfile
  rw [StreamingPilotMeter.stream, hprepare]
  change (if meter.spooledPath.isNone then throw _ else _) = _
  have hpath : ¬ (some stats.path).isNone = true := Bool.false_ne_true
  rw [hstats.path, if_neg hpath, hfile, hsizes, ← flatten_nonemptyChunks]
  split
  · next hnone =>
    rw [List.isEmpty_iff, List.map_eq_nil_iff] at hnone
    rw [hnone]
    rfl
  · exact congrArg (fun chunks => Except.ok (chunks, meter, files))
      (iterFromSpool_sizes fun chunk hchunk => by
        rw [nonemptyChunks, List.mem_filter] at hchunk
        simpa using hchunk.2)

theorem Sound.step (h : Sound sha256 source world) (call : Call) :
    Sound sha256 source (call.step sha256 world) := by
  cases call with
  | prepare elapsed hex =>
    obtain ⟨stats, meter, files, hprepare, hsource, _, hstats⟩ := h.prepare elapsed hex
    simp only [Call.step, hprepare]
    exact ⟨hsource, fun _ => ⟨stats, hstats⟩⟩
  | stream elapsed hex =>
    obtain ⟨meter, files, hstream, hsound⟩ := h.stream elapsed hex
    simp only [Call.step, hstream]
    exact hsound
  | cleanup => exact ⟨h.source_eq, fun hprepared => by cases hprepared⟩

theorem Sound.run (h : Sound sha256 source world) (calls : List Call) :
    Sound sha256 source (calls.foldl (Call.step sha256) world) := by
  induction calls generalizing world with
  | nil => exact h
  | cons call calls ih => exact ih (h.step call)

theorem init_sound (sha256 : List UInt8 → String) (source : List RawChunk) (tmpRoot : String)
    (files : Files) :
    Sound sha256 source (init source tmpRoot, files) :=
  ⟨rfl, fun hprepared => by cases hprepared⟩

end

/-- The meter of a source and its files after these calls. -/
def after (sha256 : List UInt8 → String) (source : List RawChunk) (tmpRoot : String)
    (files : Files) (calls : List Call) : StreamingPilotMeter × Files :=
  calls.foldl (Call.step sha256) (init source tmpRoot, files)

theorem prepare_after (sha256 : List UInt8 → String) (source : List RawChunk) (tmpRoot : String)
    (files : Files) (calls : List Call) (elapsed : ℚ) (hex : String) :
    let world := after sha256 source tmpRoot files calls
    ∃ stats rest, prepare sha256 elapsed hex world.1 world.2 = .ok (stats, rest) ∧
      stats.rows = rowCount (payload source) ∧
      stats.bytes = (payload source).length ∧
      stats.checksum = sha256 (payload source) := by
  have h := (init_sound sha256 source tmpRoot files).run calls
  obtain ⟨stats, meter, files', hprepare, hsource, _, hstats⟩ := h.prepare elapsed hex
  refine ⟨stats, (meter, files'), hprepare, ?_, ?_, ?_⟩
  · rw [hstats.rows, hsource]
  · rw [hstats.bytes, hsource]
  · rw [hstats.checksum, hsource]

/-- After any calls a meter reports the rows, the size and the checksum of the bytes of its
source and streams the chunks of it that are not empty; what it reports is the same for
every source of the same bytes. -/
theorem metering_unchunked (sha256 : List UInt8 → String) (source : List RawChunk)
    (tmpRoot : String) (files : Files) (calls : List Call) (elapsed : ℚ) (hex : String) :
    let world := after sha256 source tmpRoot files calls
    (∃ stats rest, prepare sha256 elapsed hex world.1 world.2 = .ok (stats, rest) ∧
      stats.rows = rowCount (payload source) ∧
      stats.bytes = (payload source).length ∧
      stats.checksum = sha256 (payload source)) ∧
    (∃ rest, stream sha256 elapsed hex world.1 world.2 = .ok (nonemptyChunks source, rest)) ∧
    ∀ (other : List RawChunk) (calls' : List Call), payload other = payload source →
      let world' := after sha256 other tmpRoot files calls'
      ∃ stats rest stats' rest',
        prepare sha256 elapsed hex world.1 world.2 = .ok (stats, rest) ∧
        prepare sha256 elapsed hex world'.1 world'.2 = .ok (stats', rest') ∧
        stats'.rows = stats.rows ∧ stats'.bytes = stats.bytes ∧
        stats'.checksum = stats.checksum := by
  have hreported := prepare_after sha256 source tmpRoot files calls elapsed hex
  refine ⟨hreported, ?_, ?_⟩
  · have h := (init_sound sha256 source tmpRoot files).run calls
    obtain ⟨meter, files', hstream, _⟩ := h.stream elapsed hex
    exact ⟨(meter, files'), hstream⟩
  · intro other calls' hsame
    obtain ⟨stats, rest, hprepare, hrows, hbytes, hchecksum⟩ := hreported
    obtain ⟨stats', rest', hprepare', hrows', hbytes', hchecksum'⟩ :=
      prepare_after sha256 other tmpRoot files calls' elapsed hex
    rw [hsame] at hrows' hbytes' hchecksum'
    exact ⟨stats, rest, stats', rest', hprepare, hprepare', hrows'.trans hrows.symm,
      hbytes'.trans hbytes.symm, hchecksum'.trans hchecksum.symm⟩

/-- Two rows, the second without its line feed: in three chunks, one of them empty, and in
one. -/
theorem metering_unchunked_sample :
    ∃ stats rest stats' rest',
      prepare (fun data => toString data.length) 0 "00"
          (init [.bytes [97, 10], .bytes [], .bytes [98]] "/tmp") (fun _ => none) =
        .ok (stats, rest) ∧
      prepare (fun data => toString data.length) 0 "00" (init [.bytes [97, 10, 98]] "/tmp")
          (fun _ => none) = .ok (stats', rest') ∧
      stats'.rows = stats.rows ∧ stats'.bytes = stats.bytes ∧
      stats'.checksum = stats.checksum :=
  (metering_unchunked (fun data => toString data.length)
    [.bytes [97, 10], .bytes [], .bytes [98]] "/tmp" (fun _ => none) [] 0 "00").2.2
    [.bytes [97, 10, 98]] [] rfl

end StreamingPilotMeter

end Readiness
