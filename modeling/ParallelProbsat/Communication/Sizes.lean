/-
The sizes of the commands that carry a file name (`cmd/*.hpp`): each `serialize` function as the list of
what it writes, with the largest lengths it allows. How many bytes the length before a text or a container
takes is a parameter. ADD_FILE has the smallest fixed part, so a name it can transport may be too long for
the commands that report the file, and nothing bounds the number of jobs in one reply but the request.
-/
import ParallelProbsat.Communication.Reports

namespace ParallelProbsat.Communication

open ParallelProbsat.Lib ParallelProbsat.Util

/-! ## What is written -/

/-- What a `serialize` function writes: a value of some bytes, a text with the greatest length allowed, or the
number of entries of a container with the greatest number allowed. -/
inductive Field where
  | value (bytes : Nat)
  | text1b (s : String) (maxSize : Nat)
  | container (count maxSize : Nat)

def ProblemInstanceMetadata.serialize (o : ProblemInstanceMetadata) : List Field :=
  [.value 4, .value 4, .text1b o.filename (absoluteMaxCmdLength - 8)]

def ProblemInstanceStatistics.serialize (_ : ProblemInstanceStatistics) : List Field := List.replicate 10 (.value 8)

def Job.serialize (o : Job) : List Field := o.metadata.serialize ++ [.value 4, .value 4]

def serializeJobs (o : List Job) : List Field := .container o.length absoluteMaxCmdLength :: o.flatMap Job.serialize

def SolutionInfo.serialize (o : SolutionInfo) : List Field :=
  List.replicate 5 (.value 8) ++ [.text1b o.filename (absoluteMaxCmdLength - 16)]

/-- `report_entry` -/
def serializeReportEntry (metadata : ProblemInstanceMetadata) (statistics : ProblemInstanceStatistics) : List Field :=
  metadata.serialize ++ statistics.serialize

section Sizes

-- the bytes of the length before a text or a container
variable (lengthBytes : Nat → Nat)

/-- The bytes of a text with its length. -/
def textBytes (s : String) : Nat := lengthBytes s.utf8ByteSize + s.utf8ByteSize

def Field.size : Field → Nat
  | .value bytes => bytes
  | .text1b s _ => textBytes lengthBytes s
  | .container count _ => lengthBytes count

/-- `quickSerialization`: the bytes of all that is written. -/
def serializedSize (fields : List Field) : Nat := (fields.map (Field.size lengthBytes)).sum

/-- The greatest lengths are kept. -/
def Field.Within : Field → Prop
  | .value _ => True
  | .text1b s maxSize => s.utf8ByteSize ≤ maxSize
  | .container count maxSize => count ≤ maxSize

/-- A command of this size is sent: it has at most `absolute_max_cmd_length` bytes, and the assertion of
`req_max_transfer_size` passes whatever the limit is so far. -/
def Passes (size : Nat) : Prop :=
  size ≤ absoluteMaxCmdLength ∧
    ∀ (limit : Nat) (inFlight : List (Packet S2M)), ensureCmdLength limit size inFlight ≠ none

/-- ADD_FILE can transport the file name. -/
def Transports (filename : String) : Prop :=
  ∀ data : ProblemInstanceMetadata, data.filename = filename → Passes (serializedSize lengthBytes data.serialize)

/-- What is sent about a file passes: its statistics and its solutions, to the server and to the manager, and
a reply with these jobs; for all values of the numbers in them. -/
structure Reported (filename : String) (jobs : List Job) : Prop where
  statistics : ∀ (metadata : ProblemInstanceMetadata) (statistics : ProblemInstanceStatistics),
    metadata.filename = filename → Passes (serializedSize lengthBytes (serializeReportEntry metadata statistics))
  solution : ∀ info : SolutionInfo, info.filename = filename → Passes (serializedSize lengthBytes info.serialize)
  instances : Passes (serializedSize lengthBytes (serializeJobs jobs))

end Sizes

/-! ## The sizes -/

variable {lengthBytes : Nat → Nat}

theorem passes_iff (size : Nat) : Passes size ↔ size ≤ absoluteMaxCmdLength := by
  constructor
  · exact And.left
  · intro h
    refine ⟨h, fun limit inFlight => ?_⟩
    unfold ensureCmdLength
    rw [if_pos h]
    split
    · exact Option.some_ne_none _
    · exact Option.some_ne_none _

@[simp] theorem serializedSize_nil : serializedSize lengthBytes [] = 0 := rfl

@[simp] theorem serializedSize_cons (f : Field) (fields : List Field) :
    serializedSize lengthBytes (f :: fields) = f.size lengthBytes + serializedSize lengthBytes fields := List.sum_cons

@[simp] theorem serializedSize_append (fields fields' : List Field) : serializedSize lengthBytes (fields ++ fields') =
    serializedSize lengthBytes fields + serializedSize lengthBytes fields' := by
  unfold serializedSize
  rw [List.map_append, List.sum_append]

theorem size_metadata (o : ProblemInstanceMetadata) :
    serializedSize lengthBytes o.serialize = 8 + textBytes lengthBytes o.filename := by
  simp [ProblemInstanceMetadata.serialize, Field.size]
  omega

theorem size_statistics (o : ProblemInstanceStatistics) : serializedSize lengthBytes o.serialize = 80 := by
  simp [ProblemInstanceStatistics.serialize, serializedSize, Field.size]

theorem size_reportEntry (metadata : ProblemInstanceMetadata) (statistics : ProblemInstanceStatistics) :
    serializedSize lengthBytes (serializeReportEntry metadata statistics) =
      88 + textBytes lengthBytes metadata.filename := by
  rw [serializeReportEntry, serializedSize_append, size_metadata, size_statistics]
  omega

theorem size_solution (o : SolutionInfo) :
    serializedSize lengthBytes o.serialize = 40 + textBytes lengthBytes o.filename := by
  simp [SolutionInfo.serialize, serializedSize, Field.size]
  omega

theorem size_job (o : Job) :
    serializedSize lengthBytes o.serialize = 16 + textBytes lengthBytes o.metadata.filename := by
  rw [Job.serialize, serializedSize_append, size_metadata]
  simp [Field.size]
  omega

theorem size_jobs (o : List Job) : serializedSize lengthBytes (serializeJobs o) =
    lengthBytes o.length + (o.map fun j => 16 + textBytes lengthBytes j.metadata.filename).sum := by
  have hjobs : serializedSize lengthBytes (o.flatMap Job.serialize) =
      (o.map fun j => 16 + textBytes lengthBytes j.metadata.filename).sum := by
    induction o with
    | nil => rfl
    | cons j o ih => rw [List.flatMap_cons, serializedSize_append, ih, size_job, List.map_cons, List.sum_cons]
  rw [serializeJobs, serializedSize_cons, hjobs]
  rfl

/-- The sizes of the reports to the manager. -/
theorem size_toManager (metadata : ProblemInstanceMetadata) (statistics : ProblemInstanceStatistics)
    (info : SolutionInfo) :
    serializedSize lengthBytes (serializeReportEntry metadata statistics) =
      (S2M.sendStatistics metadata statistics).bytes (textBytes lengthBytes) ∧
    serializedSize lengthBytes info.serialize = (S2M.foundSolution info).bytes (textBytes lengthBytes) := by
  rw [size_reportEntry, size_solution]
  simp [S2M.bytes, ProblemInstanceMetadata.bytes, ProblemInstanceStatistics.bytes, SolutionInfo.bytes]
  omega

/-! ## What passes keeps the greatest lengths -/

theorem le_textBytes (lengthBytes : Nat → Nat) (s : String) : s.utf8ByteSize ≤ textBytes lengthBytes s :=
  Nat.le_add_left ..

theorem metadata_within (lengthBytes : Nat → Nat) {o : ProblemInstanceMetadata}
    (h : 8 + textBytes lengthBytes o.filename ≤ absoluteMaxCmdLength) :
    ∀ f ∈ o.serialize, f.Within := by
  have := le_textBytes lengthBytes o.filename
  intro f hf
  simp only [ProblemInstanceMetadata.serialize, List.mem_cons, List.not_mem_nil, or_false] at hf
  rcases hf with rfl | rfl | rfl
  · trivial
  · trivial
  · show _ ≤ absoluteMaxCmdLength - 8
    omega

/-- A command that passes is not stopped by the greatest lengths of its texts and its container. -/
theorem passes_within :
    (∀ o : ProblemInstanceMetadata, Passes (serializedSize lengthBytes o.serialize) → ∀ f ∈ o.serialize, f.Within) ∧
    (∀ (o : ProblemInstanceMetadata) (st : ProblemInstanceStatistics),
      Passes (serializedSize lengthBytes (serializeReportEntry o st)) → ∀ f ∈ serializeReportEntry o st, f.Within) ∧
    (∀ o : SolutionInfo, Passes (serializedSize lengthBytes o.serialize) → ∀ f ∈ o.serialize, f.Within) ∧
    (∀ o : List Job, Passes (serializedSize lengthBytes (serializeJobs o)) → ∀ f ∈ serializeJobs o, f.Within) := by
  refine ⟨?_, ?_, ?_, ?_⟩
  · intro o h
    rw [passes_iff, size_metadata] at h
    exact metadata_within lengthBytes h
  · intro o st h f hf
    rw [passes_iff, size_reportEntry] at h
    rcases List.mem_append.1 hf with hf | hf
    · exact metadata_within lengthBytes (by omega) f hf
    · rw [List.eq_of_mem_replicate hf]
      trivial
  · intro o h f hf
    rw [passes_iff, size_solution] at h
    have := le_textBytes lengthBytes o.filename
    rcases List.mem_append.1 hf with hf | hf
    · rw [List.eq_of_mem_replicate hf]
      trivial
    · rw [List.mem_singleton.1 hf]
      show _ ≤ absoluteMaxCmdLength - 16
      omega
  · intro o h f hf
    rw [passes_iff, size_jobs] at h
    rcases List.mem_cons.1 hf with rfl | hf
    · -- every job takes more than one byte
      have hlen : o.length ≤ (o.map fun j => 16 + textBytes lengthBytes j.metadata.filename).sum := by
        have := List.card_nsmul_le_sum (o.map fun j => 16 + textBytes lengthBytes j.metadata.filename) 1
        simp only [List.length_map, smul_eq_mul, mul_one] at this
        apply this
        intro n hn
        obtain ⟨j, -, rfl⟩ := List.mem_map.1 hn
        omega
      show o.length ≤ absoluteMaxCmdLength
      omega
    · obtain ⟨j, hj, hf⟩ := List.mem_flatMap.1 hf
      have hle : 16 + textBytes lengthBytes j.metadata.filename ≤
          (o.map fun j => 16 + textBytes lengthBytes j.metadata.filename).sum :=
        List.single_le_sum (fun _ _ => Nat.zero_le _) _ (List.mem_map_of_mem hj)
      rcases List.mem_append.1 hf with hf | hf
      · exact metadata_within lengthBytes (by omega) f hf
      · simp only [List.mem_cons, List.not_mem_nil, or_false] at hf
        rcases hf with rfl | rfl <;> trivial

/-! ## What can be reported -/

theorem transports_iff (filename : String) :
    Transports lengthBytes filename ↔ 8 + textBytes lengthBytes filename ≤ absoluteMaxCmdLength := by
  constructor
  · intro h
    have := h ⟨0, 0, filename⟩ rfl
    rwa [passes_iff, size_metadata] at this
  · rintro h data rfl
    rwa [passes_iff, size_metadata]

/-- A file and the jobs of a reply can be reported exactly when the file name, with its length, is 88 bytes
shorter than the longest command, and the names of the jobs leave 16 bytes for each of them. -/
theorem reported_iff (lengthBytes : Nat → Nat) (filename : String) (jobs : List Job) :
    Reported lengthBytes filename jobs ↔
    textBytes lengthBytes filename + 88 ≤ absoluteMaxCmdLength ∧
    lengthBytes jobs.length + (jobs.map fun j => 16 + textBytes lengthBytes j.metadata.filename).sum ≤
      absoluteMaxCmdLength := by
  constructor
  · intro h
    have hstat := h.statistics ⟨0, 0, filename⟩ {} rfl
    have hjobs := h.instances
    rw [passes_iff, size_reportEntry] at hstat
    rw [passes_iff, size_jobs] at hjobs
    exact ⟨by rw [add_comm]; exact hstat, hjobs⟩
  · rintro ⟨hname, hjobs⟩
    constructor
    · rintro metadata statistics rfl
      rw [passes_iff, size_reportEntry]
      omega
    · rintro info rfl
      rw [passes_iff, size_solution]
      omega
    · rwa [passes_iff, size_jobs]

/-- What can be reported about a file is sent to the manager, whatever the limit is so far: no greatest length and no
assertion stops it. -/
theorem Reported.sendToManager {filename : String} {jobs : List Job} (h : Reported lengthBytes filename jobs)
    (metadata : ProblemInstanceMetadata) (hmetadata : metadata.filename = filename)
    (statistics : ProblemInstanceStatistics) (info : SolutionInfo) (hinfo : info.filename = filename) (limit : Nat)
    (inFlight : List (Packet S2M)) :
    ((∀ f ∈ serializeReportEntry metadata statistics, f.Within) ∧
      Reporting.sendToManager (textBytes lengthBytes) limit inFlight (.sendStatistics metadata statistics) ≠ none) ∧
    (∀ f ∈ info.serialize, f.Within) ∧
      Reporting.sendToManager (textBytes lengthBytes) limit inFlight (.foundSolution info) ≠ none := by
  have hstatistics := h.statistics metadata statistics hmetadata
  have hsolution := h.solution info hinfo
  obtain ⟨-, hentry, hinfo', -⟩ := @passes_within lengthBytes
  have hsent : ∀ msg : S2M, Passes (msg.bytes (textBytes lengthBytes)) →
      sendCmd limit (msg.bytes (textBytes lengthBytes)) msg inFlight ≠ none := by
    intro msg hpasses
    unfold sendCmd
    split
    · rename_i hnone
      exact absurd hnone (hpasses.2 limit inFlight)
    · exact Option.some_ne_none _
  refine ⟨⟨hentry _ _ hstatistics, ?_⟩, hinfo' _ hsolution, ?_⟩
  · rw [(size_toManager metadata statistics info).1] at hstatistics
    exact hsent _ hstatistics
  · rw [(size_toManager metadata statistics info).2] at hsolution
    exact hsent _ hsolution

/-- With lengths of at most 4 bytes, short names in few jobs can be reported. -/
theorem reported_of_short (h4 : ∀ n, lengthBytes n ≤ 4) {filename : String} {jobs : List Job} {n : Nat}
    (hname : filename.utf8ByteSize + 92 ≤ absoluteMaxCmdLength)
    (hjobs : ∀ j ∈ jobs, j.metadata.filename.utf8ByteSize ≤ n)
    (hlen : jobs.length * (20 + n) + 4 ≤ absoluteMaxCmdLength) : Reported lengthBytes filename jobs := by
  have hsum : (jobs.map fun j => 16 + textBytes lengthBytes j.metadata.filename).sum ≤ jobs.length * (20 + n) := by
    have := List.sum_le_card_nsmul (jobs.map fun j => 16 + textBytes lengthBytes j.metadata.filename) (20 + n)
    simp only [List.length_map, smul_eq_mul] at this
    apply this
    intro m hm
    obtain ⟨j, hj, rfl⟩ := List.mem_map.1 hm
    have := hjobs j hj
    have := h4 j.metadata.filename.utf8ByteSize
    unfold textBytes
    omega
  apply (reported_iff ..).2
  constructor
  · have := h4 filename.utf8ByteSize
    unfold textBytes
    omega
  · have := h4 jobs.length
    omega

/-- The jobs of a reply to some request. -/
def FitsRequest (jobs : List Job) : Prop := (∀ j ∈ jobs, 0 < j.numInstancesToStart) ∧
  ∃ requested : UInt32, (jobs.map fun j => j.numInstancesToStart.toNat).sum ≤ requested.toNat

/-- The length before a text or a container in one, two or four bytes. -/
def shortestLength (n : Nat) : Nat := if n < 0x80 then 1 else if n < 0x4000 then 2 else 4

theorem exists_name (n : Nat) : ∃ name : String, name.utf8ByteSize = n := by
  refine ⟨String.ofList (List.replicate n 'a'), ?_⟩
  induction n with
  | zero => rfl
  | succ n ih =>
    rw [List.replicate_succ, ← List.singleton_append, String.ofList_append, String.utf8ByteSize_append, ih]
    exact Nat.add_comm 1 n

/-- Not whatever can be added can be reported: a name of 65520 bytes cannot. -/
theorem added_not_reported : ¬ ∀ (filename : String) (jobs : List Job), Transports shortestLength filename →
    (∀ j ∈ jobs, Transports shortestLength j.metadata.filename) → FitsRequest jobs →
      Reported shortestLength filename jobs := by
  intro h
  obtain ⟨longName, hsize⟩ := exists_name 65520
  have htext : textBytes shortestLength longName = 65524 := by
    unfold textBytes
    rw [hsize]
    rfl
  have htrans : Transports shortestLength longName := by
    rw [transports_iff, htext]
    decide
  have hfits : FitsRequest [⟨⟨1, 0, longName⟩, 1, 0⟩] := by
    refine ⟨fun j hj => ?_, 1, le_rfl⟩
    rw [List.mem_singleton.1 hj]
    show (0 : UInt32) < 1
    decide
  have hrep := h longName _ htrans (fun j hj => by rw [List.mem_singleton.1 hj]; exact htrans) hfits
  have := ((reported_iff _ _ _).1 hrep).1
  rw [htext] at this
  exact absurd this (by decide)

end ParallelProbsat.Communication
