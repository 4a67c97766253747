import VcsClient.Lib.Binary64
import VcsClient.Lib.LittleEndian
import VcsClient.Lib.Lists

/-!
# WAV files

`DecodeWAV` of `internal/audio/wav.go`. A read outside the file is a run-time panic, which
ends the decoder with no result (`none`); an error and the samples are the two results. An
`int` has 64 bits in every build of the source, so that no size read from a file makes it
overflow.

What a `float32` is stays open, and so does how two samples are blended; sums and quotients
of samples are made in the order of the source. The place a sample is resampled from is a
`float64`, rounded as the source rounds it.
-/

namespace VcsClient.Audio

open VcsClient.Lib

/-- What is wrong with a file. -/
inductive WavErr where
  | tooShort
  | notRiff
  | overruns (id : List UInt8)
  | fmtTooSmall
  | noFmt
  | format (n : ℕ)
  | bits (n : ℕ)
  | zeroChannels
  | channels (n : ℕ)
  | sampleRate (n : ℕ)
  | noData
  deriving DecidableEq

def riffId : List UInt8 := "RIFF".toUTF8.toList

def waveId : List UInt8 := "WAVE".toUTF8.toList

def fmtId : List UInt8 := "fmt ".toUTF8.toList

def dataId : List UInt8 := "data".toUTF8.toList

def maxChannels : ℕ := 64

def minSampleRate : ℕ := 1000

def maxSampleRate : ℕ := 768000

def pipelineRate : ℕ := 48000

/-- What the walk over the chunks has found. -/
structure Found where
  format : ℕ
  channels : ℕ
  sampleRate : ℕ
  bits : ℕ
  data : Option (List UInt8)
  haveFmt : Bool

def Found.zero : Found := ⟨0, 0, 0, 0, none, false⟩

/-- One turn of the walk, at `off`: what was found, and where the next chunk is. -/
def Found.turn (b : List UInt8) (w : Found) (off : ℕ) : Option (Except WavErr (Found × ℕ)) := do
  let id ← slice b off (off + 4)
  let size ← (slice b (off + 4) (off + 8)).bind leUint32
  let body := off + 8
  -- chunks are word-aligned
  let next := body + size + (if size % 2 = 1 then 1 else 0)
  -- `size < 0` is for an `int` of 32 bits
  if b.length < body + size then some (.error (.overruns id))
  else if id = fmtId then
    if size < 16 then some (.error .fmtTooSmall)
    else do
      let format ← (slice b body (body + 2)).bind leUint16
      let channels ← (slice b (body + 2) (body + 4)).bind leUint16
      let sampleRate ← (slice b (body + 4) (body + 8)).bind leUint32
      let bits ← (slice b (body + 14) (body + 16)).bind leUint16
      some (.ok (⟨format, channels, sampleRate, bits, w.data, true⟩, next))
  else if id = dataId then do
    let data ← slice b body (body + size)
    some (.ok ({ w with data := some data }, next))
  else some (.ok (w, next))

/-! ## One turn -/

structure Chunk where
  id : List UInt8
  body : List UInt8

/-- The chunk that a header at `off` announces. -/
def chunkAt (b : List UInt8) (off : ℕ) : Chunk :=
  ⟨(b.drop off).take 4, (b.drop (off + 8)).take (uint32At b (off + 4))⟩

/-- The next header is after the body, at an even distance. -/
def nextAt (b : List UInt8) (off : ℕ) : ℕ :=
  off + 8 + uint32At b (off + 4) + uint32At b (off + 4) % 2

/-- What a chunk adds to what was found. -/
def Found.read (w : Found) (c : Chunk) : Except WavErr Found :=
  if c.id = fmtId then
    if c.body.length < 16 then .error .fmtTooSmall
    else .ok ⟨uint16At c.body 0, uint16At c.body 2, uint32At c.body 4, uint16At c.body 14,
      w.data, true⟩
  else if c.id = dataId then .ok { w with data := some c.body }
  else .ok w

variable {b : List UInt8} {off off' : ℕ} {w w' : Found}

theorem pad_eq (n : ℕ) : (if n % 2 = 1 then 1 else 0) = n % 2 := by
  split_ifs <;> omega

/-- **A turn** reads one chunk, or finds that it is not all there. -/
theorem Found.turn_eq (h : off + 8 ≤ b.length) (w : Found) :
    w.turn b off = some (
      if b.length < off + 8 + uint32At b (off + 4) then .error (.overruns (chunkAt b off).id)
      else (w.read (chunkAt b off)).map fun w' => (w', nextAt b off)) := by
  have hid : slice b off (off + 4) = some (chunkAt b off).id := by
    rw [slice_eq_some (by omega) (by omega), Nat.add_sub_cancel_left]
    rfl
  have hsize : (slice b (off + 4) (off + 8)).bind leUint32 = some (uint32At b (off + 4)) :=
    slice_leUint32 (by omega)
  unfold Found.turn
  simp only [hid, hsize, pad_eq, Option.bind_eq_bind, Option.bind_some]
  by_cases hover : b.length < off + 8 + uint32At b (off + 4)
  · rw [if_pos hover, if_pos hover]
  rw [if_neg hover, if_neg hover]
  have hbody : (chunkAt b off).body.length = uint32At b (off + 4) := by
    rw [chunkAt, List.length_take, List.length_drop]
    omega
  rw [Found.read, hbody]
  split_ifs with hfmt hsmall hdata
  · rfl
  · -- all that is read of the format lies in its body
    have field : ∀ k, k + 1 < 16 →
        uint16At (chunkAt b off).body k = uint16At b (off + 8 + k) := fun k hk =>
      uint16At_take_drop (by omega)
    have hrate : uint32At (chunkAt b off).body 4 = uint32At b (off + 8 + 4) :=
      uint32At_take_drop (by omega)
    rw [slice_leUint16 (by omega), slice_leUint16 (by omega), slice_leUint32 (by omega),
      slice_leUint16 (by omega), field 0 (by omega), field 2 (by omega), field 14 (by omega),
      hrate]
    rfl
  · rw [slice_eq_some (by omega) (by omega), Nat.add_sub_cancel_left]
    rfl
  · rfl

theorem Found.turn_advances (hoff : off + 8 ≤ b.length)
    (h : w.turn b off = some (.ok (w', off'))) : off + 8 ≤ off' := by
  rw [Found.turn_eq hoff] at h
  split at h
  · cases Option.some.inj h
  · cases hread : w.read (chunkAt b off) with
    | error e =>
      rw [hread] at h
      cases Option.some.inj h
    | ok w₁ =>
      rw [hread] at h
      cases Option.some.inj h
      unfold nextAt
      omega

/-! ## The decoder -/

def walk (b : List UInt8) (off : ℕ) (w : Found) : Option (Except WavErr Found) :=
  if _hoff : off + 8 ≤ b.length then
    match _h : w.turn b off with
    | none => none
    | some (.error e) => some (.error e)
    | some (.ok (w', off')) => walk b off' w'
  else some (.ok w)
termination_by b.length - off
decreasing_by
  have := Found.turn_advances _hoff _h
  omega

/-- The data, of a file whose format is one that is decoded. -/
def Found.check (w : Found) : Except WavErr (List UInt8) :=
  if ¬ w.haveFmt then .error .noFmt
  else if w.format ≠ 1 then .error (.format w.format)
  else if w.bits ≠ 16 then .error (.bits w.bits)
  else if w.channels < 1 then .error .zeroChannels
  else if maxChannels < w.channels then .error (.channels w.channels)
  else if w.sampleRate < minSampleRate ∨ maxSampleRate < w.sampleRate then
    .error (.sampleRate w.sampleRate)
  else
    match w.data with
    | none => .error .noData
    | some data => .ok data

def int16 (u : ℕ) : ℤ := if u < 2 ^ 15 then u else u - 2 ^ 16

/-- The sample `k` of the data. -/
def sampleAt (data : List UInt8) (k : ℕ) : Option ℤ :=
  ((slice data (k * 2) data.length).bind leUint16).map int16

section

variable {F : Type} [Add F] [Div F] (ofInt : ℤ → F) (lerp : F → F → ℚ → F)

def sumFrame (data : List UInt8) (channels i : ℕ) : Option F :=
  (List.range channels).foldlM
    (fun sum c => (sampleAt data (i * channels + c)).map fun raw =>
      sum + ofInt raw / ofInt 32768)
    (ofInt 0)

/-- Decoded and mixed down to one channel. -/
def downmix (data : List UInt8) (channels : ℕ) : Option (List F) :=
  (List.range (data.length / 2 / channels)).mapM fun i =>
    (sumFrame ofInt data channels i).map fun sum => sum / ofInt channels

/-- The samples before they are resampled, and their rate. -/
def decodeMono (b : List UInt8) : Option (Except WavErr (List F × ℕ)) :=
  if b.length < 44 then some (.error .tooShort)
  else do
    let riff ← slice b 0 4
    let wave ← slice b 8 12
    if riff ≠ riffId ∨ wave ≠ waveId then some (.error .notRiff)
    else
      match ← walk b 12 .zero with
      | .error e => some (.error e)
      | .ok w =>
        match w.check with
        | .error e => some (.error e)
        | .ok data => (downmix ofInt data w.channels).map fun mono => .ok (mono, w.sampleRate)

def index (s : List F) (i : ℤ) : Option F := if 0 ≤ i then s[i.toNat]? else none

def resampleLinear (s : List F) (fromRate toRate : ℕ) : Option (List F) :=
  if s.isEmpty then some s
  else
    let ratio := round64 (toRate / fromRate)
    (List.range ⌊round64 (round64 s.length * ratio)⌋.toNat).mapM fun i : ℕ => do
      let src := round64 (round64 i / ratio)
      let i₀ := ⌊src⌋
      if (s.length : ℤ) - 1 ≤ i₀ then index s (s.length - 1)
      else do
        let x ← index s i₀
        let y ← index s (i₀ + 1)
        some (lerp x y (src - i₀))

def decodeWAV (b : List UInt8) : Option (Except WavErr (List F)) := do
  match ← decodeMono ofInt b with
  | .error e => some (.error e)
  | .ok (mono, rate) =>
    if rate = pipelineRate ∨ rate ≤ 0 then some (.ok mono)
    else (resampleLinear lerp mono rate pipelineRate).map .ok

end

/-! ## The chunks of a file -/

/-- The chunks from `off` on, each after the one before it and all within the file. -/
inductive Chunks (b : List UInt8) : ℕ → List Chunk → Prop
  | done {off : ℕ} (h : b.length < off + 8) : Chunks b off []
  | chunk {off : ℕ} {cs : List Chunk} (h : off + 8 + uint32At b (off + 4) ≤ b.length)
      (hcs : Chunks b (nextAt b off) cs) : Chunks b off (chunkAt b off :: cs)

variable {cs : List Chunk}

theorem Chunks.length_le (h : Chunks b off cs) : 8 * cs.length ≤ b.length - off := by
  induction h with
  | done => simp
  | @chunk off cs h _ ih =>
    have : off + 8 ≤ nextAt b off := by
      unfold nextAt
      omega
    rw [List.length_cons]
    omega

/-- **The walk ends**, with an error or after it has read every chunk in turn. -/
theorem walk_spec (b : List UInt8) (off : ℕ) (w : Found) :
    (∃ e, walk b off w = some (.error e)) ∨ ∃ cs w', walk b off w = some (.ok w') ∧
      Chunks b off cs ∧ cs.foldlM Found.read w = .ok w' := by
  fun_induction walk b off w with
  | case1 off w hoff h =>
    rw [Found.turn_eq hoff] at h
    cases h
  | case2 off w hoff e h => exact .inl ⟨e, rfl⟩
  | case3 off w hoff w₁ off₁ h ih =>
    rw [Found.turn_eq hoff] at h
    split at h
    · cases Option.some.inj h
    · next hbody =>
      cases hread : w.read (chunkAt b off) with
      | error e =>
        rw [hread] at h
        cases Option.some.inj h
      | ok w₂ =>
        rw [hread] at h
        cases Option.some.inj h
        obtain herr | ⟨cs, w', hw', hcs, hfold⟩ := ih
        · exact .inl herr
        · refine .inr ⟨chunkAt b off :: cs, w', hw', .chunk (by omega) hcs, ?_⟩
          rw [List.foldlM_cons, hread]
          exact hfold
  | case4 off w hoff => exact .inr ⟨[], w, rfl, .done (by omega), rfl⟩

/-- The last chunk of a kind. -/
def lastOf (id : List UInt8) (cs : List Chunk) : Option Chunk := cs.findRev? fun c => c.id = id

theorem lastOf_cons (id : List UInt8) (c : Chunk) (cs : List Chunk) :
    lastOf id (c :: cs) = (lastOf id cs).or (if c.id = id then some c else none) := by
  unfold lastOf
  rw [List.findRev?]
  cases cs.findRev? fun c => c.id = id with
  | none => simp
  | some d => rfl

/-- What each chunk of a kind overwrites is in the end that of the last one. -/
theorem last_wins {γ : Type} {of : Found → γ} {id : List UInt8} {val : Chunk → γ}
    (step : ∀ {w c w₁}, Found.read w c = .ok w₁ → of w₁ = if c.id = id then val c else of w)
    (h : cs.foldlM Found.read w = .ok w') :
    of w' = ((lastOf id cs).map val).getD (of w) := by
  induction cs generalizing w with
  | nil =>
    cases h
    rfl
  | cons c cs ih =>
    rw [List.foldlM_cons] at h
    cases hread : w.read c with
    | error e =>
      rw [hread] at h
      cases h
    | ok w₁ =>
      rw [hread] at h
      rw [ih h, step hread, lastOf_cons]
      cases lastOf id cs with
      | some d => rfl
      | none => by_cases hid : c.id = id <;> simp [hid]

/-- The format, as the walk has it. -/
def Found.fmt (w : Found) : ℕ × ℕ × ℕ × ℕ × Bool :=
  (w.format, w.channels, w.sampleRate, w.bits, w.haveFmt)

def Chunk.fmt (c : Chunk) : ℕ × ℕ × ℕ × ℕ × Bool :=
  (uint16At c.body 0, uint16At c.body 2, uint32At c.body 4, uint16At c.body 14, true)

theorem Found.read_fmt {c : Chunk} (h : w.read c = .ok w') :
    w'.fmt = if c.id = fmtId then c.fmt else w.fmt := by
  unfold Found.read at h
  split_ifs at h with hfmt hsmall hdata
  · cases h
    rw [if_pos hfmt]
    rfl
  · cases h
    rw [if_neg hfmt]
    rfl
  · cases h
    rw [if_neg hfmt]

theorem Found.read_data {c : Chunk} (h : w.read c = .ok w') :
    w'.data = if c.id = dataId then some c.body else w.data := by
  have hne : fmtId ≠ dataId := by decide +kernel
  unfold Found.read at h
  split_ifs at h with hfmt hsmall hdata
  · cases h
    rw [if_neg fun hdata => hne (hfmt.symm.trans hdata)]
  · cases h
    rw [if_pos hdata]
  · cases h
    rw [if_neg hdata]

theorem Found.check_ok {data : List UInt8} (h : w.check = .ok data) :
    w.haveFmt = true ∧ 0 < w.channels ∧ w.data = some data ∧ minSampleRate ≤ w.sampleRate := by
  unfold Found.check at h
  split_ifs at h with hfmt hformat hbits hzero hmax hrate
  cases hdata : w.data with
  | none =>
    rw [hdata] at h
    cases h
  | some d =>
    rw [hdata] at h
    cases h
    exact ⟨hfmt, by omega, rfl, by omega⟩

/-- **What is decoded** is the last data chunk, by the last format. -/
theorem last_of_check {data : List UInt8} (h : cs.foldlM Found.read .zero = .ok w)
    (hcheck : w.check = .ok data) : ∃ f d, lastOf fmtId cs = some f ∧ lastOf dataId cs = some d ∧
      data = d.body ∧ w.channels = uint16At f.body 2 ∧ w.sampleRate = uint32At f.body 4 ∧
      0 < w.channels ∧ minSampleRate ≤ w.sampleRate := by
  obtain ⟨hhave, hchannels, hdata, hrate⟩ := Found.check_ok hcheck
  have hfmt := last_wins Found.read_fmt h
  have hlast := last_wins Found.read_data h
  cases hf : lastOf fmtId cs with
  | none =>
    rw [hf] at hfmt
    have hno : w.haveFmt = false := congrArg (·.2.2.2.2) hfmt
    exact nomatch hno.symm.trans hhave
  | some f =>
    rw [hf] at hfmt
    cases hd : lastOf dataId cs with
    | none =>
      rw [hd, hdata] at hlast
      cases hlast
    | some d =>
      rw [hd, hdata] at hlast
      exact ⟨f, d, rfl, rfl, Option.some.inj hlast, congrArg (·.2.1) hfmt,
        congrArg (·.2.2.1) hfmt, hchannels, hrate⟩

/-! ## The samples -/

/-- The sample `k` of the data, which is there. -/
def sample (data : List UInt8) (k : ℕ) : ℤ := int16 (uint16At data (k * 2))

theorem sampleAt_eq {data : List UInt8} {k : ℕ} (h : k * 2 + 2 ≤ data.length) :
    sampleAt data k = some (sample data k) := by
  unfold sampleAt
  rw [slice_eq_some (by omega) (Nat.le_refl _), Option.bind_some,
    leUint16_take_drop (by omega) h]
  rfl

section

variable {F : Type} [Add F] [Div F] (ofInt : ℤ → F) (lerp : F → F → ℚ → F)

/-- A frame mixed down: the mean of its samples. -/
def frame (data : List UInt8) (channels i : ℕ) : F :=
  (List.range channels).foldl
    (fun sum c => sum + ofInt (sample data (i * channels + c)) / ofInt 32768) (ofInt 0) /
    ofInt channels

theorem frame_within {data : List UInt8} {channels i c : ℕ}
    (hi : i < data.length / 2 / channels) (hc : c < channels) :
    (i * channels + c) * 2 + 2 ≤ data.length := by
  have hframes : data.length / 2 / channels * channels ≤ data.length / 2 := Nat.div_mul_le_self _ _
  have hi' : (i + 1) * channels ≤ data.length / 2 / channels * channels :=
    Nat.mul_le_mul_right channels hi
  rw [Nat.add_mul, Nat.one_mul] at hi'
  omega

theorem downmix_eq (data : List UInt8) (channels : ℕ) :
    downmix ofInt data channels =
      some ((List.range (data.length / 2 / channels)).map (frame ofInt data channels)) := by
  refine mapM_eq_some_map fun i hi => ?_
  have hsum : sumFrame ofInt data channels i = some ((List.range channels).foldl
      (fun sum c => sum + ofInt (sample data (i * channels + c)) / ofInt 32768) (ofInt 0)) := by
    refine foldlM_eq_some_foldl (fun sum c hc => ?_) _
    rw [sampleAt_eq (frame_within (List.mem_range.1 hi) (List.mem_range.1 hc))]
    rfl
  rw [hsum]
  rfl

omit [Add F] [Div F] in
theorem index_isSome {s : List F} {i : ℤ} (h₀ : 0 ≤ i) (h : i < s.length) :
    ∃ x, index s i = some x := by
  unfold index
  rw [if_pos h₀]
  exact ⟨_, List.getElem?_eq_getElem (by omega)⟩

omit [Add F] [Div F] in
/-- **Resampling** stays within the samples it has. -/
theorem resampleLinear_isSome (s : List F) (fromRate toRate : ℕ) :
    ∃ out, resampleLinear lerp s fromRate toRate = some out := by
  unfold resampleLinear
  split
  · exact ⟨s, rfl⟩
  next hs =>
  have hlen : 0 < s.length := List.length_pos_iff.2 fun h => hs (h ▸ rfl)
  refine mapM_isSome fun i _ => ?_
  set src := round64 (round64 i / round64 (toRate / fromRate)) with hsrc
  have hpos : 0 ≤ ⌊src⌋ := Int.floor_nonneg.2 (round64_nonneg (div_nonneg
    (round64_nonneg (Nat.cast_nonneg i))
    (round64_nonneg (div_nonneg (Nat.cast_nonneg toRate) (Nat.cast_nonneg fromRate)))))
  dsimp only
  split
  · exact index_isSome (by omega) (by omega)
  · next hlast =>
    obtain ⟨x, hx⟩ := index_isSome (s := s) hpos (by omega)
    obtain ⟨y, hy⟩ := index_isSome (s := s) (i := ⌊src⌋ + 1) (by omega) (by omega)
    rw [hx, hy]
    exact ⟨_, rfl⟩

theorem decodeMono_spec (b : List UInt8) :
    (∃ e, decodeMono ofInt b = some (.error e)) ∨
    ∃ cs f d, Chunks b 12 cs ∧ lastOf fmtId cs = some f ∧ lastOf dataId cs = some d ∧
      0 < uint16At f.body 2 ∧ minSampleRate ≤ uint32At f.body 4 ∧ decodeMono ofInt b =
        some (.ok ((List.range (d.body.length / 2 / uint16At f.body 2)).map
          (frame ofInt d.body (uint16At f.body 2)), uint32At f.body 4)) := by
  unfold decodeMono
  split
  · exact .inl ⟨_, rfl⟩
  next hlen =>
  rw [slice_eq_some (by omega) (by omega), slice_eq_some (by omega) (by omega)]
  dsimp only [Option.bind_eq_bind, Option.bind_some]
  split
  · exact .inl ⟨_, rfl⟩
  obtain ⟨e, hwalk⟩ | ⟨cs, w, hwalk, hcs, hfold⟩ := walk_spec b 12 .zero
  · rw [hwalk]
    exact .inl ⟨e, rfl⟩
  · rw [hwalk]
    dsimp only [Option.bind_some]
    cases hcheck : w.check with
    | error e => exact .inl ⟨e, rfl⟩
    | ok data =>
      obtain ⟨f, d, hf, hd, rfl, hchannels, hrate, hpos, hmin⟩ := last_of_check hfold hcheck
      refine .inr ⟨cs, f, d, hcs, hf, hd, hchannels ▸ hpos, hrate ▸ hmin, ?_⟩
      dsimp only
      rw [downmix_eq, ← hchannels, ← hrate]
      rfl

/-- **Every byte string** is decoded without a read outside it: to an error, or to as many
frames of its last data chunk as that has, which are then resampled where they are not at
the rate of the pipeline. The chunks it was read from are all within the file, and each
advances by its header at least. -/
theorem decodeWAV_total (b : List UInt8) :
    (∃ e, decodeMono ofInt b = some (.error e) ∧ decodeWAV ofInt lerp b = some (.error e)) ∨
    ∃ cs f d mono out, Chunks b 12 cs ∧ 8 * cs.length ≤ b.length - 12 ∧
      lastOf fmtId cs = some f ∧ lastOf dataId cs = some d ∧ 0 < uint16At f.body 2 ∧
      decodeMono ofInt b = some (.ok (mono, uint32At f.body 4)) ∧
      mono.length = d.body.length / 2 / uint16At f.body 2 ∧
      mono = (List.range (d.body.length / 2 / uint16At f.body 2)).map
        (frame ofInt d.body (uint16At f.body 2)) ∧
      decodeWAV ofInt lerp b = some (.ok out) ∧
      (uint32At f.body 4 = pipelineRate → out = mono) ∧
      (uint32At f.body 4 ≠ pipelineRate →
        resampleLinear lerp mono (uint32At f.body 4) pipelineRate = some out) := by
  unfold decodeWAV
  obtain ⟨e, hmono⟩ | ⟨cs, f, d, hcs, hf, hd, hchannels, hrate, hmono⟩ := decodeMono_spec ofInt b
  · rw [hmono]
    exact .inl ⟨e, rfl, rfl⟩
  · rw [hmono]
    set mono := (List.range (d.body.length / 2 / uint16At f.body 2)).map
      (frame ofInt d.body (uint16At f.body 2)) with hdef
    have hlen : mono.length = d.body.length / 2 / uint16At f.body 2 := by
      rw [hdef, List.length_map, List.length_range]
    -- a rate that passes the checks is not zero
    have hpos : 0 < uint32At f.body 4 := Nat.lt_of_lt_of_le (by decide) hrate
    refine .inr ⟨cs, f, d, mono, ?_⟩
    by_cases hsame : uint32At f.body 4 = pipelineRate
    · refine ⟨mono, hcs, hcs.length_le, hf, hd, hchannels, rfl, hlen, rfl, ?_, fun _ => rfl,
        fun hne => absurd hsame hne⟩
      exact if_pos (.inl hsame)
    · obtain ⟨out, hout⟩ := resampleLinear_isSome lerp mono (uint32At f.body 4) pipelineRate
      refine ⟨out, hcs, hcs.length_le, hf, hd, hchannels, rfl, hlen, rfl, ?_,
        fun heq => absurd heq hsame, fun _ => hout⟩
      refine (if_neg (by omega)).trans ?_
      rw [hout]
      rfl

end

/-- Two channels, a chunk of no interest, and one frame and a byte of data. -/
def stereoFile (rate : List UInt8) : List UInt8 :=
  riffId ++ [0, 0, 0, 0] ++ waveId ++
  fmtId ++ [16, 0, 0, 0] ++ [1, 0, 2, 0] ++ rate ++ [0, 0, 0, 0, 4, 0, 16, 0] ++
  "LIST".toUTF8.toList ++ [1, 0, 0, 0] ++ [7, 0] ++
  dataId ++ [5, 0, 0, 0] ++ [0, 64, 0, 32, 9]

def blend (x y t : ℚ) : ℚ := x + t * (y - x)

theorem decodeWAV_total_stereo :
    (∃ cs f d, Chunks (stereoFile [128, 187, 0, 0]) 12 cs ∧ lastOf fmtId cs = some f ∧
      lastOf dataId cs = some d ∧ d.body.length / 2 / uint16At f.body 2 = 1 ∧
      decodeWAV Int.cast blend (stereoFile [128, 187, 0, 0]) = some (.ok [3 / 8])) ∧
    resampleLinear blend [3 / 8] 24000 pipelineRate = some [3 / 8, 3 / 8] ∧
    decodeWAV Int.cast blend (stereoFile [192, 93, 0, 0]) = some (.ok [3 / 8, 3 / 8]) := by
  refine ⟨?_, by decide +kernel, by decide +kernel⟩
  have hmono : decodeMono (F := ℚ) Int.cast (stereoFile [128, 187, 0, 0]) =
      some (.ok ([3 / 8], 48000)) := by decide +kernel
  obtain ⟨e, herr, -⟩ | ⟨cs, f, d, mono, out, hcs, -, hf, hd, -, hok, hlen, -, hout, hsame, -⟩ :=
    decodeWAV_total Int.cast blend (stereoFile [128, 187, 0, 0])
  · cases hmono.symm.trans herr
  · obtain ⟨hm, hrate⟩ := Prod.mk.inj (Except.ok.inj (Option.some.inj (hmono.symm.trans hok)))
    have heq : out = [3 / 8] := (hsame hrate.symm).trans hm.symm
    refine ⟨cs, f, d, hcs, hf, hd, ?_, heq ▸ hout⟩
    rw [← hlen, ← hm]
    rfl

end VcsClient.Audio
