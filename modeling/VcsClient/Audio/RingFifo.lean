import VcsClient.Audio.Ring

/-!
# The ring is a queue

The invariant speaks of the counts behind the two indices. A copy in stays
within the free slots it computed, since the reader only frees more; a copy out
stays within the filled ones, since the writer only fills more.
-/

namespace VcsClient.Audio

open VcsClient.Lib

variable {α : Type}

theorem Slice.counts_len (src : Slice α) : Counts src.len src.elems.length := .ofNat _

theorem Slice.toNat_len (src : Slice α) : src.len.toNat = src.elems.length := by
  have := src.fits
  exact src.counts_len.toNat_eq (by omega)

/-- The size is a power of two, and the mask belongs to it. -/
structure Ring.Shape (ring : Ring α) (k : ℕ) : Prop where
  le : k ≤ 63
  size : ring.size.toNat = 2 ^ k
  mask : ring.mask.toNat = 2 ^ k - 1

theorem grow_pow {n size s : UInt64} {fuel j : ℕ} (hj : j + fuel = 64)
    (hsize : size.toNat = 2 ^ j) (h : grow n fuel size = some s) :
    ∃ k ≤ 63, s.toNat = 2 ^ k ∧ n ≤ s := by
  induction fuel generalizing size j with
  | zero => cases h
  | succ fuel ih =>
    unfold grow at h
    split at h
    · cases fuel with
      | zero => cases h
      | succ fuel =>
        refine ih (j := j + 1) (by omega) ?_ h
        have hlt : 2 ^ (j + 1) < 2 ^ 64 := Nat.pow_lt_pow_right (by omega) (by omega)
        rw [UInt64.toNat_shiftLeft, hsize, show (1 : UInt64).toNat % 64 = 1 from rfl,
          Nat.shiftLeft_eq, ← Nat.pow_add, Nat.mod_eq_of_lt hlt]
    · next hle =>
      cases h
      exact ⟨j, by omega, hsize, UInt64.not_lt.1 hle⟩

/-- `NewRing` allocates a power of two of samples, enough for the frames. -/
theorem newRing_shape {zero : α} {capacityFrames : ℤ} {ring : Ring α}
    (h : newRing zero capacityFrames = some ring) :
    (∃ k, ring.Shape k) ∧ UInt64.ofInt (capacityFrames * frameSamples) ≤ ring.size ∧
      ring.w = 0 ∧ ring.r = 0 := by
  obtain ⟨size, hs, rfl⟩ := Option.map_eq_some_iff.1 h
  obtain ⟨k, hk, hsize, hn⟩ := grow_pow (j := 0) rfl rfl hs
  refine ⟨⟨k, hk, hsize, ?_⟩, hn, rfl, rfl⟩
  have hpos : 0 < 2 ^ k := Nat.two_pow_pos k
  have hone : (1 : UInt64) ≤ size := by
    rw [UInt64.le_iff_toNat_le, hsize]
    exact hpos
  show (size - 1).toNat = 2 ^ k - 1
  rw [UInt64.toNat_sub_of_le _ _ hone, hsize]
  rfl

namespace Duplex

variable {p p' : Duplex α} {k : ℕ} {op : RingOp α}

def Writes (p : Duplex α) (k : ℕ) : Writer α → Prop
  | .loaded _ w => w = p.ring.w
  | .copying src w i => w = p.ring.w ∧ i ≤ src.elems.length ∧
      p.accepted.length + src.elems.length ≤ p.passed + 2 ^ k ∧
      ∀ j < i, src.elems[j]? = some (p.ring.buf ((p.accepted.length + j) % 2 ^ k))
  | .idle | .call _ | .full _ => True

def Reads (p : Duplex α) : Reader α → Prop
  | .loaded _ w | .draining w =>
    ∃ n, Counts w n ∧ p.passed ≤ n ∧ n ≤ p.accepted.length
  | .short rd avail => rd = p.ring.r ∧ p.passed + avail.toNat ≤ p.accepted.length
  | .copying rd n got => rd = p.ring.r ∧ p.passed + n.toNat ≤ p.accepted.length ∧
      got.length ≤ n.toNat ∧ got = (p.accepted.drop p.passed).take got.length
  | .idle | .read _ | .drain => True

structure Queued (p : Duplex α) (k : ℕ) : Prop where
  shape : p.ring.Shape k
  written : Counts p.ring.w p.accepted.length
  left : Counts p.ring.r p.passed
  ordered : p.passed ≤ p.accepted.length
  bounded : p.accepted.length ≤ p.passed + 2 ^ k
  held : ∀ j, p.passed ≤ j → j < p.accepted.length →
    p.accepted[j]? = some (p.ring.buf (j % 2 ^ k))
  whole : ∀ c ∈ p.writes, c.2 = 0 ∨ c.2 = c.1.elems.length
  fifo : Passes p.taken (p.accepted.take p.passed)
  writer : p.Writes k p.writer
  reader : p.Reads p.reader

theorem queued_init {ring : Ring α} (hs : ring.Shape k) (hw : ring.w = 0) (hr : ring.r = 0) :
    (init ring).Queued k where
  shape := hs
  written := by show Counts ring.w 0; rw [hw]; exact .zero
  left := by show Counts ring.r 0; rw [hr]; exact .zero
  ordered := le_rfl
  bounded := Nat.zero_le _
  held j _ h := absurd h (Nat.not_lt_zero j)
  whole _ h := by cases h
  fifo := .nil
  writer := trivial
  reader := trivial

namespace Queued

theorem two_pow_le (h : p.Queued k) : 2 ^ k ≤ 2 ^ 63 := Nat.pow_le_pow_right (by omega) h.shape.le

theorem slot_eq (h : p.Queued k) {x : UInt64} {n : ℕ} (hx : Counts x n) :
    p.slot x = n % 2 ^ k :=
  hx.slot (h.shape.le.trans (by omega)) h.shape.mask

end Queued

theorem reads_append {l : List α} {t : Reader α} (hr : p'.ring.r = p.ring.r)
    (hp : p'.passed = p.passed) (ha : p'.accepted = p.accepted ++ l) (h : p.Reads t) :
    p'.Reads t := by
  have hlen : p.accepted.length ≤ p'.accepted.length := by
    rw [ha, List.length_append]
    omega
  cases t with
  | idle | read len | drain => trivial
  | loaded len w | draining w =>
    obtain ⟨n, hn, h₁, h₂⟩ := h
    exact ⟨n, hn, hp ▸ h₁, h₂.trans hlen⟩
  | short rd avail => exact ⟨hr ▸ h.1, by rw [hp]; exact h.2.trans hlen⟩
  | copying rd n got =>
    obtain ⟨h₁, h₂, h₃, h₄⟩ := h
    refine ⟨hr ▸ h₁, by rw [hp]; exact h₂.trans hlen, h₃, ?_⟩
    have hle : p.passed ≤ p.accepted.length := by omega
    rw [hp, ha, List.drop_append_of_le_length hle, List.take_append_of_le_length, ← h₄]
    rw [List.length_drop]
    omega

theorem writes_of_passed {t : Writer α} (hw : p'.ring.w = p.ring.w)
    (hbuf : p'.ring.buf = p.ring.buf) (hp : p.passed ≤ p'.passed)
    (ha : p'.accepted = p.accepted) (h : p.Writes k t) : p'.Writes k t := by
  cases t with
  | idle | call src | full src => trivial
  | loaded src w => exact h.trans hw.symm
  | copying src w i =>
    obtain ⟨h₁, h₂, h₃, h₄⟩ := h
    refine ⟨h₁.trans hw.symm, h₂, ?_, ?_⟩
    · rw [ha]
      omega
    · rw [ha, hbuf]
      exact h₄

namespace Queued

theorem place (h : p.Queued k) {t : Writer α} (ht : p.Writes k t) :
    { p with writer := t }.Queued k :=
  { h with writer := writes_of_passed (p := p) rfl rfl le_rfl rfl ht }

theorem room (h : p.Queued k) :
    (p.ring.size - (p.ring.w - p.ring.r)).toNat = p.passed + 2 ^ k - p.accepted.length := by
  have hb := h.bounded
  have ho := h.ordered
  have h2 := h.two_pow_le
  have hused : (p.ring.w - p.ring.r).toNat = p.accepted.length - p.passed :=
    h.written.toNat_sub h.left ho (by omega)
  rw [UInt64.toNat_sub_of_le, hused, h.shape.size]
  · omega
  · rw [UInt64.le_iff_toNat_le, hused, h.shape.size]
    omega

theorem copied (h : p.Queued k) {src : Slice α} {w : UInt64} {i : ℕ} {v : α}
    (hw : p.writer = .copying src w i) (hv : src.elems[i]? = some v) :
    { p.setSlot (w + UInt64.ofNat i) v with writer := .copying src w (i + 1) }.Queued k := by
  obtain ⟨hww, hi, hroom, hcopied⟩ : p.Writes k (.copying src w i) := hw ▸ h.writer
  have hlt : i < src.elems.length := (List.getElem?_eq_some_iff.1 hv).1
  have ho := h.ordered
  have hslot : p.slot (w + UInt64.ofNat i) = (p.accepted.length + i) % 2 ^ k :=
    h.slot_eq ((hww ▸ h.written).add (.ofNat i))
  refine { h with
    shape := ⟨h.shape.le, h.shape.size, h.shape.mask⟩
    held := fun j hj hja => ?_
    writer := ⟨hww, hlt, hroom, fun j hj => ?_⟩
    reader := reads_append (p := p) (l := []) rfl rfl (List.append_nil _).symm h.reader }
  · have hj : p.passed ≤ j := hj
    have hja : j < p.accepted.length := hja
    show p.accepted[j]? = some (Function.update p.ring.buf _ v (j % 2 ^ k))
    rw [hslot, Function.update_of_ne (mod_ne_of_lt (by omega) (by omega))]
    exact h.held j hj hja
  · show src.elems[j]? = some (Function.update p.ring.buf _ v ((p.accepted.length + j) % 2 ^ k))
    rw [hslot]
    rcases Nat.lt_succ_iff_lt_or_eq.1 hj with hji | rfl
    · rw [Function.update_of_ne (mod_ne_of_lt (by omega) (by omega))]
      exact hcopied j hji
    · rw [Function.update_self, hv]

theorem accepted_returned (p : Duplex α) (src : Slice α) (n : ℕ) :
    { p with writes := p.writes ++ [(src, n)] }.accepted =
      p.accepted ++ if n = 0 then src.elems else [] := by
  unfold accepted
  simp

theorem full (h : p.Queued k) {src : Slice α} :
    { p with
      ring.dropped := p.ring.dropped + src.len
      writer := .idle
      writes := p.writes ++ [(src, src.elems.length)] }.Queued k := by
  have hacc : { p with
      ring.dropped := p.ring.dropped + src.len
      writer := .idle
      writes := p.writes ++ [(src, src.elems.length)] }.accepted = p.accepted := by
    refine (accepted_returned p src _).trans ?_
    split
    · next h0 => rw [List.length_eq_zero_iff.1 h0, List.append_nil]
    · exact List.append_nil _
  refine {
    shape := ⟨h.shape.le, h.shape.size, h.shape.mask⟩
    written := by rw [hacc]; exact h.written
    left := h.left
    ordered := by rw [hacc]; exact h.ordered
    bounded := by rw [hacc]; exact h.bounded
    held := by rw [hacc]; exact h.held
    whole := fun c hc => ?_
    fifo := by rw [hacc]; exact h.fifo
    writer := trivial
    reader := reads_append (p := p) (l := []) rfl rfl (by rw [hacc, List.append_nil]) h.reader }
  rcases List.mem_append.1 hc with hc | hc
  · exact h.whole c hc
  · cases List.mem_singleton.1 hc
    exact .inr rfl

theorem stored (h : p.Queued k) {src : Slice α} {w : UInt64} {i : ℕ}
    (hw : p.writer = .copying src w i) (hv : src.elems[i]? = none) :
    { p with
      ring.w := w + src.len
      writer := .idle
      writes := p.writes ++ [(src, 0)] }.Queued k := by
  obtain ⟨hww, hi, hroom, hcopied⟩ : p.Writes k (.copying src w i) := hw ▸ h.writer
  have hacc : { p with
      ring.w := w + src.len
      writer := .idle
      writes := p.writes ++ [(src, 0)] }.accepted = p.accepted ++ src.elems :=
    accepted_returned p src 0
  have hle : src.elems.length ≤ i := List.getElem?_eq_none_iff.1 hv
  have ho := h.ordered
  refine {
    shape := ⟨h.shape.le, h.shape.size, h.shape.mask⟩
    written := by
      rw [hacc, List.length_append]
      exact (hww ▸ h.written).add src.counts_len
    left := h.left
    ordered := by rw [hacc, List.length_append]; exact ho.trans (Nat.le_add_right _ _)
    bounded := by rw [hacc, List.length_append]; exact hroom
    held := fun j hj hja => ?_
    whole := fun c hc => ?_
    fifo := by rw [hacc]; exact List.take_append_of_le_length ho ▸ h.fifo
    writer := trivial
    reader := reads_append (p := p) rfl rfl hacc h.reader }
  · rw [hacc, List.length_append] at hja
    rw [hacc]
    by_cases hold : j < p.accepted.length
    · rw [List.getElem?_append_left hold]
      exact h.held j hj hold
    · rw [List.getElem?_append_right (by omega), hcopied _ (by omega),
        show p.accepted.length + (j - p.accepted.length) = j by omega]
  · rcases List.mem_append.1 hc with hc | hc
    · exact h.whole c hc
    · cases List.mem_singleton.1 hc
      exact .inl rfl

theorem writerStep (h : p.Queued k) (hs : p.writerStep = some p') : p'.Queued k := by
  unfold Duplex.writerStep at hs
  cases hw : p.writer with
  | idle =>
    rw [hw] at hs
    cases hs
  | call src =>
    rw [hw] at hs
    cases hs
    exact h.place rfl
  | loaded src w =>
    have hww : w = p.ring.w := by
      have := h.writer
      rwa [hw] at this
    simp only [hw] at hs
    split at hs
    · cases hs
      exact h.place trivial
    · next hroom =>
      cases hs
      refine h.place ⟨hww, Nat.zero_le _, ?_, fun j hj => absurd hj (Nat.not_lt_zero j)⟩
      have hle := UInt64.le_iff_toNat_le.1 (UInt64.not_lt.1 hroom)
      rw [hww, h.room, src.toNat_len] at hle
      have hb := h.bounded
      omega
  | full src =>
    rw [hw] at hs
    cases hs
    exact h.full
  | copying src w i =>
    simp only [hw] at hs
    cases hv : src.elems[i]? with
    | none =>
      rw [hv] at hs
      cases hs
      exact h.stored hw hv
    | some v =>
      rw [hv] at hs
      cases hs
      exact h.copied hw hv

/-- Only the place of the reader changes, and the count of the underruns. -/
theorem placeReader (h : p.Queued k) {t : Reader α} (u : UInt64) (ht : p.Reads t) :
    { p with ring.underruns := u, reader := t }.Queued k :=
  { h with
    shape := ⟨h.shape.le, h.shape.size, h.shape.mask⟩
    writer := writes_of_passed (p := p) rfl rfl le_rfl rfl h.writer
    reader := reads_append (p := p) (l := []) rfl rfl (List.append_nil _).symm ht }

theorem took (h : p.Queued k) {l : List α} {t : Taken α} {r u : UInt64}
    (hl : l <+: p.accepted.drop p.passed) (ht : t = .read l ∨ t = .drained l.length)
    (hr : Counts r (p.passed + l.length)) :
    { p with
      ring := { p.ring with r := r, underruns := u }
      reader := .idle
      taken := p.taken ++ [t] }.Queued k := by
  have hcount : t.count = l.length := by
    rcases ht with rfl | rfl <;> rfl
  have hpassed : { p with
      ring := { p.ring with r := r, underruns := u }
      reader := .idle
      taken := p.taken ++ [t] }.passed = p.passed + l.length := by
    show ((p.taken ++ [t]).map Taken.count).sum = _
    simp [passed, hcount]
  have hlen := hl.length_le
  rw [List.length_drop] at hlen
  have ho := h.ordered
  have hb := h.bounded
  refine {
    shape := ⟨h.shape.le, h.shape.size, h.shape.mask⟩
    written := h.written
    left := by rw [hpassed]; exact hr
    ordered := by rw [hpassed]; show _ ≤ p.accepted.length; omega
    bounded := by rw [hpassed]; show p.accepted.length ≤ _; omega
    held := fun j hj hja => ?_
    whole := h.whole
    fifo := ?_
    writer := writes_of_passed (p := p) rfl rfl (by rw [hpassed]; omega) rfl h.writer
    reader := trivial }
  · rw [hpassed] at hj
    exact h.held j (by omega) hja
  · rw [hpassed]
    show Passes (p.taken ++ [t]) (p.accepted.take (p.passed + l.length))
    rw [List.take_add, ← List.prefix_iff_eq_take.1 hl]
    rcases ht with rfl | rfl
    · exact h.fifo.read l
    · exact h.fifo.drained l

theorem readerStep (h : p.Queued k) (hs : p.readerStep = some p') : p'.Queued k := by
  have ho := h.ordered
  have hb := h.bounded
  have h2 := h.two_pow_le
  unfold Duplex.readerStep at hs
  cases hr : p.reader with
  | idle =>
    rw [hr] at hs
    cases hs
  | read len | drain =>
    rw [hr] at hs
    cases hs
    exact h.placeReader _ ⟨_, h.written, ho, le_rfl⟩
  | loaded len w =>
    obtain ⟨n, hn, hle, hna⟩ : p.Reads (.loaded len w) := hr ▸ h.reader
    have havail : (w - p.ring.r).toNat = n - p.passed :=
      hn.toNat_sub h.left hle (by omega)
    simp only [hr] at hs
    split at hs
    · cases hs
      exact h.placeReader _ ⟨rfl, by omega⟩
    · next hlen =>
      cases hs
      have := UInt64.le_iff_toNat_le.1 (UInt64.not_lt.1 hlen)
      exact h.placeReader _ ⟨rfl, by omega, Nat.zero_le _, rfl⟩
  | short rd avail =>
    obtain ⟨hrd, hle⟩ : p.Reads (.short rd avail) := hr ▸ h.reader
    simp only [hr] at hs
    split at hs
    · cases hs
      exact h.took (l := []) (List.nil_prefix) (.inl rfl) h.left
    · cases hs
      exact h.placeReader _ ⟨hrd, hle, Nat.zero_le _, rfl⟩
  | copying rd n got =>
    obtain ⟨hrd, hle, hlen, hgot⟩ : p.Reads (.copying rd n got) := hr ▸ h.reader
    simp only [hr] at hs
    split at hs
    · next hlt =>
      cases hs
      have hslot : p.slot (rd + UInt64.ofNat got.length) = (p.passed + got.length) % 2 ^ k :=
        h.slot_eq ((hrd ▸ h.left).add (.ofNat _))
      have hv := h.held (p.passed + got.length) (Nat.le_add_right _ _) (by omega)
      rw [← hslot] at hv
      refine h.placeReader _ ⟨hrd, hle, ?_, ?_⟩
      · rw [List.length_append]
        exact hlt
      · rw [List.length_append, List.length_singleton, List.take_add_one, ← hgot,
          List.getElem?_drop, hv]
        rfl
    · next hge =>
      cases hs
      have heq : got.length = n.toNat := by omega
      refine h.took ?_ (.inl rfl) ?_
      · rw [hgot]
        exact List.take_prefix _ _
      · rw [heq, hrd]
        exact h.left.add (.self n)
  | draining w =>
    obtain ⟨n, hn, hle, hna⟩ : p.Reads (.draining w) := hr ▸ h.reader
    have hskip : (w - p.ring.r).toNat = n - p.passed :=
      hn.toNat_sub h.left hle (by omega)
    rw [hr] at hs
    cases hs
    refine h.took (l := (p.accepted.drop p.passed).take (n - p.passed)) (List.take_prefix _ _)
      (.inr ?_) ?_
    · rw [List.length_take, List.length_drop, hskip, Nat.min_eq_left (by omega)]
    · rw [List.length_take, List.length_drop, Nat.min_eq_left (by omega),
        show p.passed + (n - p.passed) = n by omega]
      exact hn

theorem step (h : p.Queued k) (hs : p.step op = some p') : p'.Queued k := by
  cases op with
  | write src =>
    simp only [Duplex.step] at hs
    split at hs
    · cases hs
      exact h.place trivial
    · cases hs
  | read len | drain =>
    simp only [Duplex.step] at hs
    split at hs
    · cases hs
      exact h.placeReader _ trivial
    · cases hs
  | writer => exact h.writerStep hs
  | reader => exact h.readerStep hs

theorem mem_window (h : p.Queued k) {x : UInt64} {n len i : ℕ} (hx : Counts x n)
    (hi : i ∈ p.window x len) : ∃ j < len, i = (n + j) % 2 ^ k := by
  obtain ⟨j, hj, rfl⟩ := List.mem_map.1 hi
  exact ⟨j, List.mem_range.1 hj, h.slot_eq (hx.add (.ofNat j))⟩

theorem mem_copiedInto (h : p.Queued k) {i : ℕ} (hi : i ∈ p.copiedInto) :
    ∃ j, p.accepted.length ≤ j ∧ j < p.passed + 2 ^ k ∧ i = j % 2 ^ k := by
  unfold copiedInto at hi
  split at hi
  · next src w n hw =>
    obtain ⟨hww, -, hroom, -⟩ : p.Writes k (.copying src w n) := hw ▸ h.writer
    obtain ⟨j, hj, rfl⟩ := h.mem_window (hww ▸ h.written) hi
    exact ⟨_, Nat.le_add_right _ j, by omega, rfl⟩
  · cases hi

theorem mem_copiedOut (h : p.Queued k) {i : ℕ} (hi : i ∈ p.copiedOut) :
    ∃ j, p.passed ≤ j ∧ j < p.accepted.length ∧ i = j % 2 ^ k := by
  unfold copiedOut at hi
  split at hi
  · next rd n got hr =>
    obtain ⟨hrd, hle, -⟩ : p.Reads (.copying rd n got) := hr ▸ h.reader
    obtain ⟨j, hj, rfl⟩ := h.mem_window (hrd ▸ h.left) hi
    exact ⟨_, Nat.le_add_right _ j, by omega, rfl⟩
  · cases hi

theorem queue (h : p.Queued k) : p.Fifo where
  disjoint := by
    intro i hin hout
    obtain ⟨j, hj, hlt, rfl⟩ := h.mem_copiedInto hin
    obtain ⟨j', hj', hlt', he⟩ := h.mem_copiedOut hout
    exact mod_ne_of_lt (show j' < j by omega) (by omega) he.symm
  inside := by
    intro i hi
    rw [h.shape.size]
    rcases List.mem_append.1 hi with hi | hi
    · obtain ⟨j, -, -, rfl⟩ := h.mem_copiedInto hi
      exact Nat.mod_lt _ (Nat.two_pow_pos k)
    · obtain ⟨j, -, -, rfl⟩ := h.mem_copiedOut hi
      exact Nat.mod_lt _ (Nat.two_pow_pos k)
  written := h.written
  left := h.left
  ordered := h.ordered
  bounded := by rw [h.shape.size]; exact h.bounded
  whole := h.whole
  fifo := h.fifo

end Queued

end Duplex

/-- **The sample ring is a queue.** Along every interleaving of one writer with one
reader, over every ring of `NewRing`. -/
theorem ring_fifo {α : Type} (zero : α) (capacityFrames : ℤ) (ring : Ring α)
    (hnew : newRing zero capacityFrames = some ring) (ops : List (RingOp α)) (p : Duplex α)
    (hrun : exec Duplex.step (.init ring) ops = some p) : p.Fifo := by
  obtain ⟨⟨k, hk⟩, -, hw, hr⟩ := newRing_shape hnew
  have h : p.Queued k := exec_invariant (I := fun p => p.Queued k)
    (fun _ _ _ h _ hs => h.step hs) (Duplex.queued_init hk hw hr) (Meets.trivial _ _ _) hrun
  exact h.queue

/-- A write is overtaken by a read of what came before it; the next one is
dropped; the rest is drained. -/
theorem ring_fifo_overtaken : ∃ (ring : Ring ℕ) (p : Duplex ℕ),
    newRing 0 1 = some ring ∧
      exec Duplex.step (.init ring)
        ([.write ⟨[7, 8], by decide⟩] ++ List.replicate 5 .writer ++
          [.write ⟨[9], by decide⟩, .writer, .read 1, .reader, .writer, .reader, .writer, .reader,
            .writer, .reader] ++
          [.write ⟨List.replicate 511 0, by rw [List.length_replicate]; omega⟩, .writer, .writer,
            .writer, .drain, .reader, .reader]) = some p ∧
      p.accepted = [7, 8, 9] ∧ p.passed = 3 ∧ p.ring.dropped = 511 ∧ p.Fifo := by
  have hrun : ((newRing 0 1).bind fun ring => (exec Duplex.step (.init ring)
        ([.write ⟨[7, 8], by decide⟩] ++ List.replicate 5 .writer ++
          [.write ⟨[9], by decide⟩, .writer, .read 1, .reader, .writer, .reader, .writer, .reader,
            .writer, .reader] ++
          [.write ⟨List.replicate 511 0, by rw [List.length_replicate]; omega⟩, .writer, .writer,
            .writer, .drain, .reader, .reader])).map fun p => (p.accepted, p.passed, p.ring.dropped)) =
      some ([7, 8, 9], 3, 511) := by decide +kernel
  obtain ⟨ring, hnew, hrun⟩ := Option.bind_eq_some_iff.1 hrun
  obtain ⟨p, hp, hv⟩ := Option.map_eq_some_iff.1 hrun
  simp only [Prod.mk.injEq] at hv
  exact ⟨ring, p, hnew, hp, hv.1, hv.2.1, hv.2.2, ring_fifo 0 1 ring hnew _ p hp⟩

end VcsClient.Audio
