import VcsClient.Voice.Receiver

/-!
# The life of a receive stream

Whatever the goroutines of the receive path do, the map stays within its cap,
the published snapshot lists the streams of the map, and every stream's decoder
has one owner: the map, then whoever took the stream out of it, who closes it.
The decode goroutine uses decoders of streams in the map only.

The receive loops are not so careful: `reap` may remove a stream that a loop has
looked up and not pushed into yet.
-/

namespace VcsClient.Voice

open VcsClient.Lib

namespace Receive

/-- The stream a receive loop has looked up and not pushed into yet. -/
def LoopPc.held : LoopPc → Option ℕ
  | .stamp sid _ | .load sid _ | .restart sid _ | .push sid _ => some sid
  | _ => none

/-- The streams whose decoders a sweep uses or has yet to use. -/
def DecodePc.inUse : DecodePc → List ℕ
  | .serving w => w.todo
  | .topUp w sid | .seen w sid _ | .ending w sid _ | .committing w sid _ _
  | .queueing w sid _ _ => sid :: w.todo
  | _ => []

/-- The stream taken out of the map whose decoder `reap` has yet to close. -/
def DecodePc.unclosed : DecodePc → List ℕ
  | .closing _ sid => [sid]
  | _ => []

/-- The streams whose decoders `Close` has yet to close. -/
def ClosePc.unclosed : ClosePc → List ℕ
  | .freeing sids => sids
  | _ => []

/-- `Close` has emptied the map. -/
def ClosePc.Emptied : ClosePc → Prop
  | .freeing _ | .returned => True
  | _ => False

end Receive

open Receive

structure Lifecycle (s : Receiver) : Prop where
  cap : s.streams.keys.length ≤ maxRXStreams
  snap : s.snapshot.Perm s.values
  filed : ∀ key sid, s.streams.lookup key = some sid → sid < s.opened ∧ (s.heap sid).key = key
  inUse : ∀ sid ∈ s.decode.inUse, s.Live sid
  removing : ∀ w sid, s.decode = .removing w sid → s.Live sid
  bound : ∀ sid ∈ s.decode.unclosed ++ s.closer.unclosed, sid < s.opened
  owner : ∀ sid < s.opened, (if s.Live sid then 1 else 0) +
    (s.decode.unclosed ++ s.closer.unclosed).count sid + (s.heap sid).closes = 1
  emptied : s.closer.Emptied → s.streams = ∅

namespace Lifecycle

variable {s s' : Receiver}

theorem init (self : UUID) (historyIdle clock : ℤ) :
    Lifecycle (.init self historyIdle clock) where
  cap := by simp [Receiver.init]
  snap := by simp [Receiver.init, Receiver.values]
  filed := by simp [Receiver.init]
  inUse := by simp [Receiver.init, DecodePc.inUse]
  removing := by simp [Receiver.init]
  bound := by simp [Receiver.init, DecodePc.unclosed, ClosePc.unclosed]
  owner := by simp [Receiver.init]
  emptied := by simp [Receiver.init, ClosePc.Emptied]

theorem mem_values (h : Lifecycle s) {sid : ℕ} : sid ∈ s.values ↔ s.Live sid := by
  unfold Receiver.values Receiver.Live
  rw [List.mem_map]
  constructor
  · rintro ⟨⟨key, sid'⟩, hm, rfl⟩
    have hl : s.streams.lookup key = some sid' := AList.mem_lookup_iff.2 hm
    rw [(h.filed key sid' hl).2, hl]
  · intro hl
    exact ⟨⟨_, sid⟩, AList.mem_lookup_iff.1 hl, rfl⟩

theorem nodup_values (h : Lifecycle s) : s.values.Nodup := by
  unfold Receiver.values
  refine List.Nodup.map_on ?_ (List.NodupKeys.nodup s.streams.nodupKeys)
  rintro ⟨key, sid⟩ hm ⟨key', sid'⟩ hm' (rfl : sid = sid')
  have hl : s.streams.lookup key = some sid := AList.mem_lookup_iff.2 hm
  have hl' : s.streams.lookup key' = some sid := AList.mem_lookup_iff.2 hm'
  have := (h.filed key sid hl).2.symm.trans (h.filed key' sid hl').2
  subst this
  rfl

theorem count_values (h : Lifecycle s) (sid : ℕ) :
    s.values.count sid = if s.Live sid then 1 else 0 := by
  split
  · exact List.count_eq_one_of_mem h.nodup_values (h.mem_values.2 ‹_›)
  · exact List.count_eq_zero.2 fun hm => ‹¬ s.Live sid› (h.mem_values.1 hm)

/-- Steps that leave the map, the decoders and their owners alone. -/
theorem frame (h : Lifecycle s) (hstreams : s'.streams = s.streams)
    (hsnap : s'.snapshot = s.snapshot) (hopened : s'.opened = s.opened)
    (hkey : ∀ sid, (s'.heap sid).key = (s.heap sid).key)
    (hcloses : ∀ sid, (s'.heap sid).closes = (s.heap sid).closes)
    (huse : ∀ sid ∈ s'.decode.inUse, s.Live sid)
    (hrem : ∀ w sid, s'.decode = .removing w sid → s.Live sid)
    (hdec : s'.decode.unclosed = s.decode.unclosed)
    (hclo : s'.closer.unclosed = s.closer.unclosed)
    (hemptied : s'.closer.Emptied → s.closer.Emptied) : Lifecycle s' := by
  have hlive : ∀ sid, s'.Live sid ↔ s.Live sid := by
    intro sid
    unfold Receiver.Live
    rw [hstreams, hkey]
  exact {
    cap := hstreams ▸ h.cap
    snap := by
      have : s'.values = s.values := by simp only [Receiver.values, hstreams]
      rw [hsnap, this]
      exact h.snap
    filed := fun key sid hl => by
      rw [hstreams] at hl
      rw [hopened, hkey]
      exact h.filed key sid hl
    inUse := fun sid hm => (hlive sid).2 (huse sid hm)
    removing := fun w sid he => (hlive sid).2 (hrem w sid he)
    bound := fun sid hm => by
      rw [hdec, hclo] at hm
      rw [hopened]
      exact h.bound sid hm
    owner := fun sid hlt => by
      rw [hopened] at hlt
      rw [hdec, hclo, hcloses]
      simp only [hlive]
      exact h.owner sid hlt
    emptied := fun he => hstreams.trans (h.emptied (hemptied he)) }

section OpenStream

variable {key : StreamKey} {at_ : ℤ} {o : IterOrder ℕ}

theorem heap_openStream {sid : ℕ} (hlt : sid < s.opened) :
    (s.openStream key at_ o).heap sid = s.heap sid :=
  Function.update_of_ne (Nat.ne_of_lt hlt) _ _

theorem heap_openStream_self :
    (s.openStream key at_ o).heap s.opened = newStream key at_ := Function.update_self ..

theorem live_openStream (hnone : s.streams.lookup key = none) {sid : ℕ} (hlt : sid < s.opened) :
    (s.openStream key at_ o).Live sid ↔ s.Live sid := by
  unfold Receiver.Live
  rw [heap_openStream hlt]
  change (s.streams.insert key s.opened).lookup (s.heap sid).key = some sid ↔ _
  by_cases he : (s.heap sid).key = key
  · rw [he, AList.lookup_insert, hnone]
    simp only [Option.some.injEq, reduceCtorEq, iff_false]
    omega
  · rw [AList.lookup_insert_ne he]

theorem live_openStream_self : (s.openStream key at_ o).Live s.opened := by
  unfold Receiver.Live
  rw [heap_openStream_self]
  exact AList.lookup_insert _

/-- A stream is opened under the cap, with a decoder of its own. -/
theorem openStream (h : Lifecycle s) (hnone : s.streams.lookup key = none)
    (hcap : s.streams.keys.length < maxRXStreams) (hnot : ¬ s.closer.Emptied) :
    Lifecycle (s.openStream key at_ o) where
  cap := by
    have hkeys : key ∉ s.streams.keys := fun hm =>
      AList.lookup_eq_none.1 hnone (AList.mem_keys.2 hm)
    change (s.streams.insert key s.opened).keys.length ≤ maxRXStreams
    rw [AList.keys_insert, List.erase_of_not_mem hkeys, List.length_cons]
    omega
  snap := o.perm _
  filed := fun k sid hl => by
    change (s.streams.insert key s.opened).lookup k = some sid at hl
    change sid < s.opened + 1 ∧ _
    by_cases hk : k = key
    · subst hk
      rw [AList.lookup_insert, Option.some.injEq] at hl
      subst hl
      exact ⟨by omega, by rw [heap_openStream_self, newStream]⟩
    · rw [AList.lookup_insert_ne hk] at hl
      obtain ⟨hlt, hkey⟩ := h.filed k sid hl
      exact ⟨by omega, by rw [heap_openStream hlt, hkey]⟩
  inUse := fun sid hm =>
    have hl := h.inUse sid hm
    (live_openStream hnone (h.filed _ _ hl).1).2 hl
  removing := fun w sid he =>
    have hl := h.removing w sid he
    (live_openStream hnone (h.filed _ _ hl).1).2 hl
  bound := fun sid hm => (h.bound sid hm).trans (Nat.lt_succ_self _)
  owner := fun sid hlt => by
    change sid < s.opened + 1 at hlt
    change _ + (s.decode.unclosed ++ s.closer.unclosed).count sid + _ = 1
    rcases Nat.lt_succ_iff_lt_or_eq.1 hlt with hlt | rfl
    · rw [heap_openStream hlt]
      simp only [live_openStream hnone hlt]
      exact h.owner sid hlt
    · have hnew : (s.decode.unclosed ++ s.closer.unclosed).count s.opened = 0 :=
        List.count_eq_zero.2 fun hm => absurd (h.bound _ hm) (lt_irrefl _)
      rw [if_pos live_openStream_self, heap_openStream_self, hnew]
      rfl
  emptied := fun he => absurd he hnot

end OpenStream

theorem rxStreamFor (h : Lifecycle s) (i : ℕ) (key : StreamKey) (at_ : ℤ) (decoder : Bool)
    (o : IterOrder ℕ) (hnot : ¬ s.closer.Emptied) :
    Lifecycle (s.rxStreamFor i key at_ decoder o) := by
  unfold Receiver.rxStreamFor
  split
  · exact h.frame rfl rfl rfl (fun _ => rfl) (fun _ => rfl) h.inUse h.removing rfl rfl id
  · rename_i hnone
    split
    · exact h.frame rfl rfl rfl (fun _ => rfl) (fun _ => rfl) h.inUse h.removing rfl rfl id
    · rename_i hcap
      have hcap' : s.streams.keys.length < maxRXStreams := by
        by_contra hge
        exact hcap (.inl (not_lt.1 hge))
      exact (h.openStream hnone hcap' hnot).frame rfl rfl rfl (fun _ => rfl) (fun _ => rfl)
        (h.openStream hnone hcap' hnot).inUse (h.openStream hnone hcap' hnot).removing rfl rfl id

theorem rxVoice (h : Lifecycle s) {i : ℕ} {decoder : Bool} {o : IterOrder ℕ}
    (hnot : s.closer.Emptied → s.loops i = .reading)
    (hs : s.rxVoice i decoder o = some s') : Lifecycle s' := by
  unfold Receiver.rxVoice at hs
  cases hpc : s.loops i with
  | reading => simp [hpc] at hs
  | lookup key at_ =>
    simp only [hpc] at hs
    split at hs
    · cases hs
    · cases hs
      exact h.rxStreamFor i key at_ decoder o fun he => by simp [hnot he] at hpc
  | stamp sid at_ =>
    simp only [hpc, Option.some.injEq] at hs
    subst hs
    exact h.frame rfl rfl rfl (Receiver.setStream_proj Stream.key rfl)
      (Receiver.setStream_proj Stream.closes rfl) h.inUse h.removing rfl rfl id
  | load sid at_ =>
    simp only [hpc, Option.some.injEq] at hs
    subst hs
    exact h.frame rfl rfl rfl (fun _ => rfl) (fun _ => rfl) h.inUse h.removing rfl rfl id
  | restart sid at_ =>
    simp only [hpc] at hs
    split at hs
    · cases hs
    · cases hs
      split
      · exact h.frame rfl rfl rfl (Receiver.setStream_proj Stream.key rfl)
          (Receiver.setStream_proj Stream.closes rfl) h.inUse h.removing rfl rfl id
      · exact h.frame rfl rfl rfl (fun _ => rfl) (fun _ => rfl) h.inUse h.removing rfl rfl id
  | push sid at_ =>
    simp only [hpc, Option.some.injEq] at hs
    subst hs
    exact h.frame rfl rfl rfl (fun _ => rfl) (fun _ => rfl) h.inUse h.removing rfl rfl id

theorem setDecode (h : Lifecycle s) {pc : DecodePc} (huse : ∀ sid ∈ pc.inUse, s.Live sid)
    (hrem : ∀ w sid, pc = .removing w sid → s.Live sid) (hdec : s.decode.unclosed = [])
    (hpc : pc.unclosed = []) : Lifecycle { s with decode := pc } :=
  h.frame rfl rfl rfl (fun _ => rfl) (fun _ => rfl) huse hrem (hpc.trans hdec.symm) rfl id

theorem inUse_next {w : Sweep} {key : StreamKey} {last : ℤ} :
    (w.next key last).inUse = w.todo := by
  unfold Sweep.next
  split <;> rfl

theorem next_ne_removing {w w' : Sweep} {key : StreamKey} {last : ℤ} {sid : ℕ} :
    w.next key last ≠ .removing w' sid := by
  unfold Sweep.next
  exact fun h => DecodePc.noConfusion h

theorem endTransmission (h : Lifecycle s) {w : Sweep} {sid : ℕ} {last : ℤ}
    (hpc : s.decode = .ending w sid last) : Lifecycle (s.endTransmission w sid last) := by
  have huse : ∀ sid' ∈ sid :: w.todo, s.Live sid' := by
    have := h.inUse
    rwa [hpc] at this
  have hdec : s.decode.unclosed = [] := by rw [hpc]; rfl
  unfold Receiver.endTransmission
  simp only
  split
  · refine h.setDecode (fun sid' hm => ?_) (fun _ _ he => absurd he next_ne_removing) hdec rfl
    rw [inUse_next] at hm
    exact huse sid' (List.mem_cons_of_mem _ hm)
  · exact h.frame rfl rfl rfl (fun _ => rfl) (fun _ => rfl) huse (fun _ _ he => by cases he)
      hdec.symm rfl id

theorem reap (h : Lifecycle s) {w w' : Sweep} {key : StreamKey} (hpc : s.decode = .reaping w') :
    Lifecycle (s.reap w key) := by
  have hdec : s.decode.unclosed = [] := by rw [hpc]; rfl
  have hback : Lifecycle { s with decode := .reaping w } :=
    h.setDecode (fun _ hm => absurd hm List.not_mem_nil) (fun _ _ he => by cases he) hdec rfl
  unfold Receiver.reap
  split
  · exact hback
  · rename_i sid hl
    split
    · exact hback
    · refine h.frame rfl rfl rfl (fun _ => rfl) (fun _ => rfl)
        (fun _ hm => absurd hm List.not_mem_nil) (fun w' sid' he => ?_) hdec.symm rfl id
      cases he
      unfold Receiver.Live
      rw [(h.filed key sid hl).2, hl]

/-- The stream leaves the map for the decode goroutine, which will close it. -/
theorem removed (h : Lifecycle s) {w : Sweep} {sid : ℕ} {o : IterOrder ℕ}
    (hpc : s.decode = .removing w sid) :
    Lifecycle (Receiver.publishLocked o
      { s with
        mu := false
        streams := s.streams.erase (s.heap sid).key
        decode := .closing w sid }) := by
  have hl : s.Live sid := h.removing w sid hpc
  have hlive : ∀ sid', (s.streams.erase (s.heap sid).key).lookup (s.heap sid').key = some sid' ↔
      s.Live sid' ∧ sid' ≠ sid := by
    intro sid'
    by_cases he : (s.heap sid').key = (s.heap sid).key
    · rw [he, AList.lookup_erase]
      simp only [reduceCtorEq, false_iff, not_and, not_not]
      intro hl'
      unfold Receiver.Live at hl hl'
      rw [he, hl] at hl'
      exact (Option.some.inj hl').symm
    · rw [AList.lookup_erase_ne he]
      exact ⟨fun hl' => ⟨hl', fun hs => he (by rw [hs])⟩, fun hl' => hl'.1⟩
  have hdec : s.decode.unclosed = [] := by rw [hpc]; rfl
  exact {
    cap := by
      change (s.streams.erase (s.heap sid).key).keys.length ≤ maxRXStreams
      rw [AList.keys_erase]
      exact (List.length_erase_le).trans h.cap
    snap := o.perm _
    filed := fun key sid' hl' => by
      exact h.filed key sid' (lookup_of_erase (m := s.streams) hl').2
    inUse := fun _ hm => absurd hm List.not_mem_nil
    removing := fun _ _ he => by cases he
    bound := fun sid' hm => by
      rcases List.mem_append.1 hm with hm | hm
      · rw [List.mem_singleton.1 hm]
        exact (h.filed _ _ hl).1
      · exact h.bound sid' (List.mem_append_right _ hm)
    owner := fun sid' hlt => by
      have hown := h.owner sid' hlt
      rw [hdec, List.nil_append] at hown
      change (if (s.streams.erase (s.heap sid).key).lookup (s.heap sid').key = some sid' then 1
        else 0) + ([sid] ++ s.closer.unclosed).count sid' + (s.heap sid').closes = 1
      simp only [hlive, List.singleton_append, List.count_cons]
      by_cases he : sid' = sid
      · subst he
        simp only [hl, if_true] at hown
        simp only [ne_eq, not_true_eq_false, and_false, if_false, beq_self_eq_true, if_true]
        omega
      · simpa [he, Ne.symm he] using hown
    emptied := fun he => by
      have hempty := h.emptied he
      unfold Receiver.Live at hl
      rw [hempty] at hl
      cases hl }

theorem closeDecoder (h : Lifecycle s) {sid : ℕ} (dec : DecodePc) (clo : ClosePc)
    (huse : dec.inUse = []) (hrem : ∀ w sid, dec ≠ .removing w sid)
    (hperm : (s.decode.unclosed ++ s.closer.unclosed).Perm (sid :: (dec.unclosed ++ clo.unclosed)))
    (hemptied : clo.Emptied → s.closer.Emptied) :
    Lifecycle { s.closeDecoder sid with decode := dec, closer := clo } := by
  have hkey : ∀ sid', ((s.closeDecoder sid).heap sid').key = (s.heap sid').key :=
    Receiver.setStream_proj Stream.key rfl
  have hlive : ∀ sid', (s.closeDecoder sid).Live sid' ↔ s.Live sid' := s.closeDecoder_live sid
  have hcloses : ∀ sid', ((s.closeDecoder sid).heap sid').closes =
      (s.heap sid').closes + if sid = sid' then 1 else 0 := by
    intro sid'
    by_cases he : sid' = sid
    · subst he
      simp [Receiver.closeDecoder, Receiver.setStream]
    · simp [Receiver.closeDecoder, Receiver.setStream, he, Ne.symm he]
  exact {
    cap := h.cap
    snap := h.snap
    filed := fun key sid' hl => ⟨(h.filed key sid' hl).1, (hkey sid').trans (h.filed key sid' hl).2⟩
    inUse := fun sid' hm => by
      rw [show dec.inUse = [] from huse] at hm
      cases hm
    removing := fun w sid' he => absurd he (hrem w sid')
    bound := fun sid' hm => h.bound sid' (hperm.symm.subset (List.mem_cons_of_mem _ hm))
    owner := fun sid' hlt => by
      have hown := h.owner sid' hlt
      rw [hperm.count_eq, List.count_cons, beq_eq_decide] at hown
      change (if (s.closeDecoder sid).Live sid' then 1 else 0) +
        (dec.unclosed ++ clo.unclosed).count sid' + ((s.closeDecoder sid).heap sid').closes = 1
      simp only [hlive, hcloses]
      by_cases he : sid = sid'
      · simp only [he, decide_true, if_true] at hown ⊢
        omega
      · simp only [he, decide_false, Bool.false_eq_true, if_false] at hown ⊢
        omega
    emptied := fun he => h.emptied (hemptied he) }

theorem rxService (h : Lifecycle s) {o : IterOrder ℕ} (hs : s.rxService o = some s') :
    Lifecycle s' := by
  have huse := h.inUse
  unfold Receiver.rxService at hs
  cases hpc : s.decode with
  | parked => simp [hpc] at hs
  | exited => simp [hpc] at hs
  | serving w =>
    simp only [hpc] at hs huse
    cases htodo : w.todo with
    | nil =>
      simp only [htodo, Option.some.injEq] at hs
      subst hs
      exact h.setDecode (fun _ hm => absurd hm List.not_mem_nil) (fun _ _ he => by cases he)
        (by rw [hpc]; rfl) rfl
    | cons sid todo =>
      simp only [htodo, Option.some.injEq] at hs
      subst hs
      refine h.setDecode (fun sid' hm => huse sid' ?_) (fun _ _ he => by cases he)
        (by rw [hpc]; rfl) rfl
      rwa [DecodePc.inUse, htodo]
  | topUp w sid =>
    simp only [hpc, Option.some.injEq] at hs huse
    subst hs
    exact h.setDecode huse (fun _ _ he => by cases he) (by rw [hpc]; rfl) rfl
  | seen w sid last =>
    simp only [hpc] at hs huse
    split at hs
    · cases hs
      exact h.setDecode huse (fun _ _ he => by cases he) (by rw [hpc]; rfl) rfl
    · cases hs
      refine h.setDecode (fun sid' hm => huse sid' ?_) (fun _ _ he => absurd he next_ne_removing)
        (by rw [hpc]; rfl) rfl
      rw [inUse_next] at hm
      exact List.mem_cons_of_mem _ hm
  | ending w sid last =>
    simp only [hpc] at hs
    split at hs
    · cases hs
    · cases hs
      exact h.endTransmission hpc
  | committing w sid last read =>
    simp only [hpc, Option.some.injEq] at hs huse
    subst hs
    exact h.frame rfl rfl rfl (Receiver.setStream_proj Stream.key rfl)
      (Receiver.setStream_proj Stream.closes rfl) huse (fun _ _ he => by cases he) (by rw [hpc]; rfl) rfl id
  | queueing w sid last r =>
    simp only [hpc, Option.some.injEq] at hs huse
    subst hs
    have hnext : ∀ sid' ∈ (w.next (s.heap sid).key last).inUse, s.Live sid' := by
      intro sid' hm
      rw [inUse_next] at hm
      exact huse sid' (List.mem_cons_of_mem _ hm)
    unfold Receiver.queueRXEvent
    split
    · exact h.frame rfl rfl rfl (fun _ => rfl) (fun _ => rfl) hnext
        (fun _ _ he => absurd he next_ne_removing) (by rw [hpc]; rfl) rfl id
    · exact h.frame rfl rfl rfl (fun _ => rfl) (fun _ => rfl) hnext
        (fun _ _ he => absurd he next_ne_removing) (by rw [hpc]; rfl) rfl id
  | reaping w =>
    simp only [hpc] at hs
    cases hidle : w.idle with
    | nil =>
      simp only [hidle, Option.some.injEq] at hs
      subst hs
      exact h.setDecode (fun _ hm => absurd hm List.not_mem_nil) (fun _ _ he => by cases he)
        (by rw [hpc]; rfl) rfl
    | cons key idle =>
      simp only [hidle] at hs
      split at hs
      · cases hs
      · cases hs
        exact h.reap hpc
  | removing w sid =>
    simp only [hpc, Option.some.injEq] at hs
    subst hs
    exact h.removed hpc
  | closing w sid =>
    simp only [hpc, Option.some.injEq] at hs
    subst hs
    exact h.closeDecoder _ _ rfl (fun _ _ he => by cases he) (by rw [hpc]; exact .refl _) id

theorem releasing (h : Lifecycle s) {o : IterOrder ℕ} (hclo : s.closer = .releasing)
    (hdec : s.decode = .exited) :
    Lifecycle (Receiver.publishLocked o
      { s with streams := ∅, closer := .freeing (o.order s.values) }) where
  cap := Nat.zero_le _
  snap := o.perm _
  filed := fun key sid hl => by
    change (∅ : AList fun _ : StreamKey => ℕ).lookup key = some sid at hl
    rw [AList.lookup_empty] at hl
    cases hl
  inUse := fun sid hm => by
    change sid ∈ s.decode.inUse at hm
    rw [hdec] at hm
    cases hm
  removing := fun w sid he => by
    change s.decode = _ at he
    rw [hdec] at he
    cases he
  bound := fun sid hm => by
    change sid ∈ s.decode.unclosed ++ o.order s.values at hm
    rw [hdec] at hm
    have hl := h.mem_values.1 ((o.perm _).subset hm)
    exact (h.filed _ _ hl).1
  owner := fun sid hlt => by
    have hown := h.owner sid hlt
    rw [hdec, hclo] at hown
    change (if (∅ : AList fun _ : StreamKey => ℕ).lookup (s.heap sid).key = some sid then 1 else 0) +
      (s.decode.unclosed ++ o.order s.values).count sid + (s.heap sid).closes = 1
    rw [hdec, AList.lookup_empty, if_neg (by simp), List.count_append, (o.perm _).count_eq,
      h.count_values]
    simpa [DecodePc.unclosed, ClosePc.unclosed] using hown
  emptied := fun _ => rfl

/-- `Close` goes on to a stage before it empties the map. -/
theorem setCloser (h : Lifecycle s) {pc : ClosePc} (hun : pc.unclosed = [])
    (hclo : s.closer.unclosed = []) (hemptied : ¬ pc.Emptied) :
    Lifecycle { s with closer := pc } :=
  h.frame rfl rfl rfl (fun _ => rfl) (fun _ => rfl) h.inUse h.removing rfl (hun.trans hclo.symm)
    fun he => absurd he hemptied

theorem close (h : Lifecycle s) (hdown : Shutdown s) {o : IterOrder ℕ}
    (hs : s.close o = some s') : Lifecycle s' := by
  have hframe : ∀ {t : Receiver}, t.streams = s.streams → t.snapshot = s.snapshot →
      t.opened = s.opened → (∀ sid, (t.heap sid).key = (s.heap sid).key) →
      (∀ sid, (t.heap sid).closes = (s.heap sid).closes) → t.decode = s.decode →
      s.closer.unclosed = [] → t.closer.unclosed = [] → ¬ t.closer.Emptied → Lifecycle t := by
    intro t hstreams hsnap hopened hkey hcloses hdecode hclo hun hnot
    refine h.frame hstreams hsnap hopened hkey hcloses (hdecode ▸ h.inUse) (hdecode ▸ h.removing)
      (by rw [hdecode]) (hun.trans hclo.symm) fun he => absurd he hnot
  unfold Receiver.close at hs
  cases hpc : s.closer with
  | uncalled =>
    simp only [hpc, Option.some.injEq] at hs
    subst hs
    exact h.setCloser rfl (by rw [hpc]; rfl) id
  | said =>
    simp only [hpc] at hs
    split at hs
    · cases hs
    · cases hs
      exact hframe rfl rfl rfl (fun _ => rfl) (fun _ => rfl) rfl (by rw [hpc]; rfl) rfl id
  | ending todo pending =>
    simp only [hpc] at hs
    cases todo with
    | nil =>
      simp only [Option.some.injEq] at hs
      subst hs
      exact hframe rfl rfl rfl (fun _ => rfl) (fun _ => rfl) rfl (by rw [hpc]; rfl) rfl id
    | cons sid todo =>
      simp only at hs
      split at hs
      · cases hs
        exact h.setCloser rfl (by rw [hpc]; rfl) id
      · cases hs
        exact hframe rfl rfl rfl (Receiver.setStream_proj Stream.key rfl)
          (Receiver.setStream_proj Stream.closes rfl) rfl (by rw [hpc]; rfl) rfl id
  | loading sid todo pending =>
    simp only [hpc, Option.some.injEq] at hs
    subst hs
    exact hframe rfl rfl rfl (fun _ => rfl) (fun _ => rfl) rfl (by rw [hpc]; rfl) rfl id
  | queueing pending =>
    simp only [hpc] at hs
    cases pending with
    | nil =>
      simp only [Option.some.injEq] at hs
      subst hs
      exact h.setCloser rfl (by rw [hpc]; rfl) id
    | cons r rest =>
      simp only [Option.some.injEq, Receiver.queueRXEvent] at hs
      split at hs
      all_goals
        subst hs
        exact hframe rfl rfl rfl (fun _ => rfl) (fun _ => rfl) rfl (by rw [hpc]; rfl) rfl id
  | stopping | hangingUp | calling =>
    simp only [hpc, Option.some.injEq] at hs
    subst hs
    exact hframe rfl rfl rfl (fun _ => rfl) (fun _ => rfl) rfl (by rw [hpc]; rfl) rfl id
  | joining =>
    simp only [hpc] at hs
    split at hs
    · cases hs
      exact h.setCloser rfl (by rw [hpc]; rfl) id
    · cases hs
  | draining =>
    simp only [hpc] at hs
    split at hs
    · cases hs
      exact h.setCloser rfl (by rw [hpc]; rfl) id
    · cases hs
      exact hframe rfl rfl rfl (fun _ => rfl) (fun _ => rfl) rfl (by rw [hpc]; rfl) rfl id
  | releasing =>
    simp only [hpc] at hs
    split at hs
    · cases hs
    · cases hs
      exact h.releasing hpc (hdown.joined (hpc ▸ trivial)).2.1
  | freeing sids =>
    have hdec : s.decode = .exited := (hdown.joined (hpc ▸ trivial)).2.1
    simp only [hpc] at hs
    cases sids with
    | nil =>
      simp only [Option.some.injEq] at hs
      subst hs
      exact h.frame rfl rfl rfl (fun _ => rfl) (fun _ => rfl) h.inUse h.removing rfl
        (by rw [hpc]; rfl) fun _ => hpc ▸ trivial
    | cons sid rest =>
      simp only [Option.some.injEq] at hs
      subst hs
      have := @closeDecoder s h sid s.decode (.freeing rest)
        (by rw [hdec]; rfl) (by rw [hdec]; exact fun _ _ he => by cases he)
        (by rw [hdec, hpc]; exact .refl _) fun _ => hpc ▸ trivial
      exact this
  | returned => simp [hpc] at hs

theorem step (h : Lifecycle s) (hdown : Shutdown s) {a : Act} (hs : s.step a = some s') :
    Lifecycle s' := by
  have hsame : ∀ {t : Receiver}, t.streams = s.streams → t.snapshot = s.snapshot →
      t.opened = s.opened → t.heap = s.heap → t.decode = s.decode → t.closer = s.closer →
      Lifecycle t := by
    intro t hstreams hsnap hopened hheap hdecode hcloser
    exact h.frame hstreams hsnap hopened (fun _ => by rw [hheap]) (fun _ => by rw [hheap])
      (hdecode ▸ h.inUse) (hdecode ▸ h.removing) (by rw [hdecode]) (by rw [hcloser])
      (by rw [hcloser]; exact id)
  cases a with
  | tick d => cases hs; exact hsame rfl rfl rfl rfl rfl rfl
  | setRXContext accept global test => cases hs; exact hsame rfl rfl rfl rfl rfl rfl
  | openSocket =>
    simp only [Receiver.step] at hs
    split at hs
    · cases hs; exact hsame rfl rfl rfl rfl rfl rfl
    · cases hs
  | read i pkt =>
    simp only [Receiver.step, Receiver.read] at hs
    split at hs
    · split at hs
      · cases hs; exact h
      · cases hs; exact hsame rfl rfl rfl rfl rfl rfl
    · cases hs
  | rxVoice i decoder o =>
    refine h.rxVoice (fun he => (hdown.joined ?_).1 i) hs
    cases hpc : s.closer <;> simp_all [ClosePc.Emptied, ClosePc.Past]
  | wake =>
    simp only [Receiver.step] at hs
    split at hs
    · rename_i hparked
      cases hs
      exact h.setDecode (fun sid hm => h.mem_values.1 (h.snap.subset hm))
        (fun _ _ he => by cases he) (by rw [hparked]; rfl) rfl
    · cases hs
  | rxService o => exact h.rxService hs
  | decodeDone =>
    simp only [Receiver.step] at hs
    split at hs
    · rename_i hparked
      cases hs
      exact h.setDecode (fun _ hm => absurd hm List.not_mem_nil) (fun _ _ he => by cases he)
        (by rw [hparked.1]; rfl) rfl
    · cases hs
  | deliver =>
    obtain ⟨-, rxEvents, onRX, deliver, rfl⟩ := Receiver.deliverStep_frame hs
    exact hsame rfl rfl rfl rfl rfl rfl
  | deliverDone =>
    simp only [Receiver.step] at hs
    split at hs
    · cases hs; exact hsame rfl rfl rfl rfl rfl rfl
    · cases hs
  | close o => exact h.close hdown hs

theorem run {self : UUID} {historyIdle clock : ℤ} {acts : List Act}
    (hrun : exec Receiver.step (.init self historyIdle clock) acts = some s) :
    Lifecycle s ∧ Shutdown s :=
  exec_invariant (I := fun s => Lifecycle s ∧ Shutdown s)
    (fun _ _ _ h _ hs => ⟨h.1.step h.2 hs, h.2.step hs⟩)
    ⟨.init self historyIdle clock, .init self historyIdle clock⟩ (Meets.trivial ..) hrun

end Lifecycle

/-! ## Pushing into a stream that is still there -/

namespace Receive

/-- The stream `reap` is about to remove. -/
def DecodePc.removes : DecodePc → Option ℕ
  | .removing _ sid => some sid
  | _ => none

end Receive

/-- `reap` removes no stream that a receive loop has looked up and not pushed
into yet. -/
def Unheld (s : Receiver) : Act → Prop
  | .rxService _ => ∀ sid ∈ s.decode.removes, ∀ i < s.spawned, (s.loops i).held ≠ some sid
  | _ => True

instance (s : Receiver) : ∀ a, Decidable (Unheld s a)
  | .rxService _ =>
    inferInstanceAs (Decidable (∀ sid ∈ s.decode.removes, ∀ i < s.spawned,
      (s.loops i).held ≠ some sid))
  | .tick _ | .setRXContext _ _ _ | .openSocket | .read _ _ | .rxVoice _ _ _ | .wake
  | .decodeDone | .deliver | .deliverDone | .close _ => .isTrue trivial

namespace Lifecycle

variable {s s' : Receiver}

/-- Streams stay in the map, but for `reap` and the end of `Close`. -/
theorem live_step (h : Lifecycle s) {a : Act} (hs : s.step a = some s') {sid : ℕ}
    (hl : s.Live sid) :
    s'.Live sid ∨ (∃ o, a = .rxService o) ∧ sid ∈ s.decode.removes ∨ s.closer = .releasing := by
  have hsame : ∀ {t : Receiver}, t.streams = s.streams →
      (t.heap sid).key = (s.heap sid).key → t.Live sid := by
    intro t hstreams hkey
    unfold Receiver.Live
    rw [hstreams, hkey]
    exact hl
  have hset : ∀ {t : Receiver} {sid' : ℕ} {st : Stream}, t.streams = s.streams →
      t.heap = (s.setStream sid' st).heap → st.key = (s.heap sid').key → t.Live sid := by
    intro t sid' st hstreams hheap hkey
    exact hsame hstreams (by rw [hheap, Receiver.setStream_proj Stream.key hkey])
  cases a with
  | tick d => cases hs; exact .inl (hsame rfl rfl)
  | setRXContext accept global test => cases hs; exact .inl (hsame rfl rfl)
  | openSocket | wake | decodeDone | deliverDone =>
    simp only [Receiver.step] at hs
    split at hs
    · cases hs; exact .inl (hsame rfl rfl)
    · cases hs
  | read i pkt =>
    simp only [Receiver.step, Receiver.read] at hs
    split at hs
    · split at hs
      · cases hs; exact .inl hl
      · cases hs; exact .inl (hsame rfl rfl)
    · cases hs
  | rxVoice i decoder o =>
    refine .inl ?_
    simp only [Receiver.step, Receiver.rxVoice] at hs
    split at hs
    · cases hs
    · split at hs
      · cases hs
      · cases hs
        unfold Receiver.rxStreamFor
        split
        · exact hsame rfl rfl
        · rename_i hnone
          split
          · exact hsame rfl rfl
          · have hlt := (h.filed _ _ hl).1
            exact (live_openStream (o := o) hnone hlt).2 hl
    · cases hs; exact hset rfl rfl rfl
    · cases hs; exact hsame rfl rfl
    · split at hs
      · cases hs
      · cases hs
        split
        · exact hset rfl rfl rfl
        · exact hsame rfl rfl
    · cases hs; exact hsame rfl rfl
  | rxService o =>
    by_cases hrem : sid ∈ s.decode.removes
    · exact .inr (.inl ⟨⟨o, rfl⟩, hrem⟩)
    · refine .inl ?_
      simp only [Receiver.step, Receiver.rxService] at hs
      split at hs
      all_goals try simp only [reduceCtorEq, Receiver.endTransmission, Receiver.reap,
        Receiver.queueRXEvent] at hs
      all_goals repeat' split at hs
      all_goals try cases hs
      all_goals first
        | exact hsame rfl rfl
        | exact hset rfl rfl rfl
        | skip
      rename_i w sid' hpc
      have hne : sid' ≠ sid := fun he => hrem (by rw [hpc, he]; rfl)
      have hkey : (s.heap sid).key ≠ (s.heap sid').key := by
        intro he
        have hl' : s.Live sid' := h.removing w sid' hpc
        unfold Receiver.Live at hl hl'
        rw [he, hl'] at hl
        exact hne (Option.some.inj hl)
      change (s.streams.erase (s.heap sid').key).lookup (s.heap sid).key = some sid
      rw [AList.lookup_erase_ne hkey]
      exact hl
  | deliver =>
    obtain ⟨-, rxEvents, onRX, deliver, rfl⟩ := Receiver.deliverStep_frame hs
    exact .inl (hsame rfl rfl)
  | close o =>
    by_cases hrel : s.closer = .releasing
    · exact .inr (.inr hrel)
    · refine .inl ?_
      simp only [Receiver.step, Receiver.close] at hs
      split at hs
      all_goals try simp only [reduceCtorEq, Receiver.queueRXEvent] at hs
      all_goals repeat' split at hs
      all_goals try cases hs
      all_goals first
        | exact hsame rfl rfl
        | exact hset rfl rfl rfl
        | contradiction

end Lifecycle

/-- A receive loop's stream is in the map, and every push found it there. -/
structure Held (s : Receiver) : Prop where
  live : ∀ i sid, (s.loops i).held = some sid → s.Live sid
  pushes : ∀ p ∈ s.pushes, p.live = true

namespace Held

variable {s s' : Receiver}

theorem init (self : UUID) (historyIdle clock : ℤ) : Held (.init self historyIdle clock) where
  live := fun i sid he => by cases he
  pushes := by simp [Receiver.init]

/-- What a receive loop holds it held before, or has just looked up. -/
theorem held_step (h : Lifecycle s) {a : Act} (hs : s.step a = some s') {i sid : ℕ}
    (hheld : (s'.loops i).held = some sid) : (s.loops i).held = some sid ∨ s'.Live sid := by
  cases a with
  | tick d => cases hs; exact .inl hheld
  | setRXContext accept global test => cases hs; exact .inl hheld
  | openSocket | wake | decodeDone | deliverDone =>
    simp only [Receiver.step] at hs
    split at hs
    · cases hs; exact .inl hheld
    · cases hs
  | read j pkt =>
    simp only [Receiver.step, Receiver.read] at hs
    split at hs
    · split at hs
      · cases hs; exact .inl hheld
      · cases hs
        by_cases hij : i = j
        · subst hij
          simp [Receiver.setLoop, LoopPc.held] at hheld
        · simp only [Receiver.setLoop, Function.update_of_ne hij] at hheld
          exact .inl hheld
    · cases hs
  | rxService o =>
    obtain ⟨-, -, -, hloops, -⟩ := Receiver.rxService_frame hs
    rw [hloops] at hheld
    exact .inl hheld
  | deliver =>
    obtain ⟨-, rxEvents, onRX, deliver, rfl⟩ := Receiver.deliverStep_frame hs
    exact .inl hheld
  | close o =>
    obtain ⟨-, hloops, -⟩ := Receiver.close_frame hs
    rw [hloops] at hheld
    exact .inl hheld
  | rxVoice j decoder o =>
    obtain ⟨-, hother, -⟩ := Receiver.rxVoice_frame hs
    by_cases hij : i = j
    swap
    · rw [hother i hij] at hheld
      exact .inl hheld
    subst hij
    simp only [Receiver.step, Receiver.rxVoice] at hs
    split at hs
    · cases hs
    · split at hs
      · cases hs
      · cases hs
        unfold Receiver.rxStreamFor at hheld ⊢
        split at hheld
        · rename_i sid' hl
          simp only [Receiver.setLoop, Function.update_self, LoopPc.held,
            Option.some.injEq] at hheld
          subst hheld
          refine .inr ?_
          unfold Receiver.Live
          change s.streams.lookup (s.heap sid').key = some sid'
          rw [(h.filed _ _ hl).2, hl]
        · split at hheld
          · simp [Receiver.setLoop, LoopPc.held] at hheld
          · rename_i hcap
            simp only [Receiver.setLoop, Function.update_self, LoopPc.held,
              Option.some.injEq] at hheld
            subst hheld
            simp only [hcap, if_false]
            exact .inr (Lifecycle.live_openStream_self (o := o))
    all_goals rename_i hpc
    · cases hs
      simp only [Receiver.setLoop, Function.update_self] at hheld
      exact .inl (by rw [hpc]; exact hheld)
    · cases hs
      simp only [Receiver.setLoop, Function.update_self] at hheld
      refine .inl ?_
      rw [hpc]
      split at hheld <;> exact hheld
    · split at hs
      · cases hs
      · cases hs
        simp only [Receiver.setLoop, Function.update_self] at hheld
        exact .inl (by rw [hpc]; exact hheld)
    · cases hs
      simp [Receiver.setLoop, LoopPc.held] at hheld

/-- A push is recorded with what the map says of the stream at that moment. -/
theorem pushes_step {a : Act} (hs : s.step a = some s') :
    s'.pushes = s.pushes ∨ ∃ i sid, (s.loops i).held = some sid ∧
      s'.pushes = s.pushes ++ [⟨sid, decide (s.Live sid)⟩] := by
  cases a with
  | tick d => cases hs; exact .inl rfl
  | setRXContext accept global test => cases hs; exact .inl rfl
  | openSocket | wake | decodeDone | deliverDone =>
    simp only [Receiver.step] at hs
    split at hs
    · cases hs; exact .inl rfl
    · cases hs
  | read j pkt =>
    simp only [Receiver.step, Receiver.read] at hs
    split at hs
    · split at hs <;> cases hs <;> exact .inl rfl
    · cases hs
  | rxService o =>
    obtain ⟨-, -, -, -, -, -, -, -, -, -, -, hpushes, -⟩ := Receiver.rxService_frame hs
    exact .inl hpushes
  | deliver =>
    obtain ⟨-, rxEvents, onRX, deliver, rfl⟩ := Receiver.deliverStep_frame hs
    exact .inl rfl
  | close o =>
    obtain ⟨-, -, -, -, -, -, -, hpushes, -⟩ := Receiver.close_frame hs
    exact .inl hpushes
  | rxVoice i decoder o =>
    simp only [Receiver.step, Receiver.rxVoice] at hs
    split at hs
    all_goals rename_i hpc
    · cases hs
    · split at hs
      · cases hs
      · cases hs
        unfold Receiver.rxStreamFor
        split
        · exact .inl rfl
        · split <;> exact .inl rfl
    · cases hs; exact .inl rfl
    · cases hs; exact .inl rfl
    · split at hs
      · cases hs
      · cases hs
        split <;> exact .inl rfl
    · rename_i sid at_
      cases hs
      exact .inr ⟨i, sid, by rw [hpc]; rfl, rfl⟩

theorem step (h : Held s) (hlife : Lifecycle s) (hdown : Shutdown s) {a : Act} (hok : Unheld s a)
    (hs : s.step a = some s') : Held s' := by
  refine ⟨fun i sid hheld => ?_, fun p hp => ?_⟩
  · rcases held_step hlife hs hheld with hold | hlive
    swap
    · exact hlive
    have hne : s.loops i ≠ .reading := fun he => by simp [he, LoopPc.held] at hold
    rcases hlife.live_step hs (h.live i sid hold) with hlive | ⟨⟨o, rfl⟩, hrem⟩ | hrel
    · exact hlive
    · have hlt : i < s.spawned := by
        by_contra hge
        exact hne (hdown.idle i (not_lt.1 hge))
      exact absurd hold (hok sid hrem i hlt)
    · exact absurd (hrel ▸ trivial) (hdown.not_past_of_loop hne)
  · rcases pushes_step hs with he | ⟨i, sid, hheld, he⟩
    · exact h.pushes p (he ▸ hp)
    · rw [he] at hp
      rcases List.mem_append.1 hp with hp | hp
      · exact h.pushes p hp
      · rw [List.mem_singleton.1 hp]
        exact decide_eq_true (h.live i sid hheld)

end Held

/-- **The life of the receive streams.** In every run the map keeps its cap,
the snapshot lists the map, and decoders are closed once, when their stream is
out of the map, and not used after. A run in which `reap` leaves held streams
alone pushes no packet into a removed stream. -/
theorem rx_lifecycle (self : UUID) (historyIdle clock : ℤ) (acts : List Act) (s : Receiver)
    (hrun : exec Receiver.step (.init self historyIdle clock) acts = some s) :
    s.streams.keys.length ≤ maxRXStreams ∧ s.snapshot.Perm s.values ∧
    (∀ sid < s.opened, (s.heap sid).closes ≤ 1 ∧
      ((s.heap sid).closes = 1 ↔ ¬ s.Live sid ∧ sid ∉ s.decode.unclosed ++ s.closer.unclosed)) ∧
    (s.closer = .returned → ∀ sid < s.opened, (s.heap sid).closes = 1) ∧
    (∀ sid ∈ s.decode.inUse, (s.heap sid).closes = 0) ∧
    (Meets Receiver.step Unheld (.init self historyIdle clock) acts →
      ∀ p ∈ s.pushes, p.live = true) := by
  obtain ⟨h, hdown⟩ := Lifecycle.run hrun
  refine ⟨h.cap, h.snap, fun sid hlt => ?_, fun hret sid hlt => ?_, fun sid hm => ?_, fun hok => ?_⟩
  · have hown := h.owner sid hlt
    refine ⟨by omega, fun hone => ?_, fun ⟨hlive, hcount⟩ => ?_⟩
    · refine ⟨fun hlive => ?_, List.count_eq_zero.1 (by omega)⟩
      rw [if_pos hlive] at hown
      omega
    · rw [if_neg hlive, List.count_eq_zero.2 hcount] at hown
      omega
  · have hown := h.owner sid hlt
    have hdead : ¬ s.Live sid := by
      unfold Receiver.Live
      rw [h.emptied (hret ▸ trivial), AList.lookup_empty]
      exact fun he => by cases he
    have hdec : s.decode = .exited := (hdown.joined (hret ▸ trivial)).2.1
    rw [if_neg hdead, hdec, hret] at hown
    simpa [DecodePc.unclosed, ClosePc.unclosed] using hown
  · have hlive := h.inUse sid hm
    have hown := h.owner sid (h.filed _ _ hlive).1
    rw [if_pos hlive] at hown
    omega
  · have hall : (Lifecycle s ∧ Shutdown s) ∧ Held s :=
      exec_invariant (I := fun s => (Lifecycle s ∧ Shutdown s) ∧ Held s)
        (fun _ _ _ h hok hs =>
          ⟨⟨h.1.1.step h.1.2 hs, h.1.2.step hs⟩, h.2.step h.1.1 h.1.2 hok hs⟩)
        ⟨⟨.init self historyIdle clock, .init self historyIdle clock⟩,
          .init self historyIdle clock⟩ hok hrun
    exact hall.2.pushes

section Examples

/-- A VOICE packet on 30 MHz. -/
def packetOn30 : Packet := ⟨packetTypeVoice, 0, 1, 30000, talkerID, [1]⟩

/-- The receive loop takes `n` steps in `rxVoice`. -/
def voiceSteps (n : ℕ) : List Act := List.replicate n (.rxVoice 0 true (.stored ℕ))

/-- The decode goroutine takes `n` steps in `rxService`. -/
def serviceSteps (n : ℕ) : List Act := List.replicate n (.rxService (.stored ℕ))

/-- `Close` takes `n` steps. -/
def closeSteps (n : ℕ) : List Act := List.replicate n (.close (.stored ℕ))

/-- The first packet of a transmission has reached its stream. -/
def firstPacket : List Act :=
  [.setRXContext [30000] [] [], .read 0 packetOn30] ++ voiceSteps 4

/-- Five seconds later the next packet finds the stream, and before it is
stamped the decode goroutine removes the stream. -/
def reapedUnderneath : List Act :=
  firstPacket ++ [.tick 5000000000, .read 0 packetOn30] ++ voiceSteps 1 ++ [.wake] ++
    serviceSteps 10 ++ voiceSteps 4

/-- One packet received, and the session closed. -/
theorem rx_lifecycle_closed :
    ∃ s, exec Receiver.step (.init .nil (ms 500) 0)
        (firstPacket ++ closeSteps 9 ++ [.decodeDone, .deliver, .deliver, .deliverDone, .deliver] ++
          closeSteps 5) = some s ∧
      s.closer = .returned ∧ (s.heap 0).closes = 1 := by
  have hrun : (exec Receiver.step (.init .nil (ms 500) 0)
      (firstPacket ++ closeSteps 9 ++ [.decodeDone, .deliver, .deliver, .deliverDone, .deliver] ++
        closeSteps 5)).map (fun s => (s.closer, s.opened)) = some (.returned, 1) := by
    decide +kernel
  obtain ⟨s, hs, he⟩ := Option.map_eq_some_iff.1 hrun
  obtain ⟨hret, hopened⟩ := Prod.mk.inj he
  obtain ⟨-, -, -, hclosed, -⟩ := rx_lifecycle .nil (ms 500) 0 _ s hs
  exact ⟨s, hs, hret, hclosed hret 0 (by omega)⟩

/-- **A packet is pushed into a stream that `reap` has removed.** -/
theorem pushed_after_reap :
    ¬ ∀ acts s, exec Receiver.step (.init .nil (ms 500) 0) acts = some s →
      ∀ p ∈ s.pushes, p.live = true := by
  intro h
  have hrun : (exec Receiver.step (.init .nil (ms 500) 0) reapedUnderneath).map (·.pushes) =
      some [⟨0, true⟩, ⟨0, false⟩] := by decide +kernel
  obtain ⟨s, hs, he⟩ := Option.map_eq_some_iff.1 hrun
  have := h reapedUnderneath s hs ⟨0, false⟩ (by simp [he])
  exact absurd this (by decide)

end Examples

end VcsClient.Voice
