import VcsClient.Lib.Listing
import VcsClient.Voice.TxConserved

/-!
# The order of the samples

Calls are numbered as they start and listed in `order` as they take the lock
(`Numbered`): a call that returned before another started took the lock first.

The samples of the frames filled so far and of the accumulator form a stream, to
which the holder of the lock adds the rest of its frame (`Streamed`). Filling a
frame only moves the cut. The stream is in lock order, so every frame of it is,
and no sample is in it twice.
-/

namespace VcsClient.Voice

open VcsClient.Lib

variable {α : Type}

/-! ## Ordered samples -/

theorem InOrder.mono {order order' : List ℕ} (hsub : order.Sublist order') {x y : Tagged α}
    (h : InOrder order x y) : InOrder order' x y :=
  h.imp_right fun h => h.trans hsub

theorem InOrder.irrefl {order : List ℕ} (hnd : order.Nodup) (x : Tagged α) : ¬InOrder order x x := by
  rintro (⟨-, hlt⟩ | hpair)
  · exact lt_irrefl _ hlt
  · exact not_pair_sublist_self hnd hpair

/-- The samples of one frame, in place. -/
structure OfCall (call : ℕ) (frame : List (Tagged α)) : Prop where
  call : ∀ x ∈ frame, x.call = call
  pos : frame.Pairwise fun x y => x.pos < y.pos

theorem ofCall_tagFrame (call : ℕ) (frame : List α) : OfCall call (tagFrame call frame) where
  call x hx := by
    obtain ⟨p, -, rfl⟩ := List.mem_map.1 hx
    rfl
  pos := by
    refine List.pairwise_map.2 (List.pairwise_map (f := Prod.snd) (R := (· < ·)).1 ?_)
    rw [List.zipIdx_map_snd]
    exact List.pairwise_lt_range'

theorem OfCall.sublist {call : ℕ} {frame rest : List (Tagged α)} (h : OfCall call frame)
    (hsub : rest.Sublist frame) : OfCall call rest :=
  ⟨fun x hx => h.call x (hsub.subset hx), h.pos.sublist hsub⟩

/-- The next call to take the lock comes after all that is there. -/
theorem OfCall.inOrder {call : ℕ} {order : List ℕ} {stream frame : List (Tagged α)}
    (h : OfCall call frame) (hmem : ∀ x ∈ stream, x.call ∈ order)
    (hstream : stream.Pairwise (InOrder order)) :
    (stream ++ frame).Pairwise (InOrder (order ++ [call])) := by
  refine List.pairwise_append.2 ⟨?_, ?_, fun x hx y hy => ?_⟩
  · exact hstream.imp fun hxy => hxy.mono (List.sublist_append_left _ _)
  · refine h.pos.imp_of_mem fun {x y} hx hy hlt => .inl ⟨?_, hlt⟩
    rw [h.call x hx, h.call y hy]
  · exact .inr (pair_sublist_concat.2 (.inr ⟨hmem x hx, h.call y hy⟩))

namespace Pipeline

/-! ## The numbers of the calls -/

structure Numbered (p : Pipeline α) : Prop where
  active : ∀ w ∈ p.run.calls, p.numbers w < p.started
  inj : ∀ w ∈ p.run.calls, ∀ w' ∈ p.run.calls, p.numbers w = p.numbers w' → w = w'
  order : ∀ c ∈ p.order, c < p.started
  nodup : p.order.Nodup
  /-- The calls in the locked section, or past it, are those listed. -/
  outside : ∀ w c, p.run.calls.lookup w = some c → (p.numbers w ∈ p.order ↔ c.inside = true)
  returned : ∀ c, .returned c ∈ p.events → c < p.started ∧ ∀ w ∈ p.run.calls, p.numbers w ≠ c
  realTime : ∀ c d, [.returned c, .started d].Sublist p.events → c ∈ p.order → d ∈ p.order →
    [c, d].Sublist p.order

theorem numbered_init (self : UUID) : (init (α := α) self).Numbered where
  active w hw := by cases hw
  inj w hw := by cases hw
  order c hc := by cases hc
  nodup := List.nodup_nil
  outside w c hl := by cases hl
  returned c hc := by cases hc
  realTime c d h := by cases h

section Numbered

variable {p p' : Pipeline α} {w : ℕ} {c d : WriteFrame (Tagged α)}

theorem mem_of_lookup (hl : p.run.calls.lookup w = some c) : w ∈ p.run.calls :=
  AList.lookup_isSome.1 (by rw [hl]; rfl)

theorem Numbered.put (h : p.Numbered) (hl : p.run.calls.lookup w = some c)
    (hcalls : p'.run.calls = p.run.calls.insert w d) (hin : c.inside = d.inside)
    (hnum : p'.numbers = p.numbers) (hstarted : p'.started = p.started)
    (hevents : p'.events = p.events) (horder : p'.order = p.order) : p'.Numbered := by
  have hmem : ∀ w', w' ∈ p'.run.calls → w' ∈ p.run.calls := by
    intro w' hw'
    rw [hcalls, AList.mem_insert] at hw'
    exact hw'.elim (fun he => he ▸ mem_of_lookup hl) id
  refine ⟨fun w' hw' => ?_, fun w' hw' w'' hw'' => ?_, horder ▸ hstarted ▸ h.order,
    horder ▸ h.nodup, fun w' e hl' => ?_, fun k hk => ?_, hevents ▸ horder ▸ h.realTime⟩
  · rw [hnum, hstarted]
    exact h.active w' (hmem w' hw')
  · rw [hnum]
    exact h.inj w' (hmem w' hw') w'' (hmem w'' hw'')
  · rw [hnum, horder]
    by_cases hw : w' = w
    · subst hw
      rw [hcalls, AList.lookup_insert, Option.some.injEq] at hl'
      rw [← hl', ← hin]
      exact h.outside w' c hl
    · rw [hcalls, AList.lookup_insert_ne hw] at hl'
      exact h.outside w' e hl'
  · rw [hnum, hstarted]
    obtain ⟨hlt, hne⟩ := h.returned k (hevents ▸ hk)
    exact ⟨hlt, fun w' hw' => hne w' (hmem w' hw')⟩

theorem mem_of_lookup_imp
    (h : ∀ w c, p'.run.calls.lookup w = some c → p.run.calls.lookup w = some c)
    (hw : w ∈ p'.run.calls) : w ∈ p.run.calls := by
  obtain ⟨c, hl⟩ := Option.isSome_iff_exists.1 (AList.lookup_isSome.2 hw)
  exact mem_of_lookup (h w c hl)

theorem Numbered.start (h : p.Numbered) (hw : w ∉ p.run.calls)
    (hcalls : ∀ w' e, p'.run.calls.lookup w' = some e →
      w' = w ∧ e.inside = false ∨ w' ≠ w ∧ p.run.calls.lookup w' = some e)
    (hnum : p'.numbers = Function.update p.numbers w p.started)
    (hstarted : p'.started = p.started + 1)
    (hevents : p'.events = p.events ++ [.started p.started]) (horder : p'.order = p.order) :
    p'.Numbered := by
  have hmem : ∀ w', w' ∈ p'.run.calls →
      w' = w ∧ p'.numbers w' = p.started ∨
      w' ≠ w ∧ w' ∈ p.run.calls ∧ p'.numbers w' = p.numbers w' := by
    intro w' hw'
    obtain ⟨e, hl⟩ := Option.isSome_iff_exists.1 (AList.lookup_isSome.2 hw')
    rcases hcalls w' e hl with ⟨rfl, -⟩ | ⟨hne, hl'⟩
    · exact .inl ⟨rfl, by rw [hnum, Function.update_self]⟩
    · exact .inr ⟨hne, mem_of_lookup hl', by rw [hnum, Function.update_of_ne hne]⟩
  refine ⟨fun w' hw' => ?_, fun w' hw' w'' hw'' he => ?_, fun k hk => ?_, horder ▸ h.nodup,
    fun w' e hl => ?_, fun k hk => ?_, fun k d hkd hk hd => ?_⟩
  · rcases hmem w' hw' with ⟨-, he⟩ | ⟨-, hin, he⟩
    · omega
    · have := h.active w' hin
      omega
  · rcases hmem w' hw' with ⟨hw', he'⟩ | ⟨hw', hin', he'⟩
    · rcases hmem w'' hw'' with ⟨hw'', -⟩ | ⟨-, hin'', he''⟩
      · exact hw'.trans hw''.symm
      · have := h.active w'' hin''
        omega
    · rcases hmem w'' hw'' with ⟨-, he''⟩ | ⟨-, hin'', he''⟩
      · have := h.active w' hin'
        omega
      · exact h.inj w' hin' w'' hin'' (by omega)
  · have := h.order k (horder ▸ hk)
    omega
  · rw [horder]
    rcases hcalls w' e hl with ⟨rfl, hout⟩ | ⟨hne, hl'⟩
    · rw [hnum, Function.update_self, hout]
      exact ⟨fun hin => absurd (h.order _ hin) (lt_irrefl _), nofun⟩
    · rw [hnum, Function.update_of_ne hne]
      exact h.outside w' e hl'
  · rw [hevents] at hk
    obtain ⟨hlt, hne⟩ := h.returned k (by simpa using hk)
    refine ⟨by omega, fun w' hw' => ?_⟩
    rcases hmem w' hw' with ⟨-, he⟩ | ⟨-, hin, he⟩
    · omega
    · rw [he]
      exact hne w' hin
  · rw [horder] at hk hd ⊢
    rw [hevents, pair_sublist_concat] at hkd
    rcases hkd with hkd | ⟨-, he⟩
    · exact h.realTime k d hkd hk hd
    · cases he
      exact absurd (h.order _ hd) (lt_irrefl _)

theorem Numbered.return {k : ℕ} (h : p.Numbered) (hk : k < p.started)
    (hcalls : ∀ w c, p'.run.calls.lookup w = some c → p.run.calls.lookup w = some c)
    (hne : ∀ w ∈ p'.run.calls, p.numbers w ≠ k) (hnum : p'.numbers = p.numbers)
    (hstarted : p'.started = p.started) (hevents : p'.events = p.events ++ [.returned k])
    (horder : p'.order = p.order) : p'.Numbered := by
  have hmem : ∀ w, w ∈ p'.run.calls → w ∈ p.run.calls := fun w => mem_of_lookup_imp hcalls
  refine ⟨fun w hw => ?_, fun w hw w' hw' => ?_, horder ▸ hstarted ▸ h.order, horder ▸ h.nodup,
    fun w c hl => ?_, fun k' hk' => ?_, fun c d hcd => ?_⟩
  · rw [hnum, hstarted]
    exact h.active w (hmem w hw)
  · rw [hnum]
    exact h.inj w (hmem w hw) w' (hmem w' hw')
  · rw [hnum, horder]
    exact h.outside w c (hcalls w c hl)
  · rw [hnum, hstarted]
    rw [hevents, List.mem_append, List.mem_singleton] at hk'
    rcases hk' with hk' | he
    · obtain ⟨hlt, hne'⟩ := h.returned k' hk'
      exact ⟨hlt, fun w hw => hne' w (hmem w hw)⟩
    · cases he
      exact ⟨hk, hne⟩
  · rw [horder]
    rw [hevents, pair_sublist_concat] at hcd
    rcases hcd with hcd | ⟨-, he⟩
    · exact h.realTime c d hcd
    · cases he

theorem Numbered.lock (h : p.Numbered) (hl : p.run.calls.lookup w = some c)
    (hout : c.inside = false) (hcalls : p'.run.calls = p.run.calls.insert w d)
    (hin : d.inside = true) (hnum : p'.numbers = p.numbers)
    (hstarted : p'.started = p.started) (hevents : p'.events = p.events)
    (horder : p'.order = p.order ++ [p.numbers w]) : p'.Numbered := by
  have hw := mem_of_lookup hl
  have hmem : ∀ w', w' ∈ p'.run.calls → w' ∈ p.run.calls := by
    intro w' hw'
    rw [hcalls, AList.mem_insert] at hw'
    exact hw'.elim (fun he => he ▸ hw) id
  have hnew : p.numbers w ∉ p.order := fun hin => by
    rw [(h.outside w c hl).1 hin] at hout
    cases hout
  refine ⟨fun w' hw' => ?_, fun w' hw' w'' hw'' => ?_, fun k hk => ?_, ?_, fun w' e hl' => ?_,
    fun k hk => ?_, fun k l hkl hk hl => ?_⟩
  · rw [hnum, hstarted]
    exact h.active w' (hmem w' hw')
  · rw [hnum]
    exact h.inj w' (hmem w' hw') w'' (hmem w'' hw'')
  · rw [hstarted]
    rw [horder, List.mem_append, List.mem_singleton] at hk
    exact hk.elim (h.order k) fun he => he ▸ h.active w hw
  · rw [horder]
    refine List.nodup_append.2 ⟨h.nodup, List.nodup_singleton _, fun k hk l hl he => hnew ?_⟩
    rwa [← List.mem_singleton.1 hl, ← he]
  · rw [hnum, horder, List.mem_append, List.mem_singleton]
    by_cases hww : w' = w
    · subst hww
      rw [hcalls, AList.lookup_insert, Option.some.injEq] at hl'
      exact ⟨fun _ => hl' ▸ hin, fun _ => .inr rfl⟩
    · rw [hcalls, AList.lookup_insert_ne hww] at hl'
      rw [← h.outside w' e hl']
      exact or_iff_left fun he => hww (h.inj w' (mem_of_lookup hl') w hw he)
  · rw [hnum, hstarted]
    obtain ⟨hlt, hne⟩ := h.returned k (hevents ▸ hk)
    exact ⟨hlt, fun w' hw' => hne w' (hmem w' hw')⟩
  · rw [hevents] at hkl
    rw [horder] at hk hl ⊢
    rw [List.mem_append, List.mem_singleton] at hk hl
    -- a call that returned no longer takes the lock
    have hk' : k ∈ p.order := hk.resolve_right fun he =>
      (h.returned k (hkl.subset List.mem_cons_self)).2 w hw he.symm
    rcases hl with hl | rfl
    · exact pair_sublist_concat.2 (.inl (h.realTime k l hkl hk' hl))
    · exact pair_sublist_concat.2 (.inr ⟨hk', rfl⟩)

theorem Numbered.moves {op : TxOp α} (h : p.Numbered) (hm : p.Moves op p') : p'.Numbered := by
  cases hm with
  | @refused w frame hw =>
    have hstart : Numbered { p with
        numbers := Function.update p.numbers w p.started
        started := p.started + 1
        events := p.events ++ [.started p.started] } :=
      h.start hw (fun w' e hl => .inr ⟨fun he => hw (he ▸ mem_of_lookup hl), hl⟩) rfl rfl rfl rfl
    refine hstart.return (Nat.lt_succ_self _) (fun _ _ hl => hl) (fun w' hw' => ?_) rfl rfl rfl rfl
    have hne : w' ≠ w := fun he => hw (he ▸ hw')
    change Function.update p.numbers w p.started w' ≠ _
    rw [Function.update_of_ne hne]
    exact (h.active w' hw').ne
  | @began w frame hw =>
    refine h.start hw (fun w' e hl => ?_) rfl rfl rfl rfl
    by_cases hne : w' = w
    · subst hne
      simp only [Pipeline.put, AList.lookup_insert, Option.some.injEq] at hl
      exact .inl ⟨rfl, hl ▸ rfl⟩
    · simp only [Pipeline.put, AList.lookup_insert_ne hne] at hl
      exact .inr ⟨hne, hl⟩
  | loadGen hl => exact h.put hl rfl rfl rfl rfl rfl rfl
  | lock hl hmu => exact h.lock hl rfl rfl rfl rfl rfl rfl rfl
  | copied hl => exact h.put hl rfl rfl rfl rfl rfl rfl
  | filled hl => exact h.put hl rfl rfl rfl rfl rfl rfl
  | noFree hl => exact h.put hl rfl rfl rfl rfl rfl rfl
  | tookFree hl => exact h.put hl rfl rfl rfl rfl rfl rfl
  | queued hl => exact h.put hl rfl rfl rfl rfl rfl rfl
  | queueFull hl => exact h.put hl rfl rfl rfl rfl rfl rfl
  | @unlock w gen hl =>
    have hw := mem_of_lookup hl
    refine h.return (h.active w hw) (fun w' e hl' => ?_) (fun w' hw' he => ?_) rfl rfl rfl rfl
    · exact (mem_erase_entries (AList.mem_lookup_iff.1 hl')).2
    · obtain ⟨hne, hin⟩ := (AList.mem_erase).1 hw'
      exact hne (h.inj w' hin w hw he)
  | receive hloop hpcm => exact { h with }
  | recycle hloop => exact { h with }
  | quiet hcalls =>
    exact ⟨hcalls ▸ h.active, hcalls ▸ h.inj, h.order, h.nodup, hcalls ▸ h.outside,
      hcalls ▸ h.returned, h.realTime⟩

end Numbered

/-! ## The stream of samples -/

/-- The samples of the filled frames and of the accumulator. -/
def stream (p : Pipeline α) : List (Tagged α) := (p.filled.flatten ++ p.run.t.acc).map (·.value)

structure Streamed (p : Pipeline α) : Prop where
  rest : ∀ w c, p.run.calls.lookup w = some c → OfCall (p.numbers w) c.rest
  mem : ∀ x ∈ p.stream, x.call ∈ p.order
  inOrder : p.stream.Pairwise (InOrder p.order)
  /-- What is left of the holder's frame comes next. -/
  next : ∀ w c, p.run.calls.lookup w = some c → c.inside = true →
    (p.stream ++ c.rest).Pairwise (InOrder p.order)

theorem streamed_init (self : UUID) : (init (α := α) self).Streamed where
  rest w c hl := by cases hl
  mem x hx := by cases hx
  inOrder := List.Pairwise.nil
  next w c hl := by cases hl

section Streamed

variable {p p' : Pipeline α} {w : ℕ} {c d : WriteFrame (Tagged α)}

/-- The holder moves on: what it takes from its frame joins the stream. -/
theorem Streamed.put (h : p.Streamed) (hL : p.Locked) (hN : p.Numbered)
    (hl : p.run.calls.lookup w = some c) (hin : c.inside = true)
    (hcalls : p'.run.calls = p.run.calls.insert w d) (hnum : p'.numbers = p.numbers)
    (horder : p'.order = p.order) {taken : List (Tagged α)} (hrest : c.rest = taken ++ d.rest)
    (hstream : p'.stream = p.stream ++ taken) : p'.Streamed := by
  have hwhole : (p'.stream ++ d.rest).Pairwise (InOrder p.order) := by
    have := h.next w c hl hin
    rwa [hrest, ← List.append_assoc, ← hstream] at this
  refine ⟨fun w' e hl' => ?_, fun x hx => ?_, ?_, fun w' e hl' hin' => ?_⟩
  · rw [hnum]
    by_cases hw : w' = w
    · subst hw
      rw [hcalls, AList.lookup_insert, Option.some.injEq] at hl'
      refine (h.rest w' c hl).sublist ?_
      rw [hrest, hl']
      exact List.sublist_append_right _ _
    · rw [hcalls, AList.lookup_insert_ne hw] at hl'
      exact h.rest w' e hl'
  · rw [hstream, List.mem_append] at hx
    rw [horder]
    rcases hx with hx | hx
    · exact h.mem x hx
    · have hx' : x ∈ c.rest := hrest ▸ List.mem_append_left _ hx
      rw [(h.rest w c hl).call x hx']
      exact (hN.outside w c hl).2 hin
  · rw [horder]
    exact hwhole.sublist (List.sublist_append_left _ _)
  · rw [horder]
    by_cases hw : w' = w
    · subst hw
      rw [hcalls, AList.lookup_insert, Option.some.injEq] at hl'
      exact hl' ▸ hwhole
    · rw [hcalls, AList.lookup_insert_ne hw] at hl'
      have hmu := (hL.held w' e hl').mu hin'
      exact absurd (Option.some.inj (hmu.symm.trans ((hL.held w c hl).mu hin))) hw

/-- A call outside the locked section has no part in the stream. -/
theorem Streamed.outside (h : p.Streamed)
    (hcalls : ∀ w e, p'.run.calls.lookup w = some e →
      p.run.calls.lookup w = some e ∧ p'.numbers w = p.numbers w ∨
      e.inside = false ∧ OfCall (p'.numbers w) e.rest)
    (hstream : p'.stream = p.stream) (horder : p'.order = p.order) : p'.Streamed := by
  refine ⟨fun w e hl => ?_, hstream ▸ horder ▸ h.mem, hstream ▸ horder ▸ h.inOrder,
    fun w e hl hin => ?_⟩
  · rcases hcalls w e hl with ⟨hl', hnum⟩ | ⟨-, hrest⟩
    · rw [hnum]
      exact h.rest w e hl'
    · exact hrest
  · rw [hstream, horder]
    rcases hcalls w e hl with ⟨hl', -⟩ | ⟨hout, -⟩
    · exact h.next w e hl' hin
    · rw [hin] at hout
      cases hout

/-- The call that takes the lock is the last in the order. -/
theorem Streamed.lock {gen : UInt64} {frame : List (Tagged α)} (h : p.Streamed)
    (hL : p.Locked) (hl : p.run.calls.lookup w = some (.genLoaded gen frame))
    (hmu : p.run.t.mu = none) : Streamed { p.put (p.run.t.enter w gen) w (.locked gen frame) with
      order := p.order ++ [p.numbers w] } := by
  have hsub : (List.map (·.value) (p.filled.flatten ++ (p.run.t.enter w gen).acc)).Sublist
      p.stream := by
    refine (List.Sublist.append_left ?_ _).map _
    obtain ⟨-, -, -, -, hnil | ⟨hsame, -⟩⟩ := enter_rest p.run.t w gen
    · rw [hnil]
      exact List.nil_sublist _
    · rw [hsame]
  have hmem := fun x hx => h.mem x (hsub.subset hx)
  have hwhole := (h.rest w _ hl).inOrder hmem (h.inOrder.sublist hsub)
  refine ⟨fun w' e hl' => ?_, fun x hx => ?_, ?_, fun w' e hl' hin' => ?_⟩
  · by_cases hw : w' = w
    · subst hw
      simp only [Pipeline.put, AList.lookup_insert, Option.some.injEq] at hl'
      subst hl'
      exact h.rest w' (.genLoaded gen frame) hl
    · simp only [Pipeline.put, AList.lookup_insert_ne hw] at hl'
      exact h.rest w' e hl'
  · exact List.mem_append_left _ (hmem x hx)
  · exact hwhole.sublist (List.sublist_append_left _ _)
  · by_cases hw : w' = w
    · subst hw
      simp only [Pipeline.put, AList.lookup_insert, Option.some.injEq] at hl'
      exact hl' ▸ hwhole
    · simp only [Pipeline.put, AList.lookup_insert_ne hw] at hl'
      have := (hL.held w' e hl').mu hin'
      rw [hmu] at this
      cases this

theorem Streamed.moves {op : TxOp α} (h : p.Streamed) (hL : p.Locked) (hN : p.Numbered)
    (hm : p.Moves op p') : p'.Streamed := by
  cases hm with
  | @refused w frame hw =>
    refine h.outside (fun w' e hl => .inl ⟨hl, ?_⟩) rfl rfl
    have hne : w' ≠ w := fun he => hw (he ▸ mem_of_lookup hl)
    exact Function.update_of_ne hne _ _
  | @began w frame hw =>
    refine h.outside (fun w' e hl => ?_) rfl rfl
    by_cases hne : w' = w
    · subst hne
      simp only [Pipeline.put, AList.lookup_insert, Option.some.injEq] at hl
      subst hl
      refine .inr ⟨rfl, ?_⟩
      change OfCall (Function.update p.numbers w' p.started w') _
      rw [Function.update_self]
      exact ofCall_tagFrame _ _
    · simp only [Pipeline.put, AList.lookup_insert_ne hne] at hl
      exact .inl ⟨hl, Function.update_of_ne hne _ _⟩
  | @loadGen w frame hl =>
    refine h.outside (fun w' e hl' => ?_) rfl rfl
    by_cases hne : w' = w
    · subst hne
      simp only [Pipeline.put, AList.lookup_insert, Option.some.injEq] at hl'
      subst hl'
      exact .inr ⟨rfl, h.rest w' (.targetsLoaded frame) hl⟩
    · simp only [Pipeline.put, AList.lookup_insert_ne hne] at hl'
      exact .inl ⟨hl', rfl⟩
  | lock hl hmu => exact h.lock hL hl hmu
  | @copied w gen frame hl acc hacc hshort =>
    refine h.put hL hN hl rfl rfl rfl rfl (List.append_nil frame).symm ?_
    simp [stream, Pipeline.put, hacc, Function.comp_def]
  | @filled w gen frame taken rest hl hframe acc hacc hfull =>
    refine h.put hL hN hl rfl rfl rfl rfl hframe ?_
    simp [stream, Pipeline.put, hacc, Function.comp_def]
  | noFree hl => exact h.put hL hN hl rfl rfl rfl rfl rfl (List.append_nil _).symm
  | tookFree hl => exact h.put hL hN hl rfl rfl rfl rfl rfl (List.append_nil _).symm
  | queued hl => exact h.put hL hN hl rfl rfl rfl rfl rfl (List.append_nil _).symm
  | queueFull hl =>
    refine h.put hL hN hl rfl rfl rfl rfl (List.nil_append _).symm ?_
    have hacc : p.run.t.recycle.acc = p.run.t.acc := (TxRun.recycle_rest p.run.t).2.2.2.1
    simp [stream, Pipeline.put, Pipeline.drop, hacc]
  | @unlock w gen hl =>
    exact h.outside (fun w' e hl' => .inl
      ⟨(mem_erase_entries (AList.mem_lookup_iff.1 hl')).2, rfl⟩) rfl rfl
  | receive hloop hpcm => exact h.outside (fun w e hl => .inl ⟨hl, rfl⟩) rfl rfl
  | recycle hloop =>
    have hacc : p.run.t.recycle.acc = p.run.t.acc := (TxRun.recycle_rest p.run.t).2.2.2.1
    exact h.outside (fun w e hl => .inl ⟨hl, rfl⟩) (by simp [stream, hacc]) rfl
  | quiet hcalls hpcm hfree hmu hacc =>
    exact h.outside (fun w e hl => .inl ⟨hcalls ▸ hl, rfl⟩) (by simp [stream, hacc]) rfl

end Streamed

/-! ## Conservation -/

structure Kept (p : Pipeline α) : Prop where
  locked : p.Locked
  flow : p.Flow
  numbered : p.Numbered
  streamed : p.Streamed

theorem kept_init (self : UUID) : (init (α := α) self).Kept :=
  ⟨locked_init self, flow_init self, numbered_init self, streamed_init self⟩

theorem Kept.step {p p' : Pipeline α} {op : PipeOp α} (h : p.Kept) (hs : p.step op = some p') :
    p'.Kept := by
  cases op with
  | tx op =>
    have hm := step_moves h.flow.room hs
    exact ⟨h.locked.moves hm, h.flow.moves h.locked hm, h.numbered.moves hm,
      h.streamed.moves h.locked h.numbered hm⟩
  | close =>
    cases hs
    exact ⟨{ h.locked with }, { h.flow with }, { h.numbered with }, { h.streamed with }⟩
  | exit =>
    simp only [Pipeline.step] at hs
    split at hs
    · split at hs
      · cases hs
        exact ⟨{ h.locked with }, { h.flow with }, { h.numbered with }, { h.streamed with }⟩
      · cases hs
    · cases hs

theorem Kept.conserved {p : Pipeline α} (h : p.Kept) : p.Conserved := by
  obtain ⟨hcalls, hbufs⟩ := h.locked.calls_eq
  have hstream : (p.filled.flatten.map (·.value)).Pairwise (InOrder p.order) := by
    refine h.streamed.inOrder.sublist ?_
    unfold stream
    rw [List.map_append]
    exact List.sublist_append_left _ _
  refine
    { buffers := by rw [hbufs]; exact h.flow.buffers
      placed := by rw [hcalls]; exact h.flow.placed
      once := ?_
      sent := by rw [hcalls]; exact h.flow.sent
      counted := h.flow.counted
      full := fun frame hf => (h.flow.full frame hf).1
      oneGen := fun frame hf => (h.flow.full frame hf).2
      inOrder := fun frame hf => hstream.sublist ((List.sublist_flatten_of_mem hf).map _)
      order := h.numbered.nodup
      realTime := h.numbered.realTime }
  -- no sample is in the stream twice, and no frame is empty
  have hnd : p.filled.flatten.Nodup := by
    have hmap : (p.filled.flatten.map (·.value)).Nodup := by
      refine List.Pairwise.imp (fun {x y} hxy he => ?_) hstream
      exact InOrder.irrefl h.numbered.nodup x (by rwa [← he] at hxy)
    exact hmap.of_map
  refine (List.nodup_flatten.1 hnd).2.imp_of_mem fun {f g} hf hg hdis he => ?_
  have hpos : 0 < f.length := by
    rw [(h.flow.full f hf).1]
    exact frameSamples_pos
  obtain ⟨x, hx⟩ := List.exists_mem_of_length_pos hpos
  exact hdis hx (he ▸ hx)

end Pipeline

/-- **Conservation.** Along every interleaving the buffers are all there, every
accumulator that fills is sent in turn, dropped and counted, or on its way, and
no frame mixes generations or calls out of order. -/
theorem pipeline_conserved (self : UUID) (ops : List (PipeOp α)) (p : Pipeline α)
    (hrun : exec Pipeline.step (.init self) ops = some p) : p.Conserved :=
  (exec_invariant (I := Pipeline.Kept) (fun _ _ _ h _ hs => h.step hs) (Pipeline.kept_init self)
    (Meets.trivial _ _ _) hrun).conserved

/-- Two calls fill one frame, which is sent. -/
def twoCalls : List (PipeOp Bool) :=
  [.tx (.setTXFrequencies [⟨251000, false⟩]),
    .tx (.writeFrame 0 (List.replicate 480 true)), .tx (.loadGen 0),
    .tx (.writeFrame 1 (List.replicate 500 false)), .tx (.loadGen 1),
    .tx (.lock 0), .tx (.copy 0), .tx (.unlock 0),
    .tx (.lock 1), .tx (.copy 1), .tx (.takeFree 1), .tx (.queue 1), .tx .receive,
    .tx (.copy 1), .tx (.unlock 1), .close, .tx (.load .failed), .tx .recycle, .exit]

theorem pipeline_conserved_two : ∃ p, exec Pipeline.step (.init .nil) twoCalls = some p ∧
    p.txSend.length = 1 ∧ p.run.t.acc.length = 20 ∧ p.Conserved := by
  have hrun : (exec Pipeline.step (.init .nil) twoCalls).map
      (fun p => (p.txSend.length, p.run.t.acc.length)) = some (1, 20) := by decide +kernel
  obtain ⟨p, hp, hv⟩ := Option.map_eq_some_iff.1 hrun
  exact ⟨p, hp, congrArg Prod.fst hv, congrArg Prod.snd hv,
    pipeline_conserved .nil twoCalls p hp⟩

end VcsClient.Voice
