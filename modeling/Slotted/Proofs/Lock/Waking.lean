import Slotted.Proofs.Lock.Exclusion

/-!
# Nobody sleeps on for ever

A thread goes to sleep only if the word has the flag of the sleeping threads, so whoever frees the
lock will see the flag and wake everybody.  Between the release and the waking the flag may be
cleared and set again, and other threads may acquire the lock, release it and fall asleep.  What
stays true meanwhile is that a flag on a free lock belongs to a thread that is about to clear it,
and that whoever clears a flag has yet to wake the sleepers.

## Main definitions

* `Contender.OwesWaking` — the thread freed the lock, saw the flag and did not yet wake anybody.
* `Contention.Attended` — what is true of the flag, the sleepers and the wakers.

## Main results

* `Contention.Attended.step` — a step keeps that true, from which `Reachable.attended`.
* `Contention.sleeper_has_waker` — no sleeper is left alone with a free lock.
-/

namespace Slotted

variable {w w' : LockWord} {t t' : Contender}

/-- The thread freed the lock, saw that threads may be asleep, and did not yet wake them. -/
def Contender.OwesWaking (t : Contender) : Prop := t.phase = .unparking ∨ t.phase = .waking

/-! ### What a step does to flag, sleep and duty -/

theorem LockWord.isHeld_of_blocks {mode : Mode} (h : w.blocks mode = true) : w.isHeld = true := by
  cases mode with
  | shared =>
    have hexclusive : w.isExclusive = true := h
    rw [isHeld, hexclusive, Bool.true_or]
  | exclusive => exact h

theorem LockWord.isHeld_addReader (h : w.hasRoom = true) : w.addReader.isHeld = true := by
  rw [isHeld, readers_addReader h, bne_iff_ne.2 w.readers.succ_ne_zero, Bool.or_true]

theorem LockWord.isHeld_setExclusive (w : LockWord) : w.setExclusive.isHeld = true := by
  rw [isHeld, isExclusive_setExclusive, Bool.true_or]

/-- A claim that had room made the lock held and left the flag. -/
theorem LockWord.flags_claimed {mode : Mode} (h : mode = .shared → w.hasRoom = true) :
    (w.claimed mode).isHeld = true ∧ (w.claimed mode).isParked = w.isParked := by
  cases mode with
  | shared => exact ⟨isHeld_addReader (h rfl), (flags_addReader (h rfl)).1⟩
  | exclusive => exact ⟨w.isHeld_setExclusive, w.isParked_setExclusive⟩

theorem LockWord.isHeld_park (w : LockWord) : w.park.isHeld = w.isHeld := by
  rw [isHeld, isExclusive_park, readers_park, isHeld]

/-- A shared hold given up leaves the lock held, unless it was the last one. -/
theorem LockWord.isHeld_removeReader (hpos : 0 < w.readers) (hone : w.readers ≠ 1) :
    w.removeReader.isHeld = true := by
  have hrest : w.readers - 1 ≠ 0 := by omega
  rw [isHeld, readers_removeReader hpos, bne_iff_ne.2 hrest, Bool.or_true]

/-- A thread that has to wake others goes on having to, until it does. -/
theorem Move.owesWaking (h : Move w t w' t') (ht : t.OwesWaking) : t'.OwesWaking := by
  cases h with
  | unpark => exact Or.inr rfl
  | _ => simp_all [Contender.OwesWaking]

/-- Only the release that frees a lock with the flag set gives a thread others to wake. -/
theorem Move.frees_of_owesWaking (h : Move w t w' t') (ht : ¬ t.OwesWaking) (ht' : t'.OwesWaking) :
    w.isParked = true ∧
      (0 < t.shared ∧ w.readers = 1 ∧ w' = w.removeReader ∨ t.exclusive = true ∧ w' = .free) := by
  cases h with
  | leaveLast _ hpos hone hparked => exact ⟨hparked, Or.inl ⟨hpos, hone, rfl⟩⟩
  | leaveExclusive _ hexclusive =>
    refine ⟨?_, Or.inr ⟨hexclusive, rfl⟩⟩
    by_contra hparked
    simp [Contender.OwesWaking, Contender.released, hparked] at ht'
  | unpark hphase => exact absurd (Or.inl hphase) ht
  | @claimSucceeds _ _ mode => cases mode <;> simp [Contender.OwesWaking, Contender.granted] at ht'
  | _ =>
    simp [Contender.OwesWaking, Contender.inPhase, Contender.entered, Contender.granted,
      Contender.released] at ht'

/-- The flag stays, is set on a held lock, or is cleared by a thread that has to wake the sleepers
from then on. -/
theorem Move.isParked_cases (h : Move w t w' t') (ht : t.Ready) (hshared : t.shared ≤ w.readers) :
    w'.isParked = w.isParked ∨ (w.isHeld = true ∧ w' = w.park) ∨
      (t'.OwesWaking ∧ w'.isParked = false) := by
  cases h with
  | firstTrySucceeds hphase => exact Or.inl (LockWord.flags_addReader (ht _ hphase).2).1
  | firstClaimSucceeds => exact Or.inl (LockWord.isParked_setExclusive _)
  | claimSucceeds _ _ hroom => exact Or.inl (LockWord.flags_claimed hroom).2
  | parkSucceeds _ hblocks => exact Or.inr (Or.inl ⟨LockWord.isHeld_of_blocks hblocks, rfl⟩)
  | leaveShared _ hpos => exact Or.inl (LockWord.flags_removeReader (by omega)).1
  | leaveLast _ hpos => exact Or.inl (LockWord.flags_removeReader (by omega)).1
  | unpark => exact Or.inr (Or.inr ⟨Or.inr rfl, w.isParked_unpark⟩)
  | leaveExclusive =>
    cases hparked : w.isParked with
    | false => exact Or.inl LockWord.isParked_free
    | true => exact Or.inr (Or.inr ⟨by simp [Contender.OwesWaking, Contender.released], rfl⟩)
  | _ => exact Or.inl rfl

/-- The flag of a free lock was there already, or the thread has just freed the lock and is about to
clear it. -/
theorem Move.unparking_of_free (h : Move w t w' t') (ht : t.Ready) (hshared : t.shared ≤ w.readers)
    (hparked : w'.isParked = true) (hfree : w'.isHeld = false) :
    (w.isParked = true ∧ w.isHeld = false ∧ t.phase ≠ .unparking) ∨ t'.phase = .unparking := by
  cases h with
  | firstTrySucceeds hphase =>
    rw [LockWord.isHeld_addReader (ht _ hphase).2] at hfree
    cases hfree
  | firstClaimSucceeds =>
    rw [LockWord.claimed, LockWord.isHeld_setExclusive] at hfree
    cases hfree
  | claimSucceeds _ _ hroom =>
    rw [(LockWord.flags_claimed hroom).1] at hfree
    cases hfree
  | parkSucceeds _ hblocks =>
    rw [LockWord.isHeld_park, LockWord.isHeld_of_blocks hblocks] at hfree
    cases hfree
  | leaveShared _ hpos hothers =>
    have hsome : 0 < w.readers := by omega
    rw [(LockWord.flags_removeReader hsome).1] at hparked
    have hone : w.readers ≠ 1 := hothers.resolve_right (by simp [hparked])
    rw [LockWord.isHeld_removeReader hsome hone] at hfree
    cases hfree
  | leaveLast => exact Or.inr rfl
  | unpark =>
    rw [w.isParked_unpark] at hparked
    cases hparked
  | leaveExclusive =>
    rw [LockWord.isParked_free] at hparked
    cases hparked
  | _ => exact Or.inl ⟨hparked, hfree, by simp_all⟩

/-- A thread falls asleep only on the word that it expects. -/
theorem Move.dozing_of_asleep {mode : Mode} (h : Move w t w' t') (ht' : t'.phase = .asleep mode) :
    t.phase = .doze mode w ∧ w' = w := by
  cases h with
  | fallAsleep hphase =>
    obtain rfl := Phase.asleep.inj ht'
    exact ⟨hphase, rfl⟩
  | @claimSucceeds _ _ mode => cases mode <;> cases ht'
  | leaveExclusive =>
    simp only [Contender.released] at ht'
    split at ht' <;> cases ht'
  | _ => cases ht'

/-- A thread that is about to fall asleep expects the flag. -/
theorem Move.isParked_of_dozing {mode : Mode} {expected : LockWord} (h : Move w t w' t')
    (ht' : t'.phase = .doze mode expected) : expected.isParked = true := by
  cases h with
  | parkSucceeds =>
    obtain ⟨-, rfl⟩ := Phase.doze.inj ht'
    exact w.isParked_park
  | parkedAlready _ _ hparked =>
    obtain ⟨-, rfl⟩ := Phase.doze.inj ht'
    exact hparked
  | @claimSucceeds _ _ mode => cases mode <;> cases ht'
  | leaveExclusive =>
    simp only [Contender.released] at ht'
    split at ht' <;> cases ht'
  | _ => cases ht'

namespace Contention

variable {s s' : Contention} {i n : ℕ}

/-! ### All threads together -/

/-- A thread stays in the list, unless it is the one that is replaced. -/
theorem mem_set_of_mem {ts : List Contender} {u : Contender} (h : ts[i]? = some t) (hu : u ∈ ts)
    (t' : Contender) : u = t ∨ u ∈ ts.set i t' := by
  obtain ⟨j, hj⟩ := List.mem_iff_getElem?.1 hu
  by_cases hij : i = j
  · subst hij
    exact Or.inl (Option.some.inj (hj.symm.trans h))
  · refine Or.inr (List.mem_iff_getElem?.2 ⟨j, ?_⟩)
    rw [List.getElem?_set_ne hij, hj]

theorem Sound.isHeld_iff (hs : s.Sound) : s.IsHeld ↔ s.word.isHeld = true := by
  rw [IsHeld, ← hs.readers_eq, ← hs.exclusive_eq, LockWord.isHeld]
  cases s.word.isExclusive <;> simp [Nat.pos_iff_ne_zero]

/-- The flag and the sleepers are in somebody's care. -/
structure Attended (s : Contention) : Prop where
  /-- Threads that are about to fall asleep expect the flag. -/
  dozing : ∀ t ∈ s.threads, ∀ mode expected, t.phase = .doze mode expected →
    expected.isParked = true
  /-- The flag of a free lock is about to be cleared. -/
  unparking : s.word.isParked = true → s.word.isHeld = false →
    ∃ t ∈ s.threads, t.phase = .unparking
  /-- Sleepers have the flag, or somebody has to wake them. -/
  noticed : s.HasSleeper → s.word.isParked = true ∨ s.HasWaker

theorem attended_start (n : ℕ) : (start n).Attended where
  dozing := by
    intro t ht mode expected hphase
    rw [List.eq_of_mem_replicate ht] at hphase
    cases hphase
  unparking := by
    intro hparked
    rw [start, LockWord.isParked_free] at hparked
    cases hparked
  noticed := by
    rintro ⟨t, ht, mode, hphase⟩
    rw [List.eq_of_mem_replicate ht] at hphase
    cases hphase

/-- A waker remains one while it or another thread makes a step that wakes nobody. -/
theorem HasWaker.move (hwaker : s.HasWaker) (hi : s.threads[i]? = some t)
    (hmove : Move s.word t w' t') : HasWaker ⟨w', s.threads.set i t'⟩ := by
  obtain ⟨u, hu, howes⟩ := hwaker
  rcases mem_set_of_mem hi hu t' with rfl | hu'
  · exact ⟨t', List.mem_set (List.getElem?_eq_some_iff.1 hi).1 t', hmove.owesWaking howes⟩
  · exact ⟨u, hu', howes⟩

theorem Attended.move (ha : s.Attended) (hs : s.Sound) (hi : s.threads[i]? = some t)
    (hmove : Move s.word t w' t') : Attended ⟨w', s.threads.set i t'⟩ := by
  have hready := hs.ready t (List.mem_of_getElem? hi)
  have hshared := shared_le_sharedHolds hi
  rw [← hs.readers_eq] at hshared
  have hmem : t' ∈ s.threads.set i t' := List.mem_set (List.getElem?_eq_some_iff.1 hi).1 t'
  refine ⟨fun u hu mode expected hphase => ?_, fun hparked hfree => ?_, fun hsleeper => ?_⟩
  · rcases List.mem_or_eq_of_mem_set hu with hu | rfl
    · exact ha.dozing u hu mode expected hphase
    · exact hmove.isParked_of_dozing hphase
  · rcases hmove.unparking_of_free hready hshared hparked hfree with ⟨hp, hf, hne⟩ | hphase
    · -- the flag was there before, so another thread is about to clear it
      obtain ⟨u, hu, hphase⟩ := ha.unparking hp hf
      rcases mem_set_of_mem hi hu t' with rfl | hu'
      · exact absurd hphase hne
      · exact ⟨u, hu', hphase⟩
    · exact ⟨t', hmem, hphase⟩
  · obtain ⟨u, hu, mode, hphase⟩ := hsleeper
    rcases List.mem_or_eq_of_mem_set hu with hu | rfl
    · rcases ha.noticed ⟨u, hu, mode, hphase⟩ with hparked | hwaker
      · rcases hmove.isParked_cases hready hshared with hsame | ⟨-, rfl⟩ | ⟨howes, -⟩
        · exact Or.inl (hsame.trans hparked)
        · exact Or.inl s.word.isParked_park
        · exact Or.inr ⟨t', hmem, howes⟩
      · exact Or.inr (hwaker.move hi hmove)
    · -- the thread has just fallen asleep, on a word that it expected to have the flag
      obtain ⟨hdoze, rfl⟩ := hmove.dozing_of_asleep hphase
      exact Or.inl (ha.dozing t (List.mem_of_getElem? hi) mode _ hdoze)

/-- Waking leaves nobody asleep, and everybody else as before. -/
theorem phase_wake (t : Contender) :
    (∃ mode, (wake t).phase = .roused mode) ∨
      wake t = t ∧ ∀ mode, t.phase ≠ .asleep mode := by
  rw [wake]
  split
  · next mode hphase => exact Or.inl ⟨mode, rfl⟩
  · next hphase => exact Or.inr ⟨rfl, hphase⟩

theorem not_hasSleeper_map_wake (ts : List Contender) (w : LockWord) :
    ¬ HasSleeper ⟨w, ts.map wake⟩ := by
  rintro ⟨u, hu, mode, hphase⟩
  obtain ⟨v, -, rfl⟩ := List.mem_map.1 hu
  rcases phase_wake v with ⟨mode', hroused⟩ | ⟨hsame, hawake⟩
  · rw [hroused] at hphase
    cases hphase
  · rw [hsame] at hphase
    exact hawake mode hphase

theorem Attended.wakeAll (ha : s.Attended) (hi : s.threads[i]? = some t)
    (hwaking : t.phase = .waking) :
    Attended ⟨s.word, (s.threads.set i (t.inPhase .idle)).map wake⟩ := by
  refine ⟨fun u hu mode expected hphase => ?_, fun hparked hfree => ?_, fun hsleeper => ?_⟩
  · obtain ⟨v, hv, rfl⟩ := List.mem_map.1 hu
    rcases phase_wake v with ⟨mode', hroused⟩ | ⟨hsame, -⟩
    · rw [hroused] at hphase
      cases hphase
    · rw [hsame] at hphase
      rcases List.mem_or_eq_of_mem_set hv with hv | rfl
      · exact ha.dozing v hv mode expected hphase
      · cases hphase
  · obtain ⟨u, hu, hphase⟩ := ha.unparking hparked hfree
    rcases mem_set_of_mem hi hu (t.inPhase .idle) with rfl | hu'
    · rw [hwaking] at hphase
      cases hphase
    · have hwake : wake u = u := by rw [wake, hphase]
      exact ⟨u, List.mem_map.2 ⟨u, hu', hwake⟩, hphase⟩
  · exact absurd hsleeper (not_hasSleeper_map_wake _ _)

theorem Attended.step (ha : s.Attended) (hs : s.Sound) (h : Step s s') : s'.Attended := by
  cases h with
  | move hi hmove => exact ha.move hs hi hmove
  | wakeAll hi hphase => exact ha.wakeAll hi hphase

theorem Reachable.attended (h : Reachable n s) : s.Attended := by
  induction h with
  | start => exact attended_start n
  | step hreach hstep ih => exact ih.step hreach.sound hstep

theorem owesWaking_of_wake (h : (wake t).OwesWaking) : t.OwesWaking := by
  rcases phase_wake t with ⟨mode, hroused⟩ | ⟨hsame, -⟩
  · rcases h with h | h <;> rw [hroused] at h <;> cases h
  · rwa [hsame] at h

/-- A release that finds the flag set and leaves others to wake frees the lock. -/
theorem Sound.frees (hs : s.Sound) (hi : s.threads[i]? = some t)
    (h : 0 < t.shared ∧ s.word.readers = 1 ∧ w' = s.word.removeReader ∨
      t.exclusive = true ∧ w' = .free) :
    s.word.isHeld = true ∧ w'.isHeld = false := by
  rcases h with ⟨-, hone, rfl⟩ | ⟨hexclusive, rfl⟩
  · have hpos : 0 < s.word.readers := by omega
    have hopen : s.word.isExclusive = false := by
      by_contra hflag
      have hnone := hs.regular.1 (Bool.not_eq_false _ ▸ hflag)
      omega
    rw [LockWord.isHeld_eq_false_iff, (LockWord.flags_removeReader hpos).2,
      LockWord.readers_removeReader hpos, hone]
    exact ⟨by simp [LockWord.isHeld, hone], hopen, rfl⟩
  · have hle := exclusive_le_exclusiveHolds hi
    rw [hexclusive] at hle
    exact ⟨hs.isHeld_iff.1 (Or.inr hle), rfl⟩

/-- Threads come to owe a waking by freeing the lock with the flag set, and only the waking itself
ends that. -/
theorem Sound.owesWaking_changes (hs : s.Sound) (h : Step s s') {j : ℕ}
    (hj : s.threads[j]? = some t) (hj' : s'.threads[j]? = some t') :
    (¬ t.OwesWaking → t'.OwesWaking → s.word.isParked = true ∧ s.IsHeld ∧ ¬ s'.IsHeld) ∧
      (t.OwesWaking → ¬ t'.OwesWaking → ¬ s'.HasSleeper) := by
  have hs' := hs.step h
  cases h with
  | @wakeAll i u hi hphase =>
    refine ⟨fun hnot howes => absurd ?_ hnot, fun _ _ => not_hasSleeper_map_wake _ _⟩
    obtain ⟨v, hv, rfl⟩ := Option.map_eq_some_iff.1 (List.getElem?_map.symm.trans hj')
    have howes' := owesWaking_of_wake howes
    by_cases hij : i = j
    · subst hij
      rw [List.getElem?_set_self (List.getElem?_eq_some_iff.1 hi).1] at hv
      obtain rfl := Option.some.inj hv
      rcases howes' with h | h <;> cases h
    · rw [List.getElem?_set_ne hij, hj] at hv
      obtain rfl := Option.some.inj hv
      exact howes'
  | @move i u u' w' hi hmove =>
    by_cases hij : i = j
    · subst hij
      obtain rfl : u = t := Option.some.inj (hi.symm.trans hj)
      obtain rfl : u' = t' := by
        rw [List.getElem?_set_self (List.getElem?_eq_some_iff.1 hi).1] at hj'
        exact Option.some.inj hj'
      refine ⟨fun hnot howes => ?_, fun howes hnot => absurd (hmove.owesWaking howes) hnot⟩
      obtain ⟨hparked, hfrees⟩ := hmove.frees_of_owesWaking hnot howes
      obtain ⟨hheld, hfree⟩ := hs.frees hi hfrees
      rw [hs.isHeld_iff, hs'.isHeld_iff, hfree]
      exact ⟨hparked, hheld, Bool.false_ne_true⟩
    · rw [List.getElem?_set_ne hij] at hj'
      obtain rfl : t = t' := Option.some.inj (hj.symm.trans hj')
      exact ⟨fun hnot howes => absurd howes hnot, fun howes hnot => absurd howes hnot⟩

/-- **No wake-up is lost**, however the steps of any number of threads are interleaved.  While a
thread is asleep, the lock is held and has the flag of the sleeping threads, or some thread has
still to wake the sleepers; and while a free lock has the flag, some thread has.  So nobody sleeps
before a free lock with nobody to come.  Threads come to owe a waking only by a step that finds the
flag set and frees the lock, and are rid of it only by a step after which nobody is asleep. -/
theorem sleeper_has_waker {n : ℕ} {s : Contention} (h : Reachable n s) :
    (s.HasSleeper → s.IsHeld ∧ s.word.isParked = true ∨ s.HasWaker) ∧
      (s.word.isParked = true → ¬ s.IsHeld → s.HasWaker) ∧
      ¬ (s.HasSleeper ∧ ¬ s.IsHeld ∧ ¬ s.HasWaker) ∧
      ∀ (s' : Contention) (i : ℕ) (t t' : Contender), Step s s' →
        s.threads[i]? = some t → s'.threads[i]? = some t' →
        (¬ t.OwesWaking → t'.OwesWaking → s.word.isParked = true ∧ s.IsHeld ∧ ¬ s'.IsHeld) ∧
        (t.OwesWaking → ¬ t'.OwesWaking → ¬ s'.HasSleeper) := by
  have hs := h.sound
  have ha := h.attended
  have hfree : s.word.isParked = true → ¬ s.IsHeld → s.HasWaker := by
    intro hparked hnot
    rw [hs.isHeld_iff, Bool.not_eq_true] at hnot
    obtain ⟨t, ht, hphase⟩ := ha.unparking hparked hnot
    exact ⟨t, ht, Or.inl hphase⟩
  have hasleep : s.HasSleeper → s.IsHeld ∧ s.word.isParked = true ∨ s.HasWaker := by
    intro hsleeper
    rcases ha.noticed hsleeper with hparked | hwaker
    · by_cases hheld : s.IsHeld
      · exact Or.inl ⟨hheld, hparked⟩
      · exact Or.inr (hfree hparked hheld)
    · exact Or.inr hwaker
  refine ⟨hasleep, hfree, ?_, fun s' i t t' hstep hi hi' => hs.owesWaking_changes hstep hi hi'⟩
  rintro ⟨hsleeper, hnot, hnone⟩
  rcases hasleep hsleeper with ⟨hheld, -⟩ | hwaker
  · exact hnot hheld
  · exact hnone hwaker

/-- For example when the last reader leaves while a writer is asleep, and another reader comes
before the first one clears the flag.  The lock is then held and the flag is clear, so the second
reader will not wake the writer, but the first one has yet to. -/
theorem sleeper_has_waker_cleared :
    let reader : Contender := { records := [.shared], shared := 1 }
    let writer : Contender := { records := [.exclusive], phase := .asleep .exclusive }
    let s : Contention := ⟨(LockWord.park ⟨1⟩).removeReader.addReader.unpark,
      [{ phase := .waking }, writer, reader]⟩
    Reachable 3 s ∧ s.HasSleeper ∧ s.word = ⟨1⟩ ∧ s.word.isParked = false ∧ s.HasWaker := by
  intro reader writer s
  -- a reader comes, a writer spins and falls asleep, and the reader leaves
  have hreads : Reachable 3 ⟨⟨1⟩, [reader, {}, {}]⟩ :=
    .step (.step (.step .start (.move (i := 0) rfl (.enterShared rfl List.not_mem_nil)))
      (.move (i := 0) rfl (.firstLookOpen rfl rfl rfl)))
      (.move (i := 0) rfl (.firstTrySucceeds rfl))
  have hlooks : Reachable 3 ⟨⟨1⟩, [reader, writer.inPhase (.decide .exclusive ⟨1⟩ 0), {}]⟩ :=
    .step (.step (.step hreads (.move (i := 1) rfl (.enterExclusive rfl rfl)))
      (.move (i := 1) rfl (.firstClaimFails rfl (by decide)))) (.move (i := 1) rfl (.look rfl))
  have hspins :
      Reachable 3 ⟨⟨1⟩, [reader, writer.inPhase (.decide .exclusive ⟨1⟩ spinLimit), {}]⟩ :=
    Reachable.spins (s := ⟨⟨1⟩, [reader, writer, {}]⟩) (i := 1) (by decide) hlooks (by decide)
      le_rfl
  have hsleeps : Reachable 3 ⟨LockWord.park ⟨1⟩, [reader, writer, {}]⟩ :=
    .step (.step hspins (.move (i := 1) rfl (.parkSucceeds rfl (by decide) (by decide))))
      (.move (i := 1) rfl (.fallAsleep rfl))
  have hleaves : Reachable 3
      ⟨(LockWord.park ⟨1⟩).removeReader, [{ phase := .unparking }, writer, {}]⟩ :=
    .step hsleeps (.move (i := 0) rfl (.leaveLast rfl (by decide) (by decide) (by decide)))
  -- another reader comes before the flag is cleared
  have hcomes : Reachable 3 ⟨(LockWord.park ⟨1⟩).removeReader.addReader,
      [{ phase := .unparking }, writer, reader]⟩ :=
    .step (.step (.step hleaves (.move (i := 2) rfl (.enterShared rfl List.not_mem_nil)))
      (.move (i := 2) rfl (.firstLookOpen rfl (by decide) (by decide))))
      (.move (i := 2) rfl (.firstTrySucceeds rfl))
  have hclears : Reachable 3 s := .step hcomes (.move (i := 0) rfl (.unpark rfl))
  have hsleeper : s.HasSleeper := ⟨writer, by simp [s], .exclusive, rfl⟩
  have hflag : s.word.isParked = false := by decide
  refine ⟨hclears, hsleeper, by decide, hflag, ?_⟩
  rcases (sleeper_has_waker hclears).1 hsleeper with ⟨-, hparked⟩ | hwaker
  · rw [hflag] at hparked
    cases hparked
  · exact hwaker

end Contention
end Slotted
