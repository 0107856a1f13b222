import Mathlib.Data.List.Basic
import Slotted.Lock.Protocol
import Slotted.Proofs.Lock.Word

/-!
# Who holds the lock

Any number of threads work on one word, each on what it saw of the word some steps ago.  What a step
does is nevertheless of few sorts, if one looks only at the word and at what the thread holds: a hold
is gained or given up together with its part of the word, or a flag of sleeping threads is set or
cleared and nothing is held more or less.  So the word says at all times who holds the lock.

A step that gains a hold replaces the word it saw and fails if the word is another one by then, so
what the thread found out about the word it saw is still true.  The one thing to remember from step
to step is what it found out before its first attempt (`Contender.Ready`).

## Main definitions

* `Effect` — what a step does to the word and to the holds of its thread.
* `Contention.Sound` — the word counts the holds, and an exclusive one is alone.

## Main results

* `Move.effect` — every step of a thread has such an effect.
* `Contention.Sound.step` — a step keeps the word right, from which `Reachable.sound`.
* `Contention.word_counts_holds` — what that means for the holds and for the flag of the sleepers.
-/

namespace Slotted

variable {w w' : LockWord} {t t' : Contender}

/-! ### What a step does to the holds -/

/-- A thread that is about to replace the word it saw, at its first attempt for a shared hold, saw a
word that allows one. -/
def Contender.Ready (t : Contender) : Prop :=
  ∀ seen, t.phase = .firstTry seen → seen.isExclusive = false ∧ seen.hasRoom = true

/-- There is no shared hold beside an exclusive one, and the greatest count is not reached. -/
def LockWord.Regular (w : LockWord) : Prop :=
  (w.isExclusive = true → w.readers = 0) ∧ w.readers < 2 ^ 30 - 1

/-- What a thread holds: the number of its shared holds, and whether it has an exclusive one. -/
def Contender.holds (t : Contender) : ℕ × Bool := (t.shared, t.exclusive)

/-- What a step of thread `t` may do to the word `w` and to its holds: the word after it, and the
holds. -/
inductive Effect (w : LockWord) (t : Contender) : LockWord → ℕ → Bool → Prop where
  /-- Nothing. -/
  | none : Effect w t w t.shared t.exclusive
  /-- The flag of the sleeping threads is set. -/
  | park : Effect w t w.park t.shared t.exclusive
  /-- The flag of the sleeping threads is cleared. -/
  | unpark : Effect w t w.unpark t.shared t.exclusive
  /-- A shared hold is gained. -/
  | gainShared : w.isExclusive = false → w.hasRoom = true →
      Effect w t w.addReader (t.shared + 1) t.exclusive
  /-- An exclusive hold is gained. -/
  | gainExclusive : w.isHeld = false → Effect w t w.setExclusive t.shared true
  /-- A shared hold is given up. -/
  | loseShared : 0 < t.shared → Effect w t w.removeReader (t.shared - 1) t.exclusive
  /-- An exclusive hold is given up. -/
  | loseExclusive : t.exclusive = true → Effect w t .free t.shared false

theorem Move.effect (h : Move w t w' t') (ht : t.Ready) : Effect w t w' t'.shared t'.exclusive := by
  cases h with
  | firstTrySucceeds hphase =>
    obtain ⟨hexclusive, hroom⟩ := ht _ hphase
    exact .gainShared hexclusive hroom
  | firstClaimSucceeds => exact .gainExclusive rfl
  | @claimSucceeds _ _ mode _ _ hblocks hroom =>
    cases mode with
    | shared => exact .gainShared hblocks (hroom rfl)
    | exclusive => exact .gainExclusive hblocks
  | parkSucceeds => exact .park
  | leaveShared _ hpos => exact .loseShared hpos
  | leaveLast _ hpos => exact .loseShared hpos
  | unpark => exact .unpark
  | leaveExclusive _ hexclusive => exact .loseExclusive hexclusive
  | _ => exact .none

/-- What an effect adds to the holds it adds to the word, if the word counts the holds of the thread
among its own. -/
theorem Effect.counts {shared : ℕ} {exclusive : Bool} (h : Effect w t w' shared exclusive)
    (hw : w.Regular) (hshared : t.shared ≤ w.readers)
    (hexclusive : t.exclusive.toNat ≤ w.isExclusive.toNat) :
    w'.Regular ∧ w'.readers + t.shared = w.readers + shared ∧
      w'.isExclusive.toNat + t.exclusive.toNat = w.isExclusive.toNat + exclusive.toNat := by
  obtain ⟨halone, hlt⟩ := hw
  cases h with
  | none => exact ⟨⟨halone, hlt⟩, rfl, rfl⟩
  | park => simpa [LockWord.Regular] using ⟨halone, hlt⟩
  | unpark => simpa [LockWord.Regular] using ⟨halone, hlt⟩
  | gainShared hopen hroom =>
    have hroom' := LockWord.hasRoom_iff.1 hroom
    obtain ⟨-, hsame⟩ := LockWord.flags_addReader hroom
    rw [LockWord.Regular, LockWord.readers_addReader hroom, hsame]
    refine ⟨⟨fun h => absurd h (by simp [hopen]), by omega⟩, by omega, rfl⟩
  | gainExclusive hfree =>
    obtain ⟨hopen, hnone⟩ := LockWord.isHeld_eq_false_iff.1 hfree
    rw [LockWord.Regular, LockWord.readers_setExclusive, LockWord.isExclusive_setExclusive]
    rw [hopen] at hexclusive ⊢
    -- the word has no exclusive hold, so the thread has none
    refine ⟨⟨fun _ => hnone, hlt⟩, rfl, ?_⟩
    simp only [Bool.toNat_true, Bool.toNat_false] at hexclusive ⊢
    omega
  | loseShared hpos =>
    have hsome : 0 < w.readers := by omega
    obtain ⟨-, hsame⟩ := LockWord.flags_removeReader hsome
    rw [LockWord.Regular, LockWord.readers_removeReader hsome, hsame]
    refine ⟨⟨fun h => ?_, by omega⟩, by omega, rfl⟩
    rw [halone h]
  | loseExclusive hheld =>
    -- the exclusive hold is in the word, so no shared hold was beside it
    have hflag : w.isExclusive = true := by
      cases hw : w.isExclusive with
      | true => rfl
      | false => simp [hheld, hw] at hexclusive
    refine ⟨⟨fun _ => rfl, by simp⟩, ?_, ?_⟩
    · have hnone := halone hflag
      simp only [LockWord.readers_free]
      omega
    · rw [hheld, hflag]
      rfl

/-- The flag of the sleeping threads changes alone, unless an exclusive hold is given up. -/
theorem Effect.isParked_eq_or {shared : ℕ} {exclusive : Bool} (h : Effect w t w' shared exclusive)
    (hshared : t.shared ≤ w.readers) :
    w'.isParked = w.isParked ∨
      (shared = t.shared ∧ exclusive = t.exclusive ∧ w'.readers = w.readers ∧
        w'.isExclusive = w.isExclusive) ∨
      t.exclusive = true ∧ exclusive = false ∧ w' = .free := by
  cases h with
  | none => exact Or.inl rfl
  | park => exact Or.inr (Or.inl ⟨rfl, rfl, w.readers_park, w.isExclusive_park⟩)
  | unpark => exact Or.inr (Or.inl ⟨rfl, rfl, w.readers_unpark, w.isExclusive_unpark⟩)
  | gainShared _ hroom => exact Or.inl (LockWord.flags_addReader hroom).1
  | gainExclusive => exact Or.inl w.isParked_setExclusive
  | loseShared hpos => exact Or.inl (LockWord.flags_removeReader (by omega)).1
  | loseExclusive hheld => exact Or.inr (Or.inr ⟨hheld, rfl, rfl⟩)

/-- Only the first look of a shared acquisition leads to a first attempt. -/
theorem Move.ready (h : Move w t w' t') : t'.Ready := by
  intro seen hseen
  cases h with
  | firstLookOpen _ hexclusive hroom =>
    obtain rfl : w = seen := Phase.firstTry.inj hseen
    exact ⟨hexclusive, hroom⟩
  | @claimSucceeds _ _ mode => cases mode <;> exact absurd hseen (by simp [Contender.granted])
  | leaveExclusive =>
    simp only [Contender.released] at hseen
    split at hseen <;> exact absurd hseen (by simp)
  | _ => exact absurd hseen (by simp [Contender.inPhase, Contender.entered, Contender.granted,
      Contender.released])

namespace Contention

variable {s s' : Contention} {i n : ℕ}

/-! ### Counting holds over all threads -/

theorem sharedHolds_set (h : s.threads[i]? = some t) (t' : Contender) (w' : LockWord) :
    (⟨w', s.threads.set i t'⟩ : Contention).sharedHolds + t.shared = s.sharedHolds + t'.shared := by
  obtain ⟨w, ts⟩ := s
  induction ts generalizing i with
  | nil => exact absurd h (by simp)
  | cons u ts ih =>
    cases i with
    | zero =>
      obtain rfl : u = t := by simpa using h
      simp only [sharedHolds, List.set_cons_zero, List.foldr_cons]
      omega
    | succ i =>
      have hrest := ih (i := i) (by simpa using h)
      simp only [sharedHolds, List.set_cons_succ, List.foldr_cons] at hrest ⊢
      omega

theorem exclusiveHolds_set (h : s.threads[i]? = some t) (t' : Contender) (w' : LockWord) :
    (⟨w', s.threads.set i t'⟩ : Contention).exclusiveHolds + t.exclusive.toNat
      = s.exclusiveHolds + t'.exclusive.toNat := by
  have hcons : ∀ (u : Contender) (us : List Contender),
      (u :: us).countP (·.exclusive) = us.countP (·.exclusive) + u.exclusive.toNat := by
    intro u us
    rw [List.countP_cons]
    cases u.exclusive <;> rfl
  obtain ⟨w, ts⟩ := s
  induction ts generalizing i with
  | nil => exact absurd h (by simp)
  | cons u ts ih =>
    cases i with
    | zero =>
      obtain rfl : u = t := by simpa using h
      simp only [exclusiveHolds, List.set_cons_zero, hcons]
      omega
    | succ i =>
      have hrest := ih (i := i) (by simpa using h)
      simp only [exclusiveHolds, List.set_cons_succ, hcons] at hrest ⊢
      omega

/-- The holds of one thread are among those of all. -/
theorem shared_le_sharedHolds (h : s.threads[i]? = some t) : t.shared ≤ s.sharedHolds := by
  have hset := sharedHolds_set h { t with shared := 0 } s.word
  simp only at hset
  omega

theorem exclusive_le_exclusiveHolds (h : s.threads[i]? = some t) :
    t.exclusive.toNat ≤ s.exclusiveHolds := by
  have hset := exclusiveHolds_set h { t with exclusive := false } s.word
  simp only [Bool.toNat_false] at hset
  omega

/-- A thread that holds what it held before leaves the list of all holds as it was. -/
theorem map_holds_set (h : s.threads[i]? = some t) (hholds : t'.holds = t.holds) :
    (s.threads.set i t').map Contender.holds = s.threads.map Contender.holds := by
  obtain ⟨hlt, rfl⟩ := List.getElem?_eq_some_iff.1 h
  rw [List.map_set, hholds, ← List.getElem_map Contender.holds (h := by simpa using hlt),
    List.set_getElem_self]

/-! ### Waking up -/

@[simp] theorem holds_wake (t : Contender) : (wake t).holds = t.holds := by
  rw [wake]
  split <;> rfl

theorem ready_wake (ht : t.Ready) : (wake t).Ready := by
  rw [wake]
  split
  · intro seen hseen
    exact absurd hseen (by simp [Contender.inPhase])
  · exact ht

theorem sharedHolds_map_wake (ts : List Contender) (w : LockWord) :
    (⟨w, ts.map wake⟩ : Contention).sharedHolds = (⟨w, ts⟩ : Contention).sharedHolds := by
  have hshared : ∀ t, (wake t).shared = t.shared := fun t => congrArg Prod.fst (holds_wake t)
  simp [sharedHolds, List.foldr_map, hshared]

theorem exclusiveHolds_map_wake (ts : List Contender) (w : LockWord) :
    (⟨w, ts.map wake⟩ : Contention).exclusiveHolds = (⟨w, ts⟩ : Contention).exclusiveHolds := by
  have hexclusive : ∀ t, (wake t).exclusive = t.exclusive :=
    fun t => congrArg Prod.snd (holds_wake t)
  simp [exclusiveHolds, List.countP_map, Function.comp_def, hexclusive]

/-! ### The word and the holds -/

/-- The word says who holds the lock. -/
structure Sound (s : Contention) : Prop where
  /-- An exclusive hold is alone, and the count is below its greatest value. -/
  regular : s.word.Regular
  /-- The count of the word is the number of shared holds. -/
  readers_eq : s.word.readers = s.sharedHolds
  /-- The flag of the word is the number of exclusive holds. -/
  exclusive_eq : s.word.isExclusive.toNat = s.exclusiveHolds
  /-- Threads at their first attempt saw a word that allows a hold. -/
  ready : ∀ t ∈ s.threads, t.Ready

theorem sound_start (n : ℕ) : (start n).Sound where
  regular := ⟨fun _ => LockWord.readers_free, by simp [start]⟩
  readers_eq := by
    induction n with
    | zero => rfl
    | succ n ih =>
      rw [start, sharedHolds, List.replicate_succ, List.foldr_cons, Nat.zero_add]
      exact ih
  exclusive_eq := by simp [start, exclusiveHolds, List.countP_replicate]
  ready := by
    intro t ht seen hseen
    rw [List.eq_of_mem_replicate ht] at hseen
    exact absurd hseen (by simp)

/-- The word stays right when one thread changes its holds together with the word. -/
theorem Sound.effect (hs : s.Sound) (hi : s.threads[i]? = some t)
    (heffect : Effect s.word t w' t'.shared t'.exclusive) (hready : t'.Ready) :
    Sound ⟨w', s.threads.set i t'⟩ := by
  have hshared := shared_le_sharedHolds hi
  have hexclusive := exclusive_le_exclusiveHolds hi
  rw [← hs.readers_eq] at hshared
  rw [← hs.exclusive_eq] at hexclusive
  obtain ⟨hregular, hreaders, hwriters⟩ := heffect.counts hs.regular hshared hexclusive
  have hreaders' := sharedHolds_set hi t' w'
  have hwriters' := exclusiveHolds_set hi t' w'
  rw [← hs.readers_eq] at hreaders'
  rw [← hs.exclusive_eq] at hwriters'
  refine ⟨hregular, ?_, ?_, fun u hu => ?_⟩
  · show w'.readers = _
    omega
  · show w'.isExclusive.toNat = _
    omega
  · rcases List.mem_or_eq_of_mem_set hu with hu | rfl
    · exact hs.ready u hu
    · exact hready

theorem Sound.step (hs : s.Sound) (h : Step s s') : s'.Sound := by
  cases h with
  | move hi hmove =>
    exact hs.effect hi (hmove.effect (hs.ready _ (List.mem_of_getElem? hi))) hmove.ready
  | @wakeAll i t hi hphase =>
    have hidle : (t.inPhase .idle).Ready := by
      intro seen hseen
      exact absurd hseen (by simp [Contender.inPhase])
    have hidled : Sound ⟨s.word, s.threads.set i (t.inPhase .idle)⟩ := hs.effect hi .none hidle
    obtain ⟨hregular, hreaders, hwriters, hready⟩ := hidled
    refine ⟨hregular, ?_, ?_, fun u hu => ?_⟩
    · rw [sharedHolds_map_wake]
      exact hreaders
    · rw [exclusiveHolds_map_wake]
      exact hwriters
    · obtain ⟨v, hv, rfl⟩ := List.mem_map.1 hu
      exact ready_wake (hready v hv)

theorem Reachable.sound (h : Reachable n s) : s.Sound := by
  induction h with
  | start => exact sound_start n
  | step _ hstep ih => exact ih.step hstep

/-! ### The flag of the sleeping threads -/

/-- A step that sets or clears the flag of the sleeping threads changes nobody's holds, or gives up
the exclusive hold. -/
theorem Sound.map_holds_eq_or (hs : s.Sound) (h : Step s s')
    (hflag : s'.word.isParked ≠ s.word.isParked) :
    (s'.threads.map Contender.holds = s.threads.map Contender.holds ∧
        s'.word.readers = s.word.readers ∧ s'.word.isExclusive = s.word.isExclusive) ∨
      s.exclusiveHolds = 1 ∧ s'.exclusiveHolds = 0 ∧ s'.word = .free := by
  have hs' := hs.step h
  cases h with
  | wakeAll => exact absurd rfl hflag
  | @move i t t' w' hi hmove =>
    have hshared := shared_le_sharedHolds hi
    rw [← hs.readers_eq] at hshared
    have heffect := hmove.effect (hs.ready t (List.mem_of_getElem? hi))
    rcases heffect.isParked_eq_or hshared with hsame | ⟨hn, he, hreaders, hexclusive⟩ | ⟨he, he', rfl⟩
    · exact absurd hsame hflag
    · have hholds : t'.holds = t.holds := Prod.ext hn he
      exact Or.inl ⟨map_holds_set hi hholds, hreaders, hexclusive⟩
    · -- the thread has the only exclusive hold, and no word counts more than one
      have hone := exclusive_le_exclusiveHolds hi
      have hle := Bool.toNat_le s.word.isExclusive
      rw [he, Bool.toNat_true] at hone
      rw [hs.exclusive_eq] at hle
      refine Or.inr ⟨by omega, ?_, rfl⟩
      rw [← hs'.exclusive_eq, LockWord.isExclusive_free, Bool.toNat_false]

theorem sharedHolds_congr (h : s'.threads.map Contender.holds = s.threads.map Contender.holds) :
    s'.sharedHolds = s.sharedHolds := by
  have hfold : ∀ s : Contention,
      s.sharedHolds = (s.threads.map Contender.holds).foldr (fun h n => h.1 + n) 0 := by
    intro s
    rw [List.foldr_map]
    rfl
  rw [hfold, hfold, h]

/-- **The word of the lock says at all times who holds it**, however the steps of the threads are
interleaved: it counts the shared holds, its highest bit is set exactly when there is an exclusive
hold, and an exclusive hold is the only hold there is.  The count stays within its bits, so no
change of it shows in the flag of the sleeping threads.  A step that sets or clears that flag
leaves all holds as they are, or is the release of the exclusive one. -/
theorem word_counts_holds {n : ℕ} {s : Contention} (h : Reachable n s) :
    s.word.readers = s.sharedHolds ∧ s.sharedHolds < LockWord.readerMask.toNat ∧
      (s.word.isExclusive = true ↔ s.exclusiveHolds = 1) ∧ s.exclusiveHolds ≤ 1 ∧
      (s.exclusiveHolds = 1 → s.sharedHolds = 0) ∧
      ∀ s', Step s s' →
        (s'.sharedHolds ≠ s.sharedHolds → s'.word.isParked = s.word.isParked) ∧
        (s'.word.isParked ≠ s.word.isParked →
          (s'.threads.map Contender.holds = s.threads.map Contender.holds ∧
            s'.word.readers = s.word.readers ∧ s'.word.isExclusive = s.word.isExclusive) ∨
          s.exclusiveHolds = 1 ∧ s'.exclusiveHolds = 0 ∧ s'.word = .free) := by
  have hs := h.sound
  obtain ⟨halone, hlt⟩ := hs.regular
  have hflag : s.word.isExclusive = true ↔ s.exclusiveHolds = 1 := by
    rw [← hs.exclusive_eq]
    cases s.word.isExclusive <;> simp
  have hle : s.exclusiveHolds ≤ 1 := by
    rw [← hs.exclusive_eq]
    exact Bool.toNat_le _
  refine ⟨hs.readers_eq, ?_, hflag, hle, fun hone => ?_, fun s' hstep => ⟨fun hne => ?_, ?_⟩⟩
  · rw [← hs.readers_eq]
    exact hlt
  · rw [← hs.readers_eq]
    exact halone (hflag.2 hone)
  · by_contra hparked
    rcases hs.map_holds_eq_or hstep hparked with ⟨hsame, -⟩ | ⟨hone, -, hfree⟩
    · exact hne (sharedHolds_congr hsame)
    · -- a release of the exclusive hold: there was no shared hold before, and there is none now
      have hnone := halone (hflag.2 hone)
      have hnone' := (hs.step hstep).readers_eq
      rw [hfree, LockWord.readers_free] at hnone'
      rw [hs.readers_eq] at hnone
      exact hne (by omega)
  · exact hs.map_holds_eq_or hstep

/-- A thread may look at the word of a held lock again and again. -/
theorem Reachable.spins {mode : Mode} (hblocks : s.word.blocks mode = true)
    (h : Reachable n ⟨s.word, s.threads.set i (t.inPhase (.decide mode s.word 0))⟩)
    (hi : i < s.threads.length) {k : ℕ} (hk : k ≤ spinLimit) :
    Reachable n ⟨s.word, s.threads.set i (t.inPhase (.decide mode s.word k))⟩ := by
  induction k with
  | zero => exact h
  | succ k ih =>
    have hstep := Reachable.step (ih (by omega)) (.move
      (List.getElem?_set_self hi) (.spin rfl hblocks (by omega)))
    rwa [List.set_set] at hstep

/-- For example when the only reader leaves while a writer is asleep: the flag is still set although
nobody holds the lock, and the step that clears it leaves that so. -/
theorem word_counts_holds_unparking :
    let writer : Contender := { records := [.exclusive], phase := .asleep .exclusive }
    let s : Contention := ⟨(LockWord.park ⟨1⟩).removeReader, [{ phase := .unparking }, writer]⟩
    let s' : Contention := ⟨s.word.unpark, [{ phase := .waking }, writer]⟩
    Reachable 2 s ∧ s.word = ⟨0x40000000⟩ ∧ s.word.readers = s.sharedHolds ∧
      (s.word.isExclusive = true ↔ s.exclusiveHolds = 1) ∧ Step s s' ∧ s'.word = .free ∧
      s'.threads.map Contender.holds = s.threads.map Contender.holds := by
  intro writer s s'
  let reader : Contender := { records := [.shared], shared := 1 }
  -- one thread reads, the other wants to write, spins and falls asleep, and the first one leaves
  have hreads : Reachable 2 ⟨⟨1⟩, [reader, {}]⟩ :=
    .step (.step (.step .start (.move (i := 0) rfl (.enterShared rfl List.not_mem_nil)))
      (.move (i := 0) rfl (.firstLookOpen rfl rfl rfl))) (.move (i := 0) rfl (.firstTrySucceeds rfl))
  have hlooks : Reachable 2 ⟨⟨1⟩, [reader, writer.inPhase (.decide .exclusive ⟨1⟩ 0)]⟩ :=
    .step (.step (.step hreads (.move (i := 1) rfl (.enterExclusive rfl rfl)))
      (.move (i := 1) rfl (.firstClaimFails rfl (by decide)))) (.move (i := 1) rfl (.look rfl))
  have hspins : Reachable 2 ⟨⟨1⟩, [reader, writer.inPhase (.decide .exclusive ⟨1⟩ spinLimit)]⟩ :=
    Reachable.spins (s := ⟨⟨1⟩, [reader, writer]⟩) (i := 1) (by decide) hlooks (by decide) le_rfl
  have hsleeps : Reachable 2 ⟨LockWord.park ⟨1⟩, [reader, writer]⟩ :=
    .step (.step hspins (.move (i := 1) rfl (.parkSucceeds rfl (by decide) (by decide))))
      (.move (i := 1) rfl (.fallAsleep rfl))
  have hleaves : Reachable 2 s :=
    .step hsleeps (.move (i := 0) rfl (.leaveLast rfl (by decide) (by decide) (by decide)))
  have hclears : Step s s' := .move (i := 0) rfl (.unpark rfl)
  obtain ⟨hreaders, -, hflag, -, -, hstep⟩ := word_counts_holds hleaves
  rcases (hstep s' hclears).2 (by decide) with ⟨hholds, -⟩ | ⟨hone, -⟩
  · exact ⟨hleaves, by decide, hreaders, hflag, hclears, by decide, hholds⟩
  · exact absurd hone (by decide)

end Contention
end Slotted
