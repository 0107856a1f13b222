import Slotted.Proofs.Guarded.Orderly

/-!
# The moments of a program

A run of a program goes through moments: at each of them some scopes are running and some command
is about to run.  If locks, records and views agree with the running scopes at the first moment,
they do so at every moment, and again when a command has ended, be it by an abort.  Only a lock
whose word has no room for another shared hold could spoil that.

## Main definitions

* `Moment` — a command that is about to run, the scopes around it and what the thread works with.
* `Command.momentsIn`, `Command.momentsOf` — the moments inside of a command, and those of a
  program, in the order in which they come.
* `FewReaders` — at none of some moments a lock has as many shared holds as its word can count.
* `Kept` — what stays as it is while a command runs.
* `Passage` — a run from one post to another that goes through some moments and keeps all that.

## Main results

* `Command.passage_run`, `Command.passage_runAll` — the runs of commands and programs are such.
-/

namespace Slotted

/-- A command that is about to run. -/
structure Moment (C R : Type) where
  /-- The running scopes, the latest first. -/
  scopes : List OpenScope
  /-- The command. -/
  command : Command C R
  /-- The number of the view of the scope around the command. -/
  innermost : Option ℕ
  /-- What the thread works with. -/
  post : GuardPost C

namespace Command

variable {C R : Type}

mutual

/-- The moments inside of a command that is run in some scopes, its own begin aside. -/
def momentsIn : Command C R → (innermost : Option ℕ) → GuardPost C → List OpenScope →
    List (Moment C R)
  | .scope i mode body after, _, p, scopes =>
    match p.acquire i mode with
    | (.error _, _) => []
    | (.ok (), p) =>
      let (n, p) := p.grant i mode
      momentsOf body (some n) p (⟨i, mode, n⟩ :: scopes) ++
        match runAll body (some n) p with
        | (.error _, _) => []
        | (.ok _, p) => momentsOf after (some n) ((p.revoke n).release i mode) scopes
  | .attempt c, innermost, p, scopes =>
    ⟨scopes, c, innermost, p⟩ :: momentsIn c innermost p scopes
  | .read _ _, _, _, _ => []
  | .write _ _, _, _, _ => []
  | .view _ _, _, _, _ => []
  | .raise _, _, _, _ => []

/-- The moments of commands that are run one after the other in some scopes. -/
def momentsOf : List (Command C R) → (innermost : Option ℕ) → GuardPost C → List OpenScope →
    List (Moment C R)
  | [], _, _, _ => []
  | c :: cs, innermost, p, scopes =>
    ⟨scopes, c, innermost, p⟩ :: (momentsIn c innermost p scopes ++
      match run c innermost p with
      | (.error _, _) => []
      | (.ok _, p) => momentsOf cs innermost p scopes)

end

end Command

namespace Moment

variable {C R : Type}

/-- The moment and those inside of its command. -/
def unfolded (m : Moment C R) : List (Moment C R) :=
  m :: m.command.momentsIn m.innermost m.post m.scopes

/-- What the thread works with when the command has ended. -/
def next (m : Moment C R) : GuardPost C := (m.command.run m.innermost m.post).2

/-- The number of shared holds of a lock. -/
def readers (m : Moment C R) (i : ℕ) : ℕ := (m.scopes.map OpenScope.record).count (i, .shared)

end Moment

section FewReaders

variable {C R : Type} {ms ms' : List (Moment C R)}

/-- At each of the moments every lock has fewer shared holds than its word can count. -/
def FewReaders (ms : List (Moment C R)) : Prop := ∀ m ∈ ms, ∀ i, m.readers i < 2 ^ 30 - 2

theorem fewReaders_cons {m : Moment C R} :
    FewReaders (m :: ms) ↔ (∀ i, m.readers i < 2 ^ 30 - 2) ∧ FewReaders ms :=
  List.forall_mem_cons

theorem fewReaders_append : FewReaders (ms ++ ms') ↔ FewReaders ms ∧ FewReaders ms' :=
  List.forall_mem_append

end FewReaders

/-! ### What is kept -/

section Kept

variable {C R : Type} {p q q' : GuardPost C} {scopes : List OpenScope} {s s' : OpenScope} {i n : ℕ}
  {mode : Mode}

/-- Views that are revoked are so for ever. -/
def Fades (p q : GuardPost C) : Prop :=
  ∀ (n : ℕ) (v : View), p.views[n]? = some v → v.alive = false → q.views[n]? = some v

theorem Fades.trans (h : Fades p q) (h' : Fades q q') : Fades p q' :=
  fun n v hv hdead => h' n v (h n v hv hdead) hdead

theorem Fades.of_views_eq (h : q.views = p.views) : Fades p q := fun _ _ hv _ => h ▸ hv

theorem fades_grant (p : GuardPost C) (i : ℕ) (mode : Mode) : Fades p (p.grant i mode).2 := by
  intro n v hv _
  show (p.views.push _)[n]? = some v
  rw [Array.getElem?_push, if_neg (Array.getElem?_eq_some_iff.1 hv).1.ne]
  exact hv

theorem fades_revoke (p : GuardPost C) (k : ℕ) : Fades p (p.revoke k) := by
  intro n v hv hdead
  show (p.views.modify k _)[n]? = some v
  rw [Array.getElem?_modify, hv]
  split
  · rw [Option.map_some, ← hdead]
  · rfl

/-- A post that has come from another is orderly, no value to which the thread has a shared hold has
changed, and no revoked view is back. -/
structure Kept (scopes : List OpenScope) (p q : GuardPost C) : Prop where
  /-- Locks, records and views are those of the running scopes. -/
  orderly : q.Orderly scopes
  /-- The values that the thread may only read are as they were. -/
  frozen : ∀ s ∈ scopes, s.mode = .shared → q.delegate s.place = p.delegate s.place
  /-- Revoked views are as they were. -/
  fades : Fades p q

theorem Kept.refl (hp : p.Orderly scopes) : Kept scopes p p :=
  ⟨hp, fun _ _ _ => rfl, .of_views_eq rfl⟩

theorem Kept.trans (h : Kept scopes p q) (h' : Kept scopes q q') : Kept scopes p q' :=
  ⟨h'.orderly, fun s hs hmode => (h'.frozen s hs hmode).trans (h.frozen s hs hmode),
    h.fades.trans h'.fades⟩

/-- Where the thread has an exclusive hold it has no other. -/
theorem GuardPost.Orderly.place_ne (hp : p.Orderly scopes) (hs : s ∈ scopes) (hs' : s' ∈ scopes)
    (hmode : s.mode = .exclusive) (hmode' : s'.mode = .shared) : s'.place ≠ s.place := by
  intro hplace
  have hne : s'.record ≠ s.record := by
    intro h
    have hmodes := congrArg Prod.snd h
    simp only [OpenScope.record, hmode, hmode'] at hmodes
    cases hmodes
  have hfit : Records.Fit s'.record s.record :=
    List.Pairwise.forall hp.locked.compatible (List.mem_map_of_mem hs') (List.mem_map_of_mem hs) hne
  have hshared : s.mode = .shared := (hfit hplace).2
  rw [hmode] at hshared
  cases hshared

end Kept

namespace GuardPost.Orderly

variable {C R : Type} {p q : GuardPost C} {scopes : List OpenScope} {i : ℕ} {mode : Mode}

/-- A call under a lock of its own leaves nothing behind but what it did to the value. -/
theorem release_kept (hp : p.Orderly scopes)
    (hq : q.Locked ((i, mode) :: scopes.map OpenScope.record)) (hviews : q.views = p.views)
    (hfrozen : ∀ s ∈ scopes, s.mode = .shared → q.delegate s.place = p.delegate s.place) :
    Kept scopes p (q.release i mode) := by
  have hsame : (q.release i mode).views = p.views := hviews
  refine ⟨⟨hq.release, ?_⟩, fun s hs hmode => ?_, .of_views_eq hsame⟩
  · rw [hsame]
    exact hp.granted
  · rw [q.delegate_release i mode]
    exact hfrozen s hs hmode

/-- The thread has no hold of a lock that it gets exclusively. -/
theorem place_ne_of_conflicts {s : OpenScope}
    (h : Records.conflicts (scopes.map OpenScope.record) i .exclusive = false) (hs : s ∈ scopes) :
    s.place ≠ i := by
  rintro rfl
  have hmem : (s.place, s.mode) ∈ scopes.map OpenScope.record := List.mem_map_of_mem hs
  exact absurd (Records.conflicts_eq_false_iff.1 h _ hmem).1 (by decide)

theorem read_kept (hp : p.Orderly scopes)
    (hroom : (scopes.map OpenScope.record).count (i, .shared) < 2 ^ 30 - 2) (f : C → R)
    (innermost : Option ℕ) : Kept scopes p ((Command.read i f).run innermost p).2 := by
  rcases hp.locked.acquire_cases .shared hroom with
    ⟨-, hacquire⟩ | ⟨-, q, hacquire, hq, hviews, hdelegate⟩
  · simp only [Command.run, hacquire]
    exact .refl hp
  · simp only [Command.run, hacquire]
    exact hp.release_kept hq hviews fun s _ _ => hdelegate s.place

theorem write_kept (hp : p.Orderly scopes)
    (hroom : (scopes.map OpenScope.record).count (i, .shared) < 2 ^ 30 - 2)
    (f : C → Except Abort R × C) (innermost : Option ℕ) :
    Kept scopes p ((Command.write i f).run innermost p).2 := by
  rcases hp.locked.acquire_cases .exclusive hroom with
    ⟨-, hacquire⟩ | ⟨hnone, q, hacquire, hq, hviews, hdelegate⟩
  · simp only [Command.run, hacquire]
    exact .refl hp
  · simp only [Command.run, hacquire, GuardPost.change]
    refine hp.release_kept (hq.setDelegate i _) hviews fun s hs _ => ?_
    rw [delegate_setDelegate_of_ne (place_ne_of_conflicts hnone hs), hdelegate]

/-- A view does no more than its scope may. -/
theorem use_kept (hp : p.Orderly scopes) {n : ℕ} {v : View} (hv : p.views[n]? = some v)
    (use : ViewUse C R) : Kept scopes p (v.use p use).2 := by
  cases use with
  | isValid => exact .refl hp
  | describe => exact .refl hp
  | read f =>
    rw [View.use]
    split <;> exact .refl hp
  | change what f =>
    obtain ⟨i, mode, alive⟩ := v
    cases alive with
    | false => exact .refl hp
    | true =>
      cases mode with
      | shared => exact .refl hp
      | exclusive =>
        -- the view is that of a running scope with an exclusive hold
        obtain ⟨s, hs, rfl⟩ := hp.granted.alive n _ hv rfl
        have hrunning := hp.granted.running s hs
        rw [hv] at hrunning
        obtain ⟨rfl, hmode, -⟩ := View.mk.inj (Option.some.inj hrunning)
        refine ⟨⟨hp.locked.setDelegate s.place _, hp.granted⟩, fun s' hs' hmode' => ?_,
          .of_views_eq rfl⟩
        exact delegate_setDelegate_of_ne (hp.place_ne hs hs' hmode.symm hmode') p _

theorem view_kept (hp : p.Orderly scopes) (v : ViewRef) (use : ViewUse C R) (innermost : Option ℕ) :
    Kept scopes p ((Command.view v use).run innermost p).2 := by
  rw [Command.run]
  split
  · next granted hgranted =>
    obtain ⟨n, -, hn⟩ := Option.bind_eq_some_iff.1 hgranted
    exact hp.use_kept hn use
  · exact .refl hp

end GuardPost.Orderly

/-! ### Passages -/

section Passage

variable {C R : Type} {p q q' q'' : GuardPost C} {scopes : List OpenScope}
  {ms ms' : List (Moment C R)}

/-- A run from one post to another in some scopes, which goes through some moments. -/
structure Passage (scopes : List OpenScope) (p : GuardPost C) (ms : List (Moment C R))
    (q : GuardPost C) : Prop where
  /-- What the run keeps as a whole. -/
  kept : Kept scopes p q
  /-- At each moment all is in order, and what is kept from there by the command. -/
  orderly : ∀ m ∈ ms, m.post.Orderly m.scopes ∧ Kept m.scopes m.post m.next
  /-- A view that is revoked at the begin is so at each moment. -/
  begins : ∀ m ∈ ms, Fades p m.post
  /-- A view that is revoked at some moment is so at the end. -/
  ends : ∀ m ∈ ms, Fades m.post q
  /-- A view that is revoked at some moment is so at the later ones. -/
  pairwise : ms.Pairwise fun m m' => Fades m.post m'.post

theorem Passage.nil (h : Kept scopes p q) : Passage scopes p ([] : List (Moment C R)) q :=
  ⟨h, by simp, by simp, by simp, .nil⟩

theorem Passage.append (h : Passage scopes p ms q) (h' : Passage scopes q ms' q') :
    Passage scopes p (ms ++ ms') q' := by
  refine ⟨h.kept.trans h'.kept, ?_, ?_, ?_, List.pairwise_append.2 ⟨h.pairwise, h'.pairwise, ?_⟩⟩
  · exact List.forall_mem_append.2 ⟨h.orderly, h'.orderly⟩
  · exact List.forall_mem_append.2 ⟨h.begins, fun m hm => h.kept.fades.trans (h'.begins m hm)⟩
  · exact List.forall_mem_append.2 ⟨fun m hm => (h.ends m hm).trans h'.kept.fades, h'.ends⟩
  · exact fun m hm m' hm' => (h.ends m hm).trans (h'.begins m' hm')

/-- The moment from which a run begins is one of its moments. -/
theorem Passage.cons {m : Moment C R} (hm : m.post.Orderly m.scopes)
    (hkept : Kept m.scopes m.post m.next) (h : Passage m.scopes m.post ms q) :
    Passage m.scopes m.post (m :: ms) q := by
  refine ⟨h.kept, ?_, ?_, ?_, List.pairwise_cons.2 ⟨h.begins, h.pairwise⟩⟩
  · exact List.forall_mem_cons.2 ⟨⟨hm, hkept⟩, h.orderly⟩
  · exact List.forall_mem_cons.2 ⟨.of_views_eq rfl, h.begins⟩
  · exact List.forall_mem_cons.2 ⟨h.kept.fades, h.ends⟩

/-- A scope around a passage leaves nothing behind but what its body did to the values. -/
theorem Passage.scope {i n : ℕ} {mode : Mode} (hviews : q.views = p.views)
    (hdelegate : ∀ j, q.delegate j = p.delegate j) (hgrant : q.grant i mode = (n, q'))
    (hbody : Passage (⟨i, mode, n⟩ :: scopes) q' ms q'') :
    Passage scopes p ms ((q''.revoke n).release i mode) := by
  have hq' : q' = (q.grant i mode).2 := (congrArg Prod.snd hgrant).symm
  have hbegin : Fades p q' := hq' ▸ (Fades.of_views_eq hviews).trans (fades_grant q i mode)
  have hend : Fades q'' ((q''.revoke n).release i mode) := fades_revoke q'' n
  refine ⟨⟨hbody.kept.orderly.leave, fun s hs hmode => ?_, ?_⟩, hbody.orderly,
    fun m hm => hbegin.trans (hbody.begins m hm), fun m hm => (hbody.ends m hm).trans hend,
    hbody.pairwise⟩
  · have hgranted : q'.delegate s.place = q.delegate s.place := by
      rw [hq']
      rfl
    rw [GuardPost.delegate_release]
    exact (hbody.kept.frozen s (List.mem_cons_of_mem _ hs) hmode).trans
      (hgranted.trans (hdelegate _))
  · exact (hbegin.trans hbody.kept.fades).trans hend

end Passage

/-! ### Commands and programs -/

namespace Command

variable {C R : Type}

/-- An attempt does what its command does. -/
theorem snd_run_attempt (c : Command C R) (innermost : Option ℕ) (p : GuardPost C) :
    ((attempt c).run innermost p).2 = (c.run innermost p).2 := by
  rw [run]
  split
  · next heq => rw [heq]
  · next heq => rw [heq]

mutual

/-- Running a command is a passage, however the command ends. -/
theorem passage_run (c : Command C R) {innermost : Option ℕ} {p : GuardPost C}
    {scopes : List OpenScope} (hp : p.Orderly scopes)
    (hfew : FewReaders (Moment.unfolded ⟨scopes, c, innermost, p⟩)) :
    Passage scopes p (c.momentsIn innermost p scopes) (c.run innermost p).2 := by
  obtain ⟨hroom, hinside⟩ := fewReaders_cons.1 hfew
  cases c with
  | read i f => exact .nil (hp.read_kept (hroom i) f innermost)
  | write i f => exact .nil (hp.write_kept (hroom i) f innermost)
  | view v use => exact .nil (hp.view_kept v use innermost)
  | raise message => exact .nil (.refl hp)
  | attempt c =>
    have hc := passage_run c hp hinside
    rw [snd_run_attempt, momentsIn]
    exact .cons (m := ⟨scopes, c, innermost, p⟩) hp hc.kept hc
  | scope i mode body after =>
    rcases hp.locked.acquire_cases mode (hroom i) with
      ⟨-, hacquire⟩ | ⟨-, q, hacquire, hq, hviews, hdelegate⟩
    · simp only [run, momentsIn, hacquire]
      exact .nil (.refl hp)
    · obtain ⟨n, q', hgrant⟩ : ∃ n q', q.grant i mode = (n, q') := ⟨_, _, rfl⟩
      have henter : q'.Orderly (⟨i, mode, n⟩ :: scopes) := by
        have henter := hp.enter hq hviews
        rwa [hgrant] at henter
      simp only [momentsIn, hacquire, hgrant] at hinside
      obtain ⟨hfewBody, hfewAfter⟩ := fewReaders_append.1 hinside
      have hbody := passage_runAll body henter hfewBody
      rcases hrun : runAll body (some n) q' with ⟨_ | rs, q''⟩
      · rw [hrun] at hbody
        simp only [run, momentsIn, hacquire, hgrant, hrun, List.append_nil]
        exact hbody.scope hviews hdelegate hgrant
      · rw [hrun] at hbody hfewAfter
        have hscope := hbody.scope hviews hdelegate hgrant
        have hafter := passage_runAll after hscope.kept.orderly hfewAfter
        simp only [run, momentsIn, hacquire, hgrant, hrun]
        exact hscope.append hafter

/-- So is running commands one after the other. -/
theorem passage_runAll (cs : List (Command C R)) {innermost : Option ℕ} {p : GuardPost C}
    {scopes : List OpenScope} (hp : p.Orderly scopes)
    (hfew : FewReaders (momentsOf cs innermost p scopes)) :
    Passage scopes p (momentsOf cs innermost p scopes) (runAll cs innermost p).2 := by
  cases cs with
  | nil => exact .nil (.refl hp)
  | cons c cs =>
    rw [momentsOf] at hfew ⊢
    obtain ⟨hroom, hrest⟩ := fewReaders_cons.1 hfew
    obtain ⟨hfewHead, hfewTail⟩ := fewReaders_append.1 hrest
    have hc := passage_run c hp (fewReaders_cons.2 ⟨hroom, hfewHead⟩)
    have hkept := hc.kept
    rcases hrun : run c innermost p with ⟨_ | r, q⟩
    · rw [hrun] at hc
      simp only [runAll, hrun, List.append_nil]
      exact .cons (m := ⟨scopes, c, innermost, p⟩) hp hkept hc
    · rw [hrun] at hc hfewTail
      have hcs := passage_runAll cs hc.kept.orderly hfewTail
      simp only [runAll, hrun]
      exact .cons (m := ⟨scopes, c, innermost, p⟩) hp hkept (hc.append hcs)

end

end Command
end Slotted
