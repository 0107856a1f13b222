import Slotted.Proofs.Guarded.Moments

/-!
# The discipline of scopes

Whatever a thread does with guarded values, at every moment it holds exactly the locks of the scopes
that it is in.  So an acquisition is refused exactly where one of these scopes is in its way; a
command that has ended has left locks and records as they were, even if it was cut short; and a view
reaches its value exactly as long as its scope is running.

## Main definitions

* `GuardPost.start` — guarded values that nobody uses yet.
* `Moment.Barred` — a running scope is in the way of an acquisition.
* `Moment.Disciplined` — what is true at a moment of a program.

## Main results

* `scopes_disciplined` — it is true at every moment of every program.
-/

namespace Slotted

variable {C R : Type}

/-- Guarded values that nobody uses yet. -/
def GuardPost.start (delegates : ℕ → C) : GuardPost C :=
  { values := fun i => { delegate := delegates i } }

theorem GuardPost.orderly_start (delegates : ℕ → C) : (GuardPost.start delegates).Orderly [] :=
  ⟨⟨rfl, .nil, fun _ => rfl⟩, .nil⟩

/-- The lock that a command acquires before anything else, if it does. -/
def Command.acquires? : Command C R → Option (ℕ × Mode)
  | .read i _ => some (i, .shared)
  | .write i _ => some (i, .exclusive)
  | .scope i mode _ _ => some (i, mode)
  | .view _ _ | .raise _ | .attempt _ => none

/-- A command whose lock is refused ends with that. -/
theorem Command.run_of_refused {c : Command C R} {p : GuardPost C} {i : ℕ} {mode : Mode} {a : Abort}
    (hc : c.acquires? = some (i, mode)) (h : p.acquire i mode = (.error a, p))
    (innermost : Option ℕ) : c.run innermost p = (.error a, p) := by
  cases c with
  | read j f =>
    obtain ⟨rfl, rfl⟩ := Prod.mk.inj (Option.some.inj hc)
    rw [run, h]
  | write j f =>
    obtain ⟨rfl, rfl⟩ := Prod.mk.inj (Option.some.inj hc)
    rw [run, h]
  | scope j mode' body after =>
    obtain ⟨rfl, rfl⟩ := Prod.mk.inj (Option.some.inj hc)
    rw [run, h]
  | _ => cases hc

namespace Moment

variable {m : Moment C R} {i : ℕ} {mode : Mode}

/-- A running scope holds the lock, and it or the acquisition is exclusive. -/
def Barred (m : Moment C R) (i : ℕ) (mode : Mode) : Prop :=
  ∃ s ∈ m.scopes, s.place = i ∧ (s.mode = .exclusive ∨ mode = .exclusive)

theorem barred_iff : m.Barred i mode ↔
    Records.conflicts (m.scopes.map OpenScope.record) i mode = true := by
  rw [Records.conflicts_iff]
  constructor
  · rintro ⟨s, hs, rfl, hclash⟩
    exact ⟨s.mode, List.mem_map_of_mem hs, hclash⟩
  · rintro ⟨held, hmem, hclash⟩
    obtain ⟨s, hs, hrecord⟩ := List.mem_map.1 hmem
    obtain ⟨rfl, rfl⟩ := Prod.mk.inj hrecord
    exact ⟨s, hs, rfl, hclash⟩

/-- What a view does at a moment: the call of it, by whichever name. -/
def useView (m : Moment C R) (v : ViewRef) (use : ViewUse C R) :
    Except Abort (Answer R) × GuardPost C :=
  (Command.view v use).run m.innermost m.post

theorem useView_eq {v : ViewRef} {n : ℕ} {granted : View} (hv : v.number? m.innermost = some n)
    (hn : m.post.views[n]? = some granted) (use : ViewUse C R) :
    m.useView v use = granted.use m.post use := by
  have hgranted : (v.number? m.innermost).bind (m.post.views[·]?) = some granted := by
    rw [hv]
    exact hn
  rw [useView, Command.run, hgranted]

/-- What is true at every moment of every program. -/
structure Disciplined (m : Moment C R) : Prop where
  /-- The records of the thread are those of the running scopes. -/
  recorded : m.post.records = m.scopes.map OpenScope.record
  /-- The word of each lock counts the holds of the running scopes and no others. -/
  counted : ∀ i, m.post.lock i = .ofRecords (m.scopes.map OpenScope.record) i
  /-- An acquisition is refused, and changes nothing, if a running scope is in its way. -/
  refused : ∀ i mode, m.Barred i mode →
    m.post.acquire i mode = (.error (.relock mode), m.post)
  /-- An acquisition succeeds if there is no such scope; scopes on other locks do not matter. -/
  admitted : ∀ i mode, ¬ m.Barred i mode → (m.post.acquire i mode).1 = .ok ()
  /-- A command is cut short by the refusal of its lock, and nothing else has happened. -/
  aborts : ∀ i mode, m.command.acquires? = some (i, mode) → m.Barred i mode →
    m.command.run m.innermost m.post = (.error (.relock mode), m.post)
  /-- When the command has ended, by an abort or otherwise, the words of all locks and the records
  are what they were. -/
  restored : (∀ i, m.next.lock i = m.post.lock i) ∧ m.next.records = m.post.records
  /-- The views that are alive are those of the running scopes. -/
  alive_iff : ∀ (n : ℕ) (granted : View), m.post.views[n]? = some granted →
    (granted.alive = true ↔ ∃ s ∈ m.scopes, s.view = n)
  /-- A view whose scope has ended says so, and reaches nothing. -/
  ended : ∀ (v : ViewRef) (n : ℕ) (granted : View), v.number? m.innermost = some n →
    m.post.views[n]? = some granted → granted.alive = false →
    m.useView v .isValid = (.ok (.validity false), m.post) ∧
      (∀ f, m.useView v (.read f) = (.ok (.error .usageAfterScope), m.post)) ∧
      ∀ what f, m.useView v (.change what f) = (.ok (.error .usageAfterScope), m.post)
  /-- The view of a running scope reaches the value of that scope. -/
  running : ∀ (v : ViewRef), ∀ s ∈ m.scopes, v.number? m.innermost = some s.view →
    m.useView v .isValid = (.ok (.validity true), m.post) ∧
      (∀ f, m.useView v (.read f) = (.ok (.value (f (m.post.delegate s.place))), m.post)) ∧
      ∀ what f, m.useView v (.change what f) =
        match s.mode with
        | .shared => (.ok (.error (.unsupportedOperation what)), m.post)
        | .exclusive => m.post.change s.place f
  /-- No sequence of uses of a view that was granted for reading changes anything. -/
  readOnly : ∀ n, (∀ s ∈ m.scopes, s.view = n → s.mode = .shared) → ∀ uses : List (ViewUse C R),
    (Command.runAll (uses.map (.view (.granted n))) m.innermost m.post).2 = m.post
  /-- In a scope that is for reading no command changes the value of the scope. -/
  frozen : ∀ s ∈ m.scopes, s.mode = .shared → m.next.delegate s.place = m.post.delegate s.place

end Moment

/-! ### Views -/

namespace GuardPost.Orderly

variable {p : GuardPost C} {scopes : List OpenScope}

theorem alive_iff (hp : p.Orderly scopes) {n : ℕ} {v : View} (hv : p.views[n]? = some v) :
    v.alive = true ↔ ∃ s ∈ scopes, s.view = n := by
  refine ⟨hp.granted.alive n v hv, ?_⟩
  rintro ⟨s, hs, rfl⟩
  rw [hp.granted.running s hs] at hv
  rw [← Option.some.inj hv]

end GuardPost.Orderly

/-- A revoked view reaches nothing. -/
theorem View.use_of_revoked {v : View} (hv : v.alive = false) (p : GuardPost C) :
    v.use p (.isValid : ViewUse C R) = (.ok (.validity false), p) ∧
      (∀ f : C → R, v.use p (.read f) = (.ok (.error .usageAfterScope), p)) ∧
      ∀ what (f : C → Except Abort R × C),
        v.use p (.change what f) = (.ok (.error .usageAfterScope), p) := by
  obtain ⟨place, mode, alive⟩ := v
  obtain rfl : alive = false := hv
  exact ⟨rfl, fun _ => rfl, fun _ _ => rfl⟩

/-- A view for reading, revoked or not, changes nothing and never aborts. -/
theorem View.exists_use_eq {v : View} (hv : v.alive = true → v.mode = .shared) (p : GuardPost C)
    (use : ViewUse C R) : ∃ a, v.use p use = (.ok a, p) := by
  obtain ⟨place, mode, alive⟩ := v
  cases alive with
  | false => cases use <;> exact ⟨_, rfl⟩
  | true =>
    obtain rfl : mode = .shared := hv rfl
    cases use <;> exact ⟨_, rfl⟩

theorem Command.runAll_view {p : GuardPost C} {n : ℕ} {innermost : Option ℕ}
    (hn : ∀ v, p.views[n]? = some v → v.alive = true → v.mode = .shared)
    (uses : List (ViewUse C R)) :
    (runAll (uses.map (.view (.granted n))) innermost p).2 = p := by
  induction uses with
  | nil => rfl
  | cons use uses ih =>
    have huse : ∃ a, (Command.view (.granted n) use).run innermost p = (.ok a, p) := by
      rw [run]
      split
      · next granted hgranted => exact granted.exists_use_eq (hn granted hgranted) p use
      · exact ⟨_, rfl⟩
    obtain ⟨a, ha⟩ := huse
    rw [List.map_cons, runAll, ha]
    exact ih

/-! ### All moments -/

/-- Where locks, records and views agree with the running scopes, all is as it should be. -/
theorem Moment.disciplined_of_orderly {m : Moment C R} (hm : m.post.Orderly m.scopes)
    (hkept : Kept m.scopes m.post m.next) (hroom : ∀ i, m.readers i < 2 ^ 30 - 2) :
    m.Disciplined := by
  have hrefused : ∀ i mode, m.Barred i mode →
      m.post.acquire i mode = (.error (.relock mode), m.post) := by
    intro i mode hbarred
    rcases hm.locked.acquire_cases mode (hroom i) with ⟨-, hacquire⟩ | ⟨hnone, -⟩
    · exact hacquire
    · rw [barred_iff, hnone] at hbarred
      cases hbarred
  refine
    { recorded := hm.locked.records_eq
      counted := hm.locked.lock_eq
      refused := hrefused
      admitted := ?_
      aborts := fun i mode hlock hbarred =>
        Command.run_of_refused hlock (hrefused i mode hbarred) m.innermost
      restored := ⟨fun i => ?_, ?_⟩
      alive_iff := fun n granted hn => hm.alive_iff hn
      ended := ?_
      running := ?_
      readOnly := ?_
      frozen := hkept.frozen }
  · intro i mode hnot
    rcases hm.locked.acquire_cases mode (hroom i) with
      ⟨hconflicts, -⟩ | ⟨-, q, hacquire, -⟩
    · exact absurd (barred_iff.2 hconflicts) hnot
    · rw [hacquire]
  · rw [hkept.orderly.locked.lock_eq, hm.locked.lock_eq]
  · rw [hkept.orderly.locked.records_eq, hm.locked.records_eq]
  · intro v n granted hv hn hdead
    simp only [m.useView_eq hv hn]
    exact granted.use_of_revoked hdead m.post
  · intro v s hs hv
    have hn := hm.granted.running s hs
    simp only [m.useView_eq hv hn]
    obtain ⟨place, mode, view⟩ := s
    refine ⟨rfl, fun f => rfl, fun what f => ?_⟩
    cases mode <;> rfl
  · intro n hshared uses
    refine Command.runAll_view (fun v hv halive => ?_) uses
    obtain ⟨s, hs, rfl⟩ := hm.granted.alive n v hv halive
    rw [hm.granted.running s hs] at hv
    rw [← Option.some.inj hv]
    exact hshared s hs rfl

/-- **The discipline of scopes.**  At every moment of a program that begins with guarded values that
nobody uses, acquisitions are refused exactly where a running scope is in their way, commands leave
locks and records as they found them, and views are as good as their scopes.  A revoked view stays
so at all later moments.  When the program has ended, every lock is free, the thread has no records
and every view is revoked. -/
theorem scopes_disciplined (delegates : ℕ → C) (program : List (Command C R))
    (hfew : FewReaders (Command.momentsOf program none (.start delegates) [])) :
    (∀ m ∈ Command.momentsOf program none (.start delegates) [], m.Disciplined) ∧
      (Command.momentsOf program none (.start delegates) []).Pairwise (fun m m' =>
        ∀ (n : ℕ) (v : View), m.post.views[n]? = some v → v.alive = false →
          m'.post.views[n]? = some v) ∧
      (∀ i, (Command.runAll program none (.start delegates)).2.lock i = .free) ∧
      (Command.runAll program none (.start delegates)).2.records = [] ∧
      ∀ v ∈ (Command.runAll program none (.start delegates)).2.views, v.alive = false := by
  have hpassage := Command.passage_runAll program (GuardPost.orderly_start delegates) hfew
  have hend := hpassage.kept.orderly
  refine ⟨fun m hm => ?_, hpassage.pairwise, fun i => ?_, hend.locked.records_eq, fun v hv => ?_⟩
  · obtain ⟨horderly, hkept⟩ := hpassage.orderly m hm
    exact m.disciplined_of_orderly horderly hkept (hfew m hm)
  · rw [hend.locked.lock_eq]
    rfl
  · obtain ⟨n, hn⟩ := Array.mem_iff_getElem?.1 hv
    by_contra halive
    rw [Bool.not_eq_false] at halive
    obtain ⟨s, hs, -⟩ := hend.granted.alive n v hn halive
    cases hs

theorem fewReaders_of_length {ms : List (Moment C R)}
    (h : ∀ m ∈ ms, m.scopes.length < 2 ^ 30 - 2) : FewReaders ms := by
  intro m hm i
  have hle : m.readers i ≤ (m.scopes.map OpenScope.record).length := List.count_le_length
  rw [List.length_map] at hle
  exact hle.trans_lt (h m hm)

/-- For example two guarded numbers.  In a shared scope of the first, an exclusive scope of the
second adds one, tries to change the first, which is refused, and then aborts.  The view of the
first is used once more when its scope has ended. -/
theorem scopes_disciplined_nested :
    let change : ℕ → Except Abort ℕ × ℕ := fun n => (.ok n, n + 1)
    let inner : Command ℕ ℕ := .scope 1 .exclusive
      [.view .innermost (.change .add change), .attempt (.write 0 change), .raise "stop"] []
    let program : List (Command ℕ ℕ) :=
      [.scope 0 .shared [.attempt inner] [.view .innermost (.read id)]]
    let ms := Command.momentsOf program none (.start fun _ => 0) []
    let q := (Command.runAll program none (.start fun _ => 0)).2
    FewReaders ms ∧
      (∃ m ∈ ms, m.scopes = [⟨1, .exclusive, 1⟩, ⟨0, .shared, 0⟩] ∧ m.post.delegate 1 = 1 ∧
        m.post.acquire 0 .exclusive = (.error (.relock .exclusive), m.post)) ∧
      (∃ m ∈ ms, m.scopes = [] ∧
        m.useView .innermost (.read id) = (.ok (.error .usageAfterScope), m.post)) ∧
      q.lock 0 = .free ∧ q.lock 1 = .free ∧ q.records = [] ∧ q.delegate 0 = 0 ∧
      q.delegate 1 = 1 := by
  intro change inner program ms q
  have hfew : FewReaders ms := by
    have hlength : ms.all (fun m => m.scopes.length ≤ 2) = true := by decide +kernel
    refine fewReaders_of_length fun m hm => ?_
    have hle := of_decide_eq_true (List.all_eq_true.1 hlength m hm)
    omega
  obtain ⟨hall, -, hfree, hrecords, -⟩ := scopes_disciplined (fun _ => 0) program hfew
  -- the refused change is the sixth command to run, and the late use of the view the last one
  have hchange : (ms[5]?.map fun m => (m.scopes, m.post.delegate 1))
      = some ([⟨1, .exclusive, 1⟩, ⟨0, .shared, 0⟩], 1) := by decide +kernel
  have huse : (ms[7]?.map fun m => (m.scopes, m.innermost, m.post.views[0]?))
      = some ([], some 0, some ⟨0, .shared, false⟩) := by decide +kernel
  obtain ⟨m, hm, hfacts⟩ := Option.map_eq_some_iff.1 hchange
  obtain ⟨hscopes, hone⟩ := Prod.mk.inj hfacts
  obtain ⟨m', hm', hfacts'⟩ := Option.map_eq_some_iff.1 huse
  obtain ⟨hscopes', hrest⟩ := Prod.mk.inj hfacts'
  obtain ⟨hinnermost, hrevoked⟩ := Prod.mk.inj hrest
  have hbarred : m.Barred 0 .exclusive := ⟨⟨0, .shared, 0⟩, by simp [hscopes], rfl, Or.inr rfl⟩
  refine ⟨hfew, ⟨m, List.mem_of_getElem? hm, hscopes, hone, ?_⟩,
    ⟨m', List.mem_of_getElem? hm', hscopes', ?_⟩, hfree 0, hfree 1, hrecords, by decide +kernel,
    by decide +kernel⟩
  · exact (hall m (List.mem_of_getElem? hm)).refused 0 .exclusive hbarred
  · exact ((hall m' (List.mem_of_getElem? hm')).ended .innermost 0 _ hinnermost hrevoked rfl).2.1 id

end Slotted
