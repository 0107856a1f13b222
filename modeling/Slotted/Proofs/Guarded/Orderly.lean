import Mathlib.Data.List.Pairwise
import Slotted.Proofs.Guarded.Scope

/-!
# Locks, records and views agree with the running scopes

A thread that works on guarded values is at every moment inside of some scopes, each of which holds
a lock and has granted a view.  These scopes determine everything else that has to do with locks:
the records of the thread list them, the word of each lock counts those on it, and the views that
are alive are theirs.  A scope that begins adds to all three, and takes the same back when it ends.

## Main definitions

* `OpenScope` — a running scope.
* `Records.Compatible` — of several holds on one lock all are shared.
* `LockWord.ofRecords` — the word of a lock on which one thread has some holds.
* `GuardPost.Locked`, `GrantedBy`, `GuardPost.Orderly` — the agreement, for the locks, for the
  views, and for both.

## Main results

* `GuardPost.Locked.acquire_cases` — what an acquisition does.
* `GuardPost.Locked.release` — a release takes it back.
* `GuardPost.Orderly.enter`, `GuardPost.Orderly.leave` — the begin and the end of a scope.
-/

namespace Slotted

/-- A scope that is running. -/
structure OpenScope where
  /-- The number of the guarded value. -/
  place : ℕ
  /-- How the lock is held. -/
  mode : Mode
  /-- The number of the view that the scope granted. -/
  view : ℕ
  deriving DecidableEq, Repr

/-- The record of the hold of a scope. -/
def OpenScope.record (s : OpenScope) : ℕ × Mode := (s.place, s.mode)

/-! ### Records of one thread -/

namespace Records

variable {r : Records} {i j : ℕ} {mode : Mode}

/-- Two holds go together: they are of two locks, or both are shared. -/
def Fit (a b : ℕ × Mode) : Prop := a.1 = b.1 → a.2 = .shared ∧ b.2 = .shared

instance : Std.Symm Fit := ⟨fun _ _ h hab => (h hab.symm).symm⟩

/-- Of several holds on one lock all are shared. -/
def Compatible (r : Records) : Prop := r.Pairwise Fit

theorem conflicts_iff : r.conflicts i mode = true ↔
    ∃ held, (i, held) ∈ r ∧ (held = .exclusive ∨ mode = .exclusive) := by
  simp only [conflicts, clash, List.any_eq_true, Bool.and_eq_true, Bool.or_eq_true, beq_iff_eq]
  constructor
  · rintro ⟨⟨l, held⟩, hmem, rfl, hclash⟩
    exact ⟨held, hmem, hclash⟩
  · rintro ⟨held, hmem, hclash⟩
    exact ⟨(i, held), hmem, rfl, hclash⟩

theorem conflicts_eq_false_iff : r.conflicts i mode = false ↔
    ∀ held, (i, held) ∈ r → mode = .shared ∧ held = .shared := by
  rw [← Bool.not_eq_true, conflicts_iff]
  constructor
  · intro h held hmem
    constructor
    · cases mode with
      | shared => rfl
      | exclusive => exact absurd ⟨held, hmem, Or.inr rfl⟩ h
    · cases held with
      | shared => rfl
      | exclusive => exact absurd ⟨.exclusive, hmem, Or.inl rfl⟩ h
  · rintro h ⟨held, hmem, hclash⟩
    obtain ⟨rfl, rfl⟩ := h held hmem
    rcases hclash with hclash | hclash <;> cases hclash

theorem compatible_cons :
    Compatible ((i, mode) :: r) ↔ r.conflicts i mode = false ∧ r.Compatible := by
  rw [Compatible, List.pairwise_cons, conflicts_eq_false_iff]
  refine and_congr_left fun _ => ⟨fun h held hmem => h (i, held) hmem rfl, ?_⟩
  rintro h ⟨l, held⟩ hmem rfl
  exact h held hmem

end Records

/-! ### The word of a lock -/

namespace LockWord

variable {r : Records} {i j n : ℕ} {mode : Mode}

/-- The word of a lock on which one thread has the given holds and nobody else has any. -/
def ofRecords (r : Records) (i : ℕ) : LockWord :=
  if (i, Mode.exclusive) ∈ r then free.setExclusive else ⟨UInt32.ofNat (r.count (i, .shared))⟩

theorem ofRecords_cons_of_ne (hij : j ≠ i) : ofRecords ((i, mode) :: r) j = ofRecords r j := by
  have hne : ∀ m, (j, m) ≠ (i, mode) := fun m h => hij (congrArg Prod.fst h)
  rw [ofRecords, ofRecords, List.count_cons_of_ne (hne .shared).symm]
  simp [hne]

theorem toNat_ofNat_of_lt (hn : n < 2 ^ 30) : (UInt32.ofNat n).toNat = n :=
  UInt32.toNat_ofNat_of_lt' (hn.trans (by decide))

theorem isExclusive_ofNat (hn : n < 2 ^ 30) : isExclusive ⟨UInt32.ofNat n⟩ = false := by
  rw [isExclusive_eq_testBit, toNat_ofNat_of_lt hn]
  exact Nat.testBit_lt_two_pow (hn.trans (by decide))

theorem hasRoom_ofNat (hn : n < 2 ^ 30 - 2) : hasRoom ⟨UInt32.ofNat n⟩ = true := by
  have hlt : n < 2 ^ 30 := by omega
  rw [hasRoom_iff, readers_eq_mod, toNat_ofNat_of_lt hlt, Nat.mod_eq_of_lt hlt]
  exact hn

theorem addReader_ofNat (n : ℕ) : addReader ⟨UInt32.ofNat n⟩ = ⟨UInt32.ofNat (n + 1)⟩ :=
  congrArg LockWord.mk (UInt32.ofNat_add n 1).symm

theorem ofRecords_eq_free (h : r.conflicts i .exclusive = false) : ofRecords r i = free := by
  have hnone : ∀ held, (i, held) ∉ r := fun held hmem =>
    absurd (Records.conflicts_eq_false_iff.1 h held hmem).1 (by decide)
  rw [ofRecords, if_neg (hnone _), List.count_eq_zero_of_not_mem (hnone _)]
  rfl

theorem ofRecords_of_shared (h : r.conflicts i .shared = false) :
    ofRecords r i = ⟨UInt32.ofNat (r.count (i, .shared))⟩ := by
  refine if_neg fun hmem => ?_
  exact absurd (Records.conflicts_eq_false_iff.1 h _ hmem).2 (by decide)

theorem ofRecords_cons_shared (h : r.conflicts i .shared = false) :
    ofRecords ((i, .shared) :: r) i = (ofRecords r i).addReader := by
  have hmem : (i, Mode.exclusive) ∉ (i, Mode.shared) :: r := by
    rw [List.mem_cons, not_or]
    refine ⟨by simp, fun hmem => ?_⟩
    exact absurd (Records.conflicts_eq_false_iff.1 h _ hmem).2 (by decide)
  rw [ofRecords_of_shared h, addReader_ofNat, ofRecords, if_neg hmem, List.count_cons_self]

theorem ofRecords_cons_exclusive : ofRecords ((i, .exclusive) :: r) i = free.setExclusive :=
  if_pos List.mem_cons_self

/-- A thread that has no hold in the way gets the lock. -/
theorem acquired?_ofRecords (h : r.conflicts i mode = false)
    (hroom : r.count (i, .shared) < 2 ^ 30 - 2) :
    (ofRecords r i).acquired? mode = some (ofRecords ((i, mode) :: r) i) := by
  cases mode with
  | shared =>
    rw [ofRecords_cons_shared h, ofRecords_of_shared h, acquired?,
      isExclusive_ofNat (by omega), hasRoom_ofNat hroom]
    rfl
  | exclusive =>
    rw [ofRecords_cons_exclusive, ofRecords_eq_free h]
    rfl

/-- The release leaves what the other holds of the thread make of the word. -/
theorem released_ofRecords (h : r.conflicts i mode = false) :
    (ofRecords ((i, mode) :: r) i).released mode = ofRecords r i := by
  cases mode with
  | shared =>
    rw [ofRecords_cons_shared h]
    exact removeReader_addReader _
  | exclusive =>
    rw [ofRecords_eq_free h]
    rfl

end LockWord

/-! ### Locks -/

namespace GuardPost

variable {C : Type} {p : GuardPost C} {r : Records} {i j : ℕ} {mode : Mode}

theorem lock_setDelegate (p : GuardPost C) (i : ℕ) (c : C) :
    (p.setDelegate i c).lock j = p.lock j := by
  by_cases hij : j = i
  · have hvalue : (p.setDelegate i c).values j = { p.values i with delegate := c } := if_pos hij
    rw [lock, hvalue, hij]
    rfl
  · exact congrArg Guarded.lock (if_neg hij)

theorem delegate_setDelegate_of_ne (hij : j ≠ i) (p : GuardPost C) (c : C) :
    (p.setDelegate i c).delegate j = p.delegate j :=
  congrArg Guarded.delegate (if_neg hij)

theorem delegate_release (p : GuardPost C) (i : ℕ) (mode : Mode) :
    (p.release i mode).delegate j = p.delegate j :=
  p.delegate_setLock i _

/-- The thread has the given records, and the locks have the words of these holds and of no
others. -/
structure Locked (p : GuardPost C) (r : Records) : Prop where
  /-- The records. -/
  records_eq : p.records = r
  /-- They go together. -/
  compatible : r.Compatible
  /-- The words. -/
  lock_eq : ∀ i, p.lock i = .ofRecords r i

/-- An acquisition is refused, and nothing has happened, if the thread has a hold in the way;
otherwise it succeeds. -/
theorem Locked.acquire_cases (hp : p.Locked r) (mode : Mode)
    (hroom : r.count (i, .shared) < 2 ^ 30 - 2) :
    r.conflicts i mode = true ∧ p.acquire i mode = (.error (.relock mode), p) ∨
      r.conflicts i mode = false ∧ ∃ q : GuardPost C, p.acquire i mode = (.ok (), q) ∧
        q.Locked ((i, mode) :: r) ∧ q.views = p.views ∧ ∀ j, q.delegate j = p.delegate j := by
  cases h : r.conflicts i mode with
  | true =>
    refine Or.inl ⟨rfl, ?_⟩
    rw [acquire, Records.enter, hp.records_eq, h]
    rfl
  | false =>
    refine Or.inr ⟨rfl, { p.setLock i (.ofRecords ((i, mode) :: r) i) with
      records := (i, mode) :: r }, ?_, ⟨rfl, ?_, fun j => ?_⟩, rfl, fun j => p.delegate_setLock i _⟩
    · rw [acquire, Records.enter, hp.records_eq, h, hp.lock_eq]
      simp only [Bool.false_eq_true, if_false, LockWord.acquired?_ofRecords h hroom]
    · exact Records.compatible_cons.2 ⟨h, hp.compatible⟩
    · by_cases hij : j = i
      · subst hij
        exact p.lock_setLock j _
      · rw [LockWord.ofRecords_cons_of_ne hij, ← hp.lock_eq]
        exact lock_setLock_of_ne hij p _

/-- A release takes back what the acquisition did. -/
theorem Locked.release (hp : p.Locked ((i, mode) :: r)) : (p.release i mode).Locked r := by
  obtain ⟨hnone, hcompatible⟩ := Records.compatible_cons.1 hp.compatible
  refine ⟨?_, hcompatible, fun j => ?_⟩
  · show p.records.erase (i, mode) = r
    rw [hp.records_eq, List.erase_cons_head]
  · by_cases hij : j = i
    · subst hij
      have hword : (p.release j mode).lock j = (p.lock j).released mode := p.lock_setLock j _
      rw [hword, hp.lock_eq, LockWord.released_ofRecords hnone]
    · have hword : (p.release i mode).lock j = p.lock j := lock_setLock_of_ne hij p _
      rw [hword, hp.lock_eq, LockWord.ofRecords_cons_of_ne hij]

theorem Locked.setDelegate (hp : p.Locked r) (i : ℕ) (c : C) : (p.setDelegate i c).Locked r :=
  ⟨hp.records_eq, hp.compatible, fun _ => (p.lock_setDelegate i c).trans (hp.lock_eq _)⟩

end GuardPost

/-! ### Views -/

/-- The views that are alive are those of the running scopes. -/
structure GrantedBy (views : Array View) (scopes : List OpenScope) : Prop where
  /-- A running scope has granted its view, which is alive. -/
  running : ∀ s ∈ scopes, views[s.view]? = some ⟨s.place, s.mode, true⟩
  /-- A view that is alive is that of a running scope. -/
  alive : ∀ (n : ℕ) (v : View), views[n]? = some v → v.alive = true → ∃ s ∈ scopes, s.view = n
  /-- Each scope has a view of its own. -/
  distinct : (scopes.map OpenScope.view).Nodup

namespace GrantedBy

variable {views : Array View} {scopes : List OpenScope} {s : OpenScope}

theorem nil : GrantedBy #[] [] := ⟨by simp, by simp, List.nodup_nil⟩

theorem view_lt (h : GrantedBy views scopes) (hs : s ∈ scopes) : s.view < views.size :=
  (Array.getElem?_eq_some_iff.1 (h.running s hs)).1

theorem push (h : GrantedBy views scopes) (i : ℕ) (mode : Mode) :
    GrantedBy (views.push ⟨i, mode, true⟩) (⟨i, mode, views.size⟩ :: scopes) := by
  refine ⟨fun s hs => ?_, fun n v hv halive => ?_, ?_⟩
  · rcases List.mem_cons.1 hs with rfl | hs
    · exact Array.getElem?_push_size
    · rw [Array.getElem?_push, if_neg (h.view_lt hs).ne]
      exact h.running s hs
  · rw [Array.getElem?_push] at hv
    split at hv
    · next hn => exact ⟨_, List.mem_cons_self, hn.symm⟩
    · obtain ⟨s, hs, hn⟩ := h.alive n v hv halive
      exact ⟨s, List.mem_cons_of_mem _ hs, hn⟩
  · refine List.nodup_cons.2 ⟨fun hmem => ?_, h.distinct⟩
    obtain ⟨s, hs, hview⟩ := List.mem_map.1 hmem
    exact absurd (h.view_lt hs) (by simp only [hview]; omega)

/-- The end of the latest scope ends its view. -/
theorem revoke (h : GrantedBy views (s :: scopes)) :
    GrantedBy (views.modify s.view fun v => { v with alive := false }) scopes := by
  obtain ⟨hnot, hdistinct⟩ := List.nodup_cons.1 h.distinct
  refine ⟨fun s' hs' => ?_, fun n v hv halive => ?_, hdistinct⟩
  · have hne : s.view ≠ s'.view := fun heq => hnot (heq ▸ List.mem_map_of_mem hs')
    rw [Array.getElem?_modify, if_neg hne]
    exact h.running s' (List.mem_cons_of_mem _ hs')
  · rw [Array.getElem?_modify] at hv
    split at hv
    · obtain ⟨v', -, rfl⟩ := Option.map_eq_some_iff.1 hv
      cases halive
    · next hne =>
      obtain ⟨s', hs', rfl⟩ := h.alive n v hv halive
      rcases List.mem_cons.1 hs' with rfl | hs'
      · exact absurd rfl hne
      · exact ⟨s', hs', rfl⟩

end GrantedBy

/-! ### Both together -/

namespace GuardPost

variable {C : Type} {p q : GuardPost C} {scopes : List OpenScope} {s : OpenScope} {i : ℕ}
  {mode : Mode}

/-- Locks, records and views are those of the running scopes, of which the latest is the first. -/
structure Orderly (p : GuardPost C) (scopes : List OpenScope) : Prop where
  /-- Locks and records. -/
  locked : p.Locked (scopes.map OpenScope.record)
  /-- Views. -/
  granted : GrantedBy p.views scopes

/-- A scope that got its lock grants a view. -/
theorem Orderly.enter (hp : p.Orderly scopes)
    (hq : q.Locked ((i, mode) :: scopes.map OpenScope.record)) (hviews : q.views = p.views) :
    (q.grant i mode).2.Orderly (⟨i, mode, (q.grant i mode).1⟩ :: scopes) := by
  refine ⟨⟨hq.records_eq, hq.compatible, hq.lock_eq⟩, ?_⟩
  have hpush := hp.granted.push i mode
  rw [← hviews] at hpush
  exact hpush

/-- The end of the latest scope revokes its view and releases its lock. -/
theorem Orderly.leave (hp : p.Orderly (s :: scopes)) :
    ((p.revoke s.view).release s.place s.mode).Orderly scopes := by
  have hrevoked : (p.revoke s.view).Locked (s.record :: scopes.map OpenScope.record) :=
    ⟨hp.locked.records_eq, hp.locked.compatible, hp.locked.lock_eq⟩
  exact ⟨hrevoked.release, hp.granted.revoke⟩

end GuardPost
end Slotted
