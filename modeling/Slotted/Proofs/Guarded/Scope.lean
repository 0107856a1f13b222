import Mathlib.Data.Nat.Basic
import Slotted.Guarded.Program
import Slotted.Proofs.Lock.Word

/-!
# Scopes with a shared hold

A scope that gets a shared hold counts it in the word and records it, and at its end takes both back
and revokes its view.  If its body only reads, the values are what they were, so of the whole scope
nothing remains but a view that reaches nothing.

## Main definitions

* `GuardPost.hold` — a post with one more shared hold.

## Main results

* `GuardPost.acquire_shared_ok_iff` — when a shared hold is granted.
* `GuardPost.release_hold` — the release takes back what the acquisition did.
* `GuardPost.run_read`, `GuardPost.run_scope_read` — a call that reads, and a scope whose body only
  reads.
-/

namespace Slotted
namespace GuardPost

variable {C : Type} {p : GuardPost C} {i : ℕ}

theorem eq_of_values {p q : GuardPost C} (hvalues : ∀ j, p.values j = q.values j)
    (hrecords : p.records = q.records) (hviews : p.views = q.views) : p = q := by
  obtain ⟨values, records, views⟩ := p
  obtain rfl : values = q.values := funext hvalues
  obtain rfl : records = q.records := hrecords
  obtain rfl : views = q.views := hviews
  rfl

theorem lock_setLock (p : GuardPost C) (i : ℕ) (w : LockWord) : (p.setLock i w).lock i = w :=
  congrArg Guarded.lock (if_pos rfl)

theorem lock_setLock_of_ne {j : ℕ} (hij : j ≠ i) (p : GuardPost C) (w : LockWord) :
    (p.setLock i w).lock j = p.lock j :=
  congrArg Guarded.lock (if_neg hij)

theorem delegate_setLock (p : GuardPost C) (i : ℕ) (w : LockWord) {j : ℕ} :
    (p.setLock i w).delegate j = p.delegate j := by
  by_cases hij : j = i
  · have hvalue : (p.setLock i w).values j = { p.values i with lock := w } := if_pos hij
    rw [delegate, hvalue, hij]
    rfl
  · exact congrArg Guarded.delegate (if_neg hij)

/-- A shared hold is granted where the thread does not exclude itself and the word has room. -/
theorem acquire_shared_ok_iff : (p.acquire i .shared).1 = .ok () ↔
    p.records.conflicts i .shared = false ∧ (p.lock i).isExclusive = false ∧
      (p.lock i).hasRoom = true := by
  rw [acquire, Records.enter]
  cases p.records.conflicts i .shared <;> cases hex : (p.lock i).isExclusive <;>
    cases hroom : (p.lock i).hasRoom <;> simp [LockWord.acquired?, hex, hroom]

/-- The post with one more shared hold of a lock, and the record of it. -/
def hold (p : GuardPost C) (i : ℕ) : GuardPost C :=
  { p.setLock i (p.lock i).addReader with records := (i, .shared) :: p.records }

theorem acquire_shared_eq (h : (p.acquire i .shared).1 = .ok ()) :
    p.acquire i .shared = (.ok (), p.hold i) := by
  obtain ⟨hconflicts, hexclusive, hroom⟩ := acquire_shared_ok_iff.1 h
  simp [acquire, Records.enter, LockWord.acquired?, hconflicts, hexclusive, hroom, hold]

/-- The release takes back what the acquisition did. -/
theorem release_hold (p : GuardPost C) (i : ℕ) (views : Array View) :
    ({ p.hold i with views := views } : GuardPost C).release i .shared
      = { p with views := views } := by
  have hword : ((p.hold i).lock i).released .shared = p.lock i := by
    have hlock : (p.hold i).lock i = (p.lock i).addReader := lock_setLock p i _
    rw [hlock]
    exact LockWord.removeReader_addReader _
  refine eq_of_values ?_ ?_ rfl
  · intro j
    show (if j = i then { (p.hold i).values i with lock := ((p.hold i).lock i).released .shared }
      else (p.hold i).values j) = p.values j
    by_cases hj : j = i
    · have hheld : ((p.hold i).values i).delegate = p.delegate i := delegate_setLock p i _
      rw [if_pos hj, hword, hj]
      exact congrArg (Guarded.mk · (p.lock i)) hheld
    · rw [if_neg hj]
      exact if_neg hj
  · show ((i, Mode.shared) :: p.records).erase (i, Mode.shared) = p.records
    exact List.erase_cons_head _ _

/-- A call that reads, under a shared hold of its own, leaves everything as it was. -/
theorem run_read {R : Type} (hhold : (p.acquire i .shared).1 = .ok ()) (innermost : Option ℕ)
    (f : C → R) :
    (Command.read i f).run innermost p = (.ok (.value (f (p.delegate i))), p) := by
  have hdelegate : (p.hold i).delegate i = p.delegate i := delegate_setLock p i _
  have hrelease : (p.hold i).release i .shared = p := release_hold p i p.views
  rw [Command.run, acquire_shared_eq hhold]
  simp only [hdelegate, hrelease]

theorem revoke_push (p : GuardPost C) (v : View) :
    ({ p with views := p.views.push v } : GuardPost C).revoke p.views.size
      = { p with views := p.views.push { v with alive := false } } := by
  refine congrArg (GuardPost.mk p.values p.records) (Array.ext (by simp) ?_)
  intro j hj hj'
  have hle : j ≤ p.views.size := by simpa [Nat.lt_succ_iff] using hj'
  rcases Nat.lt_or_eq_of_le hle with hlt | rfl
  · simp [Array.getElem_modify, Array.getElem_push, hlt, hlt.ne']
  · simp [Array.getElem_modify]

/-- Reading through a view that is alive. -/
theorem runAll_read {R : Type} {n : ℕ} {v : View} (hview : p.views[n]? = some v)
    (halive : v.alive = true) (f : C → R) :
    Command.runAll [.view .innermost (.read f)] (some n) p
      = (.ok [.value (f (p.delegate v.place))], p) := by
  have hgranted : (ViewRef.innermost.number? (some n)).bind (p.views[·]?) = some v := hview
  have huse : v.use p (.read f) = (.ok (.value (f (p.delegate v.place))), p) := if_pos halive
  simp only [Command.runAll, Command.run, hgranted, huse]
  rfl

/-- A scope whose body only reads answers with what it read.  Afterwards the lock is as it was, and
the view is revoked. -/
theorem run_scope_read {R : Type} (hhold : (p.acquire i .shared).1 = .ok ())
    (innermost : Option ℕ) (f : C → R) :
    (Command.scope i .shared [.view .innermost (.read f)] []).run innermost p
      = (.ok (.scope [.value (f (p.delegate i))] []),
          { p with views := p.views.push ⟨i, .shared, false⟩ }) := by
  obtain ⟨q, hq⟩ : ∃ q : GuardPost C,
      q = { p.hold i with views := p.views.push ⟨i, .shared, true⟩ } := ⟨_, rfl⟩
  have hgrant : (p.hold i).grant i .shared = (p.views.size, q) := by
    rw [hq]
    rfl
  have hread : Command.runAll [.view .innermost (.read f)] (some p.views.size) q
      = (.ok [.value (f (p.delegate i))], q) := by
    have hview : q.views[p.views.size]? = some ⟨i, .shared, true⟩ := by
      rw [hq]
      exact Array.getElem?_push_size
    have hdelegate : q.delegate i = p.delegate i := by
      rw [hq]
      exact delegate_setLock p i _
    rw [runAll_read hview rfl f, hdelegate]
  have hend : (q.revoke p.views.size).release i .shared
      = { p with views := p.views.push ⟨i, .shared, false⟩ } := by
    have hrevoke : q.revoke p.views.size
        = { p.hold i with views := p.views.push ⟨i, .shared, false⟩ } := by
      rw [hq]
      exact (p.hold i).revoke_push ⟨i, .shared, true⟩
    rw [hrevoke]
    exact release_hold p i _
  rw [Command.run, acquire_shared_eq hhold]
  simp only [hgrant, hread, hend]
  rw [Command.runAll]
  rfl

end GuardPost
end Slotted
